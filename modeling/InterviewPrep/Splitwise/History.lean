/-
  The books of the service: which ids are in use, that every entry is exact and belongs to an
  existing ledger (`WF`), and that a ledger none of whose writes overflowed is the effect of its
  history (`Kept`).  Both hold in every state a run reaches.

  Every ledger equals its history.  One change posts to at most one ledger what it adds to (or
  removes from) the history of that ledger (`Changed.kept`), so the equality survives every run,
  failing calls included (`run_ledger`).
-/
import InterviewPrep.Splitwise.Changes

namespace InterviewPrep.Splitwise

open Lib BalanceSheet Dict EState List Option

/-! ## Ids -/

variable {p : String} {n : Nat} {ν : Type}

theorem append_toString_inj {m : Nat} (h : p ++ toString m = p ++ toString n) : m = n := by
  have hlist : m.repr.toList = n.repr.toList := by
    have := congrArg String.toList h
    rwa [String.toList_append, String.toList_append, append_cancel_left_eq] at this
  rw [Nat.toList_repr, Nat.toList_repr] at hlist
  rw [← Nat.ofDigitChars_ten_toDigits (n := m), hlist, Nat.ofDigitChars_ten_toDigits]

/-- Every key is one that the counter has passed. -/
def Drawn {ν : Type} (p : String) (n : Nat) (d : Dict String ν) : Prop :=
  ∀ k ∈ d.keys, ∃ m < n, k = p ++ toString m

variable {d : Dict String ν}

theorem Drawn.fresh (h : Drawn p n d) : d.get? (p ++ toString n) = none := by
  rw [get?_eq_none]
  intro hmem
  obtain ⟨m, hm, heq⟩ := h _ hmem
  have := append_toString_inj heq
  omega

theorem Drawn.mono {m : Nat} (h : Drawn p m d) (hle : m ≤ n) : Drawn p n d := by
  intro k hk
  obtain ⟨i, hi, heq⟩ := h k hk
  exact ⟨i, by omega, heq⟩

theorem Drawn.set (h : Drawn p n d) (v : ν) : Drawn p (n + 1) (d.set (p ++ toString n) v) := by
  intro k hk
  rcases mem_keys_set.mp hk with rfl | hk
  · exact ⟨n, Nat.lt_succ_self n, rfl⟩
  · exact h.mono (Nat.le_succ n) k hk

namespace SplitwiseService

/-! ## Ledgers and their history -/

/-- The ledger of a group, or the personal one. -/
def ledger? (s : SplitwiseService) : Option String → Option BalanceSheet
  | none => some s.personal
  | some gid => (s.groups.get? gid).map Group.ledger

/-- The entries that count in a ledger: its expenses that were not deleted, and its payments. -/
def history (s : SplitwiseService) (l : Option String) : List (String × Int) :=
  (s.expenses.values.filter fun e => e.groupId = l).flatMap Expense.postings ++
    (s.payments.filter fun p => p.groupId = l).flatMap Payment.postings

/-- The postings that an accepted call makes to a ledger. -/
inductive Posts (s : SplitwiseService) : Op → Option String → List (String × Int) → Prop
  | expense (a : ExpenseArgs) (total : Decimal) (shares : Dict String Decimal)
      (h : s.Accepts a total shares) :
      Posts s (.addExpense a) a.groupId (expensePostings a.paidBy total.coeff (shareCents shares))
  | reversal (expenseId : String) (e : Expense) (he : s.expenses.get? expenseId = some e) :
      Posts s (.deleteExpense expenseId) e.groupId (reversed e.postings)
  | payment (fromUser toUser : String) (amount : MoneyLike) (groupId : Option String)
      (value : Decimal) (h : s.AcceptsPayment fromUser toUser amount groupId value) :
      Posts s (.recordPayment fromUser toUser amount groupId) groupId
        [(fromUser, value.coeff), (toUser, -value.coeff)]

/-- The call does not overflow the context in the ledger `l`. -/
def NoOverflow (l : Option String) (s : SplitwiseService) (op : Op) : Prop :=
  ∀ ps b, s.Posts op l ps → s.ledger? l = some b → Fits b.cents ps

/-! ## Well-formed books -/

/-- The ledger of an entry exists. -/
def HasLedger (s : SplitwiseService) (groupId : Option String) : Prop :=
  ∀ gid, groupId = some gid → (s.groups.get? gid).isSome

structure WF (s : SplitwiseService) : Prop where
  groupIds : Drawn "G" s.nextId s.groups
  expenseIds : Drawn "E" s.nextId s.expenses
  expenses : ∀ k e, s.expenses.get? k = some e → e.Exact ∧ s.HasLedger e.groupId
  payments : ∀ p ∈ s.payments, p.Exact ∧ s.HasLedger p.groupId

/-- The ledger `l` holds the effect of its history, and sums to zero. -/
def Kept (l : Option String) (s : SplitwiseService) : Prop :=
  ∀ b, s.ledger? l = some b →
    b.Exact ∧ (∀ u, b.cents u = effect (s.history l) u) ∧ b.total = 0

theorem new_wf (settlement : SettlementStrategy) : (new settlement).WF where
  groupIds := nofun
  expenseIds := nofun
  expenses := nofun
  payments := nofun

theorem new_kept (l : Option String) (settlement : SettlementStrategy) :
    (new settlement).Kept l := by
  intro b hb
  cases l with
  | none =>
    cases hb
    exact ⟨new_exact, fun u => rfl, rfl⟩
  | some => cases hb

variable {s t : SplitwiseService} {k : String}

theorem WF.ledger_eq (hs : s.WF) {e : Expense} (he : s.expenses.get? k = some e) :
    Expense.ledger e = e.groupId := by
  rw [Expense.ledger]
  cases hgid : e.groupId with
  | none => rfl
  | some gid =>
    obtain ⟨g, hg⟩ := isSome_iff_exists.mp ((hs.expenses k e he).2 gid hgid)
    obtain ⟨m, -, hm⟩ := hs.groupIds gid (Dict.mem_keys.mpr ⟨g, hg⟩)
    have hne : gid ≠ "" := by
      intro h0
      have := congrArg String.length (hm.symm.trans h0)
      rw [String.length_append] at this
      exact absurd this (by simp)
    simp [Option.filter, hne]

/-! ## Reading the changed states -/

theorem groups_modifyLedger (l : Option String) (f : BalanceSheet → BalanceSheet) (gid : String) :
    (modifyLedger l f s).groups.get? gid =
      (s.groups.get? gid).map fun g =>
        if l = some gid then { g with ledger := f g.ledger } else g := by
  cases l with
  | none => simp [modifyLedger]
  | some gid' =>
  simp only [modifyLedger]
  cases hg : s.groups.get? gid' with
  | none =>
    by_cases h : gid' = gid
    · subst h
      simp [hg]
    · simp [h]
  | some =>
    simp only [get?_set]
    by_cases h : gid' = gid
    · subst h
      simp [hg]
    · simp [h, Ne.symm h]

theorem ledger?_modifyLedger (l l' : Option String) (f : BalanceSheet → BalanceSheet) :
    (modifyLedger l f s).ledger? l' = (s.ledger? l').map fun b => if l = l' then f b else b := by
  cases l' with
  | none =>
    cases l with
    | none => rfl
    | some =>
      simp only [modifyLedger, ledger?]
      split <;> rfl
  | some =>
    rw [ledger?, groups_modifyLedger, ledger?, Option.map_map, Option.map_map]
    congr 1
    funext g
    simp only [Function.comp_apply]
    split <;> rfl

@[simp] theorem nextId_modifyLedger (l : Option String) (f : BalanceSheet → BalanceSheet) :
    (modifyLedger l f s).nextId = s.nextId := by
  unfold modifyLedger
  repeat' split
  all_goals rfl

@[simp] theorem users_modifyLedger (l : Option String) (f : BalanceSheet → BalanceSheet) :
    (modifyLedger l f s).users = s.users := by
  unfold modifyLedger
  repeat' split
  all_goals rfl

@[simp] theorem expenses_modifyLedger (l : Option String) (f : BalanceSheet → BalanceSheet) :
    (modifyLedger l f s).expenses = s.expenses := by
  unfold modifyLedger
  repeat' split
  all_goals rfl

@[simp] theorem payments_modifyLedger (l : Option String) (f : BalanceSheet → BalanceSheet) :
    (modifyLedger l f s).payments = s.payments := by
  unfold modifyLedger
  repeat' split
  all_goals rfl

/-! ## Each change keeps the books -/

theorem Accepts.exact {a : ExpenseArgs} {total : Decimal} {shares : Dict String Decimal}
    (h : s.Accepts a total shares) {e : Expense}
    (he : Expense.create k a.description total a.paidBy a.splitType shares a.category a.groupId
      = .ok e) : e.Exact ∧ e.postings = expensePostings a.paidBy total.coeff (shareCents shares) ∧
      e.postings.map Prod.fst = a.paidBy :: a.participantIds := by
  obtain ⟨-, hamount, hpaid, hshares, -⟩ := create_eq_ok he
  obtain ⟨htotal, hin⟩ := toMoney_isMoney h.parsed
  have h0 : 0 ≤ total.coeff := (Decimal.toRat_pos_iff.mp h.positive).le
  have hsplit := h.shares
  rw [htotal] at hsplit
  obtain ⟨cs, hcs⟩ := splitStrategy_ok hin h0 hsplit
  have hlen : a.participantIds.length = (cs.map money).length := by
    rw [length_map, hcs.length]
  have hkeys : ((a.participantIds.zip (cs.map money)).map Prod.fst).Nodup := by
    rw [map_fst_zip hlen.le]
    exact h.nodup
  have hitems : shares.items = a.participantIds.zip (cs.map money) := by
    rw [hcs.eq]
    exact ofList_items hkeys
  have hsnd : shares.items.map Prod.snd = cs.map money := by
    rw [hitems, map_snd_zip hlen.ge]
  have hpostings : e.postings = expensePostings a.paidBy total.coeff (shareCents shares) := by
    rw [Expense.postings, hpaid, hamount, hshares]
  refine ⟨⟨?_, fun x hx => ?_, ?_⟩, hpostings, ?_⟩
  · rw [hamount]
    exact ⟨htotal, hin⟩
  · have hmem : x.2 ∈ cs.map money := hsnd ▸ List.mem_map_of_mem (hshares ▸ hx)
    obtain ⟨c, hc, hx2⟩ := List.mem_map.mp hmem
    rw [← hx2]
    exact ⟨rfl, hcs.inRange hin c hc⟩
  · have hcents : (shareCents shares).map Prod.snd =
        (shares.items.map Prod.snd).map Decimal.coeff := by
      rw [shareCents, List.map_map, List.map_map]
      rfl
    rw [hshares, hamount, hcents, hsnd, List.map_map]
    show (cs.map fun c => c).sum = total.coeff
    rw [List.map_id', hcs.sum]
  · have hfst : shares.items.map Prod.fst = a.participantIds := by
      rw [hitems, map_fst_zip hlen.le]
    rw [hpostings, expensePostings, map_cons, shareCents, List.map_map, List.map_map, ← hfst]
    rfl

theorem HasLedger.modifyLedger {groupId l : Option String} (h : s.HasLedger groupId)
    (f : BalanceSheet → BalanceSheet) : (modifyLedger l f s).HasLedger groupId := by
  intro gid hgid
  rw [groups_modifyLedger, isSome_map]
  exact h gid hgid

theorem isSome_get?_set {d : Dict String Group} {k' : String} (g : Group) (h : (d.get? k').isSome) :
    ((d.set k g).get? k').isSome := by
  rw [get?_set]
  split
  · rfl
  · exact h

theorem groupId_addMember (g : Group) (uid : String) : (g.addMember uid).groupId = g.groupId := by
  rw [Group.addMember]
  split <;> rfl

theorem groupId_foldl_addMember (uids : List String) (g : Group) :
    (uids.foldl Group.addMember g).groupId = g.groupId := by
  induction uids generalizing g with
  | nil => rfl
  | cons _ _ ih => rw [foldl_cons, ih, groupId_addMember]

theorem WF.regrouped (hs : s.WF) {gid : String} {g : Group} (hg : s.groups.get? gid = some g)
    (g' : Group) : (s.regrouped gid g').WF where
  groupIds := by
    intro k hk
    rw [SplitwiseService.regrouped, keys_set_of_get? g' hg] at hk
    exact hs.groupIds k hk
  expenseIds := hs.expenseIds
  expenses := fun k e he =>
    ⟨(hs.expenses k e he).1, fun gid hgid => isSome_get?_set g' ((hs.expenses k e he).2 gid hgid)⟩
  payments := fun p hp =>
    ⟨(hs.payments p hp).1, fun gid hgid => isSome_get?_set g' ((hs.payments p hp).2 gid hgid)⟩

theorem Drawn.modifyLedger (h : Drawn "G" n s.groups) (l : Option String)
    (f : BalanceSheet → BalanceSheet) : Drawn "G" n (modifyLedger l f s).groups := by
  intro k hk
  obtain ⟨g, hg⟩ := Dict.mem_keys.mp hk
  rw [groups_modifyLedger, map_eq_some_iff] at hg
  obtain ⟨g', hg', -⟩ := hg
  exact h k (Dict.mem_keys.mpr ⟨g', hg'⟩)

theorem Open.hasLedger {groupId : Option String} {uids : List String} (h : s.Open groupId uids) :
    s.HasLedger groupId := by
  intro gid hgid
  obtain ⟨g, hg, -⟩ := h gid hgid
  rw [hg]
  rfl

theorem WF.modifyLedger (hs : s.WF) (l : Option String) (f : BalanceSheet → BalanceSheet) :
    (modifyLedger l f s).WF where
  groupIds := by
    rw [nextId_modifyLedger]
    exact Drawn.modifyLedger hs.groupIds l f
  expenseIds := by
    rw [nextId_modifyLedger, expenses_modifyLedger]
    exact hs.expenseIds
  expenses := fun k e he => by
    rw [expenses_modifyLedger] at he
    exact ⟨(hs.expenses k e he).1, (hs.expenses k e he).2.modifyLedger f⟩
  payments := fun p hp => by
    rw [payments_modifyLedger] at hp
    exact ⟨(hs.payments p hp).1, (hs.payments p hp).2.modifyLedger f⟩

theorem Changed.wf {op : Op} (h : Changed s op t) (hs : s.WF) : t.WF := by
  cases h with
  | addUser =>
    exact ⟨hs.groupIds.mono (Nat.le_succ _), hs.expenseIds.mono (Nat.le_succ _), hs.expenses,
      hs.payments⟩
  | createGroup =>
    refine ⟨?_, hs.expenseIds.mono (Nat.le_succ _), fun k e he => ?_, fun p hp => ?_⟩
    · simp only [founded, groupId_foldl_addMember]
      exact hs.groupIds.set _
    · exact ⟨(hs.expenses k e he).1, fun gid hgid =>
        isSome_get?_set _ ((hs.expenses k e he).2 gid hgid)⟩
    · exact ⟨(hs.payments p hp).1, fun gid hgid =>
        isSome_get?_set _ ((hs.payments p hp).2 gid hgid)⟩
  | addMember _ _ _ _ _ hg => exact hs.regrouped hg _
  | removeMember _ _ _ _ hg => exact hs.regrouped hg _
  | addExpense _ _ _ hacc e he =>
    obtain ⟨hid, -, -, -, hgid⟩ := create_eq_ok he
    have hexact := (hacc.exact he).1
    have hstored : ({ s with nextId := s.nextId + 1, expenses := s.expenses.set e.expenseId e } :
        SplitwiseService).WF := by
      refine ⟨hs.groupIds.mono (Nat.le_succ _), ?_, fun k e' he' => ?_, hs.payments⟩
      · simp only [hid]
        exact hs.expenseIds.set e
      · simp only [get?_set] at he'
        split at he'
        · cases he'
          exact ⟨hexact, hgid ▸ hacc.isOpen.hasLedger⟩
        · exact hs.expenses k e' he'
    exact hstored.modifyLedger _ _
  | deleteExpense expenseId =>
    have hstored : ({ s with expenses := s.expenses.erase expenseId } : SplitwiseService).WF := by
      refine ⟨hs.groupIds, fun k hk => ?_, fun k e' he' => ?_, hs.payments⟩
      · exact hs.expenseIds k (mem_keys_erase.mp hk).2
      · simp only [get?_erase] at he'
        split at he'
        · cases he'
        · exact hs.expenses k e' he'
    exact hstored.modifyLedger _ _
  | recordPayment fromUser toUser _ groupId value hacc =>
    have hstored : ({ s with nextId := s.nextId + 1, payments := s.payments ++
        [⟨"P" ++ toString s.nextId, fromUser, toUser, value, groupId⟩] } :
        SplitwiseService).WF := by
      refine ⟨hs.groupIds.mono (Nat.le_succ _), hs.expenseIds.mono (Nat.le_succ _), hs.expenses,
        fun p hp => ?_⟩
      rcases mem_append.mp hp with hp | hp
      · exact hs.payments p hp
      · rw [mem_singleton.mp hp]
        exact ⟨toMoney_isMoney hacc.parsed, hacc.isOpen.hasLedger⟩
    exact hstored.modifyLedger _ _

/-! ## Calls that raise -/

/-- Only the id counter may differ. -/
def SameBooks (s t : SplitwiseService) : Prop :=
  ∃ n, s.nextId ≤ n ∧ t = { s with nextId := n }

theorem SameBooks.refl (s : SplitwiseService) : SameBooks s s := ⟨s.nextId, le_rfl, rfl⟩

theorem WF.call_error (hs : s.WF) {op : Op} {err : PyError} (h : op.call s = .error err t) :
    SameBooks s t := by
  cases op with
  | addUser =>
    simp only [Op.call, SplitwiseService.addUser, bind_eq_error, nextIdFor_ne_error,
      modify_ne_error, pure_ne_error, and_false, exists_false, or_false] at h
  | createGroup =>
    simp only [Op.call, SplitwiseService.createGroup, bind_eq_error, nextIdFor_ne_error,
      modify_ne_error, pure_ne_error, and_false, exists_false, or_false] at h
    exact requireUsers_error h ▸ .refl s
  | addMember =>
    simp only [Op.call, SplitwiseService.addMember, bind_eq_error, requireUser_eq_ok,
      modify_ne_error, and_false, exists_false, or_false] at h
    rcases h with h | ⟨user, _, ⟨-, rfl⟩, h⟩
    · exact requireUser_error h ▸ .refl s
    · exact requireGroup_error h ▸ .refl s
  | removeMember =>
    simp only [Op.call, SplitwiseService.removeMember, bind_eq_error, requireGroup_eq_ok,
      lift_eq_error, modify_ne_error, and_false, exists_false, or_false] at h
    rcases h with h | ⟨g, _, ⟨-, rfl⟩, -, rfl⟩
    · exact requireGroup_error h ▸ .refl s
    · exact .refl s
  | addExpense =>
    simp only [Op.call, SplitwiseService.addExpense, bind_eq_error, guard_eq_error,
      lift_eq_ok, lift_eq_error, ledgerFor_eq_ok, nextIdFor_eq_ok, nextIdFor_ne_error,
      modify_ne_error, pure_ne_error, and_false, exists_false, or_false,
      false_or] at h
    rcases h with ⟨-, rfl⟩ | ⟨total, _, ⟨-, rfl⟩, ⟨-, -, rfl⟩ | ⟨-, ⟨-, -, rfl⟩ | ⟨-, ⟨-, -, rfl⟩ |
      ⟨-, h | ⟨ledger, _, ⟨-, -, -, rfl⟩, ⟨-, rfl⟩ | ⟨shares, _, ⟨-, rfl⟩, _, _, ⟨rfl, rfl⟩, -,
        rfl⟩⟩⟩⟩⟩⟩
    · exact .refl _
    · exact .refl _
    · exact .refl _
    · exact .refl _
    · exact ledgerFor_error h ▸ .refl s
    · exact .refl _
    · exact ⟨s.nextId + 1, Nat.le_succ _, rfl⟩
  | deleteExpense expenseId =>
    simp only [Op.call, SplitwiseService.deleteExpense, bind_eq_error, get_ne_error,
      get_eq_ok, false_or] at h
    obtain ⟨_, _, ⟨rfl, rfl⟩, h⟩ := h
    cases he : s.expenses.get? expenseId with
    | none =>
      rw [he] at h
      exact (throw_eq_error.mp h).2 ▸ .refl s
    | some e =>
    rw [he] at h
    simp only [bind_eq_error, modify_ne_error, modify_eq_ok,
      false_or] at h
    obtain ⟨_, _, rfl, h⟩ := h
    have hl := hs.ledger_eq he
    rw [Expense.ledger] at hl
    rw [hl] at h
    cases hgid : e.groupId with
    | none =>
      rw [hgid] at h
      simp only [modify_ne_error] at h
    | some gid =>
      -- the group of an expense exists
      rw [hgid] at h
      simp only [bind_eq_error, get_ne_error, get_eq_ok,
        guard_eq_error, modify_ne_error, and_false, or_false, false_or] at h
      obtain ⟨_, _, ⟨rfl, rfl⟩, hnone, -, -⟩ := h
      have hsome := (hs.expenses expenseId e he).2 gid hgid
      rw [isNone_iff_eq_none] at hnone
      rw [hnone] at hsome
      cases hsome
  | recordPayment =>
    simp only [Op.call, SplitwiseService.recordPayment, bind_eq_error,
      guard_eq_error, lift_eq_ok, lift_eq_error, nextIdFor_ne_error,
      modify_ne_error, pure_ne_error, and_false, exists_false, or_false] at h
    rcases h with ⟨-, rfl⟩ | ⟨value, _, ⟨-, rfl⟩, ⟨-, -, rfl⟩ | ⟨-, ⟨-, -, rfl⟩ | ⟨-, h⟩⟩⟩
    · exact .refl _
    · exact .refl _
    · exact .refl _
    · exact ledgerFor_error h ▸ .refl s

theorem SameBooks.wf (h : SameBooks s t) (hs : s.WF) : t.WF := by
  obtain ⟨n, hn, rfl⟩ := h
  exact ⟨hs.groupIds.mono hn, hs.expenseIds.mono hn, hs.expenses, hs.payments⟩

variable {s t : SplitwiseService} {l : Option String} {e : Expense} {op : Op}

/-! ## History of a ledger -/

/-- What the expenses `es` contribute to the balance of `u` in the ledger `l`. -/
def expensesEffect (l : Option String) (es : List Expense) (u : String) : Int :=
  effect ((es.filter fun e => e.groupId = l).flatMap Expense.postings) u

theorem expensesEffect_cons (e : Expense) (es : List Expense) (u : String) :
    expensesEffect l (e :: es) u =
      (if e.groupId = l then effect e.postings u else 0) + expensesEffect l es u := by
  rw [expensesEffect, expensesEffect, filter_cons]
  by_cases h : e.groupId = l
  · simp only [h, decide_true, if_true, flatMap_cons, effect_append]
  · simp only [h, decide_false, Bool.false_eq_true, if_false, zero_add]

theorem expensesEffect_perm {es es' : List Expense} (h : es.Perm es') (u : String) :
    expensesEffect l es u = expensesEffect l es' u :=
  effect_perm ((h.filter _).flatMap_right _) u

theorem effect_history (s : SplitwiseService) (u : String) :
    effect (s.history l) u = expensesEffect l s.expenses.values u +
      effect ((s.payments.filter fun p => p.groupId = l).flatMap Payment.postings) u := by
  rw [history, effect_append, expensesEffect]

variable {k gid : String} {d : Dict String Expense}

theorem expensesEffect_set (e : Expense) (u : String)
    (h : d.get? k = none) :
    expensesEffect l (d.set k e).values u =
      (if e.groupId = l then effect e.postings u else 0) + expensesEffect l d.values u := by
  have hperm : (d.set k e).values.Perm (e :: d.values) := by
    rw [Dict.values, set_items_of_get?_none e h, map_append]
    exact perm_append_comm
  rw [expensesEffect_perm hperm, expensesEffect_cons]

theorem expensesEffect_erase (u : String)
    (h : d.get? k = some e) :
    expensesEffect l d.values u =
      (if e.groupId = l then effect e.postings u else 0) + expensesEffect l
      (d.erase k).values u := by
  have hperm : d.values.Perm (e :: (d.erase k).values) := (items_perm_of_get? h).map Prod.snd
  rw [expensesEffect_perm hperm, expensesEffect_cons]

theorem WF.history_eq_nil (hs : s.WF) (h : s.groups.get? gid = none) :
    s.history (some gid) = [] := by
  have hno : ∀ groupId : Option String, s.HasLedger groupId → groupId ≠ some gid := by
    intro groupId hl hgid
    have := hl gid hgid
    rw [h] at this
    cases this
  have hexpenses : s.expenses.values.filter (fun e => e.groupId = some gid) = [] := by
    rw [filter_eq_nil_iff]
    intro e he
    obtain ⟨x, hx, rfl⟩ := List.mem_map.mp he
    have := hno _ (hs.expenses x.1 x.2 (mem_items_iff.mp hx)).2
    simpa using this
  have hpayments : s.payments.filter (fun p => p.groupId = some gid) = [] := by
    rw [filter_eq_nil_iff]
    intro p hp
    simpa using hno _ (hs.payments p hp).2
  rw [history, hexpenses, hpayments]
  rfl

/-! ## Each change keeps the ledgers -/

theorem Kept.post {f : BalanceSheet → BalanceSheet} {s1 : SplitwiseService} {l' : Option String}
    (hk : s.Kept l) (ps : List (String × Int)) (hsame : s1.ledger? l = s.ledger? l)
    (hpost : l' = l → ∀ b, s.ledger? l = some b → f b = b.post ps ∧ Fits b.cents ps)
    (hsum : (ps.map Prod.snd).sum = 0)
    (hhist : ∀ u, effect ((modifyLedger l' f s1).history l) u =
      effect (s.history l) u + if l' = l then effect ps u else 0) :
    (modifyLedger l' f s1).Kept l := by
  intro b' hb'
  rw [ledger?_modifyLedger, hsame, map_eq_some_iff] at hb'
  obtain ⟨b, hb, hb'⟩ := hb'
  obtain ⟨hexact, hcents, htotal⟩ := hk b hb
  by_cases hl : l' = l
  · rw [if_pos hl] at hb'
    obtain ⟨hf, hfit⟩ := hpost hl b hb
    obtain ⟨hexact', hcents', htotal'⟩ := hexact.post hfit
    rw [← hb', hf]
    refine ⟨hexact', fun u => ?_, by rw [htotal', htotal, hsum]; rfl⟩
    rw [hcents', hcents, hhist, if_pos hl]
  · rw [if_neg hl] at hb'
    subst hb'
    refine ⟨hexact, fun u => ?_, htotal⟩
    rw [hcents, hhist, if_neg hl, add_zero]

theorem Kept.congr (hk : s.Kept l) (hledger : t.ledger? l = s.ledger? l)
    (hhist : t.history l = s.history l) : t.Kept l := by
  intro b hb
  rw [hhist]
  exact hk b (hledger ▸ hb)

theorem ledger?_regrouped {g g' : Group} (hg : s.groups.get? gid = some g)
    (hsame : g'.ledger = g.ledger) : (s.regrouped gid g').ledger? l = s.ledger? l := by
  cases l with
  | none => rfl
  | some =>
    simp only [ledger?, regrouped, get?_set]
    split
    · next h =>
        rw [h, hg, map_some, map_some, hsame]
    · rfl

theorem ledger_addMember (g : Group) (uid : String) : (g.addMember uid).ledger = g.ledger := by
  rw [Group.addMember]
  split <;> rfl

theorem ledger_foldl_addMember (uids : List String) (g : Group) :
    (uids.foldl Group.addMember g).ledger = g.ledger := by
  induction uids generalizing g with
  | nil => rfl
  | cons _ _ ih => rw [foldl_cons, ih, ledger_addMember]

theorem removeMember_ok {g g' : Group} {uid : String} (h : g.removeMember uid = .ok g') :
    (g.ledger.balanceOf uid).toRat = 0 ∧ g' = { g with memberIds := g.memberIds.erase uid } := by
  unfold Group.removeMember at h
  split at h
  · cases h
  · next hzero =>
      split at h
      · cases h
        exact ⟨not_not.mp hzero, rfl⟩
      · cases h

theorem applyExpense_one (he : e.Exact) (b : BalanceSheet) :
    b.applyExpense e 1 = b.post e.postings := by
  rw [applyExpense_eq he b (Or.inl rfl)]
  congr 1
  simp

theorem applyExpense_neg (he : e.Exact) (b : BalanceSheet) :
    b.applyExpense e (-1) = b.post (reversed e.postings) := by
  rw [applyExpense_eq he b (Or.inr rfl)]
  congr 1
  simp [reversed]

theorem sum_reversed (ps : List (String × Int)) :
    ((reversed ps).map Prod.snd).sum = -(ps.map Prod.snd).sum := by
  induction ps with
  | nil => rfl
  | cons _ _ ih =>
    rw [reversed, map_cons, ← reversed, map_cons, sum_cons, ih, map_cons,
      sum_cons]
    omega

theorem Changed.kept (h : Changed s op t) (hs : s.WF) (hk : s.Kept l) (hno : NoOverflow l s op) :
    t.Kept l := by
  cases h with
  | addUser => exact hk.congr (by cases l <;> rfl) rfl
  | createGroup name memberIds =>
    by_cases hl : l = some ("G" ++ toString s.nextId)
    · -- the id is fresh, so nothing was ever recorded in the new group
      subst hl
      intro b hb
      simp only [ledger?, founded, groupId_foldl_addMember, Group.new, get?_set_self,
        map_some, Option.some.injEq, ledger_foldl_addMember] at hb
      subst hb
      have hnil : (s.founded (memberIds.foldl Group.addMember
          (Group.new ("G" ++ toString s.nextId) name))).history
            (some ("G" ++ toString s.nextId)) = [] := hs.history_eq_nil hs.groupIds.fresh
      rw [hnil]
      exact ⟨new_exact, fun u => rfl, rfl⟩
    · refine hk.congr ?_ rfl
      cases l with
      | none => rfl
      | some gid =>
        have hne : gid ≠ "G" ++ toString s.nextId := fun e => hl (congrArg some e)
        simp only [ledger?, founded, groupId_foldl_addMember, Group.new]
        rw [get?_set_of_ne _ _ hne]
  | addMember _ uid g _ _ hg =>
    exact hk.congr (ledger?_regrouped hg (ledger_addMember g uid)) rfl
  | removeMember _ _ g g' hg hg' =>
    have hledger : g'.ledger = g.ledger := by rw [(removeMember_ok hg').2]
    exact hk.congr (ledger?_regrouped hg hledger) rfl
  | addExpense a total shares hacc e he =>
    obtain ⟨hexact, hpostings, -⟩ := hacc.exact he
    obtain ⟨hid, -, -, -, hgid⟩ := create_eq_ok he
    refine hk.post e.postings (by cases l <;> rfl) (fun hl b hb => ?_)
      hexact.postings_sum (fun u => ?_)
    · refine ⟨applyExpense_one hexact b, ?_⟩
      rw [hpostings]
      refine hno _ b ?_ hb
      rw [← hl, hgid]
      exact .expense a total shares hacc
    · have hfresh : s.expenses.get? e.expenseId = none := hid ▸ hs.expenseIds.fresh
      rw [effect_history, effect_history, expenses_modifyLedger, payments_modifyLedger,
        expensesEffect_set e u hfresh]
      dsimp only
      omega
  | deleteExpense expenseId e he =>
    obtain ⟨hexact, -⟩ := hs.expenses expenseId e he
    refine hk.post (reversed e.postings) (by cases l <;> rfl) (fun hl b hb => ?_) ?_
      (fun u => ?_)
    · refine ⟨applyExpense_neg hexact b, hno _ b ?_ hb⟩
      rw [← hl, hs.ledger_eq he]
      exact .reversal expenseId e he
    · rw [sum_reversed, hexact.postings_sum]
      rfl
    · rw [effect_history, effect_history, expenses_modifyLedger, payments_modifyLedger,
        hs.ledger_eq he, effect_reversed, expensesEffect_erase u he]
      dsimp only
      split
      · omega
      · omega
  | recordPayment fromUser toUser amount groupId value hacc =>
    refine hk.post [(fromUser, value.coeff), (toUser, -value.coeff)] (by cases l <;> rfl)
      (fun hl b hb => ?_) (by simp) (fun u => ?_)
    · refine ⟨applyPayment_eq (toMoney_isMoney hacc.parsed) b, hno _ b ?_ hb⟩
      rw [← hl]
      exact .payment fromUser toUser amount groupId value hacc
    · rw [effect_history, effect_history, expenses_modifyLedger, payments_modifyLedger,
        filter_append, flatMap_append, effect_append, add_assoc]
      congr 2
      by_cases hl : groupId = l
      · simp [hl, Payment.postings]
      · simp [hl]

/-! ## Runs -/

/-- A call that returns changes the books as `Changed` says; one that raises leaves them. -/
theorem WF.step_cases (hs : s.WF) {o : Outcome} (h : step s op = .ok (o, t)) :
    (o = .ok () ∧ Changed s op t) ∨ ((∃ err, o = .error err) ∧ SameBooks s t) := by
  unfold step at h
  split at h
  · next hcall =>
      cases h
      exact Or.inl ⟨rfl, call_ok hcall⟩
  · next err _ hcall =>
      cases h
      exact Or.inr ⟨⟨err, rfl⟩, hs.call_error hcall⟩

theorem step_total (s : SplitwiseService) (op : Op) : ∃ o t, step s op = .ok (o, t) := by
  unfold step
  split
  · exact ⟨_, _, rfl⟩
  · exact ⟨_, _, rfl⟩

theorem WF.step (hs : s.WF) {o : Outcome} (h : step s op = .ok (o, t)) : t.WF := by
  rcases hs.step_cases h with ⟨-, hch⟩ | ⟨-, hsame⟩
  · exact hch.wf hs
  · exact hsame.wf hs

/-- Every state reached has well-formed books, and a ledger not overflowed is its
    history's effect. -/
theorem run_books (settlement : SettlementStrategy) (ops : List Op) :
    ∃ out s, runSteps step (new settlement) ops = .ok (out, s) ∧ s.WF ∧
      ∀ l, Guarded (NoOverflow l) step (new settlement) ops → s.Kept l := by
  refine runSteps_induction step (new settlement) (fun _ => True) (fun _ _ _ => trivial)
    (fun ops _ (s : SplitwiseService) => s.WF ∧
      ∀ l, Guarded (NoOverflow l) step (new settlement) ops → s.Kept l)
    ⟨new_wf settlement, fun l _ => new_kept l settlement⟩ ?_ ops trivial
  intro ops out s op hrun _ hI
  obtain ⟨hs, hkept⟩ := hI
  obtain ⟨o, t, hstep⟩ := step_total s op
  refine ⟨o, t, hstep, hs.step hstep, fun l hguard => ?_⟩
  obtain ⟨hbefore, hlast⟩ := hguard.append_inv
  have hk := hkept l hbefore
  rcases hs.step_cases hstep with ⟨-, hch⟩ | ⟨-, n, -, rfl⟩
  · exact hch.kept hs hk (hlast out s hrun).1
  · exact hk.congr (by cases l <;> rfl) rfl

/-- Ledgers equal history and sum to zero: in every state a run reaches, a ledger that was not
    overflowed holds for each user the effect of its non-deleted expenses and its payments, with no
    zero entry and with total zero; and a call that raises leaves everything but the id counter as
    it was. -/
theorem run_ledger (settlement : SettlementStrategy) (ops : List Op) :
    ∃ out s, runSteps step (new settlement) ops = .ok (out, s) ∧
      (∀ k e, s.expenses.get? k = some e → e.Exact) ∧ (∀ p ∈ s.payments, p.Exact) ∧
      (∀ l b, Guarded (NoOverflow l) step (new settlement) ops → s.ledger? l = some b →
        (∀ u, b.net.get? u = if effect (s.history l) u = 0 then none
          else some (money (effect (s.history l) u))) ∧
        b.total = 0) ∧
      ∀ op err t, step s op = .ok (.error err, t) →
        t.users = s.users ∧ t.groups = s.groups ∧ t.expenses = s.expenses ∧
          t.payments = s.payments ∧ t.personal = s.personal := by
  obtain ⟨out, s, hrun, hs, hkept⟩ := run_books settlement ops
  refine ⟨out, s, hrun, fun k e he => (hs.expenses k e he).1, fun p hp => (hs.payments p hp).1,
    fun l b hguard hb => ?_, fun op err t hstep => ?_⟩
  · obtain ⟨hexact, hcents, htotal⟩ := hkept l hguard b hb
    refine ⟨fun u => ?_, htotal⟩
    rw [hexact.get?_eq u, hcents u]
  · rcases hs.step_cases hstep with ⟨hok, -⟩ | ⟨-, n, -, rfl⟩
    · cases hok
    · exact ⟨rfl, rfl, rfl, rfl, rfl⟩

/-- `run_ledger` for a payment in a new group. -/
theorem run_ledger_payment : ∃ out s, runSteps step (new .greedy)
        [.addUser "A" "a@x", .addUser "B" "b@x", .createGroup "trip" ["U1", "U2"],
          .recordPayment "U2" "U1" (.numeral (.decimal (.finite (money 500)))) (some "G3")] =
            .ok (out, s) ∧ ∀ b, s.ledger? (some "G3") = some b → b.total = 0 := by
  obtain ⟨out, s, hrun, -, -, hledger, -⟩ := run_ledger .greedy
    [.addUser "A" "a@x", .addUser "B" "b@x", .createGroup "trip" ["U1", "U2"],
      .recordPayment "U2" "U1" (.numeral (.decimal (.finite (money 500)))) (some "G3")]
  refine ⟨out, s, hrun, fun b hb => (hledger (some "G3") b ⟨?_, fun o1 s1 h1 =>
    ⟨?_, fun o2 s2 h2 => ⟨?_, fun o3 s3 h3 => ⟨?_, fun _ _ _ => trivial⟩⟩⟩⟩ hb).2⟩
  · rintro ps b ⟨⟩
  · rintro ps b ⟨⟩
  · rintro ps b ⟨⟩
  rintro ps b hps hb
  cases h1
  cases h2
  cases h3
  generalize hl : some "G3" = l at hps
  cases hps with
  | payment _ _ _ _ _ h =>
  have hparsed := h.parsed
  rw [toMoney_money (by decide)] at hparsed
  cases hparsed
  cases hl
  cases hb
  exact ⟨by decide +kernel, by decide +kernel, trivial⟩

end SplitwiseService

end InterviewPrep.Splitwise
