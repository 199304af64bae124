/-
  A balance sheet as whole numbers of cents.  While every balance it passes through fits the
  context (`Fits`), a sheet is exact: it holds no zero entry, and posting changes each balance by
  the effect of the postings and the total by their sum (`Exact.post`).

  What one call of the service can do: a call that returns makes one of seven changes (`Changed`),
  a call that raises changes nothing but the id counter (`call_error`).  The later modules only
  read this list.
-/
import InterviewPrep.Lib.Totals
import InterviewPrep.Splitwise.Service
import InterviewPrep.Splitwise.Shares

namespace InterviewPrep.Splitwise

open Lib Decimal Dict EState Function List

namespace BalanceSheet

def cents (b : BalanceSheet) (userId : String) : Int := (b.balanceOf userId).coeff

/-- The sum of all balances in cents. -/
def total (b : BalanceSheet) : Int := (b.net.values.map Decimal.coeff).sum

/-- Every entry is a non-zero whole number of cents of at most 28 digits. -/
def Exact (b : BalanceSheet) : Prop :=
  ∀ u v, b.net.get? u = some v → v = money v.coeff ∧ InRange v.coeff ∧ v.coeff ≠ 0

/-- Post amounts in cents, one after the other. -/
def post (b : BalanceSheet) (ps : List (String × Int)) : BalanceSheet :=
  ps.foldl (fun b p => b.add p.1 (money p.2)) b

end BalanceSheet

/-- No balance that the postings pass through needs more than 28 digits. -/
def Fits : (String → Int) → List (String × Int) → Prop
  | _, [] => True
  | f, (u, c) :: ps => InRange (f u + c) ∧ Fits (Function.update f u (f u + c)) ps

namespace BalanceSheet

theorem new_exact : new.Exact := nofun

variable {b : BalanceSheet} {u : String}

theorem cents_of_get? {v : Decimal} (h : b.net.get? u = some v) : b.cents u = v.coeff := by
  rw [cents, balanceOf, h, Option.getD_some]

theorem cents_of_none (h : b.net.get? u = none) : b.cents u = 0 := by
  rw [cents, balanceOf, h]
  rfl

theorem Exact.balanceOf (hb : b.Exact) (u : String) : b.balanceOf u = money (b.cents u) := by
  cases hu : b.net.get? u with
  | none => rw [cents_of_none hu, BalanceSheet.balanceOf, hu, Option.getD_none]
  | some v => rw [cents_of_get? hu, BalanceSheet.balanceOf, hu, Option.getD_some, ← (hb u v hu).1]

theorem Exact.inRange (hb : b.Exact) (u : String) : InRange (b.cents u) := by
  cases hu : b.net.get? u with
  | none => rw [cents_of_none hu]; exact inRange_zero
  | some v => rw [cents_of_get? hu]; exact (hb u v hu).2.1

theorem Exact.get?_eq (hb : b.Exact) (u : String) :
    b.net.get? u = if b.cents u = 0 then none else some (money (b.cents u)) := by
  cases hu : b.net.get? u with
  | none => rw [if_pos (cents_of_none hu)]
  | some v =>
    obtain ⟨hv, -, hne⟩ := hb u v hu
    rw [cents_of_get? hu, if_neg hne, ← hv]

theorem total_eq_erase (b : BalanceSheet) (u : String) :
    b.total = b.cents u + (⟨b.net.erase u⟩ : BalanceSheet).total := by
  cases hu : b.net.get? u with
  | none =>
    rw [cents_of_none hu, zero_add, total, total, Dict.values, Dict.values,
      erase_eq_of_get?_none hu]
  | some =>
    have hperm := ((items_perm_of_get? hu).map Prod.snd).map Decimal.coeff
    rw [total, Dict.values, hperm.sum_eq, map_cons, map_cons, sum_cons,
      cents_of_get? hu]
    rfl

theorem total_set (d : Dict String Decimal) (u : String) (v : Decimal) :
    (⟨d.set u v⟩ : BalanceSheet).total = v.coeff + (⟨d.erase u⟩ : BalanceSheet).total := by
  have hperm := ((set_items_perm d u v).map Prod.snd).map Decimal.coeff
  rw [total, Dict.values, hperm.sum_eq, map_cons, map_cons, sum_cons]
  rfl

theorem Exact.add (hb : b.Exact) {c : Int} (hfit : InRange (b.cents u + c)) :
    (b.add u (money c)).Exact ∧
      (∀ w, (b.add u (money c)).cents w = Function.update b.cents u (b.cents u + c) w) ∧
      (b.add u (money c)).total = b.total + c := by
  have hvalue : Decimal.add prec (b.balanceOf u) (money c) = money (b.cents u + c) := by
    rw [hb.balanceOf u]
    exact add_of_lt hfit
  have hsum := b.total_eq_erase u
  simp only [BalanceSheet.add, hvalue, toRat_eq_zero_iff, money_coeff]
  by_cases h0 : b.cents u + c = 0
  · simp only [if_pos h0]
    refine ⟨fun w v hw => ?_, fun w => ?_, by omega⟩
    · rw [get?_erase] at hw
      split at hw
      · cases hw
      · exact hb w v hw
    · rw [update_apply, h0, cents, BalanceSheet.balanceOf, get?_erase]
      split
      · rfl
      · rfl
  simp only [if_neg h0]
  refine ⟨fun w v hw => ?_, fun w => ?_, ?_⟩
  · rw [get?_set] at hw
    split at hw
    · cases hw
      exact ⟨rfl, hfit, h0⟩
    · exact hb w v hw
  · rw [update_apply, cents, BalanceSheet.balanceOf, get?_set]
    split
    · rfl
    · rfl
  · rw [total_set, money_coeff]
    omega

theorem Exact.post (hb : b.Exact) {ps : List (String × Int)} (hfit : Fits b.cents ps) :
    (b.post ps).Exact ∧ (∀ u, (b.post ps).cents u = b.cents u + effect ps u) ∧
      (b.post ps).total = b.total + (ps.map Prod.snd).sum := by
  induction ps generalizing b with
  | nil => exact ⟨hb, fun u => by rw [effect_nil, add_zero]; rfl, by simp [BalanceSheet.post]⟩
  | cons p _ ih =>
    obtain ⟨u, c⟩ := p
    obtain ⟨hin, hrest⟩ := hfit
    obtain ⟨hexact, hcents, htotal⟩ := hb.add hin
    rw [← funext hcents] at hrest
    obtain ⟨hexact', hcents', htotal'⟩ := ih hexact hrest
    rw [BalanceSheet.post, foldl_cons, ← BalanceSheet.post]
    refine ⟨hexact', fun w => ?_, ?_⟩
    · rw [hcents' w, hcents w, effect_cons, update_apply]
      by_cases hw : w = u
      · rw [if_pos hw, if_pos hw.symm, hw]
        omega
      · rw [if_neg hw, if_neg (Ne.symm hw)]
        omega
    · rw [htotal', htotal, map_cons, sum_cons]
      omega

end BalanceSheet

/-! ## Entries as postings -/

/-- An expense of `a` cents: the payer is owed the amount, each participant owes a share. -/
def expensePostings (paidBy : String) (a : Int) (shares : List (String × Int)) :
    List (String × Int) :=
  (paidBy, a) :: shares.map fun x => (x.1, -x.2)

def shareCents (shares : Dict String Decimal) : List (String × Int) :=
  shares.items.map fun x => (x.1, x.2.coeff)

def Expense.postings (e : Expense) : List (String × Int) :=
  expensePostings e.paidBy e.amount.coeff (shareCents e.shares)

def Payment.postings (p : Payment) : List (String × Int) :=
  [(p.fromUser, p.amount.coeff), (p.toUser, -p.amount.coeff)]

/-- Amount and shares are whole cents of at most 28 digits, and agree exactly. -/
structure Expense.Exact (e : Expense) : Prop where
  amount : e.amount = money e.amount.coeff ∧ InRange e.amount.coeff
  shares : ∀ x ∈ e.shares.items, x.2 = money x.2.coeff ∧ InRange x.2.coeff
  sum : ((shareCents e.shares).map Prod.snd).sum = e.amount.coeff

/-- The amount is whole cents of at most 28 digits. -/
def Payment.Exact (p : Payment) : Prop := p.amount = money p.amount.coeff ∧ InRange p.amount.coeff

theorem mul_sign_money {sign c : Int} (hs : sign = 1 ∨ sign = -1) (h : InRange c) :
    Decimal.mul prec (.ofInt sign) (money c) = money (sign * c) := by
  have hin : InRange (sign * c) := by
    rcases hs with rfl | rfl
    · rwa [one_mul]
    · rw [neg_one_mul]
      exact h.neg
  simp only [Decimal.mul, Decimal.ofInt, money, zero_add]
  exact fix_of_lt hin

theorem BalanceSheet.applyExpense_eq {e : Expense} (he : e.Exact) (b : BalanceSheet) {sign : Int}
    (hs : sign = 1 ∨ sign = -1) :
    b.applyExpense e sign = b.post (e.postings.map fun p => (p.1, sign * p.2)) := by
  have hneg : -sign = 1 ∨ -sign = -1 := by omega
  have hshares : ∀ (xs : List (String × Decimal)) (b : BalanceSheet),
      (∀ x ∈ xs, x.2 = money x.2.coeff ∧ InRange x.2.coeff) →
      xs.foldl (fun b x => b.add x.1 (Decimal.mul prec (.ofInt (-sign)) x.2)) b
        = b.post ((xs.map fun x => (x.1, -x.2.coeff)).map fun p => (p.1, sign * p.2)) := by
    intro xs
    induction xs with
    | nil => intro b _; rfl
    | cons x _ ih =>
      intro b hxs
      obtain ⟨hx, hin⟩ := hxs x (mem_cons_self ..)
      have hmul : Decimal.mul prec (.ofInt (-sign)) x.2 = money (sign * -x.2.coeff) := by
        rw [hx, mul_sign_money hneg hin, neg_mul, mul_neg]
        rfl
      rw [foldl_cons, hmul, ih _ fun y hy => hxs y (mem_cons_of_mem _ hy)]
      rfl
  rw [BalanceSheet.applyExpense, he.amount.1, mul_sign_money hs he.amount.2, hshares _ _ he.shares]
  simp only [Expense.postings, expensePostings, shareCents, List.map_map, map_cons,
    BalanceSheet.post, foldl_cons]
  rfl

theorem BalanceSheet.applyPayment_eq {p : Payment} (hp : p.Exact) (b : BalanceSheet) :
    b.applyPayment p = b.post p.postings := by
  obtain ⟨h, hin⟩ := hp
  have hneg : Decimal.neg prec p.amount = money (-p.amount.coeff) := by
    rw [h]
    exact fix_of_lt hin.neg
  rw [BalanceSheet.applyPayment, hneg]
  nth_rewrite 1 [h]
  rfl

theorem Expense.Exact.postings_sum {e : Expense} (he : e.Exact) :
    (e.postings.map Prod.snd).sum = 0 := by
  have hneg : ∀ xs : List (String × Int),
      ((xs.map fun x => (x.1, -x.2)).map Prod.snd).sum = -(xs.map Prod.snd).sum := by
    intro xs
    induction xs with
    | nil => rfl
    | cons _ _ ih =>
      rw [map_cons, map_cons, sum_cons, map_cons, sum_cons, ih]
      omega
  rw [Expense.postings, expensePostings, map_cons, sum_cons, hneg, he.sum]
  omega

namespace SplitwiseService

variable {s t : SplitwiseService} {err : PyError} {uids : List String}

/-! ## Parts of the methods -/

theorem lift_eq_ok {α : Type} {x : Except PyError α} {a : α} :
    lift x s = .ok a t ↔ x = .ok a ∧ s = t := by
  cases x with
  | ok => rw [lift, EState.pure_eq_ok, Except.ok.injEq]
  | error => simp only [lift, throw_ne_ok, reduceCtorEq, false_and]

theorem lift_eq_error {α : Type} {x : Except PyError α} :
    lift x s = .error err t ↔ x = .error err ∧ s = t := by
  cases x with
  | ok => simp only [lift, pure_ne_error, reduceCtorEq, false_and]
  | error => rw [lift, throw_eq_error, Except.error.injEq]

variable {idPrefix k uid gid : String}

theorem nextIdFor_eq_ok : nextIdFor idPrefix s = .ok k t ↔
      idPrefix ++ toString s.nextId = k ∧ { s with nextId := s.nextId + 1 } = t := by
  show (EStateM.Result.ok (idPrefix ++ toString s.nextId) { s with nextId := s.nextId + 1 } :
    EStateM.Result PyError SplitwiseService String) = .ok k t ↔ _
  rw [EStateM.Result.ok.injEq]

theorem nextIdFor_ne_error : nextIdFor idPrefix s = .error err t ↔ False := by
  show (EStateM.Result.ok (idPrefix ++ toString s.nextId) { s with nextId := s.nextId + 1 } :
    EStateM.Result PyError SplitwiseService String) = .error err t ↔ _
  simp only [reduceCtorEq]

theorem requireUser_eq_ok {u : User} :
    requireUser uid s = .ok u t ↔ s.users.get? uid = some u ∧ s = t := by
  simp only [requireUser, EState.bind_eq_ok, get_eq_ok]
  constructor
  · rintro ⟨a, s', ⟨rfl, rfl⟩, h⟩
    cases hu : s.users.get? uid with
    | none => rw [hu] at h; simp only [throw_ne_ok] at h
    | some =>
      rw [hu] at h
      obtain ⟨rfl, rfl⟩ := EState.pure_eq_ok.mp h
      exact ⟨rfl, rfl⟩
  · rintro ⟨hu, rfl⟩
    exact ⟨s, s, ⟨rfl, rfl⟩, by rw [hu]; rfl⟩

theorem requireUser_error (h : requireUser uid s = .error err t) : s = t := by
  simp only [requireUser, bind_eq_error, get_ne_error, get_eq_ok, false_or] at h
  obtain ⟨a, s', ⟨rfl, rfl⟩, h⟩ := h
  cases hu : s.users.get? uid with
  | none =>
    rw [hu] at h
    exact (throw_eq_error.mp h).2
  | some => rw [hu] at h; simp only [pure_ne_error] at h

theorem requireGroup_eq_ok {g : Group} :
    requireGroup gid s = .ok g t ↔ s.groups.get? gid = some g ∧ s = t := by
  simp only [requireGroup, EState.bind_eq_ok, get_eq_ok]
  constructor
  · rintro ⟨a, s', ⟨rfl, rfl⟩, h⟩
    cases hu : s.groups.get? gid with
    | none => rw [hu] at h; simp only [throw_ne_ok] at h
    | some =>
      rw [hu] at h
      obtain ⟨rfl, rfl⟩ := EState.pure_eq_ok.mp h
      exact ⟨rfl, rfl⟩
  · rintro ⟨hu, rfl⟩
    exact ⟨s, s, ⟨rfl, rfl⟩, by rw [hu]; rfl⟩

theorem requireGroup_error (h : requireGroup gid s = .error err t) : s = t := by
  simp only [requireGroup, bind_eq_error, get_ne_error, get_eq_ok, false_or] at h
  obtain ⟨a, s', ⟨rfl, rfl⟩, h⟩ := h
  cases hu : s.groups.get? gid with
  | none =>
    rw [hu] at h
    exact (throw_eq_error.mp h).2
  | some => rw [hu] at h; simp only [pure_ne_error] at h

/-- The users are known. -/
def Known (s : SplitwiseService) (uids : List String) : Prop :=
  ∀ u ∈ uids, ∃ user, s.users.get? u = some user

theorem requireUsers_eq_ok {r : Unit} : requireUsers uids s = .ok r t ↔ s.Known uids ∧ s = t := by
  induction uids with
  | nil =>
    rw [requireUsers, EState.pure_eq_ok]
    simp [Known]
  | cons _ _ ih =>
    simp only [requireUsers, EState.bind_eq_ok, requireUser_eq_ok, Known, forall_mem_cons]
    constructor
    · rintro ⟨user, _, ⟨hu, rfl⟩, h⟩
      obtain ⟨hk, rfl⟩ := ih.mp h
      exact ⟨⟨⟨user, hu⟩, hk⟩, rfl⟩
    · rintro ⟨⟨⟨user, hu⟩, hk⟩, rfl⟩
      exact ⟨user, s, ⟨hu, rfl⟩, ih.mpr ⟨hk, rfl⟩⟩

theorem requireUsers_error (h : requireUsers uids s = .error err t) : s = t := by
  induction uids with
  | nil => simp only [requireUsers, pure_ne_error] at h
  | cons _ _ ih =>
    simp only [requireUsers, bind_eq_error, requireUser_eq_ok] at h
    rcases h with h | ⟨user, _, ⟨-, rfl⟩, h⟩
    · exact requireUser_error h
    · exact ih h

/-- The ledger is the personal one, or that of a group all users are members of. -/
def Open (s : SplitwiseService) (groupId : Option String) (uids : List String) : Prop :=
  ∀ gid, groupId = some gid → ∃ g, s.groups.get? gid = some g ∧ ∀ u ∈ uids, u ∈ g.memberIds

theorem ledgerFor_eq_ok {groupId ledger : Option String} :
    ledgerFor groupId uids s = .ok ledger t ↔
      s.Known uids ∧ s.Open groupId uids ∧ groupId = ledger ∧ s = t := by
  have houtsiders : ∀ g : Group, (uids.filter fun uid => !g.isMember uid) = [] ↔
      ∀ u ∈ uids, u ∈ g.memberIds := by
    intro g
    simp [filter_eq_nil_iff, Group.isMember]
  cases groupId with
  | none =>
    simp only [ledgerFor, EState.bind_eq_ok, requireUsers_eq_ok, EState.pure_eq_ok, Open,
      reduceCtorEq, false_implies, implies_true, true_and]
    constructor
    · rintro ⟨_, _, ⟨hk, rfl⟩, rfl, rfl⟩
      exact ⟨hk, rfl, rfl⟩
    · rintro ⟨hk, rfl, rfl⟩
      exact ⟨(), s, ⟨hk, rfl⟩, rfl, rfl⟩
  | some =>
    simp only [ledgerFor, EState.bind_eq_ok, requireUsers_eq_ok, requireGroup_eq_ok,
      EState.guard_eq_ok, EState.pure_eq_ok, Open, Option.some.injEq, forall_eq', not_not,
      ne_eq, houtsiders]
    constructor
    · rintro ⟨_, _, ⟨hk, rfl⟩, g, _, ⟨hg, rfl⟩, hm, rfl, rfl⟩
      exact ⟨hk, ⟨g, hg, hm⟩, rfl, rfl⟩
    · rintro ⟨hk, ⟨g, hg, hm⟩, rfl, rfl⟩
      exact ⟨(), s, ⟨hk, rfl⟩, g, s, ⟨hg, rfl⟩, hm, rfl, rfl⟩

theorem ledgerFor_error {groupId : Option String} (h : ledgerFor groupId uids s = .error err t) :
    s = t := by
  cases groupId with
  | none =>
    simp only [ledgerFor, bind_eq_error, pure_ne_error, and_false, exists_false,
      or_false] at h
    exact requireUsers_error h
  | some =>
    simp only [ledgerFor, bind_eq_error, requireUsers_eq_ok, requireGroup_eq_ok,
      guard_eq_error, pure_ne_error, and_false, or_false] at h
    rcases h with h | ⟨_, _, ⟨-, rfl⟩, h | ⟨g, _, ⟨-, rfl⟩, -, -, rfl⟩⟩
    · exact requireUsers_error h
    · exact requireGroup_error h
    · rfl

/-! ## Changes -/

/-- The arguments pass every check of `add_expense`. -/
structure Accepts (s : SplitwiseService) (a : ExpenseArgs) (total : Decimal)
    (shares : Dict String Decimal) : Prop where
  parsed : toMoney a.amount = .ok total
  positive : 0 < total.toRat
  nonempty : a.participantIds ≠ []
  nodup : a.participantIds.Nodup
  known : s.Known (a.paidBy :: a.participantIds)
  isOpen : s.Open a.groupId (a.paidBy :: a.participantIds)
  shares : splitStrategy a.splitType total a.participantIds a.values = .ok shares

/-- The arguments pass every check of `record_payment`. -/
structure AcceptsPayment (s : SplitwiseService) (fromUser toUser : String) (amount : MoneyLike)
    (groupId : Option String) (value : Decimal) : Prop where
  parsed : toMoney amount = .ok value
  positive : 0 < value.toRat
  distinct : fromUser ≠ toUser
  known : s.Known [fromUser, toUser]
  isOpen : s.Open groupId [fromUser, toUser]

/-- The ledger that deleting an expense reverses it in. -/
def Expense.ledger (e : Expense) : Option String := e.groupId.filter (· ≠ "")

/-- The state after the user was added, and its id drawn. -/
def registered (s : SplitwiseService) (user : User) : SplitwiseService :=
  { s with nextId := s.nextId + 1, users := s.users.set user.userId user }

/-- The state after the group was created, and its id drawn. -/
def founded (s : SplitwiseService) (g : Group) : SplitwiseService :=
  { s with nextId := s.nextId + 1, groups := s.groups.set g.groupId g }

/-- The state after the group `gid` became `g`. -/
def regrouped (s : SplitwiseService) (gid : String) (g : Group) : SplitwiseService :=
  { s with groups := s.groups.set gid g }

/-- The state after the expense `e` was recorded, and its id drawn. -/
def recorded (s : SplitwiseService) (e : Expense) : SplitwiseService :=
  modifyLedger e.groupId (·.applyExpense e 1)
    { s with nextId := s.nextId + 1, expenses := s.expenses.set e.expenseId e }

/-- The state after the expense `e` was deleted. -/
def deleted (s : SplitwiseService) (e : Expense) (expenseId : String) : SplitwiseService :=
  modifyLedger (Expense.ledger e) (·.applyExpense e (-1))
    { s with expenses := s.expenses.erase expenseId }

/-- The state after the payment `p` was recorded, and its id drawn. -/
def paid (s : SplitwiseService) (p : Payment) : SplitwiseService :=
  modifyLedger p.groupId (·.applyPayment p)
    { s with nextId := s.nextId + 1, payments := s.payments ++ [p] }

/-- The changes of a call that returns. -/
inductive Changed (s : SplitwiseService) : Op → SplitwiseService → Prop
  | addUser (name email : String) :
      Changed s (.addUser name email)
        (s.registered ⟨"U" ++ toString s.nextId, name, email⟩)
  | createGroup (name : String) (memberIds : List String) (hknown : s.Known memberIds) :
      Changed s (.createGroup name memberIds)
        (s.founded (memberIds.foldl Group.addMember (Group.new ("G" ++ toString s.nextId) name)))
  | addMember (gid uid : String) (g : Group) (user : User) (huser : s.users.get? uid = some user)
      (hg : s.groups.get? gid = some g) :
      Changed s (.addMember gid uid) (s.regrouped gid (g.addMember uid))
  | removeMember (gid uid : String) (g g' : Group) (hg : s.groups.get? gid = some g)
      (hg' : g.removeMember uid = .ok g') :
      Changed s (.removeMember gid uid) (s.regrouped gid g')
  | addExpense (a : ExpenseArgs) (total : Decimal) (shares : Dict String Decimal)
      (h : s.Accepts a total shares) (e : Expense)
      (he : Expense.create ("E" ++ toString s.nextId) a.description total a.paidBy
        a.splitType shares
        a.category a.groupId = .ok e) :
      Changed s (.addExpense a) (s.recorded e)
  | deleteExpense (expenseId : String) (e : Expense) (he : s.expenses.get? expenseId = some e) :
      Changed s (.deleteExpense expenseId) (s.deleted e expenseId)
  | recordPayment (fromUser toUser : String) (amount : MoneyLike) (groupId : Option String)
      (value : Decimal) (h : s.AcceptsPayment fromUser toUser amount groupId value) :
      Changed s (.recordPayment fromUser toUser amount groupId)
        (s.paid ⟨"P" ++ toString s.nextId, fromUser, toUser, value, groupId⟩)

theorem create_eq_ok {d p : String} {total : Decimal} {st : SplitType}
    {shares : Dict String Decimal} {c : ExpenseCategory} {gid : Option String} {e : Expense}
    (h : Expense.create k d total p st shares c gid = .ok e) :
    e.expenseId = k ∧ e.amount = total ∧ e.paidBy = p ∧ e.shares = shares ∧ e.groupId = gid := by
  unfold Expense.create at h
  split at h
  · cases h
    exact ⟨rfl, rfl, rfl, rfl, rfl⟩
  · cases h

theorem call_ok {op : Op} {r : Unit} (h : op.call s = .ok r t) : Changed s op t := by
  cases op with
  | addUser name email =>
    simp only [Op.call, SplitwiseService.addUser, EState.bind_eq_ok, nextIdFor_eq_ok,
      modify_eq_ok, EState.pure_eq_ok] at h
    obtain ⟨_, _, ⟨_, _, ⟨rfl, rfl⟩, _, _, rfl, -, rfl⟩, -, rfl⟩ := h
    exact .addUser name email
  | createGroup name memberIds =>
    simp only [Op.call, SplitwiseService.createGroup, EState.bind_eq_ok, requireUsers_eq_ok,
      nextIdFor_eq_ok, modify_eq_ok, EState.pure_eq_ok] at h
    obtain ⟨_, _, ⟨_, _, ⟨hk, rfl⟩, _, _, ⟨rfl, rfl⟩, _, _, rfl, -, rfl⟩, -, rfl⟩ := h
    exact .createGroup name memberIds hk
  | addMember gid uid =>
    simp only [Op.call, SplitwiseService.addMember, EState.bind_eq_ok, requireUser_eq_ok,
      requireGroup_eq_ok, modify_eq_ok] at h
    obtain ⟨user, _, ⟨hu, rfl⟩, g, _, ⟨hg, rfl⟩, rfl⟩ := h
    exact .addMember gid uid g user hu hg
  | removeMember gid uid =>
    simp only [Op.call, SplitwiseService.removeMember, EState.bind_eq_ok, requireGroup_eq_ok,
      lift_eq_ok, modify_eq_ok] at h
    obtain ⟨g, _, ⟨hg, rfl⟩, g', _, ⟨hg', rfl⟩, rfl⟩ := h
    exact .removeMember gid uid g g' hg hg'
  | addExpense a =>
    simp only [Op.call, SplitwiseService.addExpense, EState.bind_eq_ok, EState.guard_eq_ok,
      lift_eq_ok, ledgerFor_eq_ok, nextIdFor_eq_ok, modify_eq_ok, EState.pure_eq_ok] at h
    obtain ⟨_, _, ⟨total, _, ⟨hmoney, rfl⟩, hpos, hne, hnodup, ledger, _, ⟨hk, ho, rfl, rfl⟩,
      shares, _, ⟨hshares, rfl⟩, _, _, ⟨rfl, rfl⟩, e, _, ⟨he, rfl⟩, _, _, rfl, _, _, rfl, -, rfl⟩,
      -, rfl⟩ := h
    have hgid := (create_eq_ok he).2.2.2.2
    have hrec := Changed.addExpense a total shares
      ⟨hmoney, not_le.mp hpos, hne, not_not.mp hnodup, hk, ho, hshares⟩ e he
    rw [recorded, hgid] at hrec
    exact hrec
  | deleteExpense expenseId =>
    simp only [Op.call, SplitwiseService.deleteExpense, EState.bind_eq_ok, get_eq_ok] at h
    obtain ⟨_, _, ⟨rfl, rfl⟩, h⟩ := h
    cases he : s.expenses.get? expenseId with
    | none => rw [he] at h; simp only [throw_ne_ok] at h
    | some e =>
    rw [he] at h
    simp only [EState.bind_eq_ok, modify_eq_ok] at h
    obtain ⟨_, _, rfl, h⟩ := h
    have hdel := Changed.deleteExpense expenseId e he
    rw [deleted, Expense.ledger] at hdel
    cases hl : e.groupId.filter (· ≠ "") with
    | none =>
      rw [hl] at h hdel
      rw [← modify_eq_ok.mp h]
      exact hdel
    | some =>
      rw [hl] at h hdel
      simp only [EState.bind_eq_ok, get_eq_ok, EState.guard_eq_ok,
        modify_eq_ok] at h
      obtain ⟨_, _, ⟨rfl, rfl⟩, -, rfl⟩ := h
      exact hdel
  | recordPayment fromUser toUser amount groupId =>
    simp only [Op.call, SplitwiseService.recordPayment, EState.bind_eq_ok, EState.guard_eq_ok,
      lift_eq_ok, ledgerFor_eq_ok, nextIdFor_eq_ok, modify_eq_ok, EState.pure_eq_ok] at h
    obtain ⟨_, _, ⟨value, _, ⟨hmoney, rfl⟩, hpos, hne, ledger, _, ⟨hk, ho, rfl, rfl⟩, _, _,
      ⟨rfl, rfl⟩, _, _, rfl, _, _, rfl, -, rfl⟩, -, rfl⟩ := h
    exact .recordPayment fromUser toUser amount groupId value
      ⟨hmoney, not_le.mp hpos, hne, hk, ho⟩

end SplitwiseService

end InterviewPrep.Splitwise
