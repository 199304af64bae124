/-
  Group ledgers owe only members, and so every settlement plan can be recorded.

  Adding an expense and paying are checked against the member list, and a member is removed only
  with a zero balance; but deleting an expense posts to whoever took part in it, member or not.
  The law holds on every run whose deletions reverse nothing on a former member (`Meets`), and
  fails without that (`delete_owesFormerMember`).
-/
import InterviewPrep.Splitwise.History
import InterviewPrep.Splitwise.OptimalPlan

namespace InterviewPrep.Splitwise

open Lib Decimal Dict List

namespace SplitwiseService

variable {s t : SplitwiseService} {g : Group}

/-! ## The law -/

/-- The call that records a transfer of a plan in the group. -/
def recordTransfer (gid : String) (t : Transfer) : Op :=
  .recordPayment t.debtor t.creditor (.numeral (.decimal (.finite t.amount))) (some gid)

/-- Everyone with a balance in the group is a member, and every plan for the group can be recorded
    there, which settles the group. -/
def SettlesUp (s : SplitwiseService) (gid : String) (g : Group) : Prop :=
  (∀ u, (g.ledger.balanceOf u).toRat ≠ 0 → g.isMember u = true) ∧
    ∀ strategy, ∃ plan, getSettlementPlan gid strategy s = .ok plan s ∧
      ∃ out s', runSteps step s (plan.map (recordTransfer gid)) = .ok (out, s') ∧
        (∀ o ∈ out, o = .ok ()) ∧
        ∃ g', s'.groups.get? gid = some g' ∧ ∀ u, (g'.ledger.balanceOf u).toRat = 0

/-- No group ledger overflows, and deleting an expense changes only balances of current members. -/
structure Meets (s : SplitwiseService) (op : Op) : Prop where
  noOverflow : ∀ gid, NoOverflow (some gid) s op
  reversal : ∀ expenseId e gid g, op = .deleteExpense expenseId →
    s.expenses.get? expenseId = some e → e.groupId = some gid → s.groups.get? gid = some g →
    ∀ u, effect e.postings u ≠ 0 → u ∈ g.memberIds

theorem Meets.of_noPosts {op : Op} (h : ∀ l ps, ¬ s.Posts op l ps) : s.Meets op := by
  refine ⟨fun gid ps b hps _ => absurd hps (h _ _), ?_⟩
  rintro expenseId e gid g rfl he hgid hg
  exact absurd (.reversal expenseId e he) (h _ _)

/-! ## The invariant -/

/-- Members are known users, and only members have balances. -/
def OwesMembers (s : SplitwiseService) : Prop :=
  ∀ gid g, s.groups.get? gid = some g →
    s.Known g.memberIds ∧ ∀ u, g.ledger.cents u ≠ 0 → u ∈ g.memberIds

variable {u gid : String} {uids : List String}

theorem Known.addUser (h : s.Known uids) (user : User) : (s.registered user).Known uids := by
  intro u hu
  obtain ⟨v, hv⟩ := h u hu
  by_cases heq : u = user.userId
  · exact ⟨user, by rw [registered, heq, get?_set_self]⟩
  · exact ⟨v, by rw [registered, get?_set_of_ne _ _ heq, hv]⟩

theorem mem_addMember {uid : String} :
    u ∈ (g.addMember uid).memberIds ↔ u = uid ∨ u ∈ g.memberIds := by
  rw [Group.addMember]
  split
  · next h =>
      constructor
      · exact Or.inr
      · rintro (rfl | hu)
        · exact h
        · exact hu
  · simp [or_comm]

theorem mem_foldl_addMember :
    u ∈ (uids.foldl Group.addMember g).memberIds ↔ u ∈ uids ∨ u ∈ g.memberIds := by
  induction uids generalizing g with
  | nil => simp
  | cons _ _ ih =>
    rw [foldl_cons, ih, mem_addMember, mem_cons]
    tauto

theorem OwesMembers.posted {s1 : SplitwiseService} {l : Option String}
    {f : BalanceSheet → BalanceSheet} (h : s.OwesMembers) (hk : ∀ gid, s.Kept (some gid))
    (husers : s1.users = s.users) (hgroups : s1.groups = s.groups)
    (hpost : ∀ gid g, l = some gid → s.groups.get? gid = some g → ∃ ps,
      f g.ledger = g.ledger.post ps ∧ Fits g.ledger.cents ps ∧
        ∀ u, effect ps u ≠ 0 → u ∈ g.memberIds) : (modifyLedger l f s1).OwesMembers := by
  intro gid g' hg'
  rw [groups_modifyLedger, hgroups, Option.map_eq_some_iff] at hg'
  obtain ⟨g, hg, hg'⟩ := hg'
  obtain ⟨hknown, hmem⟩ := h gid g hg
  have hknown' : (modifyLedger l f s1).Known g.memberIds := by
    rw [Known, users_modifyLedger, husers]
    exact hknown
  by_cases hl : l = some gid
  · rw [if_pos hl] at hg'
    subst hg'
    refine ⟨hknown', fun u hu => ?_⟩
    obtain ⟨ps, hf, hfit, hps⟩ := hpost gid g hl hg
    have hexact : g.ledger.Exact := (hk gid g.ledger (by rw [ledger?, hg]; rfl)).1
    dsimp only at hu ⊢
    rw [hf, (hexact.post hfit).2.1 u] at hu
    by_cases h0 : g.ledger.cents u = 0
    · exact hps u fun he => hu (by rw [h0, he]; rfl)
    · exact hmem u h0
  · rw [if_neg hl] at hg'
    subst hg'
    exact ⟨hknown', hmem⟩

theorem Changed.owesMembers {op : Op} (h : Changed s op t) (hs : s.WF)
    (hk : ∀ gid, s.Kept (some gid)) (ho : s.OwesMembers) (hm : s.Meets op) : t.OwesMembers := by
  have hledger : ∀ gid g, s.groups.get? gid = some g → s.ledger? (some gid) = some g.ledger := by
    intro gid g hg
    rw [ledger?, hg]
    rfl
  cases h with
  | addUser =>
    intro gid g hg
    obtain ⟨hknown, hmem⟩ := ho gid g hg
    exact ⟨hknown.addUser _, hmem⟩
  | createGroup _ _ hknown =>
    intro gid g hg
    simp only [founded, get?_set] at hg
    split at hg
    · cases hg
      refine ⟨fun u hu => ?_, fun u hu => ?_⟩
      · rcases mem_foldl_addMember.mp hu with hu | hu
        · exact hknown u hu
        · cases hu
      · rw [ledger_foldl_addMember] at hu
        exact absurd rfl hu
    · exact ho gid g hg
  | addMember gid _ g user huser hg =>
    intro gid' g' hg'
    simp only [regrouped, get?_set] at hg'
    split at hg'
    · cases hg'
      obtain ⟨hknown, hmem⟩ := ho gid g hg
      refine ⟨fun u hu => ?_, fun u hu => ?_⟩
      · rcases mem_addMember.mp hu with rfl | hu
        · exact ⟨user, huser⟩
        · exact hknown u hu
      · rw [ledger_addMember] at hu
        exact mem_addMember.mpr (Or.inr (hmem u hu))
    · exact ho gid' g' hg'
  | removeMember gid uid g _ hg hg' =>
    obtain ⟨hzero, rfl⟩ := removeMember_ok hg'
    intro gid' g'' hg''
    simp only [regrouped, get?_set] at hg''
    split at hg''
    · cases hg''
      obtain ⟨hknown, hmem⟩ := ho gid g hg
      refine ⟨fun u hu => hknown u (mem_of_mem_erase hu), fun u hu => ?_⟩
      have hne : u ≠ uid := by
        rintro rfl
        exact hu (toRat_eq_zero_iff.mp hzero)
      exact (mem_erase_of_ne hne).mpr (hmem u hu)
    · exact ho gid' g'' hg''
  | addExpense a total shares hacc e he =>
    obtain ⟨hexact, hpostings, hnames⟩ := hacc.exact he
    have hgid := (create_eq_ok he).2.2.2.2
    refine ho.posted hk rfl rfl fun gid g hl hg => ⟨e.postings, applyExpense_one hexact _, ?_, ?_⟩
    · rw [hpostings]
      refine hm.noOverflow gid _ _ ?_ (hledger gid g hg)
      rw [← hl, hgid]
      exact .expense a total shares hacc
    intro u hu
    have hmem : u ∈ e.postings.map Prod.fst := by
      by_contra hnot
      exact hu (effect_of_not_mem hnot)
    rw [hnames] at hmem
    obtain ⟨g', hg', hopen⟩ := hacc.isOpen gid (hgid ▸ hl)
    rw [hg] at hg'
    cases hg'
    exact hopen u hmem
  | deleteExpense expenseId e he =>
    obtain ⟨hexact, -⟩ := hs.expenses expenseId e he
    refine ho.posted hk rfl rfl fun gid g hl hg =>
      ⟨reversed e.postings, applyExpense_neg hexact _, ?_, fun u hu => ?_⟩
    · refine hm.noOverflow gid _ _ ?_ (hledger gid g hg)
      rw [← hl, hs.ledger_eq he]
      exact .reversal expenseId e he
    · rw [effect_reversed, neg_ne_zero] at hu
      rw [hs.ledger_eq he] at hl
      exact hm.reversal expenseId e gid g rfl he hl hg u hu
  | recordPayment fromUser toUser amount groupId value hacc =>
    refine ho.posted hk rfl rfl fun gid g hl hg =>
      ⟨_, BalanceSheet.applyPayment_eq (toMoney_isMoney hacc.parsed) _, ?_, fun u hu => ?_⟩
    · refine hm.noOverflow gid _ _ ?_ (hledger gid g hg)
      rw [← hl]
      exact .payment fromUser toUser amount groupId value hacc
    have hmem : u ∈ [fromUser, toUser] := by
      by_contra hnot
      exact hu (effect_of_not_mem hnot)
    obtain ⟨g', hg', hopen⟩ := hacc.isOpen gid hl
    rw [hg] at hg'
    cases hg'
    exact hopen u hmem

/-! ## Recording a plan -/

theorem step_recordPayment {fromUser toUser : String} {amount : MoneyLike} {groupId : Option String}
    {value : Decimal} (h : s.AcceptsPayment fromUser toUser amount groupId value) :
    step s (.recordPayment fromUser toUser amount groupId) =
      .ok (.ok (), s.paid ⟨"P" ++ toString s.nextId, fromUser, toUser, value, groupId⟩) := by
  have hcall : (Op.recordPayment fromUser toUser amount groupId).call s =
      .ok () (s.paid ⟨"P" ++ toString s.nextId, fromUser, toUser, value, groupId⟩) := by
    simp only [Op.call, SplitwiseService.recordPayment, EState.bind_eq_ok, EState.guard_eq_ok,
      lift_eq_ok, ledgerFor_eq_ok, nextIdFor_eq_ok, EState.modify_eq_ok, EState.pure_eq_ok]
    exact ⟨_, _, ⟨value, s, ⟨h.parsed, rfl⟩, not_le.mpr h.positive, h.distinct, groupId, s,
      ⟨h.known, h.isOpen, rfl, rfl⟩, _, _, ⟨rfl, rfl⟩, (), _, rfl, (), _, rfl, rfl, rfl⟩,
      trivial, rfl⟩
  rw [step, hcall]

theorem record_settles {ts : List (String × String × Int)} {b : String → Int}
    (hts : Settles b ts) : ∀ (s : SplitwiseService) (g : Group), s.groups.get? gid = some g →
      s.Known g.memberIds → g.ledger.Exact → g.ledger.cents = b →
      (∀ u, b u ≠ 0 → u ∈ g.memberIds) →
      ∃ out s', runSteps step s ((ts.map transferOf).map (recordTransfer gid)) = .ok (out, s') ∧
        (∀ o ∈ out, o = .ok ()) ∧
        ∃ g', s'.groups.get? gid = some g' ∧ ∀ u, (g'.ledger.balanceOf u).toRat = 0 := by
  induction hts with
  | even heven =>
    intro s g hg _ _ hb _
    refine ⟨[], s, rfl, nofun, g, hg, fun u => ?_⟩
    rw [toRat_eq_zero_iff]
    exact (congrFun hb u).trans (heven u)
  | @pay b d c a _ ha hd hc _ ih =>
    intro s g hg hknown hexact hb hmem
    have hne := debtor_ne_creditor ha hd hc
    have hdm : d ∈ g.memberIds := hmem d (by omega)
    have hcm : c ∈ g.memberIds := hmem c (by omega)
    have hind : InRange (b d) := hb ▸ hexact.inRange d
    have hinc : InRange (b c) := hb ▸ hexact.inRange c
    have hin : InRange a := hinc.of_le (by omega)
    have hboth : ∀ u ∈ [d, c], u ∈ g.memberIds := by
      intro u hu
      rcases mem_cons.mp hu with rfl | hu
      · exact hdm
      · rwa [mem_singleton.mp hu]
    have hacc : s.AcceptsPayment d c (.numeral (.decimal (.finite (money a)))) (some gid)
        (money a) := by
      refine ⟨toMoney_money hin, toRat_pos_iff.mpr ha, hne,
        fun u hu => hknown u (hboth u hu), fun gid' hgid' => ?_⟩
      cases hgid'
      exact ⟨g, hg, hboth⟩
    have hstep := step_recordPayment hacc
    obtain ⟨p, hp⟩ : ∃ p : Payment, p =
        ⟨"P" ++ toString s.nextId, d, c, money a, some gid⟩ := ⟨_, rfl⟩
    rw [← hp] at hstep
    have hpost : g.ledger.applyPayment p = g.ledger.post [(d, a), (c, -a)] := by
      rw [BalanceSheet.applyPayment_eq (p := p) (by rw [hp]; exact ⟨rfl, hin⟩)]
      rw [hp]
      rfl
    have hfit : Fits g.ledger.cents [(d, a), (c, -a)] := by
      rw [hb]
      refine ⟨hind.of_le (by omega), ?_, trivial⟩
      rw [Function.update_of_ne (Ne.symm hne)]
      exact hinc.of_le (by omega)
    obtain ⟨hexact', hcents', -⟩ := hexact.post hfit
    have hg' : (s.paid p).groups.get? gid =
        some { g with ledger := g.ledger.post [(d, a), (c, -a)] } := by
      have hpgid : p.groupId = some gid := by rw [hp]
      rw [paid, groups_modifyLedger, hpgid]
      simp only [hg, Option.map_some, if_true, hpost]
    have hb' : (g.ledger.post [(d, a), (c, -a)]).cents = Lib.pay b d c a := by
      funext u
      rw [hcents' u, hb]
      rfl
    have hknown' : (s.paid p).Known g.memberIds := by
      rw [Known, paid, users_modifyLedger]
      exact hknown
    obtain ⟨out, s', hrun, hout, hfinal⟩ := ih (s.paid p)
      { g with ledger := g.ledger.post [(d, a), (c, -a)] } hg' hknown' hexact' hb'
      (fun u hu => by
        by_cases hud : u = d
        · exact hud ▸ hdm
        · by_cases huc : u = c
          · exact huc ▸ hcm
          · rw [pay_of_ne b a hud huc] at hu
            exact hmem u hu)
    refine ⟨.ok () :: out, s', ?_, ?_, hfinal⟩
    · exact runSteps_cons_ok hstep hrun
    · intro o ho
      rcases mem_cons.mp ho with rfl | ho
      · rfl
      · exact hout o ho

theorem OwesMembers.settlesUp (h : s.OwesMembers) (hg : s.groups.get? gid = some g)
    (hk : s.Kept (some gid)) : s.SettlesUp gid g := by
  obtain ⟨hknown, hmem⟩ := h gid g hg
  obtain ⟨hexact, -, htotal⟩ := hk g.ledger (by rw [ledger?, hg]; rfl)
  refine ⟨fun u hu => ?_, fun strategy => ?_⟩
  · rw [Group.isMember, decide_eq_true_eq]
    exact hmem u fun h0 => hu (toRat_eq_zero_iff.mpr h0)
  · obtain ⟨ts, hplan, hsettles⟩ :=
      SettlementStrategy.settles (strategy.getD s.settlement) g.ledger hexact htotal
    refine ⟨ts.map transferOf, ?_, record_settles hsettles s g hg hknown hexact rfl hmem⟩
    simp only [getSettlementPlan, getGroupBalances, EState.bind_eq_ok, requireGroup_eq_ok,
      EState.pure_eq_ok, EState.get_eq_ok, lift_eq_ok]
    exact ⟨g.ledger.net, s, ⟨g, s, ⟨hg, rfl⟩, rfl, rfl⟩, s, s, ⟨rfl, rfl⟩, hplan, rfl⟩

/-- Where steps meet the condition, every settlement plan can be recorded and settles its group. -/
theorem run_settlesUp (settlement : SettlementStrategy) (ops : List Op)
    (hops : Guarded Meets step (new settlement) ops) :
    ∃ out s, runSteps step (new settlement) ops = .ok (out, s) ∧
      ∀ gid g, s.groups.get? gid = some g → s.SettlesUp gid g := by
  have hkeep : ∀ (_ : List Op) (_ : List Outcome) (s : SplitwiseService) (op : Op),
      (s.WF ∧ (∀ gid, s.Kept (some gid)) ∧ s.OwesMembers) → s.Meets op →
      ∃ o t, step s op = .ok (o, t) ∧ t.WF ∧ (∀ gid, t.Kept (some gid)) ∧ t.OwesMembers := by
    rintro _ _ s op ⟨hs, hk, ho⟩ hm
    obtain ⟨o, t, hstep⟩ := step_total s op
    refine ⟨o, t, hstep, hs.step hstep, ?_⟩
    rcases hs.step_cases hstep with ⟨-, hch⟩ | ⟨-, n, -, rfl⟩
    · exact ⟨fun gid => hch.kept hs (hk gid) (hm.noOverflow gid), hch.owesMembers hs hk ho hm⟩
    · exact ⟨fun gid => (hk gid).congr rfl rfl, ho⟩
  have hinit : (new settlement).WF ∧ (∀ gid, (new settlement).Kept (some gid)) ∧
      (new settlement).OwesMembers :=
    ⟨new_wf settlement, fun gid => new_kept (some gid) settlement, nofun⟩
  obtain ⟨out, s, hrun, -, hk, ho⟩ := runSteps_invariant
    (fun _ _ s => s.WF ∧ (∀ gid, s.Kept (some gid)) ∧ s.OwesMembers) hkeep hinit hops
  exact ⟨out, s, hrun, fun gid g hg => ho.settlesUp hg (hk gid)⟩

/-- `run_settlesUp` for a payment in a new group. -/
theorem run_settlesUp_payment : ∃ out s, runSteps step (new .greedy)
        [.addUser "A" "a@x", .addUser "B" "b@x", .createGroup "trip" ["U1", "U2"],
          .recordPayment "U2" "U1" (.numeral (.decimal (.finite (money 500)))) (some "G3")] =
            .ok (out, s) ∧ ∀ gid g, s.groups.get? gid = some g → s.SettlesUp gid g := by
  refine run_settlesUp .greedy _ ⟨.of_noPosts ?_, fun o1 s1 h1 => ⟨.of_noPosts ?_, fun o2 s2 h2 =>
    ⟨.of_noPosts ?_, fun o3 s3 h3 => ⟨⟨?_, ?_⟩, fun _ _ _ => trivial⟩⟩⟩⟩
  · rintro l ps ⟨⟩
  · rintro l ps ⟨⟩
  · rintro l ps ⟨⟩
  · rintro gid ps b hps hb
    cases h1
    cases h2
    cases h3
    generalize hl : some gid = l at hps
    cases hps with
    | payment _ _ _ _ _ h =>
    have hparsed := h.parsed
    rw [toMoney_money (by decide)] at hparsed
    cases hparsed
    cases hl
    cases hb
    exact ⟨by decide +kernel, by decide +kernel, trivial⟩
  · intro expenseId e gid g hop
    cases hop

/-- `B` settles up and leaves; then the dinner is deleted, and `B` is owed what cannot be paid. -/
theorem delete_owesFormerMember : ∃ out s g, runSteps step (new .greedy)
        [.addUser "A" "a@x", .addUser "B" "b@x", .createGroup "trip" ["U1", "U2"],
          .addExpense { description := "dinner", amount := .numeral (.int 10), paidBy := "U1",
                        participantIds := ["U1", "U2"], groupId := some "G3" },
          .recordPayment "U2" "U1" (.numeral (.int 5)) (some "G3"), .removeMember "G3" "U2",
          .deleteExpense "E4"] = .ok (out, s) ∧
      s.groups.get? "G3" = some g ∧ (g.ledger.balanceOf "U2").toRat = 5 ∧ g.isMember "U2" = false ∧
      ¬ s.SettlesUp "G3" g := by
  obtain ⟨⟨out, s⟩, hrun, hobs⟩ := exists_ok_of_observe
    (f := fun r => (r.2.groups.get? "G3").map fun g =>
      ((g.ledger.balanceOf "U2").toRat, g.isMember "U2"))
    (b := some (5, false)) (x := runSteps step (new .greedy)
        [.addUser "A" "a@x", .addUser "B" "b@x", .createGroup "trip" ["U1", "U2"],
          .addExpense { description := "dinner", amount := .numeral (.int 10), paidBy := "U1",
                        participantIds := ["U1", "U2"], groupId := some "G3" },
          .recordPayment "U2" "U1" (.numeral (.int 5)) (some "G3"), .removeMember "G3" "U2",
          .deleteExpense "E4"]) (by decide +kernel)
  obtain ⟨g, hg, hobs⟩ := Option.map_eq_some_iff.mp hobs
  obtain ⟨hbal, hmem⟩ := Prod.mk.inj hobs
  refine ⟨out, s, g, hrun, hg, hbal, hmem, fun h => ?_⟩
  have hmem' := h.1 "U2" (by rw [hbal]; decide)
  rw [hmem] at hmem'
  cases hmem'

end SplitwiseService

end InterviewPrep.Splitwise
