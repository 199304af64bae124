/-
  The greedy strategy settles: the two heaps hold every open balance once, each round is a
  transfer from a debtor to a creditor, and it empties at least one of the two entries, so the
  loop ends with everybody even.

  The exact strategy settles whenever its fallback does: the tables hold the sum of every set of
  people and a maximum over its people (`Filled`), so the walk back takes the people out one by
  one (`Clears`); it cuts where the rest sums to zero, so each subgroup sums to zero, and the
  plans of the subgroups together settle everybody.
-/
import InterviewPrep.Splitwise.Changes

namespace InterviewPrep.Splitwise

open Lib BalanceSheet Decimal Dict List

/-- A transfer of whole cents. -/
def transferOf (t : String × String × Int) : Transfer := ⟨t.1, t.2.1, money t.2.2⟩

/-- The strategy returns a plan that settles the balances of an exact sheet. -/
def SettlesExact (settle : Settle) : Prop :=
  ∀ b : BalanceSheet, b.Exact → b.total = 0 →
    ∃ ts, settle b.net = .ok (ts.map transferOf) ∧ Settles b.cents ts

/-! ## The balances in the heaps -/

/-- A debtor's entry as a posting. -/
def debtOf (e : Entry) : String × Int := ((ofLex e).2, (ofLex e).1)

/-- A creditor's entry, whose cents are negated, as a posting. -/
def creditOf (e : Entry) : String × Int := ((ofLex e).2, -(ofLex e).1)

/-- The open balances of the two heaps. -/
def openBalances (debtors creditors : List Entry) : List (String × Int) :=
  debtors.map debtOf ++ creditors.map creditOf

/-- The loop invariant: entries are negative and in range, one a person, and sum to zero. -/
structure Matched (debtors creditors : List Entry) : Prop where
  neg : ∀ e ∈ debtors ++ creditors, (ofLex e).1 < 0
  inRange : ∀ e ∈ debtors ++ creditors, InRange (ofLex e).1
  nodup : ((openBalances debtors creditors).map Prod.fst).Nodup
  sum : ((openBalances debtors creditors).map Prod.snd).sum = 0

variable {ds cs : List Entry} {f : Entry → String × Int} {cents : List Int} {mask : Nat}

variable {ds' cs' : List Entry}

theorem openBalances_perm (hd : ds.Perm ds') (hc : cs.Perm cs') :
    (openBalances ds cs).Perm (openBalances ds' cs') :=
  (hd.map _).append (hc.map _)

theorem Matched.perm (h : Matched ds cs) (hd : ds.Perm ds')
    (hc : cs.Perm cs') : Matched ds' cs' where
  neg := fun e he => h.neg e ((hd.append hc).mem_iff.mpr he)
  inRange := fun e he => h.inRange e ((hd.append hc).mem_iff.mpr he)
  nodup := ((openBalances_perm hd hc).map _).nodup_iff.mp h.nodup
  sum := by rw [← ((openBalances_perm hd hc).map Prod.snd).sum_eq, h.sum]

theorem sum_neg_of_neg {xs : List Int} (h : ∀ x ∈ xs, x < 0) (hne : xs ≠ []) : xs.sum < 0 := by
  induction xs with
  | nil => exact absurd rfl hne
  | cons x xs ih =>
    rw [sum_cons]
    have hx := h x (mem_cons_self ..)
    by_cases hxs : xs = []
    · rw [hxs, sum_nil]
      omega
    · have := ih (fun y hy => h y (mem_cons_of_mem _ hy)) hxs
      omega

theorem Matched.creditors_nil (h : Matched [] cs) : cs = [] := by
  by_contra hne
  have hneg : (cs.map fun e => (ofLex e).1).sum < 0 := by
    apply sum_neg_of_neg
    · intro x hx
      obtain ⟨e, he, rfl⟩ := List.mem_map.mp hx
      exact h.neg e he
    · exact fun h0 => hne (map_eq_nil_iff.mp h0)
  have hsum : (cs.map fun e => -(ofLex e).1).sum = 0 := by
    have := h.sum
    rw [openBalances, map_nil, nil_append, List.map_map] at this
    exact this
  have hopp : ∀ xs : List Entry, (xs.map fun e => -(ofLex e).1).sum = -(xs.map fun e =>
      (ofLex e).1).sum := by
    intro xs
    induction xs with
    | nil => rfl
    | cons _ _ ih => rw [map_cons, sum_cons, ih, map_cons, sum_cons]; omega
  rw [hopp] at hsum
  omega

theorem Matched.debtors_nil (h : Matched ds []) : ds = [] := by
  by_contra hne
  have hneg : (ds.map fun e => (ofLex e).1).sum < 0 := by
    apply sum_neg_of_neg
    · intro x hx
      obtain ⟨e, he, rfl⟩ := List.mem_map.mp hx
      exact h.neg e (mem_append_left _ he)
    · exact fun h0 => hne (map_eq_nil_iff.mp h0)
  have hsum : (ds.map fun e => (ofLex e).1).sum = 0 := by
    have := h.sum
    rw [openBalances, map_nil, append_nil, List.map_map] at this
    exact this
  omega

/-! ## One round -/

/-- The heap after an entry was popped and its rest, if any, pushed back. -/
def pushRest (heap : List Entry) (rest : Int) (uid : String) : List Entry :=
  if rest ≠ 0 then heappush heap (toLex (rest, uid)) else heap

theorem mem_pushRest {heap : List Entry} {rest : Int} {uid : String} {e : Entry}
    (h : e ∈ pushRest heap rest uid) : (e = toLex (rest, uid) ∧ rest ≠ 0) ∨ e ∈ heap := by
  unfold pushRest at h
  split at h
  · next hne =>
      rcases mem_heappush.mp h with h | h
      · exact Or.inl ⟨h, hne⟩
      · exact Or.inr h
  · exact Or.inr h

theorem length_pushRest (heap : List Entry) (rest : Int) (uid : String) :
    (pushRest heap rest uid).length = heap.length + if rest = 0 then 0 else 1 := by
  unfold pushRest
  by_cases h : rest = 0
  · simp only [h, ne_eq, not_true_eq_false, if_false, if_true, Nat.add_zero]
  · simp only [h, ne_eq, not_false_eq_true, if_true, if_false]
    rw [(heappush_perm _ _).length_eq, length_cons]

theorem pushRest_cases (heap : List Entry) (rest : Int) (uid : String) :
    (pushRest heap rest uid).Perm (toLex (rest, uid) :: heap) ∨
      (rest = 0 ∧ pushRest heap rest uid = heap) := by
  unfold pushRest
  split
  · exact Or.inl (heappush_perm _ _)
  · next h => exact Or.inr ⟨not_not.mp h, rfl⟩

theorem effect_pushRest (heap : List Entry) (rest : Int) (uid u : String)
    (hf : (f (toLex (0, uid))).2 = 0) :
    effect ((pushRest heap rest uid).map f) u = effect ((toLex (rest, uid) :: heap).map f) u := by
  rcases pushRest_cases heap rest uid with h | ⟨rfl, h⟩
  · exact effect_perm (h.map f) u
  · rw [h, map_cons, effect_cons, hf, ite_self, zero_add]

theorem sum_pushRest (heap : List Entry) (rest : Int) (uid : String)
    (hf : (f (toLex (0, uid))).2 = 0) : (((pushRest heap rest uid).map f).map Prod.snd).sum =
      (((toLex (rest, uid) :: heap).map f).map Prod.snd).sum := by
  rcases pushRest_cases heap rest uid with h | ⟨rfl, h⟩
  · exact ((h.map f).map Prod.snd).sum_eq
  · rw [h, map_cons, map_cons, sum_cons, hf, zero_add]

theorem names_pushRest (heap : List Entry) (rest : Int) (uid : String) :
    ∃ names : List String, names.Perm (((pushRest heap rest uid).map f).map Prod.fst) ∧
      names.Sublist (((toLex (rest, uid) :: heap).map f).map Prod.fst) := by
  rcases pushRest_cases heap rest uid with h | ⟨-, h⟩
  · exact ⟨_, ((h.map f).map Prod.fst).symm, List.Sublist.refl _⟩
  · rw [h]
    exact ⟨_, List.Perm.refl _, ((sublist_cons_self _ _).map f).map Prod.fst⟩

section round

variable {owed due : Int} {debtor creditor : String} {ds cs : List Entry}

theorem round_matched (h : Matched (toLex (owed, debtor) :: ds) (toLex (due, creditor) :: cs))
    {cents : Int} (h0 : 0 < cents) (ho : cents ≤ -owed) (hd : cents ≤ -due) :
    Matched (pushRest ds (owed + cents) debtor) (pushRest cs (due + cents) creditor) := by
  have howed := h.inRange (toLex (owed, debtor)) (by simp)
  have hdue := h.inRange (toLex (due, creditor)) (by simp)
  refine ⟨fun e he => ?_, fun e he => ?_, ?_, ?_⟩
  · rcases mem_append.mp he with he | he
    · rcases mem_pushRest he with ⟨rfl, hne⟩ | he
      · show owed + cents < 0
        omega
      · exact h.neg e (by simp [he])
    · rcases mem_pushRest he with ⟨rfl, hne⟩ | he
      · show due + cents < 0
        omega
      · exact h.neg e (by simp [he])
  · rcases mem_append.mp he with he | he
    · rcases mem_pushRest he with ⟨rfl, hne⟩ | he
      · refine InRange.of_le howed ?_
        show (owed + cents).natAbs ≤ owed.natAbs
        omega
      · exact h.inRange e (by simp [he])
    · rcases mem_pushRest he with ⟨rfl, hne⟩ | he
      · refine InRange.of_le hdue ?_
        show (due + cents).natAbs ≤ due.natAbs
        omega
      · exact h.inRange e (by simp [he])
  · obtain ⟨names, hperm, hsub⟩ := names_pushRest (f := debtOf) ds (owed + cents) debtor
    obtain ⟨names', hperm', hsub'⟩ := names_pushRest (f := creditOf) cs (due + cents) creditor
    rw [openBalances, map_append]
    have hnodup := h.nodup
    rw [openBalances, map_append] at hnodup
    exact ((hperm.append hperm').nodup_iff).mp ((hsub.append hsub').nodup hnodup)
  · have hsum := h.sum
    simp only [openBalances, map_append, sum_append] at hsum ⊢
    rw [sum_pushRest _ _ _ rfl, sum_pushRest _ _ _ rfl]
    simp only [map_cons, sum_cons, debtOf, creditOf, ofLex_toLex] at hsum ⊢
    omega

theorem round_pay (cents : Int) :
    effect (openBalances (pushRest ds (owed + cents) debtor) (pushRest cs (due + cents) creditor)) =
      pay (effect (openBalances (toLex (owed, debtor) :: ds) (toLex (due, creditor) :: cs)))
        debtor creditor cents := by
  funext u
  rw [pay_apply, openBalances, openBalances, effect_append, effect_append,
    effect_pushRest _ _ _ _ rfl, effect_pushRest _ _ _ _ rfl]
  simp only [map_cons, effect_cons, debtOf, creditOf, ofLex_toLex]
  split <;> split <;> omega

theorem Matched.owes (h : Matched (toLex (owed, debtor) :: ds) (toLex (due, creditor) :: cs)) :
    effect (openBalances (toLex (owed, debtor) :: ds) (toLex (due, creditor) :: cs))
      debtor = owed :=
  effect_of_mem h.nodup (p := (debtor, owed)) (mem_cons_self ..)

theorem Matched.isOwed (h : Matched (toLex (owed, debtor) :: ds) (toLex (due, creditor) :: cs)) :
    effect (openBalances (toLex (owed, debtor) :: ds) (toLex (due, creditor) :: cs)) creditor
      = -due :=
  effect_of_mem h.nodup (p := (creditor, -due))
    (mem_append_right _ (mem_cons_self ..))

end round

/-! ## The loop -/

theorem greedyLoop_settles (h : Matched ds cs) (fuel : Nat) (hfuel : ds.length + cs.length ≤ fuel) :
    ∃ ts, greedyLoop fuel ds cs = .ok (ts.map transferOf) ∧
      Settles (effect (openBalances ds cs)) ts := by
  induction fuel generalizing ds cs with
  | zero =>
    have hds : ds = [] := eq_nil_of_length_eq_zero (by omega)
    subst hds
    rw [h.creditors_nil]
    exact ⟨[], rfl, .even fun u => rfl⟩
  | succ fuel ih =>
    cases ds with
    | nil =>
      rw [h.creditors_nil]
      exact ⟨[], rfl, .even fun u => rfl⟩
    | cons debt ds =>
    cases cs with
    | nil => exact absurd h.debtors_nil (cons_ne_nil _ _)
    | cons credit cs =>
    obtain ⟨⟨owed, debtor⟩, rfl⟩ := toLex.surjective debt
    obtain ⟨⟨due, creditor⟩, rfl⟩ := toLex.surjective credit
    have howed : owed < 0 := h.neg (toLex (owed, debtor)) (mem_cons_self ..)
    have hdue : due < 0 := h.neg (toLex (due, creditor))
      (mem_append_right _ (mem_cons_self ..))
    have hin : InRange owed := h.inRange (toLex (owed, debtor)) (mem_cons_self ..)
    have h0 : 0 < min (-owed) (-due) := by omega
    have ho : min (-owed) (-due) ≤ -owed := min_le_left _ _
    have hd : min (-owed) (-due) ≤ -due := min_le_right _ _
    have hlen : (pushRest ds (owed + min (-owed) (-due)) debtor).length +
        (pushRest cs (due + min (-owed) (-due)) creditor).length ≤ fuel := by
      rw [length_pushRest, length_pushRest]
      rw [length_cons, length_cons] at hfuel
      split
      · split
        · omega
        · omega
      · split
        · omega
        · omega
    obtain ⟨ts, hloop, hsettles⟩ := ih (round_matched h h0 ho hd) hlen
    refine ⟨(debtor, creditor, min (-owed) (-due)) :: ts, ?_, ?_⟩
    · have hcents : fromCents (min (-owed) (-due)) = money (min (-owed) (-due)) :=
        fromCents_of_inRange (hin.of_le (by omega))
      have hunfold : greedyLoop (fuel + 1) (toLex (owed, debtor) :: ds)
          (toLex (due, creditor) :: cs) =
          (greedyLoop fuel (pushRest ds (owed + min (-owed) (-due)) debtor)
            (pushRest cs (due + min (-owed) (-due)) creditor)).bind fun ts =>
              .ok (⟨debtor, creditor, fromCents (min (-owed) (-due))⟩ :: ts) := rfl
      rw [hunfold, hloop, hcents]
      rfl
    refine .pay h0 ?_ ?_ ?_
    · rw [h.owes]
      exact ho
    · rw [h.isOwed]
      exact hd
    · rw [← round_pay]
      exact hsettles

/-! ## The strategy -/

/-- The debtors of a sheet, as the strategy collects them. -/
def debtorsOf (balances : Dict String Decimal) : List Entry :=
  balances.items.filterMap fun x =>
    if x.2.toRat < 0 then some (toLex (toCents x.2, x.1)) else none

/-- The creditors of a sheet, with negated cents. -/
def creditorsOf (balances : Dict String Decimal) : List Entry :=
  balances.items.filterMap fun x =>
    if 0 < x.2.toRat then some (toLex (-toCents x.2, x.1)) else none

theorem openBalances_perm_sheet {xs : List (String × Decimal)}
    (h : ∀ x ∈ xs, x.2 = money x.2.coeff ∧ InRange x.2.coeff ∧ x.2.coeff ≠ 0) :
    (openBalances
      (xs.filterMap fun x => if x.2.toRat < 0 then some (toLex (toCents x.2, x.1)) else none)
      (xs.filterMap fun x => if 0 < x.2.toRat then some (toLex (-toCents x.2, x.1)) else none)).Perm
      (xs.map fun x => (x.1, x.2.coeff)) := by
  induction xs with
  | nil => exact List.Perm.refl _
  | cons x _ ih =>
    obtain ⟨hx, hin, hne⟩ := h x (mem_cons_self ..)
    have ih' := ih fun y hy => h y (mem_cons_of_mem _ hy)
    have hcents : toCents x.2 = x.2.coeff := by
      rw [hx]
      exact toCents_money hin
    rw [map_cons, filterMap_cons, filterMap_cons, hcents]
    simp only [toRat_lt_zero_iff, toRat_pos_iff] at ih' ⊢
    by_cases hlt : x.2.coeff < 0
    · have hnot : ¬ 0 < x.2.coeff := by omega
      simp only [if_pos hlt, if_neg hnot, openBalances, map_cons, cons_append]
      exact ih'.cons _
    have hpos : 0 < x.2.coeff := by omega
    simp only [if_neg hlt, if_pos hpos, openBalances, map_cons]
    refine (perm_middle).trans ?_
    have hself : creditOf (toLex (-x.2.coeff, x.1)) = (x.1, x.2.coeff) := by
      simp only [creditOf, ofLex_toLex, neg_neg]
    rw [hself]
    exact ih'.cons _

theorem Exact.matched {b : BalanceSheet} (hb : b.Exact) (htotal : b.total = 0) :
    Matched (debtorsOf b.net) (creditorsOf b.net) ∧
      effect (openBalances (debtorsOf b.net) (creditorsOf b.net)) = b.cents := by
  have hitems : ∀ x ∈ b.net.items, x.2 = money x.2.coeff ∧ InRange x.2.coeff ∧ x.2.coeff ≠ 0 :=
    fun x hx => hb x.1 x.2 (mem_items_iff.mp hx)
  have hperm := openBalances_perm_sheet hitems
  have hkeys : ((b.net.items.map fun x => (x.1, x.2.coeff)).map Prod.fst).Nodup := by
    rw [List.map_map]
    exact b.net.nodup
  have hcents : ∀ x ∈ b.net.items, toCents x.2 = x.2.coeff := by
    intro x hx
    obtain ⟨hx, hin, -⟩ := hitems x hx
    rw [hx]
    exact toCents_money hin
  refine ⟨⟨fun e he => ?_, fun e he => ?_, ?_, ?_⟩, ?_⟩
  · rcases mem_append.mp he with he | he
    · obtain ⟨x, hx, he⟩ := mem_filterMap.mp he
      split at he
      · next hlt =>
          cases he
          rw [hcents x hx]
          exact toRat_lt_zero_iff.mp hlt
      · cases he
    obtain ⟨x, hx, he⟩ := mem_filterMap.mp he
    split at he
    · next hpos =>
        cases he
        show -toCents x.2 < 0
        rw [hcents x hx]
        have := toRat_pos_iff.mp hpos
        omega
    · cases he
  · rcases mem_append.mp he with he | he
    · obtain ⟨x, hx, he⟩ := mem_filterMap.mp he
      split at he
      · cases he
        rw [hcents x hx]
        exact (hitems x hx).2.1
      · cases he
    · obtain ⟨x, hx, he⟩ := mem_filterMap.mp he
      split at he
      · cases he
        rw [hcents x hx]
        exact (hitems x hx).2.1.neg
      · cases he
  · exact (hperm.map _).nodup_iff.mpr hkeys
  · have hsum : ((b.net.items.map fun x => (x.1, x.2.coeff)).map Prod.snd).sum = b.total := by
      rw [List.map_map, BalanceSheet.total, Dict.values, List.map_map]
      rfl
    rw [show ((openBalances (debtorsOf b.net) (creditorsOf b.net)).map Prod.snd).sum = _ from
      (hperm.map Prod.snd).sum_eq, hsum, htotal]
  · funext u
    rw [show effect (openBalances (debtorsOf b.net) (creditorsOf b.net)) u = _ from
      effect_perm hperm u]
    cases hu : b.net.get? u with
    | none =>
      rw [cents_of_none hu]
      apply effect_of_not_mem
      rw [List.map_map]
      exact get?_eq_none.mp hu
    | some v =>
      rw [cents_of_get? hu]
      exact effect_of_mem hkeys (p := (u, v.coeff))
        (List.mem_map.mpr ⟨(u, v), Dict.mem_items.mpr hu, rfl⟩)

theorem greedySettle_settles : SettlesExact greedySettle := by
  intro b hb htotal
  obtain ⟨hmatched, hcents⟩ := Exact.matched hb htotal
  have hsum : ((debtorsOf b.net).map fun e => (ofLex e).1).sum +
      ((creditorsOf b.net).map fun e => -(ofLex e).1).sum = 0 := by
    have := hmatched.sum
    rw [openBalances, map_append, sum_append, List.map_map, List.map_map] at this
    exact this
  have hd := (heapify_perm (debtorsOf b.net)).symm
  have hc := (heapify_perm (creditorsOf b.net)).symm
  obtain ⟨ts, hloop, hsettles⟩ := greedyLoop_settles (hmatched.perm hd hc)
    ((debtorsOf b.net).length + (creditorsOf b.net).length) (by rw [hd.length_eq, hc.length_eq])
  refine ⟨ts, ?_, ?_⟩
  · have hunfold : greedySettle b.net =
        if ((debtorsOf b.net).map fun e => (ofLex e).1).sum +
          ((creditorsOf b.net).map fun e => -(ofLex e).1).sum ≠ 0 then
          .error (.valueError "balances must sum to zero")
        else greedyLoop ((debtorsOf b.net).length + (creditorsOf b.net).length)
          (heapify (debtorsOf b.net)) (heapify (creditorsOf b.net)) := rfl
    rw [hunfold, if_neg (not_not.mpr hsum), hloop]
  have heq : effect (openBalances (heapify (debtorsOf b.net)) (heapify (creditorsOf b.net))) =
      b.cents := by
    rw [← hcents]
    funext u
    exact (effect_perm (openBalances_perm hd hc) u).symm
  rw [← heq]
  exact hsettles

/-! ## The tables -/

/-- The sum of the balances of a set of people. -/
def maskSum (cents : List Int) (mask : Nat) : Int :=
  ((bits cents.length mask).map (cents.getD · 0)).sum

theorem maskSum_zero (cents : List Int) : maskSum cents 0 = 0 := by
  rw [maskSum, bits_zero]
  rfl

theorem maskSum_split {rest i : Nat} (hi : i < cents.length) (h : mask.testBit i)
    (hrest : ∀ j, rest.testBit j = (mask.testBit j && decide (j ≠ i))) :
    maskSum cents mask = cents.getD i 0 + maskSum cents rest := by
  rw [maskSum, ((bits_perm hi h hrest).map _).sum_eq, map_cons, sum_cons, maskSum]

/-- One entry of the tables: the sum of the set, and one more than (or the same as) the maximum of
    the sets without one person. -/
def EntryOk (cents : List Int) (t : Tables) (mask : Nat) : Prop :=
  t.subsetSum.getD mask 0 = maskSum cents mask ∧
    (mask ≠ 0 → ∃ b, (bestWithout t.best cents.length mask).max? = some b ∧
      t.best.getD mask 0 = b + if maskSum cents mask = 0 then 1 else 0)

/-- The tables are filled up to the set `k`. -/
structure FilledTo (cents : List Int) (t : Tables) (k : Nat) : Prop where
  sizeSum : t.subsetSum.size = 2 ^ cents.length
  sizeBest : t.best.size = 2 ^ cents.length
  entries : ∀ mask ≤ k, EntryOk cents t mask

theorem getD_setIfInBounds {α : Type} (xs : Array α) (i j : Nat) (v d : α) :
    (xs.setIfInBounds i v).getD j d = if i = j ∧ i < xs.size then v else xs.getD j d := by
  rw [Array.getD_eq_getD_getElem?, Array.getD_eq_getD_getElem?, Array.getElem?_setIfInBounds]
  by_cases h : i = j
  · subst h
    by_cases hi : i < xs.size
    · simp [hi]
    · simp [hi]
  · simp [h]

theorem mem_bestWithout {best : Array Nat} {n b : Nat} : b ∈ bestWithout best n mask ↔
      ∃ i < n, mask.testBit i ∧ best.getD (mask ^^^ (1 <<< i)) 0 = b := by
  rw [bestWithout, List.mem_map]
  constructor
  · rintro ⟨i, hi, rfl⟩
    exact ⟨i, (mem_bits.mp hi).1, (mem_bits.mp hi).2, rfl⟩
  · rintro ⟨i, hi, hbit, rfl⟩
    exact ⟨i, mem_bits.mpr ⟨hi, hbit⟩, rfl⟩

theorem bestWithout_set {best : Array Nat} {n k v : Nat} (h : mask ≤ k) :
    bestWithout (best.setIfInBounds k v) n mask = bestWithout best n mask := by
  rw [bestWithout, bestWithout]
  refine map_congr_left fun i hi => ?_
  have hlt := without_lt (mem_bits.mp hi).2
  rw [getD_setIfInBounds, if_neg (by omega)]

theorem fillMask_ok {t : Tables} {k : Nat} (h : FilledTo cents t k) (hk : k + 1 < 2 ^ cents.length)
    : ∃ t', fillMask cents.length cents t (k + 1) = .ok t' ∧ FilledTo cents t' (k + 1) := by
  have hk0 : k + 1 ≠ 0 := Nat.succ_ne_zero k
  obtain ⟨hlow, hclear⟩ := lowBit_spec hk0
  have hlown : lowBit (k + 1) < cents.length := lt_of_testBit hk hlow
  have hrest : (k + 1) &&& (k + 1 - 1) ≤ k := by
    have hlt : (k + 1) &&& (k + 1 - 1) < k + 1 := by
      apply Nat.lt_of_testBit (lowBit (k + 1))
      · rw [hclear]
        simp
      · exact hlow
      · intro j hj
        rw [hclear]
        simp [Nat.ne_of_gt hj]
    omega
  -- the new sum is that of the set without its lowest person, plus that person
  have hsum : t.subsetSum.getD ((k + 1) &&& (k + 1 - 1)) 0 + cents.getD (lowBit (k + 1)) 0 =
      maskSum cents (k + 1) := by
    rw [(h.entries _ hrest).1, maskSum_split hlown hlow hclear]
    omega
  obtain ⟨b, hb⟩ : ∃ b, (bestWithout t.best cents.length (k + 1)).max? = some b := by
    rw [← Option.isSome_iff_exists, isSome_max?_iff]
    intro hnil
    rw [bestWithout, map_eq_nil_iff] at hnil
    exact bits_ne_nil hk hk0 hnil
  refine ⟨⟨t.subsetSum.setIfInBounds (k + 1) (maskSum cents (k + 1)),
    t.best.setIfInBounds (k + 1) (b + if maskSum cents (k + 1) = 0 then 1 else 0)⟩, ?_, ?_⟩
  · have hself : (t.subsetSum.setIfInBounds (k + 1) (maskSum cents (k + 1))).getD (k + 1) 0 =
        maskSum cents (k + 1) := by
      rw [getD_setIfInBounds, if_pos ⟨rfl, by rw [h.sizeSum]; exact hk⟩]
    simp only [fillMask, hsum, hb, hself]
    rfl
  refine ⟨by rw [Array.size_setIfInBounds, h.sizeSum],
    by rw [Array.size_setIfInBounds, h.sizeBest], fun mask hmask => ?_⟩
  rw [EntryOk, bestWithout_set hmask, getD_setIfInBounds, getD_setIfInBounds, h.sizeSum,
    h.sizeBest]
  by_cases heq : mask = k + 1
  · subst heq
    rw [if_pos ⟨rfl, hk⟩, if_pos ⟨rfl, hk⟩]
    exact ⟨rfl, fun _ => ⟨b, hb, rfl⟩⟩
  · rw [if_neg (fun hc => heq hc.1.symm), if_neg (fun hc => heq hc.1.symm)]
    exact h.entries mask (by omega)

theorem fillTables_ok (cents : List Int) :
    ∃ t, fillTables cents.length cents = .ok t ∧ FilledTo cents t (2 ^ cents.length - 1) := by
  have hpos : 0 < 2 ^ cents.length := Nat.two_pow_pos _
  have hloop : ∀ k, k < 2 ^ cents.length → ∃ t, (List.range' 1 k).foldlM
      (fillMask cents.length cents)
      ⟨Array.replicate (2 ^ cents.length) 0, Array.replicate (2 ^ cents.length) 0⟩ = .ok t ∧
      FilledTo cents t k := by
    intro k hk
    induction k with
    | zero =>
      refine ⟨_, rfl, by simp, by simp, fun mask hmask => ?_⟩
      have h0 : mask = 0 := by omega
      subst h0
      exact ⟨by simp [maskSum_zero, Array.getD], fun hne => absurd rfl hne⟩
    | succ k ih =>
      obtain ⟨t, ht, hfilled⟩ := ih (by omega)
      obtain ⟨t', ht', hfilled'⟩ := fillMask_ok hfilled hk
      refine ⟨t', ?_, hfilled'⟩
      rw [range'_1_concat, foldlM_append, ht, Nat.add_comm 1 k]
      simp only [foldlM_cons, foldlM_nil]
      show (fillMask cents.length cents t (k + 1) >>= pure) = .ok t'
      rw [ht']
      rfl
  obtain ⟨t, ht, hfilled⟩ := hloop (2 ^ cents.length - 1) (by omega)
  refine ⟨t, ?_, hfilled⟩
  rw [fillTables, Nat.one_shiftLeft, Nat.sub_add_cancel hpos]
  exact ht

/-! ## The walk back -/

/-- The order takes the people out of the set one by one until nobody is left. -/
def Clears (n : Nat) : Nat → List Nat → Prop
  | mask, [] => mask = 0
  | mask, i :: order => i < n ∧ mask.testBit i ∧ Clears n (mask ^^^ (1 <<< i)) order

theorem walkBack_ok {t : Tables} (h : FilledTo cents t (2 ^ cents.length - 1)) (fuel mask : Nat)
    (hmask : mask < 2 ^ cents.length) (hfuel : (bits cents.length mask).length ≤ fuel) :
    ∃ order, walkBack cents.length t fuel mask = .ok order ∧ Clears cents.length mask order := by
  induction fuel generalizing mask with
  | zero =>
    have h0 : mask = 0 := by
      by_contra hne
      exact bits_ne_nil hmask hne (eq_nil_of_length_eq_zero (by omega))
    subst h0
    exact ⟨[], rfl, rfl⟩
  | succ fuel ih =>
    by_cases h0 : mask = 0
    · subst h0
      exact ⟨[], rfl, rfl⟩
    obtain ⟨hsum, hbest⟩ := h.entries mask (by omega)
    obtain ⟨b, hb, hval⟩ := hbest h0
    have htarget : (t.best.getD mask 0 : Int) - (if t.subsetSum.getD mask 0 = 0 then 1 else 0) =
        b := by
      rw [hval, hsum]
      split
      · push_cast
        omega
      · push_cast
        omega
    have hsome : ((List.range cents.length).find? fun i =>
        mask.testBit i && decide ((t.best.getD (mask ^^^ (1 <<< i)) 0 : Int) =
          (t.best.getD mask 0 : Int) - (if t.subsetSum.getD mask 0 = 0 then 1 else 0))).isSome := by
      obtain ⟨i, hi, hbit, hib⟩ := mem_bestWithout.mp (max?_mem hb)
      rw [find?_isSome]
      refine ⟨i, mem_range.mpr hi, ?_⟩
      rw [htarget, hib, hbit]
      simp
    obtain ⟨i, hfind⟩ := Option.isSome_iff_exists.mp hsome
    have hi : i < cents.length := mem_range.mp (mem_of_find?_eq_some hfind)
    have hbit : mask.testBit i := by
      have := find?_some hfind
      simp only [Bool.and_eq_true] at this
      exact this.1
    have hperm := bits_perm hi hbit (testBit_without mask i · hbit)
    have hlen : (bits cents.length (mask ^^^ (1 <<< i))).length ≤ fuel := by
      have := hperm.length_eq
      rw [length_cons] at this
      omega
    have hlt := without_lt hbit
    obtain ⟨order, hwalk, hclears⟩ := ih (mask ^^^ (1 <<< i)) (hlt.trans hmask) hlen
    refine ⟨i :: order, ?_, hi, hbit, hclears⟩
    simp only [walkBack, if_neg h0, hfind, hwalk]
    rfl

/-! ## The subgroups -/

/-- The balances of the people of a set. -/
def maskPostings (people : List String) (cents : List Int) (mask : Nat) : List (String × Int) :=
  (bits cents.length mask).map fun i => (people.getD i "", cents.getD i 0)

section subgroups

variable {b : BalanceSheet} {people : List String} {cents : List Int} {t : Tables}
  {fallback : Settle} {i mask : Nat}

/-- The people are distinct keys of the sheet, and `cents` are their balances. -/
structure Listed (b : BalanceSheet) (people : List String) (cents : List Int) : Prop where
  exact : b.Exact
  nodup : people.Nodup
  cents : cents = people.map b.cents
  nonzero : ∀ u ∈ people, b.cents u ≠ 0

theorem Listed.length (h : Listed b people cents) : cents.length = people.length := by
  rw [h.cents, length_map]

theorem Listed.getD (h : Listed b people cents) (hi : i < cents.length) :
    people.getD i "" ∈ people ∧ cents.getD i 0 = b.cents (people.getD i "") := by
  have hi' : i < people.length := h.length ▸ hi
  rw [getD_eq_getElem _ _ hi', getD_eq_getElem _ _ hi]
  refine ⟨getElem_mem hi', ?_⟩
  simp only [h.cents, getElem_map]

theorem Listed.getD_inj (h : Listed b people cents) {j : Nat} (hi : i < cents.length)
    (hj : j < cents.length) (heq : people.getD i "" = people.getD j "") : i = j := by
  have hi' : i < people.length := h.length ▸ hi
  have hj' : j < people.length := h.length ▸ hj
  rw [getD_eq_getElem _ _ hi', getD_eq_getElem _ _ hj'] at heq
  exact (h.nodup.getElem_inj_iff).mp heq

/-- A subgroup in the making: none of those still in the set, and together with them sum to zero. -/
structure Collected (people : List String) (cents : List Int) (mask : Nat)
    (subgroup : Dict String Decimal) : Prop where
  exact : (⟨subgroup⟩ : BalanceSheet).Exact
  apart : ∀ i ∈ bits cents.length mask, subgroup.get? (people.getD i "") = none
  sum : (⟨subgroup⟩ : BalanceSheet).total + maskSum cents mask = 0

theorem effect_maskPostings {u : String} (h : ∀ i ∈ bits cents.length mask, people.getD i "" ≠ u) :
    effect (maskPostings people cents mask) u = 0 := by
  apply effect_of_not_mem
  rw [maskPostings, List.map_map, List.mem_map]
  rintro ⟨i, hi, heq⟩
  exact h i hi heq

theorem Collected.take (hl : Listed b people cents) {subgroup : Dict String Decimal}
    (hi : i < cents.length) (hbit : mask.testBit i) (h : Collected people cents mask subgroup) :
    Collected people cents (mask ^^^ (1 <<< i))
        (subgroup.set (people.getD i "") ((b.net.get? (people.getD i "")).getD (money 0))) ∧
      ∀ u, (⟨subgroup.set (people.getD i "") ((b.net.get? (people.getD i "")).getD (money 0))⟩ :
          BalanceSheet).cents u + effect (maskPostings people cents (mask ^^^ (1 <<< i))) u =
        (⟨subgroup⟩ : BalanceSheet).cents u + effect (maskPostings people cents mask) u := by
  obtain ⟨hmem, hci⟩ := hl.getD hi
  have hrest := fun j => testBit_without mask i j hbit
  have hfresh := h.apart i (mem_bits.mpr ⟨hi, hbit⟩)
  have hvalue : (b.net.get? (people.getD i "")).getD (money 0) = money (cents.getD i 0) := by
    rw [hci]
    exact hl.exact.balanceOf _
  have hin : InRange (cents.getD i 0) := hci ▸ hl.exact.inRange _
  have hne : cents.getD i 0 ≠ 0 := hci ▸ hl.nonzero _ hmem
  rw [hvalue]
  refine ⟨⟨fun u v hu => ?_, fun j hj => ?_, ?_⟩, fun u => ?_⟩
  · simp only [get?_set] at hu
    split at hu
    · cases hu
      exact ⟨rfl, hin, hne⟩
    · exact h.exact u v hu
  · obtain ⟨hj', hjbit⟩ := mem_bits.mp hj
    rw [hrest j, Bool.and_eq_true, decide_eq_true_eq] at hjbit
    rw [get?_set_of_ne _ _ fun heq => hjbit.2 (hl.getD_inj hj' hi heq)]
    exact h.apart j (mem_bits.mpr ⟨hj', hjbit.1⟩)
  · have htotal := total_eq_erase ⟨subgroup⟩ (people.getD i "")
    rw [cents_of_none hfresh] at htotal
    have hsum := h.sum
    rw [maskSum_split hi hbit hrest] at hsum
    rw [BalanceSheet.total_set, money_coeff]
    dsimp only at htotal
    omega
  · have hperm : (maskPostings people cents mask).Perm
        ((people.getD i "", cents.getD i 0) :: maskPostings people cents (mask ^^^ (1 <<< i))) :=
      (bits_perm hi hbit hrest).map _
    rw [effect_perm hperm, effect_cons, BalanceSheet.cents, BalanceSheet.balanceOf, get?_set]
    by_cases hu : u = people.getD i ""
    · have hold : (⟨subgroup⟩ : BalanceSheet).cents u = 0 :=
        cents_of_none (hu ▸ hfresh)
      rw [if_pos hu, if_pos hu.symm, hold]
      simp
    · rw [if_neg hu, if_neg (Ne.symm hu), zero_add]
      rfl

theorem Collected.empty (hsum : maskSum cents mask = 0) :
    Collected people cents mask Dict.empty where
  exact := new_exact
  apart := fun _ _ => rfl
  sum := by
    rw [hsum]
    rfl

theorem settleSubgroups_ok (hl : Listed b people cents)
    (ht : FilledTo cents t (2 ^ cents.length - 1))
    (hfallback : SettlesExact fallback) (order : List Nat) :
    ∀ mask subgroup, mask < 2 ^ cents.length → Clears cents.length mask order →
      Collected people cents mask subgroup →
      (order = [] → ∀ u, (⟨subgroup⟩ : BalanceSheet).cents u = 0) →
      ∃ ts, settleSubgroups fallback people b.net t order mask subgroup = .ok (ts.map transferOf) ∧
        Settles (fun u => (⟨subgroup⟩ : BalanceSheet).cents u +
          effect (maskPostings people cents mask) u) ts := by
  induction order with
  | nil =>
    intro mask subgroup _ hclears _ hempty
    refine ⟨[], rfl, .even fun u => ?_⟩
    have h0 : mask = 0 := hclears
    rw [hempty rfl u, h0, maskPostings, bits_zero]
    rfl
  | cons i _ ih =>
    intro mask subgroup hmask hclears hcol _
    obtain ⟨hi, hbit, hclears'⟩ := hclears
    obtain ⟨hcol', hcents⟩ := hcol.take hl hi hbit
    have hlt := without_lt hbit
    have hmask' := hlt.trans hmask
    have hsumtab := (ht.entries (mask ^^^ (1 <<< i)) (by omega)).1
    rw [← funext hcents]
    simp only [settleSubgroups]
    by_cases hcut : mask ^^^ (1 <<< i) = 0 ∨ t.subsetSum.getD (mask ^^^ (1 <<< i)) 0 = 0
    · -- the rest sums to zero, so the subgroup does
      have hrestsum : maskSum cents (mask ^^^ (1 <<< i)) = 0 := by
        rcases hcut with h0 | h0
        · rw [h0, maskSum_zero]
        · rw [← hsumtab, h0]
      have htotal := hcol'.sum
      rw [hrestsum, add_zero] at htotal
      obtain ⟨ts, hfirst, hsettles⟩ := hfallback _ hcol'.exact htotal
      obtain ⟨ts', hrest, hsettles'⟩ := ih (mask ^^^ (1 <<< i)) Dict.empty hmask' hclears'
        (.empty hrestsum) (fun _ u => rfl)
      refine ⟨ts ++ ts', ?_, ?_⟩
      · dsimp only at hfirst
        rw [if_pos hcut, hfirst, hrest, map_append]
        rfl
      have hzero : (fun u => (⟨Dict.empty⟩ : BalanceSheet).cents u +
          effect (maskPostings people cents (mask ^^^ (1 <<< i))) u) =
          effect (maskPostings people cents (mask ^^^ (1 <<< i))) := by
        funext u
        exact zero_add _
      rw [hzero] at hsettles'
      refine hsettles.add hsettles' fun u => ?_
      by_cases hu : ∃ j ∈ bits cents.length (mask ^^^ (1 <<< i)), people.getD j "" = u
      · obtain ⟨j, hj, rfl⟩ := hu
        exact Or.inl (cents_of_none (hcol'.apart j hj))
      · push Not at hu
        exact Or.inr (effect_maskPostings hu)
    · rw [if_neg hcut]
      refine ih _ _ hmask' hclears' hcol' fun hnil => ?_
      subst hnil
      exact absurd (Or.inl hclears') hcut

end subgroups

/-! ## The strategies -/

theorem maskPostings_full {b : BalanceSheet} {people : List String} (hl : Listed b people cents) :
    maskPostings people cents (1 <<< cents.length - 1) = people.map fun u => (u, b.cents u) := by
  rw [maskPostings, bits_full]
  refine ext_getElem (by simp [hl.length]) fun i hi _ => ?_
  have hi' : i < cents.length := by simpa using hi
  obtain ⟨-, hci⟩ := hl.getD hi'
  simp only [getElem_map, getElem_range]
  rw [hci, getD_eq_getElem _ _ (hl.length ▸ hi')]

theorem optimalSettle_settles {maxPeople : Int} {fallback : Settle}
    (hfallback : SettlesExact fallback) : SettlesExact (optimalSettle maxPeople fallback) := by
  intro b hb htotal
  have hfilter : b.net.items.filter (fun x => x.2.toRat ≠ 0) = b.net.items := by
    rw [filter_eq_self]
    intro x hx
    have hne := (hb x.1 x.2 (mem_items_iff.mp hx)).2.2
    simpa [toRat_eq_zero_iff] using hne
  obtain ⟨people, hpeople⟩ : ∃ people, people =
      ((b.net.items.filter fun x => x.2.toRat ≠ 0).map Prod.fst).insertionSort (· ≤ ·) := ⟨_, rfl⟩
  have hperm : people.Perm b.net.keys := by
    rw [hpeople, hfilter]
    exact perm_insertionSort _ _
  have hbalance : ∀ u, (b.net.get? u).getD (money 0) = money (b.cents u) := hb.balanceOf
  have hcents : people.map (fun uid => toCents ((b.net.get? uid).getD (money 0))) =
      people.map b.cents :=
    map_congr_left fun u _ => by rw [hbalance u, toCents_money (hb.inRange u)]
  have hlisted : Listed b people (people.map b.cents) := by
    refine ⟨hb, hperm.nodup_iff.mpr b.net.keys_nodup, rfl, fun u hu => ?_⟩
    obtain ⟨v, hv⟩ := Dict.mem_keys.mp (hperm.mem_iff.mp hu)
    rw [cents_of_get? hv]
    exact (hb u v hv).2.2
  have hsum : (people.map b.cents).sum = 0 := by
    rw [(hperm.map b.cents).sum_eq, ← htotal, BalanceSheet.total, Dict.values, Dict.keys,
      List.map_map, List.map_map]
    congr 1
    exact map_congr_left fun x hx => cents_of_get? (mem_items_iff.mp hx)
  have hlen : (people.map b.cents).length = people.length := length_map _
  by_cases hmax : (people.length : Int) > maxPeople
  · obtain ⟨ts, hok, hsettles⟩ := hfallback b hb htotal
    refine ⟨ts, ?_, hsettles⟩
    rw [← hok]
    simp only [optimalSettle, ← hpeople, if_pos hmax]
  obtain ⟨t, htables, hfilled⟩ := fillTables_ok (people.map b.cents)
  have hfull : 1 <<< (people.map b.cents).length - 1 < 2 ^ (people.map b.cents).length := by
    rw [Nat.one_shiftLeft]
    have := Nat.two_pow_pos (people.map b.cents).length
    omega
  obtain ⟨order, hwalk, hclears⟩ := walkBack_ok hfilled (people.map b.cents).length _ hfull
    (by rw [bits_full, length_range])
  have hmasksum : maskSum (people.map b.cents) (1 <<< (people.map b.cents).length - 1) = 0 := by
    have hsnd : ∀ mask, maskSum (people.map b.cents) mask =
        ((maskPostings people (people.map b.cents) mask).map Prod.snd).sum := fun mask => by
      rw [maskPostings, List.map_map]
      rfl
    rw [hsnd, maskPostings_full hlisted, List.map_map, ← hsum]
    rfl
  obtain ⟨ts, hok, hsettles⟩ := settleSubgroups_ok hlisted hfilled hfallback order _ Dict.empty
    hfull hclears (.empty hmasksum) (fun _ u => rfl)
  refine ⟨ts, ?_, ?_⟩
  · rw [hlen] at htables hwalk hok
    simp only [optimalSettle, ← hpeople, if_neg hmax, hcents, hsum, htables, hwalk, bind,
      Except.bind]
    exact hok
  have heq : (fun u => (⟨Dict.empty⟩ : BalanceSheet).cents u + effect (maskPostings people
      (people.map b.cents) (1 <<< (people.map b.cents).length - 1)) u) = b.cents := by
    funext u
    rw [maskPostings_full hlisted]
    show 0 + _ = _
    rw [zero_add]
    cases hu : b.net.get? u with
    | none =>
      rw [cents_of_none hu]
      apply effect_of_not_mem
      rw [List.map_map]
      show u ∉ people.map fun u => u
      rw [List.map_id', hperm.mem_iff]
      exact get?_eq_none.mp hu
    | some v =>
      have hmem : u ∈ people := hperm.mem_iff.mpr (Dict.mem_keys.mpr ⟨v, hu⟩)
      refine effect_of_mem ?_ (p := (u, b.cents u)) (List.mem_map.mpr ⟨u, hmem, rfl⟩)
      rw [List.map_map]
      show (people.map fun u => u).Nodup
      rw [List.map_id']
      exact hlisted.nodup
  rw [← heq]
  exact hsettles

theorem SettlementStrategy.settles (strategy : SettlementStrategy) :
    SettlesExact strategy.settle := by
  induction strategy with
  | greedy => exact greedySettle_settles
  | optimal _ _ ih => exact optimalSettle_settles ih

end InterviewPrep.Splitwise
