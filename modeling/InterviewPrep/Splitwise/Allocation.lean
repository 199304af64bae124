/-
  Who gets the cents that the largest-remainder method hands out: positions with
  a positive remainder only (`fract_pos_of_taken`), the larger remainders first
  (`taken_of_fract_lt`).  So every share is within a cent of its exact amount and
  a larger weight never gets less (`allocate_largestRemainder`).
-/
import InterviewPrep.Splitwise.Shares

namespace InterviewPrep.Splitwise

open Lib List Option

variable {total : Int} {ws : List ℚ} {i j : Nat}

/-- The positions that get a cent. -/
def taken (total : Int) (ws : List ℚ) : List Nat :=
  (byRemainder (exactShares total ws)).take (leftover total ws).toNat

/-- The fractional remainder at a position. -/
def remainderAt (total : Int) (ws : List ℚ) (i : Nat) : ℚ :=
  Int.fract ((exactShares total ws).getD i 0)

theorem sum_fract (xs : List ℚ) :
    ((List.range xs.length).map fun i => Int.fract (xs.getD i 0)).sum
      = xs.sum - ((xs.map Int.floor).sum : Int) := by
  have hrange : (List.range xs.length).map (fun i => Int.fract (xs.getD i 0)) =
      xs.map Int.fract := by
    refine ext_getElem (by simp) fun i h1 h2 => ?_
    have hi : i < xs.length := by simpa using h2
    simp [List.getD, hi]
  rw [hrange]
  clear hrange
  induction xs with
  | nil => simp
  | cons x _ ih =>
    have hx := Int.floor_add_fract x
    rw [map_cons, sum_cons, ih, map_cons, sum_cons, sum_cons, Int.cast_add]
    linarith

theorem byRemainder_sorted (total : Int) (ws : List ℚ) :
    (byRemainder (exactShares total ws)).Pairwise fun i j =>
      remainderAt total ws j ≤ remainderAt total ws i := by
  have hsorted := pairwise_insertionSort
    (fun i j : Nat => toLex (-Int.fract ((exactShares total ws).getD i 0), i) ≤
      toLex (-Int.fract ((exactShares total ws).getD j 0), j))
        (List.range (exactShares total ws).length)
  refine hsorted.imp fun h => ?_
  have hle := Prod.Lex.monotone_fst _ _ h
  exact neg_le_neg_iff.mp hle

theorem fract_pos_of_taken (h : ws.sum ≠ 0) (hi : i ∈ taken total ws) :
    0 < remainderAt total ws i := by
  by_contra hzero
  obtain ⟨as, bs, hsplit⟩ := append_of_mem hi
  have hlen : as.length < (leftover total ws).toNat := by
    have hle := (take_sublist (leftover total ws).toNat
      (byRemainder (exactShares total ws))).length_le
    have := length_take_le (leftover total ws).toNat (byRemainder (exactShares total ws))
    have hcount : (taken total ws).length = as.length + (bs.length + 1) := by
      rw [hsplit, length_append, length_cons]
    rw [taken] at hcount
    omega
  have hall : byRemainder (exactShares total ws) = as ++ (i :: bs ++
      (byRemainder (exactShares total ws)).drop (leftover total ws).toNat) := by
    rw [← append_assoc, ← hsplit, taken, take_append_drop]
  have hsum : ((byRemainder (exactShares total ws)).map (remainderAt total ws)).sum
      = leftover total ws := by
    rw [((byRemainder_perm (exactShares total ws)).map _).sum_eq]
    have := sum_fract (exactShares total ws)
    rw [sum_exactShares h] at this
    rw [leftover, Int.cast_sub]
    exact this
  have hsorted := byRemainder_sorted total ws
  generalize (byRemainder (exactShares total ws)).drop (leftover total ws).toNat = rest at hall
  rw [hall] at hsum hsorted
  have htail : ∀ x ∈ i :: bs ++ rest, remainderAt total ws x ≤ 0 := fun x hx => by
    rw [cons_append] at hx
    rcases mem_cons.mp hx with rfl | hx
    · exact not_lt.mp hzero
    · exact ((pairwise_cons.mp (pairwise_append.mp hsorted).2.1).1 x hx).trans
        (not_lt.mp hzero)
  have hbound : ∀ (xs : List Nat) (b : ℚ), (∀ x ∈ xs, remainderAt total ws x ≤ b) →
      (xs.map (remainderAt total ws)).sum ≤ xs.length * b := fun xs b hxs => by
    have := sum_le_card_nsmul (xs.map (remainderAt total ws)) b fun x hx => by
      obtain ⟨y, hy, rfl⟩ := List.mem_map.mp hx
      exact hxs y hy
    simpa using this
  have hhead := hbound as 1 fun x _ => (Int.fract_lt_one _).le
  have hrest := hbound _ 0 htail
  rw [map_append, sum_append] at hsum
  have hcast : (as.length : ℚ) < (leftover total ws : ℚ) := by
    have : (as.length : Int) < leftover total ws := by omega
    exact_mod_cast this
  linarith

theorem taken_of_fract_lt (hi : i < ws.length) (hj : j ∈ taken total ws)
    (hlt : remainderAt total ws j < remainderAt total ws i) : i ∈ taken total ws := by
  by_contra hnot
  have hmem : i ∈ byRemainder (exactShares total ws) := by
    rw [(byRemainder_perm _).mem_iff, exactShares_length]
    exact mem_range.mpr hi
  have hsorted := byRemainder_sorted total ws
  rw [← take_append_drop (leftover total ws).toNat (byRemainder (exactShares total ws))]
    at hmem hsorted
  have hdrop := (mem_append.mp hmem).resolve_left hnot
  exact absurd hlt (not_lt.mpr ((pairwise_append.mp hsorted).2.2 j hj i hdrop))

theorem getElem?_addCents {positions : List Nat} (hnodup : positions.Nodup) (floors : List Int) :
    (addCents positions floors)[i]? = floors[i]?.map (· + if i ∈ positions then 1 else 0) := by
  induction positions generalizing floors with
  | nil => simp [addCents]
  | cons p _ ih =>
    obtain ⟨hp, hrest⟩ := nodup_cons.mp hnodup
    rw [addCents, foldl_cons, ← addCents, ih hrest, getElem?_modify]
    by_cases hpi : p = i
    · subst hpi
      cases floors[p]? <;> simp [hp]
    · cases floors[i]? <;> simp [hpi, Ne.symm hpi]

theorem getElem?_apportion (total : Int) {w : ℚ} (hw : ws[i]? = some w) :
    (apportion total ws)[i]? = some (⌊total * w / ws.sum⌋ + if i ∈ taken total ws then 1 else 0) ∧
      remainderAt total ws i = Int.fract (total * w / ws.sum) := by
  have hexact : (exactShares total ws)[i]? = some (total * w / ws.sum) := by
    rw [exactShares, getElem?_map, hw, map_some]
  have hnodup : (taken total ws).Nodup :=
    ((byRemainder_perm _).nodup_iff.mpr nodup_range).sublist (take_sublist _ _)
  constructor
  · rw [apportion_eq, ← taken, getElem?_addCents hnodup, getElem?_map, hexact]
    rfl
  · rw [remainderAt, List.getD, hexact, getD_some]

variable {weights : List Decimal}

theorem allocate_eq (total : Int) (hws : ∀ w ∈ weights, 0 ≤ w.toRat)
    (hsum : (weights.map Decimal.toRat).sum ≠ 0) :
    allocate total (weights.map .finite) = .ok (apportion total (weights.map Decimal.toRat)) := by
  have hne : weights.map Number.finite ≠ [] := by
    intro hnil
    rw [map_eq_nil_iff.mp hnil] at hsum
    exact hsum rfl
  have hneg : anyNegative (weights.map .finite) = .ok false := by
    clear hsum hne
    induction weights with
    | nil => rfl
    | cons w _ ih =>
      have hw := not_lt.mpr (hws w (mem_cons_self ..))
      rw [map_cons, anyNegative, Number.isNegative, decide_eq_false hw]
      exact ih fun x hx => hws x (mem_cons_of_mem _ hx)
  have hfractions : (weights.map Number.finite).mapM fraction =
      .ok (weights.map Decimal.toRat) := by
    rw [mapM_eq_ok, forall₂_map_left_iff, forall₂_map_right_iff, forall₂_same]
    exact fun _ _ => rfl
  unfold allocate
  rw [if_neg hne, hneg]
  simp only [bind, Except.bind, pure, Except.pure, Bool.false_eq_true, if_false,
    hfractions, if_neg hsum]

/-- The largest-remainder method: the shares are non-negative and sum to the total, each is strictly
    within one cent of its exact amount, a weight of zero gets nothing, and a larger weight never
    less. -/
theorem allocate_largestRemainder (ht : 0 ≤ total)
    (hws : ∀ w ∈ weights, 0 ≤ w.toRat) (hsum : 0 < (weights.map Decimal.toRat).sum) :
    ∃ cs, allocate total (weights.map .finite) = .ok cs ∧
      cs.length = weights.length ∧ (∀ c ∈ cs, 0 ≤ c) ∧ cs.sum = total ∧
      (∀ (i : Nat) w c, weights[i]? = some w → cs[i]? = some c →
        |(c : ℚ) - total * w.toRat / (weights.map Decimal.toRat).sum| < 1 ∧ (w.toRat = 0 → c = 0)) ∧
      (∀ (i j : Nat) w w' c c', weights[i]? = some w → weights[j]? = some w' →
        cs[i]? = some c → cs[j]? = some c' → w.toRat < w'.toRat → c ≤ c') ∧
      total - (weights.map fun w =>
        ⌊total * w.toRat / (weights.map Decimal.toRat).sum⌋).sum < weights.length := by
  have halloc := allocate_eq total hws hsum.ne'
  have hat : ∀ {i : Nat} {w : Decimal}, weights[i]? = some w →
      (weights.map Decimal.toRat)[i]? = some w.toRat := fun {i w} hw => by
    rw [getElem?_map, hw, map_some]
  have hnonneg : ∀ q ∈ weights.map Decimal.toRat, 0 ≤ q := fun q hq => by
    obtain ⟨w, hw, rfl⟩ := List.mem_map.mp hq
    exact hws w hw
  have hlt : leftover total _ < _ := leftover_lt hsum.ne'
  have hfloors : (exactShares total (weights.map Decimal.toRat)).map Int.floor =
      weights.map fun w =>
      ⌊total * w.toRat / (weights.map Decimal.toRat).sum⌋ := by
    rw [exactShares, List.map_map, List.map_map]
    rfl
  rw [leftover, hfloors, length_map] at hlt
  have hlength := apportion_length total (weights.map Decimal.toRat)
  rw [length_map] at hlength
  have hcents := apportion_nonneg ht hnonneg
  have htotal : (apportion total _).sum = total := apportion_sum hsum.ne'
  generalize hqs : weights.map Decimal.toRat = ws at hat hsum halloc hlength hcents htotal hlt ⊢
  refine ⟨_, halloc, hlength, hcents, htotal, fun i w c hw hc => ?_,
    fun i j w w' c c' hw hw' hc hc' hlt => ?_, hlt⟩
  · obtain ⟨hshare, hrem⟩ := getElem?_apportion total (hat hw)
    obtain rfl := some.inj (hshare.symm.trans hc)
    have hx := Int.floor_add_fract (total * w.toRat / ws.sum)
    have h0 := Int.fract_nonneg (total * w.toRat / ws.sum)
    have h1 := Int.fract_lt_one (total * w.toRat / ws.sum)
    by_cases htaken : i ∈ taken total ws
    · have hpos := fract_pos_of_taken hsum.ne' htaken
      rw [hrem] at hpos
      rw [if_pos htaken]
      push_cast
      refine ⟨abs_lt.mpr ⟨by linarith, by linarith⟩, fun hzero => ?_⟩
      rw [hzero, mul_zero, zero_div, Int.fract_zero] at hpos
      exact absurd hpos (lt_irrefl 0)
    · rw [if_neg htaken, add_zero]
      refine ⟨abs_lt.mpr ⟨by linarith, by linarith⟩, fun hzero => ?_⟩
      rw [hzero, mul_zero, zero_div, Int.floor_zero]
  obtain ⟨hshare, hrem⟩ := getElem?_apportion total (hat hw)
  obtain ⟨hshare', hrem'⟩ := getElem?_apportion total (hat hw')
  obtain rfl := some.inj (hshare.symm.trans hc)
  obtain rfl := some.inj (hshare'.symm.trans hc')
  have hle : total * w.toRat / ws.sum ≤ total * w'.toRat / ws.sum := by
    have : (0 : ℚ) ≤ total := by exact_mod_cast ht
    gcongr
  have hfloor := Int.floor_le_floor hle
  by_cases htaken : i ∈ taken total ws
  · rcases hfloor.lt_or_eq with hfl | hfl
    · split <;> split <;> omega
    -- with equal floors the larger weight has the larger remainder
    have hpos := fract_pos_of_taken hsum.ne' htaken
    have hstrict : remainderAt total ws i < remainderAt total ws j := by
      have hne : total * w.toRat / ws.sum ≠ total * w'.toRat / ws.sum := fun heq => by
        have ht0 : (total : ℚ) ≠ 0 := fun h0 => by
          rw [hrem, h0, zero_mul, zero_div, Int.fract_zero] at hpos
          exact absurd hpos (lt_irrefl 0)
        have := (div_left_inj' hsum.ne').mp heq
        exact hlt.ne (mul_left_cancel₀ ht0 this)
      have hx := Int.floor_add_fract (total * w.toRat / ws.sum)
      have hy := Int.floor_add_fract (total * w'.toRat / ws.sum)
      have := lt_of_le_of_ne hle hne
      rw [hrem, hrem']
      rw [hfl] at hx
      linarith
    have hj : j < ws.length := (List.getElem?_eq_some_iff.mp (hat hw')).1
    rw [if_pos htaken, if_pos (taken_of_fract_lt hj htaken hstrict), hfl]
  · rw [if_neg htaken]
    split <;> omega

/-- A dollar among three, one of whom owes nothing. -/
theorem allocate_largestRemainder_dollar :
    ∃ cs, allocate 100 (([⟨2, 0⟩, ⟨0, 0⟩, ⟨1, 0⟩] : List Decimal).map .finite) = .ok cs ∧
      cs.sum = 100 := by
  obtain ⟨cs, halloc, -, -, hsum, -⟩ := @allocate_largestRemainder 100
    [⟨2, 0⟩, ⟨0, 0⟩, ⟨1, 0⟩] (by decide) (by decide +kernel) (by decide +kernel)
  exact ⟨cs, halloc, hsum⟩

end InterviewPrep.Splitwise
