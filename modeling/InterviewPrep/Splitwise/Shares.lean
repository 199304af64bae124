/-
  The largest-remainder method hands out the whole total: the exact amounts sum to it, the floors
  fall short of it by fewer cents than there are weights (`leftover_nonneg`, `leftover_lt`), and
  each position taken from the remainder order adds one cent.

  What the split strategies return: one non-negative whole number of cents per participant,
  together the amount (`splitStrategy_ok`).
-/
import InterviewPrep.Lib.Except
import InterviewPrep.Splitwise.Ledger

namespace InterviewPrep.Splitwise

open Lib List

/-! ## Floors -/

theorem exactShares_length (total : Int) (ws : List ℚ) :
    (exactShares total ws).length = ws.length :=
  length_map _

variable {total a : Int} {ws : List ℚ} {ids : List String} {values : Option (List MoneyLike)}
  {cs : List Int} {shares : Dict String Decimal}

theorem sum_exactShares (h : ws.sum ≠ 0) : (exactShares total ws).sum = total := by
  have hmul : ∀ xs : List ℚ, (xs.map fun w => total * w / ws.sum).sum =
      total * xs.sum / ws.sum := by
    intro xs
    induction xs with
    | nil => simp
    | cons _ _ ih =>
      rw [map_cons, sum_cons, sum_cons, ih]
      ring
  rw [exactShares, hmul, mul_div_assoc, div_self h, mul_one]

theorem sum_floor_le (xs : List ℚ) : ((xs.map Int.floor).sum : ℚ) ≤ xs.sum := by
  induction xs with
  | nil => simp
  | cons x _ ih =>
    rw [map_cons, sum_cons, sum_cons, Int.cast_add]
    exact add_le_add (Int.floor_le x) ih

theorem sum_lt_sum_floor {xs : List ℚ} (h : xs ≠ []) :
    xs.sum < ((xs.map Int.floor).sum : ℚ) + xs.length := by
  induction xs with
  | nil => exact absurd rfl h
  | cons x xs ih =>
    have hx : x < ⌊x⌋ + 1 := Int.lt_floor_add_one x
    rw [map_cons, sum_cons, sum_cons, length_cons, Int.cast_add, Nat.cast_succ]
    by_cases hxs : xs = []
    · subst hxs
      simp
    · have := ih hxs
      linarith

/-- The cents left over after flooring. -/
def leftover (total : Int) (ws : List ℚ) : Int := total - ((exactShares total ws).map Int.floor).sum

theorem leftover_nonneg (h : ws.sum ≠ 0) : 0 ≤ leftover total ws := by
  have hle := sum_floor_le (exactShares total ws)
  rw [sum_exactShares h, Int.cast_le] at hle
  rw [leftover]
  omega

theorem leftover_lt (h : ws.sum ≠ 0) : leftover total ws < ws.length := by
  have hne : exactShares total ws ≠ [] := by
    intro hnil
    rw [exactShares, map_eq_nil_iff] at hnil
    exact h (by rw [hnil, sum_nil])
  have hlt := sum_lt_sum_floor hne
  rw [sum_exactShares h, exactShares_length] at hlt
  have hlt' : total < ((exactShares total ws).map Int.floor).sum +
      ws.length := by exact_mod_cast hlt
  rw [leftover]
  omega

/-! ## One cent per position -/

theorem byRemainder_perm (exact : List ℚ) : (byRemainder exact).Perm (List.range exact.length) :=
  perm_insertionSort _ _

/-- Give one cent to each of the positions. -/
def addCents (positions : List Nat) (floors : List Int) : List Int :=
  positions.foldl (fun floors i => floors.modify i (· + 1)) floors

theorem sum_modify_add_one {xs : List Int} {i : Nat} (h : i < xs.length) :
    (xs.modify i (· + 1)).sum = xs.sum + 1 := by
  induction xs generalizing i with
  | nil => exact absurd h (Nat.not_lt_zero i)
  | cons _ _ ih =>
    cases i with
    | zero =>
      rw [modify_zero_cons, sum_cons, sum_cons]
      omega
    | succ =>
      rw [modify_succ_cons, sum_cons, sum_cons, ih (Nat.lt_of_succ_lt_succ h)]
      omega

theorem addCents_length (positions : List Nat) (floors : List Int) :
    (addCents positions floors).length = floors.length := by
  induction positions generalizing floors with
  | nil => rfl
  | cons _ _ ih => rw [addCents, foldl_cons, ← addCents, ih, length_modify]

variable {positions : List Nat}

theorem sum_addCents {floors : List Int} (h : ∀ i ∈ positions, i < floors.length) :
    (addCents positions floors).sum = floors.sum + positions.length := by
  induction positions generalizing floors with
  | nil => simp [addCents]
  | cons i positions ih =>
    have hi := h i (mem_cons_self ..)
    have hrest : ∀ j ∈ positions, j < (floors.modify i (· + 1)).length := fun j hj => by
      rw [length_modify]
      exact h j (mem_cons_of_mem _ hj)
    rw [addCents, foldl_cons, ← addCents, ih hrest, sum_modify_add_one hi, length_cons]
    push_cast
    omega

theorem addCents_nonneg {floors : List Int} (h : ∀ c ∈ floors, 0 ≤ c) :
    ∀ c ∈ addCents positions floors, 0 ≤ c := by
  induction positions generalizing floors with
  | nil => exact h
  | cons _ _ ih =>
    rw [addCents, foldl_cons, ← addCents]
    refine ih fun c hc => ?_
    rw [mem_iff_getElem?] at hc
    obtain ⟨j, hj⟩ := hc
    rw [getElem?_modify] at hj
    obtain ⟨x, hx, rfl⟩ := Option.map_eq_some_iff.mp hj
    have hx0 := h x (mem_of_getElem? hx)
    split <;> omega

/-! ## The method -/

theorem apportion_eq (total : Int) (ws : List ℚ) : apportion total ws =
      addCents ((byRemainder (exactShares total ws)).take (leftover total ws).toNat)
        ((exactShares total ws).map Int.floor) := rfl

theorem apportion_length (total : Int) (ws : List ℚ) : (apportion total ws).length = ws.length := by
  rw [apportion_eq, addCents_length, length_map, exactShares_length]

theorem apportion_nonneg (ht : 0 ≤ total) (hws : ∀ w ∈ ws, 0 ≤ w) :
    ∀ c ∈ apportion total ws, 0 ≤ c := by
  rw [apportion_eq]
  refine addCents_nonneg fun c hc => ?_
  rw [exactShares, List.map_map] at hc
  obtain ⟨w, hw, rfl⟩ := List.mem_map.mp hc
  have hw0 := hws w hw
  have hsum : 0 ≤ ws.sum := sum_nonneg hws
  have ht' : (0 : ℚ) ≤ total := Int.cast_nonneg ht
  exact Int.floor_nonneg.mpr (by positivity)

theorem apportion_sum (h : ws.sum ≠ 0) : (apportion total ws).sum = total := by
  have h0 : 0 ≤ leftover total ws := leftover_nonneg h
  have hlt : leftover total ws < ws.length := leftover_lt h
  have hperm := byRemainder_perm (exactShares total ws)
  have hmem : ∀ i ∈ (byRemainder (exactShares total ws)).take (leftover total ws).toNat,
      i < ((exactShares total ws).map Int.floor).length := fun i hi => by
    rw [length_map]
    exact mem_range.mp (hperm.mem_iff.mp (mem_of_mem_take hi))
  rw [apportion_eq, sum_addCents hmem, length_take, hperm.length_eq, length_range,
    exactShares_length, min_eq_left (by omega), leftover]
  rw [leftover] at h0
  omega

/-! ## Values given per participant -/

theorem anyNegative_false {ws : List Number} (h : anyNegative ws = .ok false) :
    ∀ w ∈ ws, w.isNegative = some false := by
  induction ws with
  | nil => exact nofun
  | cons x _ ih =>
    simp only [anyNegative, bind_eq_ok] at h
    obtain ⟨b, hb, h⟩ := h
    cases hx : x.isNegative with
    | none => rw [hx] at hb; cases hb
    | some =>
      rw [hx] at hb
      cases hb
      cases b with
      | true => cases h
      | false =>
        intro w hw
        rcases mem_cons.mp hw with rfl | hw
        · exact hx
        · exact ih h w hw

theorem requireValues_ok {ws : List Number} (h : requireValues ids values = .ok ws) :
    ws.length = ids.length ∧ ∀ w ∈ ws, w.isNegative = some false := by
  unfold requireValues at h
  cases values with
  | none => cases h
  | some values =>
  simp only [guard_eq_ok] at h
  obtain ⟨hlen, h⟩ := h
  cases hnum : values.mapM MoneyLike.numeral? with
  | none => rw [hnum] at h; cases h
  | some =>
    rw [hnum] at h
    simp only [bind_eq_ok, guard_eq_ok, pure_eq_ok] at h
    obtain ⟨parsed, hparsed, neg, hneg, hnot, rfl⟩ := h
    rw [Bool.not_eq_true] at hnot
    subst hnot
    refine ⟨?_, anyNegative_false hneg⟩
    have hp := (mapM_eq_ok.mp hparsed).length_eq
    have hv := length_mapM_option hnum
    rw [← hp, hv, not_not.mp hlen]

theorem fraction_nonneg {w : Number} {q : ℚ} (hneg : w.isNegative = some false)
    (h : fraction w = .ok q) : 0 ≤ q := by
  cases w with
  | infinity | nan => cases h
  | finite =>
    cases h
    simpa [Number.isNegative] using hneg

/-! ## Shares -/

/-- Non-negative shares of `a` cents for the participants `ids`. -/
structure IsSplit (ids : List String) (a : Int) (shares : Dict String Decimal) (cs : List Int) :
    Prop where
  length : cs.length = ids.length
  nonneg : ∀ c ∈ cs, 0 ≤ c
  sum : cs.sum = a
  eq : shares = Dict.ofList (ids.zip (cs.map money))

theorem allocate_ok {ws : List Number} (ht : 0 ≤ total) (h : allocate total ws = .ok cs) :
    cs.length = ws.length ∧ (∀ c ∈ cs, 0 ≤ c) ∧ cs.sum = total := by
  unfold allocate at h
  simp only [guard_eq_ok, bind_eq_ok, pure_eq_ok] at h
  obtain ⟨-, neg, hneg, hnot, fs, hfs, hsum, rfl⟩ := h
  rw [Bool.not_eq_true] at hnot
  subst hnot
  have hall := mapM_eq_ok.mp hfs
  have hpos : ∀ q ∈ fs, 0 ≤ q := by
    intro q hq
    obtain ⟨i, hi⟩ := mem_iff_getElem?.mp hq
    obtain ⟨hlt, rfl⟩ := List.getElem?_eq_some_iff.mp hi
    have hi' : i < ws.length := hall.length_eq ▸ hlt
    exact fraction_nonneg (anyNegative_false hneg _ (getElem_mem hi')) (hall.get hi' hlt)
  refine ⟨?_, apportion_nonneg ht hpos, apportion_sum hsum⟩
  rw [apportion_length, hall.length_eq]

theorem le_sum_of_mem (h : ∀ c ∈ cs, 0 ≤ c) {c : Int} (hc : c ∈ cs) : c ≤ cs.sum :=
  single_le_sum h c hc

theorem IsSplit.inRange (h : IsSplit ids a shares cs) (ha : InRange a) : ∀ c ∈ cs, InRange c := by
  intro c hc
  have h0 := h.nonneg c hc
  have hle := le_sum_of_mem h.nonneg hc
  rw [h.sum] at hle
  exact ha.of_le (by omega)

theorem proportional_ok {ws : List Number} (ha : InRange a) (h0 : 0 ≤ a)
    (hlen : ws.length = ids.length) (h : proportional (money a) ids ws = .ok shares) :
    ∃ cs, IsSplit ids a shares cs := by
  unfold proportional at h
  simp only [bind_eq_ok, pure_eq_ok, toCents_money ha] at h
  obtain ⟨cs, hcs, rfl⟩ := h
  obtain ⟨hl, hnn, hsum⟩ := allocate_ok h0 hcs
  refine ⟨cs, hl.trans hlen, hnn, hsum, ?_⟩
  congr 2
  refine map_congr_left fun c hc => fromCents_of_inRange (ha.of_le ?_)
  have hc0 := hnn c hc
  have hle := le_sum_of_mem hnn hc
  omega

theorem equalSplit_ok (ha : InRange a) (h0 : 0 ≤ a)
    (h : equalSplit (money a) ids values = .ok shares) : ∃ cs, IsSplit ids a shares cs := by
  unfold equalSplit at h
  simp only [guard_eq_ok] at h
  exact proportional_ok ha h0 (length_replicate ..) h.2

theorem toMoney_nonneg {w : Number} {d : Decimal} (hw : w.isNegative = some false)
    (h : toMoney (.numeral (.decimal w)) = .ok d) : 0 ≤ d.coeff := by
  rw [← Decimal.toRat_nonneg_iff]
  unfold toMoney at h
  simp only [bind_eq_ok, Numeral.toDecimal, Except.ok.injEq, exists_eq_left'] at h
  cases w with
  | infinity | nan => cases h
  | finite =>
    simp only [bind_eq_ok, guard_eq_ok, pure_eq_ok] at h
    obtain ⟨q, -, hq, rfl⟩ := h
    rw [← not_not.mp hq]
    simpa [Number.isNegative] using hw

theorem exactSplit_ok (ha : InRange a) (h : exactSplit (money a) ids values = .ok shares) :
    ∃ cs, IsSplit ids a shares cs := by
  unfold exactSplit at h
  simp only [guard_eq_ok, bind_eq_ok, pure_eq_ok] at h
  obtain ⟨parsed, hparsed, exact, hexact, hsum, rfl⟩ := h
  obtain ⟨hlen, hneg⟩ := requireValues_ok hparsed
  have hall := mapM_eq_ok.mp hexact
  have hget : ∀ d ∈ exact, d = money d.coeff ∧ 0 ≤ d.coeff := by
    intro d hd
    obtain ⟨i, hi⟩ := mem_iff_getElem?.mp hd
    obtain ⟨hlt, rfl⟩ := List.getElem?_eq_some_iff.mp hi
    have hi' : i < parsed.length := hall.length_eq ▸ hlt
    have hok := hall.get hi' hlt
    exact ⟨(toMoney_isMoney hok).1, toMoney_nonneg (hneg _ (getElem_mem hi')) hok⟩
  have hmap : exact = (exact.map Decimal.coeff).map money := by
    rw [List.map_map]
    exact (List.map_id' exact).symm.trans (map_congr_left fun d hd => (hget d hd).1)
  have hnn : ∀ c ∈ exact.map Decimal.coeff, 0 ≤ c := by
    intro c hc
    obtain ⟨d, hd, rfl⟩ := List.mem_map.mp hc
    exact (hget d hd).2
  refine ⟨exact.map Decimal.coeff, ?_, hnn, ?_, ?_⟩
  · rw [length_map, ← hall.length_eq, hlen]
  · rw [not_not, hmap] at hsum
    exact (Decimal.sum_toRat_eq_iff (by decide) (by decide) ha.lt hnn).mp hsum
  · rw [← hmap]

theorem percentageSplit_ok (ha : InRange a) (h0 : 0 ≤ a)
    (h : percentageSplit (money a) ids values = .ok shares) : ∃ cs, IsSplit ids a shares cs := by
  unfold percentageSplit at h
  simp only [guard_eq_ok, bind_eq_ok] at h
  obtain ⟨percents, hp, total, -, -, h⟩ := h
  exact proportional_ok ha h0 (requireValues_ok hp).1 h

theorem shareSplit_ok (ha : InRange a) (h0 : 0 ≤ a)
    (h : shareSplit (money a) ids values = .ok shares) : ∃ cs, IsSplit ids a shares cs := by
  unfold shareSplit at h
  simp only [guard_eq_ok, bind_eq_ok] at h
  obtain ⟨ratios, hr, total, -, -, h⟩ := h
  exact proportional_ok ha h0 (requireValues_ok hr).1 h

theorem splitStrategy_ok {splitType : SplitType} (ha : InRange a) (h0 : 0 ≤ a)
    (h : splitStrategy splitType (money a) ids values = .ok shares) :
    ∃ cs, IsSplit ids a shares cs := by
  cases splitType with
  | equal => exact equalSplit_ok ha h0 h
  | exact => exact exactSplit_ok ha h
  | percentage => exact percentageSplit_ok ha h0 h
  | share => exact shareSplit_ok ha h0 h

end InterviewPrep.Splitwise
