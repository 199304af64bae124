/-
  Sets of small numbers as bit masks: taking an element out (`mask ^^^ (1 <<< i)`),
  the lowest element (`mask & -mask`), and `mask & (mask - 1)`, the set without it.
-/
import Mathlib.Data.Int.Bitwise
import Mathlib.Data.List.Perm.Basic
import Mathlib.Data.List.Range

namespace InterviewPrep.Lib

open List

/-! ## One element less -/

theorem testBit_without (mask i j : Nat) (h : mask.testBit i) :
    (mask ^^^ (1 <<< i)).testBit j = (mask.testBit j && decide (j ≠ i)) := by
  rw [Nat.testBit_xor, Nat.one_shiftLeft, Nat.testBit_two_pow]
  by_cases hj : i = j
  · subst hj
    simp [h]
  · simp [hj, Ne.symm hj]

variable {mask i n : Nat}

theorem without_lt (h : mask.testBit i) : mask ^^^ (1 <<< i) < mask := by
  apply Nat.lt_of_testBit i
  · rw [testBit_without mask i i h]
    simp
  · exact h
  · intro j hj
    rw [testBit_without mask i j h]
    simp [Nat.ne_of_gt hj]

/-- The elements of a set below `n`. -/
def bits (n mask : Nat) : List Nat := (List.range n).filter (mask.testBit ·)

theorem mem_bits : i ∈ bits n mask ↔ i < n ∧ mask.testBit i := by
  rw [bits, mem_filter, mem_range]

theorem bits_nodup (n mask : Nat) : (bits n mask).Nodup := nodup_range.filter _

theorem bits_zero (n : Nat) : bits n 0 = [] := by
  rw [bits, filter_eq_nil_iff]
  intro i _
  simp

theorem bits_perm {rest : Nat} (hi : i < n) (h : mask.testBit i)
    (hrest : ∀ j, rest.testBit j = (mask.testBit j && decide (j ≠ i))) :
    (bits n mask).Perm (i :: bits n rest) := by
  have hnot : i ∉ bits n rest := by
    rw [mem_bits, hrest i]
    simp
  refine (perm_ext_iff_of_nodup (bits_nodup n mask)
    (nodup_cons.mpr ⟨hnot, bits_nodup n rest⟩)).mpr fun j => ?_
  rw [mem_cons, mem_bits, mem_bits, hrest j]
  by_cases hj : j = i
  · subst hj
    simp [hi, h]
  · simp [hj]

theorem bits_full (n : Nat) : bits n (1 <<< n - 1) = List.range n := by
  rw [bits, filter_eq_self]
  intro i hi
  rw [Nat.one_shiftLeft, Nat.testBit_two_pow_sub_one]
  exact decide_eq_true (mem_range.mp hi)

theorem lt_of_testBit (hmask : mask < 2 ^ n) (h : mask.testBit i) : i < n := by
  by_contra hge
  have hle : 2 ^ n ≤ 2 ^ i := Nat.pow_le_pow_right Nat.two_pos (Nat.le_of_not_lt hge)
  rw [Nat.testBit_lt_two_pow (hmask.trans_le hle)] at h
  cases h

theorem bits_ne_nil (hmask : mask < 2 ^ n) (h0 : mask ≠ 0) : bits n mask ≠ [] := by
  obtain ⟨i, hi⟩ := Nat.exists_testBit_of_ne_zero h0
  exact ne_nil_of_mem (mem_bits.mpr ⟨lt_of_testBit hmask hi, hi⟩)

/-! ## The lowest element -/

/-- The index of the lowest set bit: `(mask & -mask).bit_length() - 1`. -/
def lowBit (mask : Nat) : Nat := (Int.land mask (-mask)).toNat.size - 1

theorem land_neg (h : mask ≠ 0) : (Int.land mask (-mask)).toNat = Nat.ldiff mask (mask - 1) := by
  obtain ⟨m, rfl⟩ := Nat.exists_eq_succ_of_ne_zero h
  rfl

theorem ldiff_self (m : Nat) : Nat.ldiff m m = 0 := by
  apply Nat.eq_of_testBit_eq
  intro i
  rw [Nat.testBit_ldiff, Nat.zero_testBit]
  cases m.testBit i <;> rfl

theorem ldiff_pred (h : mask ≠ 0) : ∃ k, Nat.ldiff mask (mask - 1) = 2 ^ k ∧ mask.testBit k ∧
      ∀ j, (mask &&& (mask - 1)).testBit j = (mask.testBit j && decide (j ≠ k)) := by
  induction mask using Nat.binaryRec' with
  | zero => exact absurd rfl h
  | bit b m _ ih =>
    cases b with
    | true =>
      have hpred : Nat.bit true m - 1 = Nat.bit false m := by
        simp [Nat.bit_val]
      refine ⟨0, ?_, by simp, fun j => ?_⟩
      · rw [hpred, Nat.ldiff_bit, ldiff_self]
        rfl
      · rw [hpred, Nat.land_bit, Nat.and_self]
        cases j with
        | zero => simp
        | succ => rw [Nat.testBit_bit_succ, Nat.testBit_bit_succ]; simp
    | false =>
    have hm : m ≠ 0 := by
      rintro rfl
      exact h rfl
    have hpred : Nat.bit false m - 1 = Nat.bit true (m - 1) := by
      simp only [Nat.bit_val, Bool.toNat_false, Bool.toNat_true]
      omega
    obtain ⟨k, hk, hbit, hclear⟩ := ih hm
    refine ⟨k + 1, ?_, ?_, fun j => ?_⟩
    · rw [hpred, Nat.ldiff_bit, hk, Nat.bit_val, pow_succ]
      simp [Nat.mul_comm]
    · rw [Nat.testBit_bit_succ]
      exact hbit
    · rw [hpred, Nat.land_bit]
      cases j with
      | zero => simp
      | succ => rw [Nat.testBit_bit_succ, Nat.testBit_bit_succ, hclear]; simp

theorem lowBit_spec (h : mask ≠ 0) : mask.testBit (lowBit mask) ∧
      ∀ j, (mask &&& (mask - 1)).testBit j = (mask.testBit j && decide (j ≠ lowBit mask)) := by
  obtain ⟨k, hk, hbit, hclear⟩ := ldiff_pred h
  have hlow : lowBit mask = k := by
    rw [lowBit, land_neg h, hk, Nat.size_pow, Nat.add_sub_cancel]
  rw [hlow]
  exact ⟨hbit, hclear⟩

end InterviewPrep.Lib
