/-
  InterviewPrep.TaskQueue.Backoff

  `ExponentialBackoff` (task_queue.go): a shift drops the bits of the base it pushes out
  (`toInt_shl`), and what survives may be small and positive, so that the guard lets it pass.
-/
import Mathlib.Tactic.Positivity

namespace InterviewPrep.TaskQueue

/-- `x << n`: doubled `n` times, wrapping around. -/
def shl (x : Int64) (n : Nat) : Int64 := .ofInt (x.toInt * 2 ^ n)

/-- The `d` of `ExponentialBackoff`, which draws the delay before a retry from `[0, d]`; a negative
    shift count panics. -/
def backoffBound (base max : Int64) (attempt : Int) : Option Int64 :=
  if attempt - 1 < 0 then none
  else
    let d := shl base (attempt - 1).toNat
    -- d <= 0 guards shift overflow
    some (if d > max ∨ d ≤ 0 then max else d)

/-- The bound is `base * 2^(attempt-1)` capped at `max`. -/
abbrev Capped (base max : Int64) (attempt : Int) : Prop :=
  (backoffBound base max attempt).map Int64.toInt =
    some (min max.toInt (base.toInt * 2 ^ (attempt - 1).toNat))

/-- The product fits, or the bits that the shift leaves of `base` are all zero or reach `max`. -/
def ShiftGuarded (base max : Int64) (attempt : Int) : Prop :=
  let k := (attempt - 1).toNat
  let kept := base.toInt % 2 ^ (64 - k)
  base.toInt * 2 ^ k < 2 ^ 63 ∨ kept = 0 ∨ max.toInt ≤ kept * 2 ^ k

variable {base max : Int64}

theorem mul_pow_emod (x : Int) (k : Nat) : x * 2 ^ k % 2 ^ 64 = x % 2 ^ (64 - k) * 2 ^ k := by
  rcases Nat.le_total k 64 with hk | hk
  · have hpow : (2 : Int) ^ 64 = 2 ^ (64 - k) * 2 ^ k := by rw [← pow_add, Nat.sub_add_cancel hk]
    rw [hpow, mul_comm x, mul_comm (2 ^ (64 - k)), Int.mul_emod_mul_of_pos _ _ (by positivity),
      mul_comm (2 ^ k)]
  · rw [Nat.sub_eq_zero_of_le hk, pow_zero, Int.emod_one, zero_mul]
    exact Int.emod_eq_zero_of_dvd ((pow_dvd_pow 2 hk).mul_left x)

theorem toInt_shl (x : Int64) (k : Nat) :
    (shl x k).toInt = (x.toInt % 2 ^ (64 - k) * 2 ^ k).bmod (2 ^ 64) := by
  rw [shl, Int64.toInt_ofInt, ← mul_pow_emod]
  exact (Int.emod_bmod _ _).symm

/-- The cap holds where the guard sees the overflow, and with it at every attempt the bound never
    goes down. -/
theorem exponentialBackoff_capped_iff (hbase : 0 < base) (hle : base ≤ max) :
    (∀ attempt, 1 ≤ attempt → (Capped base max attempt ↔ ShiftGuarded base max attempt)) ∧
      ((∀ attempt, 1 ≤ attempt → ShiftGuarded base max attempt) →
        ∀ a b d e, 1 ≤ a → a ≤ b → backoffBound base max a = some d →
          backoffBound base max b = some e → d ≤ e) := by
  have hcapped : ∀ attempt, 1 ≤ attempt →
      (Capped base max attempt ↔ ShiftGuarded base max attempt) := by
    intro attempt ha
    rw [Int64.lt_iff_toInt_lt, Int64.toInt_zero] at hbase
    rw [Int64.le_iff_toInt_le] at hle
    have hmax := max.toInt_lt
    simp only [Capped, ShiftGuarded, backoffBound, if_neg (show ¬ attempt - 1 < 0 by omega)]
    generalize (attempt - 1).toNat = k
    have hpow : (0 : Int) < 2 ^ k := by positivity
    have hkept : base.toInt % 2 ^ (64 - k) = 0 ↔ base.toInt % 2 ^ (64 - k) * 2 ^ k = 0 := by
      simp [hpow.ne']
    have hfits : base.toInt ≤ base.toInt * 2 ^ k := le_mul_of_one_le_right hbase.le hpow
    have hwrapped := mul_pow_emod base.toInt k
    have hshl := toInt_shl base k
    rw [hkept, Option.map_some, Option.some.injEq, apply_ite Int64.toInt]
    simp only [gt_iff_lt, Int64.lt_iff_toInt_lt, Int64.le_iff_toInt_le, Int64.toInt_zero, hshl]
    generalize base.toInt % 2 ^ (64 - k) * 2 ^ k = kept at *
    generalize base.toInt * 2 ^ k = product at *
    rw [Int.bmod]
    split_ifs <;> omega
  refine ⟨hcapped, fun hguarded a b d e ha hab hd he => ?_⟩
  have hda := (hcapped a ha).mpr (hguarded a ha)
  have hdb := (hcapped b (ha.trans hab)).mpr (hguarded b (ha.trans hab))
  rw [Capped, hd, Option.map_some, Option.some.injEq] at hda
  rw [Capped, he, Option.map_some, Option.some.injEq] at hdb
  rw [Int64.lt_iff_toInt_lt, Int64.toInt_zero] at hbase
  rw [Int64.le_iff_toInt_le, hda, hdb]
  refine min_le_min_left _ (mul_le_mul_of_nonneg_left ?_ hbase.le)
  exact pow_le_pow_right₀ (by decide) (by omega)

/-- At the 64th attempt the shift leaves nothing of the default base, and the guard sees it. -/
theorem exponentialBackoff_capped_overflow : Capped 100000000 10000000000 64 :=
  ((exponentialBackoff_capped_iff (by decide) (by decide)).1 64 (by decide)).mpr
    (.inr (.inl (by decide)))

/-- The overflow at the 33rd attempt goes unseen: the bound is 4294967296, below the cap. -/
theorem exponentialBackoff_notCapped : ¬ Capped 4294967297 10000000000 33 := by decide +kernel

end InterviewPrep.TaskQueue
