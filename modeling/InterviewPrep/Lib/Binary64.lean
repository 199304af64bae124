/-
  Binary64 floating-point numbers, each taken as the rational it stands for.  `round` is the nearest
  of them, ties to even, with gradual underflow and no upper bound; `ofRat` is the conversion, or
  the correctly rounded operation, that raises when its result is out of range.  Infinities, NaN and
  the sign of a zero are left out.

  `cappedBackoff` is the bound of a retry's delay: a product that leaves the range becomes an
  infinity and the cap wins, but a power that leaves it raises first.
-/
import InterviewPrep.Lib.Decimal
import Mathlib.Data.Int.Log
import Mathlib.Data.Rat.Floor

namespace InterviewPrep.Lib.Binary64

/-- The weight of the last of the 53 bits of a number of `q`'s size. -/
def ulp (q : ℚ) : ℚ := 2 ^ max (Int.log 2 |q| - 52) (-1074)

/-- The nearest integer, ties to the even one. -/
def roundInt (q : ℚ) : Int := q.num.sign * Decimal.roundHalfEven q.num.natAbs q.den

/-- The nearest number, when its exponent is not bounded above. -/
def round (q : ℚ) : ℚ := roundInt (q / ulp q) * ulp q

/-- The nearest number; none when it overflows.  A match on it is not reduced. -/
@[irreducible] def ofRat (q : ℚ) : Option ℚ := if |round q| < 2 ^ 1024 then some (round q) else none

/-- `min(cap, base * power)` over floats. -/
def cappedBackoff (base cap : ℚ) (power : Option ℚ) : Option ℚ :=
  power.map fun power => min cap (round (base * power))

theorem ulp_pos (q : ℚ) : 0 < ulp q := by
  rw [ulp]
  positivity

@[simp] theorem roundInt_intCast (m : Int) : roundInt m = m := by
  rw [roundInt, Rat.num_intCast, Rat.den_intCast]
  have h := Decimal.roundHalfEven_mul_left (m := m.natAbs) one_pos
  rw [one_mul] at h
  rw [h, Int.sign_mul_natAbs]

/-- A multiple of the last place is not rounded. -/
theorem round_eq_self {q : ℚ} (m : Int) (h : q = m * ulp q) : round q = q := by
  have hdiv : q / ulp q = m := by rw [div_eq_iff (ulp_pos q).ne', ← h]
  rw [round, hdiv, roundInt_intCast, ← h]

theorem round_two_pow (k : Nat) : round (2 ^ k) = 2 ^ k := by
  have hlog : Int.log 2 |(2 : ℚ) ^ k| = k := by
    have h := Int.log_zpow (R := ℚ) one_lt_two (k : Int)
    rwa [Nat.cast_two, zpow_natCast, ← abs_of_pos (by positivity : (0 : ℚ) < 2 ^ k)] at h
  have hulp : ulp (2 ^ k) = 2 ^ ((k : Int) - 52) := by
    rw [ulp, hlog, max_eq_left (by omega)]
  refine round_eq_self (2 ^ 52) ?_
  rw [hulp, zpow_sub₀ two_ne_zero, zpow_natCast]
  norm_num
  ring

/-- A power of two overflows from 2 ^ 1024 on. -/
theorem ofRat_two_pow_eq_none_iff {k : Nat} : ofRat (2 ^ k) = none ↔ 1024 ≤ k := by
  rw [ofRat, round_two_pow, abs_of_pos (by positivity), ite_eq_right_iff]
  simp only [reduceCtorEq, imp_false, not_lt]
  exact pow_le_pow_iff_right₀ one_lt_two

theorem cappedBackoff_eq_none_iff {base cap : ℚ} {power : Option ℚ} :
    cappedBackoff base cap power = none ↔ power = none := Option.map_eq_none_iff

end InterviewPrep.Lib.Binary64
