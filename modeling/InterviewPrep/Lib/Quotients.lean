/-
  Division of decimals in a context of `p` significant digits, and the rounding of a decimal to an
  integer.

  `Fits p q` says that `q` can be written with `p` significant digits, `unit p q` is the weight of
  the last of them, and `Rounds p q t` that `t` is `q` rounded half-even to them.  The rules used
  by clients: a quotient is correctly rounded (`div_rounds`), a rounding is exact exactly when the
  number fits (`Rounds.eq_iff`), and it is an integer exactly when some integer lies within half a
  unit of the number (`Rounds.isInt_iff`).
-/
import InterviewPrep.Lib.Decimal
import Mathlib.Data.Int.Log
import Mathlib.Data.Rat.Floor

namespace InterviewPrep.Lib

/-! ## Rounding a fraction -/

namespace Decimal

theorem roundHalfEven_spec (n d : Nat) (hd : 0 < d) :
    2 * n ≤ 2 * (d * roundHalfEven n d) + d ∧ 2 * (d * roundHalfEven n d) ≤ 2 * n + d ∧
      (2 * n = 2 * (d * roundHalfEven n d) + d ∨ 2 * (d * roundHalfEven n d) = 2 * n + d →
        roundHalfEven n d % 2 = 0) := by
  have hn : d * (n / d) + n % d = n := Nat.div_add_mod n d
  have hr : n % d < d := Nat.mod_lt n hd
  have hsucc : d * (n / d + 1) = d * (n / d) + d := Nat.mul_succ d (n / d)
  unfold roundHalfEven
  split
  · next =>
      refine ⟨by omega, by omega, fun htie => ?_⟩
      omega
  · next =>
      rw [hsucc]
      refine ⟨by omega, by omega, fun htie => ?_⟩
      omega

theorem abs_sub_roundHalfEven_le {n d : Nat} (hd : 0 < d) :
    |(n : ℚ) / d - roundHalfEven n d| ≤ 1 / 2 ∧
      (|(n : ℚ) / d - roundHalfEven n d| = 1 / 2 → roundHalfEven n d % 2 = 0) := by
  obtain ⟨hle, hge, htie⟩ := roundHalfEven_spec n d hd
  generalize roundHalfEven n d = m at hle hge htie ⊢
  have hdq : (0 : ℚ) < d := Nat.cast_pos.mpr hd
  have hdiff : ((n : ℚ) / d - m) * d = n - d * m := by
    rw [sub_mul, div_mul_cancel₀ _ hdq.ne', mul_comm]
  have hle' : 2 * (n : ℚ) ≤ 2 * (d * m) + d := by exact_mod_cast hle
  have hge' : 2 * ((d : ℚ) * m) ≤ 2 * n + d := by exact_mod_cast hge
  constructor
  · rw [abs_le]
    constructor
    · by_contra h
      have := mul_lt_mul_of_pos_right (not_le.mp h) hdq
      linarith
    · by_contra h
      have := mul_lt_mul_of_pos_right (not_le.mp h) hdq
      linarith
  intro h
  rcases (abs_eq (by norm_num)).mp h with h | h
  · rw [h] at hdiff
    refine htie (Or.inl ?_)
    have : 2 * (n : ℚ) = 2 * (d * m) + d := by linarith
    exact_mod_cast this
  · rw [h] at hdiff
    refine htie (Or.inr ?_)
    have : 2 * ((d : ℚ) * m) = 2 * n + d := by linarith
    exact_mod_cast this

/-! ## The last significant digit -/

/-- The number can be written with `p` significant digits. -/
def Fits (p : Nat) (q : ℚ) : Prop :=
  ∃ d : Decimal, d.coeff.natAbs < 10 ^ p ∧ d.toRat = q

/-- The weight of the `p`-th significant digit of `q`. -/
def unit (p : Nat) (q : ℚ) : ℚ := 10 ^ (Int.log 10 q + 1 - p)

/-- `t` is `q`, a positive number, rounded half-even to `p` significant digits. -/
def Rounds (p : Nat) (q t : ℚ) : Prop :=
  ∃ m : Nat, t = m * unit p q ∧ |q - t| ≤ unit p q / 2 ∧ (|q - t| = unit p q / 2 → m % 2 = 0)

variable {p : Nat} {q t : ℚ} {a b : Decimal}

theorem unit_pos : 0 < unit p q := by
  rw [unit]
  positivity

theorem lt_pow_mul_unit (q : ℚ) : q < 10 ^ p * unit p q := by
  have h := Int.lt_zpow_succ_log_self (by norm_num : 1 < 10) q
  rw [unit, ← zpow_natCast, ← zpow_add₀ (by norm_num : (10 : ℚ) ≠ 0)]
  rwa [show (p : Int) + (Int.log 10 q + 1 - p) = Int.log 10 q + 1 by ring]

theorem pow_mul_unit_le (hp : 0 < p) (hq : 0 < q) : 10 ^ (p - 1) * unit p q ≤ q := by
  have h := Int.zpow_log_le_self (by norm_num : 1 < 10) hq
  rw [unit, ← zpow_natCast, ← zpow_add₀ (by norm_num : (10 : ℚ) ≠ 0)]
  rwa [show ((p - 1 : Nat) : Int) + (Int.log 10 q + 1 - p) = Int.log 10 q by omega]

theorem unit_eq {e : Int} (hp : 0 < p) (hle : (10 : ℚ) ^ (p - 1) * 10 ^ e ≤ q)
    (hlt : q < 10 ^ p * 10 ^ e) : unit p q = 10 ^ e := by
  have h10 : (10 : ℚ) ≠ 0 := by norm_num
  have hq : 0 < q := lt_of_lt_of_le (by positivity) hle
  rw [← zpow_natCast, ← zpow_add₀ h10] at hle hlt
  have hlog : ((p - 1 : Nat) : Int) + e ≤ Int.log 10 q :=
    (Int.zpow_le_iff_le_log (by norm_num : 1 < 10) hq).mp (by exact_mod_cast hle)
  have hlog' : Int.log 10 q < p + e :=
    (Int.lt_zpow_iff_log_lt (by norm_num : 1 < 10) hq).mp (by exact_mod_cast hlt)
  rw [unit]
  congr 1
  omega

theorem Fits.exists_mul_unit (hq : 0 < q) (h : Fits p q) : ∃ m : Nat, q = m * unit p q := by
  obtain ⟨⟨c, f⟩, hc, rfl⟩ := h
  have hc0 : 0 < c := toRat_pos_iff.mp hq
  -- the digit of weight `10 ^ f` is among the first `p`
  have hexp : Int.log 10 (⟨c, f⟩ : Decimal).toRat + 1 - p ≤ f := by
    have hlt : (⟨c, f⟩ : Decimal).toRat < (10 : ℚ) ^ ((p : Int) + f) := by
      have hcp : (c : ℚ) < 10 ^ p := by
        have : c < 10 ^ p := by
          zify at hc
          rwa [abs_of_pos hc0] at hc
        exact_mod_cast this
      rw [zpow_add₀ (by norm_num), zpow_natCast, toRat]
      exact mul_lt_mul_of_pos_right hcp (by positivity)
    have hlog := (Int.lt_zpow_iff_log_lt (by norm_num : 1 < 10) hq).mp (by exact_mod_cast hlt)
    omega
  obtain ⟨k, hk⟩ := Int.le.dest hexp
  refine ⟨c.toNat * 10 ^ k, ?_⟩
  have hcast : ((c.toNat : Nat) : ℚ) = c := by exact_mod_cast Int.toNat_of_nonneg hc0.le
  rw [unit]
  generalize Int.log 10 (⟨c, f⟩ : Decimal).toRat + 1 - p = e at hk
  rw [toRat, ← hk, zpow_add₀ (by norm_num : (10 : ℚ) ≠ 0), zpow_natCast]
  push_cast
  rw [hcast]
  ring

/-! ## A correct rounding -/

theorem Rounds.fits (hp : 0 < p) (h : Rounds p q t) : Fits p t := by
  obtain ⟨m, rfl, hdist, -⟩ := h
  have hu : 0 < unit p q := unit_pos
  have hm : m ≤ 10 ^ p := by
    have hlt := lt_pow_mul_unit (p := p) q
    have hge : (m : ℚ) * unit p q - q ≤ unit p q / 2 := by
      have := neg_le_of_abs_le hdist
      linarith
    by_contra hgt
    have hsucc : (10 : ℚ) ^ p + 1 ≤ m := by exact_mod_cast not_le.mp hgt
    have := mul_le_mul_of_nonneg_right hsucc hu.le
    linarith
  rcases Nat.lt_or_eq_of_le hm with hlt | heq
  · exact ⟨⟨m, Int.log 10 q + 1 - p⟩, by simpa using hlt, by rw [toRat, unit]; simp⟩
  · refine ⟨⟨1, p + (Int.log 10 q + 1 - p)⟩, by simpa using Nat.one_lt_pow hp.ne' (by norm_num), ?_⟩
    rw [toRat, unit, heq, zpow_add₀ (by norm_num : (10 : ℚ) ≠ 0)]
    simp

theorem Rounds.pos (hp : 0 < p) (hq : 0 < q) (h : Rounds p q t) : 0 < t := by
  obtain ⟨m, -, hdist, -⟩ := h
  have hu : 0 < unit p q := unit_pos
  have hle : unit p q ≤ q := by
    calc unit p q = 1 * unit p q := (one_mul _).symm
      _ ≤ 10 ^ (p - 1) * unit p q :=
        mul_le_mul_of_nonneg_right (one_le_pow₀ (by norm_num)) hu.le
      _ ≤ q := pow_mul_unit_le hp hq
  have := le_of_abs_le hdist
  linarith

theorem Rounds.eq_iff (hp : 0 < p) (hq : 0 < q) (h : Rounds p q t) : t = q ↔ Fits p q := by
  constructor
  · intro heq
    rw [← heq]
    exact h.fits hp
  intro hfits
  obtain ⟨n, hn⟩ := hfits.exists_mul_unit hq
  obtain ⟨m, hm, hdist, -⟩ := h
  have hu : 0 < unit p q := unit_pos
  generalize unit p q = u at hn hm hdist hu
  -- two multiples of the unit that are at most half a unit apart
  rw [hn, hm, ← sub_mul, abs_mul, abs_of_pos hu] at hdist
  have hlt : |(n : ℚ) - m| < 1 := by
    by_contra hge
    have := mul_le_mul_of_nonneg_right (not_lt.mp hge) hu.le
    linarith
  have hnm : (n : Int) - m = 0 := by
    rw [← Int.abs_lt_one_iff]
    exact_mod_cast hlt
  have : (n : ℚ) = m := by exact_mod_cast sub_eq_zero.mp hnm
  rw [hn, hm, this]

theorem Rounds.isInt_iff (h : Rounds p q t) :
    (∃ z : Int, t = z) ↔ ∃ z : Int, |q - z| ≤ unit p q / 2 := by
  obtain ⟨m, hm, hdist, htie⟩ := h
  have hu : 0 < unit p q := unit_pos
  constructor
  · rintro ⟨z, rfl⟩
    exact ⟨z, hdist⟩
  rintro ⟨z, hz⟩
  by_cases he : 0 ≤ Int.log 10 q + 1 - p
  · -- every multiple of the unit is an integer
    obtain ⟨k, hk⟩ := Int.eq_ofNat_of_zero_le he
    refine ⟨m * 10 ^ k, ?_⟩
    rw [hm, unit, hk]
    push_cast
    rw [zpow_natCast]
  -- the integer is an even number of units
  obtain ⟨k, hk⟩ : ∃ k : Nat, Int.log 10 q + 1 - p = -(k + 1 : Nat) :=
    ⟨(-(Int.log 10 q + 1 - p) - 1).toNat, by omega⟩
  have hzu : (z : ℚ) = ((z * 10 ^ (k + 1) : Int) : ℚ) * unit p q := by
    rw [unit, hk, zpow_neg, zpow_natCast]
    push_cast
    field_simp
  have heven : (z * 10 ^ (k + 1)) % 2 = 0 :=
    Int.emod_eq_zero_of_dvd ⟨z * 10 ^ k * 5, by rw [pow_succ]; ring⟩
  generalize z * 10 ^ (k + 1) = w at hzu heven
  generalize unit p q = u at hm hdist htie hu hz hzu
  -- both lie within half a unit, so they are at most one unit apart
  have hsum : |((w : ℚ) - m) * u| ≤ |q - t| + |q - z| := by
    rw [sub_mul, ← hzu, ← hm]
    calc |(z : ℚ) - t| = |(q - t) - (q - z)| := by congr 1; ring
      _ ≤ |q - t| + |q - z| := abs_sub _ _
  rw [abs_mul, abs_of_pos hu] at hsum
  by_cases hne : w = m
  · refine ⟨z, ?_⟩
    rw [hm, hzu, hne]
    push_cast
    rfl
  have hone : (1 : ℚ) ≤ |(w : ℚ) - m| := by
    have := Int.one_le_abs (sub_ne_zero.mpr hne)
    exact_mod_cast this
  have hone' := mul_le_mul_of_nonneg_right hone hu.le
  have hmeven := htie (by linarith)
  -- the distance is exactly one, of two even numbers
  have hle : |(w : ℚ) - m| ≤ 1 := by
    by_contra hgt
    have := mul_lt_mul_of_pos_right (not_le.mp hgt) hu
    linarith
  have hle' : |w - (m : Int)| ≤ 1 := by exact_mod_cast hle
  have habs := abs_le.mp hle'
  omega

/-! ## Results that fit, exactly when the exact ones do -/

theorem natAbs_sign_le (c : Int) : c.sign.natAbs ≤ 1 := by
  rcases Int.sign_trichotomy c with h | h | h <;> rw [h] <;> decide

theorem toRat_fix_of_le (hp : 0 < p) {c : Int} {e : Int} (h : c.natAbs ≤ 10 ^ p) :
    (fix p ⟨c, e⟩).toRat = (⟨c, e⟩ : Decimal).toRat := by
  rcases Nat.lt_or_eq_of_le h with hlt | heq
  · rw [fix_of_lt hlt]
  have hone : (c.sign).natAbs < 10 ^ p :=
    lt_of_le_of_lt (natAbs_sign_le c) (Nat.one_lt_pow hp.ne' (by norm_num))
  have hc : c = 10 ^ p * c.sign := by
    conv_lhs => rw [← Int.sign_mul_natAbs c, heq]
    push_cast
    ring
  rw [hc]
  exact toRat_fix_of_mul p e hone

theorem natAbs_rescale_le {d : Decimal} (h : 10 ^ p ≤ d.coeff.natAbs) :
    (d.rescale (d.exp + (digits d.coeff.natAbs - p : Nat))).coeff.natAbs ≤ 10 ^ p := by
  have hdigits := lt_digits_of_pow_le h
  have hlt := lt_pow_digits d.coeff.natAbs
  generalize digits d.coeff.natAbs = n at hdigits hlt
  have hle : ¬ (d.exp + (n - p : Nat) ≤ d.exp) := by omega
  have hsub : (d.exp + (n - p : Nat) - d.exp).toNat = n - p := by omega
  have hpow : 10 ^ n = 10 ^ p * 10 ^ (n - p) := by rw [← pow_add]; congr 1; omega
  have hdiv : d.coeff.natAbs / 10 ^ (n - p) < 10 ^ p :=
    Nat.div_lt_of_lt_mul (by rwa [mul_comm, ← hpow])
  have hround := roundHalfEven_le d.coeff.natAbs (10 ^ (n - p))
  rw [rescale, if_neg hle, hsub]
  rw [Int.natAbs_mul, Int.natAbs_natCast]
  calc d.coeff.sign.natAbs * roundHalfEven d.coeff.natAbs (10 ^ (n - p))
      ≤ 1 * roundHalfEven d.coeff.natAbs (10 ^ (n - p)) :=
        Nat.mul_le_mul_right _ (natAbs_sign_le _)
    _ ≤ 10 ^ p := by omega

theorem fits_fix (hp : 0 < p) (d : Decimal) : Fits p (fix p d).toRat := by
  by_cases h : d.coeff.natAbs < 10 ^ p
  · rw [fix_of_lt h]
    exact ⟨d, h, rfl⟩
  have hle := natAbs_rescale_le (Nat.not_lt.mp h)
  rw [fix, if_neg h]
  simp only
  split
  · next hlt => exact ⟨_, hlt, rfl⟩
  · next hge =>
      -- the carry leaves a power of ten, and the last digit dropped is a zero
      generalize d.rescale (d.exp + (digits d.coeff.natAbs - p : Nat)) = r at hle hge
      have heq : r.coeff.natAbs = 10 ^ p := by omega
      have hc : r.coeff = 10 ^ 1 * (10 ^ (p - 1) * r.coeff.sign) := by
        conv_lhs => rw [← Int.sign_mul_natAbs r.coeff, heq]
        rw [← mul_assoc, ← pow_add, show 1 + (p - 1) = p by omega]
        push_cast
        ring
      have hr : r.rescale (r.exp + 1) = ⟨10 ^ (p - 1) * r.coeff.sign, r.exp + 1⟩ := by
        have := rescale_of_eq_mul (m := 10 ^ (p - 1) * r.coeff.sign) (e := r.exp) 1 Nat.one_pos
        rw [← hc] at this
        exact_mod_cast this
      refine ⟨_, ?_, rfl⟩
      rw [hr]
      rw [Int.natAbs_mul, Int.natAbs_pow]
      calc 10 ^ (p - 1) * r.coeff.sign.natAbs
          ≤ 10 ^ (p - 1) * 1 := Nat.mul_le_mul_left _ (natAbs_sign_le _)
        _ < 10 ^ p := by
          rw [mul_one]
          exact Nat.pow_lt_pow_right (by norm_num) (by omega)

theorem toRat_fix_eq_iff (hp : 0 < p) (d : Decimal) :
    (fix p d).toRat = d.toRat ↔ Fits p d.toRat := by
  constructor
  · intro h
    rw [← h]
    exact fits_fix hp d
  rintro ⟨⟨c, f⟩, hc, hval⟩
  obtain ⟨a, e⟩ := d
  have h10 : (10 : ℚ) ≠ 0 := by norm_num
  by_cases hef : e ≤ f
  · -- the number has trailing zeros in place of the missing digits
    obtain ⟨k, rfl⟩ := Int.le.dest hef
    rw [← toRat_mk_mul, toRat_inj] at hval
    rw [← hval]
    exact toRat_fix_of_mul k e hc
  · obtain ⟨k, rfl⟩ := Int.le.dest (not_le.mp hef).le
    rw [← toRat_mk_mul, toRat_inj] at hval
    refine congrArg toRat (fix_of_lt ?_)
    rw [hval, Int.natAbs_mul, Int.natAbs_pow] at hc
    exact lt_of_le_of_lt (Nat.le_mul_of_pos_left _ (by positivity)) hc

/-! ## Division -/

/-- At most `k` trailing zeros dropped. -/
def reduce (d : Decimal) : Nat → Decimal
  | 0 => d
  | k + 1 => if d.coeff % 10 = 0 then reduce ⟨d.coeff / 10, d.exp + 1⟩ k else d

/-- The quotient `a / b` as `n / d * 10 ^ (-shift)`, with `p` digits in the integer
    part of `n / d`. -/
def scaled (p a b : Nat) : Nat × Nat × Int :=
  let shift : Int := digits b + p - digits a
  let n := a * 10 ^ shift.toNat
  let d := b * 10 ^ (-shift).toNat
  if n < 10 ^ p * d then (n, d, shift) else (n, 10 * d, shift - 1)

/-- The quotient of `a` and `b ≠ 0`: an exact one that fits with an exponent as close to `a.exp -
    b.exp` as possible, else rounded half-even to `p` digits. -/
def div (p : Nat) (a b : Decimal) : Decimal :=
  let (n, d, shift) := scaled p a.coeff.natAbs b.coeff.natAbs
  let quotient : Decimal :=
    ⟨a.coeff.sign * b.coeff.sign * roundHalfEven n d, a.exp - b.exp - shift⟩
  if n % d = 0 then reduce quotient shift.toNat else fix p quotient

theorem toRat_reduce (d : Decimal) (k : Nat) : (reduce d k).toRat = d.toRat := by
  induction k generalizing d with
  | zero => rfl
  | succ _ ih =>
    rw [reduce]
    split
    · next =>
        have hc : d.coeff = 10 ^ 1 * (d.coeff / 10) := by omega
        rw [ih]
        conv_rhs => rw [show d = ⟨d.coeff, d.exp⟩ from rfl, hc]
        exact (toRat_mk_mul 1 (d.coeff / 10) d.exp).symm
    · rfl

theorem scaled_lt {a b : Nat} (p : Nat) (hb : 0 < b) :
    0 < (scaled p a b).2.1 ∧ (scaled p a b).1 < 10 ^ p * (scaled p a b).2.1 := by
  have hlt : a * 10 ^ ((digits b + p - digits a : Int)).toNat
      < 10 ^ (p + 1) * (b * 10 ^ (-(digits b + p - digits a : Int)).toNat) := by
    calc a * 10 ^ ((digits b + p - digits a : Int)).toNat
        < 10 ^ digits a * 10 ^ ((digits b + p - digits a : Int)).toNat :=
          Nat.mul_lt_mul_of_pos_right (lt_pow_digits a) (by positivity)
      _ = 10 ^ (p + 1) * (10 ^ (digits b - 1) * 10 ^ (-(digits b + p - digits a : Int)).toNat) := by
          rw [← pow_add, ← pow_add, ← pow_add]
          congr 1
          have : 0 < digits b := Nat.succ_pos _
          omega
      _ ≤ 10 ^ (p + 1) * (b * 10 ^ (-(digits b + p - digits a : Int)).toNat) :=
          Nat.mul_le_mul_left _ (Nat.mul_le_mul_right _ (pow_digits_pred_le hb.ne'))
  simp only [scaled]
  split
  · next h => exact ⟨by positivity, h⟩
  · refine ⟨by positivity, ?_⟩
    rw [pow_succ, mul_assoc] at hlt
    exact hlt

theorem le_scaled {a b : Nat} (hp : 0 < p) (ha : 0 < a) :
    10 ^ (p - 1) * (scaled p a b).2.1 ≤ (scaled p a b).1 := by
  have hle : 10 ^ (p - 1) * (b * 10 ^ (-(digits b + p - digits a : Int)).toNat)
      ≤ a * 10 ^ ((digits b + p - digits a : Int)).toNat := by
    calc 10 ^ (p - 1) * (b * 10 ^ (-(digits b + p - digits a : Int)).toNat)
        ≤ 10 ^ (p - 1) * (10 ^ digits b * 10 ^ (-(digits b + p - digits a : Int)).toNat) :=
          Nat.mul_le_mul_left _ (Nat.mul_le_mul_right _ (lt_pow_digits b).le)
      _ = 10 ^ (digits a - 1) * 10 ^ ((digits b + p - digits a : Int)).toNat := by
          rw [← pow_add, ← pow_add, ← pow_add]
          congr 1
          have : 0 < digits a := Nat.succ_pos _
          omega
      _ ≤ a * 10 ^ ((digits b + p - digits a : Int)).toNat :=
          Nat.mul_le_mul_right _ (pow_digits_pred_le ha.ne')
  simp only [scaled]
  split
  · exact hle
  · next h =>
      rw [← mul_assoc, ← pow_succ, show p - 1 + 1 = p by omega]
      exact Nat.not_lt.mp h

theorem div_eq_scaled (p a b : Nat) :
    ((scaled p a b).1 : ℚ) / (scaled p a b).2.1 * 10 ^ (-(scaled p a b).2.2) = (a : ℚ) / b := by
  have h10 : (10 : ℚ) ≠ 0 := by norm_num
  have hshift : ∀ s : Int, (10 : ℚ) ^ s.toNat / 10 ^ (-s).toNat * 10 ^ (-s) = 1 := fun s => by
    rw [← zpow_natCast, ← zpow_natCast, ← zpow_sub₀ h10, ← zpow_add₀ h10]
    rw [show ((s.toNat : Int) - ((-s).toNat : Int) + -s) = 0 by omega, zpow_zero]
  simp only [scaled]
  split
  · push_cast
    calc _ = (a : ℚ) / b * (10 ^ ((digits b + p - digits a : Int)).toNat
          / 10 ^ (-(digits b + p - digits a : Int)).toNat
          * 10 ^ (-(digits b + p - digits a : Int))) := by ring
      _ = a / b := by rw [hshift, mul_one]
  push_cast
  rw [show -((digits b + p - digits a : Int) - 1) = 1 + -(digits b + p - digits a : Int) by ring,
    zpow_add₀ h10, zpow_one]
  calc _ = (a : ℚ) / b * (10 ^ ((digits b + p - digits a : Int)).toNat
        / 10 ^ (-(digits b + p - digits a : Int)).toNat
        * 10 ^ (-(digits b + p - digits a : Int))) := by ring
    _ = a / b := by rw [hshift, mul_one]

theorem toRat_div_eq (hp : 0 < p) (hb : 0 < b.coeff) : (div p a b).toRat = a.coeff.sign
      * roundHalfEven (scaled p a.coeff.natAbs b.coeff.natAbs).1
          (scaled p a.coeff.natAbs b.coeff.natAbs).2.1
      * 10 ^ (a.exp - b.exp - (scaled p a.coeff.natAbs b.coeff.natAbs).2.2) := by
  obtain ⟨hd, hlt⟩ := scaled_lt p (Int.natAbs_pos.mpr hb.ne') (a := a.coeff.natAbs)
  rw [div]
  generalize scaled p a.coeff.natAbs b.coeff.natAbs = parts at hd hlt ⊢
  obtain ⟨n, d, shift⟩ := parts
  have hR : roundHalfEven n d ≤ 10 ^ p := by
    have := roundHalfEven_le n d
    have := Nat.div_lt_of_lt_mul (show n < d * 10 ^ p by rwa [mul_comm])
    omega
  have hcoeff : (a.coeff.sign * b.coeff.sign * (roundHalfEven n d : Int)).natAbs ≤ 10 ^ p := by
    rw [Int.sign_eq_one_of_pos hb, mul_one, Int.natAbs_mul, Int.natAbs_natCast]
    calc a.coeff.sign.natAbs * roundHalfEven n d
        ≤ 1 * roundHalfEven n d := Nat.mul_le_mul_right _ (natAbs_sign_le _)
      _ ≤ 10 ^ p := by rwa [one_mul]
  have hval : (⟨a.coeff.sign * b.coeff.sign * (roundHalfEven n d : Int), a.exp - b.exp - shift⟩ :
      Decimal).toRat = a.coeff.sign * roundHalfEven n d * 10 ^ (a.exp - b.exp - shift) := by
    rw [toRat, Int.sign_eq_one_of_pos hb, mul_one]
    push_cast
    rfl
  simp only
  split
  · rw [toRat_reduce, hval]
  · rw [toRat_fix_of_le hp hcoeff, hval]

theorem div_rounds (hp : 0 < p) (ha : 0 < a.coeff) (hb : 0 < b.coeff) :
    Rounds p (a.toRat / b.toRat) (div p a b).toRat := by
  have ha' : 0 < a.coeff.natAbs := Int.natAbs_pos.mpr ha.ne'
  have hb' : 0 < b.coeff.natAbs := Int.natAbs_pos.mpr hb.ne'
  have hcast : ∀ {c : Int}, 0 < c → ((c.natAbs : Nat) : ℚ) = c := fun {c} hc => by
    rw [← Int.cast_natCast, Int.natAbs_of_nonneg hc.le]
  have hq := div_eq_scaled p a.coeff.natAbs b.coeff.natAbs
  obtain ⟨hd, hlt⟩ := scaled_lt p hb' (a := a.coeff.natAbs)
  have hle := le_scaled hp ha' (b := b.coeff.natAbs)
  have ht := toRat_div_eq hp hb (a := a)
  rw [hcast ha, hcast hb] at hq
  rw [Int.sign_eq_one_of_pos ha, Int.cast_one, one_mul] at ht
  generalize scaled p a.coeff.natAbs b.coeff.natAbs = parts at hq hd hlt hle ht
  obtain ⟨n, d, shift⟩ := parts
  simp only at hq hd hlt hle ht
  have h10 : (10 : ℚ) ≠ 0 := by norm_num
  have hdq : (0 : ℚ) < d := Nat.cast_pos.mpr hd
  have hpow : (0 : ℚ) < 10 ^ (a.exp - b.exp - shift) := by positivity
  have hval : a.toRat / b.toRat = (n : ℚ) / d * 10 ^ (a.exp - b.exp - shift) := by
    calc a.toRat / b.toRat = (a.coeff : ℚ) / b.coeff * (10 ^ a.exp / 10 ^ b.exp) := by
          rw [toRat, toRat, mul_div_mul_comm]
      _ = (n : ℚ) / d * (10 ^ (-shift) * 10 ^ (a.exp - b.exp)) := by
          rw [← hq, ← zpow_sub₀ h10, mul_assoc]
      _ = (n : ℚ) / d * 10 ^ (a.exp - b.exp - shift) := by
          rw [← zpow_add₀ h10]
          congr 2
          ring
  have hunit : unit p (a.toRat / b.toRat) = 10 ^ (a.exp - b.exp - shift) := by
    rw [hval]
    refine unit_eq hp (mul_le_mul_of_nonneg_right ?_ hpow.le) (mul_lt_mul_of_pos_right ?_ hpow)
    · rw [le_div_iff₀ hdq]
      exact_mod_cast hle
    · rw [div_lt_iff₀ hdq]
      exact_mod_cast hlt
  obtain ⟨hhalf, htie⟩ := abs_sub_roundHalfEven_le (n := n) hd
  refine ⟨roundHalfEven n d, by rw [ht, hunit], ?_⟩
  rw [hunit, hval, ht, ← sub_mul, abs_mul, abs_of_pos hpow]
  generalize (10 : ℚ) ^ (a.exp - b.exp - shift) = u at hpow
  constructor
  · have := mul_le_mul_of_nonneg_right hhalf hpow.le
    linarith
  · intro h
    refine htie (mul_right_cancel₀ hpow.ne' ?_)
    linarith

theorem toRat_div_nonpos (hp : 0 < p) (ha : a.coeff ≤ 0) (hb : 0 < b.coeff) :
    (div p a b).toRat ≤ 0 := by
  rw [toRat_div_eq hp hb, mul_assoc]
  have hsign : (a.coeff.sign : ℚ) ≤ 0 := by
    exact_mod_cast Int.sign_nonpos_iff.mpr ha
  exact mul_nonpos_of_nonpos_of_nonneg hsign (by positivity)

/-! ## Rounding to an integer -/

/-- `d.to_integral_value()`: rounded half-even to an exponent that is not negative. -/
def toIntegralValue (d : Decimal) : Decimal := if 0 ≤ d.exp then d else d.rescale 0

theorem toRat_eq_toIntegralValue_iff (d : Decimal) :
    d.toRat = d.toIntegralValue.toRat ↔ ∃ z : Int, d.toRat = z := by
  rw [toIntegralValue]
  split
  · next h =>
      obtain ⟨k, hk⟩ := Int.eq_ofNat_of_zero_le h
      refine iff_of_true rfl ⟨d.coeff * 10 ^ k, ?_⟩
      rw [toRat, hk, zpow_natCast]
      push_cast
      rfl
  · next h =>
      constructor
      · intro heq
        refine ⟨(d.rescale 0).coeff, ?_⟩
        rw [heq, toRat, rescale_exp, zpow_zero, mul_one]
      rintro ⟨z, hz⟩
      obtain ⟨c, e⟩ := d
      obtain ⟨k, rfl⟩ : ∃ k : Nat, e = -(k : Int) := ⟨(-e).toNat, by
        have : ¬ 0 ≤ e := h
        omega⟩
      have hk : 0 < k := by
        have : ¬ (0 : Int) ≤ -(k : Int) := h
        omega
      have hzero : -(k : Int) + k = 0 := by omega
      -- the coefficient ends in `k` zeros
      have hc : c = 10 ^ k * z := by
        have hz' : (⟨c, -(k : Int)⟩ : Decimal).toRat = (⟨z, -(k : Int) + k⟩ : Decimal).toRat := by
          rw [hz, hzero, toRat, zpow_zero, mul_one]
        rwa [← toRat_mk_mul, toRat_inj] at hz'
      have hr := rescale_of_eq_mul (m := z) (e := -(k : Int)) k hk
      rw [hzero] at hr
      rw [hc, hr, toRat_mk_mul, hzero]

end Decimal

end InterviewPrep.Lib
