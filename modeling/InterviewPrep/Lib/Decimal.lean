/-
  Finite decimal numbers in a context of `p` significant digits: a coefficient and an exponent,
  operations that compute the exact result and round it half-even to `p` digits (`fix`), and
  `quantize`, which refuses a result that needs more.  Signed zeros and the bounds on the exponent
  are left out.

  A result that fits the context is exact (`add_of_lt`, `toRat_fix_of_dvd`), and a sum of
  non-negative terms that has left the context stays at or above its first overflowing power of
  ten (`sum_exact_or_ge`).
-/
import Mathlib.Algebra.Order.Field.Power
import Mathlib.Data.Nat.Log
import Mathlib.Tactic.FieldSimp
import Mathlib.Tactic.Linarith
import Mathlib.Tactic.Positivity
import Mathlib.Tactic.Ring

namespace InterviewPrep.Lib

open List

/-- The number `coeff * 10 ^ exp`. -/
structure Decimal where
  coeff : Int
  exp : Int
deriving DecidableEq

namespace Decimal

/-! ## Values -/

/-- The exact value. -/
def toRat (d : Decimal) : ℚ := d.coeff * 10 ^ d.exp

def ofInt (n : Int) : Decimal := ⟨n, 0⟩

/-- The integer part, truncated toward zero: `int(d)`. -/
def truncate (d : Decimal) : Int :=
  if 0 ≤ d.exp then d.coeff * 10 ^ d.exp.toNat else d.coeff.tdiv (10 ^ (-d.exp).toNat)

@[simp] theorem toRat_mk_zero (e : Int) : (⟨0, e⟩ : Decimal).toRat = 0 := by
  simp [toRat]

variable {d : Decimal} {a b e c : Int}

theorem toRat_eq_zero_iff : d.toRat = 0 ↔ d.coeff = 0 := by
  have h : (10 : ℚ) ^ d.exp ≠ 0 := by positivity
  rw [toRat, mul_eq_zero, or_iff_left h, Int.cast_eq_zero]

theorem toRat_nonneg_iff : 0 ≤ d.toRat ↔ 0 ≤ d.coeff := by
  have h : (0 : ℚ) < 10 ^ d.exp := by positivity
  rw [toRat, mul_nonneg_iff_of_pos_right h, Int.cast_nonneg_iff]

theorem toRat_lt_zero_iff : d.toRat < 0 ↔ d.coeff < 0 := by
  rw [← not_le, toRat_nonneg_iff, not_le]

theorem toRat_pos_iff : 0 < d.toRat ↔ 0 < d.coeff := by
  have h : (0 : ℚ) < 10 ^ d.exp := by positivity
  rw [toRat, mul_pos_iff_of_pos_right h, Int.cast_pos]

theorem toRat_inj : (⟨a, e⟩ : Decimal).toRat = (⟨b, e⟩ : Decimal).toRat ↔ a = b := by
  have h : (10 : ℚ) ^ e ≠ 0 := by positivity
  rw [toRat, toRat, mul_left_inj' h, Int.cast_inj]

theorem toRat_le_iff : (⟨a, e⟩ : Decimal).toRat ≤ (⟨b, e⟩ : Decimal).toRat ↔ a ≤ b := by
  have h : (0 : ℚ) < 10 ^ e := by positivity
  rw [toRat, toRat, mul_le_mul_iff_left₀ h, Int.cast_le]

theorem truncate_of_toRat {z : Int} (h : d.toRat = z) : d.truncate = z := by
  rw [truncate]
  rw [toRat] at h
  by_cases he : 0 ≤ d.exp
  · rw [if_pos he]
    have hk : d.exp = (d.exp.toNat : Int) := (Int.toNat_of_nonneg he).symm
    rw [hk, zpow_natCast] at h
    exact_mod_cast h
  · rw [if_neg he]
    have hk : d.exp = -((-d.exp).toNat : Int) := by omega
    have h10 : (10 : ℚ) ^ (-d.exp).toNat ≠ 0 := by positivity
    rw [hk, zpow_neg, zpow_natCast, ← div_eq_mul_inv, div_eq_iff h10] at h
    have hc : d.coeff = z * 10 ^ (-d.exp).toNat := by exact_mod_cast h
    rw [hc, Int.mul_tdiv_cancel _ (by positivity)]

/-! ## Rounding to an exponent -/

/-- `n / d` rounded to the nearest integer, ties to the even one. -/
def roundHalfEven (n d : Nat) : Nat :=
  if 2 * (n % d) < d ∨ (2 * (n % d) = d ∧ n / d % 2 = 0) then n / d else n / d + 1

theorem div_le_roundHalfEven (n d : Nat) : n / d ≤ roundHalfEven n d := by
  rw [roundHalfEven]
  split <;> omega

theorem roundHalfEven_le (n d : Nat) : roundHalfEven n d ≤ n / d + 1 := by
  rw [roundHalfEven]
  split <;> omega

theorem roundHalfEven_mul_left {m d : Nat} (hd : 0 < d) : roundHalfEven (d * m) d = m := by
  rw [roundHalfEven, Nat.mul_mod_right, Nat.mul_div_cancel_left m hd, if_pos]
  exact Or.inl (by omega)

/-- The number with exponent `e`, rounded half-even when digits are dropped. -/
def rescale (d : Decimal) (e : Int) : Decimal :=
  if e ≤ d.exp then ⟨d.coeff * 10 ^ (d.exp - e).toNat, e⟩
  else ⟨d.coeff.sign * roundHalfEven d.coeff.natAbs (10 ^ (e - d.exp).toNat), e⟩

@[simp] theorem rescale_exp (d : Decimal) (e : Int) : (d.rescale e).exp = e := by
  rw [rescale]
  split <;> rfl

theorem rescale_self (d : Decimal) : d.rescale d.exp = d := by
  rw [rescale, if_pos le_rfl, sub_self, Int.toNat_zero, pow_zero, mul_one]

theorem toRat_rescale_of_le (h : e ≤ d.exp) : (d.rescale e).toRat = d.toRat := by
  have hk : d.exp = (d.exp - e).toNat + e := by omega
  rw [rescale, if_pos h, toRat, toRat]
  push_cast
  rw [mul_assoc, ← zpow_natCast, ← zpow_add₀ (by norm_num : (10 : ℚ) ≠ 0), ← hk]

theorem rescale_of_eq_mul {m : Int} (k : Nat) (hk : 0 < k) :
    (⟨10 ^ k * m, e⟩ : Decimal).rescale (e + k) = ⟨m, e + k⟩ := by
  have hle : ¬ (e + k ≤ e) := by omega
  have hsub : (e + k - e).toNat = k := by omega
  have h10 : ((10 : Int) ^ k).natAbs = 10 ^ k := by rw [Int.natAbs_pow]; rfl
  simp only [rescale, if_neg hle, hsub]
  rw [Int.natAbs_mul, h10, roundHalfEven_mul_left (by positivity), Int.sign_mul,
    Int.sign_eq_one_of_pos (by positivity), one_mul, Int.sign_mul_natAbs]

/-! ## The context -/

/-- The number of decimal digits of `n`; zero has one. -/
def digits (n : Nat) : Nat := Nat.log 10 n + 1

theorem lt_digits_of_pow_le {n p : Nat} (h : 10 ^ p ≤ n) : p < digits n := by
  have hn : n ≠ 0 := by
    have h10 : 0 < 10 ^ p := by positivity
    omega
  have hp : p ≤ Nat.log 10 n := (Nat.le_log_iff_pow_le (by norm_num) hn).mpr h
  rw [digits]
  omega

theorem lt_pow_digits (n : Nat) : n < 10 ^ digits n :=
  Nat.lt_pow_succ_log_self (by norm_num) n

theorem pow_digits_pred_le {n : Nat} (h : n ≠ 0) : 10 ^ (digits n - 1) ≤ n := by
  rw [digits, Nat.add_sub_cancel]
  exact Nat.pow_log_le_self 10 h

variable (p : Nat)

/-- Round to `p` significant digits; a carry out of the rounding drops one more digit. -/
def fix (d : Decimal) : Decimal :=
  if d.coeff.natAbs < 10 ^ p then d
  else
    let r := d.rescale (d.exp + (digits d.coeff.natAbs - p : Nat))
    if r.coeff.natAbs < 10 ^ p then r else r.rescale (r.exp + 1)

/-- The sum of two numbers, exact before the rounding. -/
def add (a b : Decimal) : Decimal :=
  let e := min a.exp b.exp
  fix p ⟨(a.rescale e).coeff + (b.rescale e).coeff, e⟩

/-- The product of two numbers, exact before the rounding. -/
def mul (a b : Decimal) : Decimal := fix p ⟨a.coeff * b.coeff, a.exp + b.exp⟩

/-- `-d`. -/
def neg (d : Decimal) : Decimal := fix p ⟨-d.coeff, d.exp⟩

/-- `sum(ds)`: the numbers added to the integer 0, one after the other. -/
def sum (ds : List Decimal) : Decimal := ds.foldl (add p) (ofInt 0)

/-- The number with exponent `e`; refused when it needs more than `p` digits. -/
def quantize (d : Decimal) (e : Int) : Option Decimal :=
  let r := d.rescale e
  if r.coeff.natAbs < 10 ^ p then some r else none

/-- The number times `10 ^ k`. -/
def scaleb (d : Decimal) (k : Int) : Decimal := fix p ⟨d.coeff, d.exp + k⟩

variable {p}

theorem fix_of_lt (h : d.coeff.natAbs < 10 ^ p) : fix p d = d := by
  rw [fix, if_pos h]

theorem quantize_of_lt (h : d.coeff.natAbs < 10 ^ p) : quantize p d d.exp = some d := by
  simp only [quantize, rescale_self, if_pos h]

theorem quantize_some {q : Decimal} (h : quantize p d e = some q) :
    q.exp = e ∧ q.coeff.natAbs < 10 ^ p := by
  simp only [quantize] at h
  split at h
  · next hlt =>
      cases h
      exact ⟨rescale_exp d e, hlt⟩
  · cases h

theorem add_of_lt (h : (a + b).natAbs < 10 ^ p) : add p ⟨a, e⟩ ⟨b, e⟩ = ⟨a + b, e⟩ := by
  have ha : (⟨a, e⟩ : Decimal).rescale e = ⟨a, e⟩ := rescale_self ⟨a, e⟩
  have hb : (⟨b, e⟩ : Decimal).rescale e = ⟨b, e⟩ := rescale_self ⟨b, e⟩
  simp only [add, min_self, ha, hb]
  exact fix_of_lt h

theorem toRat_mk_mul (k : Nat) (m e : Int) :
    (⟨10 ^ k * m, e⟩ : Decimal).toRat = (⟨m, e + k⟩ : Decimal).toRat := by
  have h10 : (10 : ℚ) ≠ 0 := by norm_num
  rw [toRat, toRat]
  push_cast
  rw [zpow_add₀ h10, zpow_natCast]
  ring

theorem toRat_fix_of_mul (j : Nat) (e : Int) (h : c.natAbs < 10 ^ p) :
    (fix p ⟨10 ^ j * c, e⟩).toRat = (⟨10 ^ j * c, e⟩ : Decimal).toRat := by
  by_cases hfit : (10 ^ j * c).natAbs < 10 ^ p
  · rw [fix_of_lt hfit]
  have hbig : 10 ^ p ≤ (10 ^ j * c).natAbs := Nat.le_of_not_lt hfit
  have habs : (10 ^ j * c).natAbs = 10 ^ j * c.natAbs := by
    rw [Int.natAbs_mul, Int.natAbs_pow]
    rfl
  -- between one and `j` of the trailing zeros are dropped
  obtain ⟨k, hk⟩ := Nat.exists_eq_add_of_lt (lt_digits_of_pow_le hbig)
  have hkj : k + 1 ≤ j := by
    have hlt : 10 ^ (digits (10 ^ j * c).natAbs - 1) < 10 ^ (j + p) := by
      calc 10 ^ (digits (10 ^ j * c).natAbs - 1)
          ≤ (10 ^ j * c).natAbs := pow_digits_pred_le (by
            have h10 : 0 < 10 ^ p := by positivity
            omega)
        _ = 10 ^ j * c.natAbs := habs
        _ < 10 ^ j * 10 ^ p := Nat.mul_lt_mul_of_pos_left h (by positivity)
        _ = 10 ^ (j + p) := (pow_add 10 j p).symm
    have hexp := (Nat.pow_lt_pow_iff_right (by norm_num : 1 < 10)).mp hlt
    omega
  obtain ⟨i, rfl⟩ := Nat.exists_eq_add_of_le hkj
  have hsplit : (10 : Int) ^ (k + 1 + i) * c = 10 ^ (k + 1) * (10 ^ i * c) := by
    rw [pow_add, mul_assoc]
  have hm : (10 ^ i * c : Int).natAbs < 10 ^ p := by
    have hlt := lt_pow_digits (10 ^ (k + 1 + i) * c).natAbs
    rw [hk, hsplit, Int.natAbs_mul, Int.natAbs_pow, show p + k + 1 = (k + 1) + p by omega,
      pow_add 10 (k + 1) p] at hlt
    exact Nat.lt_of_mul_lt_mul_left hlt
  have hdrop : digits (10 ^ (k + 1 + i) * c).natAbs - p = k + 1 := by omega
  have hfix : fix p ⟨10 ^ (k + 1 + i) * c, e⟩ = ⟨10 ^ i * c, e + (k + 1 : Nat)⟩ := by
    have hr := rescale_of_eq_mul (m := 10 ^ i * c) (e := e) (k + 1) (Nat.succ_pos k)
    rw [fix, if_neg hfit]
    simp only [hdrop]
    rw [hsplit, hr, if_pos hm]
  rw [hfix, hsplit, toRat_mk_mul (k + 1) (10 ^ i * c)]

/-! ## Results that leave the context -/

theorem exp_le_fix (d : Decimal) : d.exp ≤ (fix p d).exp := by
  rw [fix]
  split
  · exact le_rfl
  · simp only
    split
    · rw [rescale_exp]
      omega
    · rw [rescale_exp, rescale_exp]
      omega

theorem toRat_rescale_ge {k q : Nat} (h : 0 ≤ d.coeff) (hk : 0 < k)
    (hq : q * 10 ^ k ≤ d.coeff.natAbs) :
    (⟨q, d.exp + k⟩ : Decimal).toRat ≤ (d.rescale (d.exp + k)).toRat := by
  have hle : ¬ (d.exp + k ≤ d.exp) := by omega
  have hsub : (d.exp + k - d.exp).toNat = k := by omega
  have hround : q ≤ roundHalfEven d.coeff.natAbs (10 ^ k) :=
    ((Nat.le_div_iff_mul_le (by positivity)).mpr hq).trans (div_le_roundHalfEven _ _)
  rw [rescale, if_neg hle, hsub, toRat_le_iff]
  rcases h.lt_or_eq with hpos | hzero
  · rw [Int.sign_eq_one_of_pos hpos, one_mul]
    exact_mod_cast hround
  · have hq0 : q = 0 := by
      rw [← hzero, Int.natAbs_zero, Nat.le_zero, mul_eq_zero] at hq
      exact hq.resolve_right (by positivity)
    rw [hq0, ← hzero, Int.sign_zero, zero_mul]
    exact le_rfl

theorem toRat_fix_ge (hp : 0 < p) (h : (10 : Int) ^ p ≤ d.coeff) :
    (⟨10 ^ p, d.exp⟩ : Decimal).toRat ≤ (fix p d).toRat := by
  have h0 : 0 ≤ d.coeff := le_trans (by positivity) h
  have hbig : 10 ^ p ≤ d.coeff.natAbs := by
    zify
    rwa [abs_of_nonneg h0]
  obtain ⟨k, hk⟩ := Nat.exists_eq_add_of_lt (lt_digits_of_pow_le hbig)
  have hdrop : digits d.coeff.natAbs - p = k + 1 := by omega
  have hne : d.coeff.natAbs ≠ 0 := by
    have h10 : 0 < 10 ^ p := by positivity
    omega
  have hpow : ∀ i : Nat, 10 ^ (p - 1) * 10 ^ (i + 1) = 10 ^ (p + i) := fun i => by
    rw [← pow_add]
    congr 1
    omega
  have hquot : 10 ^ (p - 1) * 10 ^ (k + 1) ≤ d.coeff.natAbs := by
    have hle := pow_digits_pred_le hne
    rw [hk, Nat.add_sub_cancel] at hle
    rwa [hpow]
  -- the leading digit survives, so the value keeps its magnitude
  have hlift : ∀ (i : Nat) (e : Int), (⟨10 ^ p, e⟩ : Decimal).toRat
      ≤ (⟨(10 ^ (p - 1) : Nat), e + (i + 1 : Nat)⟩ : Decimal).toRat := fun i e => by
    rw [← toRat_mk_mul, toRat_le_iff]
    have hle : 10 ^ p ≤ 10 ^ (p + i) := Nat.pow_le_pow_right (by norm_num) (by omega)
    rw [← hpow i, mul_comm] at hle
    exact_mod_cast hle
  have hr := toRat_rescale_ge h0 (Nat.succ_pos k) hquot
  rw [fix, if_neg (Nat.not_lt.mpr hbig)]
  simp only [hdrop]
  split
  · exact (hlift k d.exp).trans hr
  · next hcarry =>
      have hr0 : 0 ≤ (d.rescale (d.exp + (k + 1 : Nat))).coeff := by
        rw [← toRat_nonneg_iff]
        exact le_trans (toRat_nonneg_iff.mpr (by positivity)) hr
      have hq : 10 ^ (p - 1) * 10 ^ 1 ≤ (d.rescale (d.exp + (k + 1 : Nat))).coeff.natAbs := by
        rw [hpow 0]
        exact Nat.not_lt.mp hcarry
      have hr' := toRat_rescale_ge hr0 Nat.one_pos hq
      have hexp : (⟨10 ^ p, d.exp⟩ : Decimal).toRat
          ≤ (⟨10 ^ p, d.exp + (k + 1 : Nat)⟩ : Decimal).toRat := by
        rw [← toRat_mk_mul, toRat_le_iff]
        exact le_mul_of_one_le_left (by positivity) (one_le_pow₀ (by norm_num))
      have hlast := hlift 0 (d.exp + (k + 1 : Nat))
      rw [rescale_exp] at hr' ⊢
      exact (hexp.trans hlast).trans hr'

theorem toRat_add_ge {a b : Decimal} (hp : 0 < p) (hab : b.exp ≤ a.exp)
    (h : (10 : Int) ^ p ≤ (a.rescale b.exp).coeff + b.coeff) :
    (⟨10 ^ p, b.exp⟩ : Decimal).toRat ≤ (add p a b).toRat := by
  simp only [add, min_eq_right hab, rescale_self]
  exact toRat_fix_ge hp h

theorem exp_le_add {a b : Decimal} (hab : b.exp ≤ a.exp) : b.exp ≤ (add p a b).exp := by
  simp only [add, min_eq_right hab, rescale_self]
  exact exp_le_fix _

/-- A running sum of `cs`, exact or beyond the context for good. -/
def SumReaches (p : Nat) (e : Int) (acc : Decimal) (total : Int) : Prop :=
  e ≤ acc.exp ∧
    ((acc.toRat = (⟨total, e⟩ : Decimal).toRat ∧ total < 10 ^ p) ∨
      ((⟨10 ^ p, e⟩ : Decimal).toRat ≤ acc.toRat ∧ 10 ^ p ≤ total))

theorem coeff_rescale_of_toRat (he : e ≤ d.exp) (h : d.toRat = (⟨c, e⟩ : Decimal).toRat) :
    (d.rescale e).coeff = c := by
  have hr : (⟨(d.rescale e).coeff, e⟩ : Decimal) = d.rescale e := by
    rw [Decimal.mk.injEq, rescale_exp]
    exact ⟨rfl, rfl⟩
  rw [← toRat_inj (e := e), hr, toRat_rescale_of_le he, h]

theorem SumReaches.add {total : Int} {acc : Decimal} (hp : 0 < p) (h : SumReaches p e acc total)
    (ht : 0 ≤ total) (hc : 0 ≤ c) : SumReaches p e (Decimal.add p acc ⟨c, e⟩) (total + c) := by
  obtain ⟨he, hval⟩ := h
  refine ⟨exp_le_add (b := ⟨c, e⟩) he, ?_⟩
  have hr : (⟨(acc.rescale e).coeff, e⟩ : Decimal) = acc.rescale e := by
    rw [Decimal.mk.injEq, rescale_exp]
    exact ⟨rfl, rfl⟩
  rcases hval with ⟨hexact, hlt⟩ | ⟨hge, hle⟩
  · have hcoeff := coeff_rescale_of_toRat he hexact
    by_cases hfit : total + c < 10 ^ p
    · left
      have habs : (total + c).natAbs < 10 ^ p := by
        zify
        rwa [abs_of_nonneg (by omega)]
      have hself : ((⟨c, e⟩ : Decimal).rescale e).coeff = c :=
        congrArg coeff (rescale_self ⟨c, e⟩)
      refine ⟨?_, hfit⟩
      simp only [Decimal.add, min_eq_right he, hcoeff, hself]
      rw [fix_of_lt habs]
    · right
      refine ⟨toRat_add_ge (b := ⟨c, e⟩) hp he ?_, not_lt.mp hfit⟩
      rw [hcoeff]
      exact not_lt.mp hfit
  · right
    refine ⟨toRat_add_ge (b := ⟨c, e⟩) hp he ?_, by omega⟩
    rw [← toRat_rescale_of_le he, ← hr, toRat_le_iff] at hge
    show (10 : Int) ^ p ≤ (acc.rescale e).coeff + c
    omega

/-- The sum of non-negative numbers of one exponent: exact while it fits, else at least `10 ^ p`
    units. -/
theorem sum_reaches (hp : 0 < p) (he : e ≤ 0) {cs : List Int} (hcs : ∀ c ∈ cs, 0 ≤ c) :
    SumReaches p e (sum p (cs.map fun c => ⟨c, e⟩)) cs.sum := by
  have hgen : ∀ (cs : List Int) (acc : Decimal) (total : Int), (∀ c ∈ cs, 0 ≤ c) → 0 ≤ total →
      SumReaches p e acc total →
      SumReaches p e ((cs.map fun c => (⟨c, e⟩ : Decimal)).foldl (Decimal.add p) acc)
        (total + cs.sum) := by
    intro cs
    induction cs with
    | nil => intro acc total _ _ h; simpa using h
    | cons c _ ih =>
      intro acc total hcs ht h
      rw [map_cons, foldl_cons, sum_cons, ← add_assoc]
      have hc := hcs c (mem_cons_self ..)
      exact ih _ _ (fun x hx => hcs x (mem_cons_of_mem _ hx)) (by omega)
        (h.add hp ht hc)
  have hinit : SumReaches p e (ofInt 0) 0 :=
    ⟨he, Or.inl ⟨by rw [ofInt, toRat_mk_zero, toRat_mk_zero], by positivity⟩⟩
  have h := hgen cs (ofInt 0) 0 hcs le_rfl hinit
  rwa [zero_add] at h

/-- A sum of non-negative numbers equals a number of the context exactly when the
    coefficients do. -/
theorem sum_toRat_eq_iff (hp : 0 < p) (he : e ≤ 0) (ha : a < 10 ^ p) {cs : List Int}
    (hcs : ∀ c ∈ cs, 0 ≤ c) :
    (sum p (cs.map fun c => ⟨c, e⟩)).toRat = (⟨a, e⟩ : Decimal).toRat ↔ cs.sum = a := by
  rcases (sum_reaches hp he hcs).2 with ⟨hexact, -⟩ | ⟨hge, hle⟩
  · rw [hexact, toRat_inj]
  · constructor
    · intro h
      rw [h, toRat_le_iff] at hge
      omega
    · omega

/-! ## Text -/

/-- `str(d)`: plain, or scientific when the exponent is positive or the leading digit far behind. -/
def toString (d : Decimal) : String :=
  let sign := if d.coeff < 0 then "-" else ""
  let int := d.coeff.natAbs.repr
  let leftdigits := d.exp + int.length
  let dotplace := if d.exp ≤ 0 ∧ leftdigits > -6 then leftdigits else 1
  let body :=
    if dotplace ≤ 0 then "0." ++ String.ofList (List.replicate (-dotplace).toNat '0') ++ int
    else if int.length ≤ dotplace then
      int ++ String.ofList (List.replicate (dotplace - int.length).toNat '0')
    else (int.take dotplace.toNat).toString ++ "." ++ (int.drop dotplace.toNat).toString
  let e := leftdigits - dotplace
  let exponent := if e = 0 then "" else if e < 0 then s!"E{e}" else s!"E+{e}"
  sign ++ body ++ exponent

instance : ToString Decimal := ⟨toString⟩

end Decimal

/-! ## Special values -/

/-- What a decimal literal can denote. -/
inductive Number where
  | finite (d : Decimal)
  | infinity (negative : Bool)
  | nan

namespace Number

/-- `x < 0`; comparing a NaN is an invalid operation (`none`). -/
def isNegative : Number → Option Bool
  | finite d => some (decide (d.toRat < 0))
  | infinity negative => some negative
  | nan => none

/-- `x + y`; adding opposite infinities is an invalid operation (`none`). -/
def add (p : Nat) : Number → Number → Option Number
  | nan, _ => some nan
  | _, nan => some nan
  | infinity s, infinity t => if s = t then some (infinity s) else none
  | infinity s, finite _ => some (infinity s)
  | finite _, infinity t => some (infinity t)
  | finite a, finite b => some (finite (Decimal.add p a b))

/-- `sum(xs)`. -/
def sum (p : Nat) (xs : List Number) : Option Number :=
  xs.foldlM (add p) (finite (Decimal.ofInt 0))

/-- `x == n` for an integer `n`. -/
def eqInt : Number → Int → Bool
  | finite d, n => d.toRat = n
  | _, _ => false

def toString : Number → String
  | finite d => d.toString
  | infinity negative => if negative then "-Infinity" else "Infinity"
  | nan => "NaN"

instance : ToString Number := ⟨toString⟩

end Number

end InterviewPrep.Lib
