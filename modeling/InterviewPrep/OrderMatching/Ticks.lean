/-
  The price boundary of order_matching_engine.py: `Instrument` with the Decimal it holds, and its
  conversions `to_ticks` and `to_price`, which round to the context's 28 significant digits.  The
  book never reads its tick size, so `OrderBook.Instrument` keeps the exact value alone.  Decimals
  are finite and their exponents unbounded.

  `to_ticks` tests the rounded quotient, so the conversion is exact only under a condition on the
  two numbers, which `toTicks_exact_iff` states.
-/
import InterviewPrep.Lib.Quotients

namespace InterviewPrep.OrderMatching.Ticks

open Lib
open Lib.Decimal

/-! ## Instruments -/

/-- The precision of the default decimal context. -/
def prec : Nat := 28

/-- What a caller passes for a price or a tick size: a finite Decimal, or another object. -/
inductive Argument where
  | decimal (d : Decimal)
  | other (typeName : String)

inductive TickError where
  | typeError (message : String)
  | orderError (message : String)
deriving DecidableEq

structure Instrument where
  symbol : String
  tickSize : Decimal
  tickSize_pos : 0 < tickSize.toRat

namespace Instrument

/-- `Instrument(symbol, tick_size)`, with the check of `__post_init__`. -/
def postInit (symbol : String) : Argument → Except TickError Instrument
  | .other _ => .error (.orderError "tick_size must be a positive Decimal")
  | .decimal tickSize =>
    if h : tickSize.toRat ≤ 0 then .error (.orderError "tick_size must be a positive Decimal")
    else .ok ⟨symbol, tickSize, not_le.mp h⟩

def toTicks (i : Instrument) : Argument → Except TickError Int
  | .other typeName => .error (.typeError s!"price must be Decimal, got {typeName}")
  | .decimal price =>
    let ticks := div prec price i.tickSize
    if ticks.toRat ≠ ticks.toIntegralValue.toRat then
      .error (.orderError s!"{price} is not a multiple of tick size {i.tickSize}")
    else if ticks.toRat ≤ 0 then .error (.orderError "price must be positive")
    else .ok ticks.truncate

def toPrice (i : Instrument) (ticks : Int) : Decimal := mul prec i.tickSize (ofInt ticks)

/-! ## One conversion -/

theorem coeff_tickSize_pos (i : Instrument) : 0 < i.tickSize.coeff :=
  toRat_pos_iff.mp i.tickSize_pos

variable {i : Instrument} {price : Decimal}

theorem toTicks_eq_ok_iff {k : Int} :
    i.toTicks (.decimal price) = .ok k ↔ 1 ≤ k ∧ (div prec price i.tickSize).toRat = k := by
  unfold toTicks
  simp only
  generalize div prec price i.tickSize = ticks
  have hint := toRat_eq_toIntegralValue_iff ticks
  by_cases hz : ticks.toRat = ticks.toIntegralValue.toRat
  · obtain ⟨z, hz'⟩ := hint.mp hz
    rw [if_neg (not_not.mpr hz), truncate_of_toRat hz', hz']
    by_cases hpos : (z : ℚ) ≤ 0
    · have hle : z ≤ 0 := by exact_mod_cast hpos
      rw [if_pos hpos]
      refine iff_of_false (fun h => (by cases h)) ?_
      rintro ⟨hk, hzk⟩
      have : z = k := by exact_mod_cast hzk
      omega
    · have hlt : 0 < z := by exact_mod_cast not_le.mp hpos
      rw [if_neg hpos, Except.ok.injEq, Int.cast_inj]
      constructor
      · rintro rfl
        exact ⟨hlt, rfl⟩
      · exact And.right
  · rw [if_pos hz]
    refine iff_of_false (fun h => (by cases h)) ?_
    rintro ⟨-, hk⟩
    exact hz (hint.mpr ⟨k, hk⟩)

theorem toTicks_refuses (h : ∀ k, i.toTicks (.decimal price) ≠ .ok k) :
    ∃ message, i.toTicks (.decimal price) = .error (.orderError message) := by
  unfold toTicks at h ⊢
  simp only at h ⊢
  split
  · exact ⟨_, rfl⟩
  · next hz =>
      split
      · exact ⟨_, rfl⟩
      · next hpos =>
          rw [if_neg hz, if_neg hpos] at h
          exact absurd rfl (h _)

theorem toRat_toPrice_eq_iff (i : Instrument) (k : Int) :
    (i.toPrice k).toRat = k * i.tickSize.toRat ↔ Fits prec (k * i.tickSize.toRat) := by
  have hval : (⟨i.tickSize.coeff * k, i.tickSize.exp + 0⟩ : Decimal).toRat
      = k * i.tickSize.toRat := by
    rw [toRat, toRat, add_zero]
    push_cast
    ring
  have h := toRat_fix_eq_iff (by decide : 0 < prec) ⟨i.tickSize.coeff * k, i.tickSize.exp + 0⟩
  rw [hval] at h
  exact h

/-! ## Exact conversion -/

theorem toTicks_nonpos (h : price.toRat ≤ 0) (k : Int) : i.toTicks (.decimal price) ≠ .ok k := by
  rw [Ne, toTicks_eq_ok_iff]
  rintro ⟨hk, hval⟩
  have hcoeff : price.coeff ≤ 0 := by
    have := toRat_pos_iff.not.mp (not_lt.mpr h)
    omega
  have hle := toRat_div_nonpos (by decide : 0 < prec) hcoeff i.coeff_tickSize_pos
  rw [hval] at hle
  have : k ≤ 0 := by exact_mod_cast hle
  omega

theorem quotient_rounds (i : Instrument) (h : 0 < price.toRat) :
    Rounds prec (price.toRat / i.tickSize.toRat) (div prec price i.tickSize).toRat :=
  div_rounds (by decide) (toRat_pos_iff.mp h) i.coeff_tickSize_pos

/-- The conversion returns `k` exactly when the price is `k` ticks and refuses every other price,
    and `toPrice` returns to the price. -/
def ExactAt (i : Instrument) (price : Decimal) : Prop :=
  (∀ k : Int, i.toTicks (.decimal price) = .ok k ↔
    1 ≤ k ∧ price.toRat = k * i.tickSize.toRat) ∧
  ((¬ ∃ k : Int, 1 ≤ k ∧ price.toRat = k * i.tickSize.toRat) →
    ∃ message, i.toTicks (.decimal price) = .error (.orderError message)) ∧
  ∀ k : Int, i.toTicks (.decimal price) = .ok k → (i.toPrice k).toRat = price.toRat

theorem exactAt_of_no_multiple (h : ¬ ∃ k : Int, 1 ≤ k ∧ price.toRat = k * i.tickSize.toRat) :
    i.ExactAt price ↔ ∀ k, i.toTicks (.decimal price) ≠ .ok k := by
  constructor
  · rintro ⟨hiff, -, -⟩ k hk
    exact h ⟨k, (hiff k).mp hk⟩
  · intro hnone
    refine ⟨fun k => iff_of_false (hnone k) fun hk => h ⟨k, hk⟩, fun _ => toTicks_refuses hnone, ?_⟩
    intro k hk
    exact absurd hk (hnone k)

theorem exactAt_of_multiple {k : Int} (hk : 1 ≤ k) (h : price.toRat = k * i.tickSize.toRat) :
    i.ExactAt price ↔ Fits prec k ∧ Fits prec price.toRat := by
  have htick := i.tickSize_pos
  have hkq : (0 : ℚ) < k := by exact_mod_cast hk
  have hpos : 0 < price.toRat := by
    rw [h]
    exact mul_pos hkq htick
  have hquot : price.toRat / i.tickSize.toRat = k := by
    rw [h, mul_div_cancel_right₀ _ htick.ne']
  have hrounds := i.quotient_rounds hpos
  have hexact := hrounds.eq_iff (by decide) (by rwa [hquot])
  rw [hquot] at hexact
  have hprice := i.toRat_toPrice_eq_iff k
  rw [← h] at hprice
  constructor
  · rintro ⟨hiff, -, hback⟩
    have hok := (hiff k).mpr ⟨hk, h⟩
    exact ⟨hexact.mp (toTicks_eq_ok_iff.mp hok).2, hprice.mp (hback k hok)⟩
  rintro ⟨hfits, hfits'⟩
  have hdiv := hexact.mpr hfits
  have hcancel : ∀ j : Int, (div prec price i.tickSize).toRat = j ↔
      price.toRat = j * i.tickSize.toRat := fun j => by
    rw [hdiv, h, mul_left_inj' htick.ne']
  refine ⟨fun j => ?_, fun hno => absurd ⟨k, hk, h⟩ hno, fun j hj => ?_⟩
  · rw [toTicks_eq_ok_iff, hcancel j]
  · have hjk := (toTicks_eq_ok_iff.mp hj).2
    rw [hdiv, Int.cast_inj] at hjk
    rw [← hjk]
    exact hprice.mpr hfits'

/-- The conversion is exact at a price exactly when the price is not positive, or is `k` ticks with
    `k` and the price of at most 28 significant digits, or its quotient by the tick size lies
    further than half a unit of its 28th digit from every integer. -/
theorem toTicks_exact_iff (i : Instrument) (price : Decimal) : i.ExactAt price ↔ price.toRat ≤ 0 ∨
      (∃ k : Int, price.toRat = k * i.tickSize.toRat ∧ Fits prec k ∧ Fits prec price.toRat) ∨
      ∀ z : Int, unit prec (price.toRat / i.tickSize.toRat) / 2
        < |price.toRat / i.tickSize.toRat - z| := by
  have htick := i.tickSize_pos
  by_cases hpos : price.toRat ≤ 0
  · refine iff_of_true ?_ (Or.inl hpos)
    refine (exactAt_of_no_multiple ?_).mpr (toTicks_nonpos hpos)
    rintro ⟨k, hk, hval⟩
    have : (0 : ℚ) < k * i.tickSize.toRat := mul_pos (by exact_mod_cast hk) htick
    linarith
  rw [or_iff_right hpos]
  replace hpos := not_le.mp hpos
  have hq : 0 < price.toRat / i.tickSize.toRat := div_pos hpos htick
  by_cases hmul : ∃ k : Int, price.toRat = k * i.tickSize.toRat
  · obtain ⟨k, hk⟩ := hmul
    have hquot : price.toRat / i.tickSize.toRat = k := by
      rw [hk, mul_div_cancel_right₀ _ htick.ne']
    have hk1 : 1 ≤ k := by
      rw [hquot] at hq
      exact_mod_cast hq
    have hnear : ¬ ∀ z : Int, unit prec (price.toRat / i.tickSize.toRat) / 2
        < |price.toRat / i.tickSize.toRat - z| := by
      intro hfar
      have := hfar k
      rw [hquot, sub_self, abs_zero] at this
      have hu : 0 < unit prec (k : ℚ) := unit_pos
      linarith
    rw [exactAt_of_multiple hk1 hk, or_iff_left hnear]
    constructor
    · exact fun hfits => ⟨k, hk, hfits⟩
    · rintro ⟨j, hj, hfits⟩
      have hjk : k = j := by
        rw [hk, mul_left_inj' htick.ne'] at hj
        exact_mod_cast hj
      rwa [hjk]
  have hno : ¬ ∃ k : Int, 1 ≤ k ∧ price.toRat = k * i.tickSize.toRat :=
    fun ⟨k, _, hk⟩ => hmul ⟨k, hk⟩
  have hsecond : ¬ ∃ k : Int, price.toRat = k * i.tickSize.toRat ∧ Fits prec k ∧
      Fits prec price.toRat := fun ⟨k, hk, _⟩ => hmul ⟨k, hk⟩
  have hrounds := i.quotient_rounds hpos
  rw [exactAt_of_no_multiple hno, or_iff_right hsecond]
  constructor
  · intro hnone z
    by_contra hnear
    obtain ⟨k, hk⟩ := hrounds.isInt_iff.mpr ⟨z, not_lt.mp hnear⟩
    have hk1 : 1 ≤ k := by
      have := hrounds.pos (by decide) hq
      rw [hk] at this
      exact_mod_cast this
    exact hnone k (toTicks_eq_ok_iff.mpr ⟨hk1, hk⟩)
  · intro hfar k hk
    obtain ⟨z, hz⟩ := hrounds.isInt_iff.mp ⟨k, (toTicks_eq_ok_iff.mp hk).2⟩
    exact absurd hz (not_le.mpr (hfar z))

/-- A price off the tick grid in its 32nd digit is accepted. -/
theorem toTicks_accepts_off_grid :
    let i : Instrument := ⟨"AAPL", ⟨1, -2⟩, toRat_pos_iff.mpr Int.one_pos⟩
    let price : Decimal := ⟨10125000000000000000000000000001, -29⟩
    i.toTicks (.decimal price) = .ok 10125 ∧ price.toRat ≠ 10125 * i.tickSize.toRat ∧
      ¬ i.ExactAt price := by
  intro i price
  have hok : i.toTicks (.decimal price) = .ok 10125 := by decide +kernel
  have hoff : price.toRat ≠ 10125 * i.tickSize.toRat := by decide +kernel
  refine ⟨hok, hoff, ?_⟩
  rintro ⟨hiff, -, -⟩
  exact hoff (by exact_mod_cast ((hiff 10125).mp hok).2)

end Instrument

example : (Instrument.postInit "AAPL" (.decimal ⟨1, -2⟩)).bind
    (fun i => i.toTicks (.decimal ⟨10125, -2⟩)) = .ok 10125 := by decide +kernel

end InterviewPrep.OrderMatching.Ticks
