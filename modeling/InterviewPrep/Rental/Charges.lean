/-
  What a return costs.  `complete_rental` charges the quote, or prices the whole duration
  again after the grace period.  The prices of the two base strategies grow with the hours;
  a discount of `WeeklyDiscountPricing` is on all of them once there are enough, so a late
  return that reaches a threshold can cost less than one in time.
-/
import InterviewPrep.Rental.Availability

namespace InterviewPrep.Rental

open Lib

/-! ## Prices -/

theorem toMoney_mono {x y : ℚ} (h : x ≤ y) : toMoney x ≤ toMoney y := by
  have hround : ∀ {a b : ℚ}, a ≤ b → (⌊a * 100 + 1 / 2⌋ : ℚ) / 100 ≤ ⌊b * 100 + 1 / 2⌋ / 100 := by
    intro a b hab
    refine div_le_div_of_nonneg_right (Int.cast_le.mpr (Int.floor_le_floor ?_)) (by norm_num)
    linarith
  have hpos : ∀ {a : ℚ}, 0 ≤ a → (0 : ℚ) ≤ ⌊a * 100 + 1 / 2⌋ / 100 := by
    intro a ha
    exact div_nonneg (Int.cast_nonneg (Int.floor_nonneg.mpr (by linarith))) (by norm_num)
  rw [toMoney, toMoney]
  split
  case isTrue hx =>
    rw [if_pos (hx.trans h)]
    exact hround h
  case isFalse =>
    split
    case isTrue hy => exact (neg_nonpos.mpr (hpos (by linarith))).trans (hpos hy)
    case isFalse => exact neg_le_neg (hround (neg_le_neg h))

theorem billableHours_mono (start : Int) {stop stop' : Int} (h : stop ≤ stop') :
    billableHours start stop ≤ billableHours start stop' := by
  have hhour : (0 : ℚ) ≤ (hour : Int) := by norm_num [hour, second]
  refine max_le_max le_rfl (Int.ceil_le_ceil (div_le_div_of_nonneg_right ?_ hhour))
  exact Int.cast_le.mpr (by omega)

/-- Both durations get the same discounts. -/
def SameDiscount (hours hours' : Int) : Prop :=
  (7 * 24 ≤ hours ↔ 7 * 24 ≤ hours') ∧ (30 * 24 ≤ hours ↔ 30 * 24 ≤ hours')

namespace RentalPricing

/-- Some `WeeklyDiscountPricing` is around the base price. -/
def Discounted (pricing : RentalPricing) : Prop := ∃ base, pricing = .weeklyDiscount base

variable {vehicle : Vehicle} {hours hours' : Int}

theorem calculateCost_hourly_mono (hhourly : 0 ≤ vehicle.hourlyRate)
    (hdaily : 0 ≤ vehicle.dailyRate)
    (h : hours ≤ hours') :
    hourly.calculateCost vehicle hours ≤ hourly.calculateCost vehicle hours' := by
  apply toMoney_mono
  have hday : hours / 24 ≤ hours' / 24 := Int.ediv_le_ediv (by norm_num) h
  rcases hday.lt_or_eq with hlt | heq
  · -- a later day costs at least what the cap of the earlier one does
    have hdays : ((hours / 24 : Int) : ℚ) + 1 ≤ (hours' / 24 : Int) := by exact_mod_cast hlt
    have hrest : (0 : ℚ) ≤ vehicle.hourlyRate * (hours' % 24 : Int) :=
      mul_nonneg hhourly (Int.cast_nonneg (Int.emod_nonneg _ (by norm_num)))
    calc _ ≤ vehicle.dailyRate * (hours / 24 : Int) + vehicle.dailyRate :=
          add_le_add_right (min_le_right _ _) _
      _ = vehicle.dailyRate * ((hours / 24 : Int) + 1) := by ring
      _ ≤ vehicle.dailyRate * (hours' / 24 : Int) := mul_le_mul_of_nonneg_left hdays hdaily
      _ ≤ _ := le_add_of_nonneg_right (le_min hrest hdaily)
  · have hrest : hours % 24 ≤ hours' % 24 := by omega
    rw [heq]
    exact add_le_add_right (min_le_min_right _
      (mul_le_mul_of_nonneg_left (Int.cast_le.mpr hrest) hhourly)) _

theorem calculateCost_mono (pricing : RentalPricing) (hhourly : 0 ≤ vehicle.hourlyRate)
    (hdaily : 0 ≤ vehicle.dailyRate) (h : hours ≤ hours')
    (hsame : pricing.Discounted → SameDiscount hours hours') :
    pricing.calculateCost vehicle hours ≤ pricing.calculateCost vehicle hours' := by
  induction pricing with
  | hourly => exact calculateCost_hourly_mono hhourly hdaily h
  | daily =>
    apply toMoney_mono
    refine mul_le_mul_of_nonneg_left (Int.cast_le.mpr (Int.ceil_le_ceil ?_)) hdaily
    exact div_le_div_of_nonneg_right (Int.cast_le.mpr h) (by norm_num)
  | weeklyDiscount base ih =>
    obtain ⟨hweek, hmonth⟩ := hsame ⟨base, rfl⟩
    have hbase := ih fun _ => ⟨hweek, hmonth⟩
    apply toMoney_mono
    simp only [hweek, hmonth]
    split <;> split <;> linarith

end RentalPricing

/-! ## The charge for a rental -/

/-- The hours that a return pays for: the booked ones, unless it is after the grace period. -/
def Reservation.chargedHours (res : Reservation) (returned : Int) : Int :=
  if res.dropoff + CarRentalService.returnGrace < returned then billableHours res.pickup returned
  else res.durationHours

theorem Reservation.durationHours_le (res : Reservation) (returned : Int) :
    res.durationHours ≤ res.chargedHours returned := by
  rw [chargedHours]
  split
  case isTrue hlate =>
    refine billableHours_mono _ ?_
    norm_num [CarRentalService.returnGrace, second] at hlate
    omega
  case isFalse => exact le_rfl

theorem Reservation.chargedHours_mono (res : Reservation) {r r' : Int} (h : r ≤ r') :
    res.chargedHours r ≤ res.chargedHours r' := by
  by_cases hlate : res.dropoff + CarRentalService.returnGrace < r
  · rw [chargedHours, if_pos hlate, chargedHours, if_pos (hlate.trans_le h)]
    exact billableHours_mono _ h
  · rw [chargedHours, if_neg hlate]
    exact res.durationHours_le r'

namespace CarRentalService

variable {s t : CarRentalService}

/-- Nothing is assumed of the operations. -/
abbrev unassumed : Assumed := ⟨fun _ _ => True, fun _ => True, fun _ => True⟩

/-- Every reservation keeps the price of its booked hours as its quote. -/
structure Priced (s : CarRentalService) : Prop where
  keyed : s.Keyed
  quoted : ∀ id res, s.reservations.get? id = some res → res.Quoted

theorem Effect.priced {A : Assumed} (heffect : Effect A s t) (h : s.Priced) : t.Priced := by
  refine ⟨heffect.keyed h.keyed, ?_⟩
  have hset : ∀ {id : Id} {res : Reservation}, res.Quoted →
      ∀ id' res', (s.reservations.set id res).get? id' = some res' → res'.Quoted := by
    intro id res hres id' res' hres'
    rcases Dict.get?_set_some hres' with ⟨-, rfl⟩ | ⟨-, hold⟩
    · exact hres
    · exact h.quoted id' res' hold
  cases heffect with
  | reserved _ _ _ hquoted => exact hset hquoted
  | moved res target hres | started res hres => exact hset (h.quoted _ res hres)
  | completed res hres =>
    simp only [Dict.set_set]
    exact hset (h.quoted _ res hres)
  | _ => exact h.quoted

theorem run_priced (turnaround : Int) (ops : List RentalOp)
    (outcomes : List (Except RentalError Answer))
    (hrun : runSteps step (new turnaround) ops = .ok (outcomes, t)) : Priced t := by
  have hinit : Priced (new turnaround) := by
    constructor
    · intro id res h
      cases h
    · intro id res h
      cases h
  refine runSteps_keeps (fun _ _ s => Priced s) ?_ hinit
    (Guarded.of_forall (C := fun _ _ => True) (fun _ _ => trivial) _ ops) hrun
  intro _ _ s op outcome s' _ h _ hstep
  have hmeets : Meets unassumed s op := ⟨fun _ _ => trivial, fun _ _ => trivial, fun _ _ => trivial⟩
  have heffects := step_effects h.keyed hmeets hstep
  clear hstep
  induction heffects with
  | refl => exact h
  | tail _ heffect ih => exact heffect.priced ih

theorem completeRental_charges (hpriced : s.Priced) {reservationId : Id} {returnedAt : Option Int}
    {now : Int} {charged : ℚ} {res : Reservation}
    (hres : s.reservations.get? reservationId = some res)
    (h : completeRental reservationId returnedAt now s = .ok charged t) :
    charged = res.pricing.calculateCost res.vehicle (res.chargedHours (returnedAt.getD now)) := by
  have hquoted := hpriced.quoted _ res hres
  have hends : Ends (completeRental reservationId returnedAt now) (fun charged _ =>
      charged = res.pricing.calculateCost res.vehicle (res.chargedHours (returnedAt.getD now)))
      (fun _ _ => True) s := by
    unfold completeRental
    rw [ends_bind]
    apply getReservation_ends hpriced.keyed _ fun _ => trivial
    intro res' hid hres'
    rw [hid, hres] at hres'
    cases hres'
    rw [ends_bind]
    apply moveTo_ends _ fun _ => trivial
    intro _
    simp only [ends_bind, putReservation, setStatus, ends_modify]
    apply onCalendar_ends (A := unassumed) (release_reschedules _ _) _ fun _ => trivial
    intro _ cal' _
    show (if _ then _ else res.quotedAmount) = _
    rw [hquoted, Reservation.chargedHours]
    split <;> rfl
  have hcharged := ends_ok hends h
  exact hcharged

/-- The sedan is out for a week but one hour. -/
def rental (pricing : RentalPricing) : List RentalOp :=
  [.addVehicle sedan .available, .registerCustomer,
    .createReservation (.c 1) "V1" (10 * hour) (177 * hour) pricing 0 0 0,
    .confirmReservation (.r 2) second, .startRental (.r 2)]

/-- What is charged for a return at an hour. -/
def charge (s : CarRentalService) (returned : Int) : Option ℚ :=
  match completeRental (.r 2) (some (returned * hour)) 0 s with
  | .ok charged _ => some charged
  | .error _ _ => none

theorem charge_eq_some {returned : Int} {charged : ℚ} (h : s.charge returned = some charged) :
    ∃ t, completeRental (.r 2) (some (returned * hour)) 0 s = .ok charged t := by
  unfold charge at h
  split at h
  next t hok =>
    cases h
    exact ⟨t, hok⟩
  · cases h

end CarRentalService

end InterviewPrep.Rental
