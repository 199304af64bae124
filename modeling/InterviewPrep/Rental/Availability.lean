/-
  What an operation of the service can do, once: it is a sequence of effects (`Effects`), each of
  which changes one schedule or one reservation with the status of its vehicle (`perform_does`).
  `Assumed` is what is known of the operations that are called.

  No double booking.  As long as no empty or inverted span is asked of a schedule (`properSpan`),
  its blocks are spaced, and the binary search over their ends finds a conflict exactly when there
  is one.  `schedule_maintenance` does not look at its window: an inverted one breaks the order of
  the ends, and later bookings collide.
-/
import InterviewPrep.Rental.Service

namespace InterviewPrep.Rental

open Lib Dict List Option

/-- What is assumed of the operations. -/
structure Assumed where
  /-- of a span that a schedule is asked for -/
  span : Int → Int → Prop
  starts : Option VehicleStatus → Prop
  made : VehicleStatus → Prop

/-- What happens to a schedule. -/
inductive Rescheduled (A : Assumed) (sched : VehicleSchedule) : VehicleSchedule → Prop
  | purged (now : Int) : Rescheduled A sched (sched.purgeExpired now)
  | blocked (now : Int) (block : Block) (hspan : A.span block.start block.stop)
      (hfree : (sched.purgeExpired now).conflict block.start block.stop = none) :
      Rescheduled A sched ((sched.purgeExpired now).insert block)
  | confirmed (now : Int) (refId : Id) :
      Rescheduled A sched ((sched.purgeExpired now).makePermanent refId)
  | released (refId : Id) : Rescheduled A sched (sched.remove refId)

/-- The quote is the price of the booked hours. -/
def Reservation.Quoted (res : Reservation) : Prop :=
  res.quotedAmount = res.pricing.calculateCost res.vehicle res.durationHours

namespace CarRentalService

inductive Effect (A : Assumed) (s : CarRentalService) : CarRentalService → Prop
  | rescheduled (vehicleId : String) (sched sched' : VehicleSchedule)
      (hsched : s.calendar.schedules.get? vehicleId = some sched)
      (h : Rescheduled A sched sched') :
      Effect A s { s with calendar := s.calendar.put vehicleId sched' }
  | numbered : Effect A s { s with ids := s.ids + 1 }
  | credited (customers : Dict Id Customer) : Effect A s { s with customers := customers }
  | added (vehicle : Vehicle) (status : VehicleStatus)
      (hknown : ∀ known, s.statuses.get? vehicle.object = some known → status = known)
      (hmade : s.statuses.get? vehicle.object = none → A.made status) :
      Effect A s { s with
        vehicles := s.vehicles.set vehicle.vehicleId vehicle
        statuses := s.statuses.set vehicle.object status
        calendar := s.calendar.addVehicle vehicle.vehicleId }
  | reserved (res : Reservation) (hid : res.reservationId = .r s.ids)
      (hpending : res.status = .pending) (hquoted : res.Quoted) :
      Effect A s { s with
        ids := s.ids + 1
        reservations := s.reservations.set res.reservationId res }
  | moved (res : Reservation) (target : ReservationStatus)
      (hres : s.reservations.get? res.reservationId = some res)
      (htarget : target ∈ transitions res.status) (hin : target ≠ .inProgress)
      (hback : target ≠ .completed) :
      Effect A s { s with
        reservations := s.reservations.set res.reservationId { res with status := target } }
  | started (res : Reservation) (hres : s.reservations.get? res.reservationId = some res)
      (hstatus : res.status = .confirmed)
      (hstarts : A.starts (s.statuses.get? res.vehicle.object)) :
      Effect A s { s with
        reservations := s.reservations.set res.reservationId { res with status := .inProgress }
        statuses := s.statuses.set res.vehicle.object .rented }
  | completed (res : Reservation) (hres : s.reservations.get? res.reservationId = some res)
      (hstatus : res.status = .inProgress) (returnedAt : Int) (finalAmount : ℚ) :
      Effect A s { s with
        reservations := (s.reservations.set res.reservationId
          { res with status := .completed }).set res.reservationId
          { res with
            status := .completed
            returnedAt := some returnedAt
            finalAmount := some finalAmount }
        statuses := s.statuses.set res.vehicle.object .available }

/-- The effects of an operation, one after the other. -/
abbrev Effects (A : Assumed) := Relation.ReflTransGen (Effect A)

/-- A reservation is kept under its id. -/
def Keyed (s : CarRentalService) : Prop :=
  ∀ id res, s.reservations.get? id = some res → res.reservationId = id

/-- What an operation asks of `try_block`, if it comes to that. -/
def spanAsked (s : CarRentalService) : RentalOp → Option (Int × Int)
  | .createReservation customerId vehicleId pickup dropoff _ now _ _ =>
    if (s.customers.get? customerId).isSome ∧ (s.vehicles.get? vehicleId).isSome ∧
        now ≤ pickup ∧ minRental ≤ dropoff - pickup then
      some (s.calendar.span .reservation pickup dropoff)
    else none
  | .scheduleMaintenance vehicleId start stop _ =>
    if (s.calendar.schedules.get? vehicleId).isSome then some (start, stop) else none
  | _ => none

/-- The rental that is started, unless its status forbids it. -/
def rentalStarted (s : CarRentalService) : RentalOp → Option Reservation
  | .startRental reservationId =>
    (s.reservations.get? reservationId).filter fun res => res.status = .confirmed
  | _ => none

/-- The status of a vehicle that is new. -/
def statusMade (s : CarRentalService) : RentalOp → Option VehicleStatus
  | .addVehicle vehicle status =>
    if (s.statuses.get? vehicle.object).isNone then some status else none
  | _ => none

/-- The operation is as it is assumed to be. -/
structure Meets (A : Assumed) (s : CarRentalService) (op : RentalOp) : Prop where
  span : ∀ span ∈ s.spanAsked op, A.span span.1 span.2
  starts : ∀ res ∈ s.rentalStarted op, A.starts (s.statuses.get? res.vehicle.object)
  made : ∀ status ∈ s.statusMade op, A.made status

variable {A : Assumed} {s t : CarRentalService} {cal : AvailabilityCalendar}
  {E : RentalError → CarRentalService → Prop}

/-! ## The calendar -/

/-- `x` changes the schedule of the vehicle and nothing else. -/
def Reschedules {α : Type} (A : Assumed) (vehicleId : String) (cal : AvailabilityCalendar)
    (x : AvailabilityCalendar → Option (α × AvailabilityCalendar)) : Prop :=
  ∀ a cal', x cal = some (a, cal') → ∃ sched sched',
    cal.schedules.get? vehicleId = some sched ∧ cal' = cal.put vehicleId sched' ∧
      Rescheduled A sched sched'

theorem tryBlock_reschedules (vehicleId : String) (start stop : Int)
    (kind : BlockKind) (refId : Id) (expiresAt : Option Int) (now : Int)
    (hspan : (cal.schedules.get? vehicleId).isSome →
      A.span (cal.span kind start stop).1 (cal.span kind start stop).2) :
    Reschedules A vehicleId cal fun cal =>
      cal.tryBlock vehicleId start stop kind refId expiresAt now := by
  intro free cal' h
  obtain ⟨sched, hsched, h⟩ := map_eq_some_iff.mp h
  have hproper := hspan (by rw [hsched]; rfl)
  dsimp only at h
  split at h
  next =>
    cases h
    exact ⟨sched, _, hsched, rfl, .purged now⟩
  next hfree =>
    cases h
    rw [Bool.not_eq_true, isSome_eq_false_iff, isNone_iff_eq_none] at hfree
    exact ⟨sched, _, hsched, rfl, .blocked now _ hproper hfree⟩

theorem confirmHold_reschedules (vehicleId : String) (refId : Id) (now : Int) :
    Reschedules A vehicleId cal fun cal => cal.confirmHold vehicleId refId now := by
  intro held cal' h
  obtain ⟨sched, hsched, h⟩ := map_eq_some_iff.mp h
  dsimp only at h
  split at h
  next =>
    cases h
    exact ⟨sched, _, hsched, rfl, .purged now⟩
  next =>
    cases h
    exact ⟨sched, _, hsched, rfl, .confirmed now refId⟩

theorem release_reschedules (vehicleId : String) (refId : Id) :
    Reschedules A vehicleId cal fun cal =>
      (cal.release vehicleId refId).map fun cal => (PUnit.unit, cal) := by
  intro _ cal' h
  obtain ⟨cal'', hrelease, h⟩ := map_eq_some_iff.mp h
  cases h
  obtain ⟨sched, hsched, rfl⟩ := map_eq_some_iff.mp hrelease
  exact ⟨sched, _, hsched, rfl, .released refId⟩

theorem purge_reschedules {α : Type} (vehicleId : String) (now : Int) (f : VehicleSchedule → α) :
    Reschedules A vehicleId cal fun cal => (cal.schedules.get? vehicleId).map fun sched =>
      (f (sched.purgeExpired now), cal.put vehicleId (sched.purgeExpired now)) := by
  intro _ cal' h
  obtain ⟨sched, hsched, h⟩ := map_eq_some_iff.mp h
  cases h
  exact ⟨sched, _, hsched, rfl, .purged now⟩

/-- The same change from any state with the same calendar. -/
def Rescheduling (A : Assumed) (cal cal' : AvailabilityCalendar) : Prop :=
  ∀ s : CarRentalService, s.calendar = cal → Effect A s { s with calendar := cal' }

theorem onCalendar_ends {α : Type} {vehicleId : String}
    {x : AvailabilityCalendar → Option (α × AvailabilityCalendar)} {Q : α → CarRentalService → Prop}
    (hx : Reschedules A vehicleId s.calendar x)
    (hQ : ∀ a cal', Rescheduling A s.calendar cal' → Q a { s with calendar := cal' })
    (hE : ∀ error, E error s) : Ends (onCalendar vehicleId x) Q E s := by
  unfold onCalendar
  rw [ends_bind, ends_get]
  cases hcal : x s.calendar with
  | none => exact hE _
  | some result =>
    obtain ⟨a, cal'⟩ := result
    obtain ⟨sched, sched', hsched, rfl, h⟩ := hx a cal' hcal
    apply hQ
    intro r hr
    rw [← hr]
    exact .rescheduled vehicleId sched sched' (by rw [hr]; exact hsched) h

/-! ## The operations -/

/-- What an operation does, whether it returns or raises. -/
abbrev Does {α : Type} (A : Assumed) (x : RentalM α) (s : CarRentalService) : Prop :=
  Ends x (fun _ t => Effects A s t) (fun _ t => Effects A s t) s

variable {Q : Reservation → CarRentalService → Prop}

theorem getReservation_ends {reservationId : Id} (hkeyed : s.Keyed)
    (hQ : ∀ res, res.reservationId = reservationId →
      s.reservations.get? res.reservationId = some res → Q res s)
    (hE : ∀ error, E error s) : Ends (getReservation reservationId) Q E s := by
  unfold getReservation
  rw [ends_bind, ends_get]
  cases hres : s.reservations.get? reservationId with
  | none => exact hE _
  | some res =>
    have hid := hkeyed reservationId res hres
    exact hQ res hid (by rw [hid]; exact hres)

theorem nextId_ends {kind : Nat → Id} {Q : Id → CarRentalService → Prop} :
    Ends (nextId kind) Q E s ↔ Q (kind s.ids) { s with ids := s.ids + 1 } := Iff.rfl

theorem moveTo_ends {res : Reservation} {target : ReservationStatus}
    {E : RentalError → CarRentalService → Prop}
    (hQ : target ∈ transitions res.status → Q { res with status := target }
      { s with reservations :=
        s.reservations.set res.reservationId { res with status := target } })
    (hE : ∀ error, E error s) : Ends (moveTo res target) Q E s := by
  unfold moveTo
  rw [ends_ite]
  exact ⟨hQ, fun _ => hE _⟩

theorem createReservation_does (customerId : Id) (vehicleId : String) (pickup dropoff : Int)
    (pricing : RentalPricing) (now blocking searching : Int)
    (hmeets : ∀ span ∈ s.spanAsked (.createReservation customerId vehicleId pickup dropoff pricing
      now blocking searching), A.span span.1 span.2) :
    Does A (createReservation customerId vehicleId pickup dropoff pricing now blocking searching)
      s := by
  unfold Does createReservation
  rw [ends_bind, ends_get]
  cases hcustomer : s.customers.get? customerId with
  | none => exact .refl
  | some =>
  cases hvehicle : s.vehicles.get? vehicleId with
  | none => exact .refl
  | some =>
  simp only [ends_ite]
  refine ⟨fun _ => .refl, fun hpast => ⟨fun _ => .refl, fun hshort => ?_⟩⟩
  have hspan := hmeets (s.calendar.span .reservation pickup dropoff) (by
    simp only [spanAsked, hcustomer, hvehicle, isSome_some, true_and]
    rw [if_pos ⟨Int.not_lt.mp hpast, Int.not_lt.mp hshort⟩]
    rfl)
  rw [ends_bind, nextId_ends, ends_bind]
  have hnumbered : Effects A s { s with ids := s.ids + 1 } := .single .numbered
  apply onCalendar_ends (s := { s with ids := s.ids + 1 }) (A := A)
  · exact tryBlock_reschedules _ _ _ _ _ _ _ fun _ => hspan
  · intro free cal' heffect
    rw [ends_ite]
    constructor
    · -- the hold is registered under the number that was drawn before
      intro _
      have hblocked : Effects A s { s with calendar := cal' } := .single (heffect s rfl)
      exact hblocked.tail (.reserved _ rfl rfl rfl)
    intro _
    rw [ends_bind]
    have hrefused := hnumbered.tail (heffect { s with ids := s.ids + 1 } rfl)
    apply onCalendar_ends (A := A)
    · exact purge_reschedules vehicleId searching fun sched =>
        VehicleSchedule.nextGap _ sched.blocks pickup
    · intro next cal'' heffect'
      exact hrefused.tail (heffect' _ rfl)
    · exact fun _ => hrefused
  · exact fun _ => hnumbered

theorem confirmReservation_does (hkeyed : s.Keyed) (reservationId : Id) (now : Int) :
    Does A (confirmReservation reservationId now) s := by
  unfold Does confirmReservation
  rw [ends_bind]
  apply getReservation_ends hkeyed _ fun _ => .refl
  intro res _ hres
  rw [ends_ite]
  refine ⟨fun _ => .refl, fun _ => ?_⟩
  rw [ends_bind]
  apply onCalendar_ends (A := A) (confirmHold_reschedules _ _ _) _ fun _ => .refl
  intro held cal' heffect
  have hchecked : Effects A s { s with calendar := cal' } := .single (heffect s rfl)
  rw [ends_ite]
  constructor
  · intro _
    rw [ends_bind]
    apply moveTo_ends _ fun _ => hchecked
    intro htarget
    exact hchecked.tail (.moved res _ hres htarget (by decide) (by decide))
  · intro _
    rw [ends_bind]
    apply moveTo_ends _ fun _ => hchecked
    intro htarget
    exact hchecked.tail (.moved res _ hres htarget (by decide) (by decide))

theorem cancelReservation_does (hkeyed : s.Keyed) (reservationId : Id) :
    Does A (cancelReservation reservationId) s := by
  unfold Does cancelReservation
  rw [ends_bind]
  apply getReservation_ends hkeyed _ fun _ => .refl
  intro res _ hres
  rw [ends_bind]
  apply moveTo_ends _ fun _ => .refl
  intro htarget
  have hmoved := Relation.ReflTransGen.single
    (Effect.moved (A := A) res _ hres htarget (by decide) (by decide))
  apply onCalendar_ends (A := A) (release_reschedules _ _) _ fun _ => hmoved
  intro _ cal' heffect
  exact hmoved.tail (heffect _ rfl)

theorem expireEach_does (now : Int) (rest : List Reservation)
    (hkeys : (rest.map Reservation.reservationId).Nodup)
    (hrest : ∀ res ∈ rest, s.reservations.get? res.reservationId = some res) :
    Does A (expireEach now rest) s := by
  unfold Does
  induction rest generalizing s with
  | nil => exact .refl
  | cons res _ ih =>
    obtain ⟨hfirst, hkeys⟩ := nodup_cons.mp hkeys
    have hres := hrest res mem_cons_self
    unfold expireEach
    rw [ends_ite]
    constructor
    · intro _
      rw [ends_bind]
      apply moveTo_ends _ fun _ => .refl
      intro htarget
      have hmoved := Relation.ReflTransGen.single
        (Effect.moved (A := A) res _ hres htarget (by decide) (by decide))
      rw [ends_bind]
      apply onCalendar_ends (A := A) (release_reschedules _ _) _ fun _ => hmoved
      intro _ cal' heffect
      have hreleased := hmoved.tail (heffect _ rfl)
      rw [ends_bind]
      apply (ih hkeys _).mono
      · exact fun _ t ht => hreleased.trans ht
      · exact fun _ t ht => hreleased.trans ht
      · intro other hother
        have hne : other.reservationId ≠ res.reservationId := by
          intro heq
          exact hfirst (heq ▸ List.mem_map_of_mem hother)
        rw [get?_set_of_ne _ _ hne]
        exact hrest other (mem_cons_of_mem _ hother)
    · intro _
      exact ih hkeys fun other hother => hrest other (mem_cons_of_mem _ hother)

theorem expireHolds_does (hkeyed : s.Keyed) (now : Int) : Does A (expireHolds now) s := by
  unfold Does expireHolds
  rw [ends_bind, ends_get]
  have hitem : ∀ item ∈ s.reservations.items, item.2.reservationId = item.1 := by
    intro item hitem
    exact hkeyed _ _ (mem_items_iff.mp hitem)
  apply expireEach_does
  · have hkeys : s.reservations.values.map Reservation.reservationId = s.reservations.keys := by
      unfold Dict.values Dict.keys
      rw [List.map_map]
      exact map_congr_left hitem
    rw [hkeys]
    exact s.reservations.keys_nodup
  · intro res hres
    obtain ⟨item, hmem, rfl⟩ := List.mem_map.mp hres
    rw [hitem item hmem]
    exact mem_items_iff.mp hmem

theorem scheduleMaintenance_does (vehicleId : String) (start stop now : Int)
    (hmeets : ∀ span ∈ s.spanAsked (.scheduleMaintenance vehicleId start stop now),
      A.span span.1 span.2) : Does A (scheduleMaintenance vehicleId start stop now) s := by
  unfold Does scheduleMaintenance
  rw [ends_bind, nextId_ends, ends_bind]
  have hnumbered : Effects A s { s with ids := s.ids + 1 } := .single .numbered
  apply onCalendar_ends (s := { s with ids := s.ids + 1 }) (A := A)
  · apply tryBlock_reschedules
    intro hknown
    exact hmeets (start, stop) (by rw [spanAsked, if_pos hknown]; rfl)
  · intro free cal' heffect
    have hblocked := hnumbered.tail (heffect { s with ids := s.ids + 1 } rfl)
    rw [ends_ite]
    exact ⟨fun _ => hblocked, fun _ => hblocked⟩
  · exact fun _ => hnumbered

theorem startRental_does (hkeyed : s.Keyed) (reservationId : Id)
    (hmeets : ∀ res ∈ s.rentalStarted (.startRental reservationId),
      A.starts (s.statuses.get? res.vehicle.object)) : Does A (startRental reservationId) s := by
  unfold Does startRental
  rw [ends_bind]
  apply getReservation_ends hkeyed _ fun _ => .refl
  intro res hid hres
  rw [ends_bind]
  apply moveTo_ends _ fun _ => .refl
  intro htarget
  have hstatus : res.status = .confirmed := by
    revert htarget
    cases res.status <;> decide
  have hstarts := hmeets res (by simp [rentalStarted, ← hid, hres, hstatus])
  exact .single (.started res hres hstatus hstarts)

theorem completeRental_does (hkeyed : s.Keyed) (reservationId : Id) (returnedAt : Option Int)
    (now : Int) : Does A (completeRental reservationId returnedAt now) s := by
  unfold Does completeRental
  rw [ends_bind]
  apply getReservation_ends hkeyed _ fun _ => .refl
  intro res _ hres
  rw [ends_bind]
  apply moveTo_ends _ fun _ => .refl
  intro htarget
  have hstatus : res.status = .inProgress := by
    revert htarget
    cases res.status <;> decide
  simp only [ends_bind, putReservation, setStatus, ends_modify]
  have hcompleted := Relation.ReflTransGen.single
    (Effect.completed (A := A) res hres hstatus (returnedAt.getD now)
      (if res.dropoff + returnGrace < returnedAt.getD now then
        res.pricing.calculateCost res.vehicle
          (billableHours res.pickup (returnedAt.getD now))
      else res.quotedAmount))
  apply onCalendar_ends (A := A) (release_reschedules _ _) _ fun _ => hcompleted
  intro _ cal' heffect
  exact (hcompleted.tail (heffect _ rfl)).tail (.credited _)

theorem perform_does (hkeyed : s.Keyed) (op : RentalOp)
    (hmeets : Meets A s op) : Does A (perform op) s := by
  unfold Does
  cases op with
  | addVehicle _ status =>
    apply Relation.ReflTransGen.single
    apply Effect.added
    · intro known hknown
      rw [hknown]
      rfl
    · intro hnone
      have hmade := hmeets.made status (by rw [statusMade, hnone]; rfl)
      rw [hnone]
      exact hmade
  | registerCustomer =>
    have hnumbered : Effects A s { s with ids := s.ids + 1 } := .single .numbered
    exact hnumbered.tail (.credited _)
  | createReservation customerId vehicleId pickup dropoff pricing now blocking searching =>
    rw [perform, ends_bind]
    exact createReservation_does customerId vehicleId pickup dropoff pricing now blocking
      searching hmeets.span
  | confirmReservation reservationId now =>
    rw [perform, ends_bind]
    exact confirmReservation_does hkeyed reservationId now
  | cancelReservation reservationId =>
    rw [perform, ends_bind]
    exact cancelReservation_does hkeyed reservationId
  | expireHolds now =>
    rw [perform, ends_bind]
    exact expireHolds_does hkeyed now
  | scheduleMaintenance vehicleId start stop now =>
    rw [perform, ends_bind]
    exact scheduleMaintenance_does vehicleId start stop now hmeets.span
  | isAvailable vehicleId _ _ now =>
    rw [perform, ends_bind]
    apply onCalendar_ends (A := A)
    · exact purge_reschedules vehicleId now fun sched => (sched.conflict _ _).isNone
    · intro _ cal' heffect
      exact .single (heffect s rfl)
    · exact fun _ => .refl
  | startRental reservationId =>
    rw [perform, ends_bind]
    exact startRental_does hkeyed reservationId hmeets.starts
  | completeRental reservationId returnedAt now =>
    rw [perform, ends_bind]
    exact completeRental_does hkeyed reservationId returnedAt now

/-- What one call does to the bookings and the blocks. -/
theorem step_effects (hkeyed : s.Keyed) {op : RentalOp} {outcome : Except RentalError Answer}
    (hmeets : Meets A s op) (h : step s op = .ok (outcome, t)) : Effects A s t := by
  have hdoes := perform_does hkeyed op hmeets
  unfold step at h
  cases hperform : perform op s with
  | ok =>
    rw [hperform] at h
    cases h
    have heffects := ends_ok hdoes hperform
    exact heffects
  | error =>
    rw [hperform] at h
    cases h
    have heffects := ends_error hdoes hperform
    exact heffects

end CarRentalService

/-- No span is empty or inverted. -/
abbrev properSpans : Assumed := ⟨fun start stop => start < stop, fun _ => True, fun _ => True⟩

/-! ## One schedule -/

namespace VehicleSchedule

variable {sched sched' : VehicleSchedule}

abbrev SpacedOut (sched : VehicleSchedule) : Prop := Spaced Block.start Block.stop sched.blocks

abbrev liveBlocks (sched : VehicleSchedule) (now : Int) : List Block :=
  (sched.purgeExpired now).blocks

/-- Nothing that is kept overlaps `[start, stop)`. -/
def Free (sched : VehicleSchedule) (start stop : Int) : Prop :=
  ∀ b ∈ sched.blocks, ¬ Overlap b.start b.stop start stop

section

variable (h : sched.SpacedOut)

include h

theorem SpacedOut.purgeExpired (now : Int) : (sched.purgeExpired now).SpacedOut :=
  h.sublist filter_sublist

theorem conflict_eq_none_iff {start stop : Int} (hspan : start < stop) :
    sched.conflict start stop = none ↔ sched.Free start stop := by
  have hsorted : sched.blocks.Pairwise fun x y =>
      decide (start < x.stop) = true → decide (start < y.stop) = true := by
    apply h.stops.imp
    intro x y hxy hx
    simp only [decide_eq_true_eq] at hx ⊢
    omega
  obtain ⟨past, ahead, hblocks, hpast, hahead, hfirst, -⟩ := bisect_split hsorted
  unfold SpacedOut at h
  rw [hblocks] at h
  unfold Free
  rw [conflict, hfirst, hblocks, h.free_iff hspan, filter_eq_none_iff]
  · simp only [decide_eq_true_eq, Int.not_lt, mem_def]
  · intro b hb
    simpa using hpast b hb
  · intro b hb
    simpa using hahead b hb

theorem SpacedOut.insert {block : Block} (hspan : block.start < block.stop)
    (hfree : sched.Free block.start block.stop) : (sched.insert block).SpacedOut := by
  have hsorted : sched.blocks.Pairwise fun x y =>
      decide (block.start < x.start) = true → decide (block.start < y.start) = true := by
    apply h.starts.imp
    intro x y hxy hx
    simp only [decide_eq_true_eq] at hx ⊢
    omega
  obtain ⟨before, after, hblocks, hbefore, hafter, -, hinsert⟩ := bisect_split hsorted
  unfold SpacedOut at h ⊢
  unfold Free at hfree
  rw [VehicleSchedule.insert, hinsert]
  rw [hblocks] at h hfree
  apply h.insert hspan hfree
  · intro b hb
    simpa using hbefore b hb
  · intro b hb
    simpa using hafter b hb

theorem SpacedOut.makePermanent (refId : Id) : (sched.makePermanent refId).SpacedOut := by
  apply h.of_map
  rw [VehicleSchedule.makePermanent]
  apply ext_getElem?
  intro i
  rw [getElem?_map, getElem?_map, getElem?_modify]
  cases sched.blocks[i]? with
  | none => rfl
  | some =>
    -- only the deadline of a hold is taken off
    split <;> rfl

theorem SpacedOut.rescheduled
    (hchange : Rescheduled properSpans sched sched') : sched'.SpacedOut := by
  cases hchange with
  | purged now => exact h.purgeExpired now
  | blocked now _ hspan hfree =>
    have hpurged := h.purgeExpired now
    exact hpurged.insert hspan ((conflict_eq_none_iff hpurged hspan).mp hfree)
  | confirmed now refId => exact (h.purgeExpired now).makePermanent refId
  | released => exact h.sublist filter_sublist

end

/-- `[start, stop)` meets the block, as `conflict` and `next_free_window` compare them. -/
def Meets (b : Block) (start stop : Int) : Prop := b.start < stop ∧ start < b.stop

theorem nextGap_isLeast (length : Int) {bs : List Block} (h : Spaced Block.start Block.stop bs)
    (candidate : Int) : IsLeast {t | candidate ≤ t ∧ ∀ b ∈ bs, ¬ Meets b t (t + length)}
      (nextGap length bs candidate) := by
  induction bs generalizing candidate with
  | nil => exact ⟨⟨le_rfl, nofun⟩, fun t ht => ht.1⟩
  | cons b bs ih =>
    have hrest := fun candidate => ih (h.sublist (sublist_cons_self b bs)) candidate
    rw [nextGap]
    split
    next =>
      obtain ⟨⟨hle, hfree⟩, hleast⟩ := hrest candidate
      refine ⟨⟨hle, forall_mem_cons.mpr ⟨fun hmeets => ?_, hfree⟩⟩, fun t ht => ?_⟩
      · have := hmeets.2
        omega
      · exact hleast ⟨ht.1, (forall_mem_cons.mp ht.2).2⟩
    next =>
    split
    next =>
      -- the blocks behind start later still
      refine ⟨⟨le_rfl, forall_mem_cons.mpr ⟨fun hmeets => ?_, fun b' hb' hmeets => ?_⟩⟩,
        fun t ht => ht.1⟩
      · have := hmeets.1
        omega
      · have := (pairwise_cons.mp h.starts).1 b' hb'
        have := hmeets.1
        omega
    next =>
    obtain ⟨⟨hle, hfree⟩, hleast⟩ := hrest b.stop
    refine ⟨⟨by omega, forall_mem_cons.mpr ⟨fun hmeets => ?_, hfree⟩⟩, fun t ht => ?_⟩
    · have := hmeets.2
      omega
    · obtain ⟨hb, hbs⟩ := forall_mem_cons.mp ht.2
      have hafter : b.stop ≤ t := by
        have hfrom : candidate ≤ t := ht.1
        by_contra hlt
        exact hb ⟨by omega, by omega⟩
      exact hleast ⟨hafter, hbs⟩

end VehicleSchedule

/-- `next_free_window` gives the least start from `pickup` on at which the rental and its turnaround
    meet no live block; for a turnaround that is not negative these are the starts of free
    intervals. -/
theorem nextFreeWindow_isLeast (cal : AvailabilityCalendar) (vehicleId : String)
    {sched : VehicleSchedule} (hsched : cal.schedules.get? vehicleId = some sched)
    (h : sched.SpacedOut) {pickup dropoff : Int} (hspan : pickup < dropoff) (now : Int) :
    ∃ t cal', cal.nextFreeWindow vehicleId pickup dropoff now = some (t, cal') ∧
      IsLeast {t | pickup ≤ t ∧ ∀ b ∈ sched.liveBlocks now,
        ¬ VehicleSchedule.Meets b t (t + (dropoff - pickup + cal.turnaround))} t ∧
      (0 ≤ cal.turnaround → IsLeast {t | pickup ≤ t ∧
        (sched.purgeExpired now).Free t (t + (dropoff - pickup + cal.turnaround))} t) := by
  have hlive := h.purgeExpired now
  have hleast := VehicleSchedule.nextGap_isLeast (dropoff - pickup + cal.turnaround) hlive pickup
  refine ⟨_, _, by rw [AvailabilityCalendar.nextFreeWindow, hsched]; rfl, hleast, fun hturn => ?_⟩
  convert hleast using 3
  refine and_congr_right fun _ => forall₂_congr fun b hb => not_congr ?_
  exact overlap_iff_of_lt (hlive.proper b hb) (by omega)

/-- `nextFreeWindow_isLeast` where the first gap is too short for the turnaround. -/
theorem nextFreeWindow_isLeast_shortGap : ∃ t cal', AvailabilityCalendar.nextFreeWindow
        ⟨1, Dict.empty.set "V1" ⟨[⟨0, 10, .maintenance, .m 1, none⟩,
          ⟨13, 20, .maintenance, .m 2, none⟩]⟩⟩ "V1" 5 8 0 = some (t, cal') ∧
      IsLeast {t | 5 ≤ t ∧ ∀ b ∈ VehicleSchedule.liveBlocks
          ⟨[⟨0, 10, .maintenance, .m 1, none⟩, ⟨13, 20, .maintenance, .m 2, none⟩]⟩ 0,
        ¬ VehicleSchedule.Meets b t (t + (8 - 5 + 1))} t ∧
      ((0 : Int) ≤ 1 → IsLeast {t | 5 ≤ t ∧ (VehicleSchedule.purgeExpired
          ⟨[⟨0, 10, .maintenance, .m 1, none⟩, ⟨13, 20, .maintenance, .m 2, none⟩]⟩ 0).Free
        t (t + (8 - 5 + 1))} t) :=
  nextFreeWindow_isLeast _ "V1" (get?_set_self _ _ _) ⟨by decide, by decide⟩ (by decide) 0

namespace CarRentalService

variable {s t : CarRentalService}

/-- Nothing empty or inverted is asked of a schedule. -/
def properSpan (s : CarRentalService) (op : RentalOp) : Bool :=
  (s.spanAsked op).all fun span => span.1 < span.2

/-- Live blocks of a vehicle never overlap, and `try_block` succeeds exactly when
    the span is free. -/
structure BookedOnce (s : CarRentalService) : Prop where
  disjoint : ∀ vehicleId sched, s.calendar.schedules.get? vehicleId = some sched → ∀ now,
    (sched.liveBlocks now).Pairwise fun a b => ¬ Overlap a.start a.stop b.start b.stop
  tryBlock : ∀ vehicleId sched, s.calendar.schedules.get? vehicleId = some sched →
    ∀ (start stop : Int) (kind : BlockKind) (refId : Id) (expiresAt : Option Int) (now : Int),
      (s.calendar.span kind start stop).1 < (s.calendar.span kind start stop).2 →
      ((∃ cal, s.calendar.tryBlock vehicleId start stop kind refId expiresAt now =
          some (true, cal)) ↔
        ∀ b ∈ sched.liveBlocks now, ¬ Overlap b.start b.stop (s.calendar.span kind start stop).1
          (s.calendar.span kind start stop).2)

/-- Every schedule is spaced out, and reservations are kept under their ids. -/
structure Scheduled (s : CarRentalService) : Prop where
  keyed : s.Keyed
  spaced : ∀ vehicleId sched, s.calendar.schedules.get? vehicleId = some sched → sched.SpacedOut

theorem tryBlock_isSome_iff {cal : AvailabilityCalendar} {vehicleId : String}
    {sched : VehicleSchedule} (hsched : cal.schedules.get? vehicleId = some sched)
    (start stop : Int) (kind : BlockKind) (refId : Id) (expiresAt : Option Int) (now : Int) :
    (∃ cal', cal.tryBlock vehicleId start stop kind refId expiresAt now = some (true, cal')) ↔
      (sched.purgeExpired now).conflict (cal.span kind start stop).1
        (cal.span kind start stop).2 = none := by
  unfold AvailabilityCalendar.tryBlock
  rw [hsched, map_some]
  dsimp only
  split
  next hconflict =>
    constructor
    · rintro ⟨cal', h⟩
      cases h
    · intro hnone
      rw [hnone] at hconflict
      cases hconflict
  next hconflict =>
    rw [Bool.not_eq_true, isSome_eq_false_iff, isNone_iff_eq_none] at hconflict
    exact ⟨fun _ => hconflict, fun _ => ⟨_, rfl⟩⟩

theorem Scheduled.bookedOnce (h : Scheduled s) : BookedOnce s := by
  constructor
  · intro vehicleId sched hsched now
    exact ((h.spaced vehicleId sched hsched).purgeExpired now).disjoint
  · intro vehicleId sched hsched start stop kind refId expiresAt now hspan
    rw [tryBlock_isSome_iff hsched]
    exact VehicleSchedule.conflict_eq_none_iff
      ((h.spaced vehicleId sched hsched).purgeExpired now) hspan

theorem Keyed.set {reservations : Dict Id Reservation}
    (h : ∀ id res, reservations.get? id = some res → res.reservationId = id) (res : Reservation) :
    ∀ id res', (reservations.set res.reservationId res).get? id = some res' →
      res'.reservationId = id := by
  intro id res' hres'
  rcases get?_set_some hres' with ⟨rfl, rfl⟩ | ⟨_, hold⟩
  · rfl
  · exact h id res' hold

theorem Effect.keyed {A : Assumed} (heffect : Effect A s t) (h : s.Keyed) : t.Keyed := by
  cases heffect with
  | reserved res => exact Keyed.set h res
  | moved res target => exact Keyed.set h { res with status := target }
  | started res => exact Keyed.set h { res with status := .inProgress }
  | completed res _ _ returnedAt finalAmount =>
    exact Keyed.set (Keyed.set h { res with status := .completed }) { res with
      status := .completed
      returnedAt := some returnedAt
      finalAmount := some finalAmount }
  | _ => exact h

theorem Effect.scheduled (heffect : Effect properSpans s t) (h : Scheduled s) : Scheduled t := by
  refine ⟨heffect.keyed h.keyed, ?_⟩
  intro vehicleId sched hsched
  cases heffect with
  | rescheduled _ old _ hold hchange =>
    rcases get?_set_some hsched with ⟨rfl, rfl⟩ | ⟨_, hsame⟩
    · exact (h.spaced _ old hold).rescheduled hchange
    · exact h.spaced vehicleId sched hsame
  | added vehicle =>
    change (s.calendar.addVehicle vehicle.vehicleId).schedules.get? vehicleId = some sched at hsched
    rw [AvailabilityCalendar.addVehicle] at hsched
    split at hsched
    · exact h.spaced vehicleId sched hsched
    · rcases get?_set_some hsched with ⟨rfl, rfl⟩ | ⟨_, hsame⟩
      · exact Spaced.nil
      · exact h.spaced vehicleId sched hsame
  | _ => exact h.spaced vehicleId sched hsched

theorem new_scheduled (turnaround : Int) : Scheduled (new turnaround) := by
  constructor
  · intro id res h
    cases h
  · intro vehicleId sched h
    cases h

/-- One call keeps the blocks apart, and a block with each booking. -/
theorem step_scheduled {op : RentalOp} {outcome : Except RentalError Answer} (h : Scheduled s)
    (hspan : s.properSpan op = true) (hstep : step s op = .ok (outcome, t)) : Scheduled t := by
  have hmeets : Meets properSpans s op := by
    refine ⟨?_, fun _ _ => trivial, fun _ _ => trivial⟩
    intro span hasked
    rw [properSpan, mem_def.mp hasked] at hspan
    simpa using hspan
  have heffects := step_effects h.keyed hmeets hstep
  clear hstep
  induction heffects with
  | refl => exact h
  | tail _ heffect ih => exact heffect.scheduled ih

/-- Where no schedule is asked for an empty or inverted span, no vehicle is booked twice. -/
theorem run_bookedOnce (turnaround : Int) (ops : List RentalOp)
    (outcomes : List (Except RentalError Answer)) (t : CarRentalService)
    (hspans : Guarded (fun s op => s.properSpan op = true) step (new turnaround) ops)
    (hrun : runSteps step (new turnaround) ops = .ok (outcomes, t)) : BookedOnce t := by
  apply Scheduled.bookedOnce
  apply runSteps_keeps (fun _ _ s => Scheduled s) _ (new_scheduled turnaround) hspans hrun
  intro _ _ s op outcome s' _ h hspan hstep
  exact step_scheduled h hspan hstep

/-! ## Two runs -/

def sedan : Vehicle := ⟨1, "V1", 10, 60⟩

/-- `book`: a customer asks for the sedan from one hour to another. -/
def bookHours (customer : Nat) (start stop now : Int) : RentalOp :=
  .createReservation (.c customer) "V1" (start * hour) (stop * hour) .hourly now now now

/-- A booking, its confirmation, a maintenance window in between, and a booking that is refused. -/
def bookings : List RentalOp :=
  [.addVehicle sedan .available, .registerCustomer, bookHours 1 10 12 0,
    .confirmReservation (.r 2) second, .scheduleMaintenance "V1" (12 * hour) (13 * hour) second,
    bookHours 1 11 12 (2 * second)]

theorem run_bookedOnce_bookings :
    ∃ outcomes t, runSteps step (new 0) bookings = .ok (outcomes, t) ∧ BookedOnce t ∧
      outcomes.getLast? = some (.error (.vehicleUnavailable "V1" (13 * hour))) := by
  refine exists_run_of_observe (f := fun r => r.1.getLast?)
    (b := some (.error (.vehicleUnavailable "V1" (13 * hour)))) (by decide +kernel)
    fun outcomes t hrun hlast => ?_
  exact ⟨run_bookedOnce 0 bookings outcomes t (by decide +kernel) hrun, hlast⟩

/-- Maintenance from 14:00 to 9:00 is accepted behind a booking, and lets another one overlap it. -/
def invertedWindow : List RentalOp :=
  [.addVehicle sedan .available, .registerCustomer, bookHours 1 10 12 0,
    .scheduleMaintenance "V1" (14 * hour) (9 * hour) second, bookHours 1 11 13 (2 * second)]

/-- Both bookings are live and overlap. -/
theorem invertedWindow_not_bookedOnce :
    ∃ outcomes t, runSteps step (new 0) invertedWindow = .ok (outcomes, t) ∧ ¬ BookedOnce t := by
  refine exists_run_of_observe (f := fun r => r.2.calendar.schedules.get? "V1")
    (b := some ⟨[⟨10 * hour, 12 * hour, .reservation, .r 2, some holdTtl⟩,
      ⟨11 * hour, 13 * hour, .reservation, .r 4, some (2 * second + holdTtl)⟩,
      ⟨14 * hour, 9 * hour, .maintenance, .m 3, none⟩]⟩) (by decide +kernel)
    fun outcomes t hrun hblocks => ?_
  intro h
  have hdisjoint := h.disjoint "V1" _ hblocks (3 * second)
  revert hdisjoint
  decide +kernel

end CarRentalService

end InterviewPrep.Rental
