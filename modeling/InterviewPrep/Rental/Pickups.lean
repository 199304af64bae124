/-
  Who has the car.  As long as a rental is started only when its vehicle is not out (`vehicleIn`),
  a vehicle is out exactly when one reservation of it is in progress (`OneCustomer`).
  `start_rental` does not look: when a customer is late, the next one starts on the same vehicle,
  and the first return marks it available.
-/
import InterviewPrep.Rental.Availability

namespace InterviewPrep.Rental

open Lib Dict Option

/-- A rental that starts finds its vehicle in, and a vehicle that is added is. -/
abbrev vehiclesIn : Assumed :=
  ⟨fun _ _ => True, fun status => status ≠ some .rented, fun status => status = .available⟩

namespace CarRentalService

variable {s t : CarRentalService}

/-- The reservation has the vehicle. -/
def Holds (s : CarRentalService) (id : Id) (object : Nat) : Prop :=
  ∃ res, s.reservations.get? id = some res ∧ res.vehicle.object = object ∧
    res.status = .inProgress

/-- At most one reservation has a vehicle, and the vehicle is out exactly when one has it. -/
structure OneCustomer (s : CarRentalService) : Prop where
  unique : ∀ id id' object, s.Holds id object → s.Holds id' object → id = id'
  rented_iff : ∀ object, s.statuses.get? object = some .rented ↔ ∃ id, s.Holds id object

/-- The condition of `vehiclesIn`, of one operation. -/
def vehicleIn (s : CarRentalService) (op : RentalOp) : Bool :=
  (s.rentalStarted op).all (fun res => s.statuses.get? res.vehicle.object ≠ some .rented) &&
    (s.statusMade op).all fun status => status = .available

/-! ## One effect -/

/-- The numbers of the reservations have been drawn. -/
def Numbered (s : CarRentalService) : Prop :=
  ∀ id res, s.reservations.get? id = some res → ∃ n, id = .r n ∧ n < s.ids

theorem holds_set {id : Id} {res : Reservation}
    (hreservations : t.reservations = s.reservations.set id res) {id' : Id}
    {object : Nat} :
    t.Holds id' object ↔ if id' = id then res.vehicle.object = object ∧ res.status = .inProgress
      else s.Holds id' object := by
  unfold Holds
  rw [hreservations]
  by_cases heq : id' = id
  · subst heq
    simp only [get?_set_self, Option.some.injEq, exists_eq_left', if_true]
  · simp only [get?_set_of_ne _ _ heq, if_neg heq]

theorem OneCustomer.keep (h : OneCustomer s)
    (hholds : ∀ id object, t.Holds id object ↔ s.Holds id object)
    (hstatuses : ∀ object, t.statuses.get? object = some .rented ↔
      s.statuses.get? object = some .rented) : OneCustomer t := by
  constructor
  · intro id id' object hid hid'
    exact h.unique id id' object ((hholds id object).mp hid) ((hholds id' object).mp hid')
  · intro object
    rw [hstatuses, h.rented_iff]
    exact exists_congr fun id => (hholds id object).symm

theorem holds_set_of_not {id : Id} {res : Reservation}
    (hreservations : t.reservations = s.reservations.set id res) (hres : res.status ≠ .inProgress)
    (hold : ∀ old, s.reservations.get? id = some old → old.status ≠ .inProgress) (id' : Id)
    (object : Nat) : t.Holds id' object ↔ s.Holds id' object := by
  rw [holds_set hreservations]
  split
  next heq =>
    subst heq
    constructor
    · rintro ⟨_, hstatus⟩
      exact absurd hstatus hres
    · rintro ⟨old, hget, _, hstatus⟩
      exact absurd hstatus (hold old hget)
  next => exact Iff.rfl

theorem OneCustomer.start (h : OneCustomer s) (id : Id) (res : Reservation)
    (hreservations : t.reservations = s.reservations.set id res)
    (hstatuses : t.statuses = s.statuses.set res.vehicle.object .rented)
    (hres : res.status = .inProgress) (hnone : ∀ id, ¬ s.Holds id res.vehicle.object)
    (hold : ∀ old, s.reservations.get? id = some old → old.status ≠ .inProgress) :
    OneCustomer t := by
  have hnot : ∀ object, ¬ s.Holds id object := by
    rintro object ⟨old, hget, _, hstatus⟩
    exact hold old hget hstatus
  have hholds : ∀ id' object, t.Holds id' object ↔
      (id' = id ∧ res.vehicle.object = object) ∨ s.Holds id' object := by
    intro id' object
    rw [holds_set hreservations]
    split
    next heq => simp [heq, hres, hnot object]
    next hne => simp [hne]
  constructor
  · intro id1 id2 object h1 h2
    rcases (hholds id1 object).mp h1 with ⟨rfl, rfl⟩ | h1
    · rcases (hholds id2 _).mp h2 with ⟨rfl, _⟩ | h2
      · rfl
      · exact absurd h2 (hnone id2)
    · rcases (hholds id2 object).mp h2 with ⟨rfl, rfl⟩ | h2
      · exact absurd h1 (hnone id1)
      · exact h.unique id1 id2 object h1 h2
  intro object
  rw [hstatuses, get?_set]
  split
  next heq => exact ⟨fun _ => ⟨id, (hholds id object).mpr (.inl ⟨rfl, heq.symm⟩)⟩, fun _ => rfl⟩
  next hne =>
    rw [h.rented_iff]
    apply exists_congr
    intro id'
    rw [hholds]
    exact ⟨.inr, fun hor => hor.resolve_left fun hid => hne hid.2.symm⟩

theorem OneCustomer.complete (h : OneCustomer s) (id : Id) (res : Reservation)
    (hreservations : t.reservations = s.reservations.set id res)
    (hstatuses : t.statuses = s.statuses.set res.vehicle.object .available)
    (hres : res.status ≠ .inProgress) (hhad : s.Holds id res.vehicle.object) : OneCustomer t := by
  have hholds : ∀ id' object, t.Holds id' object ↔ id' ≠ id ∧ s.Holds id' object := by
    intro id' object
    rw [holds_set hreservations]
    split
    next heq => simp [heq, hres]
    next hne => simp [hne]
  constructor
  · intro id1 id2 object h1 h2
    exact h.unique id1 id2 object ((hholds _ _).mp h1).2 ((hholds _ _).mp h2).2
  intro object
  rw [hstatuses, get?_set]
  split
  next heq =>
    subst heq
    constructor
    · intro hrented
      cases hrented
    · rintro ⟨id', hid'⟩
      obtain ⟨hne, hid'⟩ := (hholds id' _).mp hid'
      exact absurd (h.unique id' id _ hid' hhad) hne
  next hne =>
  rw [h.rented_iff]
  apply exists_congr
  intro id'
  rw [hholds]
  constructor
  · intro hid'
    refine ⟨?_, hid'⟩
    rintro rfl
    obtain ⟨old, hget, hobject, _⟩ := hhad
    obtain ⟨old', hget', hobject', _⟩ := hid'
    cases hget.symm.trans hget'
    exact hne (hobject'.symm.trans hobject)
  · exact fun hid' => hid'.2

theorem not_inProgress_of_transition {status target : ReservationStatus}
    (h : target ∈ transitions status) (htarget : target ≠ .completed) : status ≠ .inProgress := by
  rintro rfl
  exact htarget (List.mem_singleton.mp h)

theorem Effect.keepsNumbered {A : Assumed} (heffect : Effect A s t) (h : Numbered s) :
    Numbered t := by
  have hset : ∀ id old new, s.reservations.get? id = some old → ∀ id' res,
      (s.reservations.set id new).get? id' = some res → ∃ n, id' = .r n ∧ n < s.ids := by
    intro id old new hold id' res hres
    rcases get?_set_some hres with ⟨rfl, rfl⟩ | ⟨_, hres⟩
    · exact h id' old hold
    · exact h id' res hres
  have hlater : ∀ id res, s.reservations.get? id = some res → ∃ n, id = .r n ∧ n < s.ids + 1 := by
    intro id res hres
    obtain ⟨n, hid, hn⟩ := h id res hres
    exact ⟨n, hid, by omega⟩
  cases heffect with
  | numbered => exact hlater
  | reserved _ hid =>
    intro id' res' hres'
    rcases get?_set_some hres' with ⟨rfl, rfl⟩ | ⟨_, hres'⟩
    · exact ⟨s.ids, hid, Nat.lt_succ_self _⟩
    · exact hlater id' res' hres'
  | moved res _ hres => exact hset _ res _ hres
  | started res hres => exact hset _ res _ hres
  | completed res hres =>
    intro id' res' hres'
    rw [Dict.set_set] at hres'
    exact hset _ res _ hres id' res' hres'
  | _ => exact h

theorem Effect.oneCustomer (heffect : Effect vehiclesIn s t) (hnumbered : Numbered s)
    (h : OneCustomer s) : OneCustomer t := by
  cases heffect with
  | added vehicle status hknown hmade =>
    apply h.keep
    · exact fun _ _ => Iff.rfl
    intro object
    rw [get?_set]
    split
    next heq =>
      subst heq
      cases hget : s.statuses.get? vehicle.object with
      | none =>
        have hin : status = .available := hmade hget
        simp [hin]
      | some known => rw [hknown known hget]
    next => exact Iff.rfl
  | reserved _ hid hpending =>
    apply h.keep
    · apply holds_set_of_not rfl (by simp [hpending])
      intro old hold
      obtain ⟨n, hn, hlt⟩ := hnumbered _ old hold
      rw [hid] at hn
      cases hn
      omega
    · exact fun _ => Iff.rfl
  | moved _ _ hres htarget hin hback =>
    apply h.keep
    · apply holds_set_of_not rfl hin
      intro old hold
      cases hres.symm.trans hold
      exact not_inProgress_of_transition htarget hback
    · exact fun _ => Iff.rfl
  | started res hres hstatus hfree =>
    have hnone : ∀ id, ¬ s.Holds id res.vehicle.object := by
      intro id hid
      exact hfree ((h.rented_iff _).mpr ⟨id, hid⟩)
    apply h.start res.reservationId { res with status := .inProgress } rfl rfl rfl hnone
    intro old hold
    cases hres.symm.trans hold
    rw [hstatus]
    decide
  | completed res hres hstatus returnedAt finalAmount =>
    exact h.complete res.reservationId { res with
        status := .completed
        returnedAt := some returnedAt
        finalAmount := some finalAmount }
      (Dict.set_set _ _ _ _) rfl (by intro heq; cases heq) ⟨res, hres, rfl, hstatus⟩
  | rescheduled | numbered | credited => exact ⟨h.unique, h.rented_iff⟩

/-! ## Runs -/

/-- What holds between operations. -/
structure Handed (s : CarRentalService) : Prop where
  keyed : s.Keyed
  numbered : s.Numbered
  oneCustomer : s.OneCustomer

theorem new_handed (turnaround : Int) : Handed (new turnaround) := by
  refine ⟨(new_scheduled turnaround).keyed, ?_, ?_, ?_⟩
  · rintro id res h
    cases h
  · rintro id id' object ⟨res, h, _⟩
    cases h
  · intro object
    constructor
    · intro h
      cases h
    · rintro ⟨id, res, h, _⟩
      cases h

/-- One call leaves each vehicle that is out with one customer. -/
theorem step_handed {op : RentalOp} {outcome : Except RentalError Answer} (h : Handed s)
    (hin : s.vehicleIn op = true) (hstep : step s op = .ok (outcome, t)) : Handed t := by
  obtain ⟨hstarts, hmade⟩ := Bool.and_eq_true_iff.mp hin
  have hmeets : Meets vehiclesIn s op := by
    refine ⟨fun _ _ => trivial, ?_, ?_⟩
    · intro res hres
      rw [mem_def.mp hres] at hstarts
      simpa using hstarts
    · intro status hstatus
      rw [mem_def.mp hstatus] at hmade
      simpa using hmade
  have heffects := step_effects h.keyed hmeets hstep
  clear hstep
  induction heffects with
  | refl => exact h
  | tail _ heffect ih =>
    exact ⟨heffect.keyed ih.keyed, heffect.keepsNumbered ih.numbered,
      heffect.oneCustomer ih.numbered ih.oneCustomer⟩

/-- Where rentals start only on vehicles that are in, a vehicle is out with one customer at most and
    marked so. -/
theorem run_oneCustomer (turnaround : Int) (ops : List RentalOp)
    (outcomes : List (Except RentalError Answer)) (t : CarRentalService)
    (hin : Guarded (fun s op => s.vehicleIn op = true) step (new turnaround) ops)
    (hrun : runSteps step (new turnaround) ops = .ok (outcomes, t)) : OneCustomer t := by
  apply Handed.oneCustomer
  apply runSteps_keeps (fun _ _ s => Handed s) _ (new_handed turnaround) hin hrun
  intro _ _ s op outcome s' _ h hop hstep
  exact step_handed h hop hstep

/-- Two bookings, one after the other. -/
def twoBookings : List RentalOp :=
  [.addVehicle sedan .available, .registerCustomer, bookHours 1 10 12 0, bookHours 1 13 15 0,
    .confirmReservation (.r 2) second, .confirmReservation (.r 3) second]

/-- The first customer returns the car before the second one gets it. -/
def inTime : List RentalOp :=
  twoBookings ++ [.startRental (.r 2), .completeRental (.r 2) none (12 * hour), .startRental (.r 3)]

theorem run_oneCustomer_inTime :
    ∃ outcomes t, runSteps step (new 0) inTime = .ok (outcomes, t) ∧ OneCustomer t ∧
      t.Holds (.r 3) 1 := by
  refine exists_run_of_observe
    (f := fun r => (r.2.reservations.get? (.r 3)).map fun res => (res.vehicle.object, res.status))
    (b := some (1, .inProgress)) (by decide +kernel) fun outcomes t hrun hres => ?_
  obtain ⟨res, hget, hres⟩ := map_eq_some_iff.mp hres
  obtain ⟨hobject, hstatus⟩ := Prod.mk.inj hres
  exact ⟨run_oneCustomer 0 inTime outcomes t (by decide +kernel) hrun, res, hget,
    hobject, hstatus⟩

/-- The first customer is late, the second one starts all the same. -/
def lateReturn : List RentalOp := twoBookings ++ [.startRental (.r 2), .startRental (.r 3)]

/-- Both reservations have the vehicle. -/
theorem lateReturn_not_oneCustomer :
    ∃ outcomes t, runSteps step (new 0) lateReturn = .ok (outcomes, t) ∧ ¬ OneCustomer t := by
  refine exists_run_of_observe (f := fun r => [Id.r 2, Id.r 3].map fun id =>
      (r.2.reservations.get? id).map fun res => (res.vehicle.object, res.status))
    (b := [some (1, .inProgress), some (1, .inProgress)]) (by decide +kernel)
    fun outcomes t hrun hres => ?_
  intro h
  simp only [List.map_cons, List.map_nil, List.cons.injEq, and_true] at hres
  have hholds : ∀ id, (t.reservations.get? id).map
      (fun res => (res.vehicle.object, res.status)) = some (1, .inProgress) → t.Holds id 1 := by
    intro id hid
    obtain ⟨res, hget, hres⟩ := map_eq_some_iff.mp hid
    obtain ⟨hobject, hstatus⟩ := Prod.mk.inj hres
    exact ⟨res, hget, hobject, hstatus⟩
  have heq := h.unique _ _ 1 (hholds _ hres.1) (hholds _ hres.2)
  cases heq

end CarRentalService

end InterviewPrep.Rental
