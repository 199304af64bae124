/-
  Who owns a driver, and who has reserved a rider.  A driver is owned by the thread that has
  claimed it or by a trip, and its status says so (`drivers`); a rider is reserved by the thread
  that serves its request or by a trip, and its entry says so (`seats`).

  One driver, one trip (`run_assigned`).  A trip whose call has still to write the status of the
  driver counts as it was before, and one whose decline has freed the old driver as with the new
  one (`seen`); in every state the statuses of the drivers are then those of the trips and of the
  claims in progress.
-/
import InterviewPrep.CabBooking.Locks

namespace InterviewPrep.CabBooking

open Lib Dict Function List Option

inductive Owner where
  | thread (t : Nat)
  | trip (tripId : Nat)
  deriving DecidableEq

namespace CabBookingService

variable {s s' : CabBookingService} {t tripId : Nat} {c next : Option Call} {trip trip' : Trip}
  {face : Face}

/-! ## What threads and trips hold -/

theorem faceAt_free (hholder : trip.holder = none) : s.faceAt trip = Face.none := by
  rw [faceAt, hholder]
  rfl

theorem faceAt_mine (hcall : s.calls.get? t = c) (hholder : trip.holder = some t) :
    s.faceAt trip = faceOf c := by
  rw [faceAt, hholder, bind_some, hcall]

theorem Locked.faceAt_other (h : s.Locked) (hcall : s.calls.get? t = c)
    (hcalls : s'.calls = s.calls.put t next) (htrip : s.trips.get? tripId = some trip)
    (hother : (faceOf c).trip ≠ some tripId) : s'.faceAt trip = s.faceAt trip := by
  rw [faceAt, faceAt]
  cases hholder : trip.holder with
  | none => rfl
  | some t' =>
    rw [bind_some, bind_some, hcalls, Dict.get?_put, if_neg ?_]
    rintro rfl
    obtain ⟨c0, hc0, hid⟩ := h.holder tripId trip t' htrip hholder
    rw [← hcall, hc0] at hother
    exact hother hid

section

variable {κ : Type*} {f : Face → Option κ} {g : Nat → Trip → Face → Option κ}

/-- What a face gives to its thread, and a trip with the face of its call to the trip. -/
def hold (f : Face → Option κ) (g : Nat → Trip → Face → Option κ) (s : CabBookingService) :
    Owner → Option κ
  | .thread t => f (faceOf (s.calls.get? t))
  | .trip tripId => (s.trips.get? tripId).bind fun trip => g tripId trip (s.faceAt trip)

theorem hold_thread (hcall : s.calls.get? t = c) : hold f g s (.thread t) = f (faceOf c) := by
  rw [hold, hcall]

theorem hold_trip (htrip : s.trips.get? tripId = some trip) :
    hold f g s (.trip tripId) = g tripId trip (s.faceAt trip) := by
  rw [hold, htrip, bind_some]

theorem hold_thread_put (hcalls : s'.calls = s.calls.put t next) (t' : Nat) :
    hold f g s' (.thread t') =
      Function.update (hold f g s) (.thread t) (f (faceOf next)) (.thread t') := by
  rw [hold, hcalls, Dict.get?_put, apply_ite faceOf, apply_ite f]
  simp only [update_apply, Owner.thread.injEq]
  rfl

theorem Locked.hold_keep (h : s.Locked) (hcall : s.calls.get? t = c)
    (hcalls : s'.calls = s.calls.put t next) (htrips : s'.trips = s.trips)
    (hsame : ∀ id trip, g id trip (faceOf next) = g id trip (faceOf c)) :
    hold f g s' = Function.update (hold f g s) (.thread t) (f (faceOf next)) := by
  funext w
  cases w with
  | thread t' => exact hold_thread_put hcalls t'
  | trip id =>
  rw [update_of_ne (by rintro ⟨⟩), hold, hold, htrips]
  cases htrip : s.trips.get? id with
  | none => rfl
  | some trip =>
    rw [bind_some, bind_some]
    by_cases hmine : (faceOf c).trip = some id
    · obtain ⟨call, rfl, hid⟩ := call_of_face hmine
      obtain ⟨hholder, -⟩ := h.trip_of hcall hid htrip
      have hcall' : s'.calls.get? t = next := by rw [hcalls, Dict.get?_put, if_pos rfl]
      rw [faceAt_mine hcall hholder, faceAt_mine hcall' hholder, hsame]
    · rw [h.faceAt_other hcall hcalls htrip hmine]

theorem Locked.hold_set (h : s.Locked) (hcall : s.calls.get? t = c)
    (hcalls : s'.calls = s.calls.put t next) (htrips : s'.trips = s.trips.set tripId trip')
    (honly : ∀ id, (faceOf c).trip = some id → id = tripId) : hold f g s' = Function.update
      (Function.update (hold f g s) (.thread t) (f (faceOf next))) (.trip tripId)
      (g tripId trip' (s'.faceAt trip')) := by
  funext w
  cases w with
  | thread =>
    rw [hold_thread_put hcalls]
    symm
    exact update_of_ne (by rintro ⟨⟩) _ _
  | trip id =>
  by_cases hid : id = tripId
  · subst hid
    rw [update_self, hold_trip (by rw [htrips, get?_set_self])]
  rw [update_of_ne fun heq => hid (Owner.trip.inj heq),
    update_of_ne (by rintro ⟨⟩), hold, hold, htrips, get?_set_of_ne _ _ hid]
  cases htrip : s.trips.get? id with
  | none => rfl
  | some =>
    rw [bind_some, bind_some,
      h.faceAt_other hcall hcalls htrip fun hmine => hid (honly id hmine)]

theorem Locked.hold_keep_same (h : s.Locked) (hcall : s.calls.get? t = c)
    (hcalls : s'.calls = s.calls.put t next) (htrips : s'.trips = s.trips)
    (hthread : f (faceOf next) = f (faceOf c))
    (hsame : ∀ id trip, g id trip (faceOf next) = g id trip (faceOf c)) :
    hold f g s' = hold f g s := by
  have hbefore : hold f g s (.thread t) = f (faceOf c) := hold_thread hcall
  rw [h.hold_keep hcall hcalls htrips hsame, hthread, ← hbefore, update_eq_self]

theorem Locked.hold_set_same (h : s.Locked) (hcall : s.calls.get? t = c)
    (hcalls : s'.calls = s.calls.put t next) (htrips : s'.trips = s.trips.set tripId trip')
    (honly : ∀ id, (faceOf c).trip = some id → id = tripId)
    (htrip : s.trips.get? tripId = some trip) (hthread : f (faceOf next) = f (faceOf c))
    (hsame : g tripId trip' (s'.faceAt trip') = g tripId trip (s.faceAt trip)) :
    hold f g s' = hold f g s := by
  have hbefore : hold f g s (.thread t) = f (faceOf c) := hold_thread hcall
  have hheld : hold f g s (.trip tripId) = g tripId trip (s.faceAt trip) := hold_trip htrip
  rw [h.hold_set hcall hcalls htrips honly, hthread, hsame, ← hbefore, ← hheld,
    update_eq_self, update_eq_self]

end

/-! ## Drivers -/

/-- A status that any call may claim or switch. -/
def Free (status : CabStatus) : Prop := status = .available ∨ status = .offline

instance : DecidablePred Free := fun _ => inferInstanceAs (Decidable (_ ∨ _))

/-- The status of a driver; one that is not known counts as offline. -/
def statusOf (s : CabBookingService) (driverId : String) : CabStatus :=
  ((s.drivers.get? driverId).map Driver.status).getD .offline

/-- The driver that a trip holds, with the status that was written for it last. -/
def tripDriver (_ : Nat) (trip : Trip) (face : Face) : Option (String × CabStatus) :=
  (face.before.getD trip.status).carries.map (face.offered.getD trip.driverId, ·)

/-- Who holds which driver. -/
def driving (s : CabBookingService) : Owner → Option (String × CabStatus) :=
  hold (fun face => face.driver.map (·, CabStatus.booked)) tripDriver s

theorem statusOf_set {driverId : String} {d : Driver}
    (hdrivers : s'.drivers = s.drivers.set driverId d) :
    s'.statusOf = Function.update s.statusOf driverId d.status := by
  funext id
  rw [statusOf, hdrivers, get?_set, update_apply]
  split <;> rfl

theorem statusOf_eq (h : s'.drivers = s.drivers) : s'.statusOf = s.statusOf := by
  funext id
  rw [statusOf, h]
  rfl

theorem statusOf_force {driverId : String} {status : CabStatus}
    (hheld : ¬ Free (s.statusOf driverId))
    (hdrivers : s'.drivers = (s.forceStatus driverId status).drivers) :
    s'.statusOf = Function.update s.statusOf driverId status := by
  cases hd : s.drivers.get? driverId with
  | none =>
    rw [statusOf, hd] at hheld
    exact absurd (.inr rfl) hheld
  | some =>
    rw [forceStatus, hd] at hdrivers
    exact statusOf_set hdrivers

theorem tripDriver_unlock (id : Nat) (hopen : trip.status.isTerminal = false) :
    tripDriver id trip Face.none = some (trip.driverId, trip.status.writes) := by
  rw [tripDriver, TripStatus.writes]
  cases hstatus : trip.status <;> rw [hstatus] at hopen <;> first | rfl | cases hopen

section

variable {status : TripStatus}

theorem writes_not_free (hopen : status.isTerminal = false) : ¬ Free status.writes := by
  cases status <;> first | decide | cases hopen

theorem writes_terminal (h : status.isTerminal = true) : status.writes = .available := by
  cases status <;> first | rfl | cases h

theorem tripDriver_before (id : Nat) {before : TripStatus} (hbefore : face.before = some before)
    (hoffered : face.offered = none) (hopen : before.isTerminal = false) :
    tripDriver id trip face = some (trip.driverId, before.writes) := by
  rw [tripDriver, hbefore, hoffered, TripStatus.writes]
  cases before <;> first | rfl | cases hopen

theorem faceAt_put (hcalls : s'.calls = s.calls.put t next) (hholder : trip.holder = some t) :
    s'.faceAt trip = faceOf next :=
  faceAt_mine (by rw [hcalls, Dict.get?_put, if_pos rfl]) hholder

theorem only_trip {call : Call} (hcall : call.face.trip = some tripId) (id : Nat)
    (hid : (faceOf (some call)).trip = some id) : id = tripId := by
  rw [faceOf, elim_some, hcall] at hid
  exact (some.inj hid).symm

theorem tripDriver_ended (id : Nat) (hended : trip.status.isTerminal = true)
    (hbefore : face.before = none) : tripDriver id trip face = none := by
  rw [tripDriver, hbefore, getD_none, carries_eq_none.mpr hended]
  rfl

theorem tripDriver_offered (id : Nat) (hstatus : trip.status = .requested)
    (hbefore : face.before = none) :
    tripDriver id trip face = some (face.offered.getD trip.driverId, .booked) := by
  rw [tripDriver, hbefore, getD_none, hstatus]
  rfl

/-- A turn keeps each driver that is held with its one holder, under the status given to it. -/
theorem Locked.drivers_step (h : s.Locked) (hdrivers : Stamped s.driving s.statusOf Free)
    (hturn : Turn s s' t next) : Stamped s'.driving s'.statusOf Free := by
  obtain ⟨c, hcall⟩ : ∃ c, s.calls.get? t = c := ⟨_, rfl⟩
  have hcalls := hturn.calls
  have heffect := hcall ▸ hturn.effect
  have hthread : s.driving (.thread t) = (faceOf c).driver.map (·, CabStatus.booked) :=
    hold_thread hcall
  have hidle : s.driving (.thread t) = none →
      Function.update s.driving (.thread t) none = s.driving := by
    intro hnone
    rw [← hnone, update_eq_self]
  -- the drivers that are held do not change, nor a status
  have hsame : s'.driving = s.driving → s'.drivers = s.drivers →
      Stamped s'.driving s'.statusOf Free := by
    intro hdriving hstatus
    rw [hdriving, statusOf_eq hstatus]
    exact hdrivers
  have hheld : ∀ {owner id status}, s.driving owner = some (id, status) →
      ¬ Free (s.statusOf id) := by
    intro owner id status hload
    obtain ⟨heq, hnot⟩ := hdrivers.stamp _ _ _ hload
    rw [heq]
    exact hnot
  cases heffect with
  | quiet hface _ htrips hstatus =>
    exact hsame (h.hold_keep_same hcall hcalls htrips (by rw [hface]) fun _ _ => by rw [hface])
      hstatus
  | reserved _ htrips hstatus | dropped htrips hstatus =>
    exact hsame (h.hold_keep_same hcall hcalls htrips rfl fun _ _ => rfl) hstatus
  | @claimed purpose search driverId _ _ _ hd hfound htrips hstatus =>
    have hdriver : (faceOf (some (claimed purpose search.cabType driverId))).driver =
        some driverId := by
      cases purpose <;> rfl
    have hnone : s.driving (.thread t) = none := by
      rw [hthread]
      cases purpose <;> rfl
    rw [driving, h.hold_keep hcall hcalls htrips fun _ _ => by cases purpose <;> rfl, hdriver,
      statusOf_set hstatus]
    have hbooked : ¬ Free CabStatus.booked := by decide
    refine hdrivers.take hnone (.inl ?_) hbooked
    rw [statusOf, hd]
    exact hfound
  | @booked _ driverId _ _ htrips hstatus =>
    have hload : s.driving (.thread t) = some (driverId, .booked) := hthread
    have hnone : s.driving (.trip s.nextTrip) = none := by
      rw [driving, hold, h.new_trip]
      rfl
    have hdriving : s'.driving = passOn s.driving (.thread t) (.trip s.nextTrip) := by
      rw [driving, h.hold_set hcall hcalls htrips (by rintro _ ⟨⟩), faceAt_free rfl, passOn, hload]
      rfl
    rw [hdriving, statusOf_eq hstatus]
    exact hdrivers.passOn hload hnone
  | @moved _ trip target htrip hholder _ hcarries htrips hstatus =>
    refine hsame (h.hold_set_same hcall hcalls htrips (by rintro _ ⟨⟩) htrip rfl ?_) hstatus
    have hface : s'.faceAt { trip with status := target } = Face.none := faceAt_free hholder
    rw [hface, faceAt_free hholder]
    show target.carries.map _ = trip.status.carries.map _
    rw [hcarries]
  | @taken _ _ _ _ _ htrip hholder _ htrips hstatus =>
    obtain ⟨rfl, hnone⟩ | ⟨⟨search, rfl⟩, hsome⟩ := hholder
    · refine hsame (h.hold_set_same hcall hcalls htrips (by rintro _ ⟨⟩) htrip rfl ?_) hstatus
      rw [faceAt_put hcalls rfl, faceAt_free hnone]
      rfl
    · refine hsame (h.hold_set_same hcall hcalls htrips (only_trip rfl) htrip rfl ?_) hstatus
      rw [faceAt_put hcalls rfl, faceAt_mine hcall hsome]
      rfl
  | @declining _ _ _ htrip hholder _ _ _ htrips hstatus =>
    refine hsame (h.hold_set_same hcall hcalls htrips (by rintro _ ⟨⟩) htrip rfl ?_) hstatus
    rw [faceAt_put hcalls rfl, faceAt_free hholder]
    rfl
  | @written tripId trip before status htrip hopen htrips hstatus =>
    obtain ⟨hholder, hbefore, rfl⟩ := h.trip_of hcall rfl htrip
    have hload : s.driving (.trip tripId) = some (trip.driverId, before.writes) := by
      rw [driving, hold_trip htrip, faceAt_mine hcall hholder]
      exact tripDriver_before tripId rfl rfl hbefore
    have hdriving : s'.driving = Function.update s.driving (.trip tripId)
        (some (trip.driverId, trip.status.writes)) := by
      rw [driving, h.hold_set hcall hcalls htrips (only_trip rfl), faceAt_free rfl]
      show Function.update (Function.update s.driving (.thread t) none) _ _ = _
      rw [hidle hthread]
      exact congrArg _ (tripDriver_unlock tripId hopen)
    rw [hdriving, statusOf_force (hheld hload) hstatus]
    exact hdrivers.restamp hload (writes_not_free hopen)
  | @freed tripId trip before _ htrip hended htrips hstatus =>
    obtain ⟨hholder, hbefore, rfl⟩ := h.trip_of hcall rfl htrip
    have hload : s.driving (.trip tripId) = some (trip.driverId, before.writes) := by
      rw [driving, hold_trip htrip, faceAt_mine hcall hholder]
      exact tripDriver_before tripId rfl rfl hbefore
    have hset : s'.trips = s.trips.set tripId trip := by rw [htrips, set_eq_self htrip]
    have hdriving : s'.driving = Function.update s.driving (.trip tripId) none := by
      rw [driving, h.hold_set hcall hcalls hset (only_trip rfl), faceAt_put hcalls hholder]
      show Function.update (Function.update s.driving (.thread t) none) _ _ = _
      rw [hidle hthread, tripDriver_ended tripId hended rfl]
    rw [hdriving, statusOf_force (hheld hload) hstatus]
    exact hdrivers.drop hload (.inl (writes_terminal hended))
  | @released _ _ htrip htrips hstatus =>
    obtain ⟨hholder, hended⟩ := h.trip_of hcall rfl htrip
    refine hsame (h.hold_set_same hcall hcalls htrips (only_trip rfl) htrip rfl ?_) hstatus
    rw [faceAt_free rfl, faceAt_mine hcall hholder]
    rfl
  | @reassigned tripId trip trip' driverId htrip hdecline htrips hstatus =>
    obtain ⟨hholder, hrequested, -⟩ := h.trip_of hcall rfl htrip
    obtain ⟨-, htrip'⟩ := decline_eq_ok hdecline
    have hholder' : trip'.holder = some t := by rw [htrip']; exact hholder
    have hrequested' : trip'.status = .requested := by rw [htrip']; exact hrequested
    have hload : s.driving (.trip tripId) = some (trip.driverId, .booked) := by
      rw [driving, hold_trip htrip, faceAt_mine hcall hholder]
      exact tripDriver_offered tripId hrequested rfl
    have hmine : s.driving (.thread t) = some (driverId, .booked) := hthread
    have hdriving : s'.driving =
        passOn (Function.update s.driving (.trip tripId) none) (.thread t) (.trip tripId) := by
      rw [driving, h.hold_set hcall hcalls htrips (only_trip rfl), faceAt_put hcalls hholder',
        tripDriver_offered tripId hrequested' rfl, passOn_drop (by rintro ⟨⟩), passOn, hmine]
      rfl
    rw [hdriving, statusOf_force (hheld hload) hstatus]
    have hkept : Function.update s.driving (.trip tripId) none (.thread t) =
        some (driverId, .booked) := by
      rw [update_of_ne (by rintro ⟨⟩), hmine]
    exact (hdrivers.drop hload (.inl rfl)).passOn hkept (update_self _ _ _)
  | @swapped _ _ _ htrip htrips hstatus =>
    obtain ⟨hholder, -⟩ := h.trip_of hcall rfl htrip
    refine hsame (h.hold_set_same hcall hcalls htrips (only_trip rfl) htrip rfl ?_) hstatus
    rw [faceAt_free rfl, faceAt_mine hcall hholder]
    rfl
  | @switched _ _ _ _ hd hfree hnew htrips hstatus =>
    have hdriving : s'.driving = s.driving :=
      h.hold_keep_same hcall hcalls htrips rfl fun _ _ => rfl
    rw [hdriving, statusOf_set hstatus]
    refine hdrivers.switch ?_ hnew
    rw [statusOf, hd]
    exact hfree

/-! ## Riders -/

/-- The rider of a trip, until the trip has released it, with the entry that says so. -/
def tripRider (tripId : Nat) (trip : Trip) (face : Face) : Option (String × Option (Option Nat)) :=
  if trip.status.isTerminal ∧ face.ending = false then none
  else some (trip.riderId, some (some tripId))

/-- Who has reserved which rider. -/
def seats (s : CabBookingService) : Owner → Option (String × Option (Option Nat)) :=
  hold (fun face => face.rider.map (·, some none)) tripRider s

/-- A rider without an entry. -/
def NoEntry (entry : Option (Option Nat)) : Prop := entry = none

theorem tripRider_kept (id : Nat) (h : trip.status.isTerminal = false ∨ face.ending = true) :
    tripRider id trip face = some (trip.riderId, some (some id)) := by
  rw [tripRider, if_neg ?_]
  rintro ⟨hended, hreleased⟩
  obtain hopen | hending := h
  · rw [hopen] at hended
    cases hended
  · rw [hending] at hreleased
    cases hreleased

theorem get?_set_update (d : Dict String (Option Nat)) (k : String) (v : Option Nat) :
    (d.set k v).get? = Function.update d.get? k (some v) := by
  funext k'
  rw [get?_set, update_apply]

theorem get?_erase_update (d : Dict String (Option Nat)) (k : String) :
    (d.erase k).get? = Function.update d.get? k none := by
  funext k'
  rw [get?_erase, update_apply]

theorem carries_open {target : TripStatus} (h : target.carries = status.carries)
    (hopen : status.isTerminal = false) : target.isTerminal = false := by
  cases hended : target.isTerminal with
  | false => rfl
  | true =>
    rw [carries_eq_none.mpr hended] at h
    rw [carries_eq_none.mp h.symm] at hopen
    cases hopen

theorem Locked.seats_step (h : s.Locked) (hseats : Stamped s.seats s.activeTripByRider.get? NoEntry)
    (hturn : Turn s s' t next) : Stamped s'.seats s'.activeTripByRider.get? NoEntry := by
  obtain ⟨c, hcall⟩ : ∃ c, s.calls.get? t = c := ⟨_, rfl⟩
  have hcalls := hturn.calls
  have heffect := hcall ▸ hturn.effect
  have hthread : s.seats (.thread t) = (faceOf c).rider.map (·, some none) := hold_thread hcall
  have hidle : s.seats (.thread t) = none → Function.update s.seats (.thread t) none = s.seats := by
    intro hnone
    rw [← hnone, update_eq_self]
  -- the riders that are reserved do not change
  have hsame : s'.seats = s.seats → s'.activeTripByRider = s.activeTripByRider →
      Stamped s'.seats s'.activeTripByRider.get? NoEntry := by
    intro heq hactive
    rw [heq, hactive]
    exact hseats
  have hentry : ∀ x : Option Nat, ¬ NoEntry (some x) := by rintro x ⟨⟩
  cases heffect with
  | quiet hface _ htrips _ hactive =>
    exact hsame (h.hold_keep_same hcall hcalls htrips (by rw [hface]) fun _ _ => by rw [hface])
      hactive
  | @reserved _ _ hfree htrips _ hactive =>
    rw [seats, h.hold_keep hcall hcalls htrips fun _ _ => rfl, hactive, get?_set_update]
    exact hseats.take hthread hfree (hentry none)
  | @claimed purpose _ _ _ _ _ _ _ htrips _ hactive =>
    exact hsame (h.hold_keep_same hcall hcalls htrips (by cases purpose <;> rfl)
      fun _ _ => by cases purpose <;> rfl) hactive
  | @booked riderId _ _ _ htrips _ hactive =>
    have hload : s.seats (.thread t) = some (riderId, some none) := hthread
    have hnone : s.seats (.trip s.nextTrip) = none := by
      rw [seats, hold, h.new_trip]
      rfl
    have hpassed := hseats.passOn hload hnone
    have hmine : passOn s.seats (.thread t) (.trip s.nextTrip) (.trip s.nextTrip) =
        some (riderId, some none) := by
      rw [passOn, update_self, hload]
    have hnew : s'.seats = Function.update (passOn s.seats (.thread t) (.trip s.nextTrip))
        (.trip s.nextTrip) (some (riderId, some (some s.nextTrip))) := by
      rw [seats, h.hold_set hcall hcalls htrips (by rintro _ ⟨⟩), faceAt_free rfl, passOn,
        update_idem]
      rfl
    rw [hnew, hactive, get?_set_update]
    exact hpassed.restamp hmine (hentry _)
  | @dropped riderId _ htrips _ hactive =>
    have hload : s.seats (.thread t) = some (riderId, some none) := hthread
    rw [seats, h.hold_keep hcall hcalls htrips fun _ _ => rfl, hactive, get?_erase_update]
    exact hseats.drop hload rfl
  | @moved tripId _ _ htrip _ hmove hcarries htrips _ hactive =>
    refine hsame (h.hold_set_same hcall hcalls htrips (by rintro _ ⟨⟩) htrip rfl ?_) hactive
    have hopen := not_terminal_of_transitions hmove
    rw [tripRider_kept tripId (.inl hopen)]
    exact tripRider_kept tripId (.inl (carries_open hcarries hopen))
  | @taken _ tripId trip _ _ htrip hholder hmove htrips _ hactive =>
    have hopen := not_terminal_of_transitions hmove
    have honly : ∀ id, (faceOf c).trip = some id → id = tripId := by
      obtain ⟨rfl, -⟩ | ⟨⟨search, rfl⟩, -⟩ := hholder
      · rintro _ ⟨⟩
      · exact only_trip rfl
    have hrider : (faceOf c).rider = none := by
      obtain ⟨rfl, -⟩ | ⟨⟨search, rfl⟩, -⟩ := hholder <;> rfl
    refine hsame (h.hold_set_same hcall hcalls htrips honly htrip (by rw [hrider]; rfl) ?_) hactive
    rw [tripRider_kept tripId (.inl hopen), faceAt_put hcalls rfl]
    exact tripRider_kept tripId (.inr rfl)
  | @declining _ _ _ htrip hholder _ _ _ htrips _ hactive =>
    refine hsame (h.hold_set_same hcall hcalls htrips (by rintro _ ⟨⟩) htrip rfl ?_) hactive
    rw [faceAt_put hcalls rfl, faceAt_free hholder]
    rfl
  | @written tripId _ _ _ htrip hopen htrips _ hactive =>
    refine hsame (h.hold_set_same hcall hcalls htrips (only_trip rfl) htrip rfl ?_) hactive
    rw [tripRider_kept tripId (.inl hopen)]
    exact tripRider_kept tripId (.inl hopen)
  | @freed tripId trip before status htrip _ htrips _ hactive | switched _ _ _ htrips _ hactive =>
    exact hsame (h.hold_keep_same hcall hcalls htrips rfl fun _ _ => rfl) hactive
  | @released tripId trip htrip htrips _ hactive =>
    obtain ⟨hholder, hended⟩ := h.trip_of hcall rfl htrip
    have hload : s.seats (.trip tripId) = some (trip.riderId, some (some tripId)) := by
      rw [seats, hold_trip htrip, faceAt_mine hcall hholder]
      exact tripRider_kept tripId (.inr rfl)
    have hset : s'.seats = Function.update s.seats (.trip tripId) none := by
      rw [seats, h.hold_set hcall hcalls htrips (only_trip rfl), faceAt_free rfl]
      have hnone : tripRider tripId trip.unlock Face.none = none := if_pos ⟨hended, rfl⟩
      rw [hnone]
      show Function.update (Function.update s.seats (.thread t) none) _ _ = _
      rw [hidle hthread]
    rw [hset, hactive, if_pos (hseats.stamp _ _ _ hload).1, get?_erase_update]
    exact hseats.drop hload rfl
  | @reassigned tripId trip _ _ htrip hdecline htrips _ hactive =>
    obtain ⟨hstatus, rfl⟩ := decline_eq_ok hdecline
    refine hsame (h.hold_set_same hcall hcalls htrips (only_trip rfl) htrip rfl ?_) hactive
    have hopen : trip.status.isTerminal = false := by rw [hstatus]; rfl
    rw [tripRider_kept tripId (.inl hopen)]
    exact tripRider_kept tripId (.inl hopen)
  | @swapped tripId trip _ htrip htrips _ hactive =>
    obtain ⟨-, hstatus, -⟩ := h.trip_of hcall rfl htrip
    refine hsame (h.hold_set_same hcall hcalls htrips (only_trip rfl) htrip rfl ?_) hactive
    have hopen : trip.status.isTerminal = false := by rw [hstatus]; rfl
    rw [tripRider_kept tripId (.inl hopen)]
    exact tripRider_kept tripId (.inl hopen)

end

variable {driverId : String} {d : Driver}

/-! ## Offers -/

/-- A trip was offered once to each: to those that have declined, and to its
    driver if it has not. -/
structure OfferedOnce (trip : Trip) (face : Face) : Prop where
  nodup : trip.offers.Nodup
  offers : trip.offers =
    trip.declinedBy ++ if face.offered.isSome then [] else [trip.driverId]

variable {P : Trip → Face → Prop}

theorem Locked.each_keep (h : s.Locked) (hcall : s.calls.get? t = c)
    (hcalls : s'.calls = s.calls.put t next) (htrips : s'.trips = s.trips)
    (heach : ∀ id trip, s.trips.get? id = some trip → P trip (s.faceAt trip))
    (hkeep : ∀ trip, P trip (faceOf c) → P trip (faceOf next)) (id : Nat) (trip : Trip)
    (htrip : s'.trips.get? id = some trip) : P trip (s'.faceAt trip) := by
  rw [htrips] at htrip
  have hbefore := heach id trip htrip
  by_cases hmine : (faceOf c).trip = some id
  · obtain ⟨call, rfl, hid⟩ := call_of_face hmine
    obtain ⟨hholder, -⟩ := h.trip_of hcall hid htrip
    rw [faceAt_mine hcall hholder] at hbefore
    rw [faceAt_put hcalls hholder]
    exact hkeep trip hbefore
  · rw [h.faceAt_other hcall hcalls htrip hmine]
    exact hbefore

theorem Locked.each_set (h : s.Locked) (hcall : s.calls.get? t = c)
    (hcalls : s'.calls = s.calls.put t next) (htrips : s'.trips = s.trips.set tripId trip')
    (honly : ∀ id, (faceOf c).trip = some id → id = tripId)
    (heach : ∀ id trip, s.trips.get? id = some trip → P trip (s.faceAt trip))
    (hnew : P trip' (s'.faceAt trip')) (id : Nat) (trip : Trip)
    (htrip : s'.trips.get? id = some trip) : P trip (s'.faceAt trip) := by
  rw [htrips] at htrip
  obtain ⟨rfl, rfl⟩ | ⟨hne, htrip⟩ := get?_set_some htrip
  · exact hnew
  · rw [h.faceAt_other hcall hcalls htrip fun hmine => hne (honly id hmine)]
    exact heach id trip htrip

theorem Locked.offers_step (h : s.Locked)
    (hoffers : ∀ id trip, s.trips.get? id = some trip → OfferedOnce trip (s.faceAt trip))
    (hturn : Turn s s' t next) (id : Nat) (trip : Trip) (htrip : s'.trips.get? id = some trip) :
    OfferedOnce trip (s'.faceAt trip) := by
  obtain ⟨c, hcall⟩ : ∃ c, s.calls.get? t = c := ⟨_, rfl⟩
  have hcalls := hturn.calls
  have heffect := hcall ▸ hturn.effect
  have hkeep : ∀ {c next : Option Call}, (faceOf next).offered = (faceOf c).offered →
      ∀ trip, OfferedOnce trip (faceOf c) → OfferedOnce trip (faceOf next) := by
    intro c next heq trip hoffered
    exact ⟨hoffered.nodup, by rw [heq]; exact hoffered.offers⟩
  -- the trip is written, and its offers stay as they were
  have hsame : ∀ {tripId : Nat} {trip0 trip' : Trip}, s.trips.get? tripId = some trip0 →
      s'.trips = s.trips.set tripId trip' → (∀ id, (faceOf c).trip = some id → id = tripId) →
      trip'.offers = trip0.offers → trip'.declinedBy = trip0.declinedBy →
      trip'.driverId = trip0.driverId →
      (s'.faceAt trip').offered = (s.faceAt trip0).offered → OfferedOnce trip (s'.faceAt trip) := by
    intro tripId trip0 trip' htrip0 htrips honly ho hd hdriver hface
    refine h.each_set hcall hcalls htrips honly hoffers ?_ id trip htrip
    have hbefore := hoffers tripId trip0 htrip0
    exact ⟨by rw [ho]; exact hbefore.nodup, by rw [ho, hd, hdriver, hface]; exact hbefore.offers⟩
  cases heffect with
  | quiet hface _ htrips =>
    exact h.each_keep hcall hcalls htrips hoffers (hkeep (by rw [hface])) id trip htrip
  | reserved _ htrips | dropped htrips | freed _ _ htrips | switched _ _ _ htrips =>
    exact h.each_keep hcall hcalls htrips hoffers (hkeep rfl) id trip htrip
  | @claimed purpose _ _ _ _ _ _ _ htrips =>
    exact h.each_keep hcall hcalls htrips hoffers (hkeep (by cases purpose <;> rfl)) id trip htrip
  | booked htrips =>
    refine h.each_set hcall hcalls htrips (by rintro _ ⟨⟩) hoffers ?_ id trip htrip
    rw [faceAt_free rfl]
    exact ⟨nodup_singleton _, rfl⟩
  | @moved _ trip0 target htrip0 hholder _ _ htrips =>
    have hface : s'.faceAt { trip0 with status := target } = Face.none := faceAt_free hholder
    exact hsame htrip0 htrips (by rintro _ ⟨⟩) rfl rfl rfl (by rw [hface, faceAt_free hholder])
  | @taken _ _ _ _ _ htrip0 hholder _ htrips =>
    obtain ⟨rfl, hnone⟩ | ⟨⟨search, rfl⟩, hsome⟩ := hholder
    · refine hsame htrip0 htrips (by rintro _ ⟨⟩) rfl rfl rfl ?_
      rw [faceAt_put hcalls rfl, faceAt_free hnone]
      rfl
    · refine hsame htrip0 htrips (only_trip rfl) rfl rfl rfl ?_
      rw [faceAt_put hcalls rfl, faceAt_mine hcall hsome]
      rfl
  | @declining _ _ _ htrip0 hholder _ _ _ htrips =>
    refine hsame htrip0 htrips (by rintro _ ⟨⟩) rfl rfl rfl ?_
    rw [faceAt_put hcalls rfl, faceAt_free hholder]
    rfl
  | @written tripId trip0 before status htrip0 _ htrips | @released tripId trip0 htrip0 htrips =>
    obtain ⟨hholder, -⟩ := h.trip_of hcall rfl htrip0
    refine hsame htrip0 htrips (only_trip rfl) rfl rfl rfl ?_
    rw [faceAt_free rfl, faceAt_mine hcall hholder]
    rfl
  | @reassigned tripId trip0 trip' driverId htrip0 hdecline htrips =>
    obtain ⟨hholder, -⟩ := h.trip_of hcall rfl htrip0
    obtain ⟨-, htrip'⟩ := decline_eq_ok hdecline
    have hholder' : trip'.holder = some t := by rw [htrip']; exact hholder
    have hbefore := hoffers tripId trip0 htrip0
    rw [faceAt_mine hcall hholder] at hbefore
    refine h.each_set hcall hcalls htrips (only_trip rfl) hoffers ?_ id trip htrip
    rw [faceAt_put hcalls hholder', htrip']
    have hnew : trip0.driverId ∉ trip0.declinedBy := by
      intro hmem
      have hnodup := hbefore.nodup
      rw [hbefore.offers] at hnodup
      exact (nodup_append.mp hnodup).2.2 _ hmem _ (mem_singleton_self _) rfl
    refine ⟨hbefore.nodup, ?_⟩
    show trip0.offers = (if trip0.driverId ∈ trip0.declinedBy then trip0.declinedBy
      else trip0.declinedBy ++ [trip0.driverId]) ++ []
    rw [if_neg hnew, append_nil]
    exact hbefore.offers
  | @swapped tripId trip0 driverId htrip0 htrips =>
    obtain ⟨hholder, -, hnew, -⟩ := h.trip_of hcall rfl htrip0
    have hbefore := hoffers tripId trip0 htrip0
    rw [faceAt_mine hcall hholder] at hbefore
    have hoffered : trip0.offers = trip0.declinedBy := by
      rw [hbefore.offers]
      exact append_nil _
    refine h.each_set hcall hcalls htrips (only_trip rfl) hoffers ?_ id trip htrip
    rw [faceAt_free rfl]
    constructor
    · show (trip0.offers ++ [driverId]).Nodup
      rw [nodup_append]
      refine ⟨hbefore.nodup, nodup_singleton _, fun a ha b hb => ?_⟩
      rw [mem_singleton] at hb
      rintro rfl
      rw [hb, hoffered] at ha
      exact hnew ha
    · show trip0.offers ++ [driverId] = trip0.declinedBy ++ [driverId]
      rw [hoffered]

/-! ## Every run -/

/-- What holds of the trips, the drivers and the riders in every state. -/
structure Assigned (s : CabBookingService) : Prop where
  locked : s.Locked
  drivers : Stamped s.driving s.statusOf Free
  seats : Stamped s.seats s.activeTripByRider.get? NoEntry
  offers : ∀ id trip, s.trips.get? id = some trip → OfferedOnce trip (s.faceAt trip)

theorem Assigned.act (h : s.Assigned) (op : Op) : (s.act op).2.Assigned := by
  obtain ⟨t, next, hturn⟩ := h.locked.turn op
  exact ⟨h.locked.step hturn, h.locked.drivers_step h.drivers hturn,
    h.locked.seats_step h.seats hturn, h.locked.offers_step h.offers hturn⟩

theorem new_assigned (riders : List String) (drivers : List (String × CabType)) :
    (new riders drivers).Assigned where
  locked := ⟨by rintro _ _ _ ⟨⟩, by rintro _ _ _ ⟨⟩, by rintro _ _ ⟨⟩⟩
  drivers := by
    have hdriving : (new riders drivers).driving = fun _ => none := by
      funext w
      cases w <;> rfl
    rw [hdriving]
    refine ⟨exclusive_none, by rintro _ _ _ ⟨⟩, fun id _ => ?_⟩
    rw [statusOf]
    cases hd : (new riders drivers).drivers.get? id with
    | none => exact .inr rfl
    | some =>
      obtain ⟨x, -, heq⟩ := List.mem_map.mp (mem_of_get?_ofList hd)
      left
      rw [map_some, getD_some, ← (Prod.mk.inj heq).2]
  seats := by
    have hseats : (new riders drivers).seats = fun _ => none := by
      funext w
      cases w <;> rfl
    rw [hseats]
    exact ⟨exclusive_none, by rintro _ _ _ ⟨⟩, fun _ _ => rfl⟩
  offers := by rintro _ _ ⟨⟩

/-- The driver and the status that a trip counts with. -/
def seen (s : CabBookingService) (trip : Trip) : String × TripStatus :=
  ((s.faceAt trip).offered.getD trip.driverId, (s.faceAt trip).before.getD trip.status)

theorem seen_free (hholder : trip.holder = none) : s.seen trip = (trip.driverId, trip.status) := by
  rw [seen, faceAt_free hholder]
  rfl

theorem driving_trip (htrip : s.trips.get? tripId = some trip) :
    s.driving (.trip tripId) = (s.seen trip).2.carries.map ((s.seen trip).1, ·) := by
  rw [driving, hold_trip htrip]
  rfl

theorem carries_eq_some {status : TripStatus} {x : CabStatus} :
    status.carries = some x ↔ (x = .onTrip ∧ status = .started) ∨
      (x = .booked ∧ (status = .requested ∨ status = .accepted ∨ status = .driverArrived)) := by
  cases status <;> cases x <;> decide

theorem Assigned.status (h : s.Assigned) (hd : s.drivers.get? driverId = some d) {x : CabStatus}
    (hx : ¬ Free x) : d.status = x ↔ ∃ w, s.driving w = some (driverId, x) := by
  have hstatus : s.statusOf driverId = d.status := by rw [statusOf, hd]; rfl
  constructor
  · intro heq
    by_cases hheld : Held (keyOf s.driving) driverId
    · obtain ⟨w, y, hw⟩ := held_keyOf.mp hheld
      have hy := (h.drivers.stamp _ _ _ hw).1
      rw [hstatus, heq] at hy
      exact ⟨w, by rw [hw, hy]⟩
    · have hfree := h.drivers.free driverId hheld
      rw [hstatus, heq] at hfree
      exact absurd hfree hx
  · rintro ⟨w, hw⟩
    rw [← hstatus]
    exact (h.drivers.stamp _ _ _ hw).1

theorem Assigned.onTrip (h : s.Assigned) (hd : s.drivers.get? driverId = some d) :
    d.status = .onTrip ↔
      ∃ id trip, s.trips.get? id = some trip ∧ s.seen trip = (driverId, .started) := by
  rw [h.status hd (by decide)]
  constructor
  · rintro ⟨w, hw⟩
    cases w with
    | thread =>
      obtain ⟨_, -, heq⟩ := map_eq_some_iff.mp hw
      cases heq
    | trip id =>
      obtain ⟨trip, htrip, -⟩ := bind_eq_some_iff.mp hw
      rw [driving_trip htrip] at hw
      obtain ⟨x, hx, heq⟩ := map_eq_some_iff.mp hw
      cases heq
      obtain ⟨-, hstarted⟩ | ⟨hbooked, -⟩ := carries_eq_some.mp hx
      · exact ⟨id, trip, htrip, Prod.ext rfl hstarted⟩
      · cases hbooked
  · rintro ⟨id, trip, htrip, hseen⟩
    refine ⟨.trip id, ?_⟩
    rw [driving_trip htrip, hseen]
    rfl

theorem Assigned.booked (h : s.Assigned) (hd : s.drivers.get? driverId = some d) :
    d.status = .booked ↔
      (∃ t call, s.calls.get? t = some call ∧ call.face.driver = some driverId) ∨
        ∃ id trip, s.trips.get? id = some trip ∧ (s.seen trip).1 = driverId ∧
          ((s.seen trip).2 = .requested ∨ (s.seen trip).2 = .accepted ∨
            (s.seen trip).2 = .driverArrived) := by
  rw [h.status hd (by decide)]
  constructor
  · rintro ⟨w, hw⟩
    cases w with
    | thread t =>
      obtain ⟨_, hdriver, heq⟩ := map_eq_some_iff.mp hw
      cases heq
      cases hcall : s.calls.get? t with
      | none =>
        rw [hcall] at hdriver
        cases hdriver
      | some call =>
        rw [hcall] at hdriver
        exact .inl ⟨t, call, hcall, hdriver⟩
    | trip id =>
      obtain ⟨trip, htrip, -⟩ := bind_eq_some_iff.mp hw
      rw [driving_trip htrip] at hw
      obtain ⟨x, hx, heq⟩ := map_eq_some_iff.mp hw
      cases heq
      obtain ⟨honTrip, -⟩ | ⟨-, hstatus⟩ := carries_eq_some.mp hx
      · cases honTrip
      · exact .inr ⟨id, trip, htrip, rfl, hstatus⟩
  · rintro (⟨t, call, hcall, hdriver⟩ | ⟨id, trip, htrip, rfl, hstatus⟩)
    · refine ⟨.thread t, ?_⟩
      rw [driving, hold_thread hcall, faceOf, elim_some, hdriver]
      rfl
    · refine ⟨.trip id, ?_⟩
      rw [driving_trip htrip, carries_eq_some.mpr (.inr ⟨rfl, hstatus⟩)]
      rfl

theorem Assigned.driver_once (h : s.Assigned) {id id' : Nat}
    (htrip : s.trips.get? id = some trip) (htrip' : s.trips.get? id' = some trip')
    (hdriver : (s.seen trip).1 = (s.seen trip').1) (hopen : (s.seen trip).2.isTerminal = false)
    (hopen' : (s.seen trip').2.isTerminal = false) : id = id' := by
  have hheld : ∀ {id trip}, s.trips.get? id = some trip → (s.seen trip).2.isTerminal = false →
      keyOf s.driving (.trip id) = some (s.seen trip).1 := by
    intro id trip htrip hopen
    rw [keyOf, driving_trip htrip]
    cases hstatus : (s.seen trip).2 <;> rw [hstatus] at hopen <;> first | rfl | cases hopen
  have hheld' := hheld htrip' hopen'
  rw [← hdriver] at hheld'
  exact Owner.trip.inj (h.drivers.exclusive _ _ _ (hheld htrip hopen) hheld')

theorem Assigned.rider_once (h : s.Assigned) {id id' : Nat}
    (htrip : s.trips.get? id = some trip) (htrip' : s.trips.get? id' = some trip')
    (hrider : trip.riderId = trip'.riderId) (hopen : trip.status.isTerminal = false)
    (hopen' : trip'.status.isTerminal = false) : id = id' := by
  have hheld : ∀ {id trip}, s.trips.get? id = some trip → trip.status.isTerminal = false →
      s.seats (.trip id) = some (trip.riderId, some (some id)) := by
    intro id trip htrip hopen
    rw [CabBookingService.seats, hold_trip htrip]
    exact tripRider_kept id (.inl hopen)
  have hheld' := hheld htrip' hopen'
  rw [← hrider] at hheld'
  exact Owner.trip.inj (h.seats.same (hheld htrip hopen) hheld')

theorem Assigned.idle (h : s.Assigned) (hidle : s.calls = Dict.empty) :
    (∀ id trip, s.trips.get? id = some trip → trip.holder = none) ∧
    (∀ driverId d, s.drivers.get? driverId = some d →
      (∀ id trip, s.trips.get? id = some trip → trip.driverId = driverId →
        trip.status.isTerminal = true) → Free d.status) ∧
    ∀ riderId, (s.activeTripByRider.get? riderId).isSome ↔
      ∃ id trip, s.trips.get? id = some trip ∧ trip.riderId = riderId ∧
        trip.status.isTerminal = false := by
  have hcall : ∀ t, s.calls.get? t = none := by
    intro t
    rw [hidle]
    rfl
  have hholder : ∀ id trip, s.trips.get? id = some trip → trip.holder = none := by
    intro id trip htrip
    cases hholder : trip.holder with
    | none => rfl
    | some t =>
      obtain ⟨c, hc, -⟩ := h.locked.holder id trip t htrip hholder
      rw [hcall] at hc
      cases hc
  refine ⟨hholder, fun driverId d hd hended => ?_, fun riderId => ?_⟩
  · have hfree : ¬ Held (keyOf s.driving) driverId := by
      rw [held_keyOf]
      rintro ⟨w, x, hw⟩
      cases w with
      | thread t =>
        rw [driving, hold_thread (hcall t)] at hw
        cases hw
      | trip id =>
        obtain ⟨trip, htrip, -⟩ := bind_eq_some_iff.mp hw
        rw [driving_trip htrip, seen_free (hholder id trip htrip)] at hw
        obtain ⟨x, hx, heq⟩ := map_eq_some_iff.mp hw
        cases heq
        rw [carries_eq_none.mpr (hended id trip htrip rfl)] at hx
        cases hx
    have hstatus := h.drivers.free driverId hfree
    rwa [statusOf, hd, map_some, getD_some] at hstatus
  constructor
  · intro hentry
    have hheld : Held (keyOf s.seats) riderId := by
      by_contra hnone
      have hnothing := h.seats.free riderId hnone
      rw [NoEntry] at hnothing
      rw [hnothing] at hentry
      cases hentry
    obtain ⟨w, x, hw⟩ := held_keyOf.mp hheld
    cases w with
    | thread t =>
      rw [CabBookingService.seats, hold_thread (hcall t)] at hw
      cases hw
    | trip id =>
    obtain ⟨trip, htrip, -⟩ := bind_eq_some_iff.mp hw
    rw [CabBookingService.seats, hold_trip htrip, faceAt_free (hholder id trip htrip)] at hw
    cases hended : trip.status.isTerminal with
    | true =>
      rw [tripRider, if_pos ⟨hended, rfl⟩] at hw
      cases hw
    | false =>
      rw [tripRider_kept id (.inl hended)] at hw
      cases hw
      exact ⟨id, trip, htrip, rfl, hended⟩
  · rintro ⟨id, trip, htrip, rfl, hopen⟩
    have hheld : s.seats (.trip id) = some (trip.riderId, some (some id)) := by
      rw [CabBookingService.seats, hold_trip htrip]
      exact tripRider_kept id (.inl hopen)
    rw [(h.seats.stamp _ _ _ hheld).1]
    rfl

theorem Locked.seen_cases (h : s.Locked) (htrip : s.trips.get? tripId = some trip) :
    s.seen trip = (trip.driverId, trip.status) ∨ ∃ t, trip.holder = some t ∧
        ((∃ before status, s.calls.get? t = some (.forcing tripId before status) ∧
            s.seen trip = (trip.driverId, before)) ∨
          ∃ driverId, s.calls.get? t = some (.swapping tripId driverId) ∧
            s.seen trip = (driverId, trip.status)) := by
  cases hholder : trip.holder with
  | none => exact .inl (seen_free hholder)
  | some t =>
  obtain ⟨c, hcall, hid⟩ := h.holder tripId trip t htrip hholder
  have hseen : s.seen trip = ((faceOf (some c)).offered.getD trip.driverId,
      (faceOf (some c)).before.getD trip.status) := by
    rw [seen, faceAt_mine hcall hholder]
  cases c with
  | matching purpose =>
    left
    rw [hseen]
    cases purpose <;> rfl
  | booking | dropping | releasing | reassigning => exact .inl hseen
  | forcing _ before status =>
    cases hid
    exact .inr ⟨t, rfl, .inl ⟨before, status, hcall, hseen⟩⟩
  | swapping _ driverId =>
    cases hid
    exact .inr ⟨t, rfl, .inr ⟨driverId, hcall, hseen⟩⟩

theorem OfferedOnce.not_declined {face : Face} (h : OfferedOnce trip face)
    (hoffered : face.offered = none) : trip.driverId ∉ trip.declinedBy := by
  intro hmem
  have hnodup := h.nodup
  rw [h.offers, hoffered] at hnodup
  exact (nodup_append.mp hnodup).2.2 _ hmem _ (mem_singleton_self _) rfl

theorem step_eq_act (s : CabBookingService) (op : Op) : s.step op = .ok (s.act op) := rfl

/-- After any sections of any calls: no two trips that have not ended are of one driver, or of one
    rider; a driver is on a trip while its trip has started, and booked while it is claimed or its
    trip has not; a trip is offered to nobody twice; and between the calls the others are free. -/
theorem run_assigned (riders : List String) (drivers : List (String × CabType)) (ops : List Op) :
    ∃ answers s, runSteps CabBookingService.step (new riders drivers) ops = .ok (answers, s) ∧
      (∀ id trip, s.trips.get? id = some trip →
        s.seen trip = (trip.driverId, trip.status) ∨
        ∃ t, trip.holder = some t ∧
          ((∃ before status, s.calls.get? t = some (.forcing id before status) ∧
              s.seen trip = (trip.driverId, before)) ∨
            ∃ driverId, s.calls.get? t = some (.swapping id driverId) ∧
              s.seen trip = (driverId, trip.status))) ∧
      (∀ id id' trip trip', s.trips.get? id = some trip → s.trips.get? id' = some trip' →
        (s.seen trip).1 = (s.seen trip').1 → (s.seen trip).2.isTerminal = false →
        (s.seen trip').2.isTerminal = false → id = id') ∧
      (∀ id id' trip trip', s.trips.get? id = some trip → s.trips.get? id' = some trip' →
        trip.riderId = trip'.riderId → trip.status.isTerminal = false →
        trip'.status.isTerminal = false → id = id') ∧
      (∀ driverId d, s.drivers.get? driverId = some d →
        (d.status = .onTrip ↔
          ∃ id trip, s.trips.get? id = some trip ∧ s.seen trip = (driverId, .started)) ∧
        (d.status = .booked ↔
          (∃ t call, s.calls.get? t = some call ∧ call.face.driver = some driverId) ∨
          ∃ id trip, s.trips.get? id = some trip ∧ (s.seen trip).1 = driverId ∧
            ((s.seen trip).2 = .requested ∨ (s.seen trip).2 = .accepted ∨
              (s.seen trip).2 = .driverArrived))) ∧
      (∀ id trip, s.trips.get? id = some trip → trip.offers.Nodup ∧
        (trip.offers = trip.declinedBy ++
          if (s.faceAt trip).offered.isSome then [] else [trip.driverId]) ∧
        ((s.faceAt trip).offered = none → trip.driverId ∉ trip.declinedBy)) ∧
      (s.calls = Dict.empty →
        (∀ id trip, s.trips.get? id = some trip → trip.holder = none) ∧
        (∀ driverId d, s.drivers.get? driverId = some d →
          (∀ id trip, s.trips.get? id = some trip → trip.driverId = driverId →
            trip.status.isTerminal = true) → d.status = .available ∨ d.status = .offline) ∧
        ∀ riderId, (s.activeTripByRider.get? riderId).isSome ↔
          ∃ id trip, s.trips.get? id = some trip ∧ trip.riderId = riderId ∧
            trip.status.isTerminal = false) := by
  have hact : ∀ (s : CabBookingService) (op : Op), s.Assigned → (s.act op).2.Assigned :=
    fun s op h => h.act op
  obtain ⟨answers, s, hrun, h⟩ := runSteps_total step_eq_act hact (new_assigned riders drivers) ops
  refine ⟨answers, s, hrun, fun id trip htrip => h.locked.seen_cases htrip,
    fun id id' trip trip' => h.driver_once, fun id id' trip trip' => h.rider_once,
    fun driverId d hd => ⟨h.onTrip hd, h.booked hd⟩, fun id trip htrip => ?_, h.idle⟩
  have hoffers := h.offers id trip htrip
  exact ⟨hoffers.nodup, hoffers.offers, hoffers.not_declined⟩

/-- The calls by which the driver `"D1"` is offered a trip of the rider `"A"`. -/
def offered : List Op := [.requestRide 0 "A" .mini, .search 0 ["D1"], .go 0, .book 0 100]

/-- A trip starts before its driver is on it; a driver that has declined is
    offered the next trip. -/
theorem run_unsettled :
    (∃ answers s trip d, runSteps CabBookingService.step (new ["A"] [("D1", .mini)])
        (offered ++ [.acceptTrip 0 1, .driverArrived 0 1, .startTrip 0 1]) = .ok (answers, s) ∧
      s.trips.get? 1 = some trip ∧ s.drivers.get? "D1" = some d ∧ trip.driverId = "D1" ∧
      trip.status = .started ∧ d.status = .booked) ∧
    ∃ answers s trip trip', runSteps CabBookingService.step
        (new ["A", "B"] [("D1", .mini), ("D2", .mini)])
        (offered ++ [.declineTrip 0 1, .search 0 ["D2"], .go 0, .go 0, .requestRide 1 "B" .mini,
          .search 1 ["D1"], .go 1, .book 1 100]) = .ok (answers, s) ∧
      s.trips.get? 1 = some trip ∧ s.trips.get? 2 = some trip' ∧
      trip.driverId = "D1" ∧ trip'.driverId = "D1" ∧
      trip.status.isTerminal = false ∧ trip'.status.isTerminal = false := by
  constructor
  · obtain ⟨⟨answers, s⟩, hrun, hobserve⟩ := exists_ok_of_observe
      (x := runSteps CabBookingService.step (new ["A"] [("D1", .mini)])
        (offered ++ [.acceptTrip 0 1, .driverArrived 0 1, .startTrip 0 1]))
      (f := fun r : List Answer × CabBookingService =>
        ((r.2.trips.get? 1).map fun trip => (trip.driverId, trip.status),
          (r.2.drivers.get? "D1").map fun d => d.status))
      (b := (some ("D1", .started), some .booked)) (by decide +kernel)
    obtain ⟨htrip, hdriver⟩ := Prod.mk.inj hobserve
    obtain ⟨trip, htrip, heq⟩ := map_eq_some_iff.mp htrip
    obtain ⟨hid, hstatus⟩ := Prod.mk.inj heq
    obtain ⟨d, hd, hbooked⟩ := map_eq_some_iff.mp hdriver
    exact ⟨answers, s, trip, d, hrun, htrip, hd, hid, hstatus, hbooked⟩
  obtain ⟨⟨answers, s⟩, hrun, hobserve⟩ := exists_ok_of_observe
    (x := runSteps CabBookingService.step (new ["A", "B"] [("D1", .mini), ("D2", .mini)])
      (offered ++ [.declineTrip 0 1, .search 0 ["D2"], .go 0, .go 0, .requestRide 1 "B" .mini,
        .search 1 ["D1"], .go 1, .book 1 100]))
    (f := fun r : List Answer × CabBookingService =>
      ((r.2.trips.get? 1).map fun trip => (trip.driverId, trip.status.isTerminal),
        (r.2.trips.get? 2).map fun trip => (trip.driverId, trip.status.isTerminal)))
    (b := (some ("D1", false), some ("D1", false))) (by decide +kernel)
  obtain ⟨htrip, htrip'⟩ := Prod.mk.inj hobserve
  obtain ⟨trip, htrip, heq⟩ := map_eq_some_iff.mp htrip
  obtain ⟨trip', htrip', heq'⟩ := map_eq_some_iff.mp htrip'
  obtain ⟨hid, hopen⟩ := Prod.mk.inj heq
  obtain ⟨hid', hopen'⟩ := Prod.mk.inj heq'
  exact ⟨answers, s, trip, trip', hrun, htrip, htrip', hid, hid', hopen, hopen'⟩

end CabBookingService

end InterviewPrep.CabBooking
