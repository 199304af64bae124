/-
  The locks of the trips (`Locked`): a thread has the lock of the trip that its call is
  about and no other, and the trip is then in the state that the call expects.
  `Locked.section` says what a section does, to one trip at most.
-/
import InterviewPrep.CabBooking.Service
import InterviewPrep.Lib.Holdings

namespace InterviewPrep.CabBooking

open Lib Dict List Option

/-! ## Moves -/

namespace Trip

variable {trip trip' : Trip} {tripId : Nat} {target : TripStatus}
  {forced forced' : Option CabStatus}
  {reason : String}

theorem act_eq_ok (h : trip.act tripId target forced = .ok (trip', forced')) :
    target ∈ trip.status.transitions ∧ trip' = { trip with status := target } ∧
    forced' = forced := by
  rw [act, move] at h
  by_cases hmove : target ∈ trip.status.transitions
  · rw [if_neg (not_not.mpr hmove)] at h
    cases h
    exact ⟨hmove, rfl, rfl⟩
  · rw [if_pos hmove] at h
    cases h

theorem cancel_eq_ok (h : trip.cancel reason tripId = .ok (trip', forced')) :
    .cancelled ∈ trip.status.transitions ∧
      trip' = { trip with status := .cancelled, cancelReason := some reason } ∧
      forced' = some .available := by
  rw [cancel] at h
  cases hact : trip.act tripId .cancelled (some .available) with
  | error =>
    rw [hact] at h
    cases h
  | ok moved =>
    obtain ⟨moved, forced⟩ := moved
    obtain ⟨hmove, rfl, rfl⟩ := act_eq_ok hact
    rw [hact] at h
    cases h
    exact ⟨hmove, rfl, rfl⟩

end Trip

def TripStatus.carries : TripStatus → Option CabStatus
  | .requested => some .booked
  | .accepted => some .booked
  | .driverArrived => some .booked
  | .started => some .onTrip
  | .completed => none
  | .cancelled => none

/-- What is written to a driver: the status of the trip, or `AVAILABLE` at its end. -/
def TripStatus.writes (status : TripStatus) : CabStatus := status.carries.getD .available

variable {old target : TripStatus}

theorem carries_eq_none {status : TripStatus} :
    status.carries = none ↔ status.isTerminal = true := by
  cases status <;> decide

theorem not_terminal_of_transitions (h : target ∈ old.transitions) : old.isTerminal = false := by
  cases old <;> first | rfl | cases h

theorem carries_of_transitions (h : target ∈ old.transitions)
    (htarget : target = .accepted ∨ target = .driverArrived) : target.carries = old.carries := by
  cases old <;> obtain rfl | rfl := htarget <;> first | rfl | (revert h; decide)

/-! ## What a call expects of its trip -/

/-- The trip is in the state that a call expects of it. -/
def Call.Fits (trip : Trip) : Call → Prop
  | .matching (.decline _) search => trip.status = .requested ∧
      (∀ d, d ∈ search.excluded ↔ d = trip.driverId ∨ d ∈ trip.declinedBy) ∧
      ∀ d ∈ search.ranked, d ∉ search.excluded
  | .forcing _ before status => before.isTerminal = false ∧ status = trip.status.writes
  | .releasing _ => trip.status.isTerminal = true
  | .reassigning _ driverId => trip.status = .requested ∧ driverId ≠ trip.driverId ∧
      driverId ∉ trip.declinedBy
  | .swapping _ driverId => trip.status = .requested ∧ driverId ∉ trip.declinedBy ∧
      driverId ≠ trip.driverId
  | _ => True

/-- What a call is engaged in: the trip whose lock it has, the driver it has claimed, the rider it
    has reserved; what the driver of the trip was last written for or is to be given; whether it has
    still to release the rider. -/
structure Face where
  trip : Option Nat
  driver : Option String
  rider : Option String
  before : Option TripStatus
  offered : Option String
  ending : Bool

def Face.none : Face := ⟨.none, .none, .none, .none, .none, false⟩

def Call.face (c : Call) : Face :=
  match c with
  | .matching (.request riderId) _ => { Face.none with rider := some riderId }
  | .matching (.decline tripId) _ => { Face.none with trip := some tripId }
  | .booking riderId _ driverId => { Face.none with rider := some riderId, driver := some driverId }
  | .dropping riderId _ => { Face.none with rider := some riderId }
  | .forcing tripId before _ =>
    { Face.none with trip := some tripId, before := some before, ending := true }
  | .releasing tripId => { Face.none with trip := some tripId, ending := true }
  | .reassigning tripId driverId => { Face.none with trip := some tripId, driver := some driverId }
  | .swapping tripId driverId => { Face.none with trip := some tripId, offered := some driverId }

def faceOf (c : Option Call) : Face := c.elim Face.none Call.face

namespace CabBookingService

/-- The face of the thread that has the lock of a trip. -/
def faceAt (s : CabBookingService) (trip : Trip) : Face :=
  faceOf (trip.holder.bind s.calls.get?)

/-- A call has the lock of its trip, and finds it as it expects. -/
structure Locked (s : CabBookingService) : Prop where
  holder : ∀ tripId trip t, s.trips.get? tripId = some trip → trip.holder = some t →
    ∃ c, s.calls.get? t = some c ∧ c.face.trip = some tripId
  locked : ∀ t c tripId, s.calls.get? t = some c → c.face.trip = some tripId →
    ∃ trip, s.trips.get? tripId = some trip ∧ trip.holder = some t ∧ c.Fits trip
  fresh : ∀ tripId trip, s.trips.get? tripId = some trip → tripId < s.nextTrip

/-! ## The effect of a section -/

/-- What a section does, for a thread `t` with the call `c` before it and `next` after it. -/
inductive Section (s s' : CabBookingService) (t : Nat) : Option Call → Option Call → Prop
  | quiet {c next : Option Call} (hface : faceOf next = faceOf c)
      (hfits : ∀ trip c', next = some c' → (∀ c₀, c = some c₀ → c₀.Fits trip) → c'.Fits trip)
      (htrips : s'.trips = s.trips) (hdrivers : s'.drivers = s.drivers)
      (hactive : s'.activeTripByRider = s.activeTripByRider)
      (hnextTrip : s'.nextTrip = s.nextTrip) :
      Section s s' t c next
  | reserved {riderId : String} {search : Search}
      (hfree : s.activeTripByRider.get? riderId = none) (htrips : s'.trips = s.trips)
      (hdrivers : s'.drivers = s.drivers)
      (hactive : s'.activeTripByRider = s.activeTripByRider.set riderId none)
      (hnextTrip : s'.nextTrip = s.nextTrip) :
      Section s s' t none (some (.matching (.request riderId) search))
  | claimed {purpose : Purpose} {search : Search} {driverId : String} {rest : List String}
      {d : Driver} (hranked : search.ranked = driverId :: rest)
      (hd : s.drivers.get? driverId = some d) (hstatus : d.status = .available)
      (htrips : s'.trips = s.trips)
      (hdrivers : s'.drivers = s.drivers.set driverId (d.forceStatus .booked))
      (hactive : s'.activeTripByRider = s.activeTripByRider)
      (hnextTrip : s'.nextTrip = s.nextTrip) :
      Section s s' t (some (.matching purpose search))
        (some (claimed purpose search.cabType driverId))
  | booked {riderId driverId : String} {cabType : CabType} {fare : Int}
      (htrips : s'.trips = s.trips.set s.nextTrip (Trip.new riderId driverId cabType fare))
      (hdrivers : s'.drivers = s.drivers)
      (hactive : s'.activeTripByRider = s.activeTripByRider.set riderId (some s.nextTrip))
      (hnextTrip : s'.nextTrip = s.nextTrip + 1) :
      Section s s' t (some (.booking riderId cabType driverId)) none
  | dropped {riderId : String} {thrown : Thrown} (htrips : s'.trips = s.trips)
      (hdrivers : s'.drivers = s.drivers)
      (hactive : s'.activeTripByRider = s.activeTripByRider.erase riderId)
      (hnextTrip : s'.nextTrip = s.nextTrip) : Section s s' t (some (.dropping riderId thrown)) none
  | moved {tripId : Nat} {trip : Trip} {target : TripStatus}
      (htrip : s.trips.get? tripId = some trip) (hholder : trip.holder = none)
      (hmove : target ∈ trip.status.transitions) (hcarries : target.carries = trip.status.carries)
      (htrips : s'.trips = s.trips.set tripId { trip with status := target })
      (hdrivers : s'.drivers = s.drivers) (hactive : s'.activeTripByRider = s.activeTripByRider)
      (hnextTrip : s'.nextTrip = s.nextTrip) : Section s s' t none none
  | taken {c : Option Call} {tripId : Nat} {trip : Trip} {target : TripStatus}
      {reason : Option String} (htrip : s.trips.get? tripId = some trip)
      (hholder : c = none ∧ trip.holder = none ∨
        (∃ search, c = some (.matching (.decline tripId) search)) ∧ trip.holder = some t)
      (hmove : target ∈ trip.status.transitions)
      (htrips : s'.trips = s.trips.set tripId
        { trip with status := target, cancelReason := reason, holder := some t })
      (hdrivers : s'.drivers = s.drivers) (hactive : s'.activeTripByRider = s.activeTripByRider)
      (hnextTrip : s'.nextTrip = s.nextTrip) :
      Section s s' t c (some (.forcing tripId trip.status target.writes))
  | declining {tripId : Nat} {trip : Trip} {search : Search}
      (htrip : s.trips.get? tripId = some trip) (hholder : trip.holder = none)
      (hstatus : trip.status = .requested)
      (hexcluded : search.excluded = trip.driverId :: trip.declinedBy)
      (hranked : search.ranked = [])
      (htrips : s'.trips = s.trips.set tripId (trip.lock t)) (hdrivers : s'.drivers = s.drivers)
      (hactive : s'.activeTripByRider = s.activeTripByRider)
      (hnextTrip : s'.nextTrip = s.nextTrip) :
      Section s s' t none (some (.matching (.decline tripId) search))
  | written {tripId : Nat} {trip : Trip} {before : TripStatus} {status : CabStatus}
      (htrip : s.trips.get? tripId = some trip) (hopen : trip.status.isTerminal = false)
      (htrips : s'.trips = s.trips.set tripId trip.unlock)
      (hdrivers : s'.drivers = (s.forceStatus trip.driverId status).drivers)
      (hactive : s'.activeTripByRider = s.activeTripByRider)
      (hnextTrip : s'.nextTrip = s.nextTrip) :
      Section s s' t (some (.forcing tripId before status)) none
  | freed {tripId : Nat} {trip : Trip} {before : TripStatus} {status : CabStatus}
      (htrip : s.trips.get? tripId = some trip) (hended : trip.status.isTerminal = true)
      (htrips : s'.trips = s.trips)
      (hdrivers : s'.drivers = (s.forceStatus trip.driverId status).drivers)
      (hactive : s'.activeTripByRider = s.activeTripByRider)
      (hnextTrip : s'.nextTrip = s.nextTrip) :
      Section s s' t (some (.forcing tripId before status)) (some (.releasing tripId))
  | released {tripId : Nat} {trip : Trip} (htrip : s.trips.get? tripId = some trip)
      (htrips : s'.trips = s.trips.set tripId trip.unlock) (hdrivers : s'.drivers = s.drivers)
      (hactive : s'.activeTripByRider =
        if s.activeTripByRider.get? trip.riderId = some (some tripId) then
          s.activeTripByRider.erase trip.riderId
        else s.activeTripByRider)
      (hnextTrip : s'.nextTrip = s.nextTrip) : Section s s' t (some (.releasing tripId)) none
  | reassigned {tripId : Nat} {trip trip' : Trip} {driverId : String}
      (htrip : s.trips.get? tripId = some trip) (hdecline : trip.decline tripId = .ok trip')
      (htrips : s'.trips = s.trips.set tripId trip')
      (hdrivers : s'.drivers = (s.forceStatus trip.driverId .available).drivers)
      (hactive : s'.activeTripByRider = s.activeTripByRider)
      (hnextTrip : s'.nextTrip = s.nextTrip) :
      Section s s' t (some (.reassigning tripId driverId)) (some (.swapping tripId driverId))
  | swapped {tripId : Nat} {trip : Trip} {driverId : String}
      (htrip : s.trips.get? tripId = some trip)
      (htrips : s'.trips = s.trips.set tripId (trip.offer driverId).unlock)
      (hdrivers : s'.drivers = s.drivers) (hactive : s'.activeTripByRider = s.activeTripByRider)
      (hnextTrip : s'.nextTrip = s.nextTrip) :
    Section s s' t (some (.swapping tripId driverId)) none
  | switched {c : Option Call} {driverId : String} {d : Driver} {status : CabStatus}
      (hd : s.drivers.get? driverId = some d) (hfree : d.status = .available ∨ d.status = .offline)
      (hstatus : status = .available ∨ status = .offline) (htrips : s'.trips = s.trips)
      (hdrivers : s'.drivers = s.drivers.set driverId (d.forceStatus status))
      (hactive : s'.activeTripByRider = s.activeTripByRider)
      (hnextTrip : s'.nextTrip = s.nextTrip) :
      Section s s' t c c

/-- A step is a section of the thread `t`. -/
structure Turn (s s' : CabBookingService) (t : Nat) (next : Option Call) : Prop where
  calls : s'.calls = s.calls.put t next
  effect : Section s s' t (s.calls.get? t) next

variable {s s' : CabBookingService} {t tripId : Nat} {c next : Option Call} {call : Call}
  {trip trip' : Trip}

theorem Turn.same (s : CabBookingService) (t : Nat) : Turn s s t (s.calls.get? t) :=
  ⟨(put_self rfl).symm, .quiet rfl (fun _ c' hc h => h c' hc) rfl rfl rfl rfl⟩

theorem Turn.resumed {s0 : CabBookingService} (hcalls : s0.calls = s.calls)
    (heffect : Section s (s0.resume t next) t (s.calls.get? t) next) :
    Turn s (s0.resume t next) t next :=
  ⟨by rw [CabBookingService.resume, hcalls], heffect⟩

theorem Turn.resume {call' : Call} (hcall : s.calls.get? t = some call)
    (hface : call'.face = call.face) (hfits : ∀ trip, call.Fits trip → call'.Fits trip) :
    Turn s (s.resume t (some call')) t (some call') := by
  refine ⟨rfl, ?_⟩
  rw [hcall]
  refine .quiet hface (fun trip c' hc h => ?_) rfl rfl rfl rfl
  cases hc
  exact hfits trip (h call rfl)

theorem turn_compareAndSet {driverId : String} {expected status : CabStatus}
    (hexpected : expected = .available ∨ expected = .offline)
    (hstatus : status = .available ∨ status = .offline) :
    ∃ t next, Turn s (s.compareAndSet driverId expected status).2 t next := by
  rw [compareAndSet]
  split
  · exact ⟨0, _, .same s 0⟩
  next hd =>
  rw [Driver.compareAndSet]
  split
  · exact ⟨0, _, .same s 0⟩
  next hset =>
  split at hset
  · cases hset
  next hfound =>
  cases hset
  rw [not_not] at hfound
  exact ⟨0, s.calls.get? 0, (put_self rfl).symm,
    .switched hd (hfound ▸ hexpected) hstatus rfl rfl rfl rfl⟩

theorem turn_requestRide (hcall : s.calls.get? t = none) (riderId : String) (cabType : CabType) :
    ∃ next, Turn s (s.requestRide t riderId cabType).2 t next := by
  have hsame : ∃ next, Turn s s t next := ⟨_, .same s t⟩
  rw [requestRide]
  split
  · exact hsame
  split
  · exact hsame
  next hfree =>
  rw [Bool.not_eq_true, isSome_eq_false_iff, isNone_iff_eq_none] at hfree
  refine ⟨_, .resumed rfl ?_⟩
  rw [hcall]
  exact .reserved hfree rfl rfl rfl rfl

theorem turn_searchRadius (found : List String) :
    ∃ next, Turn s (s.searchRadius t found).2 t next := by
  have hsame : ∃ next, Turn s s t next := ⟨_, .same s t⟩
  rw [searchRadius]
  split
  next purpose _ hcall =>
    split
    next =>
      refine ⟨_, .resume hcall (by cases purpose <;> rfl) fun trip hfits => ?_⟩
      cases purpose with
      | request => trivial
      | decline =>
        obtain ⟨hstatus, hexcluded, -⟩ := hfits
        refine ⟨hstatus, hexcluded, fun d hd => ?_⟩
        have heligible := (mem_filter.mp hd).2
        rw [eligible] at heligible
        split at heligible
        · cases heligible
        · rw [Bool.and_eq_true, Bool.and_eq_true] at heligible
          exact of_decide_eq_true heligible.1.1
    · exact hsame
  · exact hsame

theorem turn_book (fare : Int) : ∃ next, Turn s (s.book t fare).2 t next := by
  have hsame : ∃ next, Turn s s t next := ⟨_, .same s t⟩
  rw [book]
  split
  next hcall =>
    refine ⟨none, rfl, ?_⟩
    rw [hcall]
    exact .booked rfl rfl rfl rfl
  · exact hsame

/-- What an action of a trip may do: a move, with the status that the trip then gives its driver. -/
def Acts (action : Trip → Nat → Except Thrown (Trip × Option CabStatus)) : Prop :=
  ∀ trip tripId trip' forced, action trip tripId = .ok (trip', forced) →
    ∃ target reason, target ∈ trip.status.transitions ∧
      trip' = { trip with status := target, cancelReason := reason } ∧
      ((forced = none ∧ target.carries = trip.status.carries ∧ reason = trip.cancelReason) ∨
        forced = some target.writes)

theorem acts_act {target : TripStatus} {forced : Option CabStatus}
    (h : forced = some target.writes ∨
      forced = none ∧ (target = .accepted ∨ target = .driverArrived)) :
    Acts fun trip tripId => trip.act tripId target forced := by
  intro trip tripId trip' forced' hact
  obtain ⟨hmove, rfl, rfl⟩ := Trip.act_eq_ok hact
  refine ⟨target, trip.cancelReason, hmove, rfl, ?_⟩
  obtain hwrites | ⟨hnone, htarget⟩ := h
  · exact .inr hwrites
  · exact .inl ⟨hnone, carries_of_transitions hmove htarget, rfl⟩

theorem acts_cancel (reason : String) : Acts fun trip => trip.cancel reason := by
  intro trip tripId trip' forced hcancel
  obtain ⟨hmove, rfl, rfl⟩ := Trip.cancel_eq_ok hcancel
  exact ⟨.cancelled, some reason, hmove, rfl, .inr rfl⟩

theorem turn_apply (hcall : s.calls.get? t = none)
    {action : Trip → Nat → Except Thrown (Trip × Option CabStatus)} (hacts : Acts action) :
    ∃ next, Turn s (s.apply t tripId action).2 t next := by
  have hsame : ∃ next, Turn s s t next := ⟨_, .same s t⟩
  rw [apply]
  split
  · exact hsame
  next htrip =>
  split
  · exact hsame
  next hholder =>
  rw [Bool.not_eq_true, isSome_eq_false_iff, isNone_iff_eq_none] at hholder
  split
  · exact hsame
  next haction =>
    obtain ⟨target, reason, hmove, rfl, ⟨-, hcarries, rfl⟩ | hforced⟩ := hacts _ _ _ _ haction
    · refine ⟨none, (put_self hcall).symm, ?_⟩
      rw [hcall]
      exact .moved htrip hholder hmove hcarries rfl rfl rfl rfl
    · cases hforced
  next haction =>
  obtain ⟨target, reason, hmove, rfl, ⟨hforced, -⟩ | hforced⟩ := hacts _ _ _ _ haction
  · cases hforced
  · cases hforced
    refine ⟨_, .resumed rfl ?_⟩
    rw [hcall]
    exact .taken htrip (.inl ⟨rfl, hholder⟩) hmove rfl rfl rfl rfl

theorem turn_declineTrip (hcall : s.calls.get? t = none) :
    ∃ next, Turn s (s.declineTrip t tripId).2 t next := by
  have hsame : ∃ next, Turn s s t next := ⟨_, .same s t⟩
  rw [declineTrip]
  split
  · exact hsame
  next htrip =>
  split
  · exact hsame
  next hholder =>
  rw [Bool.not_eq_true, isSome_eq_false_iff, isNone_iff_eq_none] at hholder
  split
  · exact hsame
  next hstatus =>
  refine ⟨_, .resumed rfl ?_⟩
  rw [hcall]
  exact .declining htrip hholder (not_not.mp hstatus) rfl rfl rfl rfl rfl rfl

theorem Locked.goMatching (h : s.Locked) {purpose : Purpose} {search : Search}
    (hcall : s.calls.get? t = some (.matching purpose search)) :
    ∃ next, Turn s (s.goMatching t purpose search).2 t next := by
  have hsame : ∃ next, Turn s s t next := ⟨_, .same s t⟩
  unfold CabBookingService.goMatching
  split
  next hranked =>
    split
    · refine ⟨_, .resume hcall (by cases purpose <;> rfl) fun trip hfits => ?_⟩
      cases purpose with
      | request => trivial
      | decline =>
        obtain ⟨hstatus, hexcluded, hnew⟩ := hfits
        exact ⟨hstatus, hexcluded, fun d hd => hnew d (hranked ▸ mem_cons_of_mem _ hd)⟩
    next hclaim =>
    obtain ⟨d, hd, hclaim⟩ := bind_eq_some_iff.mp hclaim
    rw [Driver.tryClaim, Driver.compareAndSet] at hclaim
    split at hclaim
    · cases hclaim
    next hstatus =>
    cases hclaim
    refine ⟨_, .resumed rfl ?_⟩
    rw [hcall]
    exact .claimed hranked hd (not_not.mp hstatus) rfl rfl rfl rfl
  split
  · exact hsame
  cases purpose with
  | request => exact ⟨_, .resume hcall rfl fun _ _ => trivial⟩
  | decline tripId =>
  obtain ⟨trip, htrip, hholder, hstatus, -⟩ := h.locked t _ tripId hcall rfl
  have hcancel : trip.cancel "no driver accepted" tripId =
      .ok ({ trip with status := .cancelled, cancelReason := some "no driver accepted" },
        some .available) := by
    rw [Trip.cancel, Trip.act, Trip.move, hstatus]
    rfl
  dsimp only
  rw [htrip]
  dsimp only
  rw [hcancel]
  refine ⟨_, .resumed rfl ?_⟩
  rw [hcall]
  have hmove : TripStatus.cancelled ∈ trip.status.transitions := by rw [hstatus]; decide
  have htrips : s.trips.set tripId { trip with
        status := .cancelled, cancelReason := some "no driver accepted" } =
      s.trips.set tripId { trip with
        status := .cancelled, cancelReason := some "no driver accepted", holder := some t } := by
    rw [← hholder]
  exact .taken htrip (.inr ⟨⟨search, rfl⟩, hholder⟩) hmove htrips rfl rfl rfl

theorem forceStatus_eq (s : CabBookingService) (driverId : String) (status : CabStatus) :
    ∃ drivers, s.forceStatus driverId status = { s with drivers := drivers } := by
  rw [forceStatus]
  split
  · exact ⟨s.drivers, rfl⟩
  · exact ⟨_, rfl⟩

theorem Locked.goTrip (h : s.Locked) (hcall : s.calls.get? t = some call)
    (hlocked : call.face.trip = some tripId) (htrip : s.trips.get? tripId = some trip) :
    ∃ next, Turn s (s.goTrip t call tripId trip).2 t next := by
  have hsame : ∃ next, Turn s s t next := ⟨_, .same s t⟩
  cases call with
  | forcing _ _ status =>
    cases hlocked
    obtain ⟨drivers, hforce⟩ := s.forceStatus_eq trip.driverId status
    have hdrivers := congrArg CabBookingService.drivers hforce
    rw [CabBookingService.goTrip, hforce]
    split
    next hended =>
      refine ⟨_, .resumed rfl ?_⟩
      rw [hcall]
      exact .freed htrip hended rfl hdrivers.symm rfl rfl
    next hopen =>
      rw [Bool.not_eq_true] at hopen
      refine ⟨_, .resumed rfl ?_⟩
      rw [hcall]
      exact .written htrip hopen rfl hdrivers.symm rfl rfl
  | releasing =>
    cases hlocked
    refine ⟨_, .resumed rfl ?_⟩
    rw [hcall]
    exact .released htrip rfl rfl rfl rfl
  | reassigning _ driverId =>
    cases hlocked
    obtain ⟨drivers, hforce⟩ := s.forceStatus_eq trip.driverId .available
    have hdrivers := congrArg CabBookingService.drivers hforce
    obtain ⟨trip0, htrip0, -, hstatus, -⟩ := h.locked t _ tripId hcall rfl
    rw [htrip] at htrip0
    cases htrip0
    rw [CabBookingService.goTrip, hforce]
    split
    next hdecline =>
      rw [Trip.decline, if_neg (not_not.mpr hstatus)] at hdecline
      cases hdecline
    next hdecline =>
      refine ⟨_, .resumed rfl ?_⟩
      rw [hcall]
      exact .reassigned htrip hdecline rfl hdrivers.symm rfl rfl
  | swapping =>
    cases hlocked
    refine ⟨_, .resumed rfl ?_⟩
    rw [hcall]
    exact .swapped htrip rfl rfl rfl rfl
  | _ => exact hsame

theorem Locked.go (h : s.Locked) (hcall : s.calls.get? t = some call) :
    ∃ next, Turn s (s.go t call).2 t next := by
  have hlocked : ∀ id, call.face.trip = some id → ∃ trip, s.trips.get? id = some trip ∧
      ∃ next, Turn s (s.goTrip t call id trip).2 t next := by
    intro id hlocked
    obtain ⟨trip, htrip, -⟩ := h.locked t call id hcall hlocked
    exact ⟨trip, htrip, h.goTrip hcall hlocked htrip⟩
  cases call with
  | matching => exact h.goMatching hcall
  | booking => exact ⟨_, .same s t⟩
  | dropping =>
    refine ⟨none, .resumed rfl ?_⟩
    rw [hcall]
    exact .dropped rfl rfl rfl rfl
  | forcing id _ _ | releasing id | reassigning id _ | swapping id _ =>
    obtain ⟨trip, htrip, hnext⟩ := hlocked id rfl
    rw [CabBookingService.go, htrip]
    exact hnext

theorem turn_start {first : Answer × CabBookingService}
    (hfirst : s.calls.get? t = none → ∃ next, Turn s first.2 t next) :
    ∃ next, Turn s (s.start t first).2 t next := by
  rw [start]
  split
  · exact ⟨_, .same s t⟩
  next hcall =>
  rw [Bool.not_eq_true, isSome_eq_false_iff, isNone_iff_eq_none] at hcall
  exact hfirst hcall

theorem Locked.turn (h : s.Locked) (op : Op) : ∃ t next, Turn s (s.act op).2 t next := by
  cases op with
  | requestRide t riderId cabType =>
    exact ⟨t, turn_start fun hcall => turn_requestRide hcall riderId cabType⟩
  | search t found => exact ⟨t, turn_searchRadius found⟩
  | book t fare => exact ⟨t, turn_book fare⟩
  | acceptTrip t =>
    exact ⟨t, turn_start fun hcall => turn_apply hcall (acts_act (.inr ⟨rfl, .inl rfl⟩))⟩
  | declineTrip t => exact ⟨t, turn_start fun hcall => turn_declineTrip hcall⟩
  | driverArrived t =>
    exact ⟨t, turn_start fun hcall => turn_apply hcall (acts_act (.inr ⟨rfl, .inr rfl⟩))⟩
  | startTrip t => exact ⟨t, turn_start fun hcall => turn_apply hcall (acts_act (.inl rfl))⟩
  | completeTrip t =>
    exact ⟨t, turn_start fun hcall => turn_apply hcall (acts_act (.inl rfl))⟩
  | cancelTrip t _ reason =>
    exact ⟨t, turn_start fun hcall => turn_apply hcall (acts_cancel reason)⟩
  | goOffline => exact turn_compareAndSet (.inl rfl) (.inr rfl)
  | goOnline => exact turn_compareAndSet (.inr rfl) (.inl rfl)
  | go t =>
    refine ⟨t, ?_⟩
    rw [act]
    split
    · exact ⟨_, .same s t⟩
    next hcall => exact h.go hcall

/-! ## The locks are kept -/

theorem call_of_face (h : (faceOf c).trip = some tripId) :
    ∃ call, c = some call ∧ call.face.trip = some tripId := by
  cases c with
  | none => cases h
  | some call => exact ⟨call, rfl, h⟩

theorem Locked.keep (h : s.Locked) (hcall : s.calls.get? t = c)
    (hcalls : s'.calls = s.calls.put t next) (htrips : s'.trips = s.trips)
    (hnextTrip : s'.nextTrip = s.nextTrip) (hface : (faceOf next).trip = (faceOf c).trip)
    (hfits : ∀ id trip c0, c = some c0 → s.trips.get? id = some trip → c0.face.trip = some id →
      c0.Fits trip → ∀ c', next = some c' → c'.Fits trip) : s'.Locked where
  holder := by
    intro id trip t' htrip hholder
    rw [htrips] at htrip
    obtain ⟨c0, hc0, hid⟩ := h.holder id trip t' htrip hholder
    rw [hcalls, Dict.get?_put]
    split
    next heq =>
      rw [heq, hcall] at hc0
      apply call_of_face
      rw [hface, hc0]
      exact hid
    · exact ⟨c0, hc0, hid⟩
  locked := by
    intro t' c' id hc' hid
    rw [hcalls, Dict.get?_put] at hc'
    rw [htrips]
    split at hc'
    next heq =>
      have hbefore : (faceOf c).trip = some id := by
        rw [← hface, hc']
        exact hid
      obtain ⟨c0, hc0, hid0⟩ := call_of_face hbefore
      obtain ⟨trip, htrip, hholder, hfit⟩ := h.locked t c0 id (hcall.trans hc0) hid0
      exact ⟨trip, htrip, heq ▸ hholder, hfits id trip c0 hc0 htrip hid0 hfit c' hc'⟩
    · exact h.locked t' c' id hc' hid
  fresh := by rw [htrips, hnextTrip]; exact h.fresh

theorem Locked.set (h : s.Locked) (hcall : s.calls.get? t = c)
    (hcalls : s'.calls = s.calls.put t next)
    (htrips : s'.trips = s.trips.set tripId trip') (hnextTrip : s.nextTrip ≤ s'.nextTrip)
    (hid : tripId < s'.nextTrip) (honly : ∀ id, (faceOf c).trip = some id → id = tripId)
    (hfree : ∀ trip t', s.trips.get? tripId = some trip → trip.holder = some t' → t' = t)
    (hnew : trip'.holder = none ∧ (faceOf next).trip = none ∨
      trip'.holder = some t ∧ (faceOf next).trip = some tripId ∧
        ∀ c', next = some c' → c'.Fits trip') : s'.Locked where
  holder := by
    intro id trip t' htrip hholder
    rw [htrips] at htrip
    rw [hcalls, Dict.get?_put]
    obtain ⟨rfl, rfl⟩ | ⟨hne, htrip⟩ := get?_set_some htrip
    · obtain ⟨hnone, -⟩ | ⟨hsome, hface, -⟩ := hnew
      · rw [hnone] at hholder
        cases hholder
      · rw [hsome] at hholder
        cases hholder
        rw [if_pos rfl]
        exact call_of_face hface
    obtain ⟨c0, hc0, hid0⟩ := h.holder id trip t' htrip hholder
    rw [if_neg ?_]
    · exact ⟨c0, hc0, hid0⟩
    · rintro rfl
      apply hne
      apply honly
      rw [← hcall, hc0]
      exact hid0
  locked := by
    intro t' c' id hc' hid'
    rw [hcalls, Dict.get?_put] at hc'
    rw [htrips]
    split at hc'
    next heq =>
      obtain ⟨-, hnone⟩ | ⟨hsome, hface, hfits⟩ := hnew
      · rw [hc'] at hnone
        rw [faceOf, elim_some, hid'] at hnone
        cases hnone
      · rw [hc'] at hface
        rw [faceOf, elim_some, hid'] at hface
        cases hface
        exact ⟨trip', get?_set_self _ _ _, heq ▸ hsome, hfits c' hc'⟩
    next hne =>
      obtain ⟨trip, htrip, hholder, hfit⟩ := h.locked t' c' id hc' hid'
      have hother : id ≠ tripId := by
        rintro rfl
        exact hne (hfree trip t' htrip hholder)
      exact ⟨trip, by rw [get?_set_of_ne _ _ hother, htrip], hholder, hfit⟩
  fresh := by
    intro id trip htrip
    rw [htrips] at htrip
    obtain ⟨rfl, -⟩ | ⟨-, htrip⟩ := get?_set_some htrip
    · exact hid
    · exact Nat.lt_of_lt_of_le (h.fresh id trip htrip) hnextTrip

theorem Locked.trip_of (h : s.Locked) (hcall : s.calls.get? t = some call)
    (hlocked : call.face.trip = some tripId) (htrip : s.trips.get? tripId = some trip) :
    trip.holder = some t ∧ call.Fits trip := by
  obtain ⟨trip0, htrip0, hholder, hfits⟩ := h.locked t call tripId hcall hlocked
  rw [htrip] at htrip0
  cases htrip0
  exact ⟨hholder, hfits⟩

theorem Locked.new_trip (h : s.Locked) : s.trips.get? s.nextTrip = none := by
  cases htrip : s.trips.get? s.nextTrip with
  | none => rfl
  | some trip => exact absurd (h.fresh _ trip htrip) (Nat.lt_irrefl _)

theorem fits_claimed {purpose : Purpose} {search : Search} {driverId : String} {rest : List String}
    (hranked : search.ranked = driverId :: rest) (h : (Call.matching purpose search).Fits trip) :
    (claimed purpose search.cabType driverId).Fits trip := by
  cases purpose with
  | request => trivial
  | decline =>
    obtain ⟨hstatus, hexcluded, hnew⟩ := h
    have hout := hnew driverId (hranked ▸ mem_cons_self)
    rw [hexcluded, not_or] at hout
    exact ⟨hstatus, hout⟩

theorem decline_eq_ok (h : trip.decline tripId = .ok trip') :
    trip.status = .requested ∧ trip' = { trip with
      declinedBy :=
        if trip.driverId ∈ trip.declinedBy then trip.declinedBy
        else trip.declinedBy ++ [trip.driverId] } := by
  rw [Trip.decline] at h
  by_cases hstatus : trip.status = .requested
  · rw [if_neg (not_not.mpr hstatus)] at h
    cases h
    exact ⟨hstatus, rfl⟩
  · rw [if_pos hstatus] at h
    cases h

theorem holder_unique {t' : Nat} (htrip : s.trips.get? tripId = some trip)
    (hholder : trip.holder = none ∨ trip.holder = some t)
    (htrip' : s.trips.get? tripId = some trip') (hholder' : trip'.holder = some t') : t' = t := by
  rw [htrip] at htrip'
  cases htrip'
  obtain hnone | hsome := hholder
  · rw [hnone] at hholder'
    cases hholder'
  · rw [hsome] at hholder'
    exact (some.inj hholder').symm

theorem Locked.step (h : s.Locked) (hturn : Turn s s' t next) : s'.Locked := by
  obtain ⟨c, hcall⟩ : ∃ c, s.calls.get? t = c := ⟨_, rfl⟩
  have hcalls := hturn.calls
  have heffect := hcall ▸ hturn.effect
  have hlt : ∀ {id : Nat} {trip : Trip}, s.trips.get? id = some trip →
      s'.nextTrip = s.nextTrip → id < s'.nextTrip :=
    fun htrip hnextTrip => hnextTrip ▸ h.fresh _ _ htrip
  cases heffect with
  | quiet hface hfits htrips _ _ hnextTrip =>
    refine h.keep hcall hcalls htrips hnextTrip (by rw [hface]) ?_
    intro id trip c0 hc0 _ _ hfit c' hc'
    refine hfits trip c' hc' fun c1 hc1 => ?_
    rw [hc0] at hc1
    cases hc1
    exact hfit
  | reserved _ htrips _ _ hnextTrip =>
    exact h.keep hcall hcalls htrips hnextTrip rfl (by rintro _ _ _ ⟨⟩)
  | @claimed purpose _ _ _ _ hranked _ _ htrips _ _ hnextTrip =>
    refine h.keep hcall hcalls htrips hnextTrip (by cases purpose <;> rfl) ?_
    rintro id trip _ ⟨⟩ _ _ hfit _ ⟨⟩
    exact fits_claimed hranked hfit
  | booked htrips =>
    refine h.set hcall hcalls htrips (by omega) (by omega) (by rintro _ ⟨⟩) ?_ (.inl ⟨rfl, rfl⟩)
    intro trip t' htrip
    rw [h.new_trip] at htrip
    cases htrip
  | dropped htrips _ _ hnextTrip =>
    exact h.keep hcall hcalls htrips hnextTrip rfl (by rintro _ _ _ ⟨⟩ _ ⟨⟩)
  | @moved _ _ _ htrip hholder _ _ htrips _ _ hnextTrip =>
    exact h.set hcall hcalls htrips (Nat.le_of_eq hnextTrip.symm) (hlt htrip hnextTrip)
      (by rintro _ ⟨⟩) (fun _ _ => holder_unique htrip (.inl hholder)) (.inl ⟨hholder, rfl⟩)
  | @taken _ _ trip _ _ htrip hholder hmove htrips _ _ hnextTrip =>
    have hheld : trip.holder = none ∨ trip.holder = some t := by
      obtain ⟨-, hnone⟩ | ⟨-, hsome⟩ := hholder
      · exact .inl hnone
      · exact .inr hsome
    refine h.set hcall hcalls htrips (Nat.le_of_eq hnextTrip.symm) (hlt htrip hnextTrip) ?_
      (fun _ _ => holder_unique htrip hheld) (.inr ⟨rfl, rfl, ?_⟩)
    · intro id hid
      obtain ⟨rfl, -⟩ | ⟨⟨search, rfl⟩, -⟩ := hholder
      · cases hid
      · exact (some.inj hid).symm
    · rintro _ ⟨⟩
      exact ⟨not_terminal_of_transitions hmove, rfl⟩
  | @declining _ _ _ htrip hholder hstatus hexcluded hranked htrips _ _ hnextTrip =>
    refine h.set hcall hcalls htrips (Nat.le_of_eq hnextTrip.symm) (hlt htrip hnextTrip)
      (by rintro _ ⟨⟩) (fun _ _ => holder_unique htrip (.inl hholder)) (.inr ⟨rfl, rfl, ?_⟩)
    rintro _ ⟨⟩
    refine ⟨hstatus, fun d => ?_, fun d hd => ?_⟩
    · rw [hexcluded, mem_cons]
      rfl
    · rw [hranked] at hd
      cases hd
  | @written tripId trip before status htrip _ htrips _ _ hnextTrip
  | @released tripId trip htrip htrips _ _ hnextTrip
  | @swapped _ _ _ htrip htrips _ _ hnextTrip =>
    obtain ⟨hholder, -⟩ := h.trip_of hcall rfl htrip
    exact h.set hcall hcalls htrips (Nat.le_of_eq hnextTrip.symm) (hlt htrip hnextTrip)
      (fun _ hid => (some.inj hid).symm) (fun _ _ => holder_unique htrip (.inr hholder))
      (.inl ⟨rfl, rfl⟩)
  | @freed _ _ _ _ htrip hended htrips _ _ hnextTrip =>
    refine h.keep hcall hcalls htrips hnextTrip rfl ?_
    rintro id trip' _ ⟨⟩ htrip' ⟨⟩ _ _ ⟨⟩
    rw [htrip] at htrip'
    cases htrip'
    exact hended
  | @reassigned _ _ _ _ htrip hdecline htrips _ _ hnextTrip =>
    obtain ⟨hholder, -, hother, hnew⟩ := h.trip_of hcall rfl htrip
    obtain ⟨hstatus, rfl⟩ := decline_eq_ok hdecline
    refine h.set hcall hcalls htrips (Nat.le_of_eq hnextTrip.symm) (hlt htrip hnextTrip)
      (fun _ hid => (some.inj hid).symm) (fun _ _ => holder_unique htrip (.inr hholder))
      (.inr ⟨hholder, rfl, ?_⟩)
    rintro _ ⟨⟩
    refine ⟨hstatus, ?_, hother⟩
    split
    · exact hnew
    · rw [mem_append, mem_singleton, not_or]
      exact ⟨hnew, hother⟩
  | switched _ _ _ htrips _ _ hnextTrip =>
    refine h.keep hcall hcalls htrips hnextTrip rfl ?_
    intro id trip c0 hc0 _ _ hfit c' hc'
    rw [hc0] at hc'
    cases hc'
    exact hfit

end CabBookingService

end InterviewPrep.CabBooking
