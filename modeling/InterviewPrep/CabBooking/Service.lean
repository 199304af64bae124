/-
  A driver, whose status is written under its own lock, and a trip with its state machine.  A
  method of a trip that writes the status of its driver gives the status to be written: that is a
  section of its own.  `holder` is the thread that has the lock of a trip, and `offers` the
  drivers that it was offered to.

  The booking service over any number of threads: a call is a list of sections, each up to the
  next time a lock is taken, and a step is one section of one call.  A call that wants a lock that
  another one holds waits.

  What the geo index finds and the strategy makes of it is a part of the step that searches, and
  the fare of the step that books: the drivers are what the claims are about.
-/
import InterviewPrep.Lib.Dict
import InterviewPrep.Lib.Run

namespace InterviewPrep.CabBooking

open Lib

inductive CabStatus where
  | available
  | booked
  | onTrip
  | offline
  deriving DecidableEq

inductive TripStatus where
  | requested
  | accepted
  | driverArrived
  | started
  | completed
  | cancelled
  deriving DecidableEq

inductive CabType where
  | mini
  | sedan
  | suv
  | premium
  | auto
  deriving DecidableEq

inductive Thrown where
  | riderNotFound (riderId : String)
  | driverNotFound (driverId : String)
  | tripNotFound (tripId : Nat)
  | riderBusy (riderId : String)
  | noDriverAvailable (cabType : CabType)
  | invalidTransition (tripId : Nat) (old new : TripStatus)
  | onlyPendingOffers (tripId : Nat)
  | noPendingOffer (tripId : Nat)

/-! ## Drivers -/

structure Driver where
  cabType : CabType
  status : CabStatus

namespace Driver

variable (d : Driver)

def compareAndSet (expected new : CabStatus) : Option Driver :=
  if d.status ≠ expected then none else some { d with status := new }

/-- The driver booked, or `none` if another call was first. -/
def tryClaim : Option Driver := d.compareAndSet .available .booked

def forceStatus (new : CabStatus) : Driver := { d with status := new }

end Driver

/-! ## Trips -/

namespace TripStatus

/-- `_TRANSITIONS`. -/
def transitions : TripStatus → List TripStatus
  | requested => [accepted, cancelled]
  | accepted => [driverArrived, cancelled]
  | driverArrived => [started, cancelled]
  | started => [completed]
  | completed => []
  | cancelled => []

def isTerminal : TripStatus → Bool
  | completed => true
  | cancelled => true
  | _ => false

end TripStatus

structure Trip where
  riderId : String
  driverId : String
  cabType : CabType
  fare : Int
  status : TripStatus
  cancelReason : Option String
  declinedBy : List String
  offers : List String
  holder : Option Nat

namespace Trip

/-- A trip that is offered to its first driver. -/
def new (riderId driverId : String) (cabType : CabType) (fare : Int) : Trip :=
  { riderId := riderId
    driverId := driverId
    cabType := cabType
    fare := fare
    status := .requested
    cancelReason := none
    declinedBy := []
    offers := [driverId]
    holder := none }

variable (trip : Trip)

def move (tripId : Nat) (target : TripStatus) : Except Thrown Trip :=
  if target ∉ trip.status.transitions then .error (.invalidTransition tripId trip.status target)
  else .ok { trip with status := target }

/-- A move, and the status to be written to the driver. -/
def act (tripId : Nat) (target : TripStatus) (forced : Option CabStatus) :
    Except Thrown (Trip × Option CabStatus) :=
  match trip.move tripId target with
  | .error thrown => .error thrown
  | .ok moved => .ok (moved, forced)

def accept (tripId : Nat) : Except Thrown (Trip × Option CabStatus) :=
  trip.act tripId .accepted none

def arrive (tripId : Nat) : Except Thrown (Trip × Option CabStatus) :=
  trip.act tripId .driverArrived none

def start (tripId : Nat) : Except Thrown (Trip × Option CabStatus) :=
  trip.act tripId .started (some .onTrip)

def complete (tripId : Nat) : Except Thrown (Trip × Option CabStatus) :=
  trip.act tripId .completed (some .available)

def cancel (reason : String) (tripId : Nat) : Except Thrown (Trip × Option CabStatus) :=
  match trip.act tripId .cancelled (some .available) with
  | .error thrown => .error thrown
  | .ok (moved, forced) => .ok ({ moved with cancelReason := some reason }, forced)

/-- The first section of `reassign`: the old driver has declined, and is to be freed. -/
def decline (tripId : Nat) : Except Thrown Trip :=
  if trip.status ≠ .requested then .error (.onlyPendingOffers tripId)
  else .ok { trip with
    declinedBy :=
      if trip.driverId ∈ trip.declinedBy then trip.declinedBy
      else trip.declinedBy ++ [trip.driverId] }

/-- The last section of `reassign`: the new driver takes the offer. -/
def offer (driverId : String) : Trip :=
  { trip with driverId := driverId, offers := trip.offers ++ [driverId] }

def unlock : Trip := { trip with holder := none }

def lock (t : Nat) : Trip := { trip with holder := some t }

end Trip

/-! ## Calls -/

/-- What a driver is claimed for. -/
inductive Purpose where
  | request (riderId : String)
  | decline (tripId : Nat)

/-- `_claim_driver`, between two sections: the radii to be searched, and the
    candidates to be tried. -/
structure Search where
  cabType : CabType
  excluded : List String
  tried : List String
  radii : List Nat
  ranked : List String

/-- What is left of a call. -/
inductive Call where
  | matching (purpose : Purpose) (search : Search)
  /-- `request_ride` has claimed the driver, the trip is to be created. -/
  | booking (riderId : String) (cabType : CabType) (driverId : String)
  /-- `request_ride` has failed, the rider is to be dropped. -/
  | dropping (riderId : String) (thrown : Thrown)
  /-- The trip has moved, the status of its driver is to be written. -/
  | forcing (tripId : Nat) (before : TripStatus) (status : CabStatus)
  /-- The trip has ended, its rider is to be released. -/
  | releasing (tripId : Nat)
  /-- `decline_trip` has claimed the driver, the old one is to be freed. -/
  | reassigning (tripId : Nat) (driverId : String)
  /-- The old driver is free, the new one is to be written. -/
  | swapping (tripId : Nat) (driverId : String)

inductive Op where
  | requestRide (t : Nat) (riderId : String) (cabType : CabType)
  /-- The drivers that a search returns and that are read as available, as the
      strategy ranks them. -/
  | search (t : Nat) (found : List String)
  /-- The trip is created, with its fare. -/
  | book (t : Nat) (fare : Int)
  | acceptTrip (t tripId : Nat)
  | declineTrip (t tripId : Nat)
  | driverArrived (t tripId : Nat)
  | startTrip (t tripId : Nat)
  | completeTrip (t tripId : Nat)
  | cancelTrip (t tripId : Nat) (reason : String)
  | goOffline (driverId : String)
  | goOnline (driverId : String)
  /-- The next section of the call of a thread. -/
  | go (t : Nat)

inductive Answer where
  /-- The call goes on. -/
  | going
  | trip (tripId : Nat)
  | changed (ok : Bool)
  | threw (thrown : Thrown)
  /-- The step is not one that can be taken now. -/
  | disabled

/-! ## The service -/

structure CabBookingService where
  riders : List String
  drivers : Dict String Driver
  trips : Dict Nat Trip
  activeTripByRider : Dict String (Option Nat)
  nextTrip : Nat
  calls : Dict Nat Call

namespace CabBookingService

/-- `SEARCH_RADII_KM`. -/
def searchRadii : List Nat := [2, 5, 10]

/-- A service with its riders and its drivers, who are all available. -/
def new (riders : List String) (drivers : List (String × CabType)) : CabBookingService :=
  { riders := riders
    drivers := Dict.ofList (drivers.map fun d => (d.1, ⟨d.2, .available⟩))
    trips := Dict.empty
    activeTripByRider := Dict.empty
    nextTrip := 1
    calls := Dict.empty }

variable (s : CabBookingService)

/-- The call of a thread goes on, or ends. -/
def resume (t : Nat) (next : Option Call) : CabBookingService :=
  { s with calls := s.calls.put t next }

def setTrip (tripId : Nat) (trip : Trip) : CabBookingService :=
  { s with trips := s.trips.set tripId trip }

/-- The status of a driver is overwritten under its lock. -/
def forceStatus (driverId : String) (status : CabStatus) : CabBookingService :=
  match s.drivers.get? driverId with
  | none => s
  | some d => { s with drivers := s.drivers.set driverId (d.forceStatus status) }

def compareAndSet (driverId : String) (expected new : CabStatus) : Answer × CabBookingService :=
  match s.drivers.get? driverId with
  | none => (.threw (.driverNotFound driverId), s)
  | some d =>
    match d.compareAndSet expected new with
    | none => (.changed false, s)
    | some d' => (.changed true, { s with drivers := s.drivers.set driverId d' })

/-- The first section of `request_ride`: the rider is reserved. -/
def requestRide (t : Nat) (riderId : String) (cabType : CabType) : Answer × CabBookingService :=
  if riderId ∉ s.riders then (.threw (.riderNotFound riderId), s)
  else if (s.activeTripByRider.get? riderId).isSome then (.threw (.riderBusy riderId), s)
  else
    (.going, CabBookingService.resume
      { s with activeTripByRider := s.activeTripByRider.set riderId none } t
      (some (.matching (.request riderId) ⟨cabType, [], [], searchRadii, []⟩)))

/-- A driver that a search returned is a candidate. -/
def eligible (search : Search) (driverId : String) : Bool :=
  match s.drivers.get? driverId with
  | none => false
  | some d => driverId ∉ search.excluded && driverId ∉ search.tried && d.cabType = search.cabType

def searchRadius (t : Nat) (found : List String) : Answer × CabBookingService :=
  match s.calls.get? t with
  | some (.matching purpose search) =>
    match search.ranked, search.radii with
    | [], _ :: radii =>
      (.going, s.resume t (some (.matching purpose { search with
        radii := radii, ranked := found.filter (s.eligible search) })))
    | _, _ => (.disabled, s)
  | _ => (.disabled, s)

def claimed (purpose : Purpose) (cabType : CabType) (driverId : String) : Call :=
  match purpose with
  | .request riderId => .booking riderId cabType driverId
  | .decline tripId => .reassigning tripId driverId

/-- The next section of `_claim_driver`: the next candidate is tried, or there is none left. -/
def goMatching (t : Nat) (purpose : Purpose) (search : Search) : Answer × CabBookingService :=
  match search.ranked with
  | driverId :: rest =>
    match (s.drivers.get? driverId).bind Driver.tryClaim with
    | none => (.going, s.resume t (some (.matching purpose
        { search with tried := driverId :: search.tried, ranked := rest })))
    | some d => (.going, CabBookingService.resume
        { s with drivers := s.drivers.set driverId d } t
        (some (claimed purpose search.cabType driverId)))
  | [] =>
    match search.radii with
    | _ :: _ => (.disabled, s)
    | [] =>
      match purpose with
      | .request riderId => (.going,
          s.resume t (some (.dropping riderId (.noDriverAvailable search.cabType))))
      | .decline tripId =>
        match s.trips.get? tripId with
        | none => (.disabled, s)
        | some trip =>
          match trip.cancel "no driver accepted" tripId with
          | .ok (trip', some status) => (.going, (s.setTrip tripId trip').resume t
              (some (.forcing tripId trip.status status)))
          | .ok (trip', none) => (.trip tripId, (s.setTrip tripId trip'.unlock).resume t none)
          | .error thrown => (.threw thrown, (s.setTrip tripId trip.unlock).resume t none)

/-- The trip of a request is created. -/
def book (t : Nat) (fare : Int) : Answer × CabBookingService :=
  match s.calls.get? t with
  | some (.booking riderId cabType driverId) =>
    (.trip s.nextTrip, CabBookingService.resume { s with
      trips := s.trips.set s.nextTrip (Trip.new riderId driverId cabType fare)
      activeTripByRider := s.activeTripByRider.set riderId (some s.nextTrip)
      nextTrip := s.nextTrip + 1 } t none)
  | _ => (.disabled, s)

/-- `_apply`, up to the section that writes the status of the driver. -/
def apply (t tripId : Nat) (action : Trip → Nat → Except Thrown (Trip × Option CabStatus)) :
    Answer × CabBookingService :=
  match s.trips.get? tripId with
  | none => (.threw (.tripNotFound tripId), s)
  | some trip =>
    if trip.holder.isSome then (.disabled, s)
    else
      match action trip tripId with
      | .error thrown => (.threw thrown, s)
      | .ok (trip', none) => (.trip tripId, s.setTrip tripId trip')
      | .ok (trip', some status) => (.going, (s.setTrip tripId (trip'.lock t)).resume t
          (some (.forcing tripId trip.status status)))

/-- The first section of `decline_trip`. -/
def declineTrip (t tripId : Nat) : Answer × CabBookingService :=
  match s.trips.get? tripId with
  | none => (.threw (.tripNotFound tripId), s)
  | some trip =>
    if trip.holder.isSome then (.disabled, s)
    else if trip.status ≠ .requested then (.threw (.noPendingOffer tripId), s)
    else (.going, (s.setTrip tripId (trip.lock t)).resume t
      (some (.matching (.decline tripId)
        ⟨trip.cabType, trip.driverId :: trip.declinedBy, [], searchRadii, []⟩)))

/-- The next section of a call that has the lock of a trip. -/
def goTrip (t : Nat) (call : Call) (tripId : Nat) (trip : Trip) : Answer × CabBookingService :=
  match call with
  | .forcing _ _ status =>
    if trip.status.isTerminal then
      (.going, (s.forceStatus trip.driverId status).resume t (some (.releasing tripId)))
    else
      (.trip tripId,
        ((s.forceStatus trip.driverId status).setTrip tripId trip.unlock).resume t none)
  | .releasing _ =>
    (.trip tripId, (CabBookingService.setTrip { s with
      activeTripByRider :=
        if s.activeTripByRider.get? trip.riderId = some (some tripId) then
          s.activeTripByRider.erase trip.riderId
        else s.activeTripByRider } tripId trip.unlock).resume t none)
  | .reassigning _ driverId =>
    match trip.decline tripId with
    | .error thrown => (.threw thrown, (s.setTrip tripId trip.unlock).resume t none)
    | .ok trip' => (.going, ((s.forceStatus trip.driverId .available).setTrip tripId trip').resume t
        (some (.swapping tripId driverId)))
  | .swapping _ driverId =>
    (.trip tripId, (s.setTrip tripId (trip.offer driverId).unlock).resume t none)
  | _ => (.disabled, s)

/-- The next section of any call. -/
def go (t : Nat) (call : Call) : Answer × CabBookingService :=
  match call with
  | .matching purpose search => s.goMatching t purpose search
  | .booking _ _ _ => (.disabled, s)
  | .dropping riderId thrown => (.threw thrown, CabBookingService.resume
      { s with activeTripByRider := s.activeTripByRider.erase riderId } t none)
  | .forcing tripId _ _ | .releasing tripId | .reassigning tripId _ | .swapping tripId _ =>
    match s.trips.get? tripId with
    | none => (.disabled, s)
    | some trip => s.goTrip t call tripId trip

/-- A call starts on a thread that is within none. -/
def start (t : Nat) (first : Answer × CabBookingService) : Answer × CabBookingService :=
  if (s.calls.get? t).isSome then (.disabled, s) else first

def act : Op → Answer × CabBookingService
  | .requestRide t riderId cabType => s.start t (s.requestRide t riderId cabType)
  | .search t found => s.searchRadius t found
  | .book t fare => s.book t fare
  | .acceptTrip t tripId => s.start t (s.apply t tripId Trip.accept)
  | .declineTrip t tripId => s.start t (s.declineTrip t tripId)
  | .driverArrived t tripId => s.start t (s.apply t tripId Trip.arrive)
  | .startTrip t tripId => s.start t (s.apply t tripId Trip.start)
  | .completeTrip t tripId => s.start t (s.apply t tripId Trip.complete)
  | .cancelTrip t tripId reason => s.start t (s.apply t tripId fun trip => trip.cancel reason)
  | .goOffline driverId => s.compareAndSet driverId .available .offline
  | .goOnline driverId => s.compareAndSet driverId .offline .available
  | .go t =>
    match s.calls.get? t with
    | none => (.disabled, s)
    | some call => s.go t call

def step (s : CabBookingService) (op : Op) : Except Empty (Answer × CabBookingService) :=
  .ok (s.act op)

end CabBookingService

end InterviewPrep.CabBooking
