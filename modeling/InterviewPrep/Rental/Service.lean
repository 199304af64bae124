/-
  The availability of a fleet (car_rental.py): each vehicle has a list of blocks, and whether a
  span is free is one binary search over their ends (`VehicleSchedule.conflict`).  Times are
  microseconds.

  `CarRentalService` (car_rental.py): the fleet, the reservations with their transition table, and
  the operations.  Every reading of the clock is an argument of its own.  A vehicle is an object
  with a number; what does not change about it is in `Vehicle`, its status is in the state.
-/
import InterviewPrep.Lib.Dict
import InterviewPrep.Lib.IntervalTree
import InterviewPrep.Lib.Python
import InterviewPrep.Lib.Run

namespace InterviewPrep.Rental

open Lib

/-! ## Names and errors -/

/-- `_next_id`: the prefix and the number. -/
inductive Id where
  | c (number : Nat)
  | r (number : Nat)
  | m (number : Nat)
deriving DecidableEq

inductive ReservationStatus where
  | pending
  | confirmed
  | inProgress
  | completed
  | cancelled
  | expired
deriving DecidableEq

inductive RentalError where
  | unknownVehicle (vehicleId : String)
  | unknownReservation (reservationId : Id)
  /-- "customer or vehicle not found" -/
  | notFound
  | invalidRequest (message : String)
  | invalidTransition (reservationId : Id) (status : ReservationStatus)
      (target : Option ReservationStatus)
  | holdExpired (reservationId : Id)
  /-- the span of a reservation is taken -/
  | vehicleUnavailable (vehicleId : String) (nextFree : Int)
  /-- "maintenance window overlaps a booking" -/
  | windowUnavailable (vehicleId : String)
deriving DecidableEq

/-! ## The schedule of a vehicle -/

inductive BlockKind where
  | reservation
  | maintenance
deriving DecidableEq

structure Block where
  start : Int
  /-- `end`, exclusive -/
  stop : Int
  kind : BlockKind
  refId : Id
  /-- set for unconfirmed holds -/
  expiresAt : Option Int
deriving DecidableEq

def Block.live (b : Block) (now : Int) : Bool := b.expiresAt.all fun expiresAt => now < expiresAt

structure VehicleSchedule where
  /-- in the order of their starts -/
  blocks : List Block
deriving DecidableEq

namespace VehicleSchedule

variable (sched : VehicleSchedule)

def purgeExpired (now : Int) : VehicleSchedule := ⟨sched.blocks.filter fun b => b.live now⟩

/-- The first block that ends after `start`, when it starts before `stop`. -/
def conflict (start stop : Int) : Option Block :=
  sched.blocks[bisectRight (fun b => start < b.stop) sched.blocks]?.filter fun b => b.start < stop

def insert (block : Block) : VehicleSchedule :=
  ⟨insort (fun b => block.start < b.start) sched.blocks block⟩

def find (refId : Id) : Option Block := sched.blocks.find? fun b => b.refId = refId

/-- `block.expires_at = None` for the block that `find` returns. -/
def makePermanent (refId : Id) : VehicleSchedule :=
  ⟨sched.blocks.modify (sched.blocks.findIdx fun b => b.refId = refId)
    fun b => { b with expiresAt := none }⟩

def remove (refId : Id) : VehicleSchedule := ⟨sched.blocks.filter fun b => b.refId ≠ refId⟩

/-- The walk of `next_free_window` over the gaps. -/
def nextGap (length : Int) : List Block → Int → Int
  | [], candidate => candidate
  | b :: bs, candidate =>
    if b.stop ≤ candidate then nextGap length bs candidate
    else if candidate + length ≤ b.start then candidate
    else nextGap length bs b.stop

end VehicleSchedule

/-! ## The calendar -/

structure AvailabilityCalendar where
  turnaround : Int
  schedules : Dict String VehicleSchedule

namespace AvailabilityCalendar

variable (cal : AvailabilityCalendar)

/-- `setdefault` -/
def addVehicle (vehicleId : String) : AvailabilityCalendar :=
  match cal.schedules.get? vehicleId with
  | some _ => cal
  | none => { cal with schedules := cal.schedules.set vehicleId ⟨[]⟩ }

def put (vehicleId : String) (sched : VehicleSchedule) : AvailabilityCalendar :=
  { cal with schedules := cal.schedules.set vehicleId sched }

/-- A reservation also blocks the turnaround after its return. -/
def span (kind : BlockKind) (start stop : Int) : Int × Int :=
  if kind = .reservation then (start, stop + cal.turnaround) else (start, stop)

/-- `try_block`; `none` when there is no such vehicle. -/
def tryBlock (vehicleId : String) (start stop : Int) (kind : BlockKind) (refId : Id)
    (expiresAt : Option Int) (now : Int) : Option (Bool × AvailabilityCalendar) :=
  (cal.schedules.get? vehicleId).map fun sched =>
    let (s, e) := cal.span kind start stop
    let sched := sched.purgeExpired now
    if (sched.conflict s e).isSome then (false, cal.put vehicleId sched)
    else (true, cal.put vehicleId (sched.insert ⟨s, e, kind, refId, expiresAt⟩))

/-- `confirm_hold`: the hold of `refId` is made permanent, unless it has expired. -/
def confirmHold (vehicleId : String) (refId : Id) (now : Int) :
    Option (Bool × AvailabilityCalendar) :=
  (cal.schedules.get? vehicleId).map fun sched =>
    let sched := sched.purgeExpired now
    if (sched.find refId).isNone then (false, cal.put vehicleId sched)
    else (true, cal.put vehicleId (sched.makePermanent refId))

def release (vehicleId : String) (refId : Id) : Option AvailabilityCalendar :=
  (cal.schedules.get? vehicleId).map fun sched => cal.put vehicleId (sched.remove refId)

/-- `next_free_window` -/
def nextFreeWindow (vehicleId : String) (pickup dropoff now : Int) :
    Option (Int × AvailabilityCalendar) :=
  (cal.schedules.get? vehicleId).map fun sched =>
    let sched := sched.purgeExpired now
    (VehicleSchedule.nextGap (dropoff - pickup + cal.turnaround) sched.blocks pickup,
      cal.put vehicleId sched)

end AvailabilityCalendar

/-! ## Vehicles and prices -/

inductive VehicleStatus where
  | available
  | rented
deriving DecidableEq

structure Vehicle where
  object : Nat
  vehicleId : String
  hourlyRate : ℚ
  dailyRate : ℚ
deriving DecidableEq

structure Customer where
  loyaltyPoints : Int

def second : Int := 1000000
def hour : Int := 3600 * second

/-- Rounded to cents, half away from zero. -/
def toMoney (value : ℚ) : ℚ :=
  if 0 ≤ value then ⌊value * 100 + 1 / 2⌋ / 100 else -(⌊-value * 100 + 1 / 2⌋ / 100)

def billableHours (start stop : Int) : Int := max 1 ⌈((stop - start : Int) : ℚ) / hour⌉

inductive RentalPricing where
  | hourly
  | daily
  | weeklyDiscount (base : RentalPricing)
deriving DecidableEq

def RentalPricing.calculateCost (vehicle : Vehicle) (hours : Int) : RentalPricing → ℚ
  | .hourly =>
    toMoney (vehicle.dailyRate * (hours / 24 : Int) +
      min (vehicle.hourlyRate * (hours % 24 : Int)) vehicle.dailyRate)
  | .daily => toMoney (vehicle.dailyRate * ⌈(hours : ℚ) / 24⌉)
  | .weeklyDiscount base =>
    let cost := base.calculateCost vehicle hours
    let cost := if 7 * 24 ≤ hours then cost * (9 / 10) else cost
    let cost := if 30 * 24 ≤ hours then cost * (17 / 20) else cost
    toMoney cost

/-! ## Reservations -/

/-- `_TRANSITIONS` -/
def transitions : ReservationStatus → List ReservationStatus
  | .pending => [.confirmed, .cancelled, .expired]
  | .confirmed => [.inProgress, .cancelled]
  | .inProgress => [.completed]
  | .completed | .cancelled | .expired => []

structure Reservation where
  reservationId : Id
  customer : Id
  vehicle : Vehicle
  pickup : Int
  dropoff : Int
  pricing : RentalPricing
  quotedAmount : ℚ
  holdExpiresAt : Int
  status : ReservationStatus := .pending
  finalAmount : Option ℚ := none
  returnedAt : Option Int := none

def Reservation.durationHours (res : Reservation) : Int := billableHours res.pickup res.dropoff

/-! ## The service -/

structure CarRentalService where
  vehicles : Dict String Vehicle
  /-- of every vehicle object -/
  statuses : Dict Nat VehicleStatus
  customers : Dict Id Customer
  reservations : Dict Id Reservation
  /-- the next number of `_ids` -/
  ids : Nat
  calendar : AvailabilityCalendar

namespace CarRentalService

def holdTtl : Int := 600 * second
def minRental : Int := hour
def returnGrace : Int := 900 * second
def pointsPerHour : Int := 2

/-- A service without vehicles. -/
def new (turnaround : Int) : CarRentalService :=
  ⟨Dict.empty, Dict.empty, Dict.empty, Dict.empty, 1, ⟨turnaround, Dict.empty⟩⟩

end CarRentalService

abbrev RentalM := EStateM RentalError CarRentalService

namespace CarRentalService

/-- An operation of the calendar, which raises when there is no such vehicle. -/
def onCalendar {α : Type} (vehicleId : String)
    (x : AvailabilityCalendar → Option (α × AvailabilityCalendar)) : RentalM α := do
  match x (← get).calendar with
  | none => throw (.unknownVehicle vehicleId)
  | some (a, cal) =>
    modify fun s => { s with calendar := cal }
    return a

def release (vehicleId : String) (refId : Id) : RentalM PUnit :=
  onCalendar vehicleId fun cal => (cal.release vehicleId refId).map fun cal => (⟨⟩, cal)

/-- `_next_id` -/
def nextId (kind : Nat → Id) : RentalM Id :=
  modifyGet fun s => (kind s.ids, { s with ids := s.ids + 1 })

def getReservation (reservationId : Id) : RentalM Reservation := do
  match (← get).reservations.get? reservationId with
  | none => throw (.unknownReservation reservationId)
  | some res => return res

def putReservation (res : Reservation) : RentalM PUnit :=
  modify fun s => { s with reservations := s.reservations.set res.reservationId res }

/-- `move_to` -/
def moveTo (res : Reservation) (target : ReservationStatus) : RentalM Reservation := do
  if target ∈ transitions res.status then
    let res := { res with status := target }
    putReservation res
    return res
  else throw (.invalidTransition res.reservationId res.status (some target))

def setStatus (vehicle : Vehicle) (status : VehicleStatus) : RentalM PUnit :=
  modify fun s => { s with statuses := s.statuses.set vehicle.object status }

/-- `status` is what the vehicle was made with, unless it is known already. -/
def addVehicle (vehicle : Vehicle) (status : VehicleStatus) : RentalM PUnit :=
  modify fun s =>
    { s with
      vehicles := s.vehicles.set vehicle.vehicleId vehicle
      statuses := s.statuses.set vehicle.object
        ((s.statuses.get? vehicle.object).getD status)
      calendar := s.calendar.addVehicle vehicle.vehicleId }

def registerCustomer : RentalM Id := do
  let customerId ← nextId .c
  modify fun s => { s with customers := s.customers.set customerId ⟨0⟩ }
  return customerId

/-! ## Booking -/

/-- The clock at the start, under the lock of the schedule, and for the next free window. -/
def createReservation (customerId : Id) (vehicleId : String) (pickup dropoff : Int)
    (pricing : RentalPricing) (now blocking searching : Int) : RentalM Id := do
  let s ← get
  match s.customers.get? customerId, s.vehicles.get? vehicleId with
  | some _, some vehicle =>
    if pickup < now then throw (.invalidRequest "cannot book in the past")
    else if dropoff - pickup < minRental then
      throw (.invalidRequest "minimum rental is 1:00:00")
    else
      let rid ← nextId .r
      let free ← onCalendar vehicleId fun cal =>
        cal.tryBlock vehicleId pickup dropoff .reservation rid (some (now + holdTtl)) blocking
      if free then
        putReservation ⟨rid, customerId, vehicle, pickup, dropoff, pricing,
          pricing.calculateCost vehicle (billableHours pickup dropoff), now + holdTtl,
          .pending, none, none⟩
        return rid
      else
        let next ← onCalendar vehicleId fun cal =>
          cal.nextFreeWindow vehicleId pickup dropoff searching
        throw (.vehicleUnavailable vehicleId next)
  | _, _ => throw .notFound

def confirmReservation (reservationId : Id) (now : Int) : RentalM PUnit := do
  let res ← getReservation reservationId
  if res.status ≠ .pending then throw (.invalidTransition reservationId res.status none)
  else
    let held ← onCalendar res.vehicle.vehicleId fun cal =>
      cal.confirmHold res.vehicle.vehicleId reservationId now
    if held then
      let _ ← moveTo res .confirmed
      return ⟨⟩
    else
      let _ ← moveTo res .expired
      throw (.holdExpired reservationId)

def cancelReservation (reservationId : Id) : RentalM PUnit := do
  let res ← getReservation reservationId
  let res ← moveTo res .cancelled
  release res.vehicle.vehicleId reservationId

/-- The sweep over the reservations there were when it began. It changes only the one it is at. -/
def expireEach (now : Int) : List Reservation → RentalM (List Id)
  | [] => return []
  | res :: rest => do
      if res.status = .pending ∧ res.holdExpiresAt ≤ now then
        let _ ← moveTo res .expired
        release res.vehicle.vehicleId res.reservationId
        let expired ← expireEach now rest
        return res.reservationId :: expired
      else expireEach now rest

def expireHolds (now : Int) : RentalM (List Id) := do
  expireEach now (← get).reservations.values

def scheduleMaintenance (vehicleId : String) (start stop now : Int) : RentalM Id := do
  let mid ← nextId .m
  let free ← onCalendar vehicleId fun cal =>
    cal.tryBlock vehicleId start stop .maintenance mid none now
  if free then return mid else throw (.windowUnavailable vehicleId)

/-- `calendar.is_available`, on which the searches rest: it drops expired holds. -/
def isAvailable (vehicleId : String) (pickup dropoff now : Int) : RentalM Bool :=
  onCalendar vehicleId fun cal =>
    (cal.schedules.get? vehicleId).map fun sched =>
      let (s, e) := cal.span .reservation pickup dropoff
      let sched := sched.purgeExpired now
      ((sched.conflict s e).isNone, cal.put vehicleId sched)

/-! ## Pickup and return -/

def startRental (reservationId : Id) : RentalM PUnit := do
  let res ← getReservation reservationId
  let res ← moveTo res .inProgress
  setStatus res.vehicle .rented

/-- `now` is read when no `returned_at` is given. -/
def completeRental (reservationId : Id) (returnedAt : Option Int) (now : Int) : RentalM ℚ := do
  let res ← getReservation reservationId
  let res ← moveTo res .completed
  let returned := returnedAt.getD now
  let finalAmount :=
    if res.dropoff + returnGrace < returned then
      res.pricing.calculateCost res.vehicle (billableHours res.pickup returned)
    else res.quotedAmount
  putReservation { res with returnedAt := some returned, finalAmount := some finalAmount }
  setStatus res.vehicle .available
  release res.vehicle.vehicleId reservationId
  modify fun s => { s with
    customers := match s.customers.get? res.customer with
      | none => s.customers
      | some customer => s.customers.set res.customer
          ⟨customer.loyaltyPoints + res.durationHours * pointsPerHour⟩ }
  return finalAmount

end CarRentalService

/-! ## Operations -/

inductive RentalOp where
  | addVehicle (vehicle : Vehicle) (status : VehicleStatus)
  | registerCustomer
  | createReservation (customerId : Id) (vehicleId : String) (pickup dropoff : Int)
      (pricing : RentalPricing) (now blocking searching : Int)
  | confirmReservation (reservationId : Id) (now : Int)
  | cancelReservation (reservationId : Id)
  | expireHolds (now : Int)
  | scheduleMaintenance (vehicleId : String) (start stop now : Int)
  | isAvailable (vehicleId : String) (pickup dropoff now : Int)
  | startRental (reservationId : Id)
  | completeRental (reservationId : Id) (returnedAt : Option Int) (now : Int)

inductive Answer where
  | nothing
  | id (id : Id)
  | ids (ids : List Id)
  | free (free : Bool)
  | amount (amount : ℚ)
deriving DecidableEq

namespace CarRentalService

def perform : RentalOp → RentalM Answer
  | .addVehicle vehicle status => do addVehicle vehicle status; return .nothing
  | .registerCustomer => return .id (← registerCustomer)
  | .createReservation customerId vehicleId pickup dropoff pricing now blocking searching =>
    return .id (← createReservation customerId vehicleId pickup dropoff pricing now blocking
      searching)
  | .confirmReservation reservationId now => do
      confirmReservation reservationId now
      return .nothing
  | .cancelReservation reservationId => do cancelReservation reservationId; return .nothing
  | .expireHolds now => return .ids (← expireHolds now)
  | .scheduleMaintenance vehicleId start stop now =>
    return .id (← scheduleMaintenance vehicleId start stop now)
  | .isAvailable vehicleId pickup dropoff now =>
    return .free (← isAvailable vehicleId pickup dropoff now)
  | .startRental reservationId => do startRental reservationId; return .nothing
  | .completeRental reservationId returnedAt now =>
    return .amount (← completeRental reservationId returnedAt now)

/-- An operation that raises keeps what it has written. -/
def step (s : CarRentalService) (op : RentalOp) :
    Except Empty (Except RentalError Answer × CarRentalService) :=
  match perform op s with
  | .ok answer t => .ok (.ok answer, t)
  | .error error t => .ok (.error error, t)

end CarRentalService

end InterviewPrep.Rental
