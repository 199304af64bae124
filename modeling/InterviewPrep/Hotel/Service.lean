/-
  `DateRange` and `RoomCalendar` of HotelBookingSystem.java.  `isFree` looks at two neighbours of
  the range, and is true exactly if no reservation overlaps it (`Apart.isFree_iff`).  A
  `LocalDate` is its number of days.

  `HotelBookingService`.  A step is one synchronized section of a booking or of a room calendar,
  or one operation of a concurrent map; a call that has more of them to do is kept in `calls`.
  `computeIfAbsent` of a key that is being computed waits (`disabled`).  A booking is its number,
  an instant its number of nanoseconds.
-/
import InterviewPrep.Lib.Decimal
import InterviewPrep.Lib.Dict
import InterviewPrep.Lib.IntervalTree
import InterviewPrep.Lib.Run

namespace InterviewPrep.Hotel

open Lib

inductive RoomType where
  | single | double | suite
deriving DecidableEq

structure Room where
  id : String
  type : RoomType
  floor : Int

/-- Half-open [checkIn, checkOut). -/
structure DateRange where
  checkIn : Int
  checkOut : Int
  proper : checkIn < checkOut
deriving DecidableEq

def DateRange.overlaps (r o : DateRange) : Bool := r.checkIn < o.checkOut ∧ o.checkIn < r.checkOut

theorem DateRange.overlaps_iff (r o : DateRange) :
    r.overlaps o = true ↔ Overlap r.checkIn r.checkOut o.checkIn o.checkOut := by
  rw [overlap_iff_of_lt r.proper o.proper, overlaps, decide_eq_true_eq]

structure Reservation where
  bookingId : Nat
  range : DateRange

structure RoomCalendar where
  room : Room
  byCheckIn : TreeMap Int Reservation

namespace RoomCalendar

def isFree (cal : RoomCalendar) (r : DateRange) : Bool :=
  match (cal.byCheckIn.floorEntry r.checkIn).filter fun before => before.2.range.overlaps r with
  | some _ => false
  | none =>
    match cal.byCheckIn.higherEntry r.checkIn with
    | none => true
    | some after => ¬ after.1 < r.checkOut

/-- Check-and-insert as one atomic step: the heart of double-booking prevention. -/
def tryReserve (cal : RoomCalendar) (bookingId : Nat) (r : DateRange) : Option RoomCalendar :=
  if cal.isFree r then
    some { cal with byCheckIn := cal.byCheckIn.put r.checkIn ⟨bookingId, r⟩ }
  else none

def release (cal : RoomCalendar) (bookingId : Nat) (r : DateRange) : RoomCalendar :=
  if (cal.byCheckIn.get? r.checkIn).any fun existing => existing.bookingId = bookingId then
    { cal with byCheckIn := cal.byCheckIn.remove r.checkIn }
  else cal

def reservations (cal : RoomCalendar) : List Reservation := cal.byCheckIn.values

/-- Every reservation is under its first day, and none overlaps another. -/
def Apart (cal : RoomCalendar) : Prop :=
  cal.byCheckIn.Disjoint (fun x => x.range.checkIn) fun x => x.range.checkOut

def Has (cal : RoomCalendar) (x : Reservation) : Prop :=
  TreeMap.Has (fun x => x.range.checkIn) cal.byCheckIn x

variable {cal cal' : RoomCalendar} {x : Reservation} {r : DateRange} {id : Nat}

theorem Apart.mem_reservations (h : Apart cal) : x ∈ cal.reservations ↔ cal.Has x :=
  TreeMap.Disjoint.mem_values h

theorem Apart.pairwise (h : Apart cal) :
    cal.reservations.Pairwise fun x y => x.range.overlaps y.range = false := by
  apply (TreeMap.Disjoint.pairwise h).imp
  intro x y hxy
  rw [← Bool.not_eq_true, DateRange.overlaps_iff]
  exact hxy

theorem Apart.isFree_iff (h : Apart cal) (r : DateRange) :
    cal.isFree r = true ↔ ∀ x, cal.Has x → x.range.overlaps r = false := by
  have hneighbours := h.overlap_iff_neighbours r.proper
  have hall : (∀ x, cal.Has x → x.range.overlaps r = false) ↔
      ¬ ∃ x, cal.Has x ∧ Overlap x.range.checkIn x.range.checkOut r.checkIn r.checkOut := by
    rw [not_exists]
    apply forall_congr'
    intro x
    rw [not_and, ← DateRange.overlaps_iff, Bool.not_eq_true]
  rw [hall]
  refine Iff.trans ?_ (not_congr hneighbours).symm
  rw [isFree]
  constructor
  · intro hfree
    rintro (⟨before, hfloor, hoverlap⟩ | ⟨after, hhigher, hlt⟩)
    · have hoverlaps := (DateRange.overlaps_iff before.2.range r).mpr hoverlap
      rw [hfloor, Option.filter_some, if_pos hoverlaps] at hfree
      cases hfree
    · split at hfree
      · cases hfree
      · rw [hhigher] at hfree
        simp [hlt] at hfree
  intro hnone
  split
  next before hbefore =>
    obtain ⟨hfloor, hoverlap⟩ := Option.filter_eq_some_iff.mp hbefore
    exact absurd (Or.inl ⟨before, hfloor, (DateRange.overlaps_iff _ _).mp hoverlap⟩) hnone
  next =>
    split
    · rfl
    next after hhigher =>
      rw [decide_eq_true_eq]
      exact fun hlt => hnone (Or.inr ⟨after, hhigher, hlt⟩)

/-! ## Reserving and releasing -/

theorem Apart.tryReserve (h : Apart cal) (hreserve : cal.tryReserve id r = some cal') :
    Apart cal' ∧ cal'.room = cal.room ∧ ∀ x, cal'.Has x ↔ cal.Has x ∨ x = ⟨id, r⟩ := by
  rw [RoomCalendar.tryReserve] at hreserve
  split at hreserve
  next hfree =>
    cases hreserve
    have hnone : ∀ x, cal.Has x →
        ¬ Overlap x.range.checkIn x.range.checkOut r.checkIn r.checkOut := by
      intro x hx hoverlap
      have := (h.isFree_iff r).mp hfree x hx
      rw [(DateRange.overlaps_iff x.range r).mpr hoverlap] at this
      cases this
    exact ⟨TreeMap.Disjoint.put (v := Reservation.mk id r) h r.proper hnone, rfl,
      fun x => TreeMap.Disjoint.has_put (v := Reservation.mk id r) h r.proper hnone⟩
  next => cases hreserve

theorem Apart.release (h : Apart cal) (hhas : cal.Has ⟨id, r⟩) :
    Apart (cal.release id r) ∧ (cal.release id r).room = cal.room ∧
      ∀ x, (cal.release id r).Has x ↔ cal.Has x ∧ x ≠ ⟨id, r⟩ := by
  have hget : cal.byCheckIn.get? r.checkIn = some ⟨id, r⟩ := hhas
  have hrelease : cal.release id r = { cal with byCheckIn := cal.byCheckIn.remove r.checkIn } := by
    rw [RoomCalendar.release, hget]
    simp
  rw [hrelease]
  exact ⟨TreeMap.Disjoint.remove h _, rfl, fun x => TreeMap.has_remove hhas⟩

end RoomCalendar

/-! ## Types -/

inductive LoyaltyTier where
  | none | silver | gold | platinum

structure Guest where
  id : String
  name : String
  tier : LoyaltyTier

/-- `Money.of` -/
def money (v : Decimal) : Decimal := v.rescale (-2)

inductive CancellationPolicy where
  | flexible | moderate | nonRefundable
deriving DecidableEq

def CancellationPolicy.freeCancelHours : CancellationPolicy → Int
  | .flexible => 48
  | .moderate => 168
  | .nonRefundable => -1

/-- `Duration.toHours` -/
def toHours (nanos : Int) : Int := (nanos / 1000000000).tdiv 3600

def CancellationPolicy.refund (policy : CancellationPolicy) (total firstNight : Decimal)
    (beforeCheckIn : Int) : Decimal :=
  if policy = .nonRefundable then money (.ofInt 0)
  else if toHours beforeCheckIn ≥ policy.freeCancelHours then total
  else
    let e := min total.exp firstNight.exp
    let left : Decimal := ⟨(total.rescale e).coeff - (firstNight.rescale e).coeff, e⟩
    money (if left.coeff < 0 then .ofInt 0 else left)

inductive BookingStatus where
  | held | confirmed | checkedIn | checkedOut | cancelled | expired
deriving DecidableEq

def BookingStatus.canMoveTo : BookingStatus → BookingStatus → Bool
  | .held, next => next = .confirmed ∨ next = .cancelled ∨ next = .expired
  | .confirmed, next => next = .checkedIn ∨ next = .cancelled
  | .checkedIn, next => next = .checkedOut
  | _, _ => false

structure Booking where
  id : Nat
  guest : Guest
  roomType : RoomType
  roomIds : List String
  stay : DateRange
  /-- price locked at hold time -/
  total : Decimal
  firstNight : Decimal
  policy : CancellationPolicy
  holdExpiresAt : Int
  status : BookingStatus

/-- What `hold` is asked for. -/
structure HoldRequest where
  guest : Guest
  type : RoomType
  stay : DateRange
  roomCount : Int
  policy : CancellationPolicy

inductive Thrown where
  | roomCountTooSmall
  | checkInPast
  | keyReused (key : String)
  | noAvailability (taken : Nat) (roomCount : Int) (type : RoomType) (stay : DateRange)
  | noBooking (id : Nat)
  | holdExpired (id : Nat)
  | cannotConfirm (id : Nat) (status : BookingStatus)
  | notAllowed (status next : BookingStatus)
  | tooEarly
  | duplicateRoom (id : String)
  | nullPointer
deriving DecidableEq

/-- Compare-and-set on the status: `none` if another thread got there first. -/
def Booking.transition (b : Booking) (expected next : BookingStatus) :
    Except Thrown (Option Booking) :=
  if b.status ≠ expected then .ok none
  else if ¬ b.status.canMoveTo next then .error (.notAllowed b.status next)
  else .ok (some { b with status := next })

def Booking.moveTo (b : Booking) (next : BookingStatus) : Except Thrown Booking :=
  if ¬ b.status.canMoveTo next then .error (.notAllowed b.status next)
  else .ok { b with status := next }

def Booking.sameRequest (b : Booking) (req : HoldRequest) : Bool :=
  b.guest.id = req.guest.id ∧ b.roomType = req.type ∧ b.stay = req.stay ∧
    b.roomIds.length = req.roomCount

/-- Why the rooms of a booking are released. -/
inductive Release where
  | confirm
  | cancel (prev : BookingStatus)

inductive Call where
  /-- the loop of `doHold`: the calendars that are left, and those that are taken -/
  | reserving (key : String) (req : HoldRequest) (id : Nat) (left taken : List String)
  /-- too few were free: what was taken is released -/
  | unreserving (key : String) (req : HoldRequest) (id : Nat) (found : Nat) (left : List String)
  /-- the booking is in `bookings`, but not under its key yet -/
  | publishing (key : String) (req : HoldRequest) (id : Nat)
  | releasing (id : Nat) (stay : DateRange) (left : List String) (why : Release)
  /-- `expireHolds` between two bookings -/
  | sweeping (now : Int) (n : Nat)
  | sweepReleasing (now : Int) (n : Nat) (id : Nat) (stay : DateRange) (left : List String)

/-- The key that the call computes. -/
def Call.key : Call → Option String
  | .reserving key .. | .unreserving key .. | .publishing key .. => some key
  | _ => none

structure HotelBookingService where
  calendarsByType : RoomType → List String
  calendarsById : Dict String RoomCalendar
  /-- `PricingStrategy.price` -/
  price : RoomType → DateRange → Guest → Decimal
  holdTtl : Int
  /-- the instant at which guests may check in on a day, in the clock's zone -/
  checkInAt : Int → Int
  bookings : Dict Nat Booking
  byIdempotencyKey : Dict String Nat
  ids : Nat
  calls : Dict Nat Call

inductive Op where
  | hold (call : Nat) (key : String) (req : HoldRequest) (today : Int)
  | confirm (call : Nat) (id : Nat) (now : Int)
  | cancel (call : Nat) (id : Nat)
  | checkIn (id : Nat) (today : Int)
  | checkOut (id : Nat)
  | expireHolds (call : Nat) (now : Int)
  /-- `expireHolds` comes to a booking. -/
  | sweep (call : Nat) (id : Nat)
  | sweepEnd (call : Nat)
  /-- A call goes on; `now` is the clock when it reads it. -/
  | advance (call : Nat) (now : Int)

inductive Answer where
  | disabled
  | going
  | held (id : Nat)
  | confirmed (id : Nat)
  | refund (amount : Decimal)
  | done
  | expired (n : Nat)
  | threw (e : Thrown)
deriving DecidableEq

namespace HotelBookingService

/-- The constructor. -/
def new (rooms : List Room) (price : RoomType → DateRange → Guest → Decimal) (holdTtl : Int)
    (checkInAt : Int → Int) : Except Thrown HotelBookingService :=
  match (rooms.map Room.id).find? fun id => (rooms.map Room.id).count id ≠ 1 with
  | some id => .error (.duplicateRoom id)
  | none => .ok
      { calendarsByType := fun type => (rooms.filter fun r => r.type = type).map Room.id
        calendarsById := Dict.ofList (rooms.map fun r => (r.id, ⟨r, TreeMap.empty⟩))
        price := price
        holdTtl := holdTtl
        checkInAt := checkInAt
        bookings := Dict.empty
        byIdempotencyKey := Dict.empty
        ids := 0
        calls := Dict.empty }

variable (q : HotelBookingService)

/-! ## hold -/

/-- `hold` has its booking. -/
def holdReturns (key : String) (req : HoldRequest) (id : Nat) : Answer :=
  match q.bookings.get? id with
  | none => .threw .nullPointer
  | some b => if b.sameRequest req then .held id else .threw (.keyReused key)

def hold (call : Nat) (key : String) (req : HoldRequest) (today : Int) :
    Answer × HotelBookingService :=
  if req.roomCount < 1 then (.threw .roomCountTooSmall, q)
  else if req.stay.checkIn < today then (.threw .checkInPast, q)
  else
    match q.byIdempotencyKey.get? key with
    | some id => (q.holdReturns key req id, q)
    | none =>
      if q.calls.values.any (·.key = some key) then (.disabled, q)
      else
        (.going, { q with
          ids := q.ids + 1
          calls := q.calls.set call
            (.reserving key req (q.ids + 1) (q.calendarsByType req.type) []) })

/-- The booking of `doHold`. -/
def newBooking (req : HoldRequest) (id : Nat) (taken : List String) (now : Int) : Booking :=
  let perRoom := q.price req.type req.stay req.guest
  let firstNight := q.price req.type
    ⟨req.stay.checkIn, req.stay.checkIn + 1, Int.lt_succ _⟩ req.guest
  { id := id, guest := req.guest, roomType := req.type, roomIds := taken, stay := req.stay,
    total := money ⟨perRoom.coeff * req.roomCount, perRoom.exp⟩,
    firstNight := money ⟨firstNight.coeff * req.roomCount, firstNight.exp⟩,
    policy := req.policy, holdExpiresAt := now + q.holdTtl, status := .held }

/-- The loop of `doHold` at its next calendar, or past it. -/
def reserve (call : Nat) (key : String) (req : HoldRequest) (id : Nat) (left taken : List String)
    (now : Int) : Answer × HotelBookingService :=
  if left = [] ∨ (taken.length : Int) = req.roomCount then
    if (taken.length : Int) < req.roomCount then
      (.going, { q with calls := q.calls.set call (.unreserving key req id taken.length taken) })
    else
      (.going, { q with
        bookings := q.bookings.set id (q.newBooking req id taken now)
        calls := q.calls.set call (.publishing key req id) })
  else
    match left with
    | [] => (.disabled, q)
    | room :: rest =>
      match (q.calendarsById.get? room).bind fun cal => cal.tryReserve id req.stay with
      | none => (.going, { q with calls := q.calls.set call (.reserving key req id rest taken) })
      | some cal =>
        (.going, { q with
          calendarsById := q.calendarsById.set room cal
          calls := q.calls.set call (.reserving key req id rest (taken ++ [room])) })

def releaseRoom (room : String) (id : Nat) (stay : DateRange) : Dict String RoomCalendar :=
  match q.calendarsById.get? room with
  | none => q.calendarsById
  | some cal => q.calendarsById.set room (cal.release id stay)

/-- What is left of `cancel` when the rooms are released. -/
def refund (id : Nat) (prev : BookingStatus) (now : Int) : Answer :=
  match q.bookings.get? id with
  | none => .threw .nullPointer
  | some b =>
    if prev = .held then .refund (money (.ofInt 0))
    else .refund (b.policy.refund b.total b.firstNight (q.checkInAt b.stay.checkIn - now))

/-- A call goes on. -/
def advance (call : Nat) (now : Int) : Answer × HotelBookingService :=
  match q.calls.get? call with
  | none | some (.sweeping ..) => (.disabled, q)
  | some (.reserving key req id left taken) => q.reserve call key req id left taken now
  | some (.unreserving key req id found left) =>
    match left with
    | [] =>
      (.threw (.noAvailability found req.roomCount req.type req.stay),
        { q with calls := q.calls.erase call })
    | room :: rest =>
      (.going, { q with
        calendarsById := q.releaseRoom room id req.stay
        calls := q.calls.set call (.unreserving key req id found rest) })
  | some (.publishing key req id) =>
    (q.holdReturns key req id, { q with
      byIdempotencyKey := q.byIdempotencyKey.set key id
      calls := q.calls.erase call })
  | some (.releasing id stay left why) =>
    match left with
    | [] =>
      (match why with
        | .confirm => .threw (.holdExpired id)
        | .cancel prev => q.refund id prev now,
        { q with calls := q.calls.erase call })
    | room :: rest =>
      (.going, { q with
        calendarsById := q.releaseRoom room id stay
        calls := q.calls.set call (.releasing id stay rest why) })
  | some (.sweepReleasing began n id stay left) =>
    match left with
    | [] => (.going, { q with calls := q.calls.set call (.sweeping began (n + 1)) })
    | room :: rest =>
      (.going, { q with
        calendarsById := q.releaseRoom room id stay
        calls := q.calls.set call (.sweepReleasing began n id stay rest) })

/-! ## confirm, cancel, checkIn, checkOut, expireHolds -/

def confirm (call : Nat) (id : Nat) (now : Int) : Answer × HotelBookingService :=
  match q.bookings.get? id with
  | none => (.threw (.noBooking id), q)
  | some b =>
    if now ≥ b.holdExpiresAt then
      match b.transition .held .expired with
      | .error e => (.threw e, q)
      | .ok none => (.threw (.holdExpired id), q)
      | .ok (some b') =>
        (.going, { q with
          bookings := q.bookings.set id b'
          calls := q.calls.set call (.releasing id b.stay b.roomIds .confirm) })
    else
      match b.transition .held .confirmed with
      | .error e => (.threw e, q)
      | .ok none => (.threw (.cannotConfirm id b.status), q)
      | .ok (some b') => (.confirmed id, { q with bookings := q.bookings.set id b' })

def cancel (call : Nat) (id : Nat) : Answer × HotelBookingService :=
  match q.bookings.get? id with
  | none => (.threw (.noBooking id), q)
  | some b =>
    match b.moveTo .cancelled with
    | .error e => (.threw e, q)
    | .ok b' =>
      (.going, { q with
        bookings := q.bookings.set id b'
        calls := q.calls.set call (.releasing id b.stay b.roomIds (.cancel b.status)) })

/-- `checkIn` and `checkOut` past their checks. -/
def move (id : Nat) (next : BookingStatus) : Answer × HotelBookingService :=
  match q.bookings.get? id with
  | none => (.threw (.noBooking id), q)
  | some b =>
    match b.moveTo next with
    | .error e => (.threw e, q)
    | .ok b' => (.done, { q with bookings := q.bookings.set id b' })

def checkIn (id : Nat) (today : Int) : Answer × HotelBookingService :=
  match q.bookings.get? id with
  | none => (.threw (.noBooking id), q)
  | some b => if today < b.stay.checkIn then (.threw .tooEarly, q) else q.move id .checkedIn

def checkOut (id : Nat) : Answer × HotelBookingService := q.move id .checkedOut

/-- One turn of the loop of `expireHolds`. -/
def sweep (call : Nat) (now : Int) (n : Nat) (id : Nat) : Answer × HotelBookingService :=
  match q.bookings.get? id with
  | none => (.disabled, q)
  | some b =>
    if now ≥ b.holdExpiresAt then
      match b.transition .held .expired with
      | .error e => (.threw e, { q with calls := q.calls.erase call })
      | .ok none => (.going, q)
      | .ok (some b') =>
        (.going, { q with
          bookings := q.bookings.set id b'
          calls := q.calls.set call (.sweepReleasing now n id b.stay b.roomIds) })
    else (.going, q)

def step (q : HotelBookingService) : Op → Except Empty (Answer × HotelBookingService)
  | .hold call key req today =>
    .ok (if (q.calls.get? call).isSome then (.disabled, q) else q.hold call key req today)
  | .confirm call id now =>
    .ok (if (q.calls.get? call).isSome then (.disabled, q) else q.confirm call id now)
  | .cancel call id =>
    .ok (if (q.calls.get? call).isSome then (.disabled, q) else q.cancel call id)
  | .checkIn id today => .ok (q.checkIn id today)
  | .checkOut id => .ok (q.checkOut id)
  | .expireHolds call now =>
    .ok (if (q.calls.get? call).isSome then (.disabled, q)
      else (.going, { q with calls := q.calls.set call (.sweeping now 0) }))
  | .sweep call id =>
    .ok (match q.calls.get? call with
      | some (.sweeping now n) => q.sweep call now n id
      | _ => (.disabled, q))
  | .sweepEnd call =>
    .ok (match q.calls.get? call with
      | some (.sweeping _ n) => (.expired n, { q with calls := q.calls.erase call })
      | _ => (.disabled, q))
  | .advance call now => .ok (q.advance call now)

end HotelBookingService

end InterviewPrep.Hotel
