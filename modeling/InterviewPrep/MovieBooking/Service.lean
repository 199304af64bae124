/-
  The seats of the shows, the bookings and the payment gateway of the movie ticket service
  (movie_ticket_booking.py).  A seat is known by its show and its seat id; the clock is in
  microseconds and money in paise.  A show comes with the price of each seat: what the
  pricing strategy gives for it, rounded to paise.

  `BookingService` (movie_ticket_booking.py) as a machine.  Any number of calls are under
  way; a step runs one of them up to the next lock that it takes, through the block under
  the seat locks, or through one call of the gateway.  The clock moves between steps.
-/
import InterviewPrep.Lib.Dict
import InterviewPrep.Lib.Run
import Mathlib.Algebra.Ring.Int.Defs

namespace InterviewPrep.MovieBooking

open Lib

/-- `BK-{n:05d}` -/
abbrev BookingId := Nat

/-- `PAY-{n}` -/
abbrev PaymentId := Nat

/-- A show and a seat id of its screen. -/
abbrev SeatKey := String × String

/-! ## Seats of a show -/

inductive SeatStatus where
  | available
  | held
  | booked
deriving DecidableEq

structure ShowSeat where
  status : SeatStatus := .available
  bookingId : Option BookingId := none
  holdExpiresAt : Option Int := none

namespace ShowSeat

/-- Available, or held by a hold that has already expired. -/
def isFree (seat : ShowSeat) (now : Int) : Bool :=
  match seat.status with
  | .available => true
  | .held => seat.holdExpiresAt.any fun expiresAt => expiresAt ≤ now
  | .booked => false

def heldBy (seat : ShowSeat) (booking : BookingId) : Bool :=
  seat.status = .held ∧ seat.bookingId = some booking

def hold (booking : BookingId) (expiresAt : Int) (_ : ShowSeat) : ShowSeat :=
  ⟨.held, some booking, some expiresAt⟩

def book (seat : ShowSeat) : ShowSeat :=
  { seat with status := .booked, holdExpiresAt := none }

def release (_ : ShowSeat) : ShowSeat :=
  ⟨.available, none, none⟩

end ShowSeat

structure Show where
  startTime : Int
  /-- the seat ids of the screen -/
  seats : List String
  price : String → Int

def maxSeatsPerBooking : Nat := 10

/-- `for s in seats:` with a change of each seat. -/
def forEachSeat (seats : SeatKey → ShowSeat) (keys : List SeatKey) (change : ShowSeat → ShowSeat) :
    SeatKey → ShowSeat :=
  keys.foldl (fun seats key => Function.update seats key (change (seats key))) seats

theorem forEachSeat_apply (seats : SeatKey → ShowSeat) (keys : List SeatKey)
    (change : ShowSeat → ShowSeat) (hchange : ∀ seat, change (change seat) = change seat)
    (key : SeatKey) :
    forEachSeat seats keys change key = if key ∈ keys then change (seats key) else seats key := by
  induction keys generalizing seats with
  | nil => rfl
  | cons k _ ih =>
    rw [forEachSeat, List.foldl_cons, ← forEachSeat, ih]
    by_cases hk : key = k
    · subst hk
      simp [hchange]
    · simp [hk]

/-! ## Bookings -/

inductive BookingStatus where
  | pending
  | confirmed
  | cancelled
  | expired
deriving DecidableEq

structure Booking where
  bookingId : BookingId
  userId : String
  showId : String
  seatIds : List String
  /-- seat id and price, snapshotted at hold time -/
  linePrices : List (String × Int)
  expiresAt : Int
  status : BookingStatus := .pending
  paymentId : Option PaymentId := none

namespace Booking

def total (booking : Booking) : Int := (booking.linePrices.map Prod.snd).sum

def seats (booking : Booking) : List SeatKey := booking.seatIds.map fun id => (booking.showId, id)

end Booking

inductive BookingError where
  /-- select at least one seat -/
  | noSeats
  /-- duplicate seat in request -/
  | duplicateSeat
  /-- at most 10 seats per booking -/
  | tooManySeats
  | unknownShow (showId : String)
  /-- no seat in the screen -/
  | unknownSeat (seatId : String)
  | unknownBooking (booking : BookingId)
  /-- show has already started -/
  | showStarted
  | seatUnavailable (seatIds : List String)
  | invalidBookingState (booking : BookingId) (status : BookingStatus)
  /-- hold expired before payment; not charged -/
  | holdExpired (booking : BookingId)
  /-- hold lapsed during payment; refunded -/
  | holdLapsed (booking : BookingId)
  /-- card declined -/
  | paymentFailed

/-! ## The payment gateway -/

/-- `FakePaymentGateway`: charges once per key. -/
structure PaymentGateway where
  byKey : Dict BookingId PaymentId := Dict.empty
  charges : List (PaymentId × Int) := []
  refunds : List (PaymentId × Int) := []
  nextId : Nat := 1

namespace PaymentGateway

/-- `charge`; a charge that was not made before may be declined. -/
def charge (gateway : PaymentGateway) (key : BookingId) (amount : Int) (declined : Bool) :
    Except BookingError (PaymentId × PaymentGateway) :=
  match gateway.byKey.get? key with
  | some payment => .ok (payment, gateway)
  | none =>
    if declined then .error .paymentFailed
    else
      .ok (gateway.nextId, { gateway with
        byKey := gateway.byKey.set key gateway.nextId
        charges := gateway.charges ++ [(gateway.nextId, amount)]
        nextId := gateway.nextId + 1 })

def refund (gateway : PaymentGateway) (payment : PaymentId) (amount : Int) : PaymentGateway :=
  { gateway with refunds := gateway.refunds ++ [(payment, amount)] }

/-- How often a payment was refunded. -/
def refunded (gateway : PaymentGateway) (payment : PaymentId) : Nat :=
  (gateway.refunds.map Prod.fst).count payment

end PaymentGateway

/-! ## Calls -/

/-- What a call returns. -/
inductive Answer where
  | booking (booking : BookingId)
  | expired (count : Nat)

/-- Where a call that has not ended stands. -/
inductive Call where
  /-- `hold_seats`, before the seat locks -/
  | holding (booking : BookingId) (showId userId : String) (seatIds : List String)
  /-- `hold_seats`, before the booking is in the registry -/
  | registering (booking : Booking)
  /-- `pay_and_confirm`, with the booking looked up -/
  | checking (booking : BookingId)
  /-- at `_expire` -/
  | expiring (booking : BookingId)
  /-- at `charge` -/
  | charging (booking : BookingId)
  /-- charged, before the seat locks -/
  | confirming (booking : BookingId) (payment : PaymentId)
  /-- at `refund`, for a hold that lapsed -/
  | refunding (booking : BookingId) (payment : PaymentId)
  /-- `cancel`, before the seat locks -/
  | cancelling (booking : BookingId)
  /-- at `refund`, for a confirmed booking that was cancelled -/
  | returning (booking : BookingId) (payment : PaymentId)
  /-- `release_expired`, with the clock read -/
  | sweeping (now : Int)
  /-- at `_expire` of the first of `due` -/
  | releasing (due : List BookingId) (count : Nat)

inductive BookingEvent where
  | ticked
  | waiting
  | returned (answer : Answer)
  | failed (error : BookingError)

/-- There is no such call. -/
inductive NoStep where
  | notEnabled

/-! ## The service -/

structure BookingService where
  shows : Dict String Show
  holdTtl : Int
  /-- the clock -/
  now : Int
  seats : SeatKey → ShowSeat
  bookings : Dict BookingId Booking
  nextId : BookingId
  gateway : PaymentGateway
  calls : Dict Nat Call

namespace BookingService

/-- Every seat of every show is available. -/
def new (shows : Dict String Show) (holdTtl now : Int) : BookingService :=
  ⟨shows, holdTtl, now, fun _ => {}, Dict.empty, 1, {}, Dict.empty⟩

abbrev Result := Except NoStep (BookingEvent × BookingService)

variable (s : BookingService)

/-- The call goes on at `next`. -/
def goOn (call : Nat) (next : Call) : Result :=
  .ok (.waiting, { s with calls := s.calls.set call next })

/-- The call ends. -/
def finish (call : Nat) (event : BookingEvent) : Result :=
  .ok (event, { s with calls := s.calls.erase call })

/-- The booking of a call that has not ended is there. -/
def withBooking (booking : BookingId) (k : Booking → Result) : Result :=
  match s.bookings.get? booking with
  | none => .error .notEnabled
  | some b => k b

/-- `hold_seats` up to the seat locks. -/
def holdSeats (call : Nat) (showId userId : String) (seatIds : List String) : Result :=
  if seatIds = [] then .ok (.failed .noSeats, s)
  else if ¬ seatIds.Nodup then .ok (.failed .duplicateSeat, s)
  else if maxSeatsPerBooking < seatIds.length then .ok (.failed .tooManySeats, s)
  else
    match s.shows.get? showId with
    | none => .ok (.failed (.unknownShow showId), s)
    | some sh =>
      match seatIds.find? fun id => id ∉ sh.seats with
      | some id => .ok (.failed (.unknownSeat id), s)
      | none =>
        .ok (.waiting, { s with
          nextId := s.nextId + 1
          calls := s.calls.set call (.holding s.nextId showId userId seatIds) })

/-- `hold_seats` under the seat locks. -/
def holdLocked (call : Nat) (booking : BookingId) (showId userId : String)
    (seatIds : List String) : Result :=
  match s.shows.get? showId with
  | none => .error .notEnabled
  | some sh =>
    if sh.startTime ≤ s.now then s.finish call (.failed .showStarted)
    else
      let taken := seatIds.filter fun id => ¬ (s.seats (showId, id)).isFree s.now
      if taken ≠ [] then s.finish call (.failed (.seatUnavailable taken))
      else
        let expiresAt := s.now + s.holdTtl
        .ok (.waiting, { s with
          seats := forEachSeat s.seats (seatIds.map fun id => (showId, id))
            (ShowSeat.hold booking expiresAt)
          calls := s.calls.set call (.registering
            { bookingId := booking, userId, showId, seatIds
              linePrices := seatIds.map fun id => (id, sh.price id)
              expiresAt }) })

/-- `hold_seats`, the registry. -/
def register (call : Nat) (b : Booking) : Result :=
  .ok (.returned (.booking b.bookingId), { s with
    bookings := s.bookings.set b.bookingId b, calls := s.calls.erase call })

/-- `_expire_locked` -/
def expireLocked (booking : BookingId) (b : Booking) : Bool × BookingService :=
  if b.status ≠ .pending then (false, s)
  else
    (true, { s with
      seats := forEachSeat s.seats b.seats fun seat =>
        if seat.heldBy booking then seat.release else seat
      bookings := s.bookings.set booking { b with status := .expired } })

/-- `booking` -/
def lookUp (booking : BookingId) (k : Result) : Result :=
  match s.bookings.get? booking with
  | none => .ok (.failed (.unknownBooking booking), s)
  | some _ => k

/-- `pay_and_confirm` up to `_expire` or `charge`. -/
def check (call : Nat) (booking : BookingId) : Result :=
  s.withBooking booking fun b =>
    if b.status = .confirmed then s.finish call (.returned (.booking booking))
    else if b.status ≠ .pending then s.finish call (.failed (.invalidBookingState booking b.status))
    else if b.expiresAt ≤ s.now then s.goOn call (.expiring booking)
    else s.goOn call (.charging booking)

/-- `pay_and_confirm`, `_expire` and what is raised then. -/
def expireEarly (call : Nat) (booking : BookingId) : Result :=
  s.withBooking booking fun b =>
    (s.expireLocked booking b).2.finish call (.failed (.holdExpired booking))

/-- `pay_and_confirm`, `charge` -/
def charge (call : Nat) (booking : BookingId) (declined : Bool) : Result :=
  s.withBooking booking fun b =>
    match s.gateway.charge booking b.total declined with
    | .error e => s.finish call (.failed e)
    | .ok (payment, gateway) => { s with gateway }.goOn call (.confirming booking payment)

/-- The booking still has its seats. -/
def stillOurs (booking : BookingId) (b : Booking) : Bool :=
  b.status = .pending ∧ s.now < b.expiresAt ∧ ∀ key ∈ b.seats, (s.seats key).heldBy booking

/-- `pay_and_confirm` under the seat locks. -/
def confirm (call : Nat) (booking : BookingId) (payment : PaymentId) : Result :=
  s.withBooking booking fun b =>
    if b.status = .confirmed then s.finish call (.returned (.booking booking))
    else if s.stillOurs booking b then
      .ok (.returned (.booking booking), { s with
        seats := forEachSeat s.seats b.seats ShowSeat.book
        bookings := s.bookings.set booking
          { b with status := .confirmed, paymentId := some payment }
        calls := s.calls.erase call })
    else (s.expireLocked booking b).2.goOn call (.refunding booking payment)

/-- `refund`, and the call ends. -/
def refund (call : Nat) (booking : BookingId) (payment : PaymentId)
    (event : BookingEvent) : Result :=
  s.withBooking booking fun b =>
    { s with gateway := s.gateway.refund payment b.total }.finish call event

/-- `cancel` under the seat locks. -/
def cancelLocked (call : Nat) (booking : BookingId) : Result :=
  s.withBooking booking fun b =>
    if b.status ≠ .pending ∧ b.status ≠ .confirmed then
      s.finish call (.failed (.invalidBookingState booking b.status))
    else
      let t := { s with
        seats := forEachSeat s.seats b.seats fun seat =>
          if seat.bookingId = some booking then seat.release else seat
        bookings := s.bookings.set booking { b with status := .cancelled } }
      match b.status, b.paymentId with
      | .confirmed, some payment => t.goOn call (.returning booking payment)
      | _, _ => t.finish call (.returned (.booking booking))

/-- `release_expired`, the bookings that are due. -/
def due (now : Int) : List BookingId :=
  (s.bookings.items.filter fun entry =>
    entry.2.status = .pending ∧ entry.2.expiresAt ≤ now).map Prod.fst

/-- `release_expired`, `_expire` of the next booking. -/
def releaseNext (call : Nat) (count : Nat) : List BookingId → Result
  | [] => s.finish call (.returned (.expired count))
  | booking :: due =>
    s.withBooking booking fun b =>
      let (done, t) := s.expireLocked booking b
      t.goOn call (.releasing due (if done then count + 1 else count))

end BookingService

/-! ## The machine -/

inductive BookingStep where
  | tick (elapsed : Nat)
  | holdSeats (call : Nat) (showId userId : String) (seatIds : List String)
  | payAndConfirm (call : Nat) (booking : BookingId)
  | cancel (call : Nat) (booking : BookingId)
  | releaseExpired (call : Nat)
  /-- a call goes on; the gateway may decline a charge -/
  | resume (call : Nat) (declined : Bool)

namespace BookingService

variable (s : BookingService)

/-- What a call does next. -/
def resume (call : Nat) (declined : Bool) : Call → Result
  | .holding booking showId userId seatIds => s.holdLocked call booking showId userId seatIds
  | .registering b => s.register call b
  | .checking booking => s.check call booking
  | .expiring booking => s.expireEarly call booking
  | .charging booking => s.charge call booking declined
  | .confirming booking payment => s.confirm call booking payment
  | .refunding booking payment => s.refund call booking payment (.failed (.holdLapsed booking))
  | .cancelling booking => s.cancelLocked call booking
  | .returning booking payment => s.refund call booking payment (.returned (.booking booking))
  | .sweeping now => s.goOn call (.releasing (s.due now) 0)
  | .releasing due count => s.releaseNext call count due

/-- A new call has a new number. -/
def start (call : Nat) (r : Result) : Result :=
  if (s.calls.get? call).isNone then r else .error .notEnabled

def step (s : BookingService) : BookingStep → Result
  | .tick elapsed => .ok (.ticked, { s with now := s.now + elapsed })
  | .holdSeats call showId userId seatIds =>
    s.start call (s.holdSeats call showId userId seatIds)
  | .payAndConfirm call booking => s.start call (s.lookUp booking (s.goOn call (.checking booking)))
  | .cancel call booking => s.start call (s.lookUp booking (s.goOn call (.cancelling booking)))
  | .releaseExpired call => s.start call (s.goOn call (.sweeping s.now))
  | .resume call declined =>
    match s.calls.get? call with
    | none => .error .notEnabled
    | some c => s.resume call declined c

end BookingService

end InterviewPrep.MovieBooking
