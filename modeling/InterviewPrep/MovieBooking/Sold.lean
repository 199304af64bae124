/-
  What a step of the service can do (`Moved`): what becomes of the seats and the booking
  under the seat locks, of the gateway, and where the call goes on.

  A seat is never sold twice (`Sold`): a booked seat is a confirmed booking's, and a pending
  booking has its seats until its hold expires, also before it is in the registry.
-/
import InterviewPrep.MovieBooking.Service

namespace InterviewPrep.MovieBooking

open Lib Dict Option

/-! ## Calls -/

namespace Call

/-- The booking that the call has an id for, but has not registered. -/
def draft : Call → Option BookingId
  | holding booking _ _ _ => some booking
  | registering b => some b.bookingId
  | _ => none

def charged : Call → Option BookingId
  | confirming booking _ => some booking
  | _ => none

def refunds : Call → Option (BookingId × PaymentId)
  | refunding booking payment | returning booking payment => some (booking, payment)
  | _ => none

/-- The call has neither charged nor to refund. -/
def Unpaid (c : Call) : Prop := c.charged = none ∧ c.refunds = none

end Call

namespace BookingService

/-- The payment that the step is to refund, because the hold has lapsed. -/
def lapses (s : BookingService) : BookingStep → Option PaymentId
  | .resume call _ =>
    match s.calls.get? call with
    | some (.confirming booking payment) =>
      if (s.bookings.get? booking).any fun b =>
        b.status ≠ .confirmed ∧ ¬ s.stillOurs booking b then some payment else none
    | _ => none
  | _ => none

/-! ## What a step does -/

inductive Moved (s : BookingService) (a : BookingStep) : BookingEvent → BookingService → Prop
  | ticked (elapsed : Nat) : Moved s a .ticked { s with now := s.now + elapsed }
  | rejected (error : BookingError) : Moved s a (.failed error) s
  | drafted (call : Nat) (showId userId : String) (seatIds : List String) :
      s.calls.get? call = none →
      Moved s a .waiting { s with
        nextId := s.nextId + 1
        calls := s.calls.put call (some (.holding s.nextId showId userId seatIds)) }
  | held (call : Nat) (b : Booking) (userId : String) :
      s.calls.get? call = some (.holding b.bookingId b.showId userId b.seatIds) →
      b.status = .pending → b.paymentId = none →
      (∀ key ∈ b.seats, (s.seats key).isFree s.now = true) →
      Moved s a .waiting { s with
        seats := forEachSeat s.seats b.seats (ShowSeat.hold b.bookingId b.expiresAt)
        calls := s.calls.put call (some (.registering b)) }
  | registered (call : Nat) (b : Booking) :
      s.calls.get? call = some (.registering b) →
      Moved s a (.returned (.booking b.bookingId)) { s with
        bookings := s.bookings.set b.bookingId b, calls := s.calls.put call none }
  /-- the call goes on, or ends, with nothing done -/
  | wentOn (event : BookingEvent) (call : Nat) (old next : Option Call) :
      s.calls.get? call = old → (∀ c ∈ old, c.Unpaid) →
      (∀ c ∈ next, c.draft = none ∧ c.Unpaid) →
      Moved s a event { s with calls := s.calls.put call next }
  | expired (event : BookingEvent) (call : Nat) (c : Call) (next : Option Call)
      (booking : BookingId) (b : Booking) :
      s.calls.get? call = some c → c.Unpaid → (∀ c ∈ next, c.draft = none ∧ c.Unpaid) →
      s.bookings.get? booking = some b →
      Moved s a event { (s.expireLocked booking b).2 with
        calls := (s.expireLocked booking b).2.calls.put call next }
  | charged (call : Nat) (booking : BookingId) (b : Booking) (amount : Int) (declined : Bool)
      (payment : PaymentId) (gateway : PaymentGateway) :
      s.calls.get? call = some (.charging booking) → s.bookings.get? booking = some b →
      s.gateway.charge booking amount declined = .ok (payment, gateway) →
      Moved s a .waiting { s with
        gateway, calls := s.calls.put call (some (.confirming booking payment)) }
  /-- a concurrent retry won -/
  | confirmedBefore (call : Nat) (booking : BookingId) (b : Booking) (payment : PaymentId) :
      s.calls.get? call = some (.confirming booking payment) → s.bookings.get? booking = some b →
      b.status = .confirmed →
      Moved s a (.returned (.booking booking)) { s with calls := s.calls.put call none }
  | confirmed (call : Nat) (booking : BookingId) (b : Booking) (payment : PaymentId) :
      s.calls.get? call = some (.confirming booking payment) → s.bookings.get? booking = some b →
      s.stillOurs booking b = true →
      Moved s a (.returned (.booking booking)) { s with
        seats := forEachSeat s.seats b.seats ShowSeat.book
        bookings := s.bookings.set booking
          { b with status := .confirmed, paymentId := some payment }
        calls := s.calls.put call none }
  | lapsed (call : Nat) (booking : BookingId) (b : Booking) (payment : PaymentId) :
      s.calls.get? call = some (.confirming booking payment) → s.bookings.get? booking = some b →
      b.status ≠ .confirmed → s.lapses a = some payment →
      Moved s a .waiting { (s.expireLocked booking b).2 with
        calls := (s.expireLocked booking b).2.calls.put call (some (.refunding booking payment)) }
  | cancelled (event : BookingEvent) (call : Nat) (booking : BookingId) (b : Booking)
      (next : Option Call) :
      s.calls.get? call = some (.cancelling booking) → s.bookings.get? booking = some b →
      b.status = .pending ∧ next = none ∨
        b.status = .confirmed ∧ next = b.paymentId.map (.returning booking) →
      Moved s a event { s with
        seats := forEachSeat s.seats b.seats fun seat =>
          if seat.bookingId = some booking then seat.release else seat
        bookings := s.bookings.set booking { b with status := .cancelled }
        calls := s.calls.put call next }
  | refunded (event : BookingEvent) (call : Nat) (c : Call) (booking : BookingId)
      (payment : PaymentId) (amount : Int) :
      s.calls.get? call = some c → c.refunds = some (booking, payment) → c.draft = none →
      Moved s a event { s with
        gateway := s.gateway.refund payment amount, calls := s.calls.put call none }

variable {s s' : BookingService} {a : BookingStep} {event : BookingEvent} {call : Nat}
  {booking : BookingId} {declined : Bool}

/-! ## Every step is one -/

theorem start_ok {r : Result} (h : s.start call r = .ok (event, s')) :
    s.calls.get? call = none ∧ r = .ok (event, s') := by
  unfold start at h
  split at h
  · next hnone => exact ⟨isNone_iff_eq_none.mp hnone, h⟩
  · cases h

theorem withBooking_ok {k : Booking → Result} (h : s.withBooking booking k = .ok (event, s')) :
    ∃ b, s.bookings.get? booking = some b ∧ k b = .ok (event, s') := by
  unfold withBooking at h
  split at h
  · cases h
  · next b hget => exact ⟨b, hget, h⟩

theorem lookUp_ok {k : Result} (h : s.lookUp booking k = .ok (event, s')) :
    event = .failed (.unknownBooking booking) ∧ s' = s ∨ k = .ok (event, s') := by
  unfold lookUp at h
  split at h
  · cases h
    exact .inl ⟨rfl, rfl⟩
  · exact .inr h

variable {showId userId : String} {seatIds : List String}

theorem holdSeats_moved (hcall : s.calls.get? call = none)
    (h : s.holdSeats call showId userId seatIds = .ok (event, s')) : Moved s a event s' := by
  unfold holdSeats at h
  split at h
  · cases h
    exact .rejected _
  split at h
  · cases h
    exact .rejected _
  split at h
  · cases h
    exact .rejected _
  split at h
  · cases h
    exact .rejected _
  · split at h
    · cases h
      exact .rejected _
    · cases h
      exact .drafted call showId userId seatIds hcall

theorem holdLocked_moved
    (hcall : s.calls.get? call = some (.holding booking showId userId seatIds))
    (h : s.holdLocked call booking showId userId seatIds = .ok (event, s')) :
    Moved s a event s' := by
  have hunpaid : ∀ c ∈ some (Call.holding booking showId userId seatIds), c.Unpaid := by
    rintro _ ⟨⟩
    exact ⟨rfl, rfl⟩
  unfold holdLocked at h
  split at h
  · cases h
  · next sh _ =>
      split at h
      · cases h
        exact .wentOn _ call _ none hcall hunpaid (by rintro _ ⟨⟩)
      dsimp only at h
      split at h
      · cases h
        exact .wentOn _ call _ none hcall hunpaid (by rintro _ ⟨⟩)
      · next htaken =>
          cases h
          apply Moved.held call
            { bookingId := booking, userId, showId, seatIds
              linePrices := seatIds.map fun id => (id, sh.price id)
              expiresAt := s.now + s.holdTtl } userId hcall rfl rfl
          intro key hkey
          obtain ⟨id, hid, rfl⟩ := List.mem_map.mp hkey
          by_contra hnot
          apply htaken
          exact List.ne_nil_of_mem (List.mem_filter.mpr ⟨hid, by simpa using hnot⟩)

theorem check_moved (hcall : s.calls.get? call = some (.checking booking))
    (h : s.check call booking = .ok (event, s')) : Moved s a event s' := by
  have hunpaid : ∀ c ∈ some (Call.checking booking), c.Unpaid := by
    rintro _ ⟨⟩
    exact ⟨rfl, rfl⟩
  obtain ⟨b, -, hk⟩ := withBooking_ok h
  split at hk
  · cases hk
    exact .wentOn _ call _ none hcall hunpaid (by rintro _ ⟨⟩)
  split at hk
  · cases hk
    exact .wentOn _ call _ none hcall hunpaid (by rintro _ ⟨⟩)
  split at hk
  · cases hk
    exact .wentOn _ call _ (some (.expiring booking)) hcall hunpaid
      (by rintro _ ⟨⟩; exact ⟨rfl, rfl, rfl⟩)
  · cases hk
    exact .wentOn _ call _ (some (.charging booking)) hcall hunpaid
      (by rintro _ ⟨⟩; exact ⟨rfl, rfl, rfl⟩)

theorem charge_moved (hcall : s.calls.get? call = some (.charging booking))
    (h : s.charge call booking declined = .ok (event, s')) : Moved s a event s' := by
  obtain ⟨b, hget, hk⟩ := withBooking_ok h
  split at hk
  · cases hk
    apply Moved.wentOn _ call _ none hcall
    · rintro _ ⟨⟩
      exact ⟨rfl, rfl⟩
    · rintro _ ⟨⟩
  · next payment gateway hcharge =>
      cases hk
      exact .charged call booking b b.total declined payment gateway hcall hget hcharge

theorem confirm_moved {payment : PaymentId} (ha : a = .resume call declined)
    (hcall : s.calls.get? call = some (.confirming booking payment))
    (h : s.confirm call booking payment = .ok (event, s')) : Moved s a event s' := by
  obtain ⟨b, hget, hk⟩ := withBooking_ok h
  split at hk
  · next hstatus =>
      cases hk
      exact .confirmedBefore call booking b payment hcall hget hstatus
  · next hstatus =>
      split at hk
      · next hours =>
          cases hk
          exact .confirmed call booking b payment hcall hget hours
      · next hours =>
          cases hk
          apply Moved.lapsed call booking b payment hcall hget hstatus
          simp [ha, lapses, hcall, hget, hstatus, hours]

theorem cancelLocked_moved (hcall : s.calls.get? call = some (.cancelling booking))
    (h : s.cancelLocked call booking = .ok (event, s')) : Moved s a event s' := by
  obtain ⟨b, hget, hk⟩ := withBooking_ok h
  split at hk
  · cases hk
    apply Moved.wentOn _ call _ none hcall
    · rintro _ ⟨⟩
      exact ⟨rfl, rfl⟩
    · rintro _ ⟨⟩
  · next =>
      have hcase : b.status = .pending ∨ b.status = .confirmed := by tauto
      dsimp only at hk
      split at hk
      · next payment hconfirmed hpayment =>
          cases hk
          apply Moved.cancelled _ call booking b (some (.returning booking payment)) hcall hget
          exact .inr ⟨hconfirmed, by rw [hpayment, map_some]⟩
      · next hnot =>
          cases hk
          apply Moved.cancelled _ call booking b none hcall hget
          rcases hcase with hpending | hconfirmed
          · exact .inl ⟨hpending, rfl⟩
          · right
            cases hpayment : b.paymentId with
            | none => exact ⟨hconfirmed, rfl⟩
            | some payment => exact absurd hpayment (hnot payment hconfirmed)

theorem releaseNext_moved {count : Nat} {due : List BookingId}
    (hcall : s.calls.get? call = some (.releasing due count))
    (h : s.releaseNext call count due = .ok (event, s')) : Moved s a event s' := by
  cases due with
  | nil =>
    cases h
    apply Moved.wentOn _ call _ none hcall
    · rintro _ ⟨⟩
      exact ⟨rfl, rfl⟩
    · rintro _ ⟨⟩
  | cons booking due =>
    obtain ⟨b, hget, hk⟩ := withBooking_ok h
    cases hk
    exact .expired _ call _ (some (.releasing due _)) booking b hcall ⟨rfl, rfl⟩
      (by rintro _ ⟨⟩; exact ⟨rfl, rfl, rfl⟩) hget

theorem resume_moved {c : Call} (ha : a = .resume call declined)
    (hcall : s.calls.get? call = some c) (h : s.resume call declined c = .ok (event, s')) :
    Moved s a event s' := by
  cases c with
  | holding => exact holdLocked_moved hcall h
  | registering b =>
    cases h
    exact .registered call b hcall
  | checking => exact check_moved hcall h
  | expiring booking =>
    obtain ⟨b, hget, hk⟩ := withBooking_ok h
    cases hk
    exact .expired _ call _ none booking b hcall ⟨rfl, rfl⟩ (by rintro _ ⟨⟩) hget
  | charging => exact charge_moved hcall h
  | confirming => exact confirm_moved ha hcall h
  | refunding booking payment | returning booking payment =>
    obtain ⟨b, -, hk⟩ := withBooking_ok h
    cases hk
    exact .refunded _ call _ booking payment b.total hcall rfl rfl
  | cancelling => exact cancelLocked_moved hcall h
  | sweeping now =>
    cases h
    apply Moved.wentOn _ call _ (some (.releasing (s.due now) 0)) hcall
    · rintro _ ⟨⟩
      exact ⟨rfl, rfl⟩
    · rintro _ ⟨⟩
      exact ⟨rfl, rfl, rfl⟩
  | releasing => exact releaseNext_moved hcall h

/-- A step that is taken is one of `Moved`, guards included. -/
theorem step_moved (h : step s a = .ok (event, s')) : Moved s a event s' := by
  cases a with
  | tick elapsed =>
    cases h
    exact .ticked elapsed
  | holdSeats =>
    obtain ⟨hnone, hk⟩ := start_ok h
    exact holdSeats_moved hnone hk
  | payAndConfirm call booking =>
    obtain ⟨hnone, hk⟩ := start_ok h
    rcases lookUp_ok hk with ⟨rfl, rfl⟩ | hk
    · exact .rejected _
    · cases hk
      exact .wentOn _ call none (some (.checking booking)) hnone (by rintro _ ⟨⟩)
        (by rintro _ ⟨⟩; exact ⟨rfl, rfl, rfl⟩)
  | cancel call booking =>
    obtain ⟨hnone, hk⟩ := start_ok h
    rcases lookUp_ok hk with ⟨rfl, rfl⟩ | hk
    · exact .rejected _
    · cases hk
      exact .wentOn _ call none (some (.cancelling booking)) hnone (by rintro _ ⟨⟩)
        (by rintro _ ⟨⟩; exact ⟨rfl, rfl, rfl⟩)
  | releaseExpired call =>
    obtain ⟨hnone, hk⟩ := start_ok h
    cases hk
    exact .wentOn _ call none (some (.sweeping s.now)) hnone (by rintro _ ⟨⟩)
      (by rintro _ ⟨⟩; exact ⟨rfl, rfl, rfl⟩)
  | resume =>
    simp only [step] at h
    split at h
    · cases h
    · next hcall => exact resume_moved rfl hcall h

end BookingService

namespace ShowSeat

variable {booking : BookingId}

theorem heldBy_iff {seat : ShowSeat} :
    seat.heldBy booking = true ↔ seat.status = .held ∧ seat.bookingId = some booking := by
  simp [heldBy]

theorem not_free_of_booked {seat : ShowSeat} {now : Int} (h : seat.status = .booked) :
    seat.isFree now = false := by
  simp [isFree, h]

theorem not_free_of_held {expiresAt now : Int} (h : now < expiresAt) :
    (⟨.held, some booking, some expiresAt⟩ : ShowSeat).isFree now = false := by
  simp [isFree]
  omega

end ShowSeat

namespace BookingService

variable {s s' : BookingService} {event : BookingEvent} {a : BookingStep} {call : Nat}
  {booking : BookingId} {b : Booking} {userId showId : String} {seatIds : List String}

/-! ## The invariant -/

/-- A booking that is in the registry, or will be. -/
def Live (s : BookingService) (booking : BookingId) (b : Booking) : Prop :=
  s.bookings.get? booking = some b ∨
    ∃ call, s.calls.get? call = some (.registering b) ∧ b.bookingId = booking

structure Sold (s : BookingService) : Prop where
  owner : ∀ key, (s.seats key).status = .booked →
    ∃ booking b, s.bookings.get? booking = some b ∧ b.status = .confirmed ∧ key ∈ b.seats ∧
      (s.seats key).bookingId = some booking
  sold : ∀ booking b key, s.bookings.get? booking = some b → b.status = .confirmed → key ∈ b.seats →
    (s.seats key).status = .booked ∧ (s.seats key).bookingId = some booking
  holds : ∀ booking b key, s.Live booking b → b.status = .pending → s.now < b.expiresAt →
    key ∈ b.seats → s.seats key = ⟨.held, some booking, some b.expiresAt⟩
  known : ∀ booking b, s.bookings.get? booking = some b → booking < s.nextId
  draft : ∀ call c booking, s.calls.get? call = some c → c.draft = some booking →
    booking < s.nextId ∧ s.bookings.get? booking = none
  oneDraft : ∀ call call' c c' booking, s.calls.get? call = some c → s.calls.get? call' = some c' →
    c.draft = some booking → c'.draft = some booking → call = call'
  drafted : ∀ call b, s.calls.get? call = some (.registering b) → b.status = .pending

theorem new_sold (shows : Dict String Show) (holdTtl now : Int) : Sold (new shows holdTtl now) where
  owner _ h := by cases h
  sold _ _ _ h := by cases h
  holds _ _ _ h := by rcases h with h | ⟨_, h, -⟩ <;> cases h
  known _ _ h := by cases h
  draft _ _ _ h := by cases h
  oneDraft _ _ _ _ _ h := by cases h
  drafted _ _ h := by cases h

theorem put_some {calls : Dict Nat Call} {k : Nat} {next : Option Call} {c : Call}
    (h : (calls.put call next).get? k = some c) :
    k = call ∧ next = some c ∨ k ≠ call ∧ calls.get? k = some c := by
  rw [Dict.get?_put] at h
  split at h
  · next heq => exact .inl ⟨heq, h⟩
  · next hne => exact .inr ⟨hne, h⟩

theorem Sold.goOn (h : Sold s) (call : Nat) (next : Option Call)
    (hnext : ∀ c ∈ next, c.draft = none) :
    Sold { s with calls := s.calls.put call next } := by
  have hold : ∀ {k c booking}, (s.calls.put call next).get? k = some c → c.draft = some booking →
      s.calls.get? k = some c := by
    intro k c booking hk hc
    rcases put_some hk with ⟨-, hsome⟩ | ⟨-, hk⟩
    · rw [hnext c hsome] at hc
      cases hc
    · exact hk
  constructor
  · exact h.owner
  · exact h.sold
  · intro booking b key hlive
    apply h.holds booking b key
    rcases hlive with hget | ⟨k, hk, hid⟩
    · exact .inl hget
    · exact .inr ⟨k, hold hk rfl, hid⟩
  · exact h.known
  · intro k c booking hk hc
    exact h.draft k c booking (hold hk hc) hc
  · intro k k' c c' booking hk hk' hc hc'
    exact h.oneDraft k k' c c' booking (hold hk hc) (hold hk' hc') hc hc'
  · intro k b hk
    exact h.drafted k b (hold hk rfl)

theorem Sold.charge (h : Sold s) (gateway : PaymentGateway) : Sold { s with gateway } :=
  ⟨h.owner, h.sold, h.holds, h.known, h.draft, h.oneDraft, h.drafted⟩

/-! ## A booking is settled -/

theorem Sold.settle (h : Sold s) {b' : Booking}
    (hget : s.bookings.get? booking = some b) (hseats : b'.seats = b.seats)
    (hpending : b'.status ≠ .pending) {seats : SeatKey → ShowSeat}
    (hothers : ∀ key, key ∉ b.seats ∨ (s.seats key).bookingId ≠ some booking →
      seats key = s.seats key) (hown : ∀ key ∈ b.seats, (s.seats key).bookingId = some booking →
      (seats key).status = .booked →
        b'.status = .confirmed ∧ (seats key).bookingId = some booking)
    (hconfirmed : b'.status = .confirmed → ∀ key ∈ b.seats,
      (seats key).status = .booked ∧ (seats key).bookingId = some booking) :
    Sold { s with seats, bookings := s.bookings.set booking b' } := by
  have hself : (s.bookings.set booking b').get? booking = some b' := get?_set_self _ _ _
  constructor
  · intro key hbooked
    by_cases hmine : key ∈ b.seats ∧ (s.seats key).bookingId = some booking
    · obtain ⟨hstatus, hid⟩ := hown key hmine.1 hmine.2 hbooked
      exact ⟨booking, b', hself, hstatus, by rw [hseats]; exact hmine.1, hid⟩
    have hsame : seats key = s.seats key := hothers key (not_and_or.mp hmine)
    simp only [hsame] at hbooked ⊢
    obtain ⟨n, bn, hn, hstatus, hkey, hid⟩ := h.owner key hbooked
    have hne : n ≠ booking := by
      rintro rfl
      cases hget.symm.trans hn
      exact hmine ⟨hkey, hid⟩
    exact ⟨n, bn, (get?_set_of_ne _ _ hne).trans hn, hstatus, hkey, hid⟩
  · intro n bn key hn hstatus hkey
    rcases get?_set_some hn with ⟨rfl, rfl⟩ | ⟨hne, hn⟩
    · exact hconfirmed hstatus key (hseats ▸ hkey)
    obtain ⟨hbooked, hid⟩ := h.sold n bn key hn hstatus hkey
    have hsame : seats key = s.seats key := by
      apply hothers key
      right
      rw [hid]
      exact fun heq => hne (some.inj heq)
    simp only [hsame]
    exact ⟨hbooked, hid⟩
  · intro n bn key hlive hstatus hnow hkey
    have hlive' : n ≠ booking ∧ s.Live n bn := by
      rcases hlive with hn | ⟨k, hk, hid⟩
      · rcases get?_set_some hn with ⟨rfl, rfl⟩ | ⟨hne, hn⟩
        · exact absurd hstatus hpending
        · exact ⟨hne, .inl hn⟩
      · refine ⟨?_, .inr ⟨k, hk, hid⟩⟩
        rintro rfl
        have hnone := (h.draft k _ _ hk rfl).2
        rw [hid, hget] at hnone
        cases hnone
    have hheld := h.holds n bn key hlive'.2 hstatus hnow hkey
    have hsame : seats key = s.seats key := by
      apply hothers key
      right
      rw [hheld]
      exact fun heq => hlive'.1 (some.inj heq)
    simp only [hsame]
    exact hheld
  · intro n bn hn
    rcases get?_set_some hn with ⟨rfl, -⟩ | ⟨-, hn⟩
    · exact h.known n b hget
    · exact h.known n bn hn
  · intro k c n hk hc
    obtain ⟨hlt, hnone⟩ := h.draft k c n hk hc
    have hne : n ≠ booking := (ne_of_eq_none hget hnone).symm
    exact ⟨hlt, (get?_set_of_ne _ _ hne).trans hnone⟩
  · exact h.oneDraft
  · exact h.drafted

theorem expireLocked_seats (booking : BookingId) (b : Booking) (key : SeatKey) :
    forEachSeat s.seats b.seats
      (fun seat => if seat.heldBy booking then seat.release else seat) key =
      if key ∈ b.seats ∧ (s.seats key).heldBy booking = true then (s.seats key).release
      else s.seats key := by
  rw [forEachSeat_apply]
  · by_cases hkey : key ∈ b.seats <;> simp [hkey]
  · intro seat
    by_cases hheld : seat.heldBy booking = true
    · have hnot : seat.release.heldBy booking = false := by
        simp [ShowSeat.release, ShowSeat.heldBy]
      simp [hheld, hnot]
    · simp [hheld]

theorem Sold.expire (h : Sold s) (hget : s.bookings.get? booking = some b) :
    Sold (s.expireLocked booking b).2 := by
  unfold expireLocked
  split
  · exact h
  · next hstatus =>
      apply h.settle hget
      · rfl
      · simp
      · intro key hkey
        rw [expireLocked_seats, if_neg]
        rintro ⟨hmem, hheld⟩
        rcases hkey with hnot | hid
        · exact hnot hmem
        · exact hid (ShowSeat.heldBy_iff.mp hheld).2
      · intro key hkey hid hbooked
        rw [expireLocked_seats] at hbooked
        split at hbooked
        · cases hbooked
        · -- it would be a confirmed booking's
          obtain ⟨n, bn, hn, hconfirmed, -, hid'⟩ := h.owner key hbooked
          cases hid.symm.trans hid'
          cases hget.symm.trans hn
          rw [hconfirmed] at hstatus
          exact absurd (by simp) hstatus
      · intro hconfirmed
        cases hconfirmed

theorem Sold.confirm (h : Sold s) {payment : PaymentId} (hget : s.bookings.get? booking = some b)
    (hours : s.stillOurs booking b = true) : Sold { s with
      seats := forEachSeat s.seats b.seats ShowSeat.book
      bookings := s.bookings.set booking
        { b with status := .confirmed, paymentId := some payment } } := by
  have hheld : ∀ key ∈ b.seats, (s.seats key).bookingId = some booking := by
    intro key hkey
    unfold stillOurs at hours
    exact (ShowSeat.heldBy_iff.mp ((of_decide_eq_true hours).2.2 key hkey)).2
  have hbook : ∀ key, forEachSeat s.seats b.seats ShowSeat.book key =
      if key ∈ b.seats then (s.seats key).book else s.seats key :=
    forEachSeat_apply s.seats b.seats _ fun _ => rfl
  apply h.settle hget
  · rfl
  · simp
  · intro key hkey
    rw [hbook, if_neg]
    intro hmem
    rcases hkey with hnot | hid
    · exact hnot hmem
    · exact hid (hheld key hmem)
  · intro key hkey hid _
    rw [hbook, if_pos hkey]
    exact ⟨rfl, hid⟩
  · intro _ key hkey
    rw [hbook, if_pos hkey]
    exact ⟨rfl, hheld key hkey⟩

theorem Sold.cancel (h : Sold s) (hget : s.bookings.get? booking = some b) :
    Sold { s with
      seats := forEachSeat s.seats b.seats fun seat =>
        if seat.bookingId = some booking then seat.release else seat
      bookings := s.bookings.set booking { b with status := .cancelled } } := by
  have hrelease : ∀ key, forEachSeat s.seats b.seats
      (fun seat => if seat.bookingId = some booking then seat.release else seat) key =
        if key ∈ b.seats then
          if (s.seats key).bookingId = some booking then (s.seats key).release else s.seats key
        else s.seats key := by
    apply forEachSeat_apply
    intro seat
    by_cases hid : seat.bookingId = some booking
    · simp [hid, ShowSeat.release]
    · simp [hid]
  apply h.settle hget
  · rfl
  · simp
  · intro key hkey
    rw [hrelease]
    rcases hkey with hnot | hid
    · rw [if_neg hnot]
    · rw [if_neg hid, ite_self]
  · intro key hkey hid hbooked
    rw [hrelease, if_pos hkey, if_pos hid] at hbooked
    cases hbooked
  · intro hconfirmed
    cases hconfirmed

/-! ## A booking is made -/

theorem Sold.hold (h : Sold s)
    (hcall : s.calls.get? call = some (.holding b.bookingId b.showId userId b.seatIds))
    (hpending : b.status = .pending) (hfree : ∀ key ∈ b.seats, (s.seats key).isFree s.now = true) :
    Sold { s with
      seats := forEachSeat s.seats b.seats (ShowSeat.hold b.bookingId b.expiresAt)
      calls := s.calls.put call (some (.registering b)) } := by
  have hheld : ∀ key, forEachSeat s.seats b.seats (ShowSeat.hold b.bookingId b.expiresAt) key =
      if key ∈ b.seats then ⟨.held, some b.bookingId, some b.expiresAt⟩ else s.seats key :=
    forEachSeat_apply s.seats b.seats _ fun _ => rfl
  have hdraft : ∀ {k c n}, (s.calls.put call (some (.registering b))).get? k = some c →
      c.draft = some n → ∃ c', s.calls.get? k = some c' ∧ c'.draft = some n := by
    intro k c n hk hc
    rcases put_some hk with ⟨rfl, hsome⟩ | ⟨-, hk⟩
    · cases hsome
      exact ⟨_, hcall, hc⟩
    · exact ⟨c, hk, hc⟩
  constructor
  · intro key hbooked
    simp only [hheld] at hbooked ⊢
    split at hbooked
    · cases hbooked
    · next hnot =>
        simp only [if_neg hnot]
        exact h.owner key hbooked
  · intro n bn key hn hstatus hkey
    obtain ⟨hbooked, hid⟩ := h.sold n bn key hn hstatus hkey
    have hnot : key ∉ b.seats := by
      intro hmem
      have := hfree key hmem
      rw [ShowSeat.not_free_of_booked hbooked] at this
      cases this
    simp only [hheld, if_neg hnot]
    exact ⟨hbooked, hid⟩
  · intro n bn key hlive hstatus hnow hkey
    have hcase : bn = b ∧ n = b.bookingId ∨ s.Live n bn := by
      rcases hlive with hn | ⟨k, hk, hid⟩
      · exact .inr (.inl hn)
      · rcases put_some hk with ⟨-, hsome⟩ | ⟨-, hk⟩
        · cases hsome
          exact .inl ⟨rfl, hid.symm⟩
        · exact .inr (.inr ⟨k, hk, hid⟩)
    rcases hcase with ⟨rfl, rfl⟩ | hlive
    · simp only [hheld, if_pos hkey]
    have hsame := h.holds n bn key hlive hstatus hnow hkey
    have hnot : key ∉ b.seats := by
      intro hmem
      have := hfree key hmem
      rw [hsame, ShowSeat.not_free_of_held hnow] at this
      cases this
    simp only [hheld, if_neg hnot]
    exact hsame
  · exact h.known
  · intro k c n hk hc
    obtain ⟨c', hk', hc'⟩ := hdraft hk hc
    exact h.draft k c' n hk' hc'
  · intro k k' c c' n hk hk' hc hc'
    obtain ⟨d, hk, hd⟩ := hdraft hk hc
    obtain ⟨d', hk', hd'⟩ := hdraft hk' hc'
    exact h.oneDraft k k' d d' n hk hk' hd hd'
  · intro k bn hk
    rcases put_some hk with ⟨-, hsome⟩ | ⟨-, hk⟩
    · cases hsome
      exact hpending
    · exact h.drafted k bn hk

theorem Sold.register (h : Sold s) (hcall : s.calls.get? call = some (.registering b)) :
    Sold { s with bookings := s.bookings.set b.bookingId b, calls := s.calls.put call none } := by
  obtain ⟨hlt, hnone⟩ := h.draft call _ _ hcall rfl
  have hstatus := h.drafted call b hcall
  have hother : ∀ {k c}, (s.calls.put call none).get? k = some c → k ≠ call ∧
      s.calls.get? k = some c := by
    intro k c hk
    rcases put_some hk with ⟨-, hsome⟩ | hk
    · cases hsome
    · exact hk
  constructor
  · intro key hbooked
    obtain ⟨n, bn, hn, hconfirmed, hkey, hid⟩ := h.owner key hbooked
    have hne : n ≠ b.bookingId := ne_of_eq_none hn hnone
    exact ⟨n, bn, (get?_set_of_ne _ _ hne).trans hn, hconfirmed, hkey, hid⟩
  · intro n bn key hn hconfirmed hkey
    rcases get?_set_some hn with ⟨rfl, rfl⟩ | ⟨-, hn⟩
    · rw [hstatus] at hconfirmed
      cases hconfirmed
    · exact h.sold n bn key hn hconfirmed hkey
  · intro n bn key hlive
    apply h.holds n bn key
    rcases hlive with hn | ⟨k, hk, hid⟩
    · rcases get?_set_some hn with ⟨rfl, rfl⟩ | ⟨-, hn⟩
      · exact .inr ⟨call, hcall, rfl⟩
      · exact .inl hn
    · exact .inr ⟨k, (hother hk).2, hid⟩
  · intro n bn hn
    rcases get?_set_some hn with ⟨rfl, -⟩ | ⟨-, hn⟩
    · exact hlt
    · exact h.known n bn hn
  · intro k c n hk hc
    obtain ⟨hne, hk⟩ := hother hk
    obtain ⟨hlt', hnone'⟩ := h.draft k c n hk hc
    have hfresh : n ≠ b.bookingId := by
      rintro rfl
      exact hne (h.oneDraft k call c _ _ hk hcall hc rfl)
    exact ⟨hlt', (get?_set_of_ne _ _ hfresh).trans hnone'⟩
  · intro k k' c c' n hk hk'
    exact h.oneDraft k k' c c' n (hother hk).2 (hother hk').2
  · intro k bn hk
    exact h.drafted k bn (hother hk).2

theorem Sold.drawId (h : Sold s) : Sold { s with
      nextId := s.nextId + 1
      calls := s.calls.put call (some (.holding s.nextId showId userId seatIds)) } := by
  have hcase : ∀ {k c n},
      (s.calls.put call (some (.holding s.nextId showId userId seatIds))).get? k =
      some c → c.draft = some n → k = call ∧ n = s.nextId ∨ s.calls.get? k = some c ∧
      n < s.nextId := by
    intro k c n hk hc
    rcases put_some hk with ⟨rfl, hsome⟩ | ⟨-, hk⟩
    · cases hsome
      exact .inl ⟨rfl, (some.inj hc).symm⟩
    · exact .inr ⟨hk, (h.draft k c n hk hc).1⟩
  have hregistering : ∀ {k b}, (s.calls.put call
      (some (.holding s.nextId showId userId seatIds))).get? k = some (.registering b) →
        s.calls.get? k = some (.registering b) := by
    intro k b hk
    rcases put_some hk with ⟨-, hsome⟩ | ⟨-, hk⟩
    · cases hsome
    · exact hk
  constructor
  · exact h.owner
  · exact h.sold
  · intro n bn key hlive
    apply h.holds n bn key
    rcases hlive with hn | ⟨k, hk, hid⟩
    · exact .inl hn
    · exact .inr ⟨k, hregistering hk, hid⟩
  · intro n bn hn
    exact Nat.lt_succ_of_lt (h.known n bn hn)
  · intro k c n hk hc
    rcases hcase hk hc with ⟨-, rfl⟩ | ⟨hk, hlt⟩
    · refine ⟨Nat.lt_succ_self _, eq_none_iff_forall_ne_some.mpr ?_⟩
      intro b hb
      exact Nat.lt_irrefl _ (h.known _ b hb)
    · exact ⟨Nat.lt_succ_of_lt hlt, (h.draft k c n hk hc).2⟩
  · intro k k' c c' n hk hk' hc hc'
    rcases hcase hk hc with ⟨rfl, rfl⟩ | ⟨hold, hlt⟩ <;>
      rcases hcase hk' hc' with ⟨rfl, hn⟩ | ⟨hold', hlt'⟩
    · rfl
    · exact absurd hlt' (Nat.lt_irrefl _)
    · exact absurd (hn ▸ hlt) (Nat.lt_irrefl _)
    · exact h.oneDraft k k' c c' n hold hold' hc hc'
  · intro k b hk
    exact h.drafted k b (hregistering hk)

/-! ## Runs -/

theorem Moved.sold (h : Sold s) (hm : Moved s a event s') : Sold s' := by
  cases hm with
  | ticked elapsed =>
    refine ⟨h.owner, h.sold, fun n b key hlive hstatus hnow => ?_, h.known, h.draft, h.oneDraft,
      h.drafted⟩
    apply h.holds n b key hlive hstatus
    have : s.now + (elapsed : Int) < b.expiresAt := hnow
    omega
  | rejected => exact h
  | drafted => exact h.drawId
  | held _ _ _ hcall hstatus _ hfree => exact h.hold hcall hstatus hfree
  | registered _ _ hcall => exact h.register hcall
  | wentOn _ call _ next _ _ hnext => exact h.goOn call next fun c hc => (hnext c hc).1
  | expired _ call c next _ _ _ _ hnext hget =>
    exact (h.expire hget).goOn call next fun c hc => (hnext c hc).1
  | charged call _ _ _ _ _ gateway =>
    exact (h.charge gateway).goOn call _ (by rintro _ ⟨⟩; rfl)
  | confirmedBefore call =>
    exact h.goOn call none (by rintro _ ⟨⟩)
  | confirmed call _ _ _ _ hget hours =>
    exact (h.confirm hget hours).goOn call none (by rintro _ ⟨⟩)
  | lapsed call _ _ _ _ hget =>
    exact (h.expire hget).goOn call _ (by rintro _ ⟨⟩; rfl)
  | cancelled _ call _ _ next _ hget hcase =>
    apply (h.cancel hget).goOn call next
    rcases hcase with ⟨-, rfl⟩ | ⟨-, rfl⟩
    · rintro _ ⟨⟩
    · intro c hc
      obtain ⟨payment, -, rfl⟩ := map_eq_some_iff.mp hc
      rfl
  | refunded _ call _ _ payment amount =>
    exact (h.charge (s.gateway.refund payment amount)).goOn call none (by rintro _ ⟨⟩)

variable {trace : List BookingEvent} {shows : Dict String Show} {as : List BookingStep}

/-- Every run keeps a seat with the one booking that holds it. -/
theorem run_sold_inv {holdTtl now : Int}
    (hrun : runSteps step (new shows holdTtl now) as = .ok (trace, s)) : Sold s := by
  apply runSteps_keeps (C := fun _ _ => True) (fun _ _ t => Sold t) _ (new_sold shows holdTtl now)
    (Guarded.of_forall (fun _ _ => trivial) _ _) hrun
  intro as os t a o t' _ ht _ hok
  exact Moved.sold ht (step_moved hok)

/-- What a hold request does under the seat locks. -/
def HoldsAllOrNone (s s' : BookingService) (booking : BookingId) (keys : List SeatKey) : Prop :=
  s'.seats = s.seats ∨
    (∀ key ∈ keys, (s'.seats key).heldBy booking = true) ∧
      ∀ key, key ∉ keys → s'.seats key = s.seats key

structure SoldOnce (s : BookingService) : Prop where
  oneOwner : ∀ key booking booking' b b',
    s.bookings.get? booking = some b → s.bookings.get? booking' = some b' →
    b.status = .confirmed → b'.status = .confirmed → key ∈ b.seats → key ∈ b'.seats →
    booking = booking'
  booked : ∀ key, (s.seats key).status = .booked ↔
    ∃ booking b, s.bookings.get? booking = some b ∧ b.status = .confirmed ∧ key ∈ b.seats
  bookingId : ∀ key booking b, s.bookings.get? booking = some b → b.status = .confirmed →
    key ∈ b.seats → (s.seats key).bookingId = some booking
  holds : ∀ booking b, s.bookings.get? booking = some b → b.status = .pending →
    s.now < b.expiresAt → ∀ key ∈ b.seats, (s.seats key).heldBy booking = true
  requested : ∀ call showId userId seatIds event s',
    step s (.holdSeats call showId userId seatIds) = .ok (event, s') → s'.seats = s.seats
  allOrNone : ∀ call booking showId userId seatIds declined event s',
    s.calls.get? call = some (.holding booking showId userId seatIds) →
    step s (.resume call declined) = .ok (event, s') →
    HoldsAllOrNone s s' booking (seatIds.map fun id => (showId, id))

theorem holdSeats_seats (h : step s (.holdSeats call showId userId seatIds) = .ok (event, s')) :
    s'.seats = s.seats := by
  obtain ⟨-, hk⟩ := start_ok h
  unfold holdSeats at hk
  split at hk
  · cases hk
    rfl
  split at hk
  · cases hk
    rfl
  split at hk
  · cases hk
    rfl
  · split at hk
    · cases hk
      rfl
    · split at hk <;> cases hk <;> rfl

theorem holdLocked_allOrNone (h : s.holdLocked call booking showId userId seatIds = .ok (event, s'))
    : HoldsAllOrNone s s' booking (seatIds.map fun id => (showId, id)) := by
  unfold holdLocked at h
  split at h
  · cases h
  split at h
  · cases h
    exact .inl rfl
  dsimp only at h
  split at h
  · cases h
    exact .inl rfl
  cases h
  have hheld := forEachSeat_apply s.seats (seatIds.map fun id => (showId, id))
    (ShowSeat.hold booking (s.now + s.holdTtl)) fun _ => rfl
  right
  constructor
  · intro key hkey
    simp only [hheld, if_pos hkey]
    simp [ShowSeat.heldBy, ShowSeat.hold]
  · intro key hkey
    simp only [hheld, if_neg hkey]

/-- In every run, no seat is sold twice. -/
theorem run_sold {holdTtl now : Int}
    (hrun : runSteps step (new shows holdTtl now) as = .ok (trace, s)) : SoldOnce s := by
  have h := run_sold_inv hrun
  constructor
  · intro key booking booking' b b' hget hget' hstatus hstatus' hkey hkey'
    have hid := (h.sold booking b key hget hstatus hkey).2
    have hid' := (h.sold booking' b' key hget' hstatus' hkey').2
    exact some.inj (hid.symm.trans hid')
  · intro key
    constructor
    · intro hbooked
      obtain ⟨booking, b, hget, hstatus, hkey, -⟩ := h.owner key hbooked
      exact ⟨booking, b, hget, hstatus, hkey⟩
    · rintro ⟨booking, b, hget, hstatus, hkey⟩
      exact (h.sold booking b key hget hstatus hkey).1
  · intro key booking b hget hstatus hkey
    exact (h.sold booking b key hget hstatus hkey).2
  · intro booking b hget hstatus hnow key hkey
    rw [h.holds booking b key (.inl hget) hstatus hnow hkey]
    simp [ShowSeat.heldBy]
  · intro call showId userId seatIds event s' hstep
    exact holdSeats_seats hstep
  · intro call booking showId userId seatIds declined event s' hcall hstep
    simp only [step, hcall] at hstep
    exact holdLocked_allOrNone hstep

/-- One show of two seats at 100. -/
def sampleShows : Dict String Show :=
  Dict.empty.set "SH1" { startTime := 1000, seats := ["A1", "A2"], price := fun _ => 100 }

/-- A hold lapses while its booking is paid for, and another user books the seat. -/
def soldToAnother : List BookingStep :=
  [.holdSeats 0 "SH1" "meera" ["A1"], .resume 0 false, .resume 0 false,
    .payAndConfirm 1 1, .resume 1 false, .resume 1 false, .tick 10,
    .holdSeats 2 "SH1" "dev" ["A1", "A2"], .resume 2 false, .resume 2 false,
    .payAndConfirm 3 2, .resume 3 false, .resume 3 false, .resume 3 false,
    .resume 1 false, .resume 1 false]

theorem run_sold_toAnother :
    ∃ trace s, runSteps step (new sampleShows 10 0) soldToAnother = .ok (trace, s) ∧
      (s.bookings.get? 1).map Booking.status = some .expired ∧
      (s.bookings.get? 2).map Booking.status = some .confirmed ∧ SoldOnce s := by
  refine exists_run_of_observe
    (f := fun r => ((r.2.bookings.get? 1).map Booking.status,
      (r.2.bookings.get? 2).map Booking.status))
    (b := (some .expired, some .confirmed)) (by decide +kernel) fun trace s hrun hobserve => ?_
  obtain ⟨hfirst, hsecond⟩ := Prod.mk.inj hobserve
  exact ⟨hfirst, hsecond, run_sold hrun⟩

end BookingService

end InterviewPrep.MovieBooking
