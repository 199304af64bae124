/-
  Every run of the service: no room is sold twice, the calendars agree with the bookings when no
  call is in progress, and a `hold` leaves a booking with its rooms, or nothing (`run_soldOnce`).
  A key has one booking (`run_keysOnce`).
-/
import InterviewPrep.Hotel.Bookings

namespace InterviewPrep.Hotel

open Lib List

namespace HotelBookingService

variable {q q' : HotelBookingService} {call id : Nat} {a : Answer} {rooms : List Room}
  {price : RoomType → DateRange → Guest → Decimal} {holdTtl : Int} {checkInAt : Int → Int}
  {key : String} {req : HoldRequest} {b : Booking} {next : BookingStatus}

theorem new_consistent (h : new rooms price holdTtl checkInAt = .ok q) : q.Consistent := by
  rw [new] at h
  split at h
  · cases h
  next hfind =>
  cases h
  have hnodup : (rooms.map Room.id).Nodup := by
    rw [nodup_iff_count_eq_one]
    intro id hid
    simpa using find?_eq_none.mp hfind id hid
  have hkeys : ((rooms.map fun r => (r.id, (⟨r, TreeMap.empty⟩ : RoomCalendar))).map
      Prod.fst).Nodup := by
    rw [map_map]
    exact hnodup
  have hget : ∀ room cal, (Dict.ofList (rooms.map fun r =>
      (r.id, (⟨r, TreeMap.empty⟩ : RoomCalendar)))).get? room = some cal ↔
        ∃ r ∈ rooms, r.id = room ∧ cal = ⟨r, TreeMap.empty⟩ := by
    intro room cal
    rw [← Dict.mem_items, Dict.ofList_items hkeys, mem_map]
    constructor
    · rintro ⟨r, hr, heq⟩
      cases heq
      exact ⟨r, hr, rfl, rfl⟩
    · rintro ⟨r, hr, rfl, rfl⟩
      exact ⟨r, hr, rfl⟩
  constructor
  · intro room cal hcal
    obtain ⟨r, _, rfl, rfl⟩ := (hget room cal).mp hcal
    exact ⟨rfl, TreeMap.Disjoint.empty⟩
  · intro room cal hcal x
    obtain ⟨r, _, rfl, rfl⟩ := (hget room cal).mp hcal
    constructor
    · exact fun hhas => by cases hhas
    · rintro (⟨b, hb, -⟩ | ⟨call, c, hc, -⟩)
      · cases hb
      · cases hc
  · intro type
    refine ⟨(filter_sublist.map _).nodup hnodup, fun room hroom => ?_⟩
    obtain ⟨r, hr, rfl⟩ := mem_map.mp hroom
    obtain ⟨hr, htype⟩ := mem_filter.mp hr
    exact ⟨_, (hget r.id _).mpr ⟨r, hr, rfl, rfl⟩, by simpa using htype⟩
  · exact fun id b hb => by cases hb
  · exact fun call c hc => by cases hc
  · exact fun call call' c c' id stay stay' rooms rooms' hc => by cases hc
  · exact fun key id hkey => by cases hkey

/-! ## hold -/

theorem Consistent.hold (h : q.Consistent) (hidle : q.calls.get? call = none) (key : String)
    (req : HoldRequest) (today : Int) : (q.hold call key req today).2.Consistent := by
  rw [HotelBookingService.hold]
  split
  · exact h
  next =>
  split
  · exact h
  split
  · exact h
  split
  · exact h
  apply h.start hidle (q.ids + 1) (Nat.le_succ _)
  · constructor
    · intro id stay rooms heq
      cases heq
      refine ⟨Nat.le_refl _, nodup_nil, nofun,
        fun b hb => ?_⟩
      have hle := (h.bookings _ b hb).1
      omega
    · refine ⟨?_, (h.byType req.type).1, fun _ hroom => hroom, by simp; omega⟩
      cases hb : q.bookings.get? (q.ids + 1) with
      | none => rfl
      | some b =>
        have hle := (h.bookings _ b hb).1
        omega
  · rintro id stay room ⟨rooms, heq, hroom⟩
    cases heq
    cases hroom
  · intro id stay rooms heq
    cases heq
    exact Nat.lt_succ_self _

theorem Consistent.reserve (h : q.Consistent) {left taken : List String}
    (hc : q.calls.get? call = some (.reserving key req id left taken)) (now : Int) :
    (q.reserve call key req id left taken now).2.Consistent := by
  have hok := h.calls call _ hc
  obtain ⟨hnone, hnodup, htype, hle⟩ := hok.extra
  have hholding := hok.holding id req.stay taken rfl
  unfold HotelBookingService.reserve
  split
  · split
    · apply h.setCall hc
      · exact ⟨fun id' stay rooms heq => by cases heq; exact hholding, trivial⟩
      · exact fun id' stay rooms heq => by cases heq; exact ⟨_, _, rfl⟩
      · exact fun _ _ _ => Iff.rfl
    next => exact h.booked hc (by omega) now
  next hgoing =>
  cases left with
  | nil => exact absurd (Or.inl rfl) hgoing
  | cons room rest =>
  have hlt : (taken.length : Int) < req.roomCount := by
    have hne := (not_or.mp hgoing).2
    omega
  have hnodup' : (taken ++ rest).Nodup :=
    hnodup.sublist (List.Sublist.append_left (sublist_cons_self room rest) taken)
  dsimp only
  split
  · apply h.setCall hc
    · refine ⟨fun id' stay rooms heq => by cases heq; exact hholding, hnone, hnodup',
        fun r hr => htype r ?_, hle⟩
      exact (mem_append.mp hr).elim (mem_append_left _)
        fun hr => mem_append_right _ (mem_cons_of_mem _ hr)
    · exact fun id' stay rooms heq => by cases heq; exact ⟨_, _, rfl⟩
    · exact fun _ _ _ => Iff.rfl
  next hreserve =>
  obtain ⟨cal, hcal, hreserve⟩ := Option.bind_eq_some_iff.mp hreserve
  have hnot : room ∉ taken := fun hmem =>
    (nodup_append.mp hnodup).2.2 _ hmem _ mem_cons_self rfl
  refine h.reserved hc rfl rfl hnot hcal hreserve ⟨hnone, ?_, ?_, ?_⟩
  · rw [append_assoc]
    exact hnodup
  · rw [append_assoc]
    exact htype
  · rw [length_append, length_singleton]
    omega

theorem holds_nil {c : Call} {stay : DateRange} (h : c.holding = some (id, stay, [])) :
    ∀ id stay room, ¬ c.Holds id stay room := by
  rintro id' stay' room ⟨rooms, heq, hroom⟩
  rw [h] at heq
  cases heq
  cases hroom

theorem holds_none {c : Call} (h : c.holding = none) : ∀ id stay room, ¬ c.Holds id stay room := by
  rintro id' stay' room ⟨rooms, heq, -⟩
  rw [h] at heq
  cases heq

theorem Consistent.advance (h : q.Consistent) (call : Nat) (now : Int) :
    (q.advance call now).2.Consistent := by
  rw [HotelBookingService.advance]
  split
  next => exact h
  next => exact h
  next hc => exact h.reserve hc now
  next hc =>
    split
    · exact h.eraseCall hc (holds_nil rfl)
    · exact h.release hc rfl rfl trivial
  next hc =>
    have herased := h.eraseCall hc (holds_none rfl)
    refine ⟨herased.apart, herased.entries, herased.byType, herased.bookings,
      fun call1 c1 hc1 => ?_, herased.distinct, fun key' id' hkey => ?_⟩
    · have hok := herased.calls call1 c1 hc1
      exact ⟨hok.holding, by
        have hextra := hok.extra
        cases c1 <;> exact hextra⟩
    rcases Dict.get?_set_some hkey with ⟨rfl, rfl⟩ | ⟨-, hold⟩
    · obtain ⟨b, hb, -⟩ := (h.calls call _ hc).extra
      rw [hb]
      exact Option.some_ne_none _
    · exact h.keys key' id' hold
  next hc =>
    split
    · exact h.eraseCall hc (holds_nil rfl)
    · exact h.release hc rfl rfl trivial
  next stay _ hc =>
    split
    · apply h.setCall hc
      · exact ⟨fun id' stay rooms heq => (by cases heq), trivial⟩
      · exact fun id' stay rooms heq => by cases heq
      · exact fun id' stay' room => iff_of_false (holds_none rfl _ _ _) (holds_nil rfl _ _ _)
    · exact h.release hc rfl rfl trivial

/-! ## The other calls -/

variable {expected : BookingStatus}

theorem transition_some {b' : Booking} (h : b.transition expected next = .ok (some b')) :
    b.status = expected ∧ b' = { b with status := next } := by
  rw [Booking.transition] at h
  split at h
  · cases h
  next hst =>
    split at h
    · cases h
    · cases h
      exact ⟨not_not.mp hst, rfl⟩

theorem moveTo_ok {b' : Booking} (h : b.moveTo next = .ok b') :
    b.status.canMoveTo next ∧ b' = { b with status := next } := by
  rw [Booking.moveTo] at h
  split at h
  · cases h
  next hmove =>
    cases h
    exact ⟨not_not.mp hmove, rfl⟩

theorem Consistent.confirm (h : q.Consistent) (hidle : q.calls.get? call = none) (id : Nat)
    (now : Int) : (q.confirm call id now).2.Consistent := by
  rw [HotelBookingService.confirm]
  split
  · exact h
  next hb =>
  split
  · split
    · exact h
    · exact h
    next hmoved =>
      obtain ⟨hst, rfl⟩ := transition_some hmoved
      refine h.statusDead hb (by rw [hst]; rfl) rfl (fun c hc => ?_) rfl ?_
      · rw [hidle] at hc
        cases hc
      · exact trivial
  · split
    · exact h
    · exact h
    next hmoved =>
      obtain ⟨hst, rfl⟩ := transition_some hmoved
      exact h.statusLive hb (by rw [hst]; rfl) rfl

theorem Consistent.cancel (h : q.Consistent) (hidle : q.calls.get? call = none) (id : Nat) :
    (q.cancel call id).2.Consistent := by
  rw [HotelBookingService.cancel]
  split
  · exact h
  next hb =>
  split
  · exact h
  next hmoved =>
    obtain ⟨hmove, rfl⟩ := moveTo_ok hmoved
    refine h.statusDead hb (BookingStatus.live_of_canMoveTo hmove) rfl (fun c hc => ?_) rfl ?_
    · rw [hidle] at hc
      cases hc
    · exact trivial

theorem Consistent.move (h : q.Consistent) (id : Nat) (hnext : next.live) :
    (q.move id next).2.Consistent := by
  rw [HotelBookingService.move]
  split
  · exact h
  next hb =>
    split
    · exact h
    next hmoved =>
      obtain ⟨hmove, rfl⟩ := moveTo_ok hmoved
      exact h.statusLive hb (BookingStatus.live_of_canMoveTo hmove) hnext

theorem Consistent.sweep (h : q.Consistent) {now : Int} {n : Nat}
    (hc : q.calls.get? call = some (.sweeping now n)) (id : Nat) :
    (q.sweep call now n id).2.Consistent := by
  rw [HotelBookingService.sweep]
  split
  · exact h
  next hb =>
  split
  · split
    · exact h.eraseCall hc (holds_none rfl)
    · exact h
    next hmoved =>
    obtain ⟨hst, rfl⟩ := transition_some hmoved
    refine h.statusDead hb (by rw [hst]; rfl) rfl (fun c hc' => ?_) rfl ?_
    · rw [hc] at hc'
      rw [← Option.some.inj hc']
      rfl
    · exact trivial
  · exact h

theorem Consistent.step (h : q.Consistent) (op : Op) :
    ∃ a q', q.step op = .ok (a, q') ∧ q'.Consistent := by
  have hidle : ∀ {call : Nat}, ¬ (q.calls.get? call).isSome → q.calls.get? call = none :=
    fun hnot => by simpa using hnot
  cases op with
  | hold _ key req today =>
    rw [HotelBookingService.step]
    split
    · exact ⟨_, _, rfl, h⟩
    next hnot => exact ⟨_, _, rfl, h.hold (hidle hnot) key req today⟩
  | confirm _ id now =>
    rw [HotelBookingService.step]
    split
    · exact ⟨_, _, rfl, h⟩
    next hnot => exact ⟨_, _, rfl, h.confirm (hidle hnot) id now⟩
  | cancel _ id =>
    rw [HotelBookingService.step]
    split
    · exact ⟨_, _, rfl, h⟩
    next hnot => exact ⟨_, _, rfl, h.cancel (hidle hnot) id⟩
  | checkIn id today =>
    refine ⟨(q.checkIn id today).1, (q.checkIn id today).2, rfl, ?_⟩
    rw [HotelBookingService.checkIn]
    split
    · exact h
    · split
      · exact h
      · exact h.move id rfl
  | checkOut id => exact ⟨_, _, rfl, h.move id rfl⟩
  | expireHolds =>
    rw [HotelBookingService.step]
    split
    · exact ⟨_, _, rfl, h⟩
    next hnot =>
      refine ⟨_, _, rfl, h.start (hidle hnot) q.ids (Nat.le_refl _) ?_ (holds_none rfl) ?_⟩
      · exact ⟨fun id stay rooms heq => (by cases heq), trivial⟩
      · exact fun id stay rooms heq => by cases heq
  | sweep _ id =>
    rw [HotelBookingService.step]
    split
    next hc => exact ⟨_, _, rfl, h.sweep hc id⟩
    next => exact ⟨_, _, rfl, h⟩
  | sweepEnd =>
    rw [HotelBookingService.step]
    split
    next hc => exact ⟨_, _, rfl, h.eraseCall hc (holds_none rfl)⟩
    next => exact ⟨_, _, rfl, h⟩
  | advance call now => exact ⟨_, _, rfl, h.advance call now⟩

/-! ## What hold returns -/

/-- The request of the `hold` that may return at this step. -/
def asked (q : HotelBookingService) : Op → Option HoldRequest
  | .hold _ _ req _ => some req
  | .advance call _ =>
    match q.calls.get? call with
    | some (.publishing _ req _) => some req
    | _ => none
  | _ => none

/-- The booking that a `hold` returns has its rooms, and as long as it is live they are reserved. -/
structure Granted (q : HotelBookingService) (req : HoldRequest) (id : Nat) (b : Booking) :
    Prop where
  get : q.bookings.get? id = some b
  stay : b.stay = req.stay
  count : (b.roomIds.length : Int) = req.roomCount
  distinct : b.roomIds.Nodup
  rooms : ∀ room ∈ b.roomIds, ∃ cal, q.calendarsById.get? room = some cal ∧
    cal.room.type = req.type ∧ (b.status.live → ⟨id, req.stay⟩ ∈ cal.reservations)

theorem Consistent.granted (h : q.Consistent) (hheld : q.holdReturns key req call = .held id) :
    ∃ b, q.Granted req id b := by
  rw [holdReturns] at hheld
  split at hheld
  · cases hheld
  next b hb =>
  split at hheld
  next hreq =>
    cases hheld
    rw [Booking.sameRequest, decide_eq_true_eq] at hreq
    obtain ⟨-, htype, hstay, hcount⟩ := hreq
    obtain ⟨-, hnodup, hrooms⟩ := h.bookings call b hb
    refine ⟨b, hb, hstay, hcount, hnodup, fun room hroom => ?_⟩
    obtain ⟨cal, hcal, hcalType⟩ := (h.byType b.roomType).2 room (hrooms room hroom)
    refine ⟨cal, hcal, by rw [hcalType, htype], fun hlive => ?_⟩
    rw [(h.apart room cal hcal).2.mem_reservations, h.entries room cal hcal]
    exact Or.inl ⟨b, hb, hlive, hstay, hroom⟩
  next => cases hheld

theorem Consistent.unreserved (h : q.Consistent) {found : Nat}
    (hc : q.calls.get? call = some (.unreserving key req id found [])) :
    ∀ room cal x, q.calendarsById.get? room = some cal → x ∈ cal.reservations →
      x.bookingId ≠ id := by
  rintro room cal x hcal hx rfl
  rw [(h.apart room cal hcal).2.mem_reservations, h.entries room cal hcal, occupies_iff hc] at hx
  rcases hx with hothers | hholds
  · exact h.others_none hc rfl _ _ hothers
  · exact holds_nil rfl _ _ _ hholds

/-- An answer that only `hold` gives. -/
def Answer.ofHold : Answer → Bool
  | .held _ | .threw (.noAvailability ..) => true
  | _ => false

theorem transition_error {e : Thrown}
    (h : b.transition expected next = .error e) : e = .notAllowed b.status next := by
  rw [Booking.transition] at h
  split at h
  · cases h
  · split at h
    · cases h
      rfl
    · cases h

theorem moveTo_error {e : Thrown} (h : b.moveTo next = .error e) :
    e = .notAllowed b.status next := by
  rw [Booking.moveTo] at h
  split at h
  · cases h
    rfl
  · cases h

theorem holdReturns_ne (key : String) (req : HoldRequest) (found : Nat) (count : Int)
    (type : RoomType) (stay : DateRange) :
    q.holdReturns key req id ≠ .threw (.noAvailability found count type stay) := by
  rw [holdReturns]
  split
  · exact fun h => by cases h
  · split
    · exact fun h => by cases h
    · exact fun h => by cases h

theorem reserve_ofHold (key : String) (req : HoldRequest) (left taken : List String) (now : Int) :
    Answer.ofHold (q.reserve call key req id left taken now).1 = false := by
  unfold HotelBookingService.reserve
  split
  · split <;> rfl
  · split
    · rfl
    · split <;> rfl

theorem refund_ofHold (prev : BookingStatus) (now : Int) :
    Answer.ofHold (q.refund id prev now) = false := by
  rw [refund]
  split
  · rfl
  · split <;> rfl

theorem confirm_ofHold (now : Int) : Answer.ofHold (q.confirm call id now).1 = false := by
  rw [HotelBookingService.confirm]
  split
  · rfl
  split
  · split
    next herror =>
      rw [transition_error herror]
      rfl
    next => rfl
    next => rfl
  · split
    next herror =>
      rw [transition_error herror]
      rfl
    next => rfl
    next => rfl

theorem cancel_ofHold : Answer.ofHold (q.cancel call id).1 = false := by
  rw [HotelBookingService.cancel]
  split
  · rfl
  · split
    next herror =>
      rw [moveTo_error herror]
      rfl
    next => rfl

theorem move_ofHold (next : BookingStatus) : Answer.ofHold (q.move id next).1 = false := by
  rw [HotelBookingService.move]
  split
  · rfl
  · split
    next herror =>
      rw [moveTo_error herror]
      rfl
    next => rfl

theorem sweep_ofHold (now : Int) (n : Nat) : Answer.ofHold (q.sweep call now n id).1 = false := by
  rw [HotelBookingService.sweep]
  split
  · rfl
  split
  · split
    next herror =>
      rw [transition_error herror]
      rfl
    next => rfl
    next => rfl
  · rfl

/-- What a step says of the `hold` that it is part of. -/
def HoldEnds (q : HotelBookingService) (op : Op) (a : Answer) (q' : HotelBookingService) : Prop :=
  (∀ id, a = .held id → ∃ req b, q.asked op = some req ∧ q'.Granted req id b) ∧
    ∀ found count type stay, a = .threw (.noAvailability found count type stay) →
      ∃ call now key req id, op = .advance call now ∧
        q.calls.get? call = some (.unreserving key req id found []) ∧
        ∀ room cal x, q'.calendarsById.get? room = some cal → x ∈ cal.reservations →
          x.bookingId ≠ id

theorem HoldEnds.of_quiet {op : Op} (h : Answer.ofHold a = false) : HoldEnds q op a q' := by
  constructor
  · rintro id rfl
    cases h
  · rintro found count type stay rfl
    cases h

theorem Consistent.advance_ends (h : q.Consistent) (call : Nat) (now : Int) :
    HoldEnds q (.advance call now) (q.advance call now).1 (q.advance call now).2 := by
  cases hc : q.calls.get? call with
  | none =>
    apply HoldEnds.of_quiet
    rw [HotelBookingService.advance, hc]
    rfl
  | some c =>
  cases c with
  | reserving key req _ left taken =>
    apply HoldEnds.of_quiet
    rw [HotelBookingService.advance, hc]
    exact reserve_ofHold key req left taken now
  | unreserving key req id _ left =>
    cases left with
    | nil =>
      have hcons := h.advance call now
      rw [HotelBookingService.advance, hc] at hcons ⊢
      constructor
      · exact fun id' heq => by cases heq
      · intro found' count type stay heq
        cases heq
        refine ⟨call, now, key, req, id, rfl, hc, fun room cal x hcal hx => ?_⟩
        exact h.unreserved hc room cal x hcal hx
    | cons =>
      apply HoldEnds.of_quiet
      rw [HotelBookingService.advance, hc]
      rfl
  | publishing key req =>
    have hcons := h.advance call now
    rw [HotelBookingService.advance, hc] at hcons ⊢
    constructor
    · intro id' heq
      obtain ⟨b, hb⟩ := hcons.granted heq
      exact ⟨req, b, by rw [asked, hc], hb⟩
    · exact fun found count type stay heq =>
        absurd heq (holdReturns_ne key req found count type stay)
  | releasing _ _ left why =>
    apply HoldEnds.of_quiet
    rw [HotelBookingService.advance, hc]
    cases left with
    | nil =>
      cases why with
      | confirm => rfl
      | cancel prev => exact refund_ofHold prev now
    | cons => rfl
  | sweeping =>
    apply HoldEnds.of_quiet
    rw [HotelBookingService.advance, hc]
    rfl
  | sweepReleasing _ _ _ _ left =>
    apply HoldEnds.of_quiet
    rw [HotelBookingService.advance, hc]
    cases left <;> rfl

theorem Consistent.hold_ends (h : q.Consistent) (call : Nat) (key : String) (req : HoldRequest)
    (today : Int) : HoldEnds q (.hold call key req today) (q.hold call key req today).1
      (q.hold call key req today).2 := by
  rw [HotelBookingService.hold]
  split
  · exact HoldEnds.of_quiet rfl
  split
  · exact HoldEnds.of_quiet rfl
  split
  next =>
    constructor
    · intro id' heq
      obtain ⟨b, hb⟩ := h.granted heq
      exact ⟨req, b, rfl, hb⟩
    · exact fun found count type stay heq =>
        absurd heq (holdReturns_ne key req found count type stay)
  next =>
    split
    · exact HoldEnds.of_quiet rfl
    · exact HoldEnds.of_quiet rfl

theorem Consistent.ends (h : q.Consistent) {op : Op} (hstep : q.step op = .ok (a, q')) :
    HoldEnds q op a q' := by
  cases op with
  | hold call key req today =>
    rw [HotelBookingService.step] at hstep
    split at hstep
    · cases hstep
      exact HoldEnds.of_quiet rfl
    · have hends := h.hold_ends call key req today
      rw [Except.ok.inj hstep] at hends
      exact hends
  | advance call now =>
    have hends := h.advance_ends call now
    rw [show q.advance call now = (a, q') from Except.ok.inj hstep] at hends
    exact hends
  | confirm call id now =>
    apply HoldEnds.of_quiet
    rw [HotelBookingService.step] at hstep
    split at hstep
    · cases hstep
      rfl
    · have hfst : (q.confirm call id now).1 = a := congrArg Prod.fst (Except.ok.inj hstep)
      rw [← hfst]
      exact confirm_ofHold now
  | cancel call id =>
    apply HoldEnds.of_quiet
    rw [HotelBookingService.step] at hstep
    split at hstep
    · cases hstep
      rfl
    · have hfst : (q.cancel call id).1 = a := congrArg Prod.fst (Except.ok.inj hstep)
      rw [← hfst]
      exact cancel_ofHold
  | checkIn id today =>
    apply HoldEnds.of_quiet
    have hfst : (q.checkIn id today).1 = a := congrArg Prod.fst (Except.ok.inj hstep)
    rw [← hfst, HotelBookingService.checkIn]
    split
    · rfl
    · split
      · rfl
      · exact move_ofHold .checkedIn
  | checkOut id =>
    apply HoldEnds.of_quiet
    have hfst : (q.checkOut id).1 = a := congrArg Prod.fst (Except.ok.inj hstep)
    rw [← hfst]
    exact move_ofHold .checkedOut
  | expireHolds call now | sweepEnd call =>
    apply HoldEnds.of_quiet
    rw [HotelBookingService.step] at hstep
    split at hstep <;> cases hstep <;> rfl
  | sweep call id =>
    apply HoldEnds.of_quiet
    rw [HotelBookingService.step] at hstep
    split at hstep
    next now n _ =>
      have hfst : (q.sweep call now n id).1 = a := congrArg Prod.fst (Except.ok.inj hstep)
      rw [← hfst]
      exact sweep_ofHold now n
    next =>
      cases hstep
      rfl

/-! ## Runs -/

theorem Consistent.run (h : q.Consistent) (ops : List Op) :
    ∃ answers q', runSteps HotelBookingService.step q ops = .ok (answers, q') ∧ q'.Consistent := by
  induction ops generalizing q with
  | nil => exact ⟨[], q, rfl, h⟩
  | cons op _ ih =>
    obtain ⟨a, q1, hok, h1⟩ := h.step op
    obtain ⟨answers, q2, hrun, h2⟩ := ih h1
    exact ⟨a :: answers, q2, runSteps_cons_ok hok hrun, h2⟩

/-! ## Idempotency keys -/

/-- The key that the call computes. -/
abbrev keyOf (q : HotelBookingService) (call : Nat) : Option String :=
  (q.calls.get? call).bind Call.key

/-- A key that is being computed has no booking, and one call computes it. -/
def KeysOnce (q : HotelBookingService) : Prop :=
  ∀ call key, q.keyOf call = some key → q.byIdempotencyKey.get? key = none ∧
    ∀ call', q.keyOf call' = some key → call' = call

structure KeysKept (q q' : HotelBookingService) : Prop where
  once : q'.KeysOnce
  kept : ∀ key id, q.byIdempotencyKey.get? key = some id → q'.byIdempotencyKey.get? key = some id

theorem keyOf_eq {c : Call} (h : q.calls.get? call = some c) : q.keyOf call = c.key :=
  congrArg (·.bind Call.key) h

/-- A call goes on with its key, or begins one that nobody computes. -/
theorem KeysOnce.goOn {c : Call} (h : q.KeysOnce) (hc : q'.calls = q.calls.set call c)
    (hby : q'.byIdempotencyKey = q.byIdempotencyKey)
    (hkey : ∀ key, c.key = some key → q.byIdempotencyKey.get? key = none ∧
      ∀ call', q.keyOf call' = some key → call' = call) : q.KeysKept q' := by
  constructor <;> grind [KeysOnce, Dict.get?_set]

/-- A call ends, its key may get its booking. -/
theorem KeysOnce.ended (h : q.KeysOnce) (hc : q'.calls = q.calls.erase call)
    (hby : q'.byIdempotencyKey = q.byIdempotencyKey ∨ ∃ key id, q.keyOf call = some key ∧
      q'.byIdempotencyKey = q.byIdempotencyKey.set key id) : q.KeysKept q' := by
  constructor <;> grind [KeysOnce, Dict.get?_erase, Dict.get?_set]

theorem KeysOnce.step (h : q.KeysOnce) (op : Op) : ∃ r, q.step op = .ok r ∧ q.KeysKept r.2 := by
  cases op with
  | hold =>
    refine ⟨_, rfl, ?_⟩
    unfold hold
    repeat' split
    all_goals try exact ⟨h, fun _ _ => id⟩
    next hnone hbusy =>
    refine h.goOn rfl rfl ?_
    rintro _ ⟨⟩
    refine ⟨hnone, fun call' hk => absurd ?_ hbusy⟩
    obtain ⟨c, hc, hk⟩ := Option.bind_eq_some_iff.mp hk
    exact any_eq_true.mpr
      ⟨c, mem_map.mpr ⟨_, Dict.mem_items.mpr hc, rfl⟩, decide_eq_true hk⟩
  | _ =>
    refine ⟨_, rfl, ?_⟩
    try simp only [confirm, cancel, checkIn, checkOut, move, sweep, advance, reserve]
    repeat' split
    -- a call that has a key keeps it, and the others have none
    all_goals first
      | exact ⟨h, fun _ _ => id⟩
      | exact h.goOn rfl rfl fun _ hk => h _ _ ((keyOf_eq ‹_›).trans (by exact hk))
      | exact h.goOn rfl rfl nofun
      | exact h.ended rfl (Or.inl rfl)
      | exact h.ended rfl (Or.inr ⟨_, _, keyOf_eq ‹_›, rfl⟩)

theorem KeysOnce.run (h : q.KeysOnce) (ops : List Op) : ∃ answers q',
    runSteps HotelBookingService.step q ops = .ok (answers, q') ∧ q.KeysKept q' := by
  induction ops generalizing q with
  | nil => exact ⟨[], q, rfl, ⟨h, fun _ _ => id⟩⟩
  | cons op _ ih =>
    obtain ⟨_, hok, h1⟩ := h.step op
    obtain ⟨_, _, hrun, h2⟩ := ih h1.once
    exact ⟨_, _, runSteps_cons_ok hok hrun, h2.once, fun _ _ h => h2.kept _ _ (h1.kept _ _ h)⟩

/-- From a service without calls and keys: one call at a time computes a key, none if it has a
    booking; it keeps that booking, and no `hold` makes another. -/
theorem run_keysOnce (q : HotelBookingService) (ops ops' : List Op) : ∃ answers q' answers' q'',
    runSteps step { q with byIdempotencyKey := .empty, calls := .empty } ops = .ok (answers, q') ∧
      runSteps step q' ops' = .ok (answers', q'') ∧ q'.KeysOnce ∧
      ∀ key id, q'.byIdempotencyKey.get? key = some id →
        q''.byIdempotencyKey.get? key = some id ∧ ∀ call req today,
          (q''.hold call key req today).2 = q'' ∧
          ∀ id', (q''.hold call key req today).1 = .held id' → id' = id := by
  have h : KeysOnce { q with byIdempotencyKey := .empty, calls := .empty } := nofun
  obtain ⟨_, q', hrun, h'⟩ := h.run ops
  obtain ⟨_, q'', hrun', h''⟩ := h'.once.run ops'
  refine ⟨_, q', _, q'', hrun, hrun', h'.once, fun key id hid => ?_⟩
  refine ⟨h''.kept key id hid, fun _ _ _ => ?_⟩
  rw [hold, h''.kept key id hid]
  grind [holdReturns]

end HotelBookingService

end InterviewPrep.Hotel
