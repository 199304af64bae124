/-
  Whose a reservation is: a room is occupied for a live booking, or for a call that has reserved
  it and not come to its booking yet, or has not released it yet (`Occupies`).  The calendars have
  exactly that (`Consistent`).  What a call does with its own rooms is seen against what the
  others have (`OthersOccupy`).

  Every step of the service keeps this (`Consistent.step`): a booking that changes its status
  keeps its rooms, or leaves them to the one call that made it expire or cancelled it.
-/
import InterviewPrep.Hotel.Service

namespace InterviewPrep.Hotel

open Lib Dict List

def BookingStatus.live : BookingStatus → Bool
  | .held | .confirmed | .checkedIn | .checkedOut => true
  | .cancelled | .expired => false

theorem BookingStatus.live_of_canMoveTo {s next : BookingStatus} (h : s.canMoveTo next) :
    s.live := by
  cases s <;> first | rfl | cases h

/-- The rooms that a call has reserved, for which booking. -/
def Call.holding : Call → Option (Nat × DateRange × List String)
  | .reserving _ req id _ taken => some (id, req.stay, taken)
  | .unreserving _ req id _ left => some (id, req.stay, left)
  | .releasing id stay left _ => some (id, stay, left)
  | .sweepReleasing _ _ id stay left => some (id, stay, left)
  | .publishing .. | .sweeping .. => none

def Call.Holds (c : Call) (id : Nat) (stay : DateRange) (room : String) : Prop :=
  ∃ rooms, c.holding = some (id, stay, rooms) ∧ room ∈ rooms

theorem Call.holds_iff {c : Call} {id id' : Nat} {stay stay' : DateRange} {rooms : List String}
    {room : String} (h : c.holding = some (id, stay, rooms)) :
    c.Holds id' stay' room ↔ id' = id ∧ stay' = stay ∧ room ∈ rooms := by
  rw [Call.Holds, h]
  constructor
  · rintro ⟨rooms, heq, hroom⟩
    cases heq
    exact ⟨rfl, rfl, hroom⟩
  · rintro ⟨rfl, rfl, hroom⟩
    exact ⟨rooms, rfl, hroom⟩

namespace HotelBookingService

/-- What a call knows of where it is. -/
def Extra (q : HotelBookingService) : Call → Prop
  | .reserving _ req id left taken =>
    q.bookings.get? id = none ∧ (taken ++ left).Nodup ∧
      (∀ room ∈ taken ++ left, room ∈ q.calendarsByType req.type) ∧
      (taken.length : Int) ≤ req.roomCount
  | .publishing _ req id => ∃ b, q.bookings.get? id = some b ∧ b.sameRequest req
  | _ => True

/-- A call, by itself. -/
structure CallOk (q : HotelBookingService) (c : Call) : Prop where
  holding : ∀ id stay rooms, c.holding = some (id, stay, rooms) → id ≤ q.ids ∧ rooms.Nodup ∧
    (∀ room ∈ rooms, q.calendarsById.get? room ≠ none) ∧
    ∀ b, q.bookings.get? id = some b → b.status.live = false
  extra : q.Extra c

/-- The rooms of a booking that is live. -/
def BookingOccupies (q : HotelBookingService) (id : Nat) (stay : DateRange)
    (room : String) : Prop :=
  ∃ b, q.bookings.get? id = some b ∧ b.status.live ∧ b.stay = stay ∧ room ∈ b.roomIds

def OthersOccupy (q : HotelBookingService) (call : Nat) (id : Nat) (stay : DateRange)
    (room : String) : Prop :=
  q.BookingOccupies id stay room ∨
    ∃ call' c, call' ≠ call ∧ q.calls.get? call' = some c ∧ c.Holds id stay room

def Occupies (q : HotelBookingService) (id : Nat) (stay : DateRange) (room : String) : Prop :=
  q.BookingOccupies id stay room ∨ ∃ call c, q.calls.get? call = some c ∧ c.Holds id stay room

structure Consistent (q : HotelBookingService) : Prop where
  apart : ∀ room cal, q.calendarsById.get? room = some cal → cal.room.id = room ∧ cal.Apart
  entries : ∀ room cal, q.calendarsById.get? room = some cal →
    ∀ x, cal.Has x ↔ q.Occupies x.bookingId x.range room
  byType : ∀ type, (q.calendarsByType type).Nodup ∧ ∀ room ∈ q.calendarsByType type,
    ∃ cal, q.calendarsById.get? room = some cal ∧ cal.room.type = type
  bookings : ∀ id b, q.bookings.get? id = some b →
    id ≤ q.ids ∧ b.roomIds.Nodup ∧ ∀ room ∈ b.roomIds, room ∈ q.calendarsByType b.roomType
  calls : ∀ call c, q.calls.get? call = some c → q.CallOk c
  distinct : ∀ call call' c c' id stay stay' rooms rooms', q.calls.get? call = some c →
    q.calls.get? call' = some c' → c.holding = some (id, stay, rooms) →
    c'.holding = some (id, stay', rooms') → call = call'
  keys : ∀ key id, q.byIdempotencyKey.get? key = some id → q.bookings.get? id ≠ none

variable {q : HotelBookingService} {call id : Nat} {c c' : Call} {stay : DateRange} {room : String}
  {rooms : List String}

/-! ## One call and the others -/

theorem occupies_iff (hc : q.calls.get? call = some c) :
    q.Occupies id stay room ↔ q.OthersOccupy call id stay room ∨ c.Holds id stay room := by
  constructor
  · rintro (hbooking | ⟨call', c', hc', hholds⟩)
    · exact Or.inl (Or.inl hbooking)
    · by_cases heq : call' = call
      · rw [heq, hc] at hc'
        rw [Option.some.inj hc']
        exact Or.inr hholds
      · exact Or.inl (Or.inr ⟨call', c', heq, hc', hholds⟩)
  · rintro ((hbooking | ⟨call', c', _, hc', hholds⟩) | hholds)
    · exact Or.inl hbooking
    · exact Or.inr ⟨call', c', hc', hholds⟩
    · exact Or.inr ⟨call, c, hc, hholds⟩

theorem occupies_iff_of_idle (hc : q.calls.get? call = none) :
    q.Occupies id stay room ↔ q.OthersOccupy call id stay room := by
  constructor
  · rintro (hbooking | ⟨call', c', hc', hholds⟩)
    · exact Or.inl hbooking
    · refine Or.inr ⟨call', c', ?_, hc', hholds⟩
      exact ne_of_eq_none hc' hc
  · rintro (hbooking | ⟨call', c', _, hc', hholds⟩)
    · exact Or.inl hbooking
    · exact Or.inr ⟨call', c', hc', hholds⟩

theorem othersOccupy_set (cals : Dict String RoomCalendar) (c' : Call) :
    OthersOccupy { q with calendarsById := cals, calls := q.calls.set call c' } call id stay room ↔
      q.OthersOccupy call id stay room := by
  apply or_congr_right
  constructor
  · rintro ⟨call', c1, hne, hc1, hholds⟩
    exact ⟨call', c1, hne, by rwa [get?_set_of_ne _ _ hne] at hc1, hholds⟩
  · rintro ⟨call', c1, hne, hc1, hholds⟩
    exact ⟨call', c1, hne, by rwa [get?_set_of_ne _ _ hne], hholds⟩

theorem occupies_set (cals : Dict String RoomCalendar) (c' : Call) :
    Occupies { q with calendarsById := cals, calls := q.calls.set call c' } id stay room ↔
      q.OthersOccupy call id stay room ∨ c'.Holds id stay room := by
  have hc : (q.calls.set call c').get? call = some c' := get?_set_self _ _ _
  rw [occupies_iff (q := { q with calendarsById := cals, calls := q.calls.set call c' }) hc,
    othersOccupy_set]

theorem occupies_erase : Occupies { q with calls := q.calls.erase call } id stay room ↔
      q.OthersOccupy call id stay room := by
  have hc : (q.calls.erase call).get? call = none := get?_erase_self _ _
  rw [occupies_iff_of_idle (q := { q with calls := q.calls.erase call }) hc]
  apply or_congr_right
  constructor
  · rintro ⟨call', c1, hne, hc1, hholds⟩
    exact ⟨call', c1, hne, (get?_erase_some hc1).2, hholds⟩
  · rintro ⟨call', c1, hne, hc1, hholds⟩
    exact ⟨call', c1, hne, by rwa [get?_erase_of_ne _ hne], hholds⟩

theorem Consistent.others_none (h : q.Consistent) (hc : q.calls.get? call = some c)
    (hholding : c.holding = some (id, stay, rooms)) (stay' : DateRange) (room : String) :
    ¬ q.OthersOccupy call id stay' room := by
  rintro (⟨b, hb, hlive, -⟩ | ⟨call', c', hne, hc', rooms', hholding', -⟩)
  · have hdead := ((h.calls call c hc).holding id stay rooms hholding).2.2.2 b hb
    rw [hlive] at hdead
    cases hdead
  · exact hne (h.distinct call' call c' c id stay' stay rooms' rooms hc' hc hholding' hholding)

theorem Consistent.distinct_set (h : q.Consistent) (hc : q.calls.get? call = some c)
    (hsame : ∀ id stay rooms, c'.holding = some (id, stay, rooms) →
      ∃ stay' rooms', c.holding = some (id, stay', rooms')) :
    ∀ call1 call2 c1 c2 id stay stay' rooms rooms', (q.calls.set call c').get? call1 = some c1 →
      (q.calls.set call c').get? call2 = some c2 → c1.holding = some (id, stay, rooms) →
      c2.holding = some (id, stay', rooms') → call1 = call2 := by
  have hold : ∀ call1 c1 id stay rooms, (q.calls.set call c').get? call1 = some c1 →
      c1.holding = some (id, stay, rooms) →
      ∃ c0 stay' rooms', q.calls.get? call1 = some c0 ∧ c0.holding = some (id, stay', rooms') := by
    intro call1 c1 id stay rooms hc1 hholding
    rcases get?_set_some hc1 with ⟨rfl, rfl⟩ | ⟨-, hc1⟩
    · obtain ⟨stay', rooms', heq⟩ := hsame id stay rooms hholding
      exact ⟨c, stay', rooms', hc, heq⟩
    · exact ⟨c1, stay, rooms, hc1, hholding⟩
  intro call1 call2 c1 c2 id stay stay' rooms rooms' hc1 hc2 h1 h2
  obtain ⟨d1, s1, r1, hd1, hh1⟩ := hold call1 c1 id stay rooms hc1 h1
  obtain ⟨d2, s2, r2, hd2, hh2⟩ := hold call2 c2 id stay' rooms' hc2 h2
  exact h.distinct call1 call2 d1 d2 id s1 s2 r1 r2 hd1 hd2 hh1 hh2

/-! ## A call goes on -/

theorem Consistent.goOn (h : q.Consistent) (hc : q.calls.get? call = some c)
    {cals : Dict String RoomCalendar} (hok : q.CallOk c')
    (hsame : ∀ id stay rooms, c'.holding = some (id, stay, rooms) →
      ∃ stay' rooms', c.holding = some (id, stay', rooms'))
    (hkept : ∀ room cal, q.calendarsById.get? room = some cal →
      ∃ cal', cals.get? room = some cal' ∧ cal'.room = cal.room)
    (hcals : ∀ room cal', cals.get? room = some cal' →
      ∃ cal, q.calendarsById.get? room = some cal ∧ cal'.room = cal.room ∧ cal'.Apart ∧
        ∀ x, cal'.Has x ↔
          q.OthersOccupy call x.bookingId x.range room ∨ c'.Holds x.bookingId x.range room) :
    Consistent { q with calendarsById := cals, calls := q.calls.set call c' } := by
  have hnone : ∀ room, q.calendarsById.get? room ≠ none → cals.get? room ≠ none := by
    intro room hroom
    obtain ⟨cal, hcal⟩ := Option.ne_none_iff_exists'.mp hroom
    obtain ⟨cal', hcal', -⟩ := hkept room cal hcal
    rw [hcal']
    exact Option.some_ne_none _
  have hframe : ∀ c1, q.CallOk c1 →
      CallOk { q with calendarsById := cals, calls := q.calls.set call c' } c1 := by
    intro c1 hc1
    refine ⟨fun id stay rooms hholding => ?_, ?_⟩
    · obtain ⟨hle, hnodup, hknown, hdead⟩ := hc1.holding id stay rooms hholding
      exact ⟨hle, hnodup, fun room hroom => hnone room (hknown room hroom), hdead⟩
    · have hextra := hc1.extra
      cases c1 <;> exact hextra
  constructor
  · intro room cal' hcal'
    obtain ⟨cal, hcal, hroom, hapart, -⟩ := hcals room cal' hcal'
    rw [hroom]
    exact ⟨(h.apart room cal hcal).1, hapart⟩
  · intro room cal' hcal' x
    obtain ⟨-, -, -, -, hhas⟩ := hcals room cal' hcal'
    rw [hhas, occupies_set]
  · intro type
    refine ⟨(h.byType type).1, fun room hroom => ?_⟩
    obtain ⟨cal, hcal, htype⟩ := (h.byType type).2 room hroom
    obtain ⟨cal', hcal', heq⟩ := hkept room cal hcal
    exact ⟨cal', hcal', by rw [heq, htype]⟩
  · exact h.bookings
  · intro call1 c1 hc1
    rcases get?_set_some hc1 with ⟨rfl, rfl⟩ | ⟨-, hc1⟩
    · exact hframe c1 hok
    · exact hframe c1 (h.calls call1 c1 hc1)
  · exact h.distinct_set hc hsame
  · exact h.keys

theorem Consistent.setCall (h : q.Consistent) (hc : q.calls.get? call = some c) (hok : q.CallOk c')
    (hsame : ∀ id stay rooms, c'.holding = some (id, stay, rooms) →
      ∃ stay' rooms', c.holding = some (id, stay', rooms'))
    (hholds : ∀ id stay room, c'.Holds id stay room ↔ c.Holds id stay room) :
    Consistent { q with calls := q.calls.set call c' } := by
  refine h.goOn hc hok hsame ?_ ?_
  · exact fun room cal hcal => ⟨cal, hcal, rfl⟩
  · intro room cal hcal
    refine ⟨cal, hcal, rfl, (h.apart room cal hcal).2, fun x => ?_⟩
    rw [h.entries room cal hcal, occupies_iff hc, hholds]

theorem Consistent.eraseCall (h : q.Consistent) (hc : q.calls.get? call = some c)
    (hholds : ∀ id stay room, ¬ c.Holds id stay room) :
    Consistent { q with calls := q.calls.erase call } := by
  refine ⟨h.apart, ?_, h.byType, h.bookings, ?_, ?_, h.keys⟩
  · intro room cal hcal x
    rw [h.entries room cal hcal, occupies_iff hc, occupies_erase]
    exact or_iff_left (hholds _ _ _)
  · intro call1 c1 hc1
    have hok := h.calls call1 c1 (get?_erase_some hc1).2
    exact ⟨hok.holding, by cases c1 <;> exact hok.extra⟩
  · intro call1 call2 c1 c2 id stay stay' rooms rooms' h1 h2
    exact h.distinct call1 call2 c1 c2 id stay stay' rooms rooms' (get?_erase_some h1).2
      (get?_erase_some h2).2

theorem Consistent.release (h : q.Consistent) {rest : List String}
    (hc : q.calls.get? call = some c) (hholding : c.holding = some (id, stay, room :: rest))
    (hholding' : c'.holding = some (id, stay, rest)) (hextra : q.Extra c') : Consistent { q with
      calendarsById := q.releaseRoom room id stay, calls := q.calls.set call c' } := by
  obtain ⟨hle, hnodup, hknown, hdead⟩ := (h.calls call c hc).holding id stay _ hholding
  obtain ⟨hroom, hrest⟩ := nodup_cons.mp hnodup
  obtain ⟨cal, hcal⟩ := Option.ne_none_iff_exists'.mp (hknown room mem_cons_self)
  have hrelease : q.releaseRoom room id stay = q.calendarsById.set room (cal.release id stay) := by
    rw [releaseRoom, hcal]
  have hhas : cal.Has ⟨id, stay⟩ :=
    (h.entries room cal hcal ⟨id, stay⟩).mpr
      (Or.inr ⟨call, c, hc, room :: rest, hholding, mem_cons_self⟩)
  obtain ⟨hapart, hsameRoom, hhas'⟩ := (h.apart room cal hcal).2.release hhas
  rw [hrelease]
  apply h.goOn hc
  · constructor
    · intro id' stay' rooms' heq
      rw [hholding'] at heq
      cases heq
      exact ⟨hle, hrest, fun r hr => hknown r (mem_cons_of_mem _ hr), hdead⟩
    · exact hextra
  · intro id' stay' rooms' heq
    rw [hholding'] at heq
    cases heq
    exact ⟨stay, room :: rest, hholding⟩
  · intro room1 cal1 hcal1
    by_cases heq : room1 = room
    · subst heq
      rw [hcal] at hcal1
      rw [← Option.some.inj hcal1]
      exact ⟨_, get?_set_self _ _ _, hsameRoom⟩
    · exact ⟨cal1, by rw [get?_set_of_ne _ _ heq, hcal1], rfl⟩
  intro room1 cal1 hcal1
  rcases get?_set_some hcal1 with ⟨rfl, rfl⟩ | ⟨hne, hold⟩
  · refine ⟨cal, hcal, hsameRoom, hapart, fun x => ?_⟩
    rw [hhas', h.entries room1 cal hcal, occupies_iff hc, Call.holds_iff hholding,
      Call.holds_iff hholding']
    constructor
    · rintro ⟨hothers | ⟨hid, hstay, -⟩, hne⟩
      · exact Or.inl hothers
      · exact absurd (by rw [← hid, ← hstay]) hne
    · rintro (hothers | ⟨-, -, hmem⟩)
      · refine ⟨Or.inl hothers, ?_⟩
        rintro rfl
        exact h.others_none hc hholding _ _ hothers
      · exact absurd hmem hroom
  · refine ⟨cal1, hold, rfl, (h.apart room1 cal1 hold).2, fun x => ?_⟩
    rw [h.entries room1 cal1 hold, occupies_iff hc, Call.holds_iff hholding,
      Call.holds_iff hholding', mem_cons]
    simp only [hne, false_or]

theorem Consistent.reserved (h : q.Consistent) {cal cal' : RoomCalendar}
    (hc : q.calls.get? call = some c) (hholding : c.holding = some (id, stay, rooms))
    (hholding' : c'.holding = some (id, stay, rooms ++ [room])) (hnot : room ∉ rooms)
    (hcal : q.calendarsById.get? room = some cal) (hreserve : cal.tryReserve id stay = some cal')
    (hextra : q.Extra c') : Consistent { q with
      calendarsById := q.calendarsById.set room cal', calls := q.calls.set call c' } := by
  obtain ⟨hle, hnodup, hknown, hdead⟩ := (h.calls call c hc).holding id stay _ hholding
  obtain ⟨hapart, hsameRoom, hhas'⟩ := (h.apart room cal hcal).2.tryReserve hreserve
  apply h.goOn hc
  · constructor
    · intro id' stay' rooms' heq
      rw [hholding'] at heq
      cases heq
      refine ⟨hle, List.nodup_append.mpr ⟨hnodup, List.nodup_singleton _, ?_⟩, ?_, hdead⟩
      · intro a ha b hb hab
        rw [List.mem_singleton.mp hb] at hab
        exact hnot (hab ▸ ha)
      · intro r hr
        rcases List.mem_append.mp hr with hr | hr
        · exact hknown r hr
        · rw [List.mem_singleton.mp hr, hcal]
          exact Option.some_ne_none _
    · exact hextra
  · intro id' stay' rooms' heq
    rw [hholding'] at heq
    cases heq
    exact ⟨stay, rooms, hholding⟩
  · intro room1 cal1 hcal1
    by_cases heq : room1 = room
    · subst heq
      rw [hcal] at hcal1
      rw [← Option.some.inj hcal1]
      exact ⟨_, Dict.get?_set_self _ _ _, hsameRoom⟩
    · exact ⟨cal1, by rw [Dict.get?_set_of_ne _ _ heq, hcal1], rfl⟩
  have hholds : ∀ id' stay' r, c'.Holds id' stay' r ↔
      c.Holds id' stay' r ∨ id' = id ∧ stay' = stay ∧ r = room := by
    intro id' stay' r
    rw [Call.Holds, Call.Holds, hholding', hholding]
    constructor
    · rintro ⟨rooms', heq, hr⟩
      cases heq
      rcases List.mem_append.mp hr with hr | hr
      · exact Or.inl ⟨rooms, rfl, hr⟩
      · exact Or.inr ⟨rfl, rfl, List.mem_singleton.mp hr⟩
    · rintro (⟨rooms', heq, hr⟩ | ⟨rfl, rfl, rfl⟩)
      · cases heq
        exact ⟨_, rfl, List.mem_append_left _ hr⟩
      · exact ⟨_, rfl, List.mem_append_right _ (List.mem_singleton_self _)⟩
  intro room1 cal1 hcal1
  rcases Dict.get?_set_some hcal1 with ⟨rfl, rfl⟩ | ⟨hne, hold⟩
  · refine ⟨cal, hcal, hsameRoom, hapart, fun x => ?_⟩
    rw [hhas', h.entries room1 cal hcal, occupies_iff hc, hholds, or_assoc]
    apply or_congr_right
    apply or_congr_right
    constructor
    · rintro rfl
      exact ⟨rfl, rfl, rfl⟩
    · rintro ⟨hid, hstay, -⟩
      rw [← hid, ← hstay]
  · refine ⟨cal1, hold, rfl, (h.apart room1 cal1 hold).2, fun x => ?_⟩
    rw [h.entries room1 cal1 hold, occupies_iff hc, hholds]
    simp only [hne, and_false, or_false]

variable {q q' : HotelBookingService} {call id : Nat} {c c' : Call} {b : Booking}
  {s : BookingStatus} {stay : DateRange} {room : String}

/-! ## A booking changes its status -/

theorem Extra.status (h : q.Extra c) (hb : q.bookings.get? id = some b) (s : BookingStatus)
    (cals : Dict String RoomCalendar) (calls : Dict Nat Call) : Extra { q with
      bookings := q.bookings.set id { b with status := s }, calendarsById := cals,
      calls := calls } c := by
  cases c with
  | reserving _ _ id' =>
    obtain ⟨hnone, hrest⟩ := h
    have hne : id' ≠ id := (ne_of_eq_none hb hnone).symm
    exact ⟨(get?_set_of_ne _ _ hne).trans hnone, hrest⟩
  | publishing _ _ id' =>
    obtain ⟨b', hb', hreq⟩ := h
    by_cases heq : id' = id
    · subst heq
      rw [hb] at hb'
      rw [← Option.some.inj hb'] at hreq
      exact ⟨_, get?_set_self _ _ _, hreq⟩
    · exact ⟨b', (get?_set_of_ne _ _ heq).trans hb', hreq⟩
  | unreserving | releasing | sweeping | sweepReleasing => trivial

theorem Consistent.bookings_status (h : q.Consistent) (hb : q.bookings.get? id = some b)
    (s : BookingStatus) : ∀ id' b', (q.bookings.set id { b with status := s }).get? id' = some b' →
      id' ≤ q.ids ∧ b'.roomIds.Nodup ∧ ∀ room ∈ b'.roomIds,
      room ∈ q.calendarsByType b'.roomType := by
  intro id' b' hb'
  rcases get?_set_some hb' with ⟨rfl, rfl⟩ | ⟨-, hold⟩
  · exact h.bookings id' b hb
  · exact h.bookings id' b' hold

theorem get?_set_ne_none {bookings : Dict Nat Booking} {id' : Nat} (h : bookings.get? id' ≠ none)
    (b : Booking) : (bookings.set id b).get? id' ≠ none := by
  by_cases heq : id' = id
  · rw [heq, get?_set_self]
    exact Option.some_ne_none _
  · rw [get?_set_of_ne _ _ heq]
    exact h

theorem Consistent.statusLive (h : q.Consistent) (hb : q.bookings.get? id = some b)
    (hlive : b.status.live) (hs : s.live) :
    Consistent { q with bookings := q.bookings.set id { b with status := s } } := by
  have hoccupies : ∀ id' stay room,
      Occupies { q with bookings := q.bookings.set id { b with status := s } } id' stay room ↔
        q.Occupies id' stay room := by
    intro id' stay room
    apply or_congr_left
    constructor
    · rintro ⟨b', hb', hlive', hrest⟩
      rcases get?_set_some hb' with ⟨rfl, rfl⟩ | ⟨-, hold⟩
      · exact ⟨b, hb, hlive, hrest⟩
      · exact ⟨b', hold, hlive', hrest⟩
    rintro ⟨b', hb', hlive', hrest⟩
    by_cases heq : id' = id
    · subst heq
      rw [hb] at hb'
      rw [← Option.some.inj hb'] at hrest
      exact ⟨_, get?_set_self _ _ _, hs, hrest⟩
    · exact ⟨b', (get?_set_of_ne _ _ heq).trans hb', hlive', hrest⟩
  refine ⟨h.apart, ?_, h.byType, h.bookings_status hb s, ?_, h.distinct, ?_⟩
  · intro room cal hcal x
    rw [hoccupies]
    exact h.entries room cal hcal x
  · intro call c hc
    have hok := h.calls call c hc
    refine ⟨fun id' stay rooms hholding => ?_, hok.extra.status hb s _ _⟩
    obtain ⟨hle, hnodup, hknown, hdead⟩ := hok.holding id' stay rooms hholding
    refine ⟨hle, hnodup, hknown, fun b' hb' => ?_⟩
    rcases get?_set_some hb' with ⟨rfl, rfl⟩ | ⟨-, hold⟩
    · have := hdead b hb
      rw [hlive] at this
      cases this
    · exact hdead b' hold
  · exact fun key id' hkey => get?_set_ne_none (h.keys key id' hkey) _

theorem Consistent.statusDead (h : q.Consistent) (hb : q.bookings.get? id = some b)
    (hlive : b.status.live) (hs : s.live = false)
    (hidle : ∀ c, q.calls.get? call = some c → c.holding = none)
    (hholding : c'.holding = some (id, b.stay, b.roomIds)) (hextra : q.Extra c') :
    Consistent { q with
      bookings := q.bookings.set id { b with status := s }, calls := q.calls.set call c' } := by
  have hoccupies : ∀ id' stay room, Occupies { q with
      bookings := q.bookings.set id { b with status := s }, calls := q.calls.set call c' }
        id' stay room ↔ q.Occupies id' stay room := by
    intro id' stay room
    constructor
    · rintro (⟨b', hb', hlive', hrest⟩ | ⟨call', c1, hc1, hc₁holds⟩)
      · rcases get?_set_some hb' with ⟨rfl, rfl⟩ | ⟨-, hold⟩
        · rw [show ({ b with status := s } : Booking).status = s from rfl, hs] at hlive'
          cases hlive'
        · exact Or.inl ⟨b', hold, hlive', hrest⟩
      · rcases get?_set_some hc1 with ⟨rfl, rfl⟩ | ⟨-, hold⟩
        · obtain ⟨rfl, rfl, hroom⟩ := (Call.holds_iff hholding).mp hc₁holds
          exact Or.inl ⟨b, hb, hlive, rfl, hroom⟩
        · exact Or.inr ⟨call', c1, hold, hc₁holds⟩
    rintro (⟨b', hb', hlive', hstay, hroom⟩ | ⟨call', c1, hc1, hc₁holds⟩)
    · by_cases heq : id' = id
      · subst heq
        rw [hb] at hb'
        obtain rfl := Option.some.inj hb'
        exact Or.inr ⟨call, c', get?_set_self _ _ _,
          (Call.holds_iff hholding).mpr ⟨rfl, hstay.symm, hroom⟩⟩
      · exact Or.inl ⟨b', (get?_set_of_ne _ _ heq).trans hb', hlive', hstay, hroom⟩
    · have hne : call' ≠ call := by
        rintro rfl
        obtain ⟨rooms, hsome, -⟩ := hc₁holds
        rw [hidle c1 hc1] at hsome
        cases hsome
      exact Or.inr ⟨call', c1, (get?_set_of_ne _ _ hne).trans hc1, hc₁holds⟩
  obtain ⟨hle, hnodup, hrooms⟩ := h.bookings id b hb
  refine ⟨h.apart, ?_, h.byType, h.bookings_status hb s, ?_, ?_, ?_⟩
  · intro room cal hcal x
    rw [hoccupies]
    exact h.entries room cal hcal x
  · intro call1 c1 hc1
    rcases get?_set_some hc1 with ⟨rfl, rfl⟩ | ⟨-, hold⟩
    · refine ⟨fun id' stay rooms heq => ?_, hextra.status hb s _ _⟩
      rw [hholding] at heq
      cases heq
      refine ⟨hle, hnodup, fun room hroom hnone => ?_, fun b' hb' => ?_⟩
      · obtain ⟨cal, hcal, -⟩ := (h.byType b.roomType).2 room (hrooms room hroom)
        rw [show q.calendarsById.get? room = none from hnone] at hcal
        cases hcal
      · rw [← Option.some.inj ((get?_set_self q.bookings id { b with status := s }).symm.trans hb')]
        exact hs
    have hok := h.calls call1 c1 hold
    refine ⟨fun id' stay rooms heq => ?_, hok.extra.status hb s _ _⟩
    obtain ⟨hle', hnodup', hknown', hdead'⟩ := hok.holding id' stay rooms heq
    refine ⟨hle', hnodup', hknown', fun b' hb' => ?_⟩
    rcases get?_set_some hb' with ⟨rfl, rfl⟩ | ⟨-, hb'⟩
    · exact hs
    · exact hdead' b' hb'
  · -- no other call has rooms of a booking that was live
    have hother : ∀ call1 c1 stay rooms, q.calls.get? call1 = some c1 →
        c1.holding ≠ some (id, stay, rooms) := by
      intro call1 c1 stay rooms hc1 heq
      have hdead := ((h.calls call1 c1 hc1).holding id stay rooms heq).2.2.2 b hb
      rw [hlive] at hdead
      cases hdead
    intro call1 call2 c1 c2 id' stay stay' rooms rooms' hc1 hc2 h1 h2
    rcases get?_set_some hc1 with ⟨rfl, rfl⟩ | ⟨-, hold1⟩
    · rcases get?_set_some hc2 with ⟨rfl, rfl⟩ | ⟨-, hold2⟩
      · rfl
      · rw [hholding] at h1
        cases h1
        exact absurd h2 (hother call2 c2 stay' rooms' hold2)
    · rcases get?_set_some hc2 with ⟨rfl, rfl⟩ | ⟨-, hold2⟩
      · rw [hholding] at h2
        cases h2
        exact absurd h1 (hother call1 c1 stay rooms hold1)
      · exact h.distinct call1 call2 c1 c2 id' stay stay' rooms rooms' hold1 hold2 h1 h2
  · exact fun key id' hkey => get?_set_ne_none (h.keys key id' hkey) _

/-! ## Calls start, and bookings -/

theorem Consistent.start (h : q.Consistent) (hidle : q.calls.get? call = none) (ids : Nat)
    (hids : q.ids ≤ ids) (hok : CallOk { q with ids := ids } c')
    (hholds : ∀ id stay room, ¬ c'.Holds id stay room)
    (hfresh : ∀ id stay rooms, c'.holding = some (id, stay, rooms) → q.ids < id) :
    Consistent { q with ids := ids, calls := q.calls.set call c' } := by
  have hframe : ∀ c1, CallOk { q with ids := ids } c1 →
      CallOk { q with ids := ids, calls := q.calls.set call c' } c1 := fun c1 hok1 =>
    ⟨hok1.holding, by
      have hextra := hok1.extra
      cases c1 <;> exact hextra⟩
  refine ⟨h.apart, ?_, h.byType, ?_, ?_, ?_, h.keys⟩
  · intro room cal hcal x
    rw [h.entries room cal hcal, occupies_iff_of_idle hidle]
    refine Iff.symm ((occupies_set (q := { q with ids := ids }) q.calendarsById c').trans ?_)
    exact or_iff_left (hholds _ _ _)
  · exact fun id b hb => ⟨(h.bookings id b hb).1.trans hids, (h.bookings id b hb).2⟩
  · intro call1 c1 hc1
    rcases get?_set_some hc1 with ⟨rfl, rfl⟩ | ⟨-, hold⟩
    · exact hframe c1 hok
    · have hok1 := h.calls call1 c1 hold
      refine hframe c1 ⟨fun id stay rooms heq => ?_, ?_⟩
      · obtain ⟨hle, hrest⟩ := hok1.holding id stay rooms heq
        exact ⟨hle.trans hids, hrest⟩
      · have hextra := hok1.extra
        cases c1 <;> exact hextra
  have hold : ∀ call1 c1 id stay rooms, q.calls.get? call1 = some c1 →
      c1.holding = some (id, stay, rooms) → id ≤ q.ids := fun call1 c1 id stay rooms hc1 heq =>
    ((h.calls call1 c1 hc1).holding id stay rooms heq).1
  intro call1 call2 c1 c2 id stay stay' rooms rooms' hc1 hc2 h1 h2
  rcases get?_set_some hc1 with ⟨rfl, rfl⟩ | ⟨-, hold1⟩
  · rcases get?_set_some hc2 with ⟨rfl, rfl⟩ | ⟨-, hold2⟩
    · rfl
    · exact absurd (hold call2 c2 id stay' rooms' hold2 h2) (not_le.mpr (hfresh _ _ _ h1))
  · rcases get?_set_some hc2 with ⟨rfl, rfl⟩ | ⟨-, hold2⟩
    · exact absurd (hold call1 c1 id stay rooms hold1 h1) (not_le.mpr (hfresh _ _ _ h2))
    · exact h.distinct call1 call2 c1 c2 id stay stay' rooms rooms' hold1 hold2 h1 h2

theorem Consistent.booked (h : q.Consistent) {key : String} {req : HoldRequest}
    {left taken : List String} (hc : q.calls.get? call = some (.reserving key req id left taken))
    (hcount : (taken.length : Int) = req.roomCount) (now : Int) : Consistent { q with
      bookings := q.bookings.set id (q.newBooking req id taken now)
      calls := q.calls.set call (.publishing key req id) } := by
  have hok := h.calls call _ hc
  obtain ⟨hle, hnodup, hknown, -⟩ := hok.holding id req.stay taken rfl
  obtain ⟨hnone, -, htype, -⟩ := hok.extra
  have hother : ∀ call' c1 stay rooms, call' ≠ call → q.calls.get? call' = some c1 →
      c1.holding ≠ some (id, stay, rooms) := by
    intro call' c1 stay rooms hne hc1 heq
    exact hne (h.distinct call' call c1 _ id stay req.stay rooms taken hc1 hc heq rfl)
  have hoccupies : ∀ id' stay room, Occupies { q with
      bookings := q.bookings.set id (q.newBooking req id taken now)
      calls := q.calls.set call (.publishing key req id) } id' stay room ↔
        q.Occupies id' stay room := by
    intro id' stay room
    constructor
    · rintro (⟨b', hb', hlive', hstay, hroom⟩ | ⟨call', c1, hc1, hc₁holds⟩)
      · rcases get?_set_some hb' with ⟨rfl, rfl⟩ | ⟨-, hold⟩
        · exact Or.inr ⟨call, _, hc, taken, by rw [← hstay]; rfl, hroom⟩
        · exact Or.inl ⟨b', hold, hlive', hstay, hroom⟩
      · rcases get?_set_some hc1 with ⟨rfl, rfl⟩ | ⟨-, hold⟩
        · obtain ⟨rooms, heq, -⟩ := hc₁holds
          cases heq
        · exact Or.inr ⟨call', c1, hold, hc₁holds⟩
    rintro (⟨b', hb', hlive', hstay, hroom⟩ | ⟨call', c1, hc1, hc₁holds⟩)
    · have hne : id' ≠ id := ne_of_eq_none hb' hnone
      exact Or.inl ⟨b', (get?_set_of_ne _ _ hne).trans hb', hlive', hstay, hroom⟩
    by_cases heq : call' = call
    · subst heq
      rw [hc] at hc1
      obtain rfl := Option.some.inj hc1
      obtain ⟨rooms, hrooms, hroom⟩ := hc₁holds
      cases hrooms
      exact Or.inl ⟨_, get?_set_self _ _ _, rfl, rfl, hroom⟩
    · exact Or.inr ⟨call', c1, (get?_set_of_ne _ _ heq).trans hc1, hc₁holds⟩
  refine ⟨h.apart, ?_, h.byType, ?_, ?_, ?_, ?_⟩
  · intro room cal hcal x
    rw [hoccupies]
    exact h.entries room cal hcal x
  · intro id' b' hb'
    rcases get?_set_some hb' with ⟨rfl, rfl⟩ | ⟨-, hold⟩
    · exact ⟨hle, hnodup, fun room hroom => htype room (mem_append_left _ hroom)⟩
    · exact h.bookings id' b' hold
  · intro call1 c1 hc1
    rcases get?_set_some hc1 with ⟨rfl, rfl⟩ | ⟨hne, hold⟩
    · refine ⟨fun id' stay rooms heq => (by cases heq), _, get?_set_self _ _ _, ?_⟩
      rw [Booking.sameRequest, decide_eq_true_eq]
      exact ⟨rfl, rfl, rfl, hcount⟩
    have hok1 := h.calls call1 c1 hold
    refine ⟨fun id' stay rooms heq => ?_, ?_⟩
    · obtain ⟨hle', hnodup', hknown', hdead'⟩ := hok1.holding id' stay rooms heq
      refine ⟨hle', hnodup', hknown', fun b' hb' => ?_⟩
      rcases get?_set_some hb' with ⟨rfl, rfl⟩ | ⟨-, hb'⟩
      · exact absurd heq (hother call1 c1 stay rooms hne hold)
      · exact hdead' b' hb'
    have hextra := hok1.extra
    cases c1 with
    | reserving _ req' id' _ taken' =>
      have hne' : id' ≠ id := by
        rintro rfl
        exact hother call1 _ req'.stay taken' hne hold rfl
      exact ⟨(get?_set_of_ne _ _ hne').trans hextra.1, hextra.2⟩
    | publishing _ _ id' =>
      obtain ⟨b', hb', hreq⟩ := hextra
      have hne' : id' ≠ id := ne_of_eq_none hb' hnone
      exact ⟨b', (get?_set_of_ne _ _ hne').trans hb', hreq⟩
    | unreserving | releasing | sweeping | sweepReleasing => trivial
  · exact h.distinct_set hc nofun
  · exact fun key' id' hkey => get?_set_ne_none (h.keys key' id' hkey) _

end HotelBookingService

end InterviewPrep.Hotel
