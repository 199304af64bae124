/-
  `TimeSlot` and `IntervalCalendar` of MeetingSchedulerSystem.java.  `conflict` looks at two
  neighbours of the slot, and finds an entry that overlaps it if there is one
  (`Apart.conflict_isSome`).  An `Instant` is its nanoseconds.

  `MeetingScheduler`:  `schedule`, `cancel` and `reschedule`.  A body that runs under the locks of
  its calendars is one step, and so is what `schedule` does before its first body: bodies that run
  at the same time have no calendar in common, and no meeting.  A meeting's id is its number.
-/
import InterviewPrep.Lib.Dict
import InterviewPrep.Lib.IntervalTree
import InterviewPrep.Lib.Run
import Mathlib.Algebra.Order.Group.Int
import Mathlib.Data.String.Basic

namespace InterviewPrep.Meetings

open Lib Option

/-- Half-open [start, stop). -/
structure TimeSlot where
  start : Int
  stop : Int
  proper : start < stop

theorem TimeSlot.eq_iff (s o : TimeSlot) : s.start = o.start ∧ s.stop = o.stop ↔ s = o := by
  cases s
  cases o
  simp only [TimeSlot.mk.injEq]

instance : DecidableEq TimeSlot := fun s o => decidable_of_iff _ (s.eq_iff o)

def TimeSlot.overlaps (s o : TimeSlot) : Bool := s.start < o.stop ∧ o.start < s.stop

theorem TimeSlot.overlaps_iff (s o : TimeSlot) :
    s.overlaps o = true ↔ Overlap s.start s.stop o.start o.stop := by
  rw [overlap_iff_of_lt s.proper o.proper, overlaps, decide_eq_true_eq]

structure CalendarEntry where
  meetingId : Nat
  slot : TimeSlot

abbrev IntervalCalendar := TreeMap Int CalendarEntry

namespace IntervalCalendar

/-- The entry that overlaps the slot, if any: only two neighbours can overlap. -/
def conflict (cal : IntervalCalendar) (s : TimeSlot) : Option CalendarEntry :=
  match (cal.floorEntry s.start).filter fun before => before.2.slot.overlaps s with
  | some before => some before.2
  | none => ((cal.higherEntry s.start).filter fun after => after.1 < s.stop).map Prod.snd

def add (meetingId : Nat) (s : TimeSlot) (cal : IntervalCalendar) : IntervalCalendar :=
  cal.put s.start ⟨meetingId, s⟩

def remove (meetingId : Nat) (s : TimeSlot) (cal : IntervalCalendar) : IntervalCalendar :=
  if (cal.get? s.start).any fun e => e.meetingId = meetingId then TreeMap.remove cal s.start
  else cal

/-- Every entry is where it starts, and none overlaps another. -/
abbrev Apart (cal : IntervalCalendar) : Prop :=
  cal.Disjoint (fun e => e.slot.start) fun e => e.slot.stop

variable {cal : IntervalCalendar} {e : CalendarEntry} {s : TimeSlot} {id : Nat}

abbrev Has (cal : IntervalCalendar) (e : CalendarEntry) : Prop :=
  TreeMap.Has (fun e => e.slot.start) cal e

theorem Apart.pairwise (h : Apart cal) :
    cal.values.Pairwise fun a b => a.slot.overlaps b.slot = false := by
  apply (TreeMap.Disjoint.pairwise h).imp
  intro a b hab
  rw [← Bool.not_eq_true, TimeSlot.overlaps_iff]
  exact hab

theorem Apart.conflict_some (h : Apart cal) (hconflict : cal.conflict s = some e) :
    cal.Has e ∧ e.slot.overlaps s = true := by
  rw [conflict] at hconflict
  split at hconflict
  next hfloor =>
    obtain ⟨hfloor, hoverlap⟩ := filter_eq_some_iff.mp hfloor
    cases hconflict
    exact ⟨TreeMap.Disjoint.has_of_get? h (TreeMap.floorEntry_some hfloor).1, hoverlap⟩
  next =>
  obtain ⟨after, hafter, rfl⟩ := map_eq_some_iff.mp hconflict
  obtain ⟨hhigher, hlt⟩ := filter_eq_some_iff.mp hafter
  obtain ⟨hget, hgt, -⟩ := TreeMap.higherEntry_some hhigher
  refine ⟨TreeMap.Disjoint.has_of_get? h hget, ?_⟩
  have hstart : after.2.slot.start = after.1 := h.keyed after.1 after.2 hget
  have hproper := after.2.slot.proper
  rw [TimeSlot.overlaps, decide_eq_true_eq]
  rw [decide_eq_true_eq] at hlt
  constructor
  · omega
  · omega

theorem Apart.conflict_isSome (h : Apart cal) (s : TimeSlot) :
    (cal.conflict s).isSome ↔ ∃ e, cal.Has e ∧ e.slot.overlaps s = true := by
  constructor
  · intro hsome
    obtain ⟨e, he⟩ := isSome_iff_exists.mp hsome
    exact ⟨e, h.conflict_some he⟩
  rintro ⟨e, hhas, hoverlap⟩
  have hneighbours := (h.overlap_iff_neighbours s.proper).mp
    ⟨e, hhas, (TimeSlot.overlaps_iff _ _).mp hoverlap⟩
  rw [conflict]
  split
  · rfl
  next hfloor =>
  rcases hneighbours with ⟨x, hx, hover⟩ | ⟨x, hx, hlt⟩
  · rw [hx] at hfloor
    have hover := (TimeSlot.overlaps_iff x.2.slot s).mpr hover
    simp [hover] at hfloor
  · rw [hx]
    simp [hlt]

/-! ## Adding and removing -/

theorem Apart.free (h : Apart cal) (hfree : cal.conflict s = none) :
    ∀ e, cal.Has e → ¬ Overlap e.slot.start e.slot.stop s.start s.stop := by
  intro e hhas hoverlap
  have hsome : (cal.conflict s).isSome :=
    (h.conflict_isSome s).mpr ⟨e, hhas, (TimeSlot.overlaps_iff _ _).mpr hoverlap⟩
  rw [hfree] at hsome
  cases hsome

theorem Apart.add (h : Apart cal) (hfree : cal.conflict s = none) : Apart (cal.add id s) :=
  TreeMap.Disjoint.put (v := CalendarEntry.mk id s) h s.proper (h.free hfree)

theorem Apart.has_add (h : Apart cal) (hfree : cal.conflict s = none) :
    Has (cal.add id s) e ↔ cal.Has e ∨ e = ⟨id, s⟩ :=
  TreeMap.Disjoint.has_put (v := CalendarEntry.mk id s) h s.proper (h.free hfree)

theorem remove_eq (hhas : cal.Has ⟨id, s⟩) : cal.remove id s = TreeMap.remove cal s.start := by
  have hget : cal.get? s.start = some ⟨id, s⟩ := hhas
  rw [remove, hget]
  simp

theorem has_remove (hhas : cal.Has ⟨id, s⟩) :
    Has (cal.remove id s) e ↔ cal.Has e ∧ e ≠ ⟨id, s⟩ := by
  rw [remove_eq hhas]
  exact TreeMap.has_remove hhas

theorem Apart.remove (h : Apart cal) : Apart (cal.remove id s) := by
  rw [IntervalCalendar.remove]
  split
  · exact TreeMap.Disjoint.remove h _
  · exact h

theorem add_remove (hhas : cal.Has ⟨id, s⟩) :
    IntervalCalendar.add id s (cal.remove id s) = cal := by
  rw [remove_eq hhas]
  exact TreeMap.put_remove hhas

end IntervalCalendar

/-! ## Types -/

inductive Feature where
  | videoConf | whiteboard | projector
deriving DecidableEq

structure Room where
  id : String
  capacity : Int
  features : List Feature

def Room.fits (r : Room) (headcount : Int) (required : List Feature) : Bool :=
  r.capacity ≥ headcount ∧ ∀ f ∈ required, f ∈ r.features

/-- What the caller asks for; with no `roomId`, "pick a room for me". -/
structure MeetingRequest where
  title : String
  organizerId : String
  attendees : List String
  slot : TimeSlot
  requiredFeatures : List Feature
  roomId : Option String

/-- The organizer always attends. -/
def MeetingRequest.attendeeIds (req : MeetingRequest) : List String :=
  (((req.attendees.foldl (fun s p => s.put p ()) TreeMap.empty).put req.organizerId ()) :
    TreeMap String Unit).keys

inductive MeetingStatus where
  | scheduled | cancelled
deriving DecidableEq

structure Meeting where
  id : Nat
  title : String
  organizerId : String
  attendeeIds : List String
  roomId : String
  slot : TimeSlot
  status : MeetingStatus
deriving DecidableEq

inductive Thrown where
  | unknownRoom (id : String)
  | unknownParticipant (id : String)
  | duplicateKey
  | doesNotFit (roomId : String) (headcount : Int) (required : List Feature)
  | noRoomFits (headcount : Int) (required : List Feature)
  /-- `ConflictException`: an attendee is busy -/
  | personBusy (personId : String) (meetingId : Nat)
  /-- `ConflictException`: no suitable room is free -/
  | noRoomFree (slot : TimeSlot)
  /-- `ConflictException`: a calendar of the meeting is busy -/
  | calendarBusy (key : String) (meetingId : Nat)
  | noMeeting (id : Nat)
  | alreadyCancelled (id : Nat)
  | isCancelled (id : Nat)
  | nullPointer
deriving DecidableEq

/-- `schedule` between two of its bodies. -/
structure Call where
  req : MeetingRequest
  id : Nat
  /-- the rooms that are yet to be tried -/
  candidates : List Room

abbrev Calendars := Dict String IntervalCalendar

structure MeetingScheduler where
  rooms : Dict String Room
  people : List String
  calendars : Calendars
  meetings : Dict Nat Meeting
  /-- `RoomAllocationStrategy.rank` -/
  rank : List Room → Int → List Feature → List Room
  ids : Nat
  calls : Dict Nat Call

inductive Op where
  | schedule (call : Nat) (req : MeetingRequest)
  /-- One turn of the loop of `schedule`, or its end. -/
  | tryRoom (call : Nat)
  | cancel (meetingId : Nat)
  | reschedule (meetingId : Nat) (newSlot : TimeSlot)

inductive Answer where
  | disabled
  /-- `schedule` is in its loop. -/
  | trying
  | booked (m : Meeting)
  | done
  | threw (e : Thrown)
deriving DecidableEq

/-! ## Calendars -/

def roomKey (id : String) : String := "room:" ++ id

def personKey (id : String) : String := "person:" ++ id

/-- `calendarsFor`: the keys of the calendars. -/
def calendarsFor (personIds : List String) (roomId : String) : List String :=
  personIds.map personKey ++ [roomKey roomId]

def Meeting.involved (m : Meeting) : List String := calendarsFor m.attendeeIds m.roomId

def Calendars.calendar (cals : Calendars) (key : String) : IntervalCalendar :=
  (cals.get? key).getD TreeMap.empty

/-- `involved.forEach` -/
def Calendars.forEach (cals : Calendars) (keys : List String)
    (f : IntervalCalendar → IntervalCalendar) : Calendars :=
  keys.foldl (fun cals key => cals.set key (f (cals.calendar key))) cals

/-- The first of the calendars that the slot conflicts with. -/
def Calendars.clash (cals : Calendars) (keys : List String) (s : TimeSlot) :
    Option (String × Nat) :=
  keys.findSome? fun key => ((cals.calendar key).conflict s).map fun e => (key, e.meetingId)

namespace MeetingScheduler

def new (rooms : List Room) (people : List String)
    (rank : List Room → Int → List Feature → List Room) : Except Thrown MeetingScheduler :=
  if (rooms.map Room.id).Nodup ∧ people.Nodup then .ok
    { rooms := Dict.ofList (rooms.map fun r => (r.id, r))
      people := people
      calendars := Dict.ofList ((rooms.map (fun r => roomKey r.id) ++ people.map personKey).map
        fun key => (key, TreeMap.empty))
      meetings := Dict.empty
      rank := rank
      ids := 0
      calls := Dict.empty }
  else .error .duplicateKey

variable (q : MeetingScheduler)

/-! ## schedule, cancel, reschedule -/

/-- The rooms that `schedule` tries. -/
def candidates (req : MeetingRequest) : Except Thrown (List Room) :=
  let headcount : Int := req.attendeeIds.length
  match req.roomId with
  | some id =>
    match q.rooms.get? id with
    | none => .error (.unknownRoom id)
    | some r =>
      if r.fits headcount req.requiredFeatures then .ok [r]
      else .error (.doesNotFit r.id headcount req.requiredFeatures)
  | none =>
    match q.rank q.rooms.values headcount req.requiredFeatures with
    | [] => .error (.noRoomFits headcount req.requiredFeatures)
    | candidates => .ok candidates

/-- `schedule` up to its loop. -/
def schedule (call : Nat) (req : MeetingRequest) : Answer × MeetingScheduler :=
  match req.attendeeIds.find? (· ∉ q.people), q.candidates req with
  | some p, _ => (.threw (.unknownParticipant p), q)
  | none, .error e => (.threw e, q)
  | none, .ok candidates =>
    (.trying, { q with
      ids := q.ids + 1
      calls := q.calls.set call ⟨req, q.ids + 1, candidates⟩ })

/-- The loop of `schedule` at its next room. -/
def tryRoom (call : Nat) (c : Call) : Answer × MeetingScheduler :=
  let leave := { q with calls := q.calls.erase call }
  match c.candidates with
  | [] => (.threw (.noRoomFree c.req.slot), leave)
  | room :: rest =>
    let involved := calendarsFor c.req.attendeeIds room.id
    -- a strategy may rank a room that the scheduler does not know
    if ∃ key ∈ involved, q.calendars.get? key = none then (.threw .nullPointer, leave)
    else
      match c.req.attendeeIds.findSome? fun pid =>
          ((q.calendars.calendar (personKey pid)).conflict c.req.slot).map fun e =>
            (pid, e.meetingId) with
      | some (pid, id) => (.threw (.personBusy pid id), leave)
      | none =>
        if ((q.calendars.calendar (roomKey room.id)).conflict c.req.slot).isSome then
          (.trying, { q with calls := q.calls.set call { c with candidates := rest } })
        else
          let m : Meeting :=
            { id := c.id, title := c.req.title, organizerId := c.req.organizerId,
              attendeeIds := c.req.attendeeIds, roomId := room.id, slot := c.req.slot,
              status := .scheduled }
          (.booked m, { leave with
            calendars := q.calendars.forEach involved (·.add c.id c.req.slot)
            meetings := q.meetings.set c.id m })

def cancel (meetingId : Nat) : Answer × MeetingScheduler :=
  match q.meetings.get? meetingId with
  | none => (.threw (.noMeeting meetingId), q)
  | some m =>
    if m.status = .cancelled then (.threw (.alreadyCancelled meetingId), q)
    else
      (.done, { q with
        calendars := q.calendars.forEach m.involved (·.remove m.id m.slot)
        meetings := q.meetings.set meetingId { m with status := .cancelled } })

def reschedule (meetingId : Nat) (newSlot : TimeSlot) : Answer × MeetingScheduler :=
  match q.meetings.get? meetingId with
  | none => (.threw (.noMeeting meetingId), q)
  | some m =>
    if m.status = .cancelled then (.threw (.isCancelled meetingId), q)
    else
      -- so the meeting doesn't conflict with itself
      let removed := q.calendars.forEach m.involved (·.remove m.id m.slot)
      match removed.clash m.involved newSlot with
      | some (key, id) =>
        (.threw (.calendarBusy key id), { q with
          calendars := removed.forEach m.involved (·.add m.id m.slot) })
      | none =>
        (.done, { q with
          calendars := removed.forEach m.involved (·.add m.id newSlot)
          meetings := q.meetings.set meetingId { m with slot := newSlot } })

def step (q : MeetingScheduler) : Op → Except Empty (Answer × MeetingScheduler)
  | .schedule call req =>
    .ok (if (q.calls.get? call).isSome then (.disabled, q) else q.schedule call req)
  | .tryRoom call =>
    .ok (match q.calls.get? call with
      | none => (.disabled, q)
      | some c => q.tryRoom call c)
  | .cancel meetingId => .ok (q.cancel meetingId)
  | .reschedule meetingId newSlot => .ok (q.reschedule meetingId newSlot)

end MeetingScheduler

end InterviewPrep.Meetings
