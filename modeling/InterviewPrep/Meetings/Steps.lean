/-
  Calendars agree with meetings (`Agree`): a calendar has exactly the slots of the meetings
  that are scheduled and involve its owner, and no two of them overlap.  A meeting is taken
  off its calendars (`Agree.remove`) or put on them (`Agree.add`); what is taken off and put
  back leaves them as they were (`forEach_add_remove`).

  Every step of the scheduler keeps the calendars in agreement with the meetings
  (`Consistent.step`), and a step that does not complete a call, or throws, changes neither.
-/
import InterviewPrep.Meetings.Scheduler

namespace InterviewPrep.Meetings

open Lib Dict List Option

/-! ## Keys -/

theorem personKey_inj {a b : String} : personKey a = personKey b ↔ a = b :=
  ⟨fun h => String.ext (by simpa [personKey] using congrArg String.toList h), fun h => by rw [h]⟩

theorem roomKey_inj {a b : String} : roomKey a = roomKey b ↔ a = b :=
  ⟨fun h => String.ext (by simpa [roomKey] using congrArg String.toList h), fun h => by rw [h]⟩

theorem personKey_ne_roomKey (a b : String) : personKey a ≠ roomKey b := by
  intro h
  have := congrArg (fun s => s.toList.head?) h
  simp [personKey, roomKey] at this

variable {ids : List String} {room : String}

theorem mem_calendarsFor {key : String} :
    key ∈ calendarsFor ids room ↔ (∃ p ∈ ids, key = personKey p) ∨ key = roomKey room := by
  simp [calendarsFor, eq_comm]

theorem personKey_mem {p : String} : personKey p ∈ calendarsFor ids room ↔ p ∈ ids := by
  rw [mem_calendarsFor]
  constructor
  · rintro (⟨p', hp', heq⟩ | heq)
    · rwa [personKey_inj.mp heq]
    · exact absurd heq (personKey_ne_roomKey p room)
  · exact fun hp => Or.inl ⟨p, hp, rfl⟩

theorem roomKey_mem {r : String} : roomKey r ∈ calendarsFor ids room ↔ r = room := by
  rw [mem_calendarsFor]
  constructor
  · rintro (⟨p, _, heq⟩ | heq)
    · exact absurd heq.symm (personKey_ne_roomKey p r)
    · exact roomKey_inj.mp heq
  · exact fun hr => Or.inr (by rw [hr])

theorem calendarsFor_nodup (room : String) (h : ids.Nodup) : (calendarsFor ids room).Nodup := by
  rw [calendarsFor, nodup_append]
  refine ⟨h.map fun _ _ heq => personKey_inj.mp heq, nodup_singleton _, ?_⟩
  intro a ha b hb heq
  obtain ⟨p, _, rfl⟩ := List.mem_map.mp ha
  rw [mem_singleton.mp hb] at heq
  exact personKey_ne_roomKey p room heq

/-! ## All calendars of a meeting -/

namespace Calendars

variable {cals : Calendars} {keys : List String} {f g : IntervalCalendar → IntervalCalendar}
  {key : String} {cal : IntervalCalendar}

theorem calendar_of_get? (h : cals.get? key = some cal) : cals.calendar key = cal := by
  rw [calendar, h]
  rfl

def Known (cals : Calendars) (keys : List String) : Prop := ∀ key ∈ keys, cals.get? key ≠ none

theorem get?_forEach (hnodup : keys.Nodup) (hknown : cals.Known keys) (key : String) :
    (cals.forEach keys f).get? key =
      if key ∈ keys then (cals.get? key).map f else cals.get? key := by
  induction keys generalizing cals with
  | nil => rfl
  | cons k ks ih =>
    obtain ⟨hk, hks⟩ := nodup_cons.mp hnodup
    obtain ⟨cal, hcal⟩ := ne_none_iff_exists'.mp (hknown k mem_cons_self)
    have hset : Known (cals.set k (f (cals.calendar k))) ks := by
      intro key hkey
      have hne : key ≠ k := fun heq => hk (heq ▸ hkey)
      rw [get?_set_of_ne _ _ hne]
      exact hknown key (mem_cons_of_mem _ hkey)
    have hrest := ih hks hset
    rw [forEach, foldl_cons]
    rw [forEach] at hrest
    rw [hrest]
    by_cases hkey : key = k
    · rw [hkey, if_neg hk, if_pos mem_cons_self, get?_set_self, calendar_of_get? hcal, hcal]
      rfl
    · rw [get?_set_of_ne _ _ hkey]
      simp only [mem_cons, hkey, false_or]

theorem known_forEach (hnodup : keys.Nodup) (hknown : cals.Known keys) {ks : List String} :
    (cals.forEach keys f).Known ks ↔ cals.Known ks := by
  have hnone : ∀ key, (cals.forEach keys f).get? key = none ↔ cals.get? key = none := by
    intro key
    rw [get?_forEach hnodup hknown]
    split
    · exact map_eq_none_iff
    · exact Iff.rfl
  exact forall₂_congr fun key _ => not_congr (hnone key)

theorem keys_forEach (hknown : cals.Known keys) : (cals.forEach keys f).keys = cals.keys := by
  induction keys generalizing cals with
  | nil => rfl
  | cons k ks ih =>
    obtain ⟨cal, hcal⟩ := ne_none_iff_exists'.mp (hknown k mem_cons_self)
    have hset : Known (cals.set k (f (cals.calendar k))) ks := by
      intro key hkey
      by_cases heq : key = k
      · rw [heq, get?_set_self]
        exact some_ne_none _
      · rw [get?_set_of_ne _ _ heq]
        exact hknown key (mem_cons_of_mem _ hkey)
    exact (ih hset).trans (keys_set_of_get? _ hcal)

theorem forEach_undo (hnodup : keys.Nodup) (hknown : cals.Known keys)
    (h : ∀ key ∈ keys, ∀ cal, cals.get? key = some cal → g (f cal) = cal) :
    (cals.forEach keys f).forEach keys g = cals := by
  have hknown' := (known_forEach (f := f) hnodup hknown).mpr hknown
  apply ext_keys
  · rw [keys_forEach hknown', keys_forEach hknown]
  intro key
  rw [get?_forEach hnodup hknown', get?_forEach hnodup hknown]
  by_cases hkey : key ∈ keys
  · rw [if_pos hkey, if_pos hkey]
    cases hcal : cals.get? key with
    | none => rfl
    | some cal => exact congrArg some (h key hkey cal hcal)
  · rw [if_neg hkey, if_neg hkey]

theorem clash_none {s : TimeSlot} (h : cals.clash keys s = none) (hkey : key ∈ keys) :
    (cals.calendar key).conflict s = none := by
  have := findSome?_eq_none_iff.mp h key hkey
  exact map_eq_none_iff.mp this

end Calendars

/-! ## Calendars and meetings -/

structure Agree (cals : Calendars) (meetings : Dict Nat Meeting) : Prop where
  apart : ∀ key cal, cals.get? key = some cal → IntervalCalendar.Apart cal
  entries : ∀ key cal, cals.get? key = some cal → ∀ e, IntervalCalendar.Has cal e ↔
    ∃ m, meetings.get? e.meetingId = some m ∧ m.status = .scheduled ∧ m.slot = e.slot ∧
      key ∈ m.involved

namespace Agree

variable {cals : Calendars} {meetings : Dict Nat Meeting} {id : Nat} {m : Meeting} {s : TimeSlot}
  {key : String} {cal : IntervalCalendar}

theorem has (h : Agree cals meetings) (hm : meetings.get? id = some m) (hst : m.status = .scheduled)
    (hcal : cals.get? key = some cal) (hkey : key ∈ m.involved) :
    IntervalCalendar.Has cal ⟨id, m.slot⟩ :=
  (h.entries key cal hcal ⟨id, m.slot⟩).mpr ⟨m, hm, hst, rfl, hkey⟩

theorem remove (h : Agree cals meetings) (hm : meetings.get? id = some m)
    (hst : m.status = .scheduled)
    (hnodup : m.involved.Nodup) (hknown : cals.Known m.involved) :
    Agree (cals.forEach m.involved (·.remove id m.slot))
      (meetings.set id { m with status := .cancelled }) := by
  have hget := Calendars.get?_forEach (f := fun cal => cal.remove id m.slot) hnodup hknown
  have hentries : ∀ key cal', (cals.forEach m.involved (·.remove id m.slot)).get? key = some cal' →
      IntervalCalendar.Apart cal' ∧ ∀ e, IntervalCalendar.Has cal' e ↔
        ∃ m, meetings.get? e.meetingId = some m ∧ m.status = .scheduled ∧ m.slot = e.slot ∧
          key ∈ m.involved ∧ e.meetingId ≠ id := by
    intro key cal' hcal'
    rw [hget] at hcal'
    by_cases hkey : key ∈ m.involved
    · rw [if_pos hkey] at hcal'
      obtain ⟨cal, hcal, rfl⟩ := map_eq_some_iff.mp hcal'
      have hhas := h.has hm hst hcal hkey
      refine ⟨(h.apart key cal hcal).remove, fun e => ?_⟩
      rw [IntervalCalendar.has_remove hhas, h.entries key cal hcal]
      constructor
      · rintro ⟨⟨m', hm', hst', hslot', hkey'⟩, hne⟩
        refine ⟨m', hm', hst', hslot', hkey', fun heq => ?_⟩
        rw [heq, hm] at hm'
        obtain rfl := some.inj hm'
        apply hne
        rw [← heq, hslot']
      · rintro ⟨m', hm', hst', hslot', hkey', hne⟩
        refine ⟨⟨m', hm', hst', hslot', hkey'⟩, ?_⟩
        rintro rfl
        exact hne rfl
    · rw [if_neg hkey] at hcal'
      refine ⟨h.apart key cal' hcal', fun e => ?_⟩
      rw [h.entries key cal' hcal']
      constructor
      · rintro ⟨m', hm', hst', hslot', hkey'⟩
        refine ⟨m', hm', hst', hslot', hkey', fun heq => ?_⟩
        rw [heq, hm] at hm'
        obtain rfl := some.inj hm'
        exact hkey hkey'
      · rintro ⟨m', hm', hst', hslot', hkey', _⟩
        exact ⟨m', hm', hst', hslot', hkey'⟩
  constructor
  · exact fun key cal' hcal' => (hentries key cal' hcal').1
  intro key cal' hcal' e
  rw [(hentries key cal' hcal').2 e]
  constructor
  · rintro ⟨m', hm', hst', hslot', hkey', hne⟩
    exact ⟨m', by rw [get?_set_of_ne _ _ hne, hm'], hst', hslot', hkey'⟩
  · rintro ⟨m', hm', hst', hslot', hkey'⟩
    rcases get?_set_some hm' with ⟨_, rfl⟩ | ⟨hne, hm'⟩
    · cases hst'
    · exact ⟨m', hm', hst', hslot', hkey', hne⟩

theorem add (h : Agree cals meetings)
    (hnew : ∀ m0, meetings.get? id = some m0 → m0.status = .cancelled)
    (hst : m.status = .scheduled) (hnodup : m.involved.Nodup) (hknown : cals.Known m.involved)
    (hfree : ∀ key ∈ m.involved, (cals.calendar key).conflict m.slot = none) :
    Agree (cals.forEach m.involved (·.add id m.slot)) (meetings.set id m) := by
  have hget := Calendars.get?_forEach (f := fun cal => cal.add id m.slot) hnodup hknown
  have hother : ∀ {key cal}, cals.get? key = some cal → ∀ e, IntervalCalendar.Has cal e →
      e.meetingId ≠ id := by
    intro key cal hcal e hhas heq
    obtain ⟨m0, hm0, hst0, -⟩ := (h.entries key cal hcal e).mp hhas
    rw [hnew m0 (by rw [← heq, hm0])] at hst0
    cases hst0
  -- what was on a calendar is there as it was
  have hold : ∀ {key cal}, cals.get? key = some cal → ∀ e, IntervalCalendar.Has cal e ↔
      ∃ m', (Dict.set meetings id m).get? e.meetingId = some m' ∧ m'.status = .scheduled ∧
        m'.slot = e.slot ∧ key ∈ m'.involved ∧ e.meetingId ≠ id := by
    intro key cal hcal e
    constructor
    · intro hhas
      have hne := hother hcal e hhas
      obtain ⟨m', hm', hst', hslot', hkey'⟩ := (h.entries key cal hcal e).mp hhas
      exact ⟨m', by rw [get?_set_of_ne _ _ hne, hm'], hst', hslot', hkey', hne⟩
    · rintro ⟨m', hm', hst', hslot', hkey', hne⟩
      rw [get?_set_of_ne _ _ hne] at hm'
      exact (h.entries key cal hcal e).mpr ⟨m', hm', hst', hslot', hkey'⟩
  constructor
  · intro key cal' hcal'
    rw [hget] at hcal'
    split at hcal'
    next hkey =>
      obtain ⟨cal, hcal, rfl⟩ := map_eq_some_iff.mp hcal'
      have hnone := hfree key hkey
      rw [Calendars.calendar_of_get? hcal] at hnone
      exact (h.apart key cal hcal).add hnone
    next => exact h.apart key cal' hcal'
  intro key cal' hcal' e
  rw [hget] at hcal'
  have hself : e.meetingId = id → ((∃ m', (Dict.set meetings id m).get? e.meetingId = some m' ∧
      m'.status = .scheduled ∧ m'.slot = e.slot ∧ key ∈ m'.involved) ↔
        m.slot = e.slot ∧ key ∈ m.involved) := by
    intro heq
    rw [heq, get?_set_self]
    constructor
    · rintro ⟨m', hm', _, hslot', hkey'⟩
      obtain rfl := some.inj hm'
      exact ⟨hslot', hkey'⟩
    · exact fun hslot => ⟨m, rfl, hst, hslot.1, hslot.2⟩
  by_cases hkey : key ∈ m.involved
  · rw [if_pos hkey] at hcal'
    obtain ⟨cal, hcal, rfl⟩ := map_eq_some_iff.mp hcal'
    have hnone := hfree key hkey
    rw [Calendars.calendar_of_get? hcal] at hnone
    rw [(h.apart key cal hcal).has_add hnone, hold hcal]
    constructor
    · rintro (⟨m', hm', hst', hslot', hkey', _⟩ | rfl)
      · exact ⟨m', hm', hst', hslot', hkey'⟩
      · exact (hself rfl).mpr ⟨rfl, hkey⟩
    · intro hm'
      by_cases heq : e.meetingId = id
      · refine Or.inr ?_
        rw [← heq, ((hself heq).mp hm').1]
      · obtain ⟨m', hm', hst', hslot', hkey'⟩ := hm'
        exact Or.inl ⟨m', hm', hst', hslot', hkey', heq⟩
  · rw [if_neg hkey] at hcal'
    rw [hold hcal']
    constructor
    · rintro ⟨m', hm', hst', hslot', hkey', _⟩
      exact ⟨m', hm', hst', hslot', hkey'⟩
    · intro hm'
      by_cases heq : e.meetingId = id
      · exact absurd ((hself heq).mp hm').2 hkey
      · obtain ⟨m', hm', hst', hslot', hkey'⟩ := hm'
        exact ⟨m', hm', hst', hslot', hkey', heq⟩

end Agree

namespace MeetingScheduler

structure Consistent (rooms : List Room) (people : List String) (q : MeetingScheduler) : Prop where
  agree : Agree q.calendars q.meetings
  meetings : ∀ id m, q.meetings.get? id = some m →
    m.id = id ∧ m.attendeeIds.Nodup ∧ q.calendars.Known m.involved ∧ id ≤ q.ids
  calls : ∀ call c, q.calls.get? call = some c → q.meetings.get? c.id = none ∧ c.id ≤ q.ids
  distinct : ∀ call call' c c', q.calls.get? call = some c → q.calls.get? call' = some c' →
    c.id = c'.id → call = call'
  people : q.calendars.Known (people.map personKey)
  rooms : q.calendars.Known (rooms.map fun r => roomKey r.id)

variable {q q' : MeetingScheduler} {a : Answer} {rooms : List Room} {people : List String}
  {rank : List Room → Int → List Feature → List Room}

theorem attendeeIds_nodup (req : MeetingRequest) : req.attendeeIds.Nodup := TreeMap.keys_nodup _

theorem new_consistent (h : new rooms people rank = .ok q) : Consistent rooms people q := by
  rw [new] at h
  split at h
  next hnodup =>
    cases h
    have hkeys : (((rooms.map (fun r => roomKey r.id) ++ people.map personKey).map
        fun key => (key, (TreeMap.empty : IntervalCalendar))).map Prod.fst).Nodup := by
      rw [List.map_map, show (Prod.fst ∘ fun key => (key, (TreeMap.empty : IntervalCalendar))) =
        id from rfl, List.map_id, nodup_append]
      refine ⟨?_, hnodup.2.map fun _ _ heq => personKey_inj.mp heq, ?_⟩
      · have hmap := hnodup.1.map (f := roomKey) fun _ _ heq => roomKey_inj.mp heq
        rwa [List.map_map] at hmap
      · intro a ha b hb heq
        obtain ⟨r, _, rfl⟩ := List.mem_map.mp ha
        obtain ⟨p, _, rfl⟩ := List.mem_map.mp hb
        exact personKey_ne_roomKey p r.id heq.symm
    have hget : ∀ key cal, (Dict.ofList ((rooms.map (fun r => roomKey r.id) ++
        people.map personKey).map fun key => (key, (TreeMap.empty : IntervalCalendar)))).get? key =
          some cal ↔ (key ∈ rooms.map (fun r => roomKey r.id) ++ people.map personKey) ∧
            cal = TreeMap.empty := by
      intro key cal
      rw [← Dict.mem_items, ofList_items hkeys, List.mem_map]
      constructor
      · rintro ⟨k, hk, heq⟩
        cases heq
        exact ⟨hk, rfl⟩
      · rintro ⟨hk, rfl⟩
        exact ⟨key, hk, rfl⟩
    constructor
    · constructor
      · intro key cal hcal
        rw [((hget key cal).mp hcal).2]
        exact TreeMap.Disjoint.empty
      · intro key cal hcal e
        rw [((hget key cal).mp hcal).2]
        constructor
        · exact nofun
        · rintro ⟨m, hm, -⟩
          cases hm
    · exact nofun
    · exact nofun
    · exact nofun
    · intro key hkey hnone
      have := (hget key TreeMap.empty).mpr ⟨mem_append_right _ hkey, rfl⟩
      rw [hnone] at this
      cases this
    · intro key hkey hnone
      have := (hget key TreeMap.empty).mpr ⟨mem_append_left _ hkey, rfl⟩
      rw [hnone] at this
      cases this
  next => cases h

/-- The step has changed no calendar and no meeting. -/
def Unchanged (q q' : MeetingScheduler) : Prop :=
  q'.calendars = q.calendars ∧ q'.meetings = q.meetings

/-! ## schedule -/

section

variable (h : Consistent rooms people q)

include h

theorem Consistent.leave (call : Nat) :
    Consistent rooms people { q with calls := q.calls.erase call } := by
  refine ⟨h.agree, h.meetings, ?_, ?_, h.people, h.rooms⟩
  · exact fun call' c hc => h.calls call' c (get?_erase_some hc).2
  · exact fun c1 c2 c c' h1 h2 => h.distinct c1 c2 c c' (get?_erase_some h1).2
      (get?_erase_some h2).2

theorem Consistent.schedule (call : Nat) (req : MeetingRequest)
    (hidle : q.calls.get? call = none) :
    Consistent rooms people (q.schedule call req).2 ∧ Unchanged q (q.schedule call req).2 := by
  rw [MeetingScheduler.schedule]
  split
  · exact ⟨h, rfl, rfl⟩
  · exact ⟨h, rfl, rfl⟩
  refine ⟨⟨h.agree, ?_, ?_, ?_, h.people, h.rooms⟩, rfl, rfl⟩
  · intro id m hm
    obtain ⟨hid, hnodup, hknown, hle⟩ := h.meetings id m hm
    exact ⟨hid, hnodup, hknown, Nat.le_succ_of_le hle⟩
  · intro call' c hc
    rcases get?_set_some hc with ⟨-, rfl⟩ | ⟨-, hc⟩
    · refine ⟨?_, Nat.le_refl _⟩
      cases hget : q.meetings.get? (q.ids + 1) with
      | none => rfl
      | some m => exact absurd (h.meetings _ m hget).2.2.2 (by omega)
    · exact ⟨(h.calls call' c hc).1, Nat.le_succ_of_le (h.calls call' c hc).2⟩
  intro c1 c2 c c' h1 h2 hids
  rcases get?_set_some h1 with ⟨rfl, rfl⟩ | ⟨-, hc1⟩
  · rcases get?_set_some h2 with ⟨rfl, rfl⟩ | ⟨-, hc2⟩
    · rfl
    · have hle := (h.calls c2 c' hc2).2
      rw [← hids] at hle
      exact absurd hle (by show ¬ q.ids + 1 ≤ q.ids; omega)
  · rcases get?_set_some h2 with ⟨rfl, rfl⟩ | ⟨-, hc2⟩
    · have hle := (h.calls c1 c hc1).2
      rw [hids] at hle
      exact absurd hle (by show ¬ q.ids + 1 ≤ q.ids; omega)
    · exact h.distinct c1 c2 c c' hc1 hc2 hids

theorem Consistent.next {call : Nat} {c : Call} (hc : q.calls.get? call = some c)
    (rest : List Room) :
    Consistent rooms people { q with calls := q.calls.set call { c with candidates := rest } } := by
  have hold : ∀ call' c', (q.calls.set call { c with candidates := rest }).get? call' = some c' →
      ∃ c0, q.calls.get? call' = some c0 ∧ c0.id = c'.id := by
    intro call' c' hc'
    rcases get?_set_some hc' with ⟨rfl, rfl⟩ | ⟨-, hc'⟩
    · exact ⟨c, hc, rfl⟩
    · exact ⟨c', hc', rfl⟩
  refine ⟨h.agree, h.meetings, ?_, ?_, h.people, h.rooms⟩
  · intro call' c' hc'
    obtain ⟨c0, hc0, hid⟩ := hold call' c' hc'
    rw [← hid]
    exact h.calls call' c0 hc0
  · intro c1 c2 c c' h1 h2 hids
    obtain ⟨d1, hd1, hid1⟩ := hold c1 c h1
    obtain ⟨d2, hd2, hid2⟩ := hold c2 c' h2
    exact h.distinct c1 c2 d1 d2 hd1 hd2 (hid1.trans (hids.trans hid2.symm))

theorem Consistent.tryRoom {call : Nat} {c : Call} (hc : q.calls.get? call = some c) :
    Consistent rooms people (q.tryRoom call c).2 ∧
      ((∀ m, (q.tryRoom call c).1 ≠ .booked m) → Unchanged q (q.tryRoom call c).2) := by
  rw [MeetingScheduler.tryRoom]
  split
  · exact ⟨h.leave call, fun _ => ⟨rfl, rfl⟩⟩
  next room rest _ =>
  dsimp only
  split
  · exact ⟨h.leave call, fun _ => ⟨rfl, rfl⟩⟩
  next hknown =>
  have hknown : q.calendars.Known (calendarsFor c.req.attendeeIds room.id) :=
    fun key hkey hnone => hknown ⟨key, hkey, hnone⟩
  split
  · exact ⟨h.leave call, fun _ => ⟨rfl, rfl⟩⟩
  next hpeople =>
  split
  · exact ⟨h.next hc rest, fun _ => ⟨rfl, rfl⟩⟩
  next hroom =>
  refine ⟨?_, fun hnot => absurd rfl (hnot _)⟩
  obtain ⟨hnone, hle⟩ := h.calls call c hc
  have hnodup := attendeeIds_nodup c.req
  -- nobody who is involved has anything else then
  have hfree : ∀ key ∈ calendarsFor c.req.attendeeIds room.id,
      (q.calendars.calendar key).conflict c.req.slot = none := by
    intro key hkey
    rcases mem_calendarsFor.mp hkey with ⟨p, hp, rfl⟩ | rfl
    · exact map_eq_none_iff.mp (findSome?_eq_none_iff.mp hpeople p hp)
    · simpa using hroom
  have hadd := h.agree.add
    (m := ⟨c.id, c.req.title, c.req.organizerId, c.req.attendeeIds, room.id, c.req.slot,
      .scheduled⟩)
    (fun m0 (hm0 : q.meetings.get? c.id = some m0) => by rw [hnone] at hm0; cases hm0) rfl
    (calendarsFor_nodup room.id hnodup) hknown hfree
  have hkeep : ∀ {keys : List String}, q.calendars.Known keys →
      (q.calendars.forEach (calendarsFor c.req.attendeeIds room.id)
        (·.add c.id c.req.slot)).Known keys := fun hkeys =>
    (Calendars.known_forEach (calendarsFor_nodup room.id hnodup) hknown).mpr hkeys
  refine ⟨hadd, ?_, ?_, (h.leave call).distinct, hkeep h.people, hkeep h.rooms⟩
  · intro id m hm
    rcases get?_set_some hm with ⟨rfl, rfl⟩ | ⟨-, hm⟩
    · exact ⟨rfl, hnodup, hkeep hknown, hle⟩
    · obtain ⟨hid, hnodup', hknown', hle'⟩ := h.meetings id m hm
      exact ⟨hid, hnodup', hkeep hknown', hle'⟩
  · intro call' c' hc'
    obtain ⟨hne, hc'⟩ := get?_erase_some hc'
    obtain ⟨hnone', hle'⟩ := h.calls call' c' hc'
    refine ⟨?_, hle'⟩
    rw [get?_set_of_ne _ _ fun heq => hne (h.distinct call' call c' c hc' hc heq)]
    exact hnone'

end

/-! ## cancel and reschedule -/

theorem Consistent.change (h : Consistent rooms people q) {id : Nat} {m m' : Meeting}
    (hm : q.meetings.get? id = some m) {cals : Calendars}
    (hcals : ∀ keys, q.calendars.Known keys → cals.Known keys)
    (hagree : Agree cals (q.meetings.set id m')) (hid : m'.id = m.id)
    (hinvolved : m'.attendeeIds = m.attendeeIds ∧ m'.roomId = m.roomId) :
    Consistent rooms people { q with calendars := cals, meetings := q.meetings.set id m' } := by
  refine ⟨hagree, ?_, ?_, h.distinct, hcals _ h.people, hcals _ h.rooms⟩
  · intro id1 m1 hm1
    rcases get?_set_some hm1 with ⟨rfl, rfl⟩ | ⟨-, hm1⟩
    · obtain ⟨hid0, hnodup, hknown, hle⟩ := h.meetings id1 m hm
      refine ⟨hid.trans hid0, by rwa [hinvolved.1], ?_, hle⟩
      rw [Meeting.involved, hinvolved.1, hinvolved.2]
      exact hcals _ hknown
    · obtain ⟨hid1, hnodup, hknown, hle⟩ := h.meetings id1 m1 hm1
      exact ⟨hid1, hnodup, hcals _ hknown, hle⟩
  · intro call c hc
    obtain ⟨hnone, hle⟩ := h.calls call c hc
    refine ⟨?_, hle⟩
    have hne : c.id ≠ id := (ne_of_eq_none hm hnone).symm
    rw [get?_set_of_ne _ _ hne]
    exact hnone

theorem status_eq_scheduled {st : MeetingStatus} (h : st ≠ .cancelled) : st = .scheduled := by
  cases st with
  | scheduled => rfl
  | cancelled => exact absurd rfl h

theorem Consistent.cancel (h : Consistent rooms people q) (meetingId : Nat) :
    Consistent rooms people (q.cancel meetingId).2 ∧
      ((q.cancel meetingId).1 ≠ .done → Unchanged q (q.cancel meetingId).2) := by
  rw [MeetingScheduler.cancel]
  split
  · exact ⟨h, fun _ => ⟨rfl, rfl⟩⟩
  next m hm =>
  split
  · exact ⟨h, fun _ => ⟨rfl, rfl⟩⟩
  next hst =>
  obtain ⟨rfl, hnodup, hknown, -⟩ := h.meetings meetingId m hm
  have hinvolved := calendarsFor_nodup m.roomId hnodup
  have hscheduled := status_eq_scheduled hst
  refine ⟨h.change hm (fun keys hkeys => ?_)
    (h.agree.remove hm hscheduled hinvolved hknown) rfl ⟨rfl, rfl⟩, fun hne => absurd rfl hne⟩
  exact (Calendars.known_forEach hinvolved hknown).mpr hkeys

theorem Consistent.reschedule (h : Consistent rooms people q) (meetingId : Nat)
    (newSlot : TimeSlot) :
    Consistent rooms people (q.reschedule meetingId newSlot).2 ∧
      ((q.reschedule meetingId newSlot).1 ≠ .done →
        Unchanged q (q.reschedule meetingId newSlot).2) := by
  rw [MeetingScheduler.reschedule]
  split
  · exact ⟨h, fun _ => ⟨rfl, rfl⟩⟩
  next m hm =>
  split
  · exact ⟨h, fun _ => ⟨rfl, rfl⟩⟩
  next hst =>
  obtain ⟨rfl, hnodup, hknown, -⟩ := h.meetings meetingId m hm
  have hinvolved := calendarsFor_nodup m.roomId hnodup
  have hscheduled := status_eq_scheduled hst
  dsimp only
  split
  · -- the meeting is put back where it was
    have hback : (q.calendars.forEach m.involved (·.remove m.id m.slot)).forEach m.involved
        (·.add m.id m.slot) = q.calendars := by
      apply Calendars.forEach_undo hinvolved hknown
      intro key hkey cal hcal
      exact IntervalCalendar.add_remove (h.agree.has hm hscheduled hcal hkey)
    rw [hback]
    exact ⟨h, fun _ => ⟨rfl, rfl⟩⟩
  next hclash =>
  have hknown' := (Calendars.known_forEach (f := fun cal => cal.remove m.id m.slot) hinvolved
    hknown).mpr hknown
  have hremoved := h.agree.remove hm hscheduled hinvolved hknown
  have hadded := hremoved.add (m := { m with slot := newSlot })
    (fun m0 (hm0 : (q.meetings.set m.id { m with status := .cancelled }).get? m.id = some m0) => by
      rw [get?_set_self] at hm0
      rw [← some.inj hm0])
    hscheduled hinvolved hknown' fun key hkey => Calendars.clash_none hclash hkey
  rw [Dict.set_set] at hadded
  refine ⟨h.change hm (fun keys hkeys => ?_) hadded rfl ⟨rfl, rfl⟩,
    fun hne => absurd rfl hne⟩
  exact (Calendars.known_forEach hinvolved hknown').mpr
    ((Calendars.known_forEach hinvolved hknown).mpr hkeys)

/-! ## Runs -/

/-- The step has completed a call. -/
def Answer.completes : Answer → Bool
  | .booked _ | .done => true
  | _ => false

theorem Consistent.step (h : Consistent rooms people q) (op : Op) :
    ∃ a q', q.step op = .ok (a, q') ∧ Consistent rooms people q' ∧
      (Answer.completes a = false → Unchanged q q') := by
  cases op with
  | schedule call req =>
    rw [MeetingScheduler.step]
    by_cases hidle : (q.calls.get? call).isSome
    · rw [if_pos hidle]
      exact ⟨_, _, rfl, h, fun _ => ⟨rfl, rfl⟩⟩
    · rw [if_neg hidle]
      obtain ⟨hcons, hsame⟩ := h.schedule call req (by simpa using hidle)
      exact ⟨_, _, rfl, hcons, fun _ => hsame⟩
  | tryRoom call =>
    rw [MeetingScheduler.step]
    cases hc : q.calls.get? call with
    | none => exact ⟨_, _, rfl, h, fun _ => ⟨rfl, rfl⟩⟩
    | some c =>
      obtain ⟨hcons, hsame⟩ := h.tryRoom hc
      refine ⟨(q.tryRoom call c).1, (q.tryRoom call c).2, rfl, hcons, fun hnot =>
        hsame fun m heq => ?_⟩
      rw [heq] at hnot
      cases hnot
  | cancel meetingId =>
    obtain ⟨hcons, hsame⟩ := h.cancel meetingId
    refine ⟨(q.cancel meetingId).1, (q.cancel meetingId).2, rfl, hcons, fun hnot =>
      hsame fun heq => ?_⟩
    rw [heq] at hnot
    cases hnot
  | reschedule meetingId newSlot =>
    obtain ⟨hcons, hsame⟩ := h.reschedule meetingId newSlot
    refine ⟨(q.reschedule meetingId newSlot).1, (q.reschedule meetingId newSlot).2, rfl, hcons,
      fun hnot => hsame fun heq => ?_⟩
    rw [heq] at hnot
    cases hnot

/-- What a calendar has to do with the meetings that involve its owner. -/
structure CalendarOf (q : MeetingScheduler) (involves : Meeting → Prop) (cal : IntervalCalendar) :
    Prop where
  entries : ∀ e, e ∈ cal.values ↔ ∃ m, q.meetings.get? e.meetingId = some m ∧
    m.status = .scheduled ∧ involves m ∧ m.slot = e.slot
  disjoint : cal.values.Pairwise fun a b => a.slot.overlaps b.slot = false
  conflict : ∀ s, (cal.conflict s).isSome ↔ ∃ e ∈ cal.values, e.slot.overlaps s = true
  conflicting : ∀ s e, cal.conflict s = some e → e ∈ cal.values ∧ e.slot.overlaps s = true

theorem Consistent.calendarOf (h : Consistent rooms people q) {key : String}
    {cal : IntervalCalendar}
    (hcal : q.calendars.get? key = some cal) {involves : Meeting → Prop}
    (hinvolves : ∀ m : Meeting, key ∈ m.involved ↔ involves m) : CalendarOf q involves cal := by
  have hapart := h.agree.apart key cal hcal
  constructor
  · intro e
    refine (TreeMap.Disjoint.mem_values hapart).trans ((h.agree.entries key cal hcal e).trans ?_)
    constructor
    · rintro ⟨m, hm, hst, hslot, hkey⟩
      exact ⟨m, hm, hst, (hinvolves m).mp hkey, hslot⟩
    · rintro ⟨m, hm, hst, hkey, hslot⟩
      exact ⟨m, hm, hst, hslot, (hinvolves m).mpr hkey⟩
  · exact hapart.pairwise
  · intro s
    rw [hapart.conflict_isSome]
    exact exists_congr fun e => and_congr_left fun _ => (TreeMap.Disjoint.mem_values hapart).symm
  · intro s e hconflict
    obtain ⟨hhas, hoverlap⟩ := hapart.conflict_some hconflict
    exact ⟨(TreeMap.Disjoint.mem_values hapart).mpr hhas, hoverlap⟩

/-- After any steps of any calls every person and every room has a calendar with exactly the slots
    of their scheduled meetings; none overlaps another, a conflict is reported if there is one, and
    what throws changes no calendar and no meeting. -/
theorem run_calendars (hnew : new rooms people rank = .ok q) (ops : List Op) :
    ∃ answers q', runSteps MeetingScheduler.step q ops = .ok (answers, q') ∧
      (∀ p ∈ people, ∃ cal, q'.calendars.get? (personKey p) = some cal ∧
        CalendarOf q' (fun m => p ∈ m.attendeeIds) cal) ∧
      (∀ r ∈ rooms, ∃ cal, q'.calendars.get? (roomKey r.id) = some cal ∧
        CalendarOf q' (fun m => r.id = m.roomId) cal) ∧
      ∀ op a q'', q'.step op = .ok (a, q'') → Answer.completes a = false → Unchanged q' q'' := by
  have hrun : ∀ {q : MeetingScheduler}, Consistent rooms people q → ∃ answers q',
      runSteps MeetingScheduler.step q ops = .ok (answers, q') ∧ Consistent rooms people q' := by
    induction ops with
    | nil => exact fun h => ⟨[], _, rfl, h⟩
    | cons op _ ih =>
      intro q h
      obtain ⟨a, q1, hok, h1, -⟩ := h.step op
      obtain ⟨answers, q2, hrun, h2⟩ := ih h1
      exact ⟨a :: answers, q2, runSteps_cons_ok hok hrun, h2⟩
  obtain ⟨answers, q', hok, h⟩ := hrun (new_consistent hnew)
  refine ⟨answers, q', hok, fun p hp => ?_, fun r hr => ?_, fun op a q'' hstep hnot => ?_⟩
  · obtain ⟨cal, hcal⟩ := ne_none_iff_exists'.mp
      (h.people (personKey p) (List.mem_map.mpr ⟨p, hp, rfl⟩))
    exact ⟨cal, hcal, h.calendarOf hcal fun m => personKey_mem⟩
  · obtain ⟨cal, hcal⟩ := ne_none_iff_exists'.mp
      (h.rooms (roomKey r.id) (List.mem_map.mpr ⟨r, hr, rfl⟩))
    exact ⟨cal, hcal, h.calendarOf hcal fun m => roomKey_mem⟩
  · obtain ⟨a', q1, hok', -, hsame⟩ := h.step op
    rw [hstep] at hok'
    cases hok'
    exact hsame hnot

/-- A meeting is scheduled; moving it onto another one of its organizer throws. -/
theorem run_calendars_reschedule :
    ∃ q answers q', new [⟨"R", 4, []⟩] ["ann", "bob"] (fun rooms _ _ => rooms) = .ok q ∧
      runSteps MeetingScheduler.step q
        [.schedule 0 ⟨"t", "ann", ["bob"], ⟨9, 10, by decide⟩, [], none⟩, .tryRoom 0,
          .schedule 0 ⟨"t", "ann", [], ⟨10, 11, by decide⟩, [], none⟩, .tryRoom 0,
          .reschedule 1 ⟨10, 12, by decide⟩] = .ok (answers, q') ∧
      answers.getLast? = some (.threw (.calendarBusy "person:ann" 2)) ∧
      ∃ cal, q'.calendars.get? (personKey "ann") = some cal ∧
        CalendarOf q' (fun m => "ann" ∈ m.attendeeIds) cal := by
  obtain ⟨q, hnew, hobserve⟩ := exists_ok_of_observe
    (x := new [⟨"R", 4, []⟩] ["ann", "bob"] fun rooms _ _ => rooms)
    (f := fun q => (runSteps MeetingScheduler.step q
      [.schedule 0 ⟨"t", "ann", ["bob"], ⟨9, 10, by decide⟩, [], none⟩, .tryRoom 0,
        .schedule 0 ⟨"t", "ann", [], ⟨10, 11, by decide⟩, [], none⟩, .tryRoom 0,
        .reschedule 1 ⟨10, 12, by decide⟩]).toOption.map fun r => r.1.getLast?)
    (b := some (some (.threw (.calendarBusy "person:ann" 2)))) (by decide +kernel)
  obtain ⟨answers, q', hrun, hpeople, -, -⟩ := run_calendars hnew
    [.schedule 0 ⟨"t", "ann", ["bob"], ⟨9, 10, by decide⟩, [], none⟩, .tryRoom 0,
      .schedule 0 ⟨"t", "ann", [], ⟨10, 11, by decide⟩, [], none⟩, .tryRoom 0,
      .reschedule 1 ⟨10, 12, by decide⟩]
  rw [hrun] at hobserve
  exact ⟨q, answers, q', hnew, hrun, some.inj hobserve, hpeople "ann" (by decide)⟩

end MeetingScheduler

end InterviewPrep.Meetings
