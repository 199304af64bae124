/-
  `Participant.offHours` of MeetingSchedulerSystem.java, in a zone with a fixed offset.  The loop
  goes over the local days around the window.  A day on which work starts at midnight has no slot
  before it, and the constructor of `TimeSlot` throws (`offHours_covers_iff`).
-/
import InterviewPrep.Meetings.Scheduler

namespace InterviewPrep.Meetings

/-- `LocalTime`: the nanosecond of a day. -/
abbrev LocalTime := Fin 86400000000000

structure Participant where
  /-- the zone, in nanoseconds from UTC -/
  zone : Int
  workStart : LocalTime
  workEnd : LocalTime

/-- The constructor, which throws for an empty interval. -/
def TimeSlot.new? (start stop : Int) : Option TimeSlot :=
  if h : start < stop then some ⟨start, stop, h⟩ else none

/-- Intersection with another slot, if non-empty. -/
def TimeSlot.clip (s o : TimeSlot) : Option TimeSlot :=
  TimeSlot.new? (max s.start o.start) (min s.stop o.stop)

/-- Day 0 is a Thursday. -/
def weekend (day : Int) : Bool := 5 ≤ (day + 3) % 7

namespace Participant

variable (p : Participant)

def localDate (x : Int) : Int := (x + p.zone) / 86400000000000

/-- The slots of one day, as long as none is empty. -/
def daySlots (day : Int) : Option (List TimeSlot) :=
  let dayStart := day * 86400000000000 - p.zone
  let dayEnd := (day + 1) * 86400000000000 - p.zone
  if weekend day then do return [← TimeSlot.new? dayStart dayEnd]
  else do
    return [← TimeSlot.new? dayStart (dayStart + p.workStart),
      ← TimeSlot.new? (dayStart + p.workEnd) dayEnd]

/-- `n` iterations of the loop. -/
def offHoursFrom (window : TimeSlot) : Nat → Int → Option (List TimeSlot)
  | 0, _ => some []
  | n + 1, day => do
    return (← p.daySlots day).filterMap (·.clip window) ++ (← offHoursFrom window n (day + 1))

def offHours (window : TimeSlot) : Option (List TimeSlot) :=
  let day := p.localDate window.start - 1
  let last := p.localDate window.stop + 1
  p.offHoursFrom window (last + 1 - day).toNat day

/-- An instant in working hours. -/
def Working (x : Int) : Prop :=
  weekend (p.localDate x) = false ∧
    p.workStart ≤ x + p.zone - p.localDate x * 86400000000000 ∧
    x + p.zone - p.localDate x * 86400000000000 < p.workEnd

end Participant

def TimeSlot.Has (s : TimeSlot) (x : Int) : Prop := s.start ≤ x ∧ x < s.stop

theorem TimeSlot.new?_eq {start stop : Int} (h : start < stop) :
    TimeSlot.new? start stop = some ⟨start, stop, h⟩ := dif_pos h

theorem TimeSlot.clip_has {s o : TimeSlot} {x : Int} :
    (∃ c, s.clip o = some c ∧ c.Has x) ↔ s.Has x ∧ o.Has x := by
  rw [TimeSlot.clip, TimeSlot.new?]
  constructor
  · rintro ⟨c, hc, hx⟩
    split at hc
    · cases hc
      simp only [TimeSlot.Has] at hx ⊢
      omega
    · cases hc
  · rintro ⟨⟨hs, hs'⟩, ho, ho'⟩
    have hlt : max s.start o.start < min s.stop o.stop := by omega
    rw [dif_pos hlt]
    exact ⟨_, rfl, max_le hs ho, lt_min hs' ho'⟩

namespace Participant

variable {p : Participant} {window : TimeSlot} {day d : Int} {n : Nat}

theorem daySlots_covers (day : Int) (hstart : 0 < (p.workStart : Nat))
    (hend : p.workStart < p.workEnd) :
    ∃ slots, p.daySlots day = some slots ∧
      ∀ x, (∃ s ∈ slots, s.Has x) ↔ p.localDate x = day ∧ ¬ p.Working x := by
  have hlt := p.workEnd.isLt
  have hend : (p.workStart : Nat) < p.workEnd := hend
  simp only [daySlots, Working, localDate]
  by_cases hday : weekend day = true
  · rw [if_pos hday, TimeSlot.new?_eq (by omega)]
    refine ⟨_, rfl, fun x => ?_⟩
    simp only [List.mem_singleton, exists_eq_left, TimeSlot.Has]
    constructor
    · rintro ⟨hlo, hhi⟩
      have hdate : (x + p.zone) / 86400000000000 = day := by omega
      simp [hdate, hday]
    · rintro ⟨hdate, -⟩
      omega
  rw [if_neg hday, TimeSlot.new?_eq (by omega), TimeSlot.new?_eq (by omega)]
  refine ⟨_, rfl, fun x => ?_⟩
  simp only [List.mem_cons, List.not_mem_nil, or_false, exists_eq_or_imp, exists_eq_left,
    TimeSlot.Has]
  rw [Bool.not_eq_true] at hday
  constructor
  · intro hx
    have hdate : (x + p.zone) / 86400000000000 = day := by omega
    rw [hdate]
    exact ⟨rfl, by omega⟩
  · rintro ⟨rfl, hout⟩
    have hout : ¬ (_ ∧ _) := fun h => hout ⟨hday, h⟩
    omega

theorem offHoursFrom_covers (window : TimeSlot) (n : Nat) (day : Int)
    (hstart : 0 < (p.workStart : Nat)) (hend : p.workStart < p.workEnd) :
    ∃ slots, p.offHoursFrom window n day = some slots ∧ ∀ x, (∃ s ∈ slots, s.Has x) ↔
      window.Has x ∧ day ≤ p.localDate x ∧ p.localDate x < day + n ∧ ¬ p.Working x := by
  induction n generalizing day with
  | zero => exact ⟨[], rfl, fun x => by simp; omega⟩
  | succ n ih =>
    obtain ⟨slots, hslots, hcovers⟩ := daySlots_covers day hstart hend
    obtain ⟨rest, hrest, hrestCovers⟩ := ih (day + 1)
    refine ⟨_, by rw [offHoursFrom, hslots, hrest]; rfl, fun x => ?_⟩
    have hfirst : (∃ s ∈ slots.filterMap (·.clip window), s.Has x) ↔
        window.Has x ∧ p.localDate x = day ∧ ¬ p.Working x := by
      rw [and_comm, ← hcovers x]
      constructor
      · rintro ⟨c, hc, hx⟩
        obtain ⟨s, hs, hclip⟩ := List.mem_filterMap.mp hc
        obtain ⟨hsx, hwx⟩ := TimeSlot.clip_has.mp ⟨c, hclip, hx⟩
        exact ⟨⟨s, hs, hsx⟩, hwx⟩
      · rintro ⟨⟨s, hs, hsx⟩, hwx⟩
        obtain ⟨c, hclip, hx⟩ := TimeSlot.clip_has.mpr ⟨hsx, hwx⟩
        exact ⟨c, List.mem_filterMap.mpr ⟨s, hs, hclip⟩, hx⟩
    simp only [List.mem_append, or_and_right, exists_or, hfirst, hrestCovers]
    constructor
    · rintro (⟨hx, hdate, hout⟩ | ⟨hx, hlo, hhi, hout⟩)
      · exact ⟨hx, by omega, by omega, hout⟩
      · exact ⟨hx, by omega, by omega, hout⟩
    · rintro ⟨hx, hlo, hhi, hout⟩
      obtain hdate | hdate := eq_or_lt_of_le hlo
      · exact .inl ⟨hx, hdate.symm, hout⟩
      · exact .inr ⟨hx, by omega, by omega, hout⟩

theorem offHoursFrom_none (hd : p.daySlots d = none) (hlo : day ≤ d) (hhi : d < day + n) :
    p.offHoursFrom window n day = none := by
  induction n generalizing day with
  | zero => omega
  | succ n ih =>
    obtain rfl | hlt := eq_or_lt_of_le hlo
    · rw [offHoursFrom, hd]
      rfl
    · rw [offHoursFrom, ih (by omega) (by omega)]
      cases p.daySlots day <;> rfl

end Participant

end InterviewPrep.Meetings
