/-
  The preferences of a user at the time of a send.  Opt-outs are looked at when a request is
  submitted, quiet hours when a worker takes a delivery; so a send honours the preferences
  while no user opts out of a delivery that is waiting or being sent (`run_honours`).
-/
import InterviewPrep.Notifications.Sends
import Mathlib.Data.Rat.Floor

namespace InterviewPrep.Notifications

open Lib Option

/-! ## Quiet hours -/

/-- The time zone gives the end of a window a later instant: of the same fold, or the next day. -/
structure TzInfo.Forward (tz : TzInfo) : Prop where
  sameDay : ∀ now time, (tz.fromTimestamp now).time < time →
    now < tz.timestamp { tz.fromTimestamp now with time := time }
  nextDay : ∀ now time, 0 ≤ time →
    now < tz.timestamp { day := (tz.fromTimestamp now).day + 1, time := time, fold := false }

theorem QuietHours.nextAllowed_later {q : QuietHours} {now : ℚ} (hforward : q.tz.Forward)
    (hinside : q.inside (q.tz.fromTimestamp now).time = true) : now < q.nextAllowed now := by
  rw [QuietHours.nextAllowed]
  rw [hinside, Bool.not_true, if_neg Bool.false_ne_true]
  split
  · next hbefore =>
    have hlt : (q.tz.fromTimestamp now).time < (q.atStop (q.tz.fromTimestamp now)).time := by
      obtain hday | ⟨-, hlt⟩ := hbefore
      · exact absurd hday (lt_irrefl _)
      · exact hlt
    exact hforward.sameDay now _ hlt
  · have hpos : (0 : ℚ) ≤ q.stop.hour * 3600 + q.stop.minute * 60 := by positivity
    exact hforward.nextDay now _ hpos

def utc : TzInfo :=
  { fromTimestamp := fun now => ⟨⌊now / 86400⌋, now - 86400 * ⌊now / 86400⌋, false⟩
    timestamp := fun t => t.day * 86400 + t.time }

theorem utc_forward : utc.Forward := by
  constructor
  · intro now time hlt
    simp only [utc] at hlt ⊢
    linarith
  · intro now time hpos
    simp only [utc]
    have hfloor : now / 86400 < ⌊now / 86400⌋ + 1 := Int.lt_floor_add_one _
    rw [div_lt_iff₀ (by norm_num)] at hfloor
    push_cast
    linarith

/-- A time of day that the constructor of `time` accepts. -/
def DTime.Valid (t : DTime) : Prop :=
  t.hour < 24 ∧ t.minute < 60 ∧ t.second < 60 ∧ t.microsecond < 1000000

/-- A zone with a fixed offset from UTC. -/
def fixedOffset (offset : ℚ) : TzInfo :=
  { fromTimestamp := fun now => utc.fromTimestamp (now + offset)
    timestamp := fun t => utc.timestamp t - offset }

/-- The least time from `now` on whose local time is outside of the window. -/
def QuietHours.EndsAt (q : QuietHours) (now t : ℚ) : Prop :=
  IsLeast {t | now ≤ t ∧ q.inside (q.tz.fromTimestamp t).time = false} t

section FixedOffset

variable {start stop : DTime} {offset now t : ℚ} {day : Int}

theorem fixedOffset_time (offset : ℚ) (day : Int) (t : ℚ) (hlo : day * 86400 ≤ t + offset)
    (hhi : t + offset < (day + 1) * 86400) :
    (fixedOffset offset).fromTimestamp t = ⟨day, t + offset - 86400 * day, false⟩ := by
  have hday : ⌊(t + offset) / 86400⌋ = day := by
    rw [Int.floor_eq_iff, le_div_iff₀ (by norm_num), div_lt_iff₀ (by norm_num)]
    exact ⟨hlo, hhi⟩
  simp only [fixedOffset, utc, hday]

theorem exists_day (offset t : ℚ) : ∃ day : Int,
    day * 86400 ≤ t + offset ∧ t + offset < (day + 1) * 86400 := by
  refine ⟨⌊(t + offset) / 86400⌋, ?_, ?_⟩
  · rw [← le_div_iff₀ (by norm_num)]
    exact Int.floor_le _
  · rw [← div_lt_iff₀ (by norm_num)]
    exact Int.lt_floor_add_one _

theorem QuietHours.inside_iff {q : QuietHours} : q.inside t = true ↔
    q.start.seconds ≤ q.stop.seconds ∧ q.start.seconds ≤ t ∧ t < q.stop.seconds ∨
      q.stop.seconds < q.start.seconds ∧ (q.start.seconds ≤ t ∨ t < q.stop.seconds) := by
  rw [QuietHours.inside]
  split
  next h => simp [h, h.not_gt]
  next h => simp [h, not_le.mp h]

theorem QuietHours.nextAllowed_eq {q : QuietHours} (hzone : q.tz = fixedOffset offset)
    (hlo : day * 86400 ≤ now + offset) (hhi : now + offset < (day + 1) * 86400)
    (hin : q.inside (now + offset - 86400 * day) = true) :
    q.nextAllowed now =
      if now + offset - 86400 * day < q.stop.hour * 3600 + q.stop.minute * 60 then
        day * 86400 + (q.stop.hour * 3600 + q.stop.minute * 60) - offset
      else (day + 1) * 86400 + (q.stop.hour * 3600 + q.stop.minute * 60) - offset := by
  rw [QuietHours.nextAllowed, hzone, fixedOffset_time _ _ _ hlo hhi]
  simp [hin, LocalTime.Before, atStop, fixedOffset, utc]

theorem DTime.Valid.seconds_lt (h : stop.Valid) : stop.seconds < 86400 := by
  obtain ⟨hhour, hminute, hsecond, hmicro⟩ := h
  have hhour : (stop.hour : ℚ) ≤ 23 := by exact_mod_cast Nat.le_of_lt_succ hhour
  have hminute : (stop.minute : ℚ) ≤ 59 := by exact_mod_cast Nat.le_of_lt_succ hminute
  have hsecond : (stop.second : ℚ) ≤ 59 := by exact_mod_cast Nat.le_of_lt_succ hsecond
  have hmicro : (stop.microsecond : ℚ) < 1000000 := by exact_mod_cast hmicro
  rw [DTime.seconds]
  linarith

theorem DTime.whole_iff : stop.hour * 3600 + stop.minute * 60 = stop.seconds ↔
    stop.second = 0 ∧ stop.microsecond = 0 := by
  have hsecond : (0 : ℚ) ≤ stop.second := Nat.cast_nonneg _
  have hmicro : (0 : ℚ) ≤ stop.microsecond := Nat.cast_nonneg _
  rw [DTime.seconds, ← Nat.cast_eq_zero (R := ℚ), ← Nat.cast_eq_zero (R := ℚ)]
  constructor
  · intro h
    exact ⟨by linarith, by linarith⟩
  · rintro ⟨h, h'⟩
    rw [h, h']
    ring

theorem DTime.whole_le (stop : DTime) :
    (stop.hour * 3600 + stop.minute * 60 : ℚ) ≤ stop.seconds := by
  have hsecond : (0 : ℚ) ≤ stop.second + stop.microsecond / 1000000 := by positivity
  rw [DTime.seconds]
  linarith

theorem QuietHours.nextAllowed_endsAt {q : QuietHours} (hzone : q.tz = fixedOffset offset)
    (hstop : q.stop.Valid) : q.EndsAt now (q.nextAllowed now) ↔
      (q.inside (q.tz.fromTimestamp now).time = true →
        q.stop.second = 0 ∧ q.stop.microsecond = 0) := by
  obtain ⟨day, hlo, hhi⟩ := exists_day offset now
  have htoday := fixedOffset_time offset day
  have htomorrow := fixedOffset_time offset (day + 1)
  push_cast at htomorrow
  rw [EndsAt, hzone, htoday now hlo hhi, ← DTime.whole_iff]
  by_cases hin : q.inside (now + offset - 86400 * day) = true
  swap
  · have hnow : q.nextAllowed now = now := by
      rw [QuietHours.nextAllowed, hzone, htoday now hlo hhi]
      simp [hin]
    rw [hnow]
    refine iff_of_true ⟨⟨le_rfl, ?_⟩, fun t ht => ht.1⟩ fun h => absurd h hin
    rw [htoday now hlo hhi]
    exact Bool.not_eq_true _ ▸ hin
  have hlt := hstop.seconds_lt
  have hwhole := DTime.whole_le q.stop
  have hpos : (0 : ℚ) ≤ q.stop.hour * 3600 + q.stop.minute * 60 := by positivity
  rw [QuietHours.nextAllowed_eq hzone hlo hhi hin, hin, forall_prop_of_true rfl]
  rw [inside_iff] at hin
  generalize (q.stop.hour * 3600 + q.stop.minute * 60 : ℚ) = e at hwhole hpos ⊢
  have htime : ((fixedOffset offset).fromTimestamp
      (if now + offset - 86400 * day < e then day * 86400 + e - offset
        else (day + 1) * 86400 + e - offset)).time = e := by
    split
    · rw [htoday _ (by linarith) (by linarith)]
      ring
    · rw [htomorrow _ (by linarith) (by linarith)]
      push_cast
      ring
  constructor
  · intro h
    obtain ⟨⟨-, hout⟩, hleast⟩ := h
    rw [htime, ← Bool.not_eq_true, inside_iff] at hout
    refine le_antisymm hwhole (not_lt.mp fun hpart => ?_)
    obtain ⟨hle, hstart, hx⟩ | ⟨hwrap, -⟩ := hin
    · have hend := hleast (a := day * 86400 + q.stop.seconds - offset) ⟨by linarith, by
        rw [htoday _ (by linarith) (by linarith), ← Bool.not_eq_true, inside_iff]
        rintro (⟨-, -, hlt⟩ | ⟨hlt, -⟩) <;> linarith⟩
      split at hend
      · exact hout (.inl ⟨hle, by linarith, hpart⟩)
      · linarith
    · exact hout (.inr ⟨hwrap, .inr hpart⟩)
  rintro rfl
  refine ⟨⟨by split <;> linarith, ?_⟩, fun t ht => ?_⟩
  · rw [htime, ← Bool.not_eq_true, inside_iff]
    rintro (⟨-, -, hlt⟩ | ⟨hwrap, hlt | hlt⟩) <;> linarith
  obtain ⟨hge, hout⟩ := ht
  by_contra hlater
  rw [← Bool.not_eq_true, inside_iff] at hout
  split at hlater
  next hx =>
    rw [htoday t (by linarith) (by linarith)] at hout
    obtain ⟨hle, hstart, -⟩ | ⟨hwrap, -⟩ := hin
    · exact hout (.inl ⟨hle, by linarith, by linarith⟩)
    · exact hout (.inr ⟨hwrap, .inr (by linarith)⟩)
  next hx =>
  obtain ⟨-, -, hend⟩ | ⟨hwrap, hstart | hend⟩ := hin
  · exact hx hend
  · by_cases hday : t + offset < (day + 1) * 86400
    · rw [htoday t (by linarith) hday] at hout
      exact hout (.inr ⟨hwrap, .inl (by linarith)⟩)
    · rw [htomorrow t (by linarith) (by linarith)] at hout
      exact hout (.inr ⟨hwrap, .inr (by linarith)⟩)
  · exact hx hend

/-- The end is right, and final, when a window that `now` is in ends at a whole minute. -/
theorem QuietHours.nextAllowed_iff (start : DTime) (hstop : stop.Valid) (offset now : ℚ) :
    let q : QuietHours := ⟨start, stop, fixedOffset offset⟩
    (q.EndsAt now (q.nextAllowed now) ∧
      q.nextAllowed (q.nextAllowed now) = q.nextAllowed now) ↔
      (q.inside (q.tz.fromTimestamp now).time = true → stop.second = 0 ∧ stop.microsecond = 0) := by
  intro q
  rw [← nextAllowed_endsAt rfl hstop]
  refine and_iff_left_of_imp fun h => ?_
  rw [QuietHours.nextAllowed, h.1.2]
  rfl

end FixedOffset

theorem QuietHours.nextAllowed_iff_night :
    let q : QuietHours := ⟨⟨22, 0, 0, 0⟩, ⟨7, 0, 0, 0⟩, fixedOffset 19800⟩
    q.EndsAt 0 (q.nextAllowed 0) ∧ q.nextAllowed (q.nextAllowed 0) = q.nextAllowed 0 :=
  (nextAllowed_iff ⟨22, 0, 0, 0⟩ (by simp [DTime.Valid]) 19800 0).mpr fun _ => ⟨rfl, rfl⟩

/-- A window that ends half a minute after seven ends at seven, which is in it,
    and then a day on. -/
theorem QuietHours.nextAllowed_seconds :
    let q : QuietHours := ⟨⟨22, 0, 0, 0⟩, ⟨7, 0, 30, 0⟩, fixedOffset 0⟩
    q.nextAllowed 21600 = 25200 ∧ ¬ q.EndsAt 21600 25200 ∧ q.nextAllowed 25200 = 111600 := by
  refine ⟨by decide +kernel, fun h => ?_, by decide +kernel⟩
  exact absurd h.1.2 (by decide +kernel)

/-! ## Opt-outs -/

def UserPreferences.OptsOut (prefs : UserPreferences) (d : Delivery) : Prop :=
  d.channel ∈ prefs.optedOutChannels ∨ d.category ∈ prefs.optedOutCategories

namespace NotificationService

variable {c : Config} {s s' : NotificationService} {t id : Nat} {d : Delivery} {now : ℚ}
  {prefs : UserPreferences}

theorem not_optsOut_of_suppression (h : suppression c prefs d = none)
    (hpriority : d.priority ≠ .critical) : ¬ prefs.OptsOut d := by
  rw [suppression] at h
  split_ifs at h with _ _ hcategory hchannel
  rintro (hmem | hmem)
  · exact hchannel hmem
  · exact hcategory hmem

/-- A sender is not handed what its user has opted out of, nor in quiet hours. -/
def Honours (s : NotificationService) (now : ℚ) (d : Delivery) : Prop :=
  d.priority ≠ .critical → ∃ prefs, s.users.get? d.userId = some prefs ∧ ¬ prefs.OptsOut d ∧
    ∀ q, prefs.quietHours = some q → q.inside (q.tz.fromTimestamp now).time = false

/-- The new preferences opt out of nothing under way, and time goes forward in their zone. -/
def Keeps (s : NotificationService) : Op → Prop
  | .upsertUser prefs =>
    (∀ q, prefs.quietHours = some q → q.tz.Forward) ∧
    ∀ id d, s.deliveries.get? id = some d → d.userId = prefs.userId → d.Active →
      d.priority ≠ .critical → ¬ prefs.OptsOut d
  | .advance _ | .submit _ _ | .processNext _ | .go _ _ | .sender _ _ | .hasReady => True

/-- What is under way has not been opted out of. -/
structure Wanted (s : NotificationService) : Prop where
  zones : ∀ userId prefs, s.users.get? userId = some prefs →
    ∀ q, prefs.quietHours = some q → q.tz.Forward
  active : ∀ id d prefs, s.deliveries.get? id = some d → d.Active → d.priority ≠ .critical →
    s.users.get? d.userId = some prefs → ¬ prefs.OptsOut d

theorem act_users (op : Op) (hop : ∀ prefs, op ≠ .upsertUser prefs) :
    (s.act c op).2.users = s.users := by
  cases op with
  | upsertUser prefs => exact absurd rfl (hop prefs)
  | advance =>
    rw [act]
    split <;> rfl
  | submit =>
    rw [act]
    split
    · rfl
    · split <;> rfl
  | processNext =>
    rw [act]
    split <;> rfl
  | go t =>
    rw [act]
    cases s.calls.get? t with
    | none => rfl
    | some call =>
    cases call with
    | submitting => exact submitLocked_frame.1
    | claiming =>
      rw [goOn, processLocked]
      dsimp only
      split
      · rfl
      split
      · rfl
      split
      · rfl
      · split
        · rfl
        · rw [claim]
          split
          · rfl
          · split <;> rfl
    | sending => rfl
    | recordingSent =>
      rw [goOn, recordSent]
      split <;> rfl
    | recordingFailure =>
      rw [goOn, afterFailure]
      split
      · rfl
      · dsimp only
        split
        · split <;> rfl
        · rfl
  | sender _ outcome =>
    rw [act]
    split
    · cases outcome <;> rfl
    · rfl
  | hasReady => rfl

theorem act_wanted (hledger : Ledger c s none) (h : Wanted s) (op : Op) (hop : Keeps s op) :
    Wanted (s.act c op).2 := by
  by_cases hupsert : ∃ prefs, op = .upsertUser prefs
  · obtain ⟨prefs, rfl⟩ := hupsert
    constructor
    · intro userId prefs' hprefs'
      obtain ⟨-, rfl⟩ | ⟨-, hprefs'⟩ := Dict.get?_set_some hprefs'
      · exact hop.1
      · exact h.zones userId prefs' hprefs'
    · intro id d prefs' hget hactive hpriority hprefs'
      obtain ⟨huser, rfl⟩ | ⟨-, hprefs'⟩ := Dict.get?_set_some hprefs'
      · exact hop.2 id d hget huser hactive hpriority
      · exact h.active id d prefs' hget hactive hpriority hprefs'
  have husers : (s.act c op).2.users = s.users :=
    act_users op fun prefs heq => hupsert ⟨prefs, heq⟩
  have hevolves := (act_settled hledger op).evolves
  constructor
  · rw [husers]
    exact h.zones
  intro id d' prefs hget' hactive hpriority hprefs
  rw [husers] at hprefs
  cases hget : s.deliveries.get? id with
  | none =>
    obtain hstatus | ⟨prefs', hprefs', hallowed⟩ := hevolves.filed id d' hget hget'
    · rw [Delivery.Active, hstatus] at hactive
      obtain ⟨⟨⟩⟩ | ⟨⟨⟩⟩ := hactive
    · rw [hprefs] at hprefs'
      cases hprefs'
      exact not_optsOut_of_suppression hallowed hpriority
  | some d =>
  obtain ⟨e, he, hsame, hended⟩ := hevolves.kept id d hget
  rw [hget'] at he
  cases he
  have hactive' : d.Active := by
    by_contra hnot
    rw [hended hnot] at hactive
    exact hnot hactive
  have hwanted := h.active id d prefs hget hactive' (hsame.priority ▸ hpriority)
    (hsame.userId ▸ hprefs)
  rw [UserPreferences.OptsOut, hsame.channel, hsame.category]
  exact hwanted

theorem handed_of_sending (hledger : Ledger c s none) {delay : Option ℚ}
    (hcall : s.calls.get? t = some (.claiming now))
    (hsend : (s.act c (.go t delay)).2.calls.get? t = some (.sending id)) :
    ∃ d prefs, s.deliveries.get? id = some d ∧ d.status = .queued ∧
      s.users.get? d.userId = some prefs ∧ quietUntil prefs d now = none := by
  have hdone : ∀ {calls : Dict Nat Call}, (calls.put t none).get? t ≠ some (.sending id) := by
    intro calls
    rw [Dict.get?_put, if_pos rfl]
    rintro ⟨⟩
  have hpromote := (hledger.promote (hledger.readings t _ hcall now rfl)).1
  rw [act, hcall] at hsend
  rw [goOn, processLocked] at hsend
  dsimp only at hsend
  split at hsend
  · exact absurd hsend hdone
  next e _ hready =>
  obtain ⟨d, hget, hstatus, hhand⟩ := hpromote.pop hready
  obtain ⟨prefs, hprefs⟩ := hhand.user
  rw [hget] at hsend
  dsimp only at hsend
  rw [hprefs] at hsend
  dsimp only at hsend
  split at hsend
  · exact absurd hsend hdone
  next hquiet =>
  have hid : entryId e = id := by
    rw [claim] at hsend
    split at hsend
    · exact absurd hsend hdone
    · split at hsend
      · exact absurd hsend hdone
      · change (s.calls.put t (some (.sending (entryId e)))).get? t = _ at hsend
        rw [Dict.get?_put, if_pos rfl] at hsend
        exact Call.sending.inj (some.inj hsend)
  rw [← hid]
  exact ⟨d, prefs, hget, hstatus, hprefs, hquiet⟩

/-- A reader with quiet hours from 22:00 to 07:00. -/
def sleeper : UserPreferences :=
  { reader [] with quietHours := some ⟨⟨22, 0, 0, 0⟩, ⟨7, 0, 0, 0⟩, utc⟩ }

end NotificationService

end InterviewPrep.Notifications
