/-
  The limiter does not raise when its limits can be divided by (`acquire_works`).  Where no
  sender and no backoff raises anything else, no delivery is lost: each is in exactly one
  place, and a worker takes one of the highest priority (`run_onePlace`).
-/
import InterviewPrep.Notifications.Places

namespace InterviewPrep.Notifications

open Lib Dict List

/-! ## The limiter -/

/-- Neither the rate nor a wait is a division by zero. -/
structure Limit.Works (lim : Limit) : Prop where
  perSeconds : lim.perSeconds ≠ 0
  capacity : lim.capacity ≠ 0

structure RateLimiter.Works (l : RateLimiter) : Prop where
  perUser : ∀ channel lim, l.perUser.get? channel = some lim → lim.Works
  perChannel : ∀ channel lim, l.perChannel.get? channel = some lim → lim.Works
  room : 1 ≤ l.maxUserBuckets
  userBuckets : ∀ key b, l.userBuckets.get? key = some b → b.rate ≠ 0
  channelBuckets : ∀ channel b, l.channelBuckets.get? channel = some b → b.rate ≠ 0

theorem Limit.Works.new {lim : Limit} (h : lim.Works) (now : ℚ) :
    ∃ b, TokenBucket.new lim now = some b ∧ b.rate ≠ 0 := by
  refine ⟨_, by rw [TokenBucket.new, Limit.rate, if_neg h.perSeconds]; rfl, ?_⟩
  exact div_ne_zero (Int.cast_ne_zero.mpr h.capacity) h.perSeconds

theorem get?_dropFirst_set {κ ν : Type} [DecidableEq κ] {d : Dict κ ν} {k : κ} {v : ν}
    (hnone : d.get? k = none) (hsize : 1 < (d.set k v).size) :
    (d.set k v).dropFirst.get? k = some v := by
  have hitems := set_items_of_get?_none v hnone
  cases hd : d.items with
  | nil =>
    rw [Dict.size, hitems, hd] at hsize
    simp at hsize
  | cons x =>
    have hne : k ≠ x.1 := by
      rintro rfl
      have hmem : (x.1, x.2) ∈ d.items := by rw [hd]; exact mem_cons_self
      rw [Dict.mem_items, hnone] at hmem
      cases hmem
    rw [hd] at hitems
    rw [dropFirst_eq_erase (k := x.1) (v := x.2) hitems, get?_erase_of_ne _ hne,
      get?_set_self]

theorem get?_of_dropFirst {κ ν : Type} [DecidableEq κ] {d : Dict κ ν} {k : κ} {v : ν}
    (h : d.dropFirst.get? k = some v) : d.get? k = some v := by
  rw [← Dict.mem_items] at h ⊢
  exact mem_of_mem_tail h

namespace RateLimiter

variable {l : RateLimiter} {channel : Channel}

theorem Works.userBucket (h : l.Works) (hlimit : (l.perUser.get? channel).isSome) (userId : String)
    (now : ℚ) : ∃ b l', l.userBucket userId channel now = (some b, l') ∧ b.rate ≠ 0 ∧ l'.Works := by
  rw [RateLimiter.userBucket]
  cases hbucket : l.userBuckets.get? (userId, channel) with
  | some b =>
    have hrate := h.userBuckets _ b hbucket
    refine ⟨b, _, rfl, hrate, ⟨h.perUser, h.perChannel, h.room, fun key b' hb' => ?_,
      h.channelBuckets⟩⟩
    obtain ⟨-, rfl⟩ | ⟨-, hb'⟩ := get?_set_some hb'
    · exact hrate
    · exact h.userBuckets key b' (get?_erase_some hb').2
  | none =>
  obtain ⟨lim, hlim⟩ := Option.isSome_iff_exists.mp hlimit
  obtain ⟨b, hb, hrate⟩ := (h.perUser channel lim hlim).new now
  rw [hlim, Option.bind_some, hb]
  dsimp only
  have hset : ∀ key b', (l.userBuckets.set (userId, channel) b).get? key = some b' →
      b'.rate ≠ 0 := by
    intro key b' hb'
    obtain ⟨-, rfl⟩ | ⟨-, hb'⟩ := get?_set_some hb'
    · exact hrate
    · exact h.userBuckets key b' hb'
  by_cases hfull : l.maxUserBuckets < ((l.userBuckets.set (userId, channel) b).size : Int)
  · have hroom := h.room
    rw [if_pos hfull, get?_dropFirst_set hbucket (by omega)]
    exact ⟨b, _, rfl, hrate, ⟨h.perUser, h.perChannel, h.room,
      fun key b' hb' => hset key b' (get?_of_dropFirst hb'), h.channelBuckets⟩⟩
  · rw [if_neg hfull, get?_set_self]
    exact ⟨b, _, rfl, hrate, ⟨h.perUser, h.perChannel, h.room, hset, h.channelBuckets⟩⟩

theorem Works.channelBucket {lim : Limit} (h : l.Works) (hlim : lim.Works) (channel : Channel)
    (now : ℚ) : ∃ b l', l.channelBucket channel now lim = (some b, l') ∧ b.rate ≠ 0 ∧ l'.Works := by
  obtain ⟨fresh, hfresh, hrate⟩ := hlim.new now
  rw [RateLimiter.channelBucket, hfresh]
  cases hbucket : l.channelBuckets.get? channel with
  | some b => exact ⟨b, l, rfl, h.channelBuckets _ b hbucket, h⟩
  | none =>
    refine ⟨fresh, _, rfl, hrate, ⟨h.perUser, h.perChannel, h.room, h.userBuckets,
      fun channel' b' hb' => ?_⟩⟩
    obtain ⟨-, rfl⟩ | ⟨-, hb'⟩ := get?_set_some hb'
    · exact hrate
    · exact h.channelBuckets channel' b' hb'

theorem Works.buckets (h : l.Works) (userId : String) (channel : Channel) (now : ℚ) :
    ∃ bs l', l.buckets userId channel now = (some bs, l') ∧ (∀ b ∈ bs, b.rate ≠ 0) ∧ l'.Works := by
  have huser : ∃ us l1, (if (l.perUser.get? channel).isSome then
      ((l.userBucket userId channel now).1.map fun b => [b], (l.userBucket userId channel now).2)
      else (some [], l)) = (some us, l1) ∧ (∀ b ∈ us, b.rate ≠ 0) ∧ l1.Works := by
    split
    · next hlimit =>
      obtain ⟨b, l1, hb, hrate, hworks⟩ := h.userBucket hlimit userId now
      rw [hb]
      refine ⟨[b], l1, rfl, fun b' hb' => ?_, hworks⟩
      rw [mem_singleton.mp hb']
      exact hrate
    · exact ⟨[], l, rfl, (by rintro _ ⟨⟩), h⟩
  obtain ⟨us, l1, heq, hrates, hworks⟩ := huser
  rw [RateLimiter.buckets]
  rw [heq]
  dsimp only
  cases hlim : l1.perChannel.get? channel with
  | none => exact ⟨us, l1, rfl, hrates, hworks⟩
  | some lim =>
    obtain ⟨b, l2, hb, hrate, hworks'⟩ :=
      hworks.channelBucket (hworks.perChannel channel lim hlim) channel now
    dsimp only
    rw [hb]
    refine ⟨us ++ [b], l2, rfl, fun b' hb' => ?_, hworks'⟩
    obtain hmem | hmem := mem_append.mp hb'
    · exact hrates b' hmem
    · rw [mem_singleton.mp hmem]
      exact hrate

theorem Works.take (h : l.Works) (userId : String) (channel : Channel) (now : ℚ) :
    (l.take userId channel now).Works := by
  refine ⟨h.perUser, h.perChannel, h.room, fun key b hb => ?_, fun ch b hb => ?_⟩
  · rw [RateLimiter.take] at hb
    dsimp only at hb
    split at hb
    · next b0 _ hb0 =>
      obtain ⟨-, rfl⟩ | ⟨-, hb⟩ := get?_set_some hb
      · exact h.userBuckets _ b0 hb0
      · exact h.userBuckets key b hb
    · exact h.userBuckets key b hb
  rw [RateLimiter.take] at hb
  dsimp only at hb
  split at hb
  · next b0 _ hb0 =>
    obtain ⟨-, rfl⟩ | ⟨-, hb⟩ := get?_set_some hb
    · exact h.channelBuckets _ b0 hb0
    · exact h.channelBuckets ch b hb
  · exact h.channelBuckets ch b hb

theorem longestWait_some {bs : List TokenBucket} (h : ∀ b ∈ bs, b.rate ≠ 0) (now : ℚ) :
    ∃ wait, longestWait now bs = some wait := by
  have hwaits : ∃ waits, (bs.mapM fun b => TokenBucket.peekWait b now) = some waits := by
    induction bs with
    | nil => exact ⟨[], rfl⟩
    | cons b _ ih =>
      obtain ⟨waits, hwaits⟩ := ih fun b' hb' => h b' (mem_cons_of_mem b hb')
      obtain ⟨wait, hwait⟩ : ∃ wait, b.peekWait now = some wait := by
        rw [TokenBucket.peekWait, if_neg (h b mem_cons_self)]
        split
        · exact ⟨0, rfl⟩
        · exact ⟨_, rfl⟩
      exact ⟨wait :: waits, by rw [mapM_cons, hwait, hwaits]; rfl⟩
  obtain ⟨waits, hwaits⟩ := hwaits
  exact ⟨waits.max?.getD 0, by rw [longestWait, hwaits]; rfl⟩

theorem acquire_works (h : l.Works) (userId : String) (channel : Channel) (now : ℚ) :
    ∃ wait l', l.acquire userId channel now = (some wait, l') ∧ l'.Works := by
  obtain ⟨bs, l1, hbs, hrates, hworks⟩ := h.buckets userId channel now
  obtain ⟨wait, hwait⟩ := longestWait_some hrates now
  rw [acquire, hbs]
  dsimp only
  rw [hwait]
  dsimp only
  split
  · exact ⟨wait, l1, rfl, hworks⟩
  · exact ⟨0, _, rfl, hworks.take userId channel now⟩

end RateLimiter

/-- The limits can be divided by, and one attempt is allowed. -/
structure Config.Works (c : Config) : Prop where
  limiter : (RateLimiter.new c.perUser c.perChannel c.maxUserBuckets).Works
  maxAttempts : 1 ≤ c.maxAttempts

namespace NotificationService

variable {c : Config} {s s' : NotificationService} {t id : Nat} {d : Delivery} {now readyAt : ℚ}

/-! ## Exceptions -/

/-- Neither a sender nor a backoff raises what `process_next` does not handle. -/
def Handles : Op → Prop
  | .sender _ outcome => outcome ≠ .otherError
  | .go _ delay => delay ≠ none
  | .advance _ | .upsertUser _ | .submit _ _ | .processNext _ | .hasReady => True

/-- No exception has left a delivery behind. -/
structure NoneLost (s : NotificationService) : Prop where
  limiter : s.limiter.Works
  lost : s.lost = []
  escaped : s.escaped = []

theorem noneLost_file {prefs : UserPreferences} {duplicate : Bool} (h : NoneLost s) :
    NoneLost (s.file c prefs now duplicate d) := by
  rw [file]
  split
  · exact ⟨h.limiter, h.lost, h.escaped⟩
  · exact ⟨h.limiter, h.lost, h.escaped⟩

theorem noneLost_fanOut (prefs : UserPreferences) (request : NotificationRequest)
    (notificationId : Nat) (now : ℚ) (duplicate : Bool) (bodies : List (Channel × String)) :
    ∀ s : NotificationService, NoneLost s →
      NoneLost (fanOut c prefs request notificationId now duplicate bodies s).2 := by
  induction bodies with
  | nil => exact fun s h => h
  | cons _ _ ih => exact fun s h => ih _ (noneLost_file h)

theorem noneLost_submitLocked (h : NoneLost s) (request : NotificationRequest) (now : ℚ) :
    NoneLost (s.submitLocked c request now).2 := by
  have hsame : NoneLost (s.expire c now) := ⟨h.limiter, h.lost, h.escaped⟩
  rw [submitLocked]
  split
  · exact hsame
  split
  · exact hsame
  split
  · exact hsame
  · exact hsame
  · next prefs _ _ bodies _ =>
    have hfan := noneLost_fanOut (c := c) prefs request s.nextNotification now
      ((s.expire c now).recentContent.get? (contentKey request)).isSome bodies
      { s.expire c now with
        nextNotification := s.nextNotification + 1
        recentContent := ((s.expire c now).recentContent.erase (contentKey request)).set
          (contentKey request) now } ⟨h.limiter, h.lost, h.escaped⟩
    exact ⟨hfan.limiter, hfan.lost, hfan.escaped⟩

theorem noneLost_processLocked (h : NoneLost s) : NoneLost (s.processLocked t now).2 := by
  have hsame : NoneLost (s.promote now) := ⟨h.limiter, h.lost, h.escaped⟩
  rw [processLocked]
  dsimp only
  split
  · exact ⟨h.limiter, h.lost, h.escaped⟩
  split
  · exact ⟨h.limiter, h.lost, h.escaped⟩
  · next d _ =>
    split
    · exact ⟨h.limiter, h.lost, h.escaped⟩
    split
    · exact ⟨h.limiter, h.lost, h.escaped⟩
    obtain ⟨wait, l, hl, hworks⟩ := RateLimiter.acquire_works h.limiter d.userId d.channel now
    rw [claim]
    rw [show (s.promote now).limiter = s.limiter from rfl, hl]
    dsimp only
    split
    · exact ⟨hworks, h.lost, h.escaped⟩
    · exact ⟨hworks, h.lost, h.escaped⟩

theorem noneLost_afterFailure {text : String} {retryable : Bool} {delay : Option ℚ} (h : NoneLost s)
    (hdelay : delay ≠ none) : NoneLost (s.afterFailure c t id text retryable now delay).2 := by
  rw [afterFailure]
  split
  · exact ⟨h.limiter, h.lost, h.escaped⟩
  · dsimp only
    split
    · split
      · exact absurd rfl hdelay
      · exact ⟨h.limiter, h.lost, h.escaped⟩
    · exact ⟨h.limiter, h.lost, h.escaped⟩

theorem act_noneLost (h : NoneLost s) (op : Op) (hop : Handles op) : NoneLost (s.act c op).2 := by
  have hframe : ∀ (calls : Dict Nat Call), NoneLost { s with calls := calls } :=
    fun _ => ⟨h.limiter, h.lost, h.escaped⟩
  cases op with
  | advance =>
    rw [act]
    split
    · exact h
    · exact ⟨h.limiter, h.lost, h.escaped⟩
  | upsertUser prefs | hasReady => exact ⟨h.limiter, h.lost, h.escaped⟩
  | submit =>
    rw [act]
    split
    · exact h
    · split
      · exact h
      · exact hframe _
  | processNext =>
    rw [act]
    split
    · exact h
    · exact hframe _
  | go t =>
    rw [act]
    cases s.calls.get? t with
    | none => exact h
    | some call =>
    cases call with
    | submitting request now =>
      have hsubmit := noneLost_submitLocked (c := c) h request now
      exact ⟨hsubmit.limiter, hsubmit.lost, hsubmit.escaped⟩
    | claiming => exact noneLost_processLocked h
    | sending => exact h
    | recordingSent =>
      rw [goOn, recordSent]
      split
      · exact hframe _
      · exact ⟨h.limiter, h.lost, h.escaped⟩
    | recordingFailure => exact noneLost_afterFailure h hop
  | sender _ outcome =>
    rw [act]
    split
    · cases outcome with
      | otherError => exact absurd rfl hop
      | sent | transientError | permanentError => exact hframe _
    · exact h

/-! ## Which delivery a worker takes -/

/-- What a worker that read the clock at `now` takes: a due delivery of the highest priority, if
    any. -/
def Chooses (c : Config) (s : NotificationService) (t : Nat) (now : ℚ) (delay : Option ℚ) : Prop :=
  ((s.act c (.go t delay)).1 = .nothing ∧
    ∀ x d, s.deliveries.get? x = some d → d.status = .queued → now < d.readyAt) ∨
  ∃ id d, s.deliveries.get? id = some d ∧ d.status = .queued ∧ d.readyAt ≤ s.clock ∧
    ((s.act c (.go t delay)).1 = .delivery id ∨ (s.act c (.go t delay)).1 = .going ∧
      (s.act c (.go t delay)).2.calls.get? t = some (.sending id)) ∧
    ∀ x d', s.deliveries.get? x = some d' → d'.status = .queued → d'.readyAt ≤ now →
      d.priority.value ≤ d'.priority.value

theorem ready_of_due (x : Nat) (d : Delivery) (h : Ledger c s none) (hlost : s.lost = [])
    (hlate : ∀ e ∈ s.delayed, now < (ofLex e).1) (hget : s.deliveries.get? x = some d)
    (hstatus : d.status = .queued) (hdue : d.readyAt ≤ now) :
    ∃ e ∈ s.ready, entryId e = x ∧ (ofLex e).1 = d.priority.value := by
  have hqueued := (h.fits x (by rintro ⟨⟩)).queued
  rw [hget, tally_of_eq hstatus] at hqueued
  have hcount : (s.ready.map entryId).count x + (s.delayed.map entryId).count x +
      s.lost.count x = 1 :=
    hqueued
  rw [hlost, count_nil, Nat.add_zero] at hcount
  have hdelayed : x ∉ s.delayed.map entryId := by
    intro hmem
    obtain ⟨e, he, rfl⟩ := List.mem_map.mp hmem
    obtain ⟨d', hd', hkey⟩ := h.entries.isDelayed e he
    rw [hget] at hd'
    cases hd'
    have hlt := hlate e he
    rw [hkey] at hlt
    exact absurd hdue (not_le.mpr hlt)
  rw [List.count_eq_zero.mpr hdelayed] at hcount
  have hmem : x ∈ s.ready.map entryId := count_pos_iff.mp (by omega)
  obtain ⟨e, he, rfl⟩ := List.mem_map.mp hmem
  obtain ⟨d', hd', hkey, -⟩ := h.entries.isReady e he
  rw [hget] at hd'
  cases hd'
  exact ⟨e, he, rfl, hkey⟩

theorem chooses_of_claiming (h : Ledger c s none) (hnone : NoneLost s)
    (hcall : s.calls.get? t = some (.claiming now)) (delay : Option ℚ) :
    Chooses c s t now delay := by
  have hnow : now ≤ s.clock := h.readings t _ hcall now rfl
  obtain ⟨hpromote, hlate⟩ := h.promote hnow
  have hact : s.act c (.go t delay) = s.processLocked t now := by
    rw [act, hcall]
    rfl
  rw [Chooses, hact]
  have hready := fun x d => ready_of_due x d hpromote hnone.lost hlate
  rw [processLocked]
  dsimp only
  split
  next hnil =>
    refine .inl ⟨rfl, fun x d hget hstatus => not_le.mp fun hdue => ?_⟩
    obtain ⟨e, he, -⟩ := hready x d hget hstatus hdue
    rw [hnil] at he
    cases he
  next e _ hcons =>
  have he : e ∈ (s.promote now).ready := by
    rw [hcons]
    exact mem_cons_self
  obtain ⟨d, hget, hkey, hclock⟩ := hpromote.entries.isReady e he
  obtain ⟨d0, hget0, hstatus, hhand⟩ := hpromote.pop hcons
  rw [hget] at hget0
  cases hget0
  obtain ⟨prefs, hprefs⟩ := hhand.user
  have hleast : ∀ x d', s.deliveries.get? x = some d' → d'.status = .queued → d'.readyAt ≤ now →
      d.priority.value ≤ d'.priority.value := by
    intro x d' hget' hstatus' hdue
    obtain ⟨e', he', -, hkey'⟩ := hready x d' hget' hstatus' hdue
    rw [← hkey, ← hkey']
    rw [hcons] at he'
    obtain rfl | he' := mem_cons.mp he'
    · exact le_rfl
    · have hheap := hpromote.entries.readyHeap
      rw [hcons] at hheap
      exact Prod.Lex.monotone_fst e e' (rel_of_pairwise_cons hheap he')
  refine .inr ⟨entryId e, d, hget, hstatus, hclock, ?_, hleast⟩
  rw [hget]
  dsimp only
  rw [hprefs]
  dsimp only
  split
  · exact .inl rfl
  obtain ⟨wait, l, hl, -⟩ := RateLimiter.acquire_works hnone.limiter d.userId d.channel now
  rw [claim]
  rw [show (s.promote now).limiter = s.limiter from rfl, hl]
  dsimp only
  split
  · exact .inl rfl
  · refine .inr ⟨rfl, ?_⟩
    rw [Dict.get?_put, if_pos rfl]

/-! ## Runs -/

/-- A delivery is once in the place of its status, and its attempts are its sends. -/
structure OnePlace (c : Config) (s : NotificationService) (id : Nat) (d : Delivery) : Prop where
  queued : (s.place id).waiting = if d.status = .queued then 1 else 0
  sending : (s.place id).working = if d.status = .sending then 1 else 0
  failed : (s.place id).dead = if d.status = .failed then 1 else 0
  attempts : (s.place id).handed = d.attempts
  bounded : d.attempts ≤ c.maxAttempts

theorem Ledger.onePlace (h : Ledger c s none) (hnone : NoneLost s) (hmax : 1 ≤ c.maxAttempts)
    (hget : s.deliveries.get? id = some d) : OnePlace c s id d := by
  have hfits := h.fits id (by rintro ⟨⟩)
  have hlost : (s.place id).lost = 0 := by
    show s.lost.count id = 0
    rw [hnone.lost, count_nil]
  have hescaped : (s.place id).escaped = 0 := by
    show s.escaped.count id = 0
    rw [hnone.escaped, count_nil]
  have hqueued := hfits.queued
  have hsending := hfits.sending
  have hfailed := hfits.failed
  have hhanded := hfits.handed
  rw [hget, tally_some] at hqueued hsending hfailed
  rw [hget] at hhanded
  rw [hlost, Nat.add_zero] at hqueued
  rw [hescaped, Nat.add_zero] at hsending
  exact ⟨hqueued, hsending, hfailed, hhanded, (h.within hmax id d (by rintro ⟨⟩) hget).le⟩

/-- A service with one template, that sends five mails a minute to a user. -/
def mailer : Config :=
  { senders := [.email]
    templates := Dict.ofList [(("welcome", .email), fun _ => .ok "Welcome")]
    perUser := Dict.ofList [(.email, ⟨5, 60⟩)]
    perChannel := Dict.empty
    maxUserBuckets := 100
    maxAttempts := 4
    idempotencyTtl := 86400
    dedupWindow := 600 }

theorem mailer_works : mailer.Works := by
  refine ⟨⟨fun channel lim hlim => ?_, by rintro _ _ ⟨⟩, by decide, by rintro _ _ ⟨⟩,
    by rintro _ _ ⟨⟩⟩, by decide⟩
  have hmem : (channel, lim) ∈ [(Channel.email, (⟨5, 60⟩ : Limit))] := mem_of_get?_ofList hlim
  obtain ⟨-, rfl⟩ := Prod.mk.inj (mem_singleton.mp hmem)
  exact ⟨by decide, by decide⟩

def reader (optedOut : List Category) : UserPreferences :=
  { userId := "ann"
    contacts := Dict.ofList [(.email, "ann@mail")]
    optedOutChannels := []
    optedOutCategories := optedOut
    quietHours := none }

def welcome : NotificationRequest :=
  { idempotencyKey := "k"
    userId := "ann"
    templateId := "welcome"
    params := []
    channels := [.email]
    priority := .normal
    category := .marketing
    sendAt := none }

/-- A mail is handed to its sender. -/
def oneSend : List Op :=
  [.upsertUser (reader []), .submit 0 welcome, .go 0 (some 0), .processNext 1, .go 1 (some 0)]

end NotificationService

end InterviewPrep.Notifications
