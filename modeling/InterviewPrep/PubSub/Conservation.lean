/-
  Where the messages of a subscription go.  Each class of messages is what the events of the
  run say (`history`), so that the counters and the queue are compared with what has
  happened; `Conserved` is kept by every step (`step_conserved`).  A message is lost when
  `dispatch_one` raises, which no step does that is `Contained`.
-/
import InterviewPrep.Lib.Totals
import InterviewPrep.PubSub.Broker
import Mathlib.Data.List.Flatten

namespace InterviewPrep.PubSub

open Lib List

/-! ## What the events say -/

namespace Event

def offers : Event → List Message
  | offered message => [message]
  | _ => []

def refuses : Event → List Message
  | refused message => [message]
  | _ => []

def enqueues : Event → List Entry
  | enqueued entry => [entry]
  | _ => []

def overflows : Event → List Message
  | overflowed message => [message]
  | _ => []

def attempts : Event → List Entry
  | attempted entry _ => [entry]
  | _ => []

def succeeds : Event → List Entry
  | attempted entry true => [entry]
  | _ => []

def delivers : Event → List Entry
  | delivered entry => [entry]
  | _ => []

/-- Of an item that was queued. -/
def buries : Event → List Entry
  | deadLettered (some entry) _ => [entry]
  | _ => []

def buriesOverflow : Event → List Message
  | deadLettered none letter => [letter.message]
  | _ => []

def letters : Event → List DeadLetter
  | deadLettered _ letter => [letter]
  | _ => []

def records : Event → List DeadLetter
  | recorded letter => [letter]
  | _ => []

/-- Of an item that `dispatch_one` had taken when it raised. -/
def escapes : Event → List Entry
  | escaped entry => [entry]
  | _ => []

def discards : Event → List Entry
  | discarded entries => entries
  | _ => []

end Event

attribute [simp] Event.offers Event.refuses Event.enqueues Event.overflows Event.attempts
  Event.succeeds Event.delivers Event.buries Event.buriesOverflow Event.letters Event.records
  Event.escapes Event.discards

/-- What the events say, oldest first. -/
def history {α : Type} (f : Event → List α) (events : List Event) : List α := events.flatMap f

@[simp] theorem history_nil {α : Type} (f : Event → List α) : history f [] = [] := rfl

@[simp] theorem history_concat {α : Type} (f : Event → List α) (events : List Event)
    (event : Event) : history f (events ++ [event]) = history f events ++ f event := by
  simp [history]

/-! ## One step -/

namespace Subscription

variable {s s' : Subscription} {a : SubscriptionStep} {event : Event} {events : List Event}
  {entry : Entry}

/-- The step lets nothing out of `dispatch_one`: the subscriber raises an `Exception` at most, the
    delay before another attempt is in range, and the sleeper returns. -/
def contained (s : Subscription) : SubscriptionStep → Bool
  | .dispatch reply =>
    match s.dispatcher, reply with
    | .calling _ _, .exited => false
    | .calling _ attempt, .raised _ =>
      attempt = s.retry.maxAttempts || (s.retry.delay attempt).isSome
    | .waiting _ _, reply => reply = .returned
    | _, _ => true
  | _ => true

/-- What a step does. -/
inductive Stepped (s : Subscription) (a : SubscriptionStep) : Event → Subscription → Prop
  | filtered (message : Message) : Stepped s a (.filtered message) s
  | offered (call : Nat) (message : Message) (hcall : s.offers.get? call = none) :
      Stepped s a (.offered message) { s with offers := s.offers.set call (.accepting message) }
  | refused (call : Nat) (message : Message)
      (hcall : s.offers.get? call = some (.accepting message)) (hclosed : s.closed = true) :
      Stepped s a (.refused message) { s with offers := s.offers.erase call }
  | overflowed (call : Nat) (message : Message)
      (hcall : s.offers.get? call = some (.accepting message)) (hopen : s.closed = false) :
      Stepped s a (.overflowed message)
        { s with offers := s.offers.set call (.overflowing message) }
  | enqueued (call : Nat) (message : Message)
      (hcall : s.offers.get? call = some (.accepting message)) (hopen : s.closed = false)
      (hroom : s.heap.length < s.maxQueue) :
      Stepped s a (.enqueued ⟨s.seq, message⟩) { s with
        heap := heappushBy Entry.key s.heap ⟨s.seq, message⟩
        seq := s.seq + 1
        offers := s.offers.erase call }
  | overflowDead (call : Nat) (message : Message)
      (hcall : s.offers.get? call = some (.overflowing message)) :
      Stepped s a (.deadLettered none (s.deadLetter message .overflow "queue full")) { s with
        deadLettered := s.deadLettered + 1
        offers := s.offers.set call
          (.recording (s.deadLetter message .overflow "queue full")) }
  | overflowRecorded (call : Nat) (letter : DeadLetter)
      (hcall : s.offers.get? call = some (.recording letter)) :
      Stepped s a (.recorded letter) { s with offers := s.offers.erase call }
  | nothing : Stepped s a .nothing s
  | taken (entry : Entry) (rest : List Entry) (hidle : s.dispatcher = .idle)
      (hopen : s.closed = false) (hheap : s.heap = entry :: rest) :
      Stepped s a (.taken entry) { s with
        heap := rest
        inFlight := s.inFlight + 1
        dispatcher := .calling entry 1 }
  | returned (entry : Entry) (attempt : Nat) (hat : s.dispatcher = .calling entry attempt) :
      Stepped s a (.attempted entry true) { s with dispatcher := .delivering entry }
  | raisedLast (entry : Entry) (attempt : Nat) (error : String)
      (hat : s.dispatcher = .calling entry attempt) (hlast : attempt = s.retry.maxAttempts) :
      Stepped s a (.attempted entry false) { s with dispatcher := .dying entry error }
  | raised (entry : Entry) (attempt : Nat) (hat : s.dispatcher = .calling entry attempt)
      (hleft : attempt ≠ s.retry.maxAttempts) :
      Stepped s a (.attempted entry false) { s with dispatcher := .waiting entry attempt }
  | uncaught (entry : Entry) (attempt : Nat) (hat : s.dispatcher = .calling entry attempt)
      (hlets : s.contained a = false) :
      Stepped s a (.attempted entry false) { s with dispatcher := .raising entry }
  | delivered (entry : Entry) (hat : s.dispatcher = .delivering entry) :
      Stepped s a (.delivered entry)
        { s with delivered := s.delivered + 1, dispatcher := .finishing }
  | interrupted (entry : Entry) (attempt : Nat) (hat : s.dispatcher = .waiting entry attempt)
      (hlets : s.contained a = false) :
      Stepped s a (.woken entry) { s with dispatcher := .raising entry }
  | stopped (entry : Entry) (attempt : Nat) (hat : s.dispatcher = .waiting entry attempt)
      (hclosed : s.closed = true) :
      Stepped s a (.woken entry) { s with dispatcher := .dying entry "closed during retry" }
  | woken (entry : Entry) (attempt : Nat) (hat : s.dispatcher = .waiting entry attempt)
      (hopen : s.closed = false) :
      Stepped s a (.woken entry) { s with dispatcher := .calling entry (attempt + 1) }
  | escaped (entry : Entry) (hat : s.dispatcher = .raising entry) :
      Stepped s a (.escaped entry) { s with inFlight := s.inFlight - 1, dispatcher := .idle }
  | died (entry : Entry) (error : String) (hat : s.dispatcher = .dying entry error) :
      Stepped s a
        (.deadLettered (some entry) (s.deadLetter entry.message .retriesExhausted error)) { s with
        deadLettered := s.deadLettered + 1
        dispatcher := .recording (s.deadLetter entry.message .retriesExhausted error) }
  | recorded (letter : DeadLetter) (hat : s.dispatcher = .recording letter) :
      Stepped s a (.recorded letter) { s with dispatcher := .finishing }
  | finished (hat : s.dispatcher = .finishing) :
      Stepped s a .finished { s with inFlight := s.inFlight - 1, dispatcher := .idle }
  | closed : Stepped s a (.discarded s.heap) { s with closed := true, heap := [] }

theorem resumeOffer_cases {call : Nat} (h : s.resumeOffer call = .ok (event, s')) :
    Stepped s a event s' := by
  unfold resumeOffer at h
  split at h
  next => cases h
  next message hcall =>
    split at h
    next hclosed =>
      cases h
      exact .refused call message hcall hclosed
    next hopen =>
    rw [Bool.not_eq_true] at hopen
    split at h
    next =>
      cases h
      exact .overflowed call message hcall hopen
    next hroom =>
      cases h
      exact .enqueued call message hcall hopen (Nat.not_le.mp hroom)
  next message hcall =>
    cases h
    exact .overflowDead call message hcall
  next letter hcall =>
    cases h
    exact .overflowRecorded call letter hcall

theorem take_cases (hidle : s.dispatcher = .idle) (h : s.take = .ok (event, s')) :
    Stepped s a event s' := by
  unfold take at h
  split at h
  next =>
    cases h
    exact .nothing
  next hopen =>
  rw [Bool.not_eq_true] at hopen
  split at h
  next =>
    cases h
    exact .nothing
  next entry rest hheap =>
    cases h
    exact .taken entry rest hidle hopen hheap

theorem dispatch_cases {reply : Reply} (h : s.dispatch reply = .ok (event, s')) :
    Stepped s (.dispatch reply) event s' := by
  unfold dispatch at h
  split at h
  next hidle => exact take_cases hidle h
  next entry attempt hat =>
    cases reply with
    | returned =>
      cases h
      exact .returned entry attempt hat
    | raised error =>
      cases h
      unfold afterFailure
      by_cases hlast : attempt = s.retry.maxAttempts
      · rw [if_pos hlast]
        exact .raisedLast entry attempt error hat hlast
      rw [if_neg hlast]
      cases hdelay : s.retry.delay attempt with
      | none => exact .uncaught entry attempt hat (by simp [contained, hat, hlast, hdelay])
      | some => exact .raised entry attempt hat hlast
    | exited =>
      cases h
      exact .uncaught entry attempt hat (by simp [contained, hat])
  next entry hat =>
    cases h
    exact .delivered entry hat
  next entry attempt hat =>
    cases h
    by_cases hreply : reply ≠ .returned
    · rw [if_pos hreply]
      exact .interrupted entry attempt hat (by simpa [contained, hat] using hreply)
    rw [if_neg hreply]
    by_cases hclosed : s.closed = true
    · rw [if_pos hclosed]
      exact .stopped entry attempt hat hclosed
    · rw [if_neg hclosed]
      exact .woken entry attempt hat (Bool.not_eq_true _ ▸ hclosed)
  next entry hat =>
    cases h
    exact .escaped entry hat
  next entry error hat =>
    cases h
    exact .died entry error hat
  next letter hat =>
    cases h
    exact .recorded letter hat
  next hat =>
    cases h
    exact .finished hat

/-- A step that is taken is one of `Stepped`, guards included. -/
theorem step_cases (h : s.step a = .ok (event, s')) : Stepped s a event s' := by
  cases a with
  | offer call message =>
    unfold step offer at h
    dsimp only at h
    split at h
    next => cases h
    next hcall =>
    split at h
    next =>
      cases h
      exact .offered call message hcall
    next =>
      cases h
      exact .filtered message
  | resumeOffer => exact resumeOffer_cases h
  | dispatch => exact dispatch_cases h
  | close =>
    cases h
    exact .closed

/-! ## Classes of the state -/

/-- The calls of `offer` that stand at `o`. -/
def offersAt (s : Subscription) (o : Offer) : Nat := s.offers.total fun o' =>
    if o' = o then 1 else 0

/-- The item that the dispatcher has in flight, until it is delivered or dead-lettered, or
    `dispatch_one` raises. -/
def held (s : Subscription) : List Entry :=
  match s.dispatcher with
  | .calling entry _ | .delivering entry | .waiting entry _ | .dying entry _ | .raising entry =>
    [entry]
  | .idle | .recording _ | .finishing => []

/-- The item whose delivery has not been counted yet. -/
def delivering (s : Subscription) : List Entry :=
  match s.dispatcher with
  | .delivering entry => [entry]
  | _ => []

/-- The dead letter that the dispatcher has not handed over yet. -/
def recording (s : Subscription) : List DeadLetter :=
  match s.dispatcher with
  | .recording letter => [letter]
  | _ => []

/-- Every message that the filter let through is refused, queued, dead-lettered for overflow, or
    still with its call of `offer`; a dead letter is handed over once. -/
structure OffersKept (events : List Event) (s : Subscription) : Prop where
  offered : ∀ message, (history Event.offers events).count message =
    (history Event.refuses events).count message +
      ((history Event.enqueues events).map Entry.message).count message +
      (history Event.overflows events).count message + s.offersAt (.accepting message)
  overflowed : ∀ message, (history Event.overflows events).count message =
    (history Event.buriesOverflow events).count message + s.offersAt (.overflowing message)
  letters : ∀ letter, (history Event.letters events).count letter =
    (history Event.records events).count letter + s.offersAt (.recording letter) +
      s.recording.count letter

/-- Every item queued is delivered, dead-lettered, still queued, in flight, discarded, or lost. -/
structure QueueKept (events : List Event) (s : Subscription) : Prop where
  numbered : (history Event.enqueues events).map Entry.seq = List.range s.seq
  queued : ∀ entry, (history Event.enqueues events).count entry =
    (history Event.delivers events).count entry + (history Event.buries events).count entry +
      s.heap.count entry + s.held.count entry + (history Event.discards events).count entry +
      (history Event.escapes events).count entry

theorem offersAt_put {call : Nat} {old : Option Offer} (hcall : s.offers.get? call = old)
    (next : Option Offer) (hoffers : s'.offers = s.offers.put call next) (o : Offer) :
    (if old = some o then 1 else 0) + s'.offersAt o =
      (if next = some o then 1 else 0) + s.offersAt o := by
  have htotal := Dict.total_put hcall next fun o' => if o' = o then 1 else 0
  have helim : ∀ c : Option Offer, (c.elim 0 fun o' => if o' = o then 1 else 0) =
      if c = some o then 1 else 0 := by
    rintro (_ | c)
    · rfl
    · simp
  rw [helim, helim] at htotal
  rw [offersAt, offersAt, hoffers]
  exact htotal

theorem OffersKept.balance (h : OffersKept events s) (gone new : Offer → Nat)
    (hoffers : ∀ o, gone o + s'.offersAt o = new o + s.offersAt o)
    (hoffered : ∀ message, event.offers.count message + gone (.accepting message) =
      event.refuses.count message + (event.enqueues.map Entry.message).count message +
        event.overflows.count message + new (.accepting message))
    (hoverflowed : ∀ message, event.overflows.count message + gone (.overflowing message) =
      event.buriesOverflow.count message + new (.overflowing message))
    (hletters : ∀ letter, event.letters.count letter + gone (.recording letter) +
        s.recording.count letter =
      event.records.count letter + new (.recording letter) + s'.recording.count letter) :
    OffersKept (events ++ [event]) s' := by
  constructor
  · intro message
    have hold := h.offered message
    have hevent := hoffered message
    have hcalls := hoffers (.accepting message)
    simp only [history_concat, count_append, map_append]
    omega
  · intro message
    have hold := h.overflowed message
    have hevent := hoverflowed message
    have hcalls := hoffers (.overflowing message)
    simp only [history_concat, count_append]
    omega
  · intro letter
    have hold := h.letters letter
    have hevent := hletters letter
    have hcalls := hoffers (.recording letter)
    simp only [history_concat, count_append]
    omega

theorem OffersKept.quiet (h : OffersKept events s) (hoffers : s'.offers = s.offers)
    (hmessages : event.offers = [] ∧ event.refuses = [] ∧ event.enqueues = [] ∧
      event.overflows = [] ∧ event.buriesOverflow = [])
    (hletters : ∀ letter, event.letters.count letter + s.recording.count letter =
      event.records.count letter + s'.recording.count letter) :
    OffersKept (events ++ [event]) s' := by
  obtain ⟨hoffered, hrefused, henqueued, hoverflowed, hburied⟩ := hmessages
  apply h.balance (fun _ => 0) (fun _ => 0)
  · intro o
    rw [offersAt, offersAt, hoffers]
  · intro message
    rw [hoffered, hrefused, henqueued, hoverflowed]
    rfl
  · intro message
    rw [hoverflowed, hburied]
  · intro letter
    have hevent := hletters letter
    omega

theorem Stepped.offersKept (hstep : Stepped s a event s') (h : OffersKept events s) :
    OffersKept (events ++ [event]) s' := by
  cases hstep with
  | filtered => exact h.quiet rfl (by simp) (by simp)
  | offered _ message hcall =>
    apply h.balance _ _ (offersAt_put hcall (some (.accepting message)) rfl)
    all_goals intro; simp [recording, count_singleton]
  | refused call message hcall hclosed | enqueued call message hcall hopen hroom
  | overflowRecorded _ _ hcall =>
    apply h.balance _ _ (offersAt_put hcall none rfl)
    all_goals intro; simp [recording, count_singleton]
  | overflowed _ message hcall =>
    apply h.balance _ _ (offersAt_put hcall (some (.overflowing message)) rfl)
    all_goals intro; simp [recording, count_singleton]
  | overflowDead _ message hcall =>
    apply h.balance _ _ (offersAt_put hcall
      (some (.recording (s.deadLetter message .overflow "queue full"))) rfl)
    all_goals intro; simp [recording, count_singleton, deadLetter]
  | nothing => exact h.quiet rfl (by simp) (by simp)
  | taken _ _ hidle => exact h.quiet rfl (by simp) (by simp [recording, hidle])
  | returned entry attempt hat | raised entry attempt hat hleft | uncaught entry attempt hat
  | delivered entry hat | interrupted entry attempt hat | stopped entry attempt hat hclosed
  | woken entry attempt hat hopen | escaped entry hat | died entry error hat
  | recorded letter hat | finished hat => exact h.quiet rfl (by simp) (by simp [recording, hat])
  | raisedLast _ _ _ hat =>
    exact h.quiet rfl (by simp) (by simp [recording, hat])
  | closed => exact h.quiet rfl (by simp) (by simp [recording])

/-! ## The queue -/

theorem QueueKept.balance (h : QueueKept events s)
    (hnumbered : List.range s.seq ++ event.enqueues.map Entry.seq = List.range s'.seq)
    (hqueued : ∀ entry, event.enqueues.count entry + s.heap.count entry + s.held.count entry =
      event.delivers.count entry + event.buries.count entry + s'.heap.count entry +
        s'.held.count entry + event.discards.count entry + event.escapes.count entry) :
    QueueKept (events ++ [event]) s' := by
  constructor
  · rw [history_concat, map_append, h.numbered, hnumbered]
  · intro entry
    have hold := h.queued entry
    have hevent := hqueued entry
    simp only [history_concat, count_append]
    omega

theorem Stepped.queueKept (hstep : Stepped s a event s') (h : QueueKept events s) :
    QueueKept (events ++ [event]) s' := by
  cases hstep with
  | enqueued _ message =>
    apply h.balance
    · simp [range_succ]
    · intro entry
      have hpush := (heappushBy_perm Entry.key s.heap ⟨s.seq, message⟩).count_eq entry
      simp only [Event.enqueues, Event.delivers, Event.buries, Event.discards, Event.escapes, hpush,
        held, count_cons, count_nil]
      omega
  | taken _ _ hidle _ hheap =>
    apply h.balance (by simp)
    intro e
    simp only [hheap, held, hidle, Event.enqueues, Event.delivers, Event.buries, Event.discards,
      Event.escapes, count_cons, count_nil]
    omega
  | closed =>
    apply h.balance (by simp)
    intro e
    simp [held]
    omega
  | returned entry attempt hat | raisedLast entry attempt error hat hlast
  | raised entry attempt hat hleft | uncaught entry attempt hat | interrupted entry attempt hat
  | stopped entry attempt hat hclosed | woken entry attempt hat hopen | escaped entry hat
  | recorded letter hat | finished hat => exact h.balance (by simp) (by simp [held, hat])
  | delivered _ hat | died _ _ hat =>
    apply h.balance (by simp)
    intro e
    simp [held, hat]
    omega
  | _ => exact h.balance (by simp) (by simp [held])

theorem QueueKept.nodup (h : QueueKept events s) : (history Event.enqueues events).Nodup :=
  (h.numbered ▸ nodup_range : ((history Event.enqueues events).map Entry.seq).Nodup).of_map

theorem QueueKept.count_le (h : QueueKept events s) (entry : Entry) :
    (history Event.enqueues events).count entry ≤ 1 :=
  nodup_iff_count_le_one.mp h.nodup entry

theorem QueueKept.seq_lt (h : QueueKept events s) (hmem : entry ∈ history Event.enqueues events) :
    entry.seq < s.seq := by
  have hseq := mem_map_of_mem (f := Entry.seq) hmem
  rw [h.numbered] at hseq
  exact mem_range.mp hseq

theorem QueueKept.of_held (h : QueueKept events s) (hheld : s.held = [entry]) :
    entry ∉ s.heap ∧ entry.seq < s.seq := by
  have hqueued := h.queued entry
  have hle := h.count_le entry
  have hone : s.held.count entry = 1 := by rw [hheld, count_singleton_self]
  constructor
  · intro hmem
    have hpos := count_pos_iff.mpr hmem
    omega
  · apply h.seq_lt
    apply count_pos_iff.mp
    omega

/-! ## Attempts -/

/-- The attempt that the dispatcher makes next. -/
def nextAttempt (s : Subscription) : Option (Entry × Nat) :=
  match s.dispatcher with
  | .calling entry attempt => some (entry, attempt)
  | .waiting entry attempt => some (entry, attempt + 1)
  | _ => none

/-- How often `on_message` has been called. -/
structure Attempted (events : List Event) (s : Subscription) : Prop where
  le : ∀ entry, (history Event.attempts events).count entry ≤ s.retry.maxAttempts
  next : ∀ entry attempt, s.nextAttempt = some (entry, attempt) →
    (history Event.attempts events).count entry + 1 = attempt ∧ attempt ≤ s.retry.maxAttempts
  untried : ∀ entry, entry ∈ s.heap ∨ s.seq ≤ entry.seq →
    (history Event.attempts events).count entry = 0

theorem Attempted.quiet (h : Attempted events s) (hevent : event.attempts = [])
    (hretry : s'.retry = s.retry)
    (hnext : ∀ entry attempt, s'.nextAttempt = some (entry, attempt) →
      s.nextAttempt = some (entry, attempt) ∨ entry ∈ s.heap ∧ attempt = 1)
    (huntried : ∀ entry, entry ∈ s'.heap ∨ s'.seq ≤ entry.seq → entry ∈ s.heap ∨
      s.seq ≤ entry.seq) :
    Attempted (events ++ [event]) s' := by
  have hsame : history Event.attempts (events ++ [event]) = history Event.attempts events := by
    rw [history_concat, hevent, append_nil]
  constructor
  · intro entry
    rw [hsame, hretry]
    exact h.le entry
  · intro entry attempt hat
    rw [hsame, hretry]
    rcases hnext entry attempt hat with hat | ⟨hmem, rfl⟩
    · exact h.next entry attempt hat
    · exact ⟨by rw [h.untried entry (.inl hmem)], s.retry.positive⟩
  · intro entry hentry
    rw [hsame]
    exact h.untried entry (huntried entry hentry)

theorem Attempted.call (h : Attempted events s) (hqueue : QueueKept events s)
    {attempt : Nat} (hat : s.dispatcher = .calling entry attempt)
    (hevent : event.attempts = [entry]) (hretry : s'.retry = s.retry) (hheap : s'.heap = s.heap)
    (hseq : s'.seq = s.seq) (hnext : ∀ next, s'.nextAttempt = some next →
      next = (entry, attempt + 1) ∧ attempt ≠ s.retry.maxAttempts) :
    Attempted (events ++ [event]) s' := by
  obtain ⟨hcount, hle⟩ := h.next entry attempt (by rw [nextAttempt, hat])
  obtain ⟨hout, hlt⟩ := hqueue.of_held (by rw [held, hat])
  have hadd : ∀ e, (history Event.attempts (events ++ [event])).count e =
      (history Event.attempts events).count e + if entry = e then 1 else 0 := by
    intro e
    rw [history_concat, hevent, count_append, count_singleton]
    simp
  constructor
  · intro e
    have hold := h.le e
    rw [hadd, hretry]
    split
    next heq =>
      subst heq
      omega
    next => omega
  · intro e k hk
    obtain ⟨heq, hne⟩ := hnext _ hk
    cases heq
    rw [hadd, if_pos rfl, hretry]
    omega
  · intro e he
    rw [hheap, hseq] at he
    have hne : entry ≠ e := by
      rintro rfl
      rcases he with he | he
      · exact hout he
      · omega
    rw [hadd, if_neg hne, h.untried e he]

theorem Stepped.attempted (hstep : Stepped s a event s') (hqueue : QueueKept events s)
    (h : Attempted events s) : Attempted (events ++ [event]) s' := by
  cases hstep with
  | enqueued =>
    -- the new item is the first one with its number
    refine h.quiet rfl rfl (fun _ _ hat => .inl hat) ?_
    rintro entry (hmem | hseq)
    · rcases mem_cons.mp ((heappushBy_perm _ _ _).mem_iff.mp hmem) with rfl | hmem
      · exact .inr (Nat.le_refl _)
      · exact .inl hmem
    · exact .inr (Nat.le_of_succ_le hseq)
  | taken _ _ _ _ hheap =>
    refine h.quiet rfl rfl ?_ ?_
    · intro e k hat
      cases hat
      exact .inr ⟨by rw [hheap]; exact mem_cons_self, rfl⟩
    · rintro e (hmem | hseq)
      · exact .inl (by rw [hheap]; exact mem_cons_of_mem _ hmem)
      · exact .inr hseq
  | closed =>
    refine h.quiet rfl rfl (fun _ _ hat => .inl hat) ?_
    rintro e (hmem | hseq)
    · cases hmem
    · exact .inr hseq
  | returned entry attempt hat | raisedLast entry attempt error hat hlast
  | uncaught entry attempt hat =>
    exact h.call hqueue hat rfl rfl rfl rfl (by simp [nextAttempt])
  | raised _ _ hat hleft =>
    refine h.call hqueue hat rfl rfl rfl rfl ?_
    intro next hnext
    cases hnext
    exact ⟨rfl, hleft⟩
  | woken _ _ hat =>
    refine h.quiet rfl rfl ?_ (fun _ he => he)
    intro e k hnext
    cases hnext
    exact .inl (by rw [nextAttempt, hat])
  | delivered | interrupted | stopped | escaped | died | recorded | finished =>
    exact h.quiet rfl rfl (by simp [nextAttempt]) (fun _ he => he)
  | _ => exact h.quiet rfl rfl (fun _ _ hat => .inl hat) (fun _ he => he)

/-! ## The counters -/

/-- The counters count the outcomes, and the queue keeps its bound. -/
structure Counted (events : List Event) (s : Subscription) : Prop where
  delivered : s.delivered = (history Event.delivers events).length
  deadLettered : s.deadLettered =
    (history Event.buries events).length + (history Event.buriesOverflow events).length
  succeeded : ∀ entry, (history Event.succeeds events).count entry =
    (history Event.delivers events).count entry + s.delivering.count entry
  inFlight : s.inFlight = if s.dispatcher = .idle then 0 else 1
  bound : s.heap.length ≤ s.maxQueue

theorem Stepped.counted (hstep : Stepped s a event s') (h : Counted events s) :
    Counted (events ++ [event]) s' := by
  obtain ⟨hdelivered, hdead, hsucceeded, hflight, hbound⟩ := h
  constructor
  · cases hstep <;> simp [hdelivered]
  · cases hstep <;> simp [hdead] <;> omega
  · intro entry
    have hold := hsucceeded entry
    cases hstep <;> simp_all [delivering]
  · cases hstep <;> simp_all
  cases hstep with
  | enqueued _ _ _ _ hroom =>
    rw [(heappushBy_perm _ _ _).length_eq]
    exact hroom
  | taken _ _ _ _ hheap =>
    rw [hheap, length_cons] at hbound
    exact Nat.le_of_succ_le hbound
  | closed => exact Nat.zero_le _
  | _ => exact hbound

/-! ## The account -/

/-- What has become of the messages of a subscription. -/
structure Accounted (events : List Event) (s : Subscription) : Prop where
  /-- what the filter lets through is refused, queued, overflows, or is still with its `offer` -/
  offered : ∀ message, (history Event.offers events).count message =
    (history Event.refuses events).count message +
      ((history Event.enqueues events).map Entry.message).count message +
      (history Event.overflows events).count message + s.offersAt (.accepting message)
  /-- an item that was queued is delivered, dead-lettered, still queued, in flight, discarded, or
      lost when `dispatch_one` raised -/
  queued : ∀ entry, (history Event.delivers events).count entry +
      (history Event.buries events).count entry + s.heap.count entry + s.held.count entry +
      (history Event.discards events).count entry + (history Event.escapes events).count entry =
    if entry ∈ history Event.enqueues events then 1 else 0
  /-- a message that overflowed is dead-lettered by its call of `offer` -/
  overflowed : ∀ message, (history Event.overflows events).count message =
    (history Event.buriesOverflow events).count message + s.offersAt (.overflowing message)
  /-- a delivery is one successful call of the subscriber -/
  succeeded : ∀ entry, (history Event.succeeds events).count entry =
    (history Event.delivers events).count entry + s.delivering.count entry
  attempts : ∀ entry, (history Event.attempts events).count entry ≤ s.retry.maxAttempts
  /-- a dead letter is handed over once -/
  letters : ∀ letter, (history Event.letters events).count letter =
    (history Event.records events).count letter + s.offersAt (.recording letter) +
      s.recording.count letter
  pending : s.pending ≤ s.maxQueue
  delivered : s.delivered = (history Event.delivers events).length
  deadLettered : s.deadLettered =
    (history Event.buries events).length + (history Event.buriesOverflow events).length
  inFlight : s.inFlight = if s.dispatcher = .idle then 0 else 1

/-- What one step keeps. -/
structure Conserved (events : List Event) (s : Subscription) : Prop where
  offers : OffersKept events s
  queue : QueueKept events s
  attempted : Attempted events s
  counted : Counted events s

theorem Conserved.accounted (h : Conserved events s) : Accounted events s where
  offered := h.offers.offered
  queued := by
    intro entry
    rw [← h.queue.queued entry]
    split
    next hmem =>
      have hpos := count_pos_iff.mpr hmem
      have hle := h.queue.count_le entry
      omega
    next hmem => exact List.count_eq_zero.mpr hmem
  overflowed := h.offers.overflowed
  succeeded := h.counted.succeeded
  attempts := h.attempted.le
  letters := h.offers.letters
  pending := h.counted.bound
  delivered := h.counted.delivered
  deadLettered := h.counted.deadLettered
  inFlight := h.counted.inFlight

theorem new_conserved (topic subscriberId : String) (predicate : Message → Bool)
    (retry : RetryPolicy) (maxQueue : Nat) :
    Conserved [] (new topic subscriberId predicate retry maxQueue) where
  offers := ⟨fun _ => rfl, fun _ => rfl, fun _ => rfl⟩
  queue := ⟨rfl, fun _ => rfl⟩
  attempted := ⟨fun _ => Nat.zero_le _, fun _ _ h => (by cases h), fun _ _ => rfl⟩
  counted := ⟨rfl, rfl, fun _ => rfl, rfl, Nat.zero_le _⟩

/-- `dispatch_one` has never raised, and is not about to. -/
structure Lossless (events : List Event) (s : Subscription) : Prop where
  escapes : history Event.escapes events = []
  raising : ∀ entry, s.dispatcher ≠ .raising entry

theorem Stepped.lossless (hstep : Stepped s a event s') (hcontained : s.contained a = true)
    (h : Lossless events s) : Lossless (events ++ [event]) s' := by
  cases hstep with
  | uncaught _ _ _ hlets | interrupted _ _ _ hlets =>
    rw [hcontained] at hlets
    cases hlets
  | escaped entry hat => exact absurd hat (h.raising entry)
  | returned | raisedLast | raised | taken | delivered | stopped | woken | died | recorded
  | finished => exact ⟨by simp [h.escapes], nofun⟩
  | _ => exact ⟨by simp [h.escapes], h.raising⟩

/-- One step keeps every accepted message in one place. -/
theorem step_conserved (h : Conserved events s)
    (hstep : s.step a = .ok (event, s')) : Conserved (events ++ [event]) s' := by
  have hcases := step_cases hstep
  exact ⟨hcases.offersKept h.offers, hcases.queueKept h.queue, hcases.attempted h.queue h.attempted,
    hcases.counted h.counted⟩

end Subscription

end InterviewPrep.PubSub
