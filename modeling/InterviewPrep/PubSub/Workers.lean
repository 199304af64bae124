/-
  What one step of the broker does, once (`step_cases`), and from it the account of every
  subscription over whole runs: to a subscription, a `publish` is one of its calls of `offer`.

  Whose worker is retired.  As long as a subscription is registered only when no worker is left
  under its name (`nameFree`), `_workers` has the worker of every subscription that is registered
  or waits to be retired (`Manned`), so `_retire` removes and joins its own.  A subscriber that
  comes back meanwhile breaks it (`resubscribed`).
-/
import InterviewPrep.PubSub.Conservation

namespace InterviewPrep.PubSub

open Lib Dict List Option

/-- The subscriptions that a call has still to retire. -/
def BrokerCall.retirees : BrokerCall → List Nat
  | retiring _ sub rest | removing _ sub rest => sub :: rest
  | joining _ _ _ rest => rest
  | publishing _ _ | offering _ _ _ => []

/-- The event is not about a subscription or its worker. -/
def BrokerEvent.quiet : BrokerEvent → Prop
  | done | waiting | raised _ => True
  | _ => False

namespace Broker

variable {b b' : Broker} {a : BrokerStep} {event : BrokerEvent} {sub : Nat}

/-- The call that stands at the head of `_retire` of the first of `subs`. -/
def retiringCall (thread : Option Nat) : List Nat → Option BrokerCall
  | [] => none
  | sub :: rest => some (.retiring thread sub rest)

/-- The step lets nothing out of a `dispatch_one`. -/
def contained (b : Broker) : BrokerStep → Bool
  | .subscription sub act => (b.subs.get? sub).all fun s => s.contained act
  | _ => true

/-- What a step does. -/
inductive Stepped (b : Broker) (a : BrokerStep) : BrokerEvent → Broker → Prop
  | quiet (event : BrokerEvent) (hquiet : event.quiet) (ended : List Nat) :
      Stepped b a event { b with ended := ended }
  | topicCreated (name : String) (hname : b.topics.get? name = none) :
      Stepped b a .done { b with topics := b.topics.set name Dict.empty }
  | topicDeleted (call : Nat) (thread : Option Nat) (name : String) (subs : Dict String Nat)
      (hcall : b.calls.get? call = none) (hsubs : b.topics.get? name = some subs) :
      Stepped b a .waiting { b with
        topics := b.topics.erase name
        calls := b.calls.put call (retiringCall thread subs.values) }
  | subscribed (topic subscriberId : String) (predicate : Message → Bool) (retry : RetryPolicy)
      (subs : Dict String Nat) (hsubs : b.topics.get? topic = some subs)
      (hnew : subs.get? subscriberId = none)
      (ha : ∃ retry', a = .subscribe topic subscriberId predicate retry') :
      Stepped b a .done { b with
        topics := b.topics.set topic (subs.set subscriberId b.nextSub)
        subs := b.subs.set b.nextSub
          (Subscription.new topic subscriberId predicate retry b.maxQueue)
        nextSub := b.nextSub + 1
        workers :=
          if b.started then b.workers.set (topic ++ "/" ++ subscriberId) b.nextSub
          else b.workers }
  | unsubscribed (call : Nat) (thread : Option Nat) (topic subscriberId : String)
      (subs : Dict String Nat) (sub : Nat) (hcall : b.calls.get? call = none)
      (hsubs : b.topics.get? topic = some subs) (hsub : subs.get? subscriberId = some sub) :
      Stepped b a .waiting { b with
        topics := b.topics.set topic (subs.erase subscriberId)
        calls := b.calls.set call (.retiring thread sub []) }
  /-- a call goes on or ends, with the same subscriptions to retire -/
  | moved (call : Nat) (old next : Option BrokerCall) (hcall : b.calls.get? call = old)
      (hretirees : next.elim [] BrokerCall.retirees = old.elim [] BrokerCall.retirees)
      (hjoining : ∀ thread sub worker rest, next ≠ some (.joining thread sub worker rest))
      (event : BrokerEvent) (hquiet : event.quiet) :
      Stepped b a event { b with calls := b.calls.put call next }
  /-- a subscription takes a step, its own or the next one of a call -/
  | stepped (sub : Nat) (act : SubscriptionStep) (s s' : Subscription) (event : Event)
      (hsub : b.subs.get? sub = some s) (hstep : s.step act = .ok (event, s')) (call : Nat)
      (old next : Option BrokerCall) (hcall : b.calls.get? call = old)
      (hretirees : next.elim [] BrokerCall.retirees = old.elim [] BrokerCall.retirees)
      (hjoining : ∀ thread sub worker rest, next = some (.joining thread sub worker rest) →
        next = old) (hcontained : b.contained a = true → s.contained act = true)
      (letters : List DeadLetter) (ended : List Nat) :
      Stepped b a (.subscription sub event) { b with
        subs := b.subs.set sub s'
        calls := b.calls.put call next
        deadLetters := letters
        ended := ended }
  | removed (call : Nat) (thread : Option Nat) (sub : Nat) (rest : List Nat) (s : Subscription)
      (hcall : b.calls.get? call = some (.removing thread sub rest))
      (hsub : b.subs.get? sub = some s) (next : Option BrokerCall)
      (hretirees : next.elim [] BrokerCall.retirees = rest)
      (hjoining : ∀ thread' sub' worker rest', next = some (.joining thread' sub' worker rest') →
        sub' = sub ∧ b.workers.get? s.subscriptionId = some worker) :
      Stepped b a (.removed sub (b.workers.get? s.subscriptionId)) { b with
        workers := b.workers.erase s.subscriptionId
        calls := b.calls.put call next }
  | joined (call : Nat) (thread : Option Nat) (sub worker : Nat) (rest : List Nat)
      (hcall : b.calls.get? call = some (.joining thread sub worker rest)) :
      Stepped b a (.joined sub worker)
        { b with calls := b.calls.put call (retiringCall thread rest) }

@[simp] theorem retirees_retiringCall (thread : Option Nat) (subs : List Nat) :
    (retiringCall thread subs).elim [] BrokerCall.retirees = subs := by
  cases subs <;> rfl

theorem retiringCall_ne_joining {thread thread' : Option Nat} {subs rest : List Nat} {worker : Nat}
    : retiringCall thread subs ≠ some (.joining thread' sub worker rest) := by
  cases subs <;> simp [retiringCall]

theorem retireNext_eq (call : Nat) (thread : Option Nat) (subs : List Nat) (event : BrokerEvent) :
    b.retireNext call thread subs event =
      .ok (event, { b with calls := b.calls.put call (retiringCall thread subs) }) := by
  cases subs <;> rfl

theorem stepSub_cases {act : SubscriptionStep} {call : Nat} {old : Option BrokerCall}
    (next : Option BrokerCall) (hcall : b.calls.get? call = old)
    (hretirees : next.elim [] BrokerCall.retirees = old.elim [] BrokerCall.retirees)
    (hjoining : ∀ thread sub worker rest, next = some (.joining thread sub worker rest) →
      next = old)
    (hcontained : ∀ s, b.subs.get? sub = some s → b.contained a = true → s.contained act = true)
    (h : { b with calls := b.calls.put call next }.stepSub sub act = .ok (event, b')) :
    Stepped b a event b' := by
  unfold stepSub at h
  dsimp only at h
  split at h
  next => cases h
  next s hsub =>
  split at h
  next => cases h
  next e s' hstep =>
  cases h
  have hstepped := Stepped.stepped sub act s s' e hsub hstep call old next hcall hretirees hjoining
    (hcontained s hsub)
  cases e with
  | recorded letter => exact hstepped (b.deadLetters ++ [letter]) b.ended
  | escaped => exact hstepped b.deadLetters (sub :: b.ended)
  | _ => exact hstepped b.deadLetters b.ended

theorem resume_cases {call : Nat} (h : b.resume call = .ok (event, b')) :
    Stepped b a event b' := by
  unfold resume at h
  split at h
  next => cases h
  next thread sub rest hcall =>
    exact stepSub_cases (some (.removing thread sub rest)) hcall rfl (by simp)
      (fun _ _ _ => rfl) h
  next thread sub rest hcall =>
    split at h
    next => cases h
    next s hsub =>
    dsimp only at h
    split at h
    next hworker =>
      rw [retireNext_eq] at h
      cases h
      rw [← hworker]
      exact .removed call thread sub rest s hcall hsub _ (by simp)
        (fun _ _ _ _ heq => absurd heq retiringCall_ne_joining)
    next worker hworker =>
    split at h
    next =>
      rw [retireNext_eq] at h
      cases h
      rw [← hworker]
      exact .removed call thread sub rest s hcall hsub _ (by simp)
        (fun _ _ _ _ heq => absurd heq retiringCall_ne_joining)
    next =>
    cases h
    rw [← hworker]
    refine .removed call thread sub rest s hcall hsub
      (some (.joining thread sub worker rest)) rfl ?_
    rintro _ _ _ _ heq
    cases heq
    exact ⟨rfl, hworker⟩
  next thread sub worker rest hcall =>
    split at h
    next =>
      rw [retireNext_eq] at h
      cases h
      exact .joined call thread sub worker rest hcall
    next => cases h
  next hcall =>
    cases h
    exact .moved call _ none hcall rfl (by simp) .done trivial
  next message target rest hcall =>
    exact stepSub_cases (some (.offering message target rest)) hcall rfl (by simp)
      (fun _ _ _ => rfl) h
  next message _ rest hcall =>
    split at h
    next => cases h
    next =>
      split at h
      next => cases h
      next =>
        cases h
        exact .moved call _ (some (.publishing message rest)) hcall rfl (by simp) .waiting trivial

/-- A step that is taken is one of `Stepped`, guards included. -/
theorem step_cases (h : b.step a = .ok (event, b')) : Stepped b a event b' := by
  cases a with
  | createTopic name =>
    unfold step createTopic at h
    dsimp only at h
    split at h
    next =>
      cases h
      exact .quiet .done trivial b.ended
    next hname =>
      cases h
      exact .topicCreated name hname
  | deleteTopic call thread name =>
    unfold step deleteTopic at h
    dsimp only at h
    split at h
    next => cases h
    next =>
      cases h
      exact .quiet .done trivial b.ended
    next subs hcall hsubs =>
      rw [retireNext_eq] at h
      cases h
      exact .topicDeleted call thread name subs hcall hsubs
  | subscribe topic subscriberId predicate retry =>
    unfold step subscribe at h
    dsimp only at h
    split at h
    next =>
      cases h
      exact .quiet (.raised _) trivial b.ended
    next subs hsubs =>
    split at h
    next =>
      cases h
      exact .quiet (.raised _) trivial b.ended
    next hnew =>
      cases h
      exact .subscribed topic subscriberId predicate (retry.getD b.defaultRetry) subs hsubs hnew
        ⟨retry, rfl⟩
  | unsubscribe call thread topic subscriberId =>
    unfold step unsubscribe at h
    dsimp only at h
    split at h
    next => cases h
    next hcall =>
    split at h
    next =>
      cases h
      exact .quiet .done trivial b.ended
    next subs hsubs =>
    split at h
    next =>
      cases h
      exact .quiet .done trivial b.ended
    next sub hsub =>
      cases h
      exact .unsubscribed call thread topic subscriberId subs sub hcall hsubs hsub
  | publish call message =>
    unfold step publish at h
    dsimp only at h
    split at h
    next => cases h
    next hcall =>
    split at h
    next =>
      cases h
      exact .quiet (.raised _) trivial b.ended
    next subs _ =>
      cases h
      exact .moved call none (some (.publishing message subs.values)) hcall rfl (by simp)
        .waiting trivial
  | resume => exact resume_cases h
  | subscription =>
    have hself : { b with calls := b.calls.put 0 (b.calls.get? 0) } = b := by
      rw [put_self rfl]
    rw [← hself] at h
    refine stepSub_cases (b.calls.get? 0) rfl rfl (fun _ _ _ _ _ => rfl) ?_ h
    intro s hsub hall
    rwa [contained, hsub, all_some] at hall
  | workerEnds worker =>
    unfold step workerEnds at h
    dsimp only at h
    split at h
    next => cases h
    next =>
      split at h
      next =>
        cases h
        exact .quiet .done trivial (worker :: b.ended)
      next => cases h

/-! ## The account of every subscription -/

/-- What has happened to a subscription. -/
def eventsOf (sub : Nat) (events : List BrokerEvent) : List Event :=
  events.filterMap fun
    | .subscription sub' event => if sub' = sub then some event else none
    | _ => none

theorem eventsOf_concat_self (sub : Nat) (events : List BrokerEvent) (event : Event) :
    eventsOf sub (events ++ [.subscription sub event]) = eventsOf sub events ++ [event] := by
  simp [eventsOf]

theorem eventsOf_concat_of_ne {sub' : Nat} (h : sub' ≠ sub) (events : List BrokerEvent)
    (event : Event) :
    eventsOf sub (events ++ [.subscription sub' event]) = eventsOf sub events := by
  simp [eventsOf, h]

theorem eventsOf_concat_quiet (h : ∀ sub e, event ≠ .subscription sub e)
    (sub : Nat) (events : List BrokerEvent) :
    eventsOf sub (events ++ [event]) = eventsOf sub events := by
  unfold eventsOf
  rw [filterMap_append]
  cases event with
  | subscription sub' e => exact absurd rfl (h sub' e)
  | _ => simp

theorem ne_subscription_of_quiet (h : event.quiet) (sub : Nat)
    (e : Event) : event ≠ .subscription sub e := by
  rintro rfl
  exact h

variable {I : List Event → Subscription → Prop}

/-- Nothing has happened to the subscriptions to come, and `I` holds of the others. -/
structure Audited (I : List Event → Subscription → Prop) (events : List BrokerEvent) (b : Broker) :
    Prop where
  unborn : ∀ sub, b.nextSub ≤ sub → b.subs.get? sub = none ∧ eventsOf sub events = []
  kept : ∀ sub s, b.subs.get? sub = some s → I (eventsOf sub events) s

variable {events : List BrokerEvent}

theorem Audited.quiet (h : Audited I events b)
    (hevent : ∀ sub e, event ≠ .subscription sub e) (hsubs : b'.subs = b.subs)
    (hnext : b'.nextSub = b.nextSub) : Audited I (events ++ [event]) b' := by
  constructor
  · intro sub hle
    rw [hsubs, eventsOf_concat_quiet hevent]
    exact h.unborn sub (hnext ▸ hle)
  · intro sub s hs
    rw [eventsOf_concat_quiet hevent]
    exact h.kept sub s (hsubs ▸ hs)

/-- What a new subscription has and its steps keep, every step of the broker keeps. -/
theorem Stepped.audited (hstep : Stepped b a event b')
    (hnew : ∀ topic subscriberId predicate retry maxQueue,
      I [] (.new topic subscriberId predicate retry maxQueue))
    (hkept : ∀ act s e s' events, (b.contained a = true → s.contained act = true) → I events s →
      s.step act = .ok (e, s') → I (events ++ [e]) s')
    (h : Audited I events b) : Audited I (events ++ [event]) b' := by
  cases hstep with
  | quiet _ hquiet ended | moved _ _ _ _ _ _ _ hquiet =>
    exact h.quiet (ne_subscription_of_quiet hquiet) rfl rfl
  | subscribed topic subscriberId predicate retry =>
    constructor
    · intro sub hle
      obtain ⟨hnone, hnil⟩ := h.unborn sub (Nat.le_of_succ_le hle)
      have hne : sub ≠ b.nextSub := by
        rintro rfl
        exact Nat.lt_irrefl _ hle
      rw [eventsOf_concat_quiet (by simp)]
      exact ⟨by rw [get?_set_of_ne _ _ hne, hnone], hnil⟩
    · intro sub s hs
      rw [eventsOf_concat_quiet (by simp)]
      rcases get?_set_some hs with ⟨rfl, rfl⟩ | ⟨_, hs⟩
      · rw [(h.unborn _ (Nat.le_refl _)).2]
        exact hnew topic subscriberId predicate retry b.maxQueue
      · exact h.kept sub s hs
  | stepped sub act s _ _ hsub hok _ _ _ _ _ _ hcontained =>
    constructor
    · intro sub' hle
      obtain ⟨hnone, hnil⟩ := h.unborn sub' hle
      have hne : sub' ≠ sub := (ne_of_eq_none hsub hnone).symm
      rw [eventsOf_concat_of_ne hne.symm]
      exact ⟨by rw [get?_set_of_ne _ _ hne, hnone], hnil⟩
    · intro sub' t ht
      rcases get?_set_some ht with ⟨rfl, rfl⟩ | ⟨hne, ht⟩
      · rw [eventsOf_concat_self]
        exact hkept act s _ _ _ hcontained (h.kept _ s hsub) hok
      · rw [eventsOf_concat_of_ne hne.symm]
        exact h.kept sub' t ht
  | _ => exact h.quiet (by simp) rfl rfl

theorem new_audited (started : Bool) (defaultRetry : RetryPolicy) (maxQueue : Nat) :
    Audited I [] (new started defaultRetry maxQueue) :=
  ⟨fun _ _ => ⟨rfl, rfl⟩, fun _ _ h => (by cases h)⟩

/-- After any interleaving of calls, every subscription accounts for its messages; none is lost in a
    run that lets nothing out of a `dispatch_one`. -/
theorem run_accounted (started : Bool) (defaultRetry : RetryPolicy) (maxQueue : Nat)
    (steps : List BrokerStep) (events : List BrokerEvent) (b : Broker)
    (hrun : runSteps step (new started defaultRetry maxQueue) steps = .ok (events, b)) (sub : Nat)
    (s : Subscription) (hsub : b.subs.get? sub = some s) :
    Subscription.Accounted (eventsOf sub events) s ∧
      (Guarded (fun b a => b.contained a = true) step (new started defaultRetry maxQueue) steps →
        history Event.escapes (eventsOf sub events) = []) := by
  constructor
  · have haudited := runSteps_keeps (C := fun _ _ => True)
      (fun _ events b => Audited Subscription.Conserved events b) ?_
      (new_audited started defaultRetry maxQueue) (Guarded.of_forall (fun _ _ => trivial) _ steps)
      hrun
    · exact (haudited.kept sub s hsub).accounted
    intro _ events b a event b' _ h _ hok
    exact (step_cases hok).audited Subscription.new_conserved
      (fun act s e s' events _ hs hok => Subscription.step_conserved hs hok) h
  · intro hguard
    have haudited := runSteps_keeps (fun _ events b => Audited Subscription.Lossless events b) ?_
      (new_audited started defaultRetry maxQueue) hguard hrun
    · exact (haudited.kept sub s hsub).escapes
    intro _ events b a event b' _ h hcontained hok
    exact (step_cases hok).audited (fun _ _ _ _ _ => ⟨rfl, nofun⟩)
      (fun act s e s' events hact hs hok =>
        (Subscription.step_cases hok).lossless (hact hcontained) hs) h

/-- Two messages for a queue of one: one is delivered at the second attempt, the other overflows. -/
def retryAndOverflow : List BrokerStep :=
  [.createTopic "t", .subscribe "t" "a" (fun _ => true) none,
    .publish 1 ⟨1, "t", "x", .normal⟩, .resume 1, .subscription 0 (.resumeOffer 1),
    .publish 2 ⟨2, "t", "y", .high⟩, .resume 2, .subscription 0 (.resumeOffer 2),
    .subscription 0 (.dispatch .returned), .subscription 0 (.dispatch (.raised "down")),
    .subscription 0 (.resumeOffer 2), .subscription 0 (.dispatch .returned),
    .subscription 0 (.dispatch .returned), .subscription 0 (.dispatch .returned)]

theorem run_accounted_retryAndOverflow :
    ∃ events b s, runSteps step (new true {} 1) retryAndOverflow = .ok (events, b) ∧
      b.subs.get? 0 = some s ∧ Subscription.Accounted (eventsOf 0 events) s ∧
      history Event.escapes (eventsOf 0 events) = [] ∧
      (s.delivered, s.deadLettered, s.pending) = (1, 1, 0) := by
  obtain ⟨⟨events, b⟩, hrun, hcounts⟩ := exists_ok_of_observe
    (x := runSteps step (new true {} 1) retryAndOverflow)
    (f := fun r => (r.2.subs.get? 0).map fun s => (s.delivered, s.deadLettered, s.pending))
    (b := some (1, 1, 0)) (by decide +kernel)
  obtain ⟨s, hsub, hcounts⟩ := map_eq_some_iff.mp hcounts
  obtain ⟨haccounted, hlossless⟩ := run_accounted true {} 1 retryAndOverflow events b hrun 0 s hsub
  exact ⟨events, b, s, hrun, hsub, haccounted, hlossless (by decide +kernel), hcounts⟩

/-- A policy whose delay leaves the range of a float after the third attempt. -/
def steepRetry : RetryPolicy := { maxAttempts := 4, multiplier := 2 ^ 512 }

/-- One message, whose subscriber raises an `Exception` at every attempt. -/
def failsThrice : List BrokerStep :=
  [.createTopic "t", .subscribe "t" "a" (fun _ => true) none,
    .publish 1 ⟨1, "t", "x", .normal⟩, .resume 1, .subscription 0 (.resumeOffer 1),
    .subscription 0 (.dispatch .returned), .subscription 0 (.dispatch (.raised "down")),
    .subscription 0 (.dispatch .returned), .subscription 0 (.dispatch (.raised "down")),
    .subscription 0 (.dispatch .returned), .subscription 0 (.dispatch (.raised "down")),
    .subscription 0 (.dispatch .returned)]

/-- The message was queued, and is in no class of the account. -/
theorem failsThrice_loses :
    ∃ events b s entry, runSteps step (new true steepRetry 1) failsThrice = .ok (events, b) ∧
      b.subs.get? 0 = some s ∧ entry ∈ history Event.enqueues (eventsOf 0 events) ∧
      history Event.delivers (eventsOf 0 events) = [] ∧
      history Event.buries (eventsOf 0 events) = [] ∧ s.heap = [] ∧ s.held = [] ∧
      history Event.discards (eventsOf 0 events) = [] := by
  obtain ⟨⟨events, b⟩, hrun, hseen⟩ := exists_ok_of_observe
    (x := runSteps step (new true steepRetry 1) failsThrice)
    (f := fun r => ((r.2.subs.get? 0).map fun s => (s.heap, s.held),
      [Event.enqueues, Event.delivers, Event.buries, Event.discards].map
        (history · (eventsOf 0 r.1))))
    (b := (some ([], []), [[⟨0, 1, "t", "x", .normal⟩], [], [], []])) (by decide +kernel)
  obtain ⟨hstate, hevents⟩ := Prod.mk.inj hseen
  obtain ⟨s, hsub, hs⟩ := map_eq_some_iff.mp hstate
  obtain ⟨hheap, hheld⟩ := Prod.mk.inj hs
  simp only [map_cons, map_nil, cons.injEq, and_true] at hevents
  obtain ⟨hqueued, hdelivers, hburies, hdiscards⟩ := hevents
  exact ⟨events, b, s, _, hrun, hsub, hqueued ▸ mem_cons_self, hdelivers, hburies, hheap, hheld,
    hdiscards⟩

variable {b b' : Broker} {a : BrokerStep} {event : BrokerEvent} {subs : Dict String Nat}
  {subscriberId : String} {sub call : Nat} {calls : Dict Nat BrokerCall} {s : Subscription}

/-- The worker of a subscription is the one that is removed or joined for it. -/
def OwnWorker : BrokerEvent → Prop
  | .removed sub (some worker) | .joined sub worker => worker = sub
  | _ => True

/-- Every subscription that is registered has its worker in `_workers`. -/
def Staffed (b : Broker) : Prop :=
  ∀ topic subs subscriberId sub, b.topics.get? topic = some subs →
    subs.get? subscriberId = some sub →
    ∃ s, b.subs.get? sub = some s ∧ b.workers.get? s.subscriptionId = some sub

/-- The step does not register a subscription under a name that a worker still has. -/
def nameFree (b : Broker) : BrokerStep → Bool
  | .subscribe topic subscriberId _ _ =>
    (b.topics.get? topic).all fun subs =>
      (subs.get? subscriberId).isSome || (b.workers.get? (topic ++ "/" ++ subscriberId)).isNone
  | _ => true

/-! ## Subscriptions that have a worker -/

/-- How often the subscription is registered. -/
def registered (b : Broker) (sub : Nat) : Nat := b.topics.total fun subs => subs.values.count sub

/-- How often it waits to be retired. -/
def retiring (b : Broker) (sub : Nat) : Nat :=
  b.calls.total fun call => call.retirees.count sub

structure Manned (b : Broker) : Prop where
  started : b.started = true
  once : ∀ sub, b.registered sub + b.retiring sub ≤ 1
  workers : ∀ sub, 0 < b.registered sub + b.retiring sub →
    ∃ s, b.subs.get? sub = some s ∧ b.workers.get? s.subscriptionId = some sub
  unborn : ∀ sub, b.nextSub ≤ sub → b.subs.get? sub = none
  joining : ∀ call thread sub worker rest,
    b.calls.get? call = some (.joining thread sub worker rest) → worker = sub

theorem Manned.staffed (h : Manned b) : Staffed b := by
  intro topic subs subscriberId sub hsubs hsub
  apply h.workers
  have hmem : sub ∈ subs.values := List.mem_map_of_mem (Dict.mem_items.mpr hsub)
  have htotal := total_erase hsubs fun subs => subs.values.count sub
  have hpos := count_pos_iff.mpr hmem
  unfold registered
  omega

theorem values_count_set (sub : Nat) (h : subs.get? subscriberId = none) (sub' : Nat) :
    (subs.set subscriberId sub).values.count sub' =
      subs.values.count sub' + if sub = sub' then 1 else 0 := by
  rw [Dict.values, set_items_of_get?_none sub h, map_append, count_append]
  simp [Dict.values, count_singleton]

theorem values_count_erase (h : subs.get? subscriberId = some sub) (sub' : Nat) :
    subs.values.count sub' =
      (subs.erase subscriberId).values.count sub' + if sub = sub' then 1 else 0 := by
  have hperm := ((items_perm_of_get? h).map Prod.snd).count_eq sub'
  rw [map_cons, count_cons] at hperm
  simpa [Dict.values] using hperm

variable {old next : Option BrokerCall} {topics : Dict String (Dict String Nat)}
  {thread : Option Nat}

theorem total_retirees_put (hcall : calls.get? call = old)
    (next : Option BrokerCall) (sub : Nat) : (old.elim [] BrokerCall.retirees).count sub +
        (calls.put call next).total (fun call => call.retirees.count sub) =
      (next.elim [] BrokerCall.retirees).count sub +
        calls.total fun call => call.retirees.count sub := by
  have htotal := total_put hcall next fun call => call.retirees.count sub
  have helim : ∀ c : Option BrokerCall, (c.elim 0 fun call => call.retirees.count sub) =
      (c.elim [] BrokerCall.retirees).count sub := by
    rintro (_ | c) <;> rfl
  rwa [helim, helim] at htotal

theorem total_retirees_put_same (hcall : calls.get? call = old)
    (hretirees : next.elim [] BrokerCall.retirees = old.elim [] BrokerCall.retirees) (sub : Nat) :
    (calls.put call next).total (fun call => call.retirees.count sub) =
      calls.total fun call => call.retirees.count sub := by
  have hput := total_retirees_put hcall next sub
  rw [hretirees] at hput
  exact Nat.add_left_cancel hput

theorem Manned.move (h : Manned b) (hstarted : b'.started = b.started)
    (hsame : ∀ sub, b'.registered sub + b'.retiring sub = b.registered sub + b.retiring sub)
    (hsubs : b'.subs = b.subs) (hworkers : b'.workers = b.workers) (hnext : b'.nextSub = b.nextSub)
    (hjoining : ∀ call thread sub worker rest,
      b'.calls.get? call = some (.joining thread sub worker rest) → worker = sub) : Manned b' where
  started := hstarted ▸ h.started
  once sub := hsame sub ▸ h.once sub
  workers sub hpos := by
    rw [hsubs, hworkers]
    exact h.workers sub (hsame sub ▸ hpos)
  unborn sub hle := by
    rw [hsubs]
    exact h.unborn sub (hnext ▸ hle)
  joining := hjoining

theorem joining_put (next : Option BrokerCall) (h : ∀ call thread sub worker rest,
      calls.get? call = some (.joining thread sub worker rest) → worker = sub)
    (hnext : ∀ thread sub worker rest, next = some (.joining thread sub worker rest) →
      worker = sub) : ∀ call' thread sub worker rest,
      (calls.put call next).get? call' = some (.joining thread sub worker rest) → worker = sub := by
  intro call' thread sub worker rest hget
  rw [Dict.get?_put] at hget
  split at hget
  · exact hnext thread sub worker rest hget
  · exact h call' thread sub worker rest hget

theorem step_subscriptionId {s' : Subscription} {act : SubscriptionStep} {e : Event}
    (h : s.step act = .ok (e, s')) : s'.subscriptionId = s.subscriptionId := by
  cases Subscription.step_cases h <;> rfl

theorem total_subs_set {topic : String}
    (hsubs : topics.get? topic = some subs) (hnew : subs.get? subscriberId = none) (sub' : Nat) :
    (topics.set topic (subs.set subscriberId sub)).total (fun subs => subs.values.count sub') =
      topics.total (fun subs => subs.values.count sub') + if sub = sub' then 1 else 0 := by
  have hset := total_set_of_get? hsubs (subs.set subscriberId sub)
    fun subs => subs.values.count sub'
  have hcount := values_count_set sub hnew sub'
  omega

theorem total_subs_erase {topic : String}
    (hsubs : topics.get? topic = some subs) (hsub : subs.get? subscriberId = some sub) (sub' : Nat)
    :
    (topics.set topic (subs.erase subscriberId)).total (fun subs => subs.values.count sub') +
        (if sub = sub' then 1 else 0) = topics.total fun subs => subs.values.count sub' := by
  have hset := total_set_of_get? hsubs (subs.erase subscriberId)
    fun subs => subs.values.count sub'
  have hcount := values_count_erase hsub sub'
  omega

theorem Manned.subscribe (h : Manned b) (name : String) (s : Subscription)
    (hname : s.subscriptionId = name) (hfree : b.workers.get? name = none)
    (hstarted : b'.started = b.started)
    (hregistered : ∀ sub, b'.registered sub = b.registered sub + if b.nextSub = sub then 1 else 0)
    (hcalls : b'.calls = b.calls) (hsubs : b'.subs = b.subs.set b.nextSub s)
    (hnext : b'.nextSub = b.nextSub + 1) (hworkers : b'.workers = b.workers.set name b.nextSub) :
    Manned b' := by
  have hretiring : ∀ sub, b'.retiring sub = b.retiring sub := fun sub => by
    rw [retiring, retiring, hcalls]
  have hnone : b.registered b.nextSub + b.retiring b.nextSub = 0 := by
    apply Nat.eq_zero_of_not_pos
    intro hpos
    obtain ⟨s', hs', -⟩ := h.workers _ hpos
    rw [h.unborn _ (Nat.le_refl _)] at hs'
    cases hs'
  refine ⟨hstarted ▸ h.started, ?_, ?_, ?_, hcalls ▸ h.joining⟩
  · intro sub
    have honce := h.once sub
    rw [hregistered, hretiring]
    split
    next heq =>
      rw [← heq]
      omega
    next => omega
  · intro sub hpos
    rw [hregistered, hretiring] at hpos
    rw [hsubs, hworkers]
    by_cases heq : b.nextSub = sub
    · subst heq
      refine ⟨s, get?_set_self _ _ _, ?_⟩
      rw [hname, get?_set_self]
    rw [if_neg heq, Nat.add_zero] at hpos
    obtain ⟨s', hs', hworker⟩ := h.workers sub hpos
    have hne : s'.subscriptionId ≠ name := by
      intro hsame
      rw [hsame, hfree] at hworker
      cases hworker
    exact ⟨s', by rw [get?_set_of_ne _ _ (Ne.symm heq), hs'],
      by rw [get?_set_of_ne _ _ hne, hworker]⟩
  · intro sub hle
    rw [hnext] at hle
    rw [hsubs, get?_set_of_ne _ _ (by omega)]
    exact h.unborn sub (Nat.le_of_succ_le hle)

theorem Manned.stepSub (h : Manned b) {s' : Subscription}
    (hsub : b.subs.get? sub = some s) (hname : s'.subscriptionId = s.subscriptionId)
    (hstarted : b'.started = b.started) (htopics : b'.topics = b.topics)
    (hretiring : ∀ sub, b'.retiring sub = b.retiring sub) (hsubs : b'.subs = b.subs.set sub s')
    (hworkers : b'.workers = b.workers) (hnext : b'.nextSub = b.nextSub)
    (hjoining : ∀ call thread sub worker rest,
      b'.calls.get? call = some (.joining thread sub worker rest) → worker = sub) : Manned b' := by
  have hregistered : ∀ sub, b'.registered sub = b.registered sub := fun sub => by
    rw [registered, registered, htopics]
  refine ⟨hstarted ▸ h.started, ?_, ?_, ?_, hjoining⟩
  · intro sub'
    rw [hregistered, hretiring]
    exact h.once sub'
  · intro sub' hpos
    rw [hregistered, hretiring] at hpos
    obtain ⟨t, ht, hworker⟩ := h.workers sub' hpos
    rw [hsubs, hworkers, get?_set]
    split
    next heq =>
      subst heq
      cases hsub.symm.trans ht
      exact ⟨s', rfl, by rw [hname, hworker]⟩
    next => exact ⟨t, ht, hworker⟩
  · intro sub' hle
    have hnone := h.unborn sub' (hnext ▸ hle)
    have hne : sub' ≠ sub := (ne_of_eq_none hsub hnone).symm
    rw [hsubs, get?_set_of_ne _ _ hne, hnone]

theorem Manned.worker_eq (h : Manned b) {rest : List Nat}
    (hcall : b.calls.get? call = some (.removing thread sub rest)) (hsub : b.subs.get? sub = some s)
    : b.workers.get? s.subscriptionId = some sub := by
  have htotal := total_erase hcall fun call => call.retirees.count sub
  have hself : (BrokerCall.removing thread sub rest).retirees.count sub = rest.count sub + 1 :=
    count_cons_self
  have hpos : 0 < b.registered sub + b.retiring sub := by
    unfold retiring
    omega
  obtain ⟨s', hs', hworker⟩ := h.workers sub hpos
  cases hsub.symm.trans hs'
  exact hworker

theorem Manned.remove (h : Manned b) {rest : List Nat}
    (hcall : b.calls.get? call = some (.removing thread sub rest))
    (hsub : b.subs.get? sub = some s) (hretirees : next.elim [] BrokerCall.retirees = rest)
    (hnext : ∀ thread' sub' worker rest', next = some (.joining thread' sub' worker rest') →
      sub' = sub ∧ b.workers.get? s.subscriptionId = some worker)
    (hstarted : b'.started = b.started) (htopics : b'.topics = b.topics)
    (hsubs : b'.subs = b.subs) (hnextSub : b'.nextSub = b.nextSub)
    (hworkers : b'.workers = b.workers.erase s.subscriptionId)
    (hcalls : b'.calls = b.calls.put call next) : Manned b' := by
  have hregistered : ∀ sub', b'.registered sub' = b.registered sub' := fun sub' => by
    rw [registered, registered, htopics]
  have hretiring : ∀ sub', b'.retiring sub' + (if sub = sub' then 1 else 0) = b.retiring sub' := by
    intro sub'
    have hput := total_retirees_put hcall next sub'
    have hold : (some (BrokerCall.removing thread sub rest)).elim [] BrokerCall.retirees =
        sub :: rest := rfl
    simp only [hretirees, hold, count_cons, beq_iff_eq] at hput
    rw [retiring, retiring, hcalls]
    omega
  have hworker := h.worker_eq hcall hsub
  refine ⟨hstarted ▸ h.started, ?_, ?_, ?_, ?_⟩
  · intro sub'
    have honce := h.once sub'
    have hmoved := hretiring sub'
    rw [hregistered]
    omega
  · intro sub' hpos
    have honce := h.once sub'
    have hmoved := hretiring sub'
    rw [hregistered] at hpos
    obtain ⟨s', hs', hworker'⟩ := h.workers sub' (by omega)
    have hne : s'.subscriptionId ≠ s.subscriptionId := by
      intro hsame
      rw [hsame, hworker] at hworker'
      cases hworker'
      rw [if_pos rfl] at hmoved
      omega
    rw [hsubs, hworkers]
    exact ⟨s', hs', by rw [get?_erase_of_ne _ hne, hworker']⟩
  · rw [hsubs, hnextSub]
    exact h.unborn
  · rw [hcalls]
    apply joining_put _ h.joining
    intro thread' sub' worker rest' heq
    obtain ⟨rfl, hfound⟩ := hnext thread' sub' worker rest' heq
    exact some.inj (hfound.symm.trans hworker)

theorem Stepped.manned (hstep : Stepped b a event b') (h : Manned b) (hfree : b.nameFree a = true) :
    Manned b' ∧ OwnWorker event := by
  cases hstep with
  | quiet _ hquiet =>
    refine ⟨h.move rfl (fun _ => rfl) rfl rfl rfl h.joining, ?_⟩
    cases event with
    | removed | joined => exact absurd hquiet id
    | _ => trivial
  | topicCreated _ hname =>
    refine ⟨h.move rfl ?_ rfl rfl rfl h.joining, trivial⟩
    intro sub
    have hput := total_set_of_none hname Dict.empty fun subs => subs.values.count sub
    unfold registered retiring
    rw [hput]
    exact congrArg (· + _) (Nat.zero_add _)
  | topicDeleted _ thread _ subs hcall hsubs =>
    refine ⟨h.move rfl ?_ rfl rfl rfl ?_, trivial⟩
    · intro sub
      have htopics := total_erase hsubs fun subs => subs.values.count sub
      have hcalls := total_retirees_put hcall (retiringCall thread subs.values) sub
      rw [retirees_retiringCall] at hcalls
      simp only [elim_none, count_nil] at hcalls
      unfold registered retiring
      dsimp only
      omega
    · exact joining_put _ h.joining fun _ _ _ _ heq => absurd heq retiringCall_ne_joining
  | subscribed topic subscriberId _ _ _ hsubs hnew ha =>
    obtain ⟨retry', rfl⟩ := ha
    have hnone : b.workers.get? (topic ++ "/" ++ subscriberId) = none := by
      simpa [nameFree, hsubs, hnew] using hfree
    refine ⟨h.subscribe (topic ++ "/" ++ subscriberId) _ (by rfl) hnone rfl ?_ rfl rfl rfl ?_,
      trivial⟩
    · exact total_subs_set hsubs hnew
    · exact if_pos h.started
  | unsubscribed _ thread _ _ _ sub hcall hsubs hsub =>
    refine ⟨h.move rfl ?_ rfl rfl rfl ?_, trivial⟩
    · intro sub'
      have htopics := total_subs_erase hsubs hsub sub'
      have hcalls := total_retirees_put hcall (some (.retiring thread sub [])) sub'
      have hnew : (some (BrokerCall.retiring thread sub [])).elim [] BrokerCall.retirees =
          [sub] := rfl
      simp only [elim_none, hnew, count_nil, count_singleton, beq_iff_eq,
        Dict.put] at hcalls
      unfold registered retiring
      dsimp only
      omega
    · exact joining_put (some (.retiring thread sub [])) h.joining (by simp)
  | moved _ _ _ hcall hretirees hjoining event hquiet =>
    refine ⟨h.move rfl ?_ rfl rfl rfl ?_, ?_⟩
    · exact fun sub => congrArg (b.registered sub + ·) (total_retirees_put_same hcall hretirees sub)
    · exact joining_put _ h.joining fun thread sub worker rest heq =>
        absurd heq (hjoining thread sub worker rest)
    · cases event with
      | removed | joined => exact absurd hquiet id
      | _ => trivial
  | stepped sub _ _ _ _ hsub hok call _ _ hcall hretirees hjoining =>
    refine ⟨h.stepSub hsub (step_subscriptionId hok) rfl rfl ?_ rfl rfl rfl ?_, trivial⟩
    · exact total_retirees_put_same hcall hretirees
    · apply joining_put _ h.joining
      intro thread sub worker rest heq
      rw [hjoining thread sub worker rest heq] at heq
      exact h.joining call thread sub worker rest (hcall.trans heq)
  | removed _ _ _ _ _ hcall hsub _ hretirees hjoining =>
    refine ⟨h.remove hcall hsub hretirees hjoining rfl rfl rfl rfl rfl rfl, ?_⟩
    rw [h.worker_eq hcall hsub]
    rfl
  | joined call thread sub worker rest hcall =>
    refine ⟨h.move rfl ?_ rfl rfl rfl ?_, h.joining call thread sub worker rest hcall⟩
    · exact fun sub => congrArg (b.registered sub + ·)
        (total_retirees_put_same hcall (retirees_retiringCall thread rest) sub)
    · exact joining_put _ h.joining fun _ _ _ _ heq => absurd heq retiringCall_ne_joining

/-! ## Runs -/

theorem new_manned (defaultRetry : RetryPolicy) (maxQueue : Nat) :
    Manned (new true defaultRetry maxQueue) where
  started := rfl
  once _ := Nat.zero_le _
  workers _ hpos := absurd hpos (Nat.lt_irrefl _)
  unborn _ _ := rfl
  joining _ _ _ _ _ h := by cases h

/-- On a started broker, where no subscription is registered under a name that a worker still has:
    every subscription that is registered has its worker in `_workers`, and each one that was
    retired removed and joined its own. -/
theorem run_ownWorkers (defaultRetry : RetryPolicy) (maxQueue : Nat) (steps : List BrokerStep)
    (events : List BrokerEvent) (b : Broker)
    (hfree : Guarded (fun b a => b.nameFree a = true) step (new true defaultRetry maxQueue) steps)
    (hrun : runSteps step (new true defaultRetry maxQueue) steps = .ok (events, b)) :
    Staffed b ∧ ∀ event ∈ events, OwnWorker event := by
  have hmanned := runSteps_keeps
    (fun _ events b => Manned b ∧ ∀ event ∈ events, OwnWorker event) ?_
    ⟨new_manned defaultRetry maxQueue, nofun⟩ hfree hrun
  · exact ⟨hmanned.1.staffed, hmanned.2⟩
  rintro _ events b a event b' - ⟨h, hevents⟩ hname hok
  obtain ⟨hmanned, hown⟩ := (step_cases hok).manned h hname
  refine ⟨hmanned, ?_⟩
  intro e he
  rcases mem_append.mp he with he | he
  · exact hevents e he
  · rw [mem_singleton.mp he]
    exact hown

/-- A subscriber leaves, its worker is joined, and it comes back. -/
def cameBack : List BrokerStep :=
  [.createTopic "t", .subscribe "t" "a" (fun _ => true) none, .unsubscribe 1 none "t" "a",
    .resume 1, .resume 1, .workerEnds 0, .resume 1, .subscribe "t" "a" (fun _ => true) none]

theorem run_ownWorkers_cameBack :
    ∃ events b, runSteps step (new true {} 10) cameBack = .ok (events, b) ∧
      Staffed b ∧ (∀ event ∈ events, OwnWorker event) ∧
      .joined 0 0 ∈ events ∧ b.workers.get? "t/a" = some 1 := by
  refine exists_run_of_observe
    (f := fun r => (decide (BrokerEvent.joined 0 0 ∈ r.1), r.2.workers.get? "t/a"))
    (b := (true, some 1)) (by decide +kernel) fun events b hrun hseen => ?_
  obtain ⟨hjoined, hworker⟩ := Prod.mk.inj hseen
  obtain ⟨hstaffed, hown⟩ := run_ownWorkers {} 10 cameBack events b
    (by decide +kernel) hrun
  exact ⟨hstaffed, hown, of_decide_eq_true hjoined, hworker⟩

/-- The subscriber comes back while its old subscription is being retired. -/
def resubscribed : List BrokerStep :=
  [.createTopic "t", .subscribe "t" "a" (fun _ => true) none, .unsubscribe 1 none "t" "a",
    .subscribe "t" "a" (fun _ => true) none, .resume 1, .resume 1]

/-- The worker of the new subscription is removed for the old one. -/
theorem resubscribed_not_ownWorkers :
    ∃ events b, runSteps step (new true {} 10) resubscribed = .ok (events, b) ∧
      ¬ (Staffed b ∧ ∀ event ∈ events, OwnWorker event) := by
  refine exists_run_of_observe
    (f := fun r => decide (BrokerEvent.removed 0 (some 1) ∈ r.1)) (b := true) (by decide +kernel)
    fun events b hrun hremoved => ?_
  rintro ⟨-, hown⟩
  have hsame : 1 = 0 := hown _ (of_decide_eq_true hremoved)
  cases hsame

end Broker

end InterviewPrep.PubSub
