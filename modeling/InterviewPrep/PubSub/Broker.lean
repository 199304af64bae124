/-
  `Subscription` (pub_sub_system.py) as a machine: any number of calls of `offer` and the one
  dispatcher take their steps in any order, each up to the next lock or the next call of the
  subscriber or the sleeper.  A step reports what happened as an `Event`.  What `dispatch_one` does
  not catch ends the worker that has called it.

  `MessageBroker` as a machine: calls take their steps in any order, each up to the next lock,
  over the subscriptions with their own steps.  A worker is known by the subscription that it was
  spawned for, `_workers` by the name of a subscription, which a later one can have again.
-/
import InterviewPrep.Lib.Binary64
import InterviewPrep.Lib.Dict
import InterviewPrep.Lib.Heaps
import InterviewPrep.Lib.Run
import Mathlib.Data.Prod.Lex

namespace InterviewPrep.PubSub

open Lib

/-! ## Messages -/

inductive MessagePriority where
  | low
  | normal
  | high
  | critical
deriving DecidableEq

def MessagePriority.value : MessagePriority → Int
  | .low => 0
  | .normal => 1
  | .high => 2
  | .critical => 3

structure Message where
  messageId : Nat
  topic : String
  payload : String
  priority : MessagePriority
deriving DecidableEq

inductive DeadLetterReason where
  | retriesExhausted
  | overflow
deriving DecidableEq

structure DeadLetter where
  subscriptionId : String
  message : Message
  reason : DeadLetterReason
  error : String
deriving DecidableEq

/-- `RetryPolicy`, which refuses fewer attempts than one. -/
structure RetryPolicy where
  maxAttempts : Nat := 3
  baseDelay : ℚ := Binary64.round (1 / 10)
  multiplier : ℚ := 2
  maxDelay : ℚ := 5
  positive : 1 ≤ maxAttempts := by decide

/-- The wait after failed attempt number `attempt`; none when it raises `OverflowError`. -/
def RetryPolicy.delay (retry : RetryPolicy) (attempt : Nat) : Option ℚ :=
  Binary64.cappedBackoff retry.baseDelay retry.maxDelay
    (Binary64.ofRat (retry.multiplier ^ (attempt - 1)))

/-- An item of the heap. -/
structure Entry where
  seq : Nat
  message : Message
deriving DecidableEq

/-- Items are compared by priority and then by number, which is never the same. -/
def Entry.key (e : Entry) : Lex (Int × Nat) := toLex (-e.message.priority.value, e.seq)

/-! ## The machine -/

/-- Where a call of `offer` stands. -/
inductive Offer where
  /-- the filter matches, before the lock -/
  | accepting (message : Message)
  /-- the queue was full, before the lock of `_dead` -/
  | overflowing (message : Message)
  /-- before the dead letter is handed over -/
  | recording (letter : DeadLetter)
deriving DecidableEq

/-- What `on_message` or the sleeper does when it is called. -/
inductive Reply where
  | returned
  /-- an `Exception`, with its `repr` -/
  | raised (error : String)
  /-- an exception that is no `Exception` -/
  | exited
deriving DecidableEq

/-- Where the dispatcher stands in `dispatch_one`. -/
inductive Dispatcher where
  | idle
  /-- before `on_message` -/
  | calling (entry : Entry) (attempt : Nat)
  /-- `on_message` has returned, before the lock -/
  | delivering (entry : Entry)
  /-- `on_message` has raised, before the sleeper is called and `closed` is read -/
  | waiting (entry : Entry) (attempt : Nat)
  /-- an exception that is not caught, before the lock of `finally` -/
  | raising (entry : Entry)
  /-- before the lock of `_dead` -/
  | dying (entry : Entry) (error : String)
  /-- before the dead letter is handed over -/
  | recording (letter : DeadLetter)
  /-- before the lock of `finally` -/
  | finishing
deriving DecidableEq

inductive Event where
  /-- the filter does not match -/
  | filtered (message : Message)
  | offered (message : Message)
  /-- closed: `offer` returns `False` -/
  | refused (message : Message)
  /-- `offer` returns `True` -/
  | enqueued (entry : Entry)
  | overflowed (message : Message)
  /-- the queue is empty or closed: `dispatch_one` returns `False` -/
  | nothing
  | taken (entry : Entry)
  /-- `on_message` is called, and returns or raises -/
  | attempted (entry : Entry) (returned : Bool)
  | delivered (entry : Entry)
  /-- the sleeper is called: the next attempt, or the end of it when the subscription is closed or
      the sleeper raises -/
  | woken (entry : Entry)
  /-- `dispatch_one` raises -/
  | escaped (entry : Entry)
  /-- `dead_lettered += 1`, of an item that was queued or of a message that overflowed -/
  | deadLettered (entry : Option Entry) (letter : DeadLetter)
  | recorded (letter : DeadLetter)
  /-- `dispatch_one` returns `True` -/
  | finished
  | discarded (entries : List Entry)
deriving DecidableEq

structure Subscription where
  topic : String
  subscriberId : String
  /-- without a predicate every message matches -/
  predicate : Message → Bool
  retry : RetryPolicy
  maxQueue : Nat
  heap : List Entry
  /-- the next number of `_seq` -/
  seq : Nat
  inFlight : Nat
  closed : Bool
  delivered : Nat
  deadLettered : Nat
  offers : Dict Nat Offer
  dispatcher : Dispatcher

/-- There is no such call, or it is under way already. -/
inductive NoStep where
  | notEnabled

inductive SubscriptionStep where
  /-- `offer` is called; the filter is asked -/
  | offer (call : Nat) (message : Message)
  | resumeOffer (call : Nat)
  /-- the dispatcher; `reply` is what `on_message` or the sleeper does if the step calls it -/
  | dispatch (reply : Reply)
  | close

namespace Subscription

def new (topic subscriberId : String) (predicate : Message → Bool) (retry : RetryPolicy)
    (maxQueue : Nat) : Subscription :=
  ⟨topic, subscriberId, predicate, retry, maxQueue, [], 0, 0, false, 0, 0, Dict.empty, .idle⟩

abbrev Result := Except NoStep (Event × Subscription)

variable (s : Subscription)

def subscriptionId : String := s.topic ++ "/" ++ s.subscriberId

def pending : Nat := s.heap.length

def deadLetter (message : Message) (reason : DeadLetterReason) (error : String) : DeadLetter :=
  ⟨s.subscriptionId, message, reason, error⟩

/-- `offer` up to the lock. -/
def offer (call : Nat) (message : Message) : Result :=
  match s.offers.get? call with
  | some _ => .error .notEnabled
  | none =>
    if s.predicate message then
      .ok (.offered message, { s with offers := s.offers.set call (.accepting message) })
    else .ok (.filtered message, s)

def resumeOffer (call : Nat) : Result :=
  match s.offers.get? call with
  | none => .error .notEnabled
  | some (.accepting message) =>
    if s.closed then
      .ok (.refused message, { s with offers := s.offers.erase call })
    else if s.maxQueue ≤ s.heap.length then
      .ok (.overflowed message, { s with offers := s.offers.set call (.overflowing message) })
    else
      .ok (.enqueued ⟨s.seq, message⟩,
        { s with
          heap := heappushBy Entry.key s.heap ⟨s.seq, message⟩
          seq := s.seq + 1
          offers := s.offers.erase call })
  | some (.overflowing message) =>
    let letter := s.deadLetter message .overflow "queue full"
    .ok (.deadLettered none letter,
      { s with
        deadLettered := s.deadLettered + 1
        offers := s.offers.set call (.recording letter) })
  | some (.recording letter) =>
    .ok (.recorded letter, { s with offers := s.offers.erase call })

/-- `_take`; a wait for the queue only puts it off. -/
def take : Result :=
  if s.closed then .ok (.nothing, s)
  else
    match s.heap with
    | [] => .ok (.nothing, s)
    | entry :: rest =>
      .ok (.taken entry,
        { s with heap := rest, inFlight := s.inFlight + 1, dispatcher := .calling entry 1 })

/-- Where the dispatcher goes on when `on_message` has raised. -/
def afterFailure (entry : Entry) (attempt : Nat) (error : String) : Dispatcher :=
  if attempt = s.retry.maxAttempts then .dying entry error
  else
    match s.retry.delay attempt with
    | none => .raising entry
    | some _ => .waiting entry attempt

/-- The next step of `dispatch_one`. -/
def dispatch (reply : Reply) : Result :=
  match s.dispatcher with
  | .idle => s.take
  | .calling entry attempt =>
    match reply with
    | .returned => .ok (.attempted entry true, { s with dispatcher := .delivering entry })
    | .raised error =>
      .ok (.attempted entry false, { s with dispatcher := s.afterFailure entry attempt error })
    | .exited => .ok (.attempted entry false, { s with dispatcher := .raising entry })
  | .delivering entry =>
    .ok (.delivered entry, { s with delivered := s.delivered + 1, dispatcher := .finishing })
  | .waiting entry attempt =>
    .ok (.woken entry,
      { s with dispatcher :=
        if reply ≠ .returned then .raising entry
        else if s.closed then .dying entry "closed during retry"
        else .calling entry (attempt + 1) })
  | .raising entry =>
    .ok (.escaped entry, { s with inFlight := s.inFlight - 1, dispatcher := .idle })
  | .dying entry error =>
    let letter := s.deadLetter entry.message .retriesExhausted error
    .ok (.deadLettered (some entry) letter,
      { s with deadLettered := s.deadLettered + 1, dispatcher := .recording letter })
  | .recording letter => .ok (.recorded letter, { s with dispatcher := .finishing })
  | .finishing =>
    .ok (.finished, { s with inFlight := s.inFlight - 1, dispatcher := .idle })

def close : Result :=
  .ok (.discarded s.heap, { s with closed := true, heap := [] })

def step : SubscriptionStep → Result
  | .offer call message => s.offer call message
  | .resumeOffer call => s.resumeOffer call
  | .dispatch reply => s.dispatch reply
  | .close => s.close

end Subscription

inductive BrokerError where
  | topicNotFound (topic : String)
  | alreadySubscribed (topic subscriberId : String)
deriving DecidableEq

/-- Where a call stands. `thread` is the worker that it runs on, if any, and `rest` the
    subscriptions that are retired after this one. -/
inductive BrokerCall where
  /-- `_retire`, before `close` -/
  | retiring (thread : Option Nat) (sub : Nat) (rest : List Nat)
  /-- closed, before the worker is removed -/
  | removing (thread : Option Nat) (sub : Nat) (rest : List Nat)
  /-- `worker.join()` -/
  | joining (thread : Option Nat) (sub worker : Nat) (rest : List Nat)
  /-- `publish`, with the subscriptions that the message is offered to next -/
  | publishing (message : Message) (targets : List Nat)
  /-- while `offer` of `target` is under way -/
  | offering (message : Message) (target : Nat) (rest : List Nat)

inductive BrokerEvent where
  | done
  | waiting
  | raised (error : BrokerError)
  /-- a subscription has taken a step -/
  | subscription (sub : Nat) (event : Event)
  /-- `_retire` of `sub` has removed a worker from `_workers`, or found none -/
  | removed (sub : Nat) (worker : Option Nat)
  /-- `_retire` of `sub` has joined a worker -/
  | joined (sub worker : Nat)
deriving DecidableEq

inductive BrokerStep where
  | createTopic (name : String)
  | deleteTopic (call : Nat) (thread : Option Nat) (name : String)
  | subscribe (topic subscriberId : String) (predicate : Message → Bool)
      (retry : Option RetryPolicy)
  | unsubscribe (call : Nat) (thread : Option Nat) (topic subscriberId : String)
  | publish (call : Nat) (message : Message)
  | resume (call : Nat)
  /-- a subscription's own step: a call of `offer` or `close` on it, or its dispatcher -/
  | subscription (sub : Nat) (a : SubscriptionStep)
  /-- the condition of a worker's loop no longer holds -/
  | workerEnds (worker : Nat)

structure Broker where
  started : Bool
  defaultRetry : RetryPolicy
  maxQueue : Nat
  /-- topic -> subscriber id -> subscription -/
  topics : Dict String (Dict String Nat)
  subs : Dict Nat Subscription
  nextSub : Nat
  /-- subscription id -> worker, by the subscription that it was spawned for -/
  workers : Dict String Nat
  /-- the workers whose loop has ended -/
  ended : List Nat
  calls : Dict Nat BrokerCall
  deadLetters : List DeadLetter

namespace Broker

/-- A broker without topics. -/
def new (started : Bool) (defaultRetry : RetryPolicy) (maxQueue : Nat) : Broker :=
  ⟨started, defaultRetry, maxQueue, Dict.empty, Dict.empty, 0, Dict.empty, [], Dict.empty, []⟩

abbrev Result := Except NoStep (BrokerEvent × Broker)

variable (b : Broker)

/-- The call goes on at `next`. -/
def goOn (call : Nat) (next : BrokerCall) (event : BrokerEvent) : Result :=
  .ok (event, { b with calls := b.calls.set call next })

def finish (call : Nat) (event : BrokerEvent) : Result :=
  .ok (event, { b with calls := b.calls.erase call })

/-- The loop over the subscriptions that are retired. -/
def retireNext (call : Nat) (thread : Option Nat) (subs : List Nat)
    (event : BrokerEvent) : Result :=
  match subs with
  | [] => b.finish call event
  | sub :: rest => b.goOn call (.retiring thread sub rest) event

def createTopic (name : String) : Result :=
  match b.topics.get? name with
  | some _ => .ok (.done, b)
  | none => .ok (.done, { b with topics := b.topics.set name Dict.empty })

def deleteTopic (call : Nat) (thread : Option Nat) (name : String) : Result :=
  match b.calls.get? call, b.topics.get? name with
  | some _, _ => .error .notEnabled
  | none, none => .ok (.done, b)
  | none, some subs =>
    { b with topics := b.topics.erase name }.retireNext call thread subs.values .waiting

/-- `subscribe`; `_spawn` puts the worker under the id of the subscription. -/
def subscribe (topic subscriberId : String) (predicate : Message → Bool)
    (retry : Option RetryPolicy) : Result :=
  match b.topics.get? topic with
  | none => .ok (.raised (.topicNotFound topic), b)
  | some subs =>
    match subs.get? subscriberId with
    | some _ => .ok (.raised (.alreadySubscribed topic subscriberId), b)
    | none =>
      let sub := Subscription.new topic subscriberId predicate (retry.getD b.defaultRetry)
        b.maxQueue
      .ok (.done,
        { b with
          topics := b.topics.set topic (subs.set subscriberId b.nextSub)
          subs := b.subs.set b.nextSub sub
          nextSub := b.nextSub + 1
          workers :=
            if b.started then b.workers.set sub.subscriptionId b.nextSub else b.workers })

def unsubscribe (call : Nat) (thread : Option Nat) (topic subscriberId : String) : Result :=
  match b.calls.get? call with
  | some _ => .error .notEnabled
  | none =>
    match b.topics.get? topic with
    | none => .ok (.done, b)
    | some subs =>
      match subs.get? subscriberId with
      | none => .ok (.done, b)
      | some sub =>
        { b with topics := b.topics.set topic (subs.erase subscriberId) }.retireNext call
          thread [sub] .waiting

/-- `publish` up to the first `offer`. -/
def publish (call : Nat) (message : Message) : Result :=
  match b.calls.get? call with
  | some _ => .error .notEnabled
  | none =>
    match b.topics.get? message.topic with
    | none => .ok (.raised (.topicNotFound message.topic), b)
    | some subs => b.goOn call (.publishing message subs.values) .waiting

/-- What a step of a subscription does to the broker: `_record_dead_letter`, and an exception that
    ends the loop of the worker. -/
def noteEvent (sub : Nat) (event : Event) : Broker :=
  match event with
  | .recorded letter => { b with deadLetters := b.deadLetters ++ [letter] }
  | .escaped _ => { b with ended := sub :: b.ended }
  | _ => b

def stepSub (sub : Nat) (a : SubscriptionStep) : Result :=
  match b.subs.get? sub with
  | none => .error .notEnabled
  | some s =>
    match s.step a with
    | .error error => .error error
    | .ok (event, s') =>
      .ok (.subscription sub event,
        { b with subs := b.subs.set sub s' }.noteEvent sub event)

/-- The next block of a call. -/
def resume (call : Nat) : Result :=
  match b.calls.get? call with
  | none => .error .notEnabled
  | some (.retiring thread sub rest) =>
    { b with calls := b.calls.set call (.removing thread sub rest) }.stepSub sub .close
  | some (.removing thread sub rest) =>
    match b.subs.get? sub with
    | none => .error .notEnabled
    | some s =>
      let worker := b.workers.get? s.subscriptionId
      let b := { b with workers := b.workers.erase s.subscriptionId }
      match worker with
      | none => b.retireNext call thread rest (.removed sub none)
      | some worker =>
        if thread = some worker then
          b.retireNext call thread rest (.removed sub (some worker))
        else b.goOn call (.joining thread sub worker rest) (.removed sub (some worker))
  | some (.joining thread sub worker rest) =>
    if worker ∈ b.ended then b.retireNext call thread rest (.joined sub worker)
    else .error .notEnabled
  | some (.publishing _ []) => b.finish call .done
  | some (.publishing message (target :: rest)) =>
    { b with calls := b.calls.set call (.offering message target rest) }.stepSub target
      (.offer call message)
  | some (.offering message target rest) =>
    match b.subs.get? target with
    | none => .error .notEnabled
    | some s =>
      match s.offers.get? call with
      | some _ => .error .notEnabled
      | none => b.goOn call (.publishing message rest) .waiting

/-- A worker leaves its loop between two calls of `dispatch_one`: its subscription is closed. -/
def workerEnds (worker : Nat) : Result :=
  match b.subs.get? worker with
  | none => .error .notEnabled
  | some s =>
    if s.closed ∧ s.dispatcher = .idle then .ok (.done, { b with ended := worker :: b.ended })
    else .error .notEnabled

def step : BrokerStep → Result
  | .createTopic name => b.createTopic name
  | .deleteTopic call thread name => b.deleteTopic call thread name
  | .subscribe topic subscriberId predicate retry => b.subscribe topic subscriberId predicate retry
  | .unsubscribe call thread topic subscriberId => b.unsubscribe call thread topic subscriberId
  | .publish call message => b.publish call message
  | .resume call => b.resume call
  | .subscription sub a => b.stepSub sub a
  | .workerEnds worker => b.workerEnds worker

end Broker

end InterviewPrep.PubSub
