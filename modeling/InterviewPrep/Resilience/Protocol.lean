/-
  `CircuitBreaker` (circuit_breaker.py): the state machine, every method with the lock held.
  What the clock reads in a method is an argument of it; each transition a method makes is
  returned with its result.

  A breaker and its callers: a machine whose steps are the locked sections of `acquire`,
  `on_success`, `on_error`, `state` and `reset`, in any order.  A caller resolves its permit at
  most once, and may never do so.  The clock never goes back.  A period of the breaker is what
  follows the last transition in the trace (`period`).
-/
import InterviewPrep.Lib.Dict
import InterviewPrep.Lib.Run
import InterviewPrep.Resilience.Windows

namespace InterviewPrep.Resilience

open Lib List

/-! ## Configuration -/

inductive CircuitState where
  | closed
  | open
  | halfOpen
deriving DecidableEq

inductive WindowType where
  | count
  | time

/-- The fields of a config that `__post_init__` accepts; `E` is what a call may raise. -/
structure CircuitBreakerConfig (E : Type) where
  isFailure : E → Bool
  failureRateThreshold : ℚ
  windowType : WindowType
  /-- calls, or seconds -/
  windowSize : Int
  minimumCalls : Int
  openDuration : ℚ
  halfOpenMaxCalls : Int
  threshold_pos : 0 < failureRateThreshold
  threshold_le_one : failureRateThreshold ≤ 1
  minimumCalls_pos : 1 ≤ minimumCalls
  halfOpenMaxCalls_pos : 1 ≤ halfOpenMaxCalls
  openDuration_nonneg : 0 ≤ openDuration

/-- `__post_init__`, with the defaults of the fields. -/
def CircuitBreakerConfig.create {E : Type} (isFailure : E → Bool)
    (failureRateThreshold : optParam ℚ (1 / 2)) (windowType : optParam WindowType .count)
    (windowSize : optParam Int 20) (minimumCalls : optParam Int 10)
    (openDuration : optParam ℚ 30) (halfOpenMaxCalls : optParam Int 3) :
    Except ValueError (CircuitBreakerConfig E) :=
  if ht : ¬ (0 < failureRateThreshold ∧ failureRateThreshold ≤ 1) then
    .error ⟨"failure_rate_threshold must be in (0, 1]"⟩
  else if hc : minimumCalls < 1 ∨ halfOpenMaxCalls < 1 ∨ openDuration < 0 then
    .error ⟨"invalid circuit breaker config"⟩
  else
    .ok {
      isFailure, failureRateThreshold, windowType, windowSize, minimumCalls, openDuration,
      halfOpenMaxCalls
      threshold_pos := (not_not.mp ht).1
      threshold_le_one := (not_not.mp ht).2
      minimumCalls_pos := not_lt.mp fun h => hc (.inl h)
      halfOpenMaxCalls_pos := not_lt.mp fun h => hc (.inr (.inl h))
      openDuration_nonneg := not_lt.mp fun h => hc (.inr (.inr h)) }

/-! ## The state machine -/

/-- The generation and the state a call was admitted under. -/
structure Permit where
  generation : Nat
  state : CircuitState

/-- `CallNotPermittedError`: the state and the seconds to wait. -/
structure CallNotPermittedError where
  state : CircuitState
  retryAfter : ℚ
deriving DecidableEq

/-- A call of `_transition`. -/
structure Transition where
  old : CircuitState
  new : CircuitState

structure CircuitBreaker (E : Type) where
  config : CircuitBreakerConfig E
  window : SlidingWindow
  state : CircuitState
  generation : Nat
  openedAt : ℚ
  probesIssued : Int
  probeSuccesses : Int

namespace CircuitBreaker

variable {E : Type}

/-- The window a config asks for. -/
def newWindow (config : CircuitBreakerConfig E) : Except ValueError SlidingWindow :=
  match config.windowType with
  | .count => SlidingWindow.newCount config.windowSize
  | .time => SlidingWindow.newTime config.windowSize

def new (config : CircuitBreakerConfig E) : Except ValueError (CircuitBreaker E) :=
  (newWindow config).map fun window => ⟨config, window, .closed, 0, 0, 0, 0⟩

variable (b : CircuitBreaker E)

/-- `_transition` at `now`. -/
def transition (new : CircuitState) (now : ℚ) : List Transition × CircuitBreaker E :=
  ([⟨b.state, new⟩],
    { b with
      state := new
      generation := b.generation + 1
      probesIssued := 0
      probeSuccesses := 0
      openedAt := if new = .open then now else b.openedAt
      window := if new = .closed then b.window.reset else b.window })

/-- Half-open on the next access once `open_duration` has passed. -/
def maybeHalfOpen (now : ℚ) : List Transition × CircuitBreaker E :=
  if b.state = .open ∧ b.config.openDuration ≤ now - b.openedAt then b.transition .halfOpen now
  else ([], b)

/-- The property `state`. -/
def readState (now : ℚ) : CircuitState × List Transition × CircuitBreaker E :=
  let (transitions, b) := b.maybeHalfOpen now
  (b.state, transitions, b)

/-- `later` is the second reading of the clock, for `retry_after`. -/
def acquire (now later : ℚ) :
    Except CallNotPermittedError Permit × List Transition × CircuitBreaker E :=
  let (transitions, b) := b.maybeHalfOpen now
  if b.state = .closed then (.ok ⟨b.generation, b.state⟩, transitions, b)
  else if b.state = .halfOpen ∧ b.probesIssued < b.config.halfOpenMaxCalls then
    (.ok ⟨b.generation, b.state⟩, transitions, { b with probesIssued := b.probesIssued + 1 })
  else
    let retryAfter :=
      if b.state = .open then max 0 (b.openedAt + b.config.openDuration - later) else 0
    (.error ⟨b.state, retryAfter⟩, transitions, b)

/-- `_on_result`; `later` is the reading of the clock in `_transition`. -/
def onResult (permit : Permit) (success : Bool) (now later : ℚ) :
    List Transition × CircuitBreaker E :=
  -- stale: admitted under an earlier state
  if permit.generation ≠ b.generation then ([], b)
  else
    match b.state with
    | .closed =>
      let b := { b with window := b.window.record success now }
      let snap := b.window.snapshot now
      if b.config.minimumCalls ≤ snap.total ∧
          b.config.failureRateThreshold ≤ snap.failureRate then
        b.transition .open later
      else ([], b)
    | .halfOpen =>
      -- one bad probe re-opens
      if ¬ success then b.transition .open later
      else
        let b := { b with probeSuccesses := b.probeSuccesses + 1 }
        if b.config.halfOpenMaxCalls ≤ b.probeSuccesses then b.transition .closed later
        else ([], b)
    | .open => ([], b)

/-- `_release`: free the probe slot. -/
def release (permit : Permit) : CircuitBreaker E :=
  if permit.generation = b.generation ∧ b.state = .halfOpen then
    { b with probesIssued := b.probesIssued - 1 }
  else b

def onSuccess (permit : Permit) (now later : ℚ) : List Transition × CircuitBreaker E :=
  b.onResult permit true now later

/-- An exception that is not a failure frees the slot and does not count. -/
def onError (permit : Permit) (exc : E) (now later : ℚ) : List Transition × CircuitBreaker E :=
  if b.config.isFailure exc then b.onResult permit false now later else ([], b.release permit)

/-- Operator override: closed, with an empty window. -/
def reset (now : ℚ) : List Transition × CircuitBreaker E := b.transition .closed now

theorem onResult_stale {permit : Permit} (hgen : permit.generation ≠ b.generation) (success : Bool)
    (now later : ℚ) : (b.onResult permit success now later).2 = b := by
  rw [CircuitBreaker.onResult, if_pos hgen]

theorem onError_stale {permit : Permit} (hgen : permit.generation ≠ b.generation) (exc : E)
    (now later : ℚ) : (b.onError permit exc now later).2 = b := by
  rw [CircuitBreaker.onError]
  split
  · exact b.onResult_stale hgen false now later
  · exact if_neg fun h => hgen h.1

end CircuitBreaker

/-! ## The machine -/

/-- A call that was admitted. -/
structure Call where
  permit : Permit
  resolved : Bool

structure BreakerSystem (E : Type) where
  breaker : CircuitBreaker E
  /-- the latest reading of the clock -/
  clock : ℚ
  /-- the calls admitted so far, by their number -/
  calls : Dict Nat Call

/-- A step, with what the clock reads in it. -/
inductive BreakerStep (E : Type) where
  | acquire (call : Nat) (now later : ℚ)
  | onSuccess (call : Nat) (now later : ℚ)
  | onError (call : Nat) (exc : E) (now later : ℚ)
  | readState (now : ℚ)
  | reset (now : ℚ)

/-- The call that a step has the result of. -/
def BreakerStep.resolves {E : Type} : BreakerStep E → Option Nat
  | .onSuccess c _ _ | .onError c _ _ _ => some c
  | _ => none

inductive BreakerEvent where
  | admitted (call : Nat)
  | rejected (call : Nat) (error : CallNotPermittedError)
  | succeeded (call : Nat)
  | failed (call : Nat)
  /-- an error that is not a failure -/
  | ignored (call : Nat)
  | read (state : CircuitState)
  | reset
  | moved (old new : CircuitState) (time : ℚ)
deriving DecidableEq

/-- A step whose call is not there, or whose clock would go back, is not taken. -/
inductive NoStep where
  | notEnabled

/-- The transitions of a step made at `time`. -/
def movesAt (time : ℚ) (transitions : List Transition) : List BreakerEvent :=
  transitions.map fun t => .moved t.old t.new time

namespace BreakerSystem

variable {E : Type}

def init (b : CircuitBreaker E) (start : ℚ) : BreakerSystem E := ⟨b, start, Dict.empty⟩

variable (s : BreakerSystem E)

def acquire (c : Nat) (now later : ℚ) : List BreakerEvent × BreakerSystem E :=
  match s.breaker.acquire now later with
  | (.ok permit, transitions, breaker) =>
    (movesAt now transitions ++ [.admitted c],
      { breaker, clock := later, calls := s.calls.set c ⟨permit, false⟩ })
  | (.error e, transitions, breaker) =>
    (movesAt now transitions ++ [.rejected c e], { s with breaker, clock := later })

/-- `call` has its result. -/
def resolve (c : Nat) (call : Call) (event : BreakerEvent) (later : ℚ)
    (result : List Transition × CircuitBreaker E) : List BreakerEvent × BreakerSystem E :=
  (event :: movesAt later result.1,
    { breaker := result.2, clock := later, calls := s.calls.set c { call with resolved := true } })

def step (s : BreakerSystem E) :
    BreakerStep E → Except NoStep (List BreakerEvent × BreakerSystem E)
  | .acquire c now later =>
    match s.calls.get? c with
    | some _ => .error .notEnabled
    | none =>
      if s.clock ≤ now ∧ now ≤ later then .ok (s.acquire c now later) else .error .notEnabled
  | .onSuccess c now later =>
    match s.calls.get? c with
    | some ⟨permit, false⟩ =>
      if s.clock ≤ now ∧ now ≤ later then
        .ok (s.resolve c ⟨permit, false⟩ (.succeeded c) later
          (s.breaker.onSuccess permit now later))
      else .error .notEnabled
    | _ => .error .notEnabled
  | .onError c exc now later =>
    match s.calls.get? c with
    | some ⟨permit, false⟩ =>
      if s.clock ≤ now ∧ now ≤ later then
        let event := if s.breaker.config.isFailure exc then .failed c else .ignored c
        .ok (s.resolve c ⟨permit, false⟩ event later (s.breaker.onError permit exc now later))
      else .error .notEnabled
    | _ => .error .notEnabled
  | .readState now =>
    if s.clock ≤ now then
      let (state, transitions, breaker) := s.breaker.readState now
      .ok (movesAt now transitions ++ [.read state], { s with breaker, clock := now })
    else .error .notEnabled
  | .reset now =>
    if s.clock ≤ now then
      let (transitions, breaker) := s.breaker.reset now
      .ok (.reset :: movesAt now transitions, { s with breaker, clock := now })
    else .error .notEnabled

end BreakerSystem

/-! ## Traces -/

/-- The state a transition makes, and when. -/
def BreakerEvent.moves : BreakerEvent → Option (CircuitState × ℚ)
  | .moved _ new time => some (new, time)
  | _ => none

/-- What happened since the last transition. -/
def period (events : List BreakerEvent) : List BreakerEvent :=
  events.rtakeWhile fun e => e.moves = none

/-- The state the last transition made, and when. -/
def lastMove (events : List BreakerEvent) : Option (CircuitState × ℚ) :=
  (events.filterMap BreakerEvent.moves).getLast?

/-- The state the trace ends in. -/
def stateAfter (events : List BreakerEvent) : CircuitState :=
  match lastMove events with
  | some (state, _) => state
  | none => .closed

def BreakerEvent.issues : BreakerEvent → Option Nat
  | .admitted c => some c
  | _ => none

def BreakerEvent.settles : BreakerEvent → Option Nat
  | .succeeded c | .failed c | .ignored c => some c
  | _ => none

def BreakerEvent.succeeds : BreakerEvent → Option Nat
  | .succeeded c => some c
  | _ => none

/-- The calls with a permit issued in `events`. -/
def issued (events : List BreakerEvent) : Finset Nat :=
  (events.filterMap BreakerEvent.issues).toFinset

/-- The calls whose permit was released or resolved. -/
def settled (events : List BreakerEvent) : Finset Nat :=
  (events.filterMap BreakerEvent.settles).toFinset

/-- The calls that succeeded. -/
def succeeded (events : List BreakerEvent) : Finset Nat :=
  (events.filterMap BreakerEvent.succeeds).toFinset

/-- How many permits were issued and neither released nor resolved. -/
def outstanding (events : List BreakerEvent) : Nat := (issued events \ settled events).card

/-- How many permits that were issued were resolved by a success. -/
def successes (events : List BreakerEvent) : Nat := (succeeded events ∩ issued events).card

end InterviewPrep.Resilience
