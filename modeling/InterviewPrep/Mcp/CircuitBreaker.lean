/-
  `CircuitBreaker` (mcp/common/circuit_breaker.py): every locked section with what the clock reads
  in it as an argument.

  A breaker and the calls that go through it: a step is the locked admission of a call, the end of
  its `func`, the locked recording of what it returned, `reset`, a read of the state, or time
  going by.  A `func` may end in an exception that `except Exception` does not catch; the call
  then records nothing.  `period` counts the entries into HALF_OPEN, and a call carries the period
  that it was admitted in.

  The breaker lets at most one call into a period.  It does not tell the result of the probe from
  one of a call admitted before, and it does not take back the probe's flag when the probe ends
  without a result; without these two steps it keeps its protocol.
-/
import InterviewPrep.Lib.Dict
import InterviewPrep.Lib.Run
import Mathlib.Algebra.Order.Ring.Unbundled.Rat

namespace InterviewPrep.Mcp

open Lib

/-! ## The breaker -/

inductive CircuitState where
  | closed
  | open
  | halfOpen
  deriving DecidableEq

structure CircuitBreakerOpenError where
  text : String

structure CircuitBreaker where
  failureThreshold : Int
  resetTimeout : Int
  name : String
  failureCount : Int
  lastFailureTime : ℚ
  lastSuccessTime : ℚ
  state : CircuitState
  totalCalls : Int
  totalFailures : Int
  probeInFlight : Bool

namespace CircuitBreaker

/-- `__init__`; an argument that is left out has its default. -/
def init (failureThreshold resetTimeout : Option Int) (name : Option String) : CircuitBreaker :=
  { failureThreshold := failureThreshold.getD 5
    resetTimeout := resetTimeout.getD 30
    name := if name.getD "" = "" then "unnamed" else name.getD ""
    failureCount := 0
    lastFailureTime := 0
    lastSuccessTime := 0
    state := .closed
    totalCalls := 0
    totalFailures := 0
    probeInFlight := false }

variable (b : CircuitBreaker) (now : ℚ)

/-- `_current_state`; the state is a field of the result. -/
def currentState : CircuitBreaker :=
  if b.state = .open ∧ b.resetTimeout < now - b.lastFailureTime then
    { b with state := .halfOpen, probeInFlight := false }
  else b

def openError : CircuitBreakerOpenError :=
  ⟨s!"Circuit breaker '{b.name}' is OPEN. Retry after {b.resetTimeout}s."⟩

def probeError : CircuitBreakerOpenError :=
  ⟨s!"Circuit breaker '{b.name}' is in HALF_OPEN state — a probe request is already in flight. " ++
    "Retry after probe completes."⟩

/-- The first locked section of `call`: the error it raises, if any. -/
def enter : Option CircuitBreakerOpenError × CircuitBreaker :=
  let b := b.currentState now
  match b.state with
  | .open => (some b.openError, { b with totalCalls := b.totalCalls + 1 })
  | .halfOpen =>
    if b.probeInFlight then (some b.probeError, { b with totalCalls := b.totalCalls + 1 })
    else (none, { b with probeInFlight := true })
  | .closed => (none, b)

def recordSuccess : CircuitBreaker :=
  let b := { b with totalCalls := b.totalCalls + 1, lastSuccessTime := now, failureCount := 0 }
  if b.state = .halfOpen then { b with state := .closed, probeInFlight := false } else b

def recordFailure : CircuitBreaker :=
  let b := { b with
    totalCalls := b.totalCalls + 1
    totalFailures := b.totalFailures + 1
    failureCount := b.failureCount + 1
    lastFailureTime := now }
  if b.state = .halfOpen then { b with state := .open, probeInFlight := false }
  else if b.state = .closed ∧ b.failureThreshold ≤ b.failureCount then { b with state := .open }
  else b

def reset : CircuitBreaker :=
  { b with state := .closed, failureCount := 0, probeInFlight := false, totalCalls := 0,
           totalFailures := 0 }

end CircuitBreaker

/-! ## A breaker and its calls -/

/-- How a `func` ends. -/
inductive Outcome where
  | returned
  | exception
  /-- A `BaseException` that is not an `Exception`. -/
  | baseException
  deriving DecidableEq

/-- An admitted call inside its `func`, or with a result to record. -/
inductive Phase where
  | running
  | recording (success : Bool)
  deriving DecidableEq

structure Call where
  /-- The HALF_OPEN period it was admitted in; none when the breaker was CLOSED. -/
  period : Option Nat
  phase : Phase
  deriving DecidableEq

inductive Op where
  | wait (delay : ℚ)
  | call
  | finish (id : Nat) (outcome : Outcome)
  | record (id : Nat)
  | reset
  | readState
  deriving DecidableEq

inductive Answer where
  | done
  | admitted (id : Nat)
  | rejected (error : CircuitBreakerOpenError)
  | state (state : CircuitState)
  /-- There is no such step. -/
  | disabled

structure System where
  breaker : CircuitBreaker
  now : ℚ
  /-- How often the breaker has become HALF_OPEN. -/
  period : Nat
  calls : Dict Nat Call
  nextId : Nat

namespace System

/-- A new breaker at some time. -/
def init (failureThreshold resetTimeout : Option Int) (name : Option String) (now : ℚ) : System :=
  ⟨.init failureThreshold resetTimeout name, now, 0, Dict.empty, 0⟩

variable (s : System)

/-- The locked section leaves the breaker `b`. -/
def leave (b : CircuitBreaker) : System :=
  { s with
    breaker := b
    period := if s.breaker.state ≠ .halfOpen ∧ b.state = .halfOpen then s.period + 1
              else s.period }

/-- The call `s.nextId` enters its `func`. -/
def enter : System :=
  { s with
    calls := s.calls.set s.nextId
      ⟨if s.breaker.state = .halfOpen then some s.period else none, .running⟩
    nextId := s.nextId + 1 }

def act : Op → Answer × System
  | .wait delay =>
    if 0 ≤ delay then (.done, { s with now := s.now + delay }) else (.disabled, s)
  | .call =>
    match s.breaker.enter s.now with
    | (some error, b) => (.rejected error, s.leave b)
    | (none, b) => (.admitted s.nextId, (s.leave b).enter)
  | .finish id outcome =>
    match s.calls.get? id with
    | some ⟨period, .running⟩ =>
      match outcome with
      | .returned => (.done, { s with calls := s.calls.set id ⟨period, .recording true⟩ })
      | .exception => (.done, { s with calls := s.calls.set id ⟨period, .recording false⟩ })
      | .baseException => (.done, { s with calls := s.calls.erase id })
    | _ => (.disabled, s)
  | .record id =>
    match s.calls.get? id with
    | some ⟨_, .recording success⟩ =>
      let s' := s.leave
        (if success then s.breaker.recordSuccess s.now else s.breaker.recordFailure s.now)
      (.done, { s' with calls := s.calls.erase id })
    | _ => (.disabled, s)
  | .reset => (.done, s.leave s.breaker.reset)
  | .readState =>
    let b := s.breaker.currentState s.now
    (.state b.state, s.leave b)

def step (s : System) (op : Op) : Except Empty (Answer × System) := .ok (s.act op)

theorem step_eq_act {op : Op} : step s op = .ok (s.act op) := rfl

/-- The call is the probe of the present HALF_OPEN period. -/
def IsProbe (id : Nat) : Prop := ∃ call, s.calls.get? id = some call ∧ call.period = some s.period

/-- A step that leaves HALF_OPEN is a reset or records the result of the period's probe. -/
structure Lawful (op : Op) (s' : System) : Prop where
  toClosed : s.breaker.state = .halfOpen → s'.breaker.state = .closed →
    op = .reset ∨ ∃ id, op = .record id ∧ s.calls.get? id = some ⟨some s.period, .recording true⟩
  toOpen : s.breaker.state = .halfOpen → s'.breaker.state = .open →
    ∃ id, op = .record id ∧ s.calls.get? id = some ⟨some s.period, .recording false⟩

/-- A HALF_OPEN breaker without a probe admits the next call. -/
def Ready : Prop :=
  s.breaker.state = .halfOpen → (∀ id, ¬ s.IsProbe id) → (s.act .call).1 = .admitted s.nextId

/-- While HALF_OPEN, the step records no other result than that of the period's probe, and does not
    end that probe without one. -/
def safe (op : Op) : Bool :=
  s.breaker.state ≠ .halfOpen ||
  match op with
  | .record id =>
    match s.calls.get? id with
    | some ⟨period, .recording _⟩ => period = some s.period
    | _ => true
  | .finish id .baseException =>
    match s.calls.get? id with
    | some ⟨period, .running⟩ => period ≠ some s.period
    | _ => true
  | _ => true

end System

/-! ## What a locked section does -/

namespace CircuitBreaker

variable {b b' : CircuitBreaker} {now : ℚ}

theorem currentState_cases (b : CircuitBreaker) (now : ℚ) : b.currentState now = b ∨
    b.state = .open ∧
      b.currentState now = { b with state := .halfOpen, probeInFlight := false } := by
  rw [currentState]
  split
  next h => exact .inr ⟨h.1, rfl⟩
  · exact .inl rfl

theorem enter_rejected {error : CircuitBreakerOpenError} (h : b.enter now = (some error, b')) :
    b'.state = b.state ∧ b'.probeInFlight = b.probeInFlight := by
  rw [enter] at h
  obtain hcur | ⟨hopen, hcur⟩ := currentState_cases b now
  · rw [hcur] at h
    split at h
    · obtain ⟨-, rfl⟩ := Prod.mk.inj h
      exact ⟨rfl, rfl⟩
    · split at h
      · obtain ⟨-, rfl⟩ := Prod.mk.inj h
        exact ⟨rfl, rfl⟩
      · cases h
    · cases h
  · -- a breaker that has just become HALF_OPEN rejects nobody
    rw [hcur] at h
    cases h

theorem enter_ok (h : b.enter now = (none, b')) : b.currentState now = b' ∧ b'.state = .closed ∨
      (b.currentState now).state = .halfOpen ∧ (b.currentState now).probeInFlight = false ∧
        b' = { b.currentState now with probeInFlight := true } := by
  rw [enter] at h
  split at h
  · cases h
  next hstate =>
    split at h
    · cases h
    next hflag =>
      obtain ⟨-, rfl⟩ := Prod.mk.inj h
      exact .inr ⟨hstate, Bool.eq_false_iff.mpr hflag, rfl⟩
  next hstate =>
    obtain ⟨-, rfl⟩ := Prod.mk.inj h
    exact .inl ⟨rfl, hstate⟩

theorem recordSuccess_state (hstate : b.state = .halfOpen) :
    (b.recordSuccess now).state = .closed := by
  simp [recordSuccess, hstate]

theorem recordFailure_state (hstate : b.state = .halfOpen) :
    (b.recordFailure now).state = .open := by
  simp [recordFailure, hstate]

theorem record_state (b : CircuitBreaker) (now : ℚ) (success : Bool) :
    (if success then b.recordSuccess now else b.recordFailure now).state ≠ .halfOpen := by
  cases success with
  | true =>
    rw [if_pos rfl, recordSuccess]
    split
    · rintro ⟨⟩
    · assumption
  | false =>
    rw [if_neg Bool.false_ne_true, recordFailure]
    split
    · rintro ⟨⟩
    · split
      · rintro ⟨⟩
      · assumption

end CircuitBreaker

namespace System

variable {s s' : System} {b : CircuitBreaker} {op : Op} {id : Nat}

/-- Who may be in flight: of each period one call, and none of this one while the flag is clear. -/
structure Admission (s : System) : Prop where
  ids : ∀ id call, s.calls.get? id = some call → id < s.nextId
  periods : ∀ id call p, s.calls.get? id = some call → call.period = some p → p ≤ s.period
  one : ∀ p id id' call call', s.calls.get? id = some call → s.calls.get? id' = some call' →
    call.period = some p → call'.period = some p → id = id'
  clear : s.breaker.state = .halfOpen → s.breaker.probeInFlight = false → ∀ id, ¬ s.IsProbe id

/-- The flag of a HALF_OPEN breaker is set only for a probe in flight. -/
def Flagged (s : System) : Prop :=
  s.breaker.state = .halfOpen → s.breaker.probeInFlight = true → ∃ id, s.IsProbe id

theorem leave_period (b : CircuitBreaker) : s.period ≤ (s.leave b).period := by
  show _ ≤ ite _ _ _
  split <;> omega

theorem leave_period_eq (h : s.breaker.state = .halfOpen) : (s.leave b).period = s.period :=
  if_neg fun hne => hne.1 h

theorem leave_period_succ (h : s.breaker.state ≠ .halfOpen) (hb : b.state = .halfOpen) :
    (s.leave b).period = s.period + 1 := if_pos ⟨h, hb⟩

theorem Admission.leave (h : s.Admission)
    (hflag : s.breaker.state = .halfOpen → b.state = .halfOpen → b.probeInFlight = false →
      s.breaker.probeInFlight = false) : (s.leave b).Admission := by
  refine ⟨h.ids, fun id call p hcall hp => (h.periods id call p hcall hp).trans (leave_period b),
    h.one, ?_⟩
  intro hb hclear id ⟨call, hcall, hperiod⟩
  change b.state = .halfOpen at hb
  by_cases hstate : s.breaker.state = .halfOpen
  · rw [leave_period_eq hstate] at hperiod
    exact h.clear hstate (hflag hstate hb hclear) id ⟨call, hcall, hperiod⟩
  · rw [leave_period_succ hstate hb] at hperiod
    have hle := h.periods id call _ hcall hperiod
    omega

theorem Admission.calls (h : s.Admission) {calls : Dict Nat Call}
    (hcalls : ∀ id call', calls.get? id = some call' →
      ∃ call, s.calls.get? id = some call ∧ call.period = call'.period) :
    Admission { s with calls := calls } := by
  refine ⟨fun id call' hcall' => ?_, fun id call' p hcall' hp => ?_,
    fun p id1 id2 call1 call2 hcall1 hcall2 hp1 hp2 => ?_, ?_⟩
  · obtain ⟨call, hcall, -⟩ := hcalls id call' hcall'
    exact h.ids id call hcall
  · obtain ⟨call, hcall, hperiod⟩ := hcalls id call' hcall'
    exact h.periods id call p hcall (hperiod.trans hp)
  · obtain ⟨call1', hcall1', hperiod1⟩ := hcalls id1 call1 hcall1
    obtain ⟨call2', hcall2', hperiod2⟩ := hcalls id2 call2 hcall2
    exact h.one p id1 id2 call1' call2' hcall1' hcall2' (hperiod1.trans hp1) (hperiod2.trans hp2)
  · rintro hstate hclear id ⟨call', hcall', hp⟩
    obtain ⟨call, hcall, hperiod⟩ := hcalls id call' hcall'
    exact h.clear hstate hclear id ⟨call, hcall, hperiod.trans hp⟩

theorem Admission.enter (h : s.Admission)
    (hnone : s.breaker.state = .halfOpen → ∀ id, ¬ s.IsProbe id)
    (hflag : s.breaker.state = .halfOpen → s.breaker.probeInFlight = true) : s.enter.Admission := by
  have hcases : ∀ {id call}, s.enter.calls.get? id = some call →
      (id = s.nextId ∧ call.period = if s.breaker.state = .halfOpen then some s.period else none) ∨
      s.calls.get? id = some call := by
    intro id call hcall
    obtain ⟨rfl, rfl⟩ | ⟨-, hcall⟩ := Dict.get?_set_some hcall
    · exact .inl ⟨rfl, rfl⟩
    · exact .inr hcall
  have hprobe : ∀ {id call p}, s.calls.get? id = some call → call.period = some p →
      ¬ (if s.breaker.state = .halfOpen then some s.period else none) = some p := by
    intro id call p hcall hp heq
    split at heq
    next hstate => exact hnone hstate id ⟨call, hcall, hp.trans heq.symm⟩
    · cases heq
  refine ⟨fun id call hcall => ?_, fun id call p hcall hp => ?_,
    fun p id id' call call' hcall hcall' hp hp' => ?_,
    fun hstate hclear => absurd (hflag hstate) (Bool.eq_false_iff.mp hclear)⟩
  · obtain ⟨rfl, -⟩ | hcall := hcases hcall
    · exact Nat.lt_succ_self _
    · exact (h.ids id call hcall).trans (Nat.lt_succ_self _)
  · obtain ⟨-, hperiod⟩ | hcall := hcases hcall
    · rw [hperiod] at hp
      split at hp
      · exact (Option.some.inj hp).ge
      · cases hp
    · exact h.periods id call p hcall hp
  · obtain ⟨rfl, hperiod⟩ | hcall := hcases hcall <;>
      obtain ⟨rfl, hperiod'⟩ | hcall' := hcases hcall'
    · rfl
    · exact absurd (hperiod.symm.trans hp) (hprobe hcall' hp')
    · exact absurd (hperiod'.symm.trans hp') (hprobe hcall hp)
    · exact h.one p id id' call call' hcall hcall' hp hp'

/-! ## Steps -/

theorem call_cases : (∃ error b, s.act .call = (.rejected error, s.leave b) ∧
      b.state = s.breaker.state ∧ b.probeInFlight = s.breaker.probeInFlight) ∨
    ∃ b, s.act .call = (.admitted s.nextId, (s.leave b).enter) ∧
      (s.breaker.currentState s.now = b ∧ b.state = .closed ∨
        (s.breaker.currentState s.now).state = .halfOpen ∧
        (s.breaker.currentState s.now).probeInFlight = false ∧
        b = { s.breaker.currentState s.now with probeInFlight := true }) := by
  rw [act]
  split
  next error b hadmit => exact .inl ⟨error, b, rfl, CircuitBreaker.enter_rejected hadmit⟩
  next b hadmit => exact .inr ⟨b, rfl, CircuitBreaker.enter_ok hadmit⟩

theorem Admission.currentState (h : s.Admission) :
    (s.leave (s.breaker.currentState s.now)).Admission := by
  refine h.leave fun hstate _ hclear => ?_
  obtain hcur | ⟨hopen, -⟩ := CircuitBreaker.currentState_cases s.breaker s.now
  · rwa [hcur] at hclear
  · rw [hstate] at hopen
    cases hopen

theorem Admission.call (h : s.Admission) : (s.act .call).2.Admission := by
  obtain ⟨error, b, hact, hstate, hflag⟩ | ⟨b, hact, ⟨rfl, hclosed⟩ | ⟨hstate, hclear, rfl⟩⟩ :=
    call_cases (s := s) <;> rw [hact]
  · exact h.leave fun _ _ hclear => hflag.symm.trans hclear
  · refine h.currentState.enter (fun hstate => ?_) fun hstate => ?_ <;>
      exact absurd (hclosed.symm.trans hstate) (by rintro ⟨⟩)
  · -- no probe is in flight when the flag is clear
    have hcur := h.currentState
    have hnone := hcur.clear hstate hclear
    refine Admission.enter ⟨hcur.ids, hcur.periods, hcur.one, fun _ hfalse => ?_⟩
      (fun _ => hnone) fun _ => rfl
    cases hfalse

theorem Admission.act (h : s.Admission) : (s.act op).2.Admission := by
  cases op with
  | wait =>
    rw [System.act]
    split
    · exact ⟨h.ids, h.periods, h.one, h.clear⟩
    · exact h
  | call => exact h.call
  | finish id outcome =>
    rw [System.act]
    split
    next period hcall =>
      have hset : ∀ phase id' call', (s.calls.set id ⟨period, phase⟩).get? id' = some call' →
          ∃ call, s.calls.get? id' = some call ∧ call.period = call'.period := by
        intro phase id' call' hcall'
        obtain ⟨rfl, rfl⟩ | ⟨-, hcall'⟩ := Dict.get?_set_some hcall'
        · exact ⟨_, hcall, rfl⟩
        · exact ⟨call', hcall', rfl⟩
      cases outcome with
      | returned | exception => exact h.calls (hset _)
      | baseException =>
        exact h.calls fun id' call' hcall' => ⟨call', (Dict.get?_erase_some hcall').2, rfl⟩
    · exact h
  | record =>
    rw [System.act]
    split
    next success _ =>
      have hleave := h.leave fun _ hstate => absurd hstate
        (CircuitBreaker.record_state s.breaker s.now success)
      exact hleave.calls fun id' call' hcall' => ⟨call', (Dict.get?_erase_some hcall').2, rfl⟩
    · exact h
  | reset => exact h.leave nofun
  | readState => exact h.currentState

theorem Flagged.act (hflagged : s.Flagged) (hsafe : s.safe op = true) : (s.act op).2.Flagged := by
  cases op with
  | wait =>
    rw [System.act]
    split
    · exact hflagged
    · exact hflagged
  | call =>
    obtain ⟨error, b, hact, hstate, hflag⟩ | ⟨b, hact, hb⟩ := call_cases (s := s) <;> rw [hact]
    · intro hhalf hset
      change b.state = .halfOpen at hhalf
      obtain ⟨id, call, hcall, hperiod⟩ :=
        hflagged (hstate.symm.trans hhalf) (hflag.symm.trans hset)
      exact ⟨id, call, hcall, by rwa [leave_period_eq (hstate.symm.trans hhalf)]⟩
    · intro hhalf _
      change b.state = .halfOpen at hhalf
      refine ⟨s.nextId, _, Dict.get?_set .. |>.trans (if_pos rfl), ?_⟩
      exact if_pos hhalf
  | finish id outcome =>
    rw [System.act]
    split
    next period hcall =>
      have hset : ∀ phase,
          Flagged { s with calls := s.calls.set id ⟨period, phase⟩ } := by
        intro phase hhalf hflag
        obtain ⟨id', call, hcall', hperiod⟩ := hflagged hhalf hflag
        by_cases heq : id' = id
        · subst heq
          rw [hcall] at hcall'
          cases hcall'
          exact ⟨id', _, (Dict.get?_set ..).trans (if_pos rfl), hperiod⟩
        · exact ⟨id', call, (Dict.get?_set_of_ne _ _ heq).trans hcall', hperiod⟩
      cases outcome with
      | returned | exception => exact hset _
      | baseException =>
      intro hhalf hflag
      obtain ⟨id', call, hcall', hperiod⟩ := hflagged hhalf hflag
      have hne : period ≠ some s.period := by
        rw [safe, hcall] at hsafe
        simpa [show s.breaker.state = .halfOpen from hhalf] using hsafe
      have heq : id' ≠ id := by
        rintro rfl
        rw [hcall] at hcall'
        cases hcall'
        exact hne hperiod
      exact ⟨id', call, (Dict.get?_erase_of_ne _ heq).trans hcall', hperiod⟩
    · exact hflagged
  | record =>
    rw [System.act]
    split
    next success _ =>
      exact fun hhalf => absurd hhalf
        (CircuitBreaker.record_state s.breaker s.now success)
    · exact hflagged
  | reset => exact nofun
  | readState =>
    rw [System.act]
    obtain hcur | ⟨-, hcur⟩ :=
      CircuitBreaker.currentState_cases s.breaker s.now
    · rw [hcur]
      intro hhalf hflag
      obtain ⟨id, call, hcall, hperiod⟩ := hflagged hhalf hflag
      exact ⟨id, call, hcall, hperiod.trans (congrArg some (leave_period_eq (s := s) hhalf).symm)⟩
    · rw [hcur]
      exact nofun

theorem call_admitted (hstate : s.breaker.state = .halfOpen)
    (hclear : s.breaker.probeInFlight = false) : (s.act .call).1 = .admitted s.nextId := by
  obtain ⟨error, b, hact, -⟩ | ⟨b, hact, -⟩ := call_cases (s := s)
  · exfalso
    have hcur : s.breaker.currentState s.now = s.breaker :=
      if_neg fun h => absurd (hstate.symm.trans h.1) (by rintro ⟨⟩)
    simp [act, CircuitBreaker.enter, hcur, hstate, hclear] at hact
  · rw [hact]

theorem call_rejected (hstate : s.breaker.state = .halfOpen)
    (hflag : s.breaker.probeInFlight = true) : (s.act .call).1 ≠ .admitted s.nextId := by
  have hcur : s.breaker.currentState s.now = s.breaker :=
    if_neg fun h => absurd (hstate.symm.trans h.1) (by rintro ⟨⟩)
  simp [act, CircuitBreaker.enter, hcur, hstate, hflag]

theorem Flagged.ready (h : s.Flagged) : s.Ready := by
  intro hstate hnone
  refine call_admitted hstate ?_
  by_contra hflag
  obtain ⟨id, hprobe⟩ := h hstate (by simpa using hflag)
  exact hnone id hprobe

theorem act_halfOpen (hstate : s.breaker.state = .halfOpen) (hreset : op ≠ .reset)
    (hrecord : ∀ id, op ≠ .record id) : (s.act op).2.breaker.state = .halfOpen := by
  have hcur : s.breaker.currentState s.now = s.breaker :=
    if_neg fun h => absurd (hstate.symm.trans h.1) (by rintro ⟨⟩)
  cases op with
  | wait =>
    rw [act]
    split
    · exact hstate
    · exact hstate
  | call =>
    obtain ⟨error, b, hact, hb, -⟩ | ⟨b, hact, ⟨rfl, -⟩ | ⟨hhalf, -, rfl⟩⟩ :=
      call_cases (s := s) <;> rw [hact]
    · exact hb.trans hstate
    · exact (congrArg CircuitBreaker.state hcur).trans hstate
    · exact hhalf
  | finish _ outcome =>
    rw [act]
    split
    · cases outcome <;> exact hstate
    · exact hstate
  | record id => exact absurd rfl (hrecord id)
  | reset => exact absurd rfl hreset
  | readState => exact (congrArg CircuitBreaker.state hcur).trans hstate

theorem act_lawful (hsafe : s.safe op = true) : s.Lawful op (s.act op).2 := by
  by_cases hstate : s.breaker.state = .halfOpen
  swap
  · exact ⟨fun h => absurd h hstate, fun h => absurd h hstate⟩
  by_cases hreset : op = .reset
  · subst hreset
    exact ⟨fun _ _ => .inl rfl, nofun⟩
  by_cases hrecord : ∃ id, op = .record id
  · obtain ⟨id, rfl⟩ := hrecord
    rw [safe, decide_eq_false (not_not.mpr hstate), Bool.false_or] at hsafe
    rw [act]
    split
    next success hcall =>
      rw [hcall] at hsafe
      obtain rfl := of_decide_eq_true hsafe
      cases success with
      | true =>
        refine ⟨fun _ _ => .inr ⟨id, rfl, hcall⟩, fun _ hopen => ?_⟩
        cases (CircuitBreaker.recordSuccess_state hstate).symm.trans hopen
      | false =>
        refine ⟨fun _ hclosed => ?_, fun _ _ => ⟨id, rfl, hcall⟩⟩
        cases (CircuitBreaker.recordFailure_state hstate).symm.trans hclosed
    · refine ⟨fun _ hclosed => ?_, fun _ hopen => ?_⟩
      · cases hstate.symm.trans hclosed
      · cases hstate.symm.trans hopen
  · have hhalf := act_halfOpen hstate hreset fun id hid => hrecord ⟨id, hid⟩
    refine ⟨fun _ hclosed => ?_, fun _ hopen => ?_⟩
    · cases hhalf.symm.trans hclosed
    · cases hhalf.symm.trans hopen

theorem record_unlawful {period : Option Nat} {success : Bool}
    (hstate : s.breaker.state = .halfOpen)
    (hcall : s.calls.get? id = some ⟨period, .recording success⟩) (hne : period ≠ some s.period) :
    ¬ s.Lawful (.record id) (s.act (.record id)).2 := by
  intro h
  rw [act, hcall] at h
  cases success with
  | true =>
    obtain ⟨⟨⟩⟩ | ⟨id', heq, hcall'⟩ :=
      h.toClosed hstate (CircuitBreaker.recordSuccess_state hstate)
    cases heq
    rw [hcall] at hcall'
    cases hcall'
    exact hne rfl
  | false =>
    obtain ⟨id', heq, hcall'⟩ := h.toOpen hstate (CircuitBreaker.recordFailure_state hstate)
    cases heq
    rw [hcall] at hcall'
    cases hcall'
    exact hne rfl

theorem finish_unready (h : s.Admission) (hstate : s.breaker.state = .halfOpen)
    (hcall : s.calls.get? id = some ⟨some s.period, .running⟩) :
    ¬ (s.act (.finish id .baseException)).2.Ready := by
  intro hready
  rw [act, hcall] at hready
  have hflag : s.breaker.probeInFlight = true := by
    by_contra hclear
    exact h.clear hstate (by simpa using hclear) id ⟨_, hcall, rfl⟩
  refine call_rejected (s := { s with calls := s.calls.erase id }) hstate hflag (hready hstate ?_)
  rintro id' ⟨call, hcall', hperiod⟩
  obtain ⟨hne, hcall'⟩ := Dict.get?_erase_some hcall'
  exact hne (h.one _ _ _ _ _ hcall' hcall hperiod rfl)

theorem act_lawful_iff (h : s.Admission) (hflagged : s.Flagged) :
    s.Lawful op (s.act op).2 ∧ (s.act op).2.Ready ↔ s.safe op = true := by
  refine ⟨fun ⟨hlawful, hready⟩ => ?_, fun hsafe => ⟨act_lawful hsafe, (hflagged.act hsafe).ready⟩⟩
  by_contra hunsafe
  unfold safe at hunsafe
  rw [Bool.or_eq_true, not_or] at hunsafe
  obtain ⟨hstate, hunsafe⟩ := hunsafe
  have hstate : s.breaker.state = .halfOpen := by simpa using hstate
  cases op with
  | record =>
    dsimp only at hunsafe
    split at hunsafe
    next hcall =>
      exact record_unlawful hstate hcall (fun heq => hunsafe (decide_eq_true heq)) hlawful
    · exact hunsafe rfl
  | finish _ outcome =>
    cases outcome with
    | baseException =>
      dsimp only at hunsafe
      split at hunsafe
      next period hcall =>
        obtain rfl : period = some s.period := by simpa using hunsafe
        exact finish_unready h hstate hcall hready
      · exact hunsafe rfl
    | returned | exception => exact hunsafe rfl
  | wait | call | reset | readState => exact hunsafe rfl

/-! ## Runs -/

variable {failureThreshold resetTimeout : Option Int} {name : Option String} {now : ℚ}
  {ops : List Op} {answers : List Answer}

theorem init_admission : (init failureThreshold resetTimeout name now).Admission := by
  refine ⟨fun _ _ h => ?_, fun _ _ _ h => ?_, fun _ _ _ _ _ h => ?_, fun h => ?_⟩ <;> cases h

/-- In every run without unsafe steps: at most one call of each period runs its `func`; a HALF_OPEN
    breaker without a probe admits the next call; and the next step leaves HALF_OPEN by a reset or
    with the probe's result only, exactly when it is safe too. -/
theorem run_protocol (hsafe : Guarded (fun s op => s.safe op = true) step
      (init failureThreshold resetTimeout name now) ops)
    (hrun : runSteps step (init failureThreshold resetTimeout name now) ops = .ok (answers, s)) :
    (∀ p id id', s.calls.get? id = some ⟨some p, .running⟩ →
      s.calls.get? id' = some ⟨some p, .running⟩ → id = id') ∧ s.Ready ∧
    ∀ op, s.Lawful op (s.act op).2 ∧ (s.act op).2.Ready ↔ s.safe op = true := by
  obtain ⟨h, hflagged⟩ : s.Admission ∧ s.Flagged := by
    refine runSteps_keeps (fun _ _ s => s.Admission ∧ s.Flagged) ?_
      ⟨init_admission, nofun⟩ hsafe hrun
    rintro - - s op o s' - ⟨h, hflagged⟩ hsafe hstep
    rw [step_eq_act] at hstep
    obtain ⟨-, rfl⟩ := Prod.mk.inj (Except.ok.inj hstep)
    exact ⟨h.act, hflagged.act hsafe⟩
  exact ⟨fun p id id' hcall hcall' => h.one p id id' _ _ hcall hcall' rfl rfl, hflagged.ready,
    fun op => act_lawful_iff h hflagged⟩

/-- A failure trips the breaker; after the timeout the probe is in flight. -/
theorem run_protocol_probe : ∃ s answers, runSteps step (init (some 1) (some 30) none 0)
      [.call, .finish 0 .exception, .record 0, .wait 31, .call, .finish 1 .returned] =
        .ok (answers, s) ∧ s.calls.get? 1 = some ⟨some 1, .recording true⟩ ∧ s.Ready ∧
    s.Lawful (.record 1) (s.act (.record 1)).2 := by
  obtain ⟨⟨answers, s⟩, hrun, hobserve⟩ := exists_ok_of_observe
    (x := runSteps step (init (some 1) (some 30) none 0)
      [.call, .finish 0 .exception, .record 0, .wait 31, .call, .finish 1 .returned])
    (f := fun r => (r.2.calls.get? 1, r.2.safe (.record 1)))
    (b := (some ⟨some 1, .recording true⟩, true)) (by decide +kernel)
  obtain ⟨hcall, hsafe⟩ := Prod.mk.inj hobserve
  obtain ⟨-, hready, hlawful⟩ := run_protocol (by decide +kernel) hrun
  exact ⟨s, answers, hrun, hcall, hready, ((hlawful _).mpr hsafe).1⟩

/-- The result of a call that was admitted while CLOSED closes a HALF_OPEN breaker. -/
theorem run_lateResult : ∃ s answers, runSteps step (init (some 1) (some 30) none 0)
      [.call, .call, .finish 1 .exception, .record 1, .wait 31, .readState, .finish 0 .returned] =
        .ok (answers, s) ∧
    s.calls.get? 0 = some ⟨none, .recording true⟩ ∧ s.breaker.state = .halfOpen ∧
    (s.act (.record 0)).2.breaker.state = .closed := by
  obtain ⟨⟨answers, s⟩, hrun, hobserve⟩ := exists_ok_of_observe
    (x := runSteps step (init (some 1) (some 30) none 0)
      [.call, .call, .finish 1 .exception, .record 1, .wait 31, .readState, .finish 0 .returned])
    (f := fun r => (r.2.calls.get? 0, r.2.breaker.state, (r.2.act (.record 0)).2.breaker.state))
    (b := (some ⟨none, .recording true⟩, .halfOpen, .closed)) (by decide +kernel)
  obtain ⟨hcall, hstates⟩ := Prod.mk.inj hobserve
  obtain ⟨hhalf, hclosed⟩ := Prod.mk.inj hstates
  exact ⟨s, answers, hrun, hcall, hhalf, hclosed⟩

end System

end InterviewPrep.Mcp
