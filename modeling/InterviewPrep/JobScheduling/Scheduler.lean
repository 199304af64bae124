/-
  Jobs, their states and the orders they run in (job_scheduler.py).  Times are exact; a job is
  known by the number `n` of its id `job-n`.

  `JobScheduler` as a machine whose steps are what runs on the event loop without an `await`: a
  submit, a cancel, a worker that takes a job and starts its attempt, the end of an attempt, and
  stop.

  Job objects are there before they are submitted; `_jobs` holds the numbers of those that were
  and are not forgotten.  `_transition` tells a listener that records everything.
-/
import InterviewPrep.Lib.Binary64
import InterviewPrep.Lib.Dict
import InterviewPrep.Lib.Heaps
import InterviewPrep.Lib.Run
import Mathlib.Data.Finset.Basic
import Mathlib.Data.Prod.Lex
import Mathlib.Data.Rat.Floor

namespace InterviewPrep.JobScheduling

open Lib

abbrev JobId := Nat

/-! ## The state machine of a job -/

inductive JobPriority where
  | low
  | medium
  | high
  | critical

inductive JobStatus where
  | pending
  | running
  | retryWait
  | completed
  | failed
  | timedOut
  | cancelled
deriving DecidableEq

/-- `_TERMINAL` -/
def JobStatus.isTerminal : JobStatus → Bool
  | completed | failed | timedOut | cancelled => true
  | pending | running | retryWait => false

/-- `_TRANSITIONS`; a terminal status has no edge. -/
def transitions : JobStatus → List JobStatus
  | .pending => [.running, .cancelled]
  | .running => [.completed, .failed, .timedOut, .cancelled, .retryWait]
  | .retryWait => [.running, .cancelled]
  | _ => []

@[simp] theorem transitions_of_isTerminal {status : JobStatus} (h : status.isTerminal = true) :
    transitions status = [] := by
  cases status <;> first | rfl | cases h

theorem cancelled_mem_transitions {status : JobStatus} (h : ¬ status.isTerminal = true) :
    JobStatus.cancelled ∈ transitions status := by
  cases status <;> first | decide | exact absurd rfl h

/-! ## Jobs -/

structure RetryPolicy where
  maxRetries : Int
  baseDelay : ℚ
  maxDelay : ℚ
  jitter : Bool
deriving DecidableEq

/-- The wait after the `attempt`-th attempt has failed; `draw` in [0, 1] is the jitter.  None when
it raises `OverflowError`. -/
def RetryPolicy.delay (retry : RetryPolicy) (attempt : Nat) (draw : ℚ) : Option ℚ :=
  (Binary64.cappedBackoff retry.baseDelay retry.maxDelay (Binary64.ofRat (2 ^ (attempt - 1)))).map
    fun cap => if retry.jitter then draw * cap else cap

theorem RetryPolicy.delay_eq_none_iff (retry : RetryPolicy) {attempt : Nat} (draw : ℚ) :
    retry.delay attempt draw = none ↔ 1025 ≤ attempt := by
  rw [delay, Option.map_eq_none_iff, Binary64.cappedBackoff_eq_none_iff,
    Binary64.ofRat_two_pow_eq_none_iff]
  omega

/-- What `last_error` says. -/
inductive Failure where
  | cancelled
  /-- a dependency had not completed when the job was submitted -/
  | upstreamIncomplete (dependency : JobId)
  | upstream (dependency : JobId) (status : JobStatus)
  | timedOut
  | raised (message : String)

structure Job where
  priority : JobPriority
  retry : RetryPolicy
  deadline : Option ℚ
  status : JobStatus
  attempts : Nat
  lastError : Option Failure
  submittedAt : ℚ
  /-- the earliest time it may start -/
  runAt : ℚ
  seq : Nat

/-- A job that was not submitted. -/
def Job.new (priority : JobPriority) (retry : RetryPolicy) (deadline : Option ℚ) : Job :=
  ⟨priority, retry, deadline, .pending, 0, none, 0, 0, 0⟩

/-! ## Strategies -/

/-- The job with the least key runs first. -/
structure SchedulingStrategy (K : Type) where
  key : Job → K

def fifoStrategy : SchedulingStrategy Nat where
  key job := job.seq

/-! ## The scheduler -/

/-- What `submit` raises. `recursion` is the end of the fuel of `finish`, which never comes. -/
inductive SchedulerError where
  | stopped
  | alreadySubmitted (job : JobId)
  | unknownDependencies (jobs : List JobId)
  | invalidTransition (job : JobId) (old new : JobStatus)
  | recursion
deriving DecidableEq

/-- What a listener is called with. -/
structure Notification where
  job : JobId
  old : JobStatus
  new : JobStatus

/-- What the clock reads in a step: first, and whenever a job is enqueued. -/
structure Clock where
  now : ℚ
  enqueue : JobId → ℚ

structure JobScheduler (K : Type) where
  strategy : SchedulingStrategy K
  numWorkers : Nat
  historyLimit : Nat
  objects : JobId → Job
  /-- the keys of `_jobs` -/
  jobs : List JobId
  /-- heap of (strategy key, job) -/
  ready : List (K ×ₗ JobId)
  /-- heap of (run_at, seq, job) -/
  delayed : List (ℚ ×ₗ ℕ ×ₗ JobId)
  /-- job -> unmet dependencies -/
  blocked : Dict JobId (List JobId)
  /-- job -> jobs waiting on it -/
  dependents : Dict JobId (List JobId)
  /-- job -> the worker whose attempt is in flight -/
  attempts : Dict JobId Nat
  /-- the jobs whose last attempt ended in an exception of `_after_failure` -/
  abandoned : List JobId
  cancelRequested : Finset JobId
  /-- terminal jobs, oldest first -/
  finished : List JobId
  /-- the next number of `_seq` -/
  seq : Nat
  unfinished : Int
  /-- the event is set -/
  idle : Bool
  stopping : Bool
  notified : List Notification

namespace JobScheduler

variable {K : Type} [LinearOrder K]

def new (strategy : SchedulingStrategy K) (numWorkers historyLimit : Nat) (objects : JobId → Job) :
    JobScheduler K where
  strategy := strategy
  numWorkers := numWorkers
  historyLimit := historyLimit
  objects := objects
  jobs := []
  ready := []
  delayed := []
  blocked := Dict.empty
  dependents := Dict.empty
  attempts := Dict.empty
  abandoned := []
  cancelRequested := ∅
  finished := []
  seq := 0
  unfinished := 0
  idle := true
  stopping := false
  notified := []

variable (s : JobScheduler K)

def status (id : JobId) : JobStatus := (s.objects id).status

/-- Write to a job object. -/
def modify (id : JobId) (f : Job → Job) : JobScheduler K :=
  { s with objects := fun j => if j = id then f (s.objects id) else s.objects j }

/-- `_transition` -/
def transition (id : JobId) (new : JobStatus) : Except SchedulerError (JobScheduler K) :=
  let old := s.status id
  if new ∉ transitions old then .error (.invalidTransition id old new)
  else
    let s := s.modify id fun job => { job with status := new }
    .ok { s with notified := s.notified ++ [⟨id, old, new⟩] }

/-- `_enqueue`, when the clock reads `now`. -/
def enqueue (id : JobId) (now : ℚ) : JobScheduler K :=
  let job := s.objects id
  if now < job.runAt then
    { s with delayed := heappush s.delayed (toLex (job.runAt, toLex (job.seq, id))) }
  else { s with ready := heappush s.ready (toLex (s.strategy.key job, id)) }

/-- The loop of `_remember_finished`: what is left of `_finished` and of `_jobs`. -/
def evict (historyLimit : Nat) : List JobId → List JobId → List JobId × List JobId
  | [], jobs => ([], jobs)
  | old :: finished, jobs =>
    if historyLimit < (old :: finished).length then evict historyLimit finished (jobs.erase old)
    else (old :: finished, jobs)

/-- `_remember_finished` -/
def rememberFinished (id : JobId) : JobScheduler K :=
  let (finished, jobs) := evict s.historyLimit (s.finished ++ [id]) s.jobs
  { s with finished, jobs }

/-- The end of `_finish`: one job less to wait for. -/
def countOff (id : JobId) : JobScheduler K :=
  let unfinished := s.unfinished - 1
  { s with unfinished, idle := if unfinished = 0 then true else s.idle }.rememberFinished id

/-- `dependent` waits for `id` no longer. -/
def unblock (id dependent : JobId) (now : ℚ) : JobScheduler K :=
  match s.blocked.get? dependent with
  | none => s
  | some unmet =>
    let unmet := unmet.erase id
    if unmet = [] then { s with blocked := s.blocked.erase dependent }.enqueue dependent now
    else { s with blocked := s.blocked.set dependent unmet }

/-- `_finish`; the cascade is at most `fuel` jobs deep. -/
def finish (clock : Clock) : Nat → JobScheduler K → JobId → JobStatus → Option Failure →
    Except SchedulerError (JobScheduler K)
  | 0, _, _, _, _ => .error .recursion
  | fuel + 1, s, id, status, error =>
    if (s.status id).isTerminal then .ok s
    else do
      let s ← (s.modify id fun job => { job with lastError := error.or job.lastError }).transition
        id status
      let waiting := (s.dependents.get? id).getD []
      let s ← waiting.foldlM (fun s dependent =>
          if dependent ∉ s.jobs ∨ (s.status dependent).isTerminal then .ok s
          else if status = .completed then .ok (s.unblock id dependent (clock.enqueue dependent))
          -- cascade: upstream did not complete
          else finish clock fuel s dependent .cancelled (some (.upstream id status)))
        { s with
          cancelRequested := s.cancelRequested.erase id
          blocked := s.blocked.erase id
          dependents := s.dependents.erase id }
      .ok (s.countOff id)

/-- `_finish` with fuel for a cascade through every job. -/
def finishJob (id : JobId) (status : JobStatus) (error : Option Failure) (clock : Clock) :
    Except SchedulerError (JobScheduler K) :=
  finish clock (s.jobs.length + 1) s id status error

/-- `submit`, once it has checked its arguments. -/
def admitJob (id : JobId) (delay : ℚ) (deps : List JobId) (clock : Clock) :
    Except SchedulerError (JobScheduler K) :=
  let s := s.modify id fun job =>
    { job with seq := s.seq, submittedAt := clock.now, runAt := clock.now + max 0 delay }
  let s := { s with
    seq := s.seq + 1, jobs := s.jobs ++ [id], unfinished := s.unfinished + 1, idle := false }
  match deps.find? fun d => (s.status d).isTerminal ∧ s.status d ≠ .completed with
  | some d => s.finishJob id .cancelled (some (.upstreamIncomplete d)) clock
  | none =>
    let unmet := deps.filter fun d => s.status d ≠ .completed
    if unmet = [] then .ok (s.enqueue id (clock.enqueue id))
    else .ok { s with
      blocked := s.blocked.set id unmet
      dependents := unmet.foldl
        (fun dependents d => dependents.set d ((dependents.get? d).getD [] ++ [id])) s.dependents }

/-- What `submit` raises. -/
def submitError (id : JobId) (deps : List JobId) : Option SchedulerError :=
  if s.stopping then some .stopped
  else if id ∈ s.jobs ∨ s.status id ≠ .pending ∨ (s.objects id).attempts ≠ 0 then
    some (.alreadySubmitted id)
  else
    match deps.filter (· ∉ s.jobs) with
    | [] => none
    | unknown => some (.unknownDependencies (unknown.insertionSort (· ≤ ·)))

/-- `cancel` -/
def cancel (id : JobId) (clock : Clock) : Except SchedulerError (Bool × JobScheduler K) :=
  if id ∉ s.jobs ∨ (s.status id).isTerminal then .ok (false, s)
  else if s.status id = .running then
    .ok (true, { s with cancelRequested := insert id s.cancelRequested })
  else (s.finishJob id .cancelled (some .cancelled) clock).map fun s => (true, s)

/-- The loop of `_promote_due`. -/
def promoteDue (now : ℚ) : List (ℚ ×ₗ ℕ ×ₗ JobId) → JobScheduler K → JobScheduler K
  | [], s => { s with delayed := [] }
  | entry :: delayed, s =>
    if (ofLex entry).1 ≤ now then
      let id := (ofLex (ofLex entry).2).2
      promoteDue now delayed
        (if (s.status id).isTerminal then s
         else { s with ready := heappush s.ready (toLex (s.strategy.key (s.objects id), id)) })
    else { s with delayed := entry :: delayed }

/-- The loop of `_take_next`. -/
def takeReady : List (K ×ₗ JobId) → JobScheduler K →
    Except SchedulerError (Option JobId × JobScheduler K)
  | [], s => .ok (none, { s with ready := [] })
  | entry :: ready, s =>
    let id := (ofLex entry).2
    -- lazily deleted
    if (s.status id).isTerminal then takeReady ready s
    else ({ s with ready }.transition id .running).map fun s => (some id, s)

/-- `_take_next` -/
def takeNext (now : ℚ) : Except SchedulerError (Option JobId × JobScheduler K) :=
  let s := promoteDue now s.delayed s
  takeReady s.ready s

/-- `_run_attempt` up to the wait for the attempt. -/
def startAttempt (id : JobId) (worker : Nat) : JobScheduler K :=
  let s := s.modify id fun job => { job with attempts := job.attempts + 1 }
  { s with attempts := s.attempts.set id worker }

/-- `_after_failure`; when the delay raises, `_worker` logs it and goes on. -/
def afterFailure (id : JobId) (error : Failure) (retryable timedOut : Bool) (draw : ℚ)
    (clock : Clock) :
    Except SchedulerError (JobScheduler K) :=
  let s := s.modify id fun job => { job with lastError := some error }
  let job := s.objects id
  if retryable ∧ (job.attempts : Int) ≤ job.retry.maxRetries ∧ ¬ s.stopping then
    match job.retry.delay job.attempts draw with
    | none => .ok { s with abandoned := s.abandoned ++ [id] }
    | some backoff =>
      let s := s.modify id fun job => { job with runAt := clock.now + backoff }
      (s.transition id .retryWait).map fun s => s.enqueue id (clock.enqueue id)
  else s.finishJob id (if timedOut then .timedOut else .failed) (some error) clock

/-- How the wait for an attempt ends. -/
inductive AttemptOutcome where
  | succeeded
  | raised (message : String) (retryable : Bool)
  | timedOut
  | cancelled

/-- `_run_attempt` after the wait for the attempt. -/
def endAttempt (id : JobId) (outcome : AttemptOutcome) (draw : ℚ) (clock : Clock) :
    Except SchedulerError (JobScheduler K) :=
  let s := { s with attempts := s.attempts.erase id }
  if id ∈ s.cancelRequested then s.finishJob id .cancelled (some .cancelled) clock
  else
    match outcome with
    | .cancelled => s.finishJob id .cancelled (some .cancelled) clock
    | .timedOut => s.afterFailure id .timedOut true true draw clock
    | .raised message retryable => s.afterFailure id (.raised message) retryable false draw clock
    | .succeeded => s.finishJob id .completed none clock

/-- `stop`; a job that is running is cancelled by request only. -/
def stop (cancelRunning : Bool) : JobScheduler K :=
  { s with
    stopping := true
    cancelRequested :=
      if cancelRunning then s.cancelRequested ∪ s.attempts.keys.toFinset else s.cancelRequested }

end JobScheduler

/-! ## The machine -/

inductive SchedulerStep where
  | submit (job : JobId) (delay : ℚ) (dependsOn : List JobId) (clock : Clock)
  | cancel (job : JobId) (clock : Clock)
  | take (worker : Nat) (clock : Clock)
  | endAttempt (job : JobId) (outcome : JobScheduler.AttemptOutcome) (draw : ℚ) (clock : Clock)
  | stop (cancelRunning : Bool)

inductive SchedulerEvent where
  | submitted (job : JobId) (dependsOn : List JobId)
  | rejected (job : JobId) (error : SchedulerError)
  | cancelled (job : JobId) (result : Bool)
  | took (worker : Nat) (job : Option JobId)
  | attemptEnded (job : JobId)
  | stopped
deriving DecidableEq

/-- The job that the step submitted. -/
def SchedulerEvent.submittedJob : SchedulerEvent → Option JobId
  | submitted job _ => some job
  | _ => none

/-- Why a step is not taken: it is not its turn, or an error that no method documents leaves it. -/
inductive NoStep where
  | notEnabled
  | raised (e : SchedulerError)

namespace JobScheduler

variable {K : Type} [LinearOrder K]

def Idle (s : JobScheduler K) (worker : Nat) : Prop :=
  worker < s.numWorkers ∧ worker ∉ s.attempts.values

instance (s : JobScheduler K) (worker : Nat) : Decidable (s.Idle worker) :=
  inferInstanceAs (Decidable (_ ∧ _))

/-- What a method raises leaves the step. -/
def raised {α : Type} : Except SchedulerError α → Except NoStep α
  | .ok a => .ok a
  | .error e => .error (.raised e)

def step (s : JobScheduler K) : SchedulerStep → Except NoStep (SchedulerEvent × JobScheduler K)
  | .submit id delay dependsOn clock =>
    match s.submitError id dependsOn.dedup with
    | some e => .ok (.rejected id e, s)
    | none =>
      (raised (s.admitJob id delay dependsOn.dedup clock)).map fun s =>
        (.submitted id dependsOn, s)
  | .cancel id clock => (raised (s.cancel id clock)).map fun r => (.cancelled id r.1, r.2)
  | .take worker clock =>
    if s.Idle worker ∧ ¬ s.stopping then
      (raised (s.takeNext clock.now)).map fun r =>
        match r with
        | (none, s) => (.took worker none, s)
        | (some id, s) => (.took worker (some id), s.startAttempt id worker)
    else .error .notEnabled
  | .endAttempt id outcome draw clock =>
    match s.attempts.get? id with
    | none => .error .notEnabled
    | some _ => (raised (s.endAttempt id outcome draw clock)).map fun s => (.attemptEnded id, s)
  | .stop cancelRunning => .ok (.stopped, s.stop cancelRunning)

end JobScheduler

end InterviewPrep.JobScheduling
