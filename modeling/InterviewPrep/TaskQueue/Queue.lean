/-
  The tasks of task_queue.go, the two heaps they wait in, and the functions that move a task under
  the lock: `enqueueLocked` and `finalizeLocked`.  The queue never forgets a task, so a pointer to
  one is its id.  Times are nanoseconds from the zero `time.Time`.

  `Queue`: `Submit`, `Cancel`, the workers, and `Shutdown`.  A step is what one goroutine does
  under the lock, or between two of its locked sections; a step whose goroutine is somewhere else
  changes nothing (`disabled`).
-/
import InterviewPrep.Lib.Dict
import InterviewPrep.Lib.Heaps
import InterviewPrep.Lib.Run
import Mathlib.Algebra.Order.Group.Int

namespace InterviewPrep.TaskQueue

open Lib

/-- `time.Time`; 0 is the zero time. -/
abbrev Time := Int

/-! ## Types -/

inductive Status where
  /-- waiting on dependencies -/
  | blocked
  /-- waiting for `runAt` (delayed task or retry backoff) -/
  | scheduled
  /-- in the priority heap -/
  | ready
  | running
  | succeeded
  /-- exhausted attempts or permanent error; dead-lettered -/
  | failed
  | cancelled
deriving DecidableEq

def Status.terminal : Status → Bool
  | .succeeded | .failed | .cancelled => true
  | _ => false

structure HandlerError where
  message : String
  permanent : Bool

inductive TaskError where
  | dependencyFailed (id : String)
  | cancelled
  | cancelledAfter (e : HandlerError)
  | shutdown
  | handler (e : HandlerError)

structure TaskSpec where
  id : String
  type : String
  payload : String
  priority : Int
  maxAttempts : Int
  /-- per attempt; 0 = none -/
  timeout : Int
  /-- zero = as soon as possible -/
  runAt : Time
  dependsOn : List String

structure TaskResult where
  id : String
  status : Status
  value : Option String
  err : Option TaskError
  attempts : Int

/-- The context of an attempt, with whether it has been cancelled. -/
structure Context where
  timeout : Int
  cancelled : Bool

structure Task where
  spec : TaskSpec
  seq : Nat
  status : Status
  attempts : Int
  runAt : Time
  /-- unfinished dependencies -/
  waitingOn : Int
  /-- tasks waiting on this one -/
  dependents : List String
  /-- set while running -/
  ctx : Option Context
  cancelRequested : Bool
  value : Option String
  err : Option TaskError
  /-- closed on terminal status -/
  done : Bool

/-- What no container holds. -/
def Task.blank : Task :=
  { spec := ⟨"", "", "", 0, 0, 0, 0, []⟩, seq := 0, status := .blocked, attempts := 0, runAt := 0,
    waitingOn := 0, dependents := [], ctx := none, cancelRequested := false, value := none,
    err := none, done := false }

/-- `resultLocked` -/
def Task.result (t : Task) : TaskResult := ⟨t.spec.id, t.status, t.value, t.err, t.attempts⟩

def byPriority (a b : Task) : Bool :=
  if a.spec.priority ≠ b.spec.priority then a.spec.priority > b.spec.priority else a.seq < b.seq

def byRunAt (a b : Task) : Bool :=
  if a.runAt ≠ b.runAt then a.runAt < b.runAt else a.seq < b.seq

inductive Panic where
  | indexOutOfRange
  | closeOfClosedChannel
  | nilPointer
  | stackOverflow

/-! ## Tasks and heaps -/

/-- A heap of task ids; their positions are in a table of their own. -/
abbrev TaskHeap (less : String → String → Bool) := IndexedHeap (References.plain less)

structure TaskTable where
  tasks : Dict String Task
  heapIdx : String → Int
  ready : List String
  delayed : List String
  /-- non-terminal tasks -/
  outstanding : Int
  deadLetters : List TaskResult

namespace TaskTable

variable (tt : TaskTable)

def empty : TaskTable := ⟨Dict.empty, fun _ => -1, [], [], 0, []⟩

def task (id : String) : Task := (tt.tasks.get? id).getD Task.blank

/-- A write to the fields of a task. -/
def update (id : String) (f : Task → Task) : TaskTable :=
  { tt with tasks := tt.tasks.set id (f (tt.task id)) }

def less (order : Task → Task → Bool) (a b : String) : Bool := order (tt.task a) (tt.task b)

/-- An operation of `container/heap` on `ready`. -/
def onReady (f : TaskHeap (tt.less byPriority) → TaskHeap (tt.less byPriority)) : TaskTable :=
  let h := f ⟨tt.ready, tt.heapIdx⟩
  { tt with ready := h.slots, heapIdx := h.mem }

/-- An operation of `container/heap` on `delayed`. -/
def onDelayed (f : TaskHeap (tt.less byRunAt) → TaskHeap (tt.less byRunAt)) : TaskTable :=
  let h := f ⟨tt.delayed, tt.heapIdx⟩
  { tt with delayed := h.slots, heapIdx := h.mem }

/-- `enqueueLocked`, at the time `now`. -/
def enqueueLocked (now : Time) (id : String) : TaskTable :=
  if (tt.task id).runAt ≠ 0 ∧ now < (tt.task id).runAt then
    (tt.update id fun t => { t with status := .scheduled }).onDelayed fun h => h.push id
  else (tt.update id fun t => { t with status := .ready }).onReady fun h => h.push id

/-! ## finalizeLocked -/

/-- The task leaves the heap that it is in; an index outside of the heap panics. -/
def dequeue (id : String) : Except Panic TaskTable :=
  match (tt.task id).status with
  | .ready =>
    if 0 ≤ tt.heapIdx id ∧ tt.heapIdx id < tt.ready.length then
      .ok (tt.onReady fun h => h.remove (tt.heapIdx id).toNat)
    else .error .indexOutOfRange
  | .scheduled =>
    if 0 ≤ tt.heapIdx id ∧ tt.heapIdx id < tt.delayed.length then
      .ok (tt.onDelayed fun h => h.remove (tt.heapIdx id).toNat)
    else .error .indexOutOfRange
  | _ => .ok tt

/-- The terminal status is recorded and `done` closed. -/
def conclude (id : String) (st : Status) (value : Option String) (err : Option TaskError) :
    Except Panic TaskTable :=
  let tt := tt.update id fun t => { t with status := st, value := value, err := err }
  let tt := { tt with
    outstanding := tt.outstanding - 1
    deadLetters :=
      if st = Status.failed then tt.deadLetters ++ [(tt.task id).result] else tt.deadLetters }
  if (tt.task id).done then .error .closeOfClosedChannel
  else .ok (tt.update id fun t => { t with done := true })

/-- One turn of the loop over the dependents, with what is done to those that cannot run. -/
def resolve (cancel : TaskTable → String → Except Panic TaskTable) (clock : String → Time)
    (st : Status) (tt : TaskTable) (d : String) : Except Panic TaskTable :=
  if (tt.task d).status.terminal then .ok tt
  else if st = .succeeded then
    let tt := tt.update d fun t => { t with waitingOn := t.waitingOn - 1 }
    .ok (if (tt.task d).waitingOn = 0 then tt.enqueueLocked (clock d) d else tt)
  else cancel tt d

/-- `finalizeLocked`, to a depth.  `clock` is what `time.Now` reads when a task is enqueued. -/
def finalize (clock : String → Time) : Nat → TaskTable → String → Status → Option String →
    Option TaskError → Except Panic TaskTable
  | 0, _, _, _, _, _ => .error .stackOverflow
  | depth + 1, tt, id, st, value, err =>
    if (tt.task id).status.terminal then .ok tt
    else do
      let tt ← tt.dequeue id
      let tt ← tt.conclude id st value err
      let cancel := fun tt d => finalize clock depth tt d .cancelled none
        (some (.dependencyFailed id))
      let tt ← (tt.task id).dependents.foldlM (resolve cancel clock st) tt
      .ok (tt.update id fun t => { t with dependents := [] })

/-- Each call of `finalizeLocked` in another is for one more task that is not terminal yet. -/
def finalizeLocked (clock : String → Time) (id : String) (st : Status) (value : Option String)
    (err : Option TaskError) : Except Panic TaskTable :=
  finalize clock (tt.tasks.size + 1) tt id st value err

end TaskTable

/-! ## Types -/

inductive Worker where
  /-- about to call `acquire`, or asleep until it does so again -/
  | idle
  | running (id : String)
  | exited
deriving DecidableEq

/-- How far a call of `Shutdown` is. -/
inductive Shutdown where
  /-- it has found that the workers are not started -/
  | starting
  /-- it waits for the workers, or for its context -/
  | draining
  /-- its context has expired, and it has cancelled the base context -/
  | stopping
  | returned
deriving DecidableEq

structure Queue extends TaskTable where
  /-- the task types that have a handler -/
  handlers : List String
  workerCount : Nat
  /-- whether `hardStop` has been called -/
  baseCancelled : Bool
  seq : Nat
  closing : Bool
  started : Bool
  retries : Nat
  workers : List Worker
  shutdowns : List Shutdown

inductive SubmitError where
  | unknownHandler (type : String)
  | closed
  | unknownDependency (id : String)
deriving DecidableEq

inductive CancelError where
  | notFound
  | alreadyFinished
deriving DecidableEq

/-- What a handler returns; a panic is a permanent error. -/
inductive Outcome where
  | value (v : Option String)
  | error (e : HandlerError)

inductive Op where
  | start
  | submit (spec : TaskSpec) (clock : String → Time)
  | cancel (id : String) (clock : String → Time)
  | acquire (worker : Nat) (now : Time)
  /-- The handler returns, with the time to retry at. -/
  | finish (worker : Nat) (outcome : Outcome) (retryAt : Time) (clock : String → Time)
  | shutdown
  | shutdownStart (call : Nat)
  | shutdownDrained (call : Nat)
  | shutdownExpired (call : Nat)
  /-- The rest is cancelled, in some order. -/
  | shutdownSweep (call : Nat) (order : List String) (clock : String → Time)

inductive Answer where
  | disabled
  | done
  | submitted (id : String)
  | notSubmitted (e : SubmitError)
  /-- `none` is `nil`. -/
  | cancel (e : Option CancelError)
  | acquired (id : String)
  | asleep (wait : Int)
  | exited
deriving DecidableEq

namespace Queue

variable (q : Queue)

/-- `New` -/
def new (workers : Int) (handlers : List String) : Queue :=
  { TaskTable.empty with
    handlers := handlers
    workerCount := if workers ≤ 0 then 4 else workers.toNat
    baseCancelled := false
    seq := 0
    closing := false
    started := false
    retries := 0
    workers := []
    shutdowns := [] }

/-! ## Submit and Cancel -/

/-- The loop of `Submit`: whether `id` still waits for dependencies, or it has been cancelled. -/
def register (clock : String → Time) (id : String) :
    TaskTable → List String → Except Panic (Bool × TaskTable)
  | tt, [] => .ok (true, tt)
  | tt, d :: ds =>
    if (tt.task d).status = .succeeded then register clock id tt ds
    else if (tt.task d).status.terminal then
      (tt.finalizeLocked clock id .cancelled none (some (.dependencyFailed d))).map fun tt =>
        (false, tt)
    else
      let tt := tt.update id fun t => { t with waitingOn := t.waitingOn + 1 }
      register clock id (tt.update d fun t => { t with dependents := t.dependents ++ [id] }) ds

/-- The new task of `Submit`; its status is the zero value until it is known. -/
def newTask (spec : TaskSpec) (seq : Nat) : Task :=
  { spec := spec, seq := seq, status := .blocked, attempts := 0, runAt := spec.runAt,
    waitingOn := 0, dependents := [], ctx := none, cancelRequested := false, value := none,
    err := none, done := false }

/-- `Submit` of a task whose dependencies are known. -/
def submitNew (clock : String → Time) (spec : TaskSpec) : Except Panic Queue := do
  let tt := { q.toTaskTable with
    tasks := q.tasks.set spec.id (newTask spec q.seq)
    heapIdx := Function.update q.heapIdx spec.id (-1)
    outstanding := q.outstanding + 1 }
  let (waits, tt) ← register clock spec.id tt spec.dependsOn
  if waits then
    if (tt.task spec.id).waitingOn > 0 then
      .ok { q with toTaskTable := tt.update spec.id fun t => { t with status := .blocked } }
    else .ok { q with toTaskTable := tt.enqueueLocked (clock spec.id) spec.id }
  else .ok { q with toTaskTable := tt }

def submit (clock : String → Time) (spec : TaskSpec) : Except Panic (Answer × Queue) :=
  if spec.type ∉ q.handlers then .ok (.notSubmitted (.unknownHandler spec.type), q)
  else
    let spec := if spec.maxAttempts ≤ 0 then { spec with maxAttempts := 3 } else spec
    if q.closing then .ok (.notSubmitted .closed, q)
    else
      let q := { q with seq := q.seq + 1 }
      let spec := if spec.id = "" then { spec with id := "task-" ++ toString q.seq } else spec
      if (q.tasks.get? spec.id).isSome then .ok (.submitted spec.id, q)
      else
        match spec.dependsOn.find? fun d => (q.tasks.get? d).isNone with
        | some d => .ok (.notSubmitted (.unknownDependency d), q)
        | none => (q.submitNew clock spec).map fun q => (.submitted spec.id, q)

def cancel (clock : String → Time) (id : String) : Except Panic (Answer × Queue) :=
  match q.tasks.get? id with
  | none => .ok (.cancel (some .notFound), q)
  | some t =>
    if t.status.terminal then .ok (.cancel (some .alreadyFinished), q)
    else if t.status = .running then
      match t.ctx with
      | none => .error .nilPointer
      | some ctx =>
        .ok (.cancel none, { q with
          toTaskTable := q.update id fun t =>
            { t with cancelRequested := true, ctx := some { ctx with cancelled := true } } })
    else
      (q.finalizeLocked clock id .cancelled none (some .cancelled)).map fun tt =>
        (.cancel none, { q with toTaskTable := tt })

/-! ## Workers -/

def start : Queue :=
  if q.started then q
  else { q with started := true, workers := List.replicate q.workerCount .idle }

/-- The loop of `acquire`: what is due becomes ready. -/
def promote (now : Time) : Nat → TaskTable → TaskTable
  | 0, tt => tt
  | fuel + 1, tt =>
    match tt.delayed with
    | [] => tt
    | id :: _ =>
      if now < (tt.task id).runAt then tt
      else
        let tt := tt.onDelayed fun h => h.pop
        let tt := tt.update id fun t => { t with status := .ready }
        promote now fuel (tt.onReady fun h => h.push id)

/-- `acquire`, by an idle worker. -/
def acquire (worker : Nat) (now : Time) : Answer × Queue :=
  if q.baseCancelled then (.exited, { q with workers := q.workers.set worker .exited })
  else
    let tt := promote now q.delayed.length q.toTaskTable
    match tt.ready with
    | id :: _ =>
      let tt := tt.onReady fun h => h.pop
      let tt := tt.update id fun t =>
        { t with
          status := .running, attempts := t.attempts + 1, ctx := some ⟨t.spec.timeout, false⟩ }
      (.acquired id, { q with toTaskTable := tt, workers := q.workers.set worker (.running id) })
    | [] =>
      if q.closing ∧ tt.outstanding = 0 then
        (.exited, { q with toTaskTable := tt, workers := q.workers.set worker .exited })
      else
        let wait := match tt.delayed with
          | [] => 0
          | id :: _ => (tt.task id).runAt - now
        (.asleep wait, { q with toTaskTable := tt })

/-- The end of `run`, and `finish`, by the worker that runs the task. -/
def finish (clock : String → Time) (worker : Nat) (id : String) (outcome : Outcome)
    (retryAt : Time) : Except Panic Queue :=
  match (q.task id).ctx with
  | none => .error .nilPointer
  | some _ =>
    let q := { q with
      toTaskTable := q.update id fun t => { t with ctx := none }
      workers := q.workers.set worker .idle }
    let t := q.task id
    match outcome with
    | .value v => (q.finalizeLocked clock id .succeeded v none).map fun tt =>
      { q with toTaskTable := tt }
    | .error e =>
      if t.cancelRequested ∨ q.baseCancelled then
        (q.finalizeLocked clock id .cancelled none (some (.cancelledAfter e))).map fun tt =>
          { q with toTaskTable := tt }
      else if t.attempts < t.spec.maxAttempts ∧ ¬ e.permanent then
        let tt := q.update id fun t => { t with err := some (.handler e), runAt := retryAt }
        .ok { q with
          toTaskTable := tt.enqueueLocked (clock id) id
          retries := q.retries + 1 }
      else
        (q.finalizeLocked clock id .failed none (some (.handler e))).map fun tt =>
          { q with toTaskTable := tt }

/-! ## Shutdown -/

/-- The first locked section of `Shutdown`. -/
def shutdown : Queue :=
  { q with
    closing := true
    shutdowns := q.shutdowns ++ [if q.started then .draining else .starting] }

/-- The loop at the end of `Shutdown`. -/
def sweep (clock : String → Time) (order : List String) : Except Panic TaskTable :=
  order.foldlM (fun tt id => tt.finalizeLocked clock id .cancelled none (some .shutdown))
    q.toTaskTable

/-- `wg.Wait` returns when every worker has. -/
def drained : Bool := q.workers.all (· = .exited)

def step (q : Queue) : Op → Except Panic (Answer × Queue)
  | .start => .ok (.done, q.start)
  | .submit spec clock => q.submit clock spec
  | .cancel id clock => q.cancel clock id
  | .acquire worker now =>
    if q.workers[worker]? = some .idle then .ok (q.acquire worker now) else .ok (.disabled, q)
  | .finish worker outcome retryAt clock =>
    match q.workers[worker]? with
    | some (.running id) => (q.finish clock worker id outcome retryAt).map fun q => (.done, q)
    | _ => .ok (.disabled, q)
  | .shutdown => .ok (.done, q.shutdown)
  | .shutdownStart call =>
    if q.shutdowns[call]? = some .starting then
      .ok (.done, { q.start with shutdowns := q.shutdowns.set call .draining })
    else .ok (.disabled, q)
  | .shutdownDrained call =>
    if q.shutdowns[call]? = some .draining ∧ q.drained then
      .ok (.done, { q with shutdowns := q.shutdowns.set call .returned })
    else .ok (.disabled, q)
  | .shutdownExpired call =>
    if q.shutdowns[call]? = some .draining then
      .ok (.done, { q with baseCancelled := true, shutdowns := q.shutdowns.set call .stopping })
    else .ok (.disabled, q)
  | .shutdownSweep call order clock =>
    if q.shutdowns[call]? = some .stopping ∧ q.drained ∧ order.Perm q.tasks.keys then
      (q.sweep clock order).map fun tt =>
        (.done, { q with toTaskTable := tt, shutdowns := q.shutdowns.set call .returned })
    else .ok (.disabled, q)

end Queue

end InterviewPrep.TaskQueue
