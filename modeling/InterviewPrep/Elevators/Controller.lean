/-
  The controller of a bank of cars: hall calls are given to one car by a strategy and remembered
  in `assignments`; a car that leaves service hands its hall calls back.

  A step of a car is two atomic steps here, as in the source: the section under the lock of the
  car (`Op.step`), which leaves the events with its thread in `queued`, and the running of the
  callbacks (`Op.callbacks`), of which the controller's own one takes the assignment away.  The
  sections under the dispatch lock are one step each.
-/
import InterviewPrep.Elevators.Car
import InterviewPrep.Lib.Dict

namespace InterviewPrep.Elevators

open Lib List

/-! ## Strategies -/

/-- A strategy picks one of the candidates, or none. -/
structure DispatchStrategy where
  choose : HallCall → List ElevatorSnapshot → Option ElevatorSnapshot
  choose_mem : ∀ {call candidates s}, choose call candidates = some s → s ∈ candidates

/-- `Comparator.comparingInt(key).thenComparing(id)`, at most. -/
def notAfter (key : ElevatorSnapshot → Int) (s t : ElevatorSnapshot) : Bool :=
  key s < key t || (key s = key t && s.id ≤ t.id)

/-- The least candidate of a comparator: `candidates.stream().min`. -/
def least (key : ElevatorSnapshot → Int) : List ElevatorSnapshot → Option ElevatorSnapshot
  | [] => none
  | s :: rest => some (rest.foldl (fun s t => if notAfter key s t then s else t) s)

theorem foldl_notAfter_mem (key : ElevatorSnapshot → Int) (rest : List ElevatorSnapshot)
    (s : ElevatorSnapshot) :
    rest.foldl (fun s t => if notAfter key s t then s else t) s ∈ s :: rest := by
  induction rest generalizing s with
  | nil => exact mem_cons_self
  | cons t _ ih =>
    have hmem := ih (if notAfter key s t then s else t)
    rw [foldl_cons]
    split at hmem
    · rw [if_pos ‹_›]
      rcases mem_cons.mp hmem with heq | hrest
      · rw [heq]
        exact mem_cons_self
      · exact mem_cons_of_mem _ (mem_cons_of_mem _ hrest)
    · rw [if_neg ‹_›]
      exact mem_cons_of_mem _ hmem

theorem least_mem {key : ElevatorSnapshot → Int} {candidates : List ElevatorSnapshot}
    {s : ElevatorSnapshot} (h : least key candidates = some s) : s ∈ candidates := by
  cases candidates with
  | nil => cases h
  | cons t rest =>
    rw [← Option.some.inj h]
    exact foldl_notAfter_mem key rest t

/-- `Math.abs` of an `int`. -/
def abs32 (x : Int) : Int := int32 x.natAbs

def etaGoingUp (position lowest highest callFloor : Int) (callDir : Direction) : Int :=
  if callDir = .up ∧ callFloor ≥ position then int32 (callFloor - position)
  else
    let peak := max highest position
    if callDir = .down then
      let peak := max peak callFloor
      int32 (int32 (peak - position) + int32 (peak - callFloor))
    else
      let bottom := min lowest callFloor
      int32 (int32 (int32 (peak - position) + int32 (peak - bottom)) + int32 (callFloor - bottom))

def eta (s : ElevatorSnapshot) (c : HallCall) : Int :=
  match s.direction with
  | .idle => abs32 (int32 (s.floor - c.floor))
  | .up => etaGoingUp s.floor s.lowestStop s.highestStop c.floor c.direction
  | .down =>
    -- the mirrored building
    etaGoingUp (int32 (-s.floor)) (int32 (-s.highestStop)) (int32 (-s.lowestStop))
      (int32 (-c.floor)) c.direction.opposite

def lookEtaStrategy : DispatchStrategy where
  choose call candidates := least (fun s => eta s call) candidates
  choose_mem := least_mem

/-! ## The controller -/

structure ElevatorController where
  elevators : Dict String Elevator
  minFloor : Int
  maxFloor : Int
  strategy : DispatchStrategy
  assignments : Dict HallCall String
  /-- The callbacks that each thread has still to run, between the two sections of a step. -/
  queued : Dict Nat (List Event)

/-- An atomic step: one of the sections, with the thread that a step of a car runs on. -/
inductive Op where
  | requestElevator (floor : Int) (direction : Direction)
  | selectFloor (elevatorId : String) (floor : Int)
  | setMaintenance (elevatorId : String) (on : Bool)
  | step (thread : Nat) (elevatorId : String)
  | callbacks (thread : Nat)

inductive Answer where
  | assigned (elevatorId : String)
  | done
  | threw (thrown : Thrown)
  /-- The step is not one that can be taken now. -/
  | disabled

namespace ElevatorController

/-- The cars, `E1` first, all on the lowest floor. -/
def newCars (minFloor maxFloor : Int) : Nat → Except Thrown (Dict String Elevator)
  | 0 => .ok Dict.empty
  | i + 1 => do
      let m ← newCars minFloor maxFloor i
      let e ← Elevator.new ("E" ++ toString (i + 1)) minFloor maxFloor minFloor
      return m.set e.id e

def new (cars : Nat) (minFloor maxFloor : Int) (strategy : DispatchStrategy) :
    Except Thrown ElevatorController := do
  let elevators ← newCars minFloor maxFloor cars
  return ⟨elevators, minFloor, maxFloor, strategy, Dict.empty, Dict.empty⟩

variable (c : ElevatorController)

/-- The snapshots of the cars in service that have not refused the call. -/
def candidates (rejected : List String) : List ElevatorSnapshot :=
  (c.elevators.values.map Elevator.snapshot).filter fun s =>
    s.state ≠ .maintenance && !rejected.contains s.id

/-- The `while (true)` of `dispatchLocked`: each turn refuses another car. -/
def dispatchLoop (call : HallCall) : Nat → List String →
    Except Thrown (String × ElevatorController)
  | 0, _ => .error .noElevatorInService
  | turns + 1, rejected =>
    match c.strategy.choose call (c.candidates rejected) with
    | none => .error .noElevatorInService
    | some pick =>
      match c.elevators.get? pick.id with
      | none => .error (.unknownElevator pick.id)
      | some e =>
        match e.addHallCall call with
        | .error thrown => .error thrown
        | .ok (true, e') =>
          .ok (pick.id, { c with
            elevators := c.elevators.set pick.id e'
            assignments := c.assignments.set call pick.id })
        | .ok (false, _) => dispatchLoop call turns (pick.id :: rejected)

def dispatchLocked (call : HallCall) : Except Thrown (String × ElevatorController) :=
  match c.assignments.get? call with
  | some existing => .ok (existing, c)
  | none => c.dispatchLoop call (c.elevators.size + 1) []

/-- The validation before the dispatch lock is taken. -/
def hallCall (floor : Int) (direction : Direction) : Except Thrown HallCall := do
  if floor < c.minFloor ∨ floor > c.maxFloor then throw (.floorOutOfRange floor)
  if (floor = c.maxFloor ∧ direction = .up) ∨ (floor = c.minFloor ∧ direction = .down) then
    throw (.noButton direction floor)
  HallCall.make floor direction

def requestElevator (floor : Int) (direction : Direction) :
    Except Thrown (String × ElevatorController) := do
  let call ← c.hallCall floor direction
  c.dispatchLocked call

def selectFloor (elevatorId : String) (floor : Int) : Except Thrown ElevatorController :=
  match c.elevators.get? elevatorId with
  | none => .error (.unknownElevator elevatorId)
  | some e => do
      let e' ← e.addCarCall floor
      return { c with elevators := c.elevators.set elevatorId e' }

/-- `assignments.remove(call, elevatorId)` -/
def release (call : HallCall) (elevatorId : String) : ElevatorController :=
  if c.assignments.get? call = some elevatorId then
    { c with assignments := c.assignments.erase call }
  else c

/-- The hall calls that a car has handed back, given to other cars one after the other. -/
def redispatch (elevatorId : String) : ElevatorController → List HallCall →
    Except Thrown Unit × ElevatorController
  | c, [] => (.ok (), c)
  | c, orphan :: rest =>
    let c₁ := c.release orphan elevatorId
    match c₁.dispatchLocked orphan with
    | .ok (_, c₂) => redispatch elevatorId c₂ rest
    | .error .noElevatorInService => redispatch elevatorId c₁ rest
    | .error thrown => (.error thrown, c₁)

def setMaintenance (elevatorId : String) (on : Bool) : Except Thrown Unit × ElevatorController :=
  match c.elevators.get? elevatorId with
  | none => (.error (.unknownElevator elevatorId), c)
  | some e =>
    if !on then (.ok (), { c with elevators := c.elevators.set elevatorId e.exitMaintenance })
    else
      let (orphaned, e') := e.enterMaintenance
      redispatch elevatorId { c with elevators := c.elevators.set elevatorId e' } orphaned

/-- What the controller's own listener does on an event. -/
def publish : Event → ElevatorController
  | .hallCallServed elevatorId call => c.release call elevatorId
  | .stopped _ _ => c

/-- The answer to an atomic step, and the state after it. -/
def act : Op → Answer × ElevatorController
  | .requestElevator floor direction =>
    match c.requestElevator floor direction with
    | .error thrown => (.threw thrown, c)
    | .ok (elevatorId, c') => (.assigned elevatorId, c')
  | .selectFloor elevatorId floor =>
    match c.selectFloor elevatorId floor with
    | .error thrown => (.threw thrown, c)
    | .ok c' => (.done, c')
  | .setMaintenance elevatorId on =>
    match c.setMaintenance elevatorId on with
    | (.error thrown, c') => (.threw thrown, c')
    | (.ok (), c') => (.done, c')
  | .step thread elevatorId =>
    match c.queued.get? thread, c.elevators.get? elevatorId with
    | none, some e =>
      (.done, { c with
        elevators := c.elevators.set elevatorId e.stepLocked.2
        queued := c.queued.set thread e.stepLocked.1 })
    | _, _ => (.disabled, c)
  | .callbacks thread =>
    match c.queued.get? thread with
    | none => (.disabled, c)
    | some events => (.done, events.foldl publish { c with queued := c.queued.erase thread })

def step (c : ElevatorController) (op : Op) : Except Empty (Answer × ElevatorController) :=
  .ok (c.act op)

end ElevatorController

end InterviewPrep.Elevators
