/-
  One elevator car: its floor, direction and state, and the stops it owes as three sets of floors
  (`carStops` for the buttons in the cab, `upCalls` and `downCalls` for the hall buttons).
  `stepLocked` is the part of `step()` under the lock of the car; it answers with the events that
  are published afterwards.

  A `HallCall` carries a proof that its direction is UP or DOWN.  `int` arithmetic that can leave
  32 bits goes through `int32`.

  What each operation does to the hall calls that a car owes: `addHallCall` adds one,
  `enterMaintenance` hands all of them back, and a step takes off exactly the one that it
  publishes as served (`stepLocked_owes`).
-/
import Mathlib.Data.Finset.Sort
import Mathlib.Data.Int.ConditionallyCompleteOrder

namespace InterviewPrep.Elevators

open Finset

/-! ## Values -/

inductive Direction where
  | up
  | down
  | idle
  deriving DecidableEq

namespace Direction

def delta : Direction → Int
  | up => 1
  | down => -1
  | idle => 0

def opposite : Direction → Direction
  | up => down
  | down => up
  | idle => idle

theorem opposite_ne_idle {d : Direction} (h : d ≠ idle) : d.opposite ≠ idle := by
  cases d
  · decide
  · decide
  · exact absurd rfl h

end Direction

inductive ElevatorState where
  | idle
  | moving
  | doorsOpen
  | maintenance
  deriving DecidableEq

/-- A hall button press. -/
structure HallCall where
  floor : Int
  direction : Direction
  proper : direction ≠ .idle
  deriving DecidableEq

def HallCall.up (floor : Int) : HallCall := ⟨floor, .up, by decide⟩

def HallCall.down (floor : Int) : HallCall := ⟨floor, .down, by decide⟩

/-- What the methods throw. -/
inductive Thrown where
  | needTwoFloors
  | badStartFloor
  | needsDirection
  | floorOutOfRange (floor : Int)
  | noButton (direction : Direction) (floor : Int)
  | unknownElevator (id : String)
  | outOfService (id : String)
  | noElevatorInService

/-- The constructor of a hall call. -/
def HallCall.make (floor : Int) (direction : Direction) : Except Thrown HallCall :=
  if h : direction = .idle then .error .needsDirection else .ok ⟨floor, direction, h⟩

/-- A Java `int` result: 32 bits, two's complement. -/
def int32 (x : Int) : Int := x.bmod (2 ^ 32)

/-- A view of a car, taken under its lock. -/
structure ElevatorSnapshot where
  id : String
  floor : Int
  direction : Direction
  state : ElevatorState
  pendingStops : Nat
  lowestStop : Int
  highestStop : Int

/-- A callback that `step()` has queued for a listener. -/
inductive Event where
  | hallCallServed (elevatorId : String) (call : HallCall)
  | stopped (elevatorId : String) (floor : Int)

/-! ## The car -/

structure Elevator where
  id : String
  minFloor : Int
  maxFloor : Int
  floor : Int
  direction : Direction
  state : ElevatorState
  carStops : Finset Int
  upCalls : Finset Int
  downCalls : Finset Int

namespace Elevator

variable (e : Elevator)

def new (id : String) (minFloor maxFloor startFloor : Int) : Except Thrown Elevator :=
  if minFloor ≥ maxFloor then .error .needTwoFloors
  else if startFloor < minFloor ∨ startFloor > maxFloor then .error .badStartFloor
  else .ok ⟨id, minFloor, maxFloor, startFloor, .idle, .idle, ∅, ∅, ∅⟩

/-- The hall calls of a direction: `d == Direction.UP ? upCalls : downCalls`. -/
def calls (d : Direction) : Finset Int := if d = .up then e.upCalls else e.downCalls

/-- The car with other hall calls of a direction. -/
def setCalls (d : Direction) (floors : Finset Int) : Elevator :=
  if d = .up then { e with upCalls := floors } else { e with downCalls := floors }

def snapshot : ElevatorSnapshot :=
  let stops := e.carStops ∪ e.upCalls ∪ e.downCalls
  { id := e.id
    floor := e.floor
    direction := e.direction
    state := e.state
    pendingStops := e.carStops.card + e.upCalls.card + e.downCalls.card
    lowestStop := stops.fold min e.floor fun f => f
    highestStop := stops.fold max e.floor fun f => f }

def checkFloor (f : Int) : Except Thrown Unit :=
  if f < e.minFloor ∨ f > e.maxFloor then .error (.floorOutOfRange f) else .ok ()

/-- `false` if the car is out of service. -/
def addHallCall (call : HallCall) : Except Thrown (Bool × Elevator) := do
  e.checkFloor call.floor
  if e.state = .maintenance then return (false, e)
  return (true, e.setCalls call.direction (insert call.floor (e.calls call.direction)))

def addCarCall (target : Int) : Except Thrown Elevator := do
  e.checkFloor target
  if e.state = .maintenance then throw (.outOfService e.id)
  if target = e.floor ∧ e.state = .doorsOpen then return e
  return { e with carStops := insert target e.carStops }

/-- The hall calls that the car owes, lower floors first, those going up before those going down. -/
def owed : List HallCall :=
  (e.upCalls.sort (· ≤ ·)).map .up ++ (e.downCalls.sort (· ≤ ·)).map .down

/-- The hall calls that the car owed, and the car out of service. -/
def enterMaintenance : List HallCall × Elevator :=
  (e.owed, { e with
    upCalls := ∅, downCalls := ∅, carStops := ∅, direction := .idle, state := .maintenance })

def exitMaintenance : Elevator :=
  if e.state = .maintenance then { e with state := .idle } else e

/-! ## LOOK -/

/-- The floors of a set above the car, or below it. -/
def ahead (d : Direction) (floors : Finset Int) : Finset Int :=
  if d = .up then floors.filter (e.floor < ·) else floors.filter (· < e.floor)

def hasStopAhead (d : Direction) : Bool :=
  if d = .idle then false
  else [e.carStops, e.upCalls, e.downCalls].any fun s => decide (e.ahead d s).Nonempty

/-- The nearest stop of each of the three sets in a direction, and the nearest of these. -/
def nearest (d : Direction) : Int :=
  let stops := e.ahead d e.carStops ∪ e.ahead d e.upCalls ∪ e.ahead d e.downCalls
  if d = .up then stops.fold min (2 ^ 31 - 1) fun f => f
  else stops.fold max (-2 ^ 31) fun f => f

def hasAnyStop : Bool :=
  e.carStops.Nonempty ∨ e.upCalls.Nonempty ∨ e.downCalls.Nonempty

def chooseDirection : Direction :=
  let above := e.hasStopAhead .up
  let below := e.hasStopAhead .down
  match e.direction with
  | .up => if above then .up else if below then .down else .idle
  | .down => if below then .down else if above then .up else .idle
  | .idle =>
    if !above && !below then .idle
    else if !below then .up
    else if !above then .down
    else if int32 (e.nearest .up - e.floor) ≤ int32 (e.floor - e.nearest .down) then .up
    else .down

/-- Whether there is a hall call of the direction at the floor of the car; it is taken off. -/
def removeHallCall (d : Direction) : Bool × Elevator :=
  (decide (e.floor ∈ e.calls d), e.setCalls d ((e.calls d).erase e.floor))

/-- The direction in which the car would accept a hall call. -/
def preferred : { d : Direction // d ≠ .idle } :=
  if h : e.direction ≠ .idle then ⟨e.direction, h⟩
  else if e.floor ∈ e.upCalls then ⟨.up, by decide⟩
  else ⟨.down, by decide⟩

/-- The hall call that the car takes at its floor, if any, and the car without it. -/
def takeHallCall : Option HallCall × Elevator :=
  let d := e.preferred
  let (found, e₁) := e.removeHallCall d.1
  if found then (some ⟨e.floor, d.1, d.2⟩, e₁)
  else if !e₁.hasStopAhead d.1 then
    -- the end of the sweep: turn around here
    let (turned, e₂) := e₁.removeHallCall d.1.opposite
    (if turned then some ⟨e.floor, d.1.opposite, Direction.opposite_ne_idle d.2⟩ else none, e₂)
  else (none, e₁)

/-- Whether the doors open here, the events to publish, and the car. -/
def serveCurrentFloor : Bool × List Event × Elevator :=
  let carStop := decide (e.floor ∈ e.carStops)
  let (served, e₁) := takeHallCall { e with carStops := e.carStops.erase e.floor }
  match served with
  | none => if carStop then (true, [.stopped e.id e.floor], e₁) else (false, [], e₁)
  | some call =>
    (true, [.hallCallServed e.id call, .stopped e.id e.floor],
      { e₁ with direction := call.direction })

/-- `case IDLE, MOVING` of `step()`: open the doors here, or move a floor. -/
def serveOrMove : List Event × Elevator :=
  match e.serveCurrentFloor with
  | (true, events, e₁) => (events, { e₁ with state := .doorsOpen })
  | (false, events, e₁) =>
    let d := e₁.chooseDirection
    if d = .idle then (events, { e₁ with direction := d, state := .idle })
    else (events, { e₁ with direction := d, floor := e₁.floor + d.delta, state := .moving })

/-- The part of `step()` under the lock: the events to publish, and the car. -/
def stepLocked : List Event × Elevator :=
  match e.state with
  | .maintenance => ([], e)
  | .doorsOpen =>
    if e.hasAnyStop then ([], { e with state := .moving })
    else ([], { e with state := .idle, direction := .idle })
  | .idle | .moving => e.serveOrMove

variable {e e' e'' : Elevator} {call call' : HallCall} {d : Direction}

/-- The car has the hall call in its `upCalls` or `downCalls`. -/
def Owes (e : Elevator) (call : HallCall) : Prop := call.floor ∈ e.calls call.direction

instance : Decidable (e.Owes call) := inferInstanceAs (Decidable (call.floor ∈ _))

/-- What the operations of a car leave as it is. -/
structure SameCar (e e' : Elevator) : Prop where
  id : e'.id = e.id
  minFloor : e'.minFloor = e.minFloor
  maxFloor : e'.maxFloor = e.maxFloor

theorem SameCar.trans (h : SameCar e e') (h' : SameCar e' e'') : SameCar e e'' :=
  ⟨h'.id.trans h.id, h'.minFloor.trans h.minFloor, h'.maxFloor.trans h.maxFloor⟩

/-! ## One hall call more or less -/

theorem setCalls_sameCar (d : Direction) (floors : Finset Int) :
    SameCar e (e.setCalls d floors) := by
  rw [setCalls]
  split <;> exact ⟨rfl, rfl, rfl⟩

theorem setCalls_calls {d' : Direction} (hd : d ≠ .idle) (hd' : d' ≠ .idle) (floors : Finset Int) :
    (e.setCalls d floors).calls d' = if d' = d then floors else e.calls d' := by
  cases d <;> cases d' <;> first | contradiction | rfl

theorem owes_setCalls (hd : d ≠ .idle) (floors : Finset Int) :
    (e.setCalls d floors).Owes call ↔
      if call.direction = d then call.floor ∈ floors else e.Owes call := by
  rw [Owes, setCalls_calls hd call.proper]
  split <;> rfl

theorem owes_insert :
    (e.setCalls call.direction (insert call.floor (e.calls call.direction))).Owes call' ↔
      call' = call ∨ e.Owes call' := by
  obtain ⟨floor, d, hd⟩ := call
  obtain ⟨floor', d', hd'⟩ := call'
  rw [owes_setCalls hd]
  split
  next heq =>
    cases heq
    simp [Owes]
  next hne => simp [Owes, hne]

theorem owes_erase (call : HallCall) :
    (e.setCalls call.direction ((e.calls call.direction).erase call.floor)).Owes call' ↔
      call' ≠ call ∧ e.Owes call' := by
  obtain ⟨floor, d, hd⟩ := call
  obtain ⟨floor', d', hd'⟩ := call'
  rw [owes_setCalls hd]
  split
  next heq =>
    cases heq
    simp [Owes]
  next hne => simp [Owes, hne]

theorem checkFloor_eq_ok (f : Int) (h : e.minFloor ≤ f ∧ f ≤ e.maxFloor) :
    e.checkFloor f = .ok () := by
  rw [checkFloor, if_neg (by omega)]

theorem addHallCall_eq (h : e.minFloor ≤ call.floor ∧ call.floor ≤ e.maxFloor) :
    e.addHallCall call =
      if e.state = .maintenance then .ok (false, e)
      else .ok (true, e.setCalls call.direction (insert call.floor (e.calls call.direction))) := by
  rw [addHallCall, checkFloor_eq_ok _ h]
  split <;> rfl

theorem mem_owed : call ∈ e.owed ↔ e.Owes call := by
  obtain ⟨floor, d, hd⟩ := call
  cases d with
  | up | down => simp [owed, Owes, calls, HallCall.up, HallCall.down]
  | idle => exact absurd rfl hd

theorem owed_nodup : e.owed.Nodup := by
  rw [owed, List.nodup_append]
  refine ⟨?_, ?_, ?_⟩
  · exact (sort_nodup _ _).map fun f f' h => congrArg HallCall.floor h
  · exact (sort_nodup _ _).map fun f f' h => congrArg HallCall.floor h
  · intro a ha b hb
    obtain ⟨_, -, rfl⟩ := List.mem_map.mp ha
    obtain ⟨_, -, rfl⟩ := List.mem_map.mp hb
    simp [HallCall.up, HallCall.down]

theorem addCarCall_eq_ok {target : Int} (h : e.addCarCall target = .ok e') :
    SameCar e e' ∧ ∀ call, e'.Owes call ↔ e.Owes call := by
  rw [addCarCall] at h
  simp only [bind, Except.bind, pure, Except.pure, throw, throwThe, MonadExceptOf.throw] at h
  split at h
  · cases h
  split at h
  · cases h
  · split at h
    · cases h
      exact ⟨⟨rfl, rfl, rfl⟩, fun call => Iff.rfl⟩
    · cases h
      exact ⟨⟨rfl, rfl, rfl⟩, fun call => Iff.rfl⟩

theorem exitMaintenance_same :
    SameCar e e.exitMaintenance ∧ ∀ call, e.exitMaintenance.Owes call ↔ e.Owes call := by
  rw [exitMaintenance]
  split
  · exact ⟨⟨rfl, rfl, rfl⟩, fun call => Iff.rfl⟩
  · exact ⟨⟨rfl, rfl, rfl⟩, fun call => Iff.rfl⟩

theorem enterMaintenance_not_owes : ¬ e.enterMaintenance.2.Owes call := by
  rw [Owes, calls]
  split
  · exact notMem_empty _
  · exact notMem_empty _

/-! ## A step -/

/-- What a part of a step does: the hall call that is taken off is one that the car owes. -/
structure Takes (e : Elevator) (taken : Option HallCall) (e' : Elevator) : Prop where
  same : SameCar e e'
  owed : ∀ call, taken = some call → e.Owes call
  owes : ∀ call, e'.Owes call ↔ e.Owes call ∧ taken ≠ some call

theorem Takes.of_calls (hid : e'.id = e.id) (hmin : e'.minFloor = e.minFloor)
    (hmax : e'.maxFloor = e.maxFloor) (hup : e'.upCalls = e.upCalls)
    (hdown : e'.downCalls = e.downCalls) : Takes e none e' := by
  refine ⟨⟨hid, hmin, hmax⟩, fun call h => (by cases h), fun call => ?_⟩
  rw [Owes, Owes, calls, calls, hup, hdown, and_iff_left (by simp)]

theorem Takes.owes_iff (h : Takes e none e') : e'.Owes call ↔ e.Owes call := by
  rw [h.owes, and_iff_left (by simp)]

variable {taken : Option HallCall}

theorem Takes.after (h : Takes e none e') (h' : Takes e' taken e'') : Takes e taken e'' := by
  refine ⟨h.same.trans h'.same, fun call hcall => ?_, fun call => ?_⟩
  · exact h.owes_iff.mp (h'.owed call hcall)
  · rw [h'.owes, h.owes_iff]

theorem Takes.before (h : Takes e taken e') (h' : Takes e' none e'') : Takes e taken e'' := by
  refine ⟨h.same.trans h'.same, h.owed, fun call => ?_⟩
  rw [h'.owes_iff, h.owes]

theorem removeHallCall_takes (hd : d ≠ .idle) :
    Takes e (if (e.removeHallCall d).1 then some ⟨e.floor, d, hd⟩ else none)
      (e.removeHallCall d).2 := by
  have howes : ∀ call, (e.removeHallCall d).2.Owes call ↔ call ≠ ⟨e.floor, d, hd⟩ ∧ e.Owes call :=
    fun _ => owes_erase ⟨e.floor, d, hd⟩
  refine ⟨setCalls_sameCar _ _, ?_, fun call => ?_⟩
  · intro call hcall
    split at hcall
    next hfound =>
      cases hcall
      exact of_decide_eq_true hfound
    next => cases hcall
  rw [howes, and_comm]
  apply and_congr_right
  intro hcall
  split
  next =>
    rw [ne_comm, ne_eq, ne_eq, Option.some.injEq]
  next hfound =>
    refine iff_of_true ?_ (by simp)
    rintro rfl
    exact hfound (decide_eq_true hcall)

theorem takeHallCall_takes : Takes e e.takeHallCall.1 e.takeHallCall.2 := by
  have hfirst := removeHallCall_takes (e := e) e.preferred.2
  rw [takeHallCall]
  dsimp only
  split
  next hfound =>
    rw [if_pos hfound] at hfirst
    exact hfirst
  next hfound =>
  rw [if_neg hfound] at hfirst
  split
  next =>
    -- nothing was taken in the first place
    have hsecond := removeHallCall_takes (e := (e.removeHallCall e.preferred.1).2)
      (Direction.opposite_ne_idle e.preferred.2)
    have hfloor : (e.removeHallCall e.preferred.1).2.floor = e.floor := by
      rw [removeHallCall, setCalls]
      split <;> rfl
    rw [hfloor] at hsecond
    exact hfirst.after hsecond
  next => exact hfirst

theorem serveCurrentFloor_takes : ∃ taken, Takes e taken e.serveCurrentFloor.2.2 ∧
      ∀ id call, .hallCallServed id call ∈ e.serveCurrentFloor.2.1 ↔
        id = e.id ∧ taken = some call := by
  have hcar : Takes e none { e with carStops := e.carStops.erase e.floor } :=
    .of_calls rfl rfl rfl rfl rfl
  have htake := hcar.after takeHallCall_takes
  rw [serveCurrentFloor]
  generalize takeHallCall { e with carStops := e.carStops.erase e.floor } = r at htake ⊢
  obtain ⟨taken, e1⟩ := r
  cases taken with
  | none =>
    refine ⟨none, ?_, fun id call => ?_⟩
    · dsimp only
      split
      · exact htake
      · exact htake
    · dsimp only
      split
      · simp
      · simp
  | some served =>
    refine ⟨some served, ?_, fun id call => ?_⟩
    · exact htake.before (.of_calls rfl rfl rfl rfl rfl)
    · simp [eq_comm]

theorem serveOrMove_takes : ∃ taken, Takes e taken e.serveOrMove.2 ∧
      ∀ id call, .hallCallServed id call ∈ e.serveOrMove.1 ↔ id = e.id ∧ taken = some call := by
  obtain ⟨taken, htake, hevents⟩ := serveCurrentFloor_takes (e := e)
  refine ⟨taken, ?_⟩
  rw [serveOrMove]
  generalize e.serveCurrentFloor = r at htake hevents ⊢
  obtain ⟨_ | _, events, e1⟩ := r
  · dsimp only
    split
    · exact ⟨htake.before (.of_calls rfl rfl rfl rfl rfl), hevents⟩
    · exact ⟨htake.before (.of_calls rfl rfl rfl rfl rfl), hevents⟩
  · exact ⟨htake.before (.of_calls rfl rfl rfl rfl rfl), hevents⟩

theorem stepLocked_takes : ∃ taken, Takes e taken e.stepLocked.2 ∧
      ∀ id call, .hallCallServed id call ∈ e.stepLocked.1 ↔ id = e.id ∧ taken = some call := by
  have hnone : ∀ e', Takes e none e' → ∃ taken, Takes e taken e' ∧
      ∀ id call, .hallCallServed id call ∈ ([] : List Event) ↔ id = e.id ∧ taken = some call :=
    fun e' h => ⟨none, h, by simp⟩
  rw [stepLocked]
  split
  · exact hnone e (.of_calls rfl rfl rfl rfl rfl)
  · split
    · exact hnone _ (.of_calls rfl rfl rfl rfl rfl)
    · exact hnone _ (.of_calls rfl rfl rfl rfl rfl)
  · exact serveOrMove_takes
  · exact serveOrMove_takes

end Elevator

end InterviewPrep.Elevators
