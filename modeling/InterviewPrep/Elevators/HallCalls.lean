/-
  Where a hall call is: pending in one car, served by a step that has not run its callbacks yet
  (`Releasing`), or, within `setMaintenance`, handed back and not yet given to another car.
  `Agrees` says that `assignments` maps exactly these, each to its car, and that no hall call is
  at two of these places; every atomic step keeps it.

  A press is answered from `assignments` alone, so it is lost when the hall call is `Releasing`,
  and only then (`run_held`).
-/
import InterviewPrep.Elevators.Controller
import InterviewPrep.Lib.Run

namespace InterviewPrep.Elevators

open Lib Dict Elevator List Option

namespace ElevatorController

variable {c c' : ElevatorController} {call : HallCall} {id id' : String}
  {owed : List (HallCall × String)} {thread : Nat} {e' e : Elevator} {floor : Int}
  {direction : Direction}

/-- The hall call is in the `upCalls` or `downCalls` of the car. -/
def Pending (c : ElevatorController) (call : HallCall) (id : String) : Prop :=
  ∃ e, c.elevators.get? id = some e ∧ e.Owes call

instance : Decidable (c.Pending call id) :=
  decidable_of_iff (((c.elevators.get? id).any fun e => decide (e.Owes call)) = true) (by
    rw [Option.any_eq_true]
    simp [Pending])

/-- A step of the car has served the hall call and has not run its callbacks. -/
def Releasing (c : ElevatorController) (call : HallCall) (id : String) : Prop :=
  ∃ thread events, c.queued.get? thread = some events ∧ .hallCallServed id call ∈ events

/-- A car of a building, under its id. -/
structure CarOk (low high : Int) (id : String) (e : Elevator) : Prop where
  id : e.id = id
  minFloor : e.minFloor = low
  maxFloor : e.maxFloor = high
  range : ∀ call, e.Owes call → low ≤ call.floor ∧ call.floor ≤ high

/-- The map and the cars agree, but for the hall calls that have been handed back. -/
structure Agrees (c : ElevatorController) (owed : List (HallCall × String)) : Prop where
  cars : ∀ id e, c.elevators.get? id = some e → CarOk c.minFloor c.maxFloor id e
  assigned : ∀ call id, c.assignments.get? call = some id ↔
    c.Pending call id ∨ c.Releasing call id ∨ (call, id) ∈ owed
  released : ∀ call id, c.Releasing call id → ∀ id', ¬ c.Pending call id'
  once : ∀ call id id' thread thread' events events', c.queued.get? thread = some events →
    .hallCallServed id call ∈ events → c.queued.get? thread' = some events' →
    .hallCallServed id' call ∈ events' → thread = thread'
  nodup : (owed.map Prod.fst).Nodup
  orphans : ∀ call id, (call, id) ∈ owed →
    (c.minFloor ≤ call.floor ∧ call.floor ≤ c.maxFloor) ∧ (∀ id', ¬ c.Pending call id') ∧
      ∀ id', ¬ c.Releasing call id'

/-- Between two steps. -/
def Consistent (c : ElevatorController) : Prop := c.Agrees []

theorem Consistent.assigned_iff (h : c.Consistent) :
    c.assignments.get? call = some id ↔ c.Pending call id ∨ c.Releasing call id := by
  rw [h.assigned, or_congr_right (or_iff_left not_mem_nil)]

/-! ## One car changes -/

theorem pending_set (hcars : c'.elevators = c.elevators.set id' e') :
    c'.Pending call id ↔ if id = id' then e'.Owes call else c.Pending call id := by
  rw [Pending, hcars]
  split
  next heq =>
    rw [heq, get?_set_self]
    simp
  next hne =>
    rw [get?_set_of_ne _ _ hne]
    rfl

theorem pending_iff_owes (he : c.elevators.get? id = some e) : c.Pending call id ↔ e.Owes call := by
  rw [Pending, he]
  simp

theorem pending_set_same (hcars : c'.elevators = c.elevators.set id' e')
    (he : c.elevators.get? id' = some e) (howes : ∀ call, e'.Owes call ↔ e.Owes call) :
    c'.Pending call id ↔ c.Pending call id := by
  rw [pending_set hcars]
  split
  next heq => rw [heq, howes, pending_iff_owes he]
  next => rfl

theorem Agrees.cars_set (h : c.Agrees owed) (hok : CarOk c.minFloor c.maxFloor id' e') :
    ∀ id e, (c.elevators.set id' e').get? id = some e → CarOk c.minFloor c.maxFloor id e := by
  intro id e he
  rcases get?_set_some he with ⟨rfl, rfl⟩ | ⟨-, he⟩
  · exact hok
  · exact h.cars id e he

theorem CarOk.of_same {low high : Int} (h : CarOk low high id e) (hsame : Elevator.SameCar e e')
    (hrange : ∀ call, e'.Owes call → e.Owes call) : CarOk low high id e' :=
  ⟨hsame.id.trans h.id, hsame.minFloor.trans h.minFloor, hsame.maxFloor.trans h.maxFloor,
    fun call howes => h.range call (hrange call howes)⟩

theorem Agrees.setCar (h : c.Agrees owed) (he : c.elevators.get? id = some e)
    (hsame : Elevator.SameCar e e') (howes : ∀ call, e'.Owes call ↔ e.Owes call) :
    Agrees { c with elevators := c.elevators.set id e' } owed := by
  have hpending : ∀ call id', Pending { c with elevators := c.elevators.set id e' } call id' ↔
      c.Pending call id' := fun call id' => pending_set_same rfl he howes
  refine ⟨?_, ?_, ?_, h.once, h.nodup, ?_⟩
  · exact h.cars_set ((h.cars id e he).of_same hsame fun call => (howes call).mp)
  · intro call id'
    rw [hpending]
    exact h.assigned call id'
  · intro call id' hreleasing id''
    rw [hpending]
    exact h.released call id' hreleasing id''
  · intro call id' howed
    obtain ⟨hrange, hpend, hrel⟩ := h.orphans call id' howed
    exact ⟨hrange, fun id'' => by rw [hpending]; exact hpend id'', hrel⟩

/-! ## Dispatch -/

theorem mem_candidates {rejected : List String} {s : ElevatorSnapshot}
    (hs : s ∈ c.candidates rejected) :
    ∃ id e, c.elevators.get? id = some e ∧ s = e.snapshot ∧ e.state ≠ .maintenance := by
  rw [candidates, mem_filter, List.mem_map] at hs
  obtain ⟨⟨e, he, rfl⟩, hstate⟩ := hs
  obtain ⟨⟨id, e'⟩, hmem, rfl⟩ := List.mem_map.mp he
  rw [Bool.and_eq_true, decide_eq_true_eq] at hstate
  exact ⟨id, e', Dict.mem_items.mp hmem, rfl, hstate.1⟩

/-- A dispatch: nothing is in service, or the call is pending in the car that takes it. The first
    turn decides, as no car leaves service under the dispatch lock. -/
theorem Agrees.dispatchLoop (h : c.Agrees owed)
    (hrange : c.minFloor ≤ call.floor ∧ call.floor ≤ c.maxFloor) (turns : Nat)
    (rejected : List String) : c.dispatchLoop call turns rejected = .error .noElevatorInService ∨
      ∃ id e, c.elevators.get? id = some e ∧
        c.dispatchLoop call turns rejected = .ok (id, { c with
          elevators := c.elevators.set id
            (e.setCalls call.direction (insert call.floor (e.calls call.direction)))
          assignments := c.assignments.set call id }) := by
  cases turns with
  | zero => exact Or.inl rfl
  | succ =>
  rw [ElevatorController.dispatchLoop]
  split
  · exact Or.inl rfl
  next hpick =>
  obtain ⟨id, e, he, rfl, hstate⟩ := mem_candidates (c.strategy.choose_mem hpick)
  have hok := h.cars id e he
  have hfloor : e.minFloor ≤ call.floor ∧ call.floor ≤ e.maxFloor := by
    rw [hok.minFloor, hok.maxFloor]
    exact hrange
  have hadd := addHallCall_eq hfloor
  rw [if_neg hstate] at hadd
  right
  refine ⟨id, e, he, ?_⟩
  rw [show e.snapshot.id = id from hok.id, he]
  dsimp only
  rw [hadd]

theorem Agrees.assign (h : c.Agrees owed) (he : c.elevators.get? id = some e)
    (hrange : c.minFloor ≤ call.floor ∧ call.floor ≤ c.maxFloor)
    (hnone : c.assignments.get? call = none) : Agrees { c with
      elevators := c.elevators.set id
        (e.setCalls call.direction (insert call.floor (e.calls call.direction)))
      assignments := c.assignments.set call id } owed := by
  have habsent : ∀ id', ¬ c.Pending call id' ∧ ¬ c.Releasing call id' ∧ (call, id') ∉ owed := by
    intro id'
    have hnot := h.assigned call id'
    rw [hnone] at hnot
    simp only [reduceCtorEq, false_iff] at hnot
    tauto
  have hpending : ∀ call' id', Pending { c with
      elevators := c.elevators.set id
        (e.setCalls call.direction (insert call.floor (e.calls call.direction)))
      assignments := c.assignments.set call id } call' id' ↔
        (call' = call ∧ id' = id) ∨ c.Pending call' id' := by
    intro call' id'
    rw [pending_set rfl, owes_insert]
    split
    next heq => rw [heq, pending_iff_owes he, and_iff_left rfl]
    next hne => simp [hne]
  refine ⟨?_, ?_, ?_, h.once, h.nodup, ?_⟩
  · have hok := h.cars id e he
    have hsame := setCalls_sameCar (e := e) call.direction
      (insert call.floor (e.calls call.direction))
    refine h.cars_set ⟨hsame.id.trans hok.id, hsame.minFloor.trans hok.minFloor,
      hsame.maxFloor.trans hok.maxFloor, fun call' howes => ?_⟩
    rcases owes_insert.mp howes with rfl | howes
    · exact hrange
    · exact hok.range call' howes
  · intro call' id'
    rw [hpending]
    rw [get?_set]
    split
    next heq =>
      rw [heq, Option.some.injEq]
      have hid' := habsent id'
      tauto
    next =>
      rw [h.assigned]
      tauto
  · intro call' id' hreleasing id''
    rw [hpending]
    rintro (⟨rfl, rfl⟩ | hpend)
    · exact (habsent id').2.1 hreleasing
    · exact h.released call' id' hreleasing id'' hpend
  · intro call' id' howed
    obtain ⟨hfloors, hpend, hrel⟩ := h.orphans call' id' howed
    refine ⟨hfloors, fun id'' => ?_, hrel⟩
    rw [hpending]
    rintro (⟨rfl, rfl⟩ | hpend')
    · exact (habsent id').2.2 howed
    · exact hpend id'' hpend'

theorem Agrees.dispatchLocked (h : c.Agrees owed)
    (hrange : c.minFloor ≤ call.floor ∧ call.floor ≤ c.maxFloor) :
    c.dispatchLocked call = .error .noElevatorInService ∨
      ∃ id c', c.dispatchLocked call = .ok (id, c') ∧ c'.Agrees owed ∧
        (c' = c ∧ c.assignments.get? call = some id ∨
          c.assignments.get? call = none ∧ c'.Pending call id) := by
  rw [ElevatorController.dispatchLocked]
  split
  next id hid => exact Or.inr ⟨id, c, rfl, h, Or.inl ⟨rfl, hid⟩⟩
  next hnone =>
    rcases h.dispatchLoop hrange (c.elevators.size + 1) [] with hnone' | ⟨id, e, he, hok⟩
    · exact Or.inl hnone'
    · refine Or.inr ⟨id, _, hok, h.assign he hrange hnone, Or.inr ⟨hnone, ?_⟩⟩
      rw [pending_set rfl, if_pos rfl]
      exact owes_insert.mpr (Or.inl rfl)

/-! ## The steps -/

theorem hallCall_eq_ok (h : c.hallCall floor direction = .ok call) :
    call.floor = floor ∧ call.direction = direction ∧ c.minFloor ≤ floor ∧ floor ≤ c.maxFloor := by
  rw [hallCall] at h
  simp only [bind, Except.bind, throw, throwThe, MonadExceptOf.throw] at h
  split at h
  · cases h
  next =>
  split at h
  · cases h
  · rw [HallCall.make] at h
    split at h
    · cases h
    · cases h
      exact ⟨rfl, rfl, by omega, by omega⟩

theorem Consistent.requestElevator (h : c.Consistent)
    (hok : c.requestElevator floor direction = .ok (id, c')) :
    c'.Consistent ∧ ∃ call, c.hallCall floor direction = .ok call ∧
      (c' = c ∧ c.assignments.get? call = some id ∨
        c.assignments.get? call = none ∧ c'.Pending call id) := by
  rw [ElevatorController.requestElevator] at hok
  cases hcall : c.hallCall floor direction with
  | error =>
    rw [hcall] at hok
    cases hok
  | ok call =>
  rw [hcall] at hok
  replace hok : c.dispatchLocked call = .ok (id, c') := hok
  obtain ⟨hfloor, -, hrange⟩ := hallCall_eq_ok hcall
  rw [← hfloor] at hrange
  rcases h.dispatchLocked hrange with hnone | ⟨id', c1, hok', hc1, hwhere⟩
  · rw [hnone] at hok
    cases hok
  · rw [hok'] at hok
    cases hok
    exact ⟨hc1, call, rfl, hwhere⟩

theorem Agrees.releaseOrphan {rest : List (HallCall × String)}
    (h : c.Agrees ((call, id) :: rest)) :
    (c.release call id).Agrees rest ∧ (c.release call id).minFloor = c.minFloor ∧
      (c.release call id).maxFloor = c.maxFloor := by
  have hget : c.assignments.get? call = some id :=
    (h.assigned call id).mpr (Or.inr (Or.inr mem_cons_self))
  obtain ⟨hfresh, hnodup⟩ := nodup_cons.mp h.nodup
  obtain ⟨-, hpend, hrel⟩ := h.orphans call id mem_cons_self
  rw [release, if_pos hget]
  refine ⟨⟨h.cars, fun call' id' => ?_, h.released, h.once, hnodup, ?_⟩, rfl, rfl⟩
  · show (c.assignments.erase call).get? call' = some id' ↔
      c.Pending call' id' ∨ c.Releasing call' id' ∨ (call', id') ∈ rest
    rw [get?_erase]
    split
    next heq =>
      rw [heq]
      have hrest : (call, id') ∉ rest := fun hmem =>
        hfresh (List.mem_map.mpr ⟨(call, id'), hmem, rfl⟩)
      have := hpend id'
      have := hrel id'
      simp only [reduceCtorEq, false_iff]
      tauto
    next =>
      rw [h.assigned, mem_cons, Prod.mk.injEq]
      tauto
  · exact fun call' id' hmem => h.orphans call' id' (mem_cons_of_mem _ hmem)

theorem Agrees.redispatch (orphans : List HallCall)
    (h : c.Agrees (orphans.map fun call => (call, id))) :
    (redispatch id c orphans).1 = .ok () ∧ (redispatch id c orphans).2.Consistent := by
  induction orphans generalizing c with
  | nil => exact ⟨rfl, h⟩
  | cons orphan _ ih =>
    obtain ⟨hrange, -, -⟩ := h.orphans orphan id mem_cons_self
    obtain ⟨h1, hmin, hmax⟩ := Agrees.releaseOrphan h
    rw [ElevatorController.redispatch]
    rw [← hmin, ← hmax] at hrange
    rcases h1.dispatchLocked hrange with hnone | ⟨id', c2, hok, h2, -⟩
    · rw [hnone]
      exact ih h1
    · rw [hok]
      exact ih h2

theorem Consistent.enterMaintenance (h : c.Consistent) (he : c.elevators.get? id = some e) :
    Agrees { c with elevators := c.elevators.set id e.enterMaintenance.2 }
      (e.enterMaintenance.1.map fun call => (call, id)) := by
  have hpending : ∀ call id', Pending { c with
      elevators := c.elevators.set id e.enterMaintenance.2 } call id' ↔
        id' ≠ id ∧ c.Pending call id' := by
    intro call id'
    rw [pending_set rfl]
    split
    next heq => exact iff_of_false enterMaintenance_not_owes (fun h => h.1 heq)
    next hne => rw [and_iff_right hne]
  have howed : ∀ call id', (call, id') ∈ e.enterMaintenance.1.map (fun call => (call, id)) ↔
      id' = id ∧ c.Pending call id' := by
    intro call id'
    rw [List.mem_map]
    constructor
    · rintro ⟨call', hmem, heq⟩
      cases heq
      exact ⟨rfl, (pending_iff_owes he).mpr (mem_owed.mp hmem)⟩
    · rintro ⟨rfl, hpend⟩
      exact ⟨call, mem_owed.mpr ((pending_iff_owes he).mp hpend), rfl⟩
  refine ⟨?_, ?_, ?_, h.once, ?_, ?_⟩
  · have hok := h.cars id e he
    exact h.cars_set ⟨hok.id, hok.minFloor, hok.maxFloor,
      fun call howes => absurd howes enterMaintenance_not_owes⟩
  · intro call id'
    rw [hpending, howed]
    rw [h.assigned_iff]
    tauto
  · intro call id' hreleasing id'' hpend
    exact h.released call id' hreleasing id'' ((hpending call id'').mp hpend).2
  · rw [List.map_map]
    exact (List.map_id' _).symm ▸ owed_nodup
  intro call id' hmem
  obtain ⟨rfl, hpend⟩ := (howed call id').mp hmem
  refine ⟨(h.cars id' e he).range call ((pending_iff_owes he).mp hpend), fun id'' hpend' => ?_,
    fun id'' hrel => h.released call id'' hrel id' hpend⟩
  -- the map names one car
  obtain ⟨hne, hpend'⟩ := (hpending call id'').mp hpend'
  have h1 := h.assigned_iff.mpr (Or.inl hpend)
  have h2 := h.assigned_iff.mpr (Or.inl hpend')
  rw [h1] at h2
  exact hne (some.inj h2).symm

theorem Consistent.stepLocked (h : c.Consistent) (he : c.elevators.get? id = some e)
    (hthread : c.queued.get? thread = none) : Consistent { c with
      elevators := c.elevators.set id e.stepLocked.2
      queued := c.queued.set thread e.stepLocked.1 } := by
  obtain ⟨taken, htake, hevents⟩ := stepLocked_takes (e := e)
  have hok := h.cars id e he
  have hpending : ∀ call id', Pending { c with
      elevators := c.elevators.set id e.stepLocked.2
      queued := c.queued.set thread e.stepLocked.1 } call id' ↔
        c.Pending call id' ∧ ¬ (id' = id ∧ taken = some call) := by
    intro call id'
    rw [pending_set rfl]
    split
    next heq => rw [htake.owes, heq, pending_iff_owes he, and_iff_right rfl]
    next hne => rw [and_iff_left fun h => hne h.1]
  have hreleasing : ∀ call id', Releasing { c with
      elevators := c.elevators.set id e.stepLocked.2
      queued := c.queued.set thread e.stepLocked.1 } call id' ↔
        c.Releasing call id' ∨ (id' = id ∧ taken = some call) := by
    intro call id'
    constructor
    · rintro ⟨thread', events, hget, hmem⟩
      rcases get?_set_some hget with ⟨rfl, rfl⟩ | ⟨-, hget⟩
      · obtain ⟨hid', htaken⟩ := (hevents id' call).mp hmem
        exact Or.inr ⟨hid'.trans hok.id, htaken⟩
      · exact Or.inl ⟨thread', events, hget, hmem⟩
    rintro (⟨thread', events, hget, hmem⟩ | ⟨rfl, htaken⟩)
    · refine ⟨thread', events, ?_, hmem⟩
      rw [get?_set_of_ne]
      · exact hget
      · exact ne_of_eq_none hget hthread
    · exact ⟨thread, _, get?_set_self _ _ _,
        (hevents id' call).mpr ⟨hok.id.symm, htaken⟩⟩
  have htaken : ∀ call, taken = some call → c.Pending call id :=
    fun call hcall => (pending_iff_owes he).mpr (htake.owed call hcall)
  have hnew : ∀ call id', (.hallCallServed id' call ∈ e.stepLocked.1) → c.Pending call id :=
    fun call id' hmem => htaken call ((hevents id' call).mp hmem).2
  refine ⟨?_, ?_, ?_, ?_, nodup_nil, nofun⟩
  · exact h.cars_set (hok.of_same htake.same fun call => fun howes =>
      ((htake.owes call).mp howes).1)
  · intro call id'
    rw [hpending, hreleasing]
    rw [h.assigned_iff]
    constructor
    · rintro (hpend | hrel)
      · by_cases hhere : id' = id ∧ taken = some call
        · exact Or.inr (Or.inl (Or.inr hhere))
        · exact Or.inl ⟨hpend, hhere⟩
      · exact Or.inr (Or.inl (Or.inl hrel))
    · rintro (⟨hpend, -⟩ | (hrel | ⟨rfl, hcall⟩) | hmem)
      · exact Or.inl hpend
      · exact Or.inr hrel
      · exact Or.inl (htaken call hcall)
      · cases hmem
  · intro call id' hrel id'' hafter
    obtain ⟨hpend, hnot⟩ := (hpending call id'').mp hafter
    rcases (hreleasing call id').mp hrel with hrel | ⟨rfl, hcall⟩
    · exact h.released call id' hrel id'' hpend
    · -- the car that took the call off is the only one that had it
      have h1 := h.assigned_iff.mpr (Or.inl (htaken call hcall))
      have h2 := h.assigned_iff.mpr (Or.inl hpend)
      rw [h1] at h2
      exact hnot ⟨(some.inj h2).symm, hcall⟩
  · intro call id1 id2 thread1 thread2 events1 events2 hget1 hmem1 hget2 hmem2
    rcases get?_set_some hget1 with ⟨heq1, hev1⟩ | ⟨hne1, hget1⟩
    · rcases get?_set_some hget2 with ⟨heq2, hev2⟩ | ⟨hne2, hget2⟩
      · rw [heq1, heq2]
      · rw [hev1] at hmem1
        exact absurd (hnew call id1 hmem1) (h.released call id2 ⟨_, _, hget2, hmem2⟩ id)
    · rcases get?_set_some hget2 with ⟨heq2, hev2⟩ | ⟨hne2, hget2⟩
      · rw [hev2] at hmem2
        exact absurd (hnew call id2 hmem2) (h.released call id1 ⟨_, _, hget1, hmem1⟩ id)
      · exact h.once call id1 id2 thread1 thread2 events1 events2 hget1 hmem1 hget2 hmem2

/-- What the listener of the controller leaves as it is, and what it takes out of the map. -/
structure Published (c : ElevatorController) (events : List Event) (c' : ElevatorController) :
    Prop where
  elevators : c'.elevators = c.elevators
  queued : c'.queued = c.queued
  minFloor : c'.minFloor = c.minFloor
  maxFloor : c'.maxFloor = c.maxFloor
  assigned : ∀ call id, c'.assignments.get? call = some id ↔
    c.assignments.get? call = some id ∧ .hallCallServed id call ∉ events

theorem release_published : c.Published [.hallCallServed id call] (c.release call id) := by
  rw [release]
  split
  next hget =>
    refine ⟨rfl, rfl, rfl, rfl, fun call' id' => ?_⟩
    rw [get?_erase, mem_singleton, Event.hallCallServed.injEq]
    split
    next heq =>
      refine iff_of_false nofun ?_
      rintro ⟨hget', hne⟩
      rw [heq, hget] at hget'
      exact hne ⟨(some.inj hget').symm, heq⟩
    next hne => rw [and_iff_left fun h => hne h.2]
  next hget =>
    refine ⟨rfl, rfl, rfl, rfl, fun call' id' => ?_⟩
    rw [mem_singleton, Event.hallCallServed.injEq]
    refine (and_iff_left_of_imp fun hget' => ?_).symm
    rintro ⟨rfl, rfl⟩
    exact hget hget'

theorem publish_published (event : Event) : c.Published [event] (c.publish event) := by
  cases event with
  | hallCallServed => exact release_published
  | stopped => exact ⟨rfl, rfl, rfl, rfl, fun call id' => by simp [publish]⟩

theorem foldl_publish (events : List Event) (c : ElevatorController) :
    c.Published events (events.foldl publish c) := by
  induction events generalizing c with
  | nil => exact ⟨rfl, rfl, rfl, rfl, fun call id => by simp⟩
  | cons event _ ih =>
    have hfirst := publish_published (c := c) event
    have hrest := ih (c.publish event)
    refine ⟨hrest.elevators.trans hfirst.elevators, hrest.queued.trans hfirst.queued,
      hrest.minFloor.trans hfirst.minFloor, hrest.maxFloor.trans hfirst.maxFloor,
      fun call id => ?_⟩
    rw [foldl_cons, hrest.assigned, hfirst.assigned, mem_singleton, mem_cons]
    tauto

theorem Consistent.callbacks (h : c.Consistent) {events : List Event}
    (hevents : c.queued.get? thread = some events) :
    Consistent (events.foldl publish { c with queued := c.queued.erase thread }) := by
  have hpub := foldl_publish events { c with queued := c.queued.erase thread }
  generalize events.foldl publish { c with queued := c.queued.erase thread } = c' at hpub ⊢
  have hpending : ∀ call id, c'.Pending call id ↔ c.Pending call id := by
    intro call id
    rw [Pending, hpub.elevators]
    rfl
  have hqueued : ∀ {thread' events'}, c'.queued.get? thread' = some events' →
      thread' ≠ thread ∧ c.queued.get? thread' = some events' := by
    intro thread' events' hget
    rw [hpub.queued] at hget
    exact get?_erase_some hget
  have hreleasing : ∀ call id, c'.Releasing call id ↔
      c.Releasing call id ∧ .hallCallServed id call ∉ events := by
    intro call id
    constructor
    · rintro ⟨thread', events', hget, hmem⟩
      obtain ⟨hne, hget⟩ := hqueued hget
      refine ⟨⟨thread', events', hget, hmem⟩, fun hmem' => hne ?_⟩
      exact h.once call id id thread' thread events' events hget hmem hevents hmem'
    rintro ⟨⟨thread', events', hget, hmem⟩, hnot⟩
    refine ⟨thread', events', ?_, hmem⟩
    rw [hpub.queued]
    rw [get?_erase_of_ne]
    · exact hget
    · rintro rfl
      rw [hevents] at hget
      cases hget
      exact hnot hmem
  refine ⟨?_, ?_, ?_, ?_, nodup_nil, nofun⟩
  · rw [hpub.elevators, hpub.minFloor, hpub.maxFloor]
    exact h.cars
  · intro call id
    rw [hpub.assigned, hpending, hreleasing]
    rw [h.assigned_iff, or_iff_left (not_mem_nil (a := (call, id)))]
    have hapart : c.Pending call id → .hallCallServed id call ∉ events :=
      fun hpend hmem => h.released call id ⟨thread, events, hevents, hmem⟩ id hpend
    tauto
  · intro call id hrel id' hpend
    exact h.released call id ((hreleasing call id).mp hrel).1 id' ((hpending call id').mp hpend)
  · intro call id1 id2 thread1 thread2 events1 events2 hget1 hmem1 hget2 hmem2
    exact h.once call id1 id2 thread1 thread2 events1 events2 (hqueued hget1).2 hmem1
      (hqueued hget2).2 hmem2

theorem Consistent.selectFloor (h : c.Consistent) (hok : c.selectFloor id floor = .ok c') :
    c'.Consistent := by
  rw [ElevatorController.selectFloor] at hok
  split at hok
  · cases hok
  next e he =>
  cases hadd : e.addCarCall floor with
  | error =>
    rw [hadd] at hok
    cases hok
  | ok =>
    rw [hadd] at hok
    cases hok
    obtain ⟨hsame, howes⟩ := addCarCall_eq_ok hadd
    exact h.setCar he hsame howes

theorem Consistent.setMaintenance (h : c.Consistent) (id : String) (on : Bool) :
    (c.setMaintenance id on).2.Consistent := by
  rw [ElevatorController.setMaintenance]
  split
  · exact h
  next e he =>
    split
    · obtain ⟨hsame, howes⟩ := exitMaintenance_same (e := e)
      exact h.setCar he hsame howes
    · exact (Agrees.redispatch _ (h.enterMaintenance he)).2

theorem Consistent.act (h : c.Consistent) (op : Op) : (c.act op).2.Consistent := by
  cases op with
  | requestElevator =>
    rw [ElevatorController.act]
    split
    · exact h
    next hok => exact (h.requestElevator hok).1
  | selectFloor =>
    rw [ElevatorController.act]
    split
    · exact h
    next hok => exact h.selectFloor hok
  | setMaintenance id on =>
    have hkept := h.setMaintenance id on
    rw [ElevatorController.act]
    generalize c.setMaintenance id on = r at hkept ⊢
    obtain ⟨_ | _, c'⟩ := r
    · exact hkept
    · exact hkept
  | step =>
    rw [ElevatorController.act]
    split
    next hthread he => exact h.stepLocked he hthread
    · exact h
  | callbacks =>
    rw [ElevatorController.act]
    split
    · exact h
    next hevents => exact h.callbacks hevents

/-! ## Runs -/

theorem newCars_ok {minFloor maxFloor : Int} {cars : Nat} {m : Dict String Elevator}
    (h : newCars minFloor maxFloor cars = .ok m) : ∀ id e, m.get? id = some e →
      CarOk minFloor maxFloor id e ∧ ∀ call, ¬ e.Owes call := by
  induction cars generalizing m with
  | zero =>
    cases h
    intro id e he
    cases he
  | succ i ih =>
    rw [newCars] at h
    cases hm : newCars minFloor maxFloor i with
    | error =>
      rw [hm] at h
      cases h
    | ok =>
    rw [hm] at h
    cases hcar : Elevator.new ("E" ++ toString (i + 1)) minFloor maxFloor minFloor with
    | error =>
      simp only [hcar, bind, Except.bind] at h
      cases h
    | ok =>
    simp only [hcar, bind, Except.bind, pure, Except.pure, Except.ok.injEq] at h
    subst h
    intro id e he
    rcases get?_set_some he with ⟨rfl, rfl⟩ | ⟨-, he⟩
    · rw [Elevator.new] at hcar
      split at hcar
      · cases hcar
      split at hcar
      · cases hcar
      cases hcar
      have hnone : ∀ call : HallCall, ¬ Elevator.Owes ⟨"E" ++ toString (i + 1),
          minFloor, maxFloor, minFloor, .idle, .idle, ∅, ∅, ∅⟩ call := by
        intro call
        rw [Elevator.Owes, Elevator.calls]
        simp
      exact ⟨⟨rfl, rfl, rfl, fun call howes => absurd howes (hnone call)⟩, hnone⟩
    · exact ih hm id e he

variable {cars : Nat} {minFloor maxFloor : Int} {strategy : DispatchStrategy}

theorem new_consistent (hnew : new cars minFloor maxFloor strategy = .ok c) : c.Consistent := by
  rw [new] at hnew
  cases hm : newCars minFloor maxFloor cars with
  | error =>
    rw [hm] at hnew
    cases hnew
  | ok m =>
  rw [hm] at hnew
  cases hnew
  have hcars := newCars_ok hm
  have hnone : ∀ call id, ¬ Pending ⟨m, minFloor, maxFloor, strategy, .empty, .empty⟩ call id := by
    rintro call id ⟨e, he, howes⟩
    exact (hcars id e he).2 call howes
  refine ⟨fun id e he => (hcars id e he).1, fun call id => ?_, ?_, ?_, nodup_nil, ?_⟩
  · refine iff_of_false nofun ?_
    rintro (hpend | ⟨thread, events, hget, -⟩ | hmem)
    · exact hnone call id hpend
    · cases hget
    · cases hmem
  · rintro call id ⟨thread, events, hget, -⟩
    cases hget
  · intro call id id' thread thread' events events' hget
    cases hget
  · exact nofun

theorem Consistent.run (h : c.Consistent) (ops : List Op) :
    ∃ answers c', runSteps ElevatorController.step c ops = .ok (answers, c') ∧ c'.Consistent := by
  induction ops generalizing c with
  | nil => exact ⟨[], c, rfl, h⟩
  | cons op _ ih =>
    obtain ⟨answers, c2, hrun, h2⟩ := ih (h.act op)
    exact ⟨(c.act op).1 :: answers, c2, runSteps_cons_ok rfl hrun, h2⟩

/-- A press is answered with a car that has the call, unless it is served and not
    called back yet. -/
theorem Consistent.pending_iff (h : c.Consistent) (hcall : c.hallCall floor direction = .ok call)
    (hok : c.requestElevator floor direction = .ok (id, c')) :
    c'.Pending call id ↔ ∀ id', ¬ c.Releasing call id' := by
  obtain ⟨-, call', hcall', hwhere⟩ := h.requestElevator hok
  rw [hcall] at hcall'
  cases hcall'
  rcases hwhere with ⟨rfl, hget⟩ | ⟨hnone, hpend⟩
  · constructor
    · exact fun hpend id' hrel => h.released call id' hrel id hpend
    · exact fun hrel => (h.assigned_iff.mp hget).resolve_right (hrel id)
  · refine iff_of_true hpend fun id' hrel => ?_
    rw [h.assigned_iff.mpr (Or.inr hrel)] at hnone
    cases hnone

/-- After any steps: between the steps the map and the cars agree; and a hall button is
    answered with a car that has the call, exactly when no step has served it and not run
    its callbacks yet. -/
theorem run_held (hnew : new cars minFloor maxFloor strategy = .ok c) (ops : List Op) :
    ∃ answers c', runSteps ElevatorController.step c ops = .ok (answers, c') ∧
      ((∀ thread, c'.queued.get? thread = none) →
        ∀ call id, c'.assignments.get? call = some id ↔ c'.Pending call id) ∧
      ∀ floor direction call id c'', c'.hallCall floor direction = .ok call →
        c'.requestElevator floor direction = .ok (id, c'') →
        (c''.Pending call id ↔ ∀ id', ¬ c'.Releasing call id') := by
  obtain ⟨answers, c', hrun, h⟩ := (new_consistent hnew).run ops
  refine ⟨answers, c', hrun, fun hidle call id => ?_, fun floor direction call id c'' =>
    h.pending_iff⟩
  rw [h.assigned_iff]
  apply or_iff_left
  rintro ⟨thread, events, hget, -⟩
  rw [hidle thread] at hget
  cases hget

/-- A press that waits for its car. -/
theorem run_held_waiting : ∃ c answers c' c'', new 1 0 10 lookEtaStrategy = .ok c ∧
      runSteps ElevatorController.step c [.requestElevator 3 .up, .step 0 "E1"] =
        .ok (answers, c') ∧ c'.requestElevator 3 .up = .ok ("E1", c'') ∧
      (c''.Pending (.up 3) "E1" ↔ ∀ id', ¬ c'.Releasing (.up 3) id') := by
  obtain ⟨c, hnew, hobserve⟩ := exists_ok_of_observe
    (x := new 1 0 10 lookEtaStrategy)
    (f := fun c => (runSteps ElevatorController.step c
      [.requestElevator 3 .up, .step 0 "E1"]).toOption.bind fun r =>
        (r.2.hallCall 3 .up).toOption.bind fun call =>
          (r.2.requestElevator 3 .up).toOption.map fun s => (call, s.1))
    (b := some (.up 3, "E1"))
    (by decide +kernel)
  obtain ⟨answers, c', hrun, -, hheld⟩ := run_held hnew [.requestElevator 3 .up, .step 0 "E1"]
  rw [hrun] at hobserve
  replace hobserve : (c'.hallCall 3 .up).toOption.bind (fun call =>
    (c'.requestElevator 3 .up).toOption.map fun s => (call, s.1)) = some (.up 3, "E1") := hobserve
  cases hcall : c'.hallCall 3 .up with
  | error =>
    rw [hcall] at hobserve
    cases hobserve
  | ok =>
    cases hok : c'.requestElevator 3 .up with
    | error =>
      rw [hcall, hok] at hobserve
      cases hobserve
    | ok r =>
      obtain ⟨id, c''⟩ := r
      rw [hcall, hok] at hobserve
      obtain ⟨rfl, rfl⟩ := Prod.mk.inj (some.inj hobserve)
      exact ⟨c, answers, c', c'', hnew, hrun, hok, hheld 3 .up _ _ c'' hcall hok⟩

/-- A press between the two sections of the step that serves it: nobody has the call. -/
theorem press_lost : ∃ c answers c' c'', new 1 0 10 lookEtaStrategy = .ok c ∧
      runSteps ElevatorController.step c [.requestElevator 0 .up, .step 0 "E1"] =
        .ok (answers, c') ∧ c'.requestElevator 0 .up = .ok ("E1", c'') ∧
      ¬ c''.Pending (.up 0) "E1" := by
  obtain ⟨c, hnew, hobserve⟩ := exists_ok_of_observe
    (x := new 1 0 10 lookEtaStrategy)
    (f := fun c => (runSteps ElevatorController.step c
      [.requestElevator 0 .up, .step 0 "E1"]).toOption.bind fun r =>
        (r.2.requestElevator 0 .up).toOption.map fun s : String × ElevatorController =>
          (s.1, decide (s.2.Pending (HallCall.up 0) "E1")))
    (b := some ("E1", false))
    (by decide +kernel)
  obtain ⟨answers, c', hrun, -⟩ := (new_consistent hnew).run [.requestElevator 0 .up, .step 0 "E1"]
  rw [hrun] at hobserve
  replace hobserve : (c'.requestElevator 0 .up).toOption.map
    (fun s : String × ElevatorController => (s.1, decide (s.2.Pending (HallCall.up 0) "E1"))) =
      some ("E1", false) := hobserve
  cases hok : c'.requestElevator 0 .up with
  | error =>
    rw [hok] at hobserve
    cases hobserve
  | ok r =>
    obtain ⟨id, c''⟩ := r
    rw [hok] at hobserve
    have hpair := Prod.mk.inj (some.inj hobserve)
    obtain rfl : id = "E1" := hpair.1
    exact ⟨c, answers, c', c'', hnew, hrun, hok, of_decide_eq_false hpair.2⟩

end ElevatorController

end InterviewPrep.Elevators
