/-
  Use counts with their order: what is in use, each with the number of its uses, from the
  latest use to the oldest.  What was used least often and, of that, longest ago is the last of
  those with the least count (`leastUsed_of_last`).
-/
import Mathlib.Data.List.Basic

namespace InterviewPrep.Lib

open List

abbrev Uses (α : Type*) := List (α × Int)

namespace Uses

variable {α : Type*} [DecidableEq α] {l : Uses α} {x y : α} {n m : Int}

def forget (l : Uses α) (x : α) : Uses α := l.filter (·.1 ≠ x)

/-- `x` is used for the `n`-th time. -/
def use (l : Uses α) (x : α) (n : Int) : Uses α := (x, n) :: l.forget x

/-- How often `x` was used. -/
def count (l : Uses α) (x : α) : Int := ((l.find? (·.1 = x)).map Prod.snd).getD 0

omit [DecidableEq α] in
/-- What was used `n` times. -/
def times (l : Uses α) (n : Int) : List α := (l.filter (·.2 = n)).map Prod.fst

omit [DecidableEq α] in
/-- Nothing is used less often than `x`, nor as often and last before it. -/
def LeastUsed (l : Uses α) (x : α) : Prop :=
  ∃ newer n older, l = newer ++ (x, n) :: older ∧ (∀ y ∈ newer, n ≤ y.2) ∧ ∀ y ∈ older, n < y.2

omit [DecidableEq α] in
@[simp] theorem mem_times : x ∈ l.times n ↔ (x, n) ∈ l := by simp [times]

theorem times_forget (l : Uses α) (x : α) (n : Int) :
    (l.forget x).times n = (l.times n).filter (· ≠ x) := by
  rw [times, times, forget, filter_map, filter_filter, filter_filter]
  exact congrArg _ (filter_congr fun y _ => Bool.and_comm ..)

theorem times_use (l : Uses α) (x : α) (n m : Int) : (l.use x n).times m =
    if m = n then x :: (l.times m).filter (· ≠ x) else (l.times m).filter (· ≠ x) := by
  rw [← times_forget, times, use, filter_cons]
  by_cases h : m = n
  · simp [h, times]
  · simp [h, Ne.symm h, times]

theorem count_eq (hx : x ∈ l.times n) (h : ∀ m, x ∈ l.times m → m = n) : l.count x = n := by
  rw [count]
  cases hf : l.find? (·.1 = x) with
  | none => exact absurd (mem_times.mp hx) (by simpa using find?_eq_none.mp hf (x, n))
  | some y =>
    obtain rfl : y.1 = x := by simpa using find?_some hf
    exact h y.2 (mem_times.mpr (mem_of_find?_eq_some hf))

theorem count_eq_zero (h : ∀ m, x ∉ l.times m) : l.count x = 0 := by
  have hnone : l.find? (·.1 = x) = none := by
    refine find?_eq_none.mpr fun y hy hyx => h y.2 (mem_times.mpr ?_)
    rwa [← of_decide_eq_true hyx]
  rw [count, hnone]
  rfl

omit [DecidableEq α] in
theorem leastUsed_of_last (hlast : (l.times n).getLast? = some x) (hleast : ∀ y ∈ l, n ≤ y.2) :
    l.LeastUsed x := by
  obtain ⟨front, hfront⟩ := getLast?_eq_some_iff.mp hlast
  obtain ⟨_, lasts, hsplit, -, hmap⟩ := map_eq_append_iff.mp hfront
  obtain ⟨⟨x, m⟩, rfl, rfl⟩ := map_eq_singleton_iff.mp hmap
  obtain ⟨newer, rest, rfl, -, hrest⟩ := filter_eq_append_iff.mp hsplit
  obtain ⟨others, older, rfl, -, hm, holder⟩ := filter_eq_cons_iff.mp hrest
  obtain rfl : m = n := of_decide_eq_true hm
  refine ⟨newer ++ others, m, older, by simp, fun y hy => hleast y ?_, fun y hy => ?_⟩
  · rcases mem_append.mp hy with hy | hy <;> simp [hy]
  · -- the last one with the least count has none with that count behind it
    have hle := hleast y (by simp [hy])
    have hne : y.2 ≠ m := by simpa using filter_eq_nil_iff.mp holder y hy
    omega

end Uses

end InterviewPrep.Lib
