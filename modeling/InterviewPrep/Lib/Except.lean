/-
  Inversion rules for computations that may raise: what a bind, a guard and a
  `mapM` that succeeded did, and what a stateful computation (`EStateM`, which
  keeps the state of a failure) did when it returned or raised.
-/
import Mathlib.Data.List.Forall2

namespace InterviewPrep.Lib

open List

universe u v

section

variable {ε : Type u} {α β : Type v} {b : β}

variable {f : α → Except ε β}

/-- A sequence returns when both parts do. -/
theorem bind_eq_ok {x : Except ε α} : (x >>= f) = .ok b ↔ ∃ a, x = .ok a ∧ f a = .ok b := by
  cases x with
  | error =>
    constructor
    · intro h
      cases h
    · rintro ⟨a, ha, -⟩
      cases ha
  | ok a =>
    constructor
    · intro h
      exact ⟨a, rfl, h⟩
    · rintro ⟨a', ha, h⟩
      cases ha
      exact h

/-- What follows a check returns when the check has passed. -/
theorem guard_eq_ok {γ : Type v} {p : Prop} [Decidable p] {e : ε} {f : γ → Except ε β}
    {x : Except ε β} :
    (if p then (throw e : Except ε γ) >>= f else x) = .ok b ↔ ¬ p ∧ x = .ok b := by
  by_cases h : p
  · rw [if_pos h]
    constructor
    · intro hthrow
      cases hthrow
    · intro hb
      exact absurd h hb.1
  · rw [if_neg h]
    simp only [h, not_false_eq_true, true_and]

/-- A value is returned as it is. -/
theorem pure_eq_ok {a : β} : (pure a : Except ε β) = .ok b ↔ a = b := by
  constructor
  · intro h
    cases h
    rfl
  · rintro rfl
    rfl

/-- A `mapM` returns when every element does, its results in order. -/
theorem mapM_eq_ok {xs : List α} {ys : List β} :
    xs.mapM f = .ok ys ↔ List.Forall₂ (fun x y => f x = .ok y) xs ys := by
  induction xs generalizing ys with
  | nil =>
    rw [mapM_nil, forall₂_nil_left_iff]
    constructor
    · intro h
      cases h
      rfl
    · rintro rfl
      rfl
  | cons _ _ ih =>
    rw [mapM_cons, bind_eq_ok, forall₂_cons_left_iff]
    constructor
    · rintro ⟨y, hy, h⟩
      obtain ⟨ys', hys, h'⟩ := bind_eq_ok.mp h
      cases h'
      exact ⟨y, ys', hy, ih.mp hys, rfl⟩
    · rintro ⟨y, ys', hy, hys, rfl⟩
      exact ⟨y, hy, bind_eq_ok.mpr ⟨ys', ih.mpr hys, rfl⟩⟩

/-- A `mapM` has one result for each element. -/
theorem length_mapM_option {f : α → Option β} {xs : List α} {ys : List β}
    (h : xs.mapM f = some ys) : ys.length = xs.length := by
  induction xs generalizing ys with
  | nil =>
    cases h
    rfl
  | cons _ _ ih =>
    rw [mapM_cons] at h
    obtain ⟨y, -, h⟩ := Option.bind_eq_some_iff.mp h
    obtain ⟨ys', hys, h⟩ := Option.bind_eq_some_iff.mp h
    cases h
    rw [length_cons, length_cons, ih hys]

end

/-! ## Stateful computations -/

namespace EState

variable {ε σ α β : Type u} {x : EStateM ε σ α} {f : α → EStateM ε σ β} {s t : σ}
  {e : ε} {a : α} {b : β}

/-- A sequence returns when both parts do, the second from the state of the first. -/
theorem bind_eq_ok : (x >>= f) s = .ok b t ↔ ∃ a s', x s = .ok a s' ∧ f a s' = .ok b t := by
  show EStateM.bind x f s = .ok b t ↔ _
  cases hx : x s with
  | ok a s' =>
    simp only [EStateM.bind, hx, EStateM.Result.ok.injEq]
    constructor
    · intro h
      exact ⟨a, s', ⟨rfl, rfl⟩, h⟩
    · rintro ⟨a', s'', ⟨rfl, rfl⟩, h⟩
      exact h
  | error => simp only [EStateM.bind, hx, reduceCtorEq, false_and, exists_false]

/-- A sequence raises when its first part does, or its second after it. -/
theorem bind_eq_error :
    (x >>= f) s = .error e t ↔ x s = .error e t ∨ ∃ a s', x s = .ok a s' ∧ f a s' = .error e t := by
  show EStateM.bind x f s = .error e t ↔ _
  cases hx : x s with
  | ok a s' =>
    simp only [EStateM.bind, hx, EStateM.Result.ok.injEq, reduceCtorEq, false_or]
    constructor
    · intro h
      exact ⟨a, s', ⟨rfl, rfl⟩, h⟩
    · rintro ⟨a', s'', ⟨rfl, rfl⟩, h⟩
      exact h
  | error =>
    simp only [EStateM.bind, hx, reduceCtorEq, false_and, exists_false, or_false]
    rw [EStateM.Result.error.injEq, EStateM.Result.error.injEq]

/-- A value is returned as it is, in the state as it is. -/
theorem pure_eq_ok {a' : α} : (pure a : EStateM ε σ α) s = .ok a' t ↔ a = a' ∧ s = t := by
  show (EStateM.Result.ok a s : EStateM.Result ε σ α) = .ok a' t ↔ _
  rw [EStateM.Result.ok.injEq]

/-- A value raises nothing. -/
theorem pure_ne_error : (pure a : EStateM ε σ α) s = .error e t ↔ False := by
  show (EStateM.Result.ok a s : EStateM.Result ε σ α) = .error e t ↔ _
  simp only [reduceCtorEq]

/-- A `throw` returns nothing. -/
theorem throw_ne_ok : (throw e : EStateM ε σ α) s = .ok a t ↔ False := by
  show (EStateM.Result.error e s : EStateM.Result ε σ α) = .ok a t ↔ _
  simp only [reduceCtorEq]

/-- A `throw` keeps the state. -/
theorem throw_eq_error {e' : ε} : (throw e : EStateM ε σ α) s = .error e' t ↔ e = e' ∧ s = t := by
  show (EStateM.Result.error e s : EStateM.Result ε σ α) = .error e' t ↔ _
  rw [EStateM.Result.error.injEq]

/-- `get` returns the state and keeps it. -/
theorem get_eq_ok {a : σ} : (get : EStateM ε σ σ) s = .ok a t ↔ s = a ∧ s = t := by
  show (EStateM.Result.ok s s : EStateM.Result ε σ σ) = .ok a t ↔ _
  rw [EStateM.Result.ok.injEq]

/-- `get` raises nothing. -/
theorem get_ne_error : (get : EStateM ε σ σ) s = .error e t ↔ False := by
  show (EStateM.Result.ok s s : EStateM.Result ε σ σ) = .error e t ↔ _
  simp only [reduceCtorEq]

/-- `modify` returns in the state that it computes. -/
theorem modify_eq_ok {g : σ → σ} {u : PUnit} :
    (modify g : EStateM ε σ PUnit) s = .ok u t ↔ g s = t := by
  show (EStateM.Result.ok PUnit.unit (g s) : EStateM.Result ε σ PUnit) = .ok u t ↔ _
  rw [EStateM.Result.ok.injEq]
  exact and_iff_right rfl

/-- `modify` raises nothing. -/
theorem modify_ne_error {g : σ → σ} : (modify g : EStateM ε σ PUnit) s = .error e t ↔ False := by
  show (EStateM.Result.ok PUnit.unit (g s) : EStateM.Result ε σ PUnit) = .error e t ↔ _
  simp only [reduceCtorEq]

/-- What follows a check returns when the check has passed. -/
theorem guard_eq_ok {γ : Type u} {p : Prop} [Decidable p] {k : γ → EStateM ε σ β}
    {y : EStateM ε σ β} :
    (if p then (throw e : EStateM ε σ γ) >>= k else y) s = .ok b t ↔ ¬ p ∧ y s = .ok b t := by
  by_cases h : p
  · rw [if_pos h, bind_eq_ok]
    simp only [throw_ne_ok, false_and, exists_false, h, not_true_eq_false]
  · rw [if_neg h]
    simp only [h, not_false_eq_true, true_and]

/-- A check raises in the state as it is, or what follows it does. -/
theorem guard_eq_error {γ : Type u} {p : Prop} [Decidable p] {k : γ → EStateM ε σ β}
    {y : EStateM ε σ β} {e' : ε} :
    (if p then (throw e : EStateM ε σ γ) >>= k else y) s = .error e' t ↔
      (p ∧ e = e' ∧ s = t) ∨ (¬ p ∧ y s = .error e' t) := by
  by_cases h : p
  · rw [if_pos h, bind_eq_error]
    simp only [throw_eq_error, throw_ne_ok, false_and, exists_false, or_false, h, true_and,
      not_true_eq_false]
  · rw [if_neg h]
    simp only [h, false_and, false_or, not_false_eq_true, true_and]

end EState

end InterviewPrep.Lib
