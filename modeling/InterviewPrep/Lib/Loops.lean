/-
  Loops over mutable variables and lists that are read and written by index.

  `whileLoop step` runs the body `step` until it has nothing more to do; it is given a number of
  iterations, and `whileLoop_spec` is the rule with an invariant and a measure: enough
  iterations end the loop.  `forRange_spec` is the invariant rule of a `for` loop over a range
  of numbers.  A read or a write outside a list raises (`item`, `setItem`).
-/
import Mathlib.Data.List.Basic

namespace InterviewPrep.Lib

variable {σ α : Type}

/-- Why a program with loops does not return: too few iterations, or an index out of range. -/
inductive Stop where
  | outOfFuel
  | indexError
  deriving DecidableEq

/-- `xs[i]`. -/
def item (xs : List α) (i : Nat) : Except Stop α :=
  match xs[i]? with
  | some x => .ok x
  | none => .error .indexError

/-- `xs[i] = x`. -/
def setItem (xs : List α) (i : Nat) (x : α) : Except Stop (List α) :=
  if i < xs.length then .ok (xs.set i x) else .error .indexError

theorem item_ok {xs : List α} {i : Nat} {x : α} (h : xs[i]? = some x) : item xs i = .ok x := by
  rw [item, h]

theorem setItem_ok {xs : List α} {i : Nat} (x : α) (h : i < xs.length) :
    setItem xs i x = .ok (xs.set i x) := if_pos h

theorem ok_bind {β : Type} (x : α) (f : α → Except Stop β) :
    ((Except.ok x : Except Stop α) >>= f) = f x := rfl

/-- `step` gives the variables after one more iteration, or none when the condition fails. -/
def whileLoop (step : σ → Except Stop (Option σ)) : Nat → σ → Except Stop σ
  | 0, _ => .error .outOfFuel
  | fuel + 1, s =>
    match step s with
    | .error e => .error e
    | .ok none => .ok s
    | .ok (some s') => whileLoop step fuel s'

theorem whileLoop_spec {step : σ → Except Stop (Option σ)} (I : σ → Prop) (μ : σ → Nat)
    (hstep : ∀ s, I s → step s = .ok none ∨ ∃ s', step s = .ok (some s') ∧ I s' ∧ μ s' < μ s)
    {fuel : Nat} {s : σ} (hs : I s) (hfuel : μ s < fuel) :
    ∃ t, whileLoop step fuel s = .ok t ∧ I t ∧ step t = .ok none := by
  induction fuel generalizing s with
  | zero => omega
  | succ _ ih =>
    obtain hdone | ⟨s', hnext, hs', hlt⟩ := hstep s hs
    · exact ⟨s, by rw [whileLoop, hdone], hs, hdone⟩
    · obtain ⟨t, ht, hrest⟩ := ih hs' (by omega)
      exact ⟨t, by rw [whileLoop, hnext]; exact ht, hrest⟩

/-- `for i in range(a, a + n)`. -/
def forRange (a n : Nat) (body : Nat → σ → Except Stop σ) (s : σ) : Except Stop σ :=
  (List.range' a n).foldlM (fun s i => body i s) s

theorem forRange_spec {a n : Nat} {body : Nat → σ → Except Stop σ} (I : Nat → σ → Prop)
    (hbody : ∀ i s, a ≤ i → i < a + n → I i s → ∃ s', body i s = .ok s' ∧ I (i + 1) s')
    {s : σ} (hs : I a s) : ∃ t, forRange a n body s = .ok t ∧ I (a + n) t := by
  induction n generalizing a s with
  | zero => exact ⟨s, rfl, hs⟩
  | succ n ih =>
    obtain ⟨s', hs', hI⟩ := hbody a s (Nat.le_refl a) (by omega) hs
    obtain ⟨t, ht, hlast⟩ := ih (a := a + 1)
      (fun i s hlo hhi => hbody i s (by omega) (by omega)) hI
    refine ⟨t, ?_, by rwa [show a + (n + 1) = a + 1 + n by omega]⟩
    rw [forRange, List.range'_succ, List.foldlM_cons, hs']
    exact ht

end InterviewPrep.Lib
