/-
  Runs of a deterministic machine with labelled steps, outputs and failures.  `runSteps step s as`
  takes the steps `as` one after the other and collects their outputs; it fails with the first
  failing step.  A property of every run, which may mention the labels and outputs so far, is
  proved from one step by `runSteps_induction`.  `Guarded` says that every step of the run meets a
  condition on its label and the state it is taken in (`runSteps_invariant`).

  `Ends x Q E s` says that the computation `x` started in `s` either returns a value and a state
  that meet `Q`, or raises an error in a state that meets `E`.  It is the weakest precondition of
  `EStateM`, which keeps the state of a failure; the rules are equivalences, so that `simp only`
  carries a condition backwards through a program, and `Ends.forM` is the invariant rule of a loop
  over a list.
-/
import Mathlib.Data.List.Induction

namespace InterviewPrep.Lib

open List

variable {σ α ω ε : Type*}

/-- Take the steps `as` from `s`; the outputs, oldest first, and the last state. -/
def runSteps (step : σ → α → Except ε (ω × σ)) : σ → List α → Except ε (List ω × σ)
  | s, [] => .ok ([], s)
  | s, a :: as =>
    match step s a with
    | .error e => .error e
    | .ok (o, s') =>
      match runSteps step s' as with
      | .error e => .error e
      | .ok (os, s'') => .ok (o :: os, s'')

/-- Take the steps `as` from `s`, going on after a failing one in the state it failed in. -/
def runKeep (step : σ → α → Except ε (ω × σ)) : σ → List α → List (Except ε ω) × σ
  | s, [] => ([], s)
  | s, a :: as =>
    match step s a with
    | .error e => let (os, t) := runKeep step s as; (.error e :: os, t)
    | .ok (o, s') => let (os, t) := runKeep step s' as; (.ok o :: os, t)

/-- Every step of the run meets `C` in the state it is taken in. -/
def Guarded (C : σ → α → Prop) (step : σ → α → Except ε (ω × σ)) : σ → List α → Prop
  | _, [] => True
  | s, a :: as => C s a ∧ ∀ o s', step s a = .ok (o, s') → Guarded C step s' as

variable {step : σ → α → Except ε (ω × σ)}

theorem guarded_cons_error {C : σ → α → Prop} {s : σ} {a : α}
    {as : List α} {e : ε} (h : step s a = .error e) : Guarded C step s (a :: as) ↔ C s a := by
  simp [Guarded, h]

theorem guarded_cons_ok {C : σ → α → Prop} {s s' : σ} {a : α}
    {as : List α} {o : ω} (h : step s a = .ok (o, s')) :
    Guarded C step s (a :: as) ↔ C s a ∧ Guarded C step s' as := by
  rw [Guarded, h]
  refine and_congr_right fun _ => ⟨fun hrest => hrest o s' rfl, ?_⟩
  rintro hrest _ _ ⟨⟩
  exact hrest

instance Guarded.decidable (C : σ → α → Prop) [∀ s a, Decidable (C s a)]
    (step : σ → α → Except ε (ω × σ)) : (s : σ) → (as : List α) → Decidable (Guarded C step s as)
  | _, [] => .isTrue trivial
  | s, a :: as =>
    match h : step s a with
    | .error _ => decidable_of_iff _ (guarded_cons_error h).symm
    | .ok (_, s') =>
      have := Guarded.decidable C step s' as
      decidable_of_iff _ (guarded_cons_ok h).symm

theorem exists_ok_of_observe {β : Type*} {x : Except ε α} {f : α → β} {b : β}
    (h : x.toOption.map f = some b) : ∃ a, x = .ok a ∧ f a = b := by
  cases x with
  | error => cases h
  | ok a => exact ⟨a, rfl, Option.some.inj h⟩

theorem exists_run_of_observe {β γ : Type*} {x : Except ε (α × β)} {f : α × β → γ} {b : γ}
    {P : α → β → Prop} (h : x.toOption.map f = some b)
    (hP : ∀ a c, x = .ok (a, c) → f (a, c) = b → P a c) : ∃ a c, x = .ok (a, c) ∧ P a c := by
  obtain ⟨⟨a, c⟩, hx, hb⟩ := exists_ok_of_observe h
  exact ⟨a, c, hx, hP a c hx hb⟩

section

variable {step : σ → α → Except ε (ω × σ)} {s s'' t : σ} {a : α} {as : List α} {os : List ω}
  {C : σ → α → Prop}

@[simp] theorem runSteps_nil (s : σ) : runSteps step s [] = .ok ([], s) := rfl

theorem runSteps_cons_ok {s' : σ} {o : ω} (h : step s a = .ok (o, s'))
    (hs : runSteps step s' as = .ok (os, s'')) :
    runSteps step s (a :: as) = .ok (o :: os, s'') := by
  simp only [runSteps, h, hs]

theorem runSteps_cons_inv (h : runSteps step s (a :: as) = .ok (os, s'')) :
    ∃ o s' os', step s a = .ok (o, s') ∧ runSteps step s' as = .ok (os', s'') ∧
      os = o :: os' := by
  simp only [runSteps] at h
  cases hstep : step s a with
  | error => rw [hstep] at h; cases h
  | ok r =>
  obtain ⟨o, s'⟩ := r
  rw [hstep] at h
  simp only at h
  cases hrun : runSteps step s' as with
  | error => rw [hrun] at h; cases h
  | ok r =>
    obtain ⟨os', t⟩ := r
    rw [hrun] at h
    cases h
    exact ⟨o, s', os', rfl, hrun, rfl⟩

theorem runSteps_append {s' : σ} {bs : List α} {ps : List ω} (h : runSteps step s as = .ok (os, s'))
    (h' : runSteps step s' bs = .ok (ps, s'')) :
    runSteps step s (as ++ bs) = .ok (os ++ ps, s'') := by
  induction as generalizing s os with
  | nil =>
    cases h
    exact h'
  | cons _ _ ih =>
    obtain ⟨o, t, os', hstep, hrun, rfl⟩ := runSteps_cons_inv h
    exact runSteps_cons_ok hstep (ih hrun)

theorem runSteps_concat_inv (h : runSteps step s (as ++ [a]) = .ok (os, t)) :
    ∃ os' t' o, runSteps step s as = .ok (os', t') ∧ step t' a = .ok (o, t) ∧ os = os' ++ [o] := by
  induction as generalizing s os with
  | nil =>
    obtain ⟨o, s', os', hok, hrun, rfl⟩ := runSteps_cons_inv h
    cases hrun
    exact ⟨[], s, o, rfl, hok, rfl⟩
  | cons _ _ ih =>
    obtain ⟨o, s', os', hok, hrun, rfl⟩ := runSteps_cons_inv h
    obtain ⟨os'', t', o', hrun', hok', rfl⟩ := ih hrun
    exact ⟨o :: os'', t', o', runSteps_cons_ok hok hrun', hok', rfl⟩

theorem runSteps_eq_ok_iff :
    runSteps step s as = .ok (os, t) ↔ runKeep step s as = (os.map .ok, t) := by
  induction as generalizing s os with
  | nil =>
    rw [runSteps, runKeep, Except.ok.injEq, Prod.mk.injEq, Prod.mk.injEq]
    refine and_congr_left fun _ => ?_
    rw [eq_comm, eq_comm (a := []), map_eq_nil_iff]
  | cons a _ ih =>
    cases hstep : step s a with
    | error =>
      simp only [runSteps, runKeep, hstep, Prod.mk.injEq, reduceCtorEq, false_iff, not_and]
      intro hos
      cases os <;> cases hos
    | ok r =>
    obtain ⟨o, s'⟩ := r
    constructor
    · intro h
      obtain ⟨o', s'', os', hok, hrun, rfl⟩ := runSteps_cons_inv h
      rw [hstep] at hok
      cases hok
      simp only [runKeep, hstep, ih.mp hrun, map_cons]
    intro h
    simp only [runKeep, hstep, Prod.mk.injEq] at h
    obtain ⟨hos, ht⟩ := h
    cases os with
    | nil => cases hos
    | cons =>
      rw [map_cons, List.cons.injEq, Except.ok.injEq] at hos
      obtain ⟨rfl, hos⟩ := hos
      exact runSteps_cons_ok hstep (ih.mpr (Prod.ext hos ht))

theorem runSteps_ok_mem (h : runSteps step s as = .ok (os, t)) (ha : a ∈ as) :
    ∃ s' o s'', step s' a = .ok (o, s'') := by
  induction as generalizing s os with
  | nil => cases ha
  | cons _ _ ih =>
    obtain ⟨o, s', os', hok, hrun, -⟩ := runSteps_cons_inv h
    rcases mem_cons.mp ha with rfl | ha
    · exact ⟨s, o, s', hok⟩
    · exact ih hrun ha

/-- Induction on a run, last step last: `G` is assumed of the steps taken, `I` relates the steps,
    their outputs and the state reached. -/
theorem runSteps_induction (step : σ → α → Except ε (ω × σ)) (s : σ) (G : List α → Prop)
    (hG : ∀ as a, G (as ++ [a]) → G as) (I : List α → List ω → σ → Prop) (hinit : I [] [] s)
    (hstep : ∀ as os t a, runSteps step s as = .ok (os, t) → G (as ++ [a]) → I as os t →
      ∃ o t', step t a = .ok (o, t') ∧ I (as ++ [a]) (os ++ [o]) t') (as : List α) (has : G as) :
    ∃ os t, runSteps step s as = .ok (os, t) ∧ I as os t := by
  induction as using List.reverseRecOn with
  | nil => exact ⟨[], s, rfl, hinit⟩
  | append_singleton as a ih =>
    obtain ⟨os, t, hrun, hI⟩ := ih (hG as a has)
    obtain ⟨o, t', hok, hI'⟩ := hstep as os t a hrun has hI
    exact ⟨os ++ [o], t', runSteps_append hrun (runSteps_cons_ok hok rfl), hI'⟩

theorem Guarded.of_forall (h : ∀ s a, C s a) (s : σ) (as : List α) : Guarded C step s as := by
  induction as generalizing s with
  | nil => trivial
  | cons a _ ih => exact ⟨h s a, fun _ s' _ => ih s'⟩

theorem Guarded.append_inv {bs : List α} (h : Guarded C step s (as ++ bs)) : Guarded C step s as ∧
      ∀ os t, runSteps step s as = .ok (os, t) → Guarded C step t bs := by
  induction as generalizing s with
  | nil => exact ⟨trivial, fun os t hrun => by cases hrun; exact h⟩
  | cons _ _ ih =>
    refine ⟨⟨h.1, fun o s' hok => (ih (h.2 o s' hok)).1⟩, fun os t hrun => ?_⟩
    obtain ⟨o, s', os', hok, hrun', -⟩ := runSteps_cons_inv hrun
    exact (ih (h.2 o s' hok)).2 os' t hrun'

theorem runSteps_keeps (I : List α → List ω → σ → Prop)
    (hstep : ∀ as os t a o t', runSteps step s as = .ok (os, t) → I as os t → C t a →
      step t a = .ok (o, t') → I (as ++ [a]) (os ++ [o]) t')
    (hinit : I [] [] s) (hC : Guarded C step s as)
    (hrun : runSteps step s as = .ok (os, t)) : I as os t := by
  induction as using List.reverseRecOn generalizing os t with
  | nil =>
    cases hrun
    exact hinit
  | append_singleton as a ih =>
    obtain ⟨hguard, hlast⟩ := hC.append_inv
    obtain ⟨os', t', o, hrun', hok, rfl⟩ := runSteps_concat_inv hrun
    exact hstep as os' t' a o t hrun' (ih hguard hrun') (hlast os' t' hrun').1 hok

theorem runSteps_invariant (I : List α → List ω → σ → Prop)
    (hstep : ∀ as os t a, I as os t → C t a →
      ∃ o t', step t a = .ok (o, t') ∧ I (as ++ [a]) (os ++ [o]) t')
    (hinit : I [] [] s) (hC : Guarded C step s as) :
    ∃ os t, runSteps step s as = .ok (os, t) ∧ I as os t := by
  refine runSteps_induction step s (Guarded C step s) (fun as a h => h.append_inv.1) I
    hinit ?_ as hC
  intro as os t a hrun hguard hI
  exact hstep as os t a hI (hguard.append_inv.2 os t hrun).1

/-- The rounds `as` of a run that counts them up to `N`. -/
theorem runSteps_rounds {N : Nat} (I : Nat → σ → Prop)
    (hround : ∀ n t, n < N → I n t → ∃ os t', runSteps step t as = .ok (os, t') ∧ I (n + 1) t')
    (hinit : I 0 s) (n : Nat) (hn : n ≤ N) :
    ∃ os t, runSteps step s (replicate n as).flatten = .ok (os, t) ∧ I n t := by
  induction n with
  | zero => exact ⟨[], s, rfl, hinit⟩
  | succ n ih =>
    obtain ⟨os, t, hrun, ht⟩ := ih (Nat.le_of_succ_le hn)
    obtain ⟨os', t', hrun', ht'⟩ := hround n t hn ht
    refine ⟨os ++ os', t', ?_, ht'⟩
    rw [replicate_succ', flatten_concat]
    exact runSteps_append hrun hrun'

/-- Of a machine that no step fails, every run completes, and what each step keeps
    holds after it. -/
theorem runSteps_total {act : σ → α → ω × σ} (hstep : ∀ s a, step s a = .ok (act s a))
    {I : σ → Prop} (hact : ∀ s a, I s → I (act s a).2) (h : I s) (as : List α) :
    ∃ os t, runSteps step s as = .ok (os, t) ∧ I t := by
  induction as generalizing s with
  | nil => exact ⟨[], s, rfl, h⟩
  | cons a _ ih =>
    obtain ⟨os, t, hrun, ht⟩ := ih (hact s a h)
    exact ⟨_ :: os, t, runSteps_cons_ok (hstep s a) hrun, ht⟩

end

universe u v

variable {ε σ α β : Type u} {s : σ}

def Ends (x : EStateM ε σ α) (Q : α → σ → Prop) (E : ε → σ → Prop) (s : σ) : Prop :=
  match x s with
  | .ok a t => Q a t
  | .error e t => E e t

variable {x : EStateM ε σ α} {f : α → EStateM ε σ β} {Q Q' : α → σ → Prop} {R : β → σ → Prop}
  {E E' : ε → σ → Prop} {a : α} {t : σ}

theorem bind_ok (h : x s = .ok a t) : (x >>= f) s = f a t := by
  show EStateM.bind x f s = _
  simp only [EStateM.bind, h]

theorem bind_error {e : ε} (h : x s = .error e t) : (x >>= f) s = .error e t := by
  show EStateM.bind x f s = _
  simp only [EStateM.bind, h]

theorem get_bind {f : σ → EStateM ε σ α} : ((get : EStateM ε σ σ) >>= f) s = f s s := rfl

theorem modify_bind {g : σ → σ} {f : PUnit → EStateM ε σ α} :
    ((modify g : EStateM ε σ PUnit) >>= f) s = f ⟨⟩ (g s) := rfl

theorem ends_ok (h : Ends x Q E s) (hx : x s = .ok a t) : Q a t := by
  rwa [Ends, hx] at h

theorem ends_error {e : ε} (h : Ends x Q E s) (hx : x s = .error e t) : E e t := by
  rwa [Ends, hx] at h

theorem Ends.mono (h : Ends x Q E s) (hQ : ∀ a t, Q a t → Q' a t) (hE : ∀ e t, E e t → E' e t) :
    Ends x Q' E' s := by
  unfold Ends at h ⊢
  cases hx : x s with
  | ok a t =>
    rw [hx] at h
    exact hQ a t h
  | error e t =>
    rw [hx] at h
    exact hE e t h

theorem ends_bind : Ends (x >>= f) R E s ↔ Ends x (fun a t => Ends (f a) R E t) E s := by
  show (match EStateM.bind x f s with | .ok b t => R b t | .error e t => E e t) ↔ _
  unfold Ends EStateM.bind
  cases x s <;> rfl

theorem ends_pure : Ends (pure a) Q E s ↔ Q a s := Iff.rfl

theorem ends_get {Q : σ → σ → Prop} : Ends (get : EStateM ε σ σ) Q E s ↔ Q s s := Iff.rfl

theorem ends_modify {Q : PUnit → σ → Prop} {g : σ → σ} :
    Ends (modify g : EStateM ε σ PUnit) Q E s ↔ Q ⟨⟩ (g s) := Iff.rfl

theorem ends_ite {p : Prop} [Decidable p] {y : EStateM ε σ α} :
    Ends (if p then x else y) Q E s ↔ (p → Ends x Q E s) ∧ (¬ p → Ends y Q E s) := by
  by_cases h : p
  · simp [h]
  · simp [h]

theorem Ends.forM {γ : Type v} {g : γ → EStateM ε σ PUnit} {xs : List γ} (I : List γ → σ → Prop)
    (hinit : I [] s) (hstep : ∀ pre x post t, xs = pre ++ x :: post → I pre t →
      Ends (g x) (fun _ t' => I (pre ++ [x]) t') E t) :
    Ends (xs.forM g) (fun _ t => I xs t) E s := by
  have hgen : ∀ (ys pre : List γ) (t : σ), xs = pre ++ ys → I pre t →
      Ends (ys.forM g) (fun _ t' => I xs t') E t := by
    intro ys
    induction ys with
    | nil =>
      intro pre t hxs hI
      rw [List.append_nil] at hxs
      rw [hxs]
      exact hI
    | cons y ys ih =>
      intro pre t hxs hI
      show Ends (g y >>= fun _ => ys.forM g) (fun _ t' => I xs t') E t
      rw [ends_bind]
      apply (hstep pre y ys t hxs hI).mono
      · intro _ t' hI'
        exact ih (pre ++ [y]) t' (by rw [hxs, List.append_cons]) hI'
      · exact fun _ _ h => h
  exact hgen xs [] s rfl hinit

end InterviewPrep.Lib
