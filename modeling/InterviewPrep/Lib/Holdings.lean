/-
  Owners that hold one key each, or none, where no key may have two owners.

  A state says what every owner holds.  An owner takes a key that is free, drops the key
  it holds, or passes it on; each of the three keeps the holdings exclusive, and says
  which keys are held after it.

  `Stamped` adds a status word to every key, which its owner overwrites as it likes: the
  word of a key is what its owner has stamped it with, and is free when it has no owner.
-/
import Mathlib.Logic.Function.Basic

namespace InterviewPrep.Lib

open Function Option

variable {ω κ : Type*} {h : ω → Option κ} {w w' : ω} {k k' : κ}

/-- No key has two owners. -/
def Exclusive (h : ω → Option κ) : Prop :=
  ∀ w w' k, h w = some k → h w' = some k → w = w'

/-- The key has an owner. -/
def Held (h : ω → Option κ) (k : κ) : Prop := ∃ w, h w = some k

theorem exclusive_none : Exclusive fun _ : ω => (none : Option κ) := by
  intro w w' k hw
  cases hw

theorem not_held_none : ¬ Held (fun _ : ω => (none : Option κ)) k := by
  rintro ⟨w, hw⟩
  cases hw

variable [DecidableEq ω]

/-! ## Dropping -/

theorem update_none_eq_some {u : ω} :
    Function.update h w none u = some k ↔ u ≠ w ∧ h u = some k := by
  by_cases hu : u = w
  · subst hu
    simp
  · simp [hu]

theorem Exclusive.drop (hex : Exclusive h) : Exclusive (Function.update h w none) := by
  intro u u' k hu hu'
  rw [update_none_eq_some] at hu hu'
  exact hex u u' k hu.2 hu'.2

theorem Exclusive.held_drop (hex : Exclusive h) (hw : h w = some k) :
    Held (Function.update h w none) k' ↔ Held h k' ∧ k' ≠ k := by
  constructor
  · rintro ⟨u, hu⟩
    rw [update_none_eq_some] at hu
    refine ⟨⟨u, hu.2⟩, fun hk => hu.1 ?_⟩
    subst hk
    exact hex u w k' hu.2 hw
  · rintro ⟨⟨u, hu⟩, hk⟩
    refine ⟨u, update_none_eq_some.mpr ⟨fun huw => hk ?_, hu⟩⟩
    subst huw
    rw [hw] at hu
    exact (some.inj hu).symm

/-! ## Taking -/

theorem update_some_eq_some {u : ω} :
    Function.update h w (some k) u = some k' ↔ (u = w ∧ k = k') ∨ (u ≠ w ∧ h u = some k') := by
  by_cases hu : u = w
  · subst hu
    simp
  · simp [hu]

theorem Exclusive.take (hex : Exclusive h) (hfree : ¬ Held h k) :
    Exclusive (Function.update h w (some k)) := by
  intro u u' k' hu hu'
  rw [update_some_eq_some] at hu hu'
  obtain ⟨rfl, rfl⟩ | ⟨-, hu⟩ := hu
  · obtain ⟨rfl, -⟩ | ⟨-, hu'⟩ := hu'
    · rfl
    · exact absurd ⟨u', hu'⟩ hfree
  · obtain ⟨-, rfl⟩ | ⟨-, hu'⟩ := hu'
    · exact absurd ⟨u, hu⟩ hfree
    · exact hex u u' k' hu hu'

theorem held_take (hnone : h w = none) :
    Held (Function.update h w (some k)) k' ↔ k' = k ∨ Held h k' := by
  constructor
  · rintro ⟨u, hu⟩
    obtain ⟨-, hk⟩ | ⟨-, hu⟩ := update_some_eq_some.mp hu
    · exact .inl hk.symm
    · exact .inr ⟨u, hu⟩
  · rintro (rfl | ⟨u, hu⟩)
    · exact ⟨w, update_some_eq_some.mpr (.inl ⟨rfl, rfl⟩)⟩
    · refine ⟨u, update_some_eq_some.mpr (.inr ⟨fun huw => ?_, hu⟩)⟩
      subst huw
      rw [hnone] at hu
      cases hu

/-! ## Passing on -/

/-- An owner passes its key on to one that holds none. -/
def passOn (h : ω → Option κ) (w w' : ω) : ω → Option κ :=
  Function.update (Function.update h w none) w' (h w)

theorem passOn_drop (hne : w ≠ w') : passOn (Function.update h w' none) w w' = passOn h w w' := by
  have hcomm : Function.update (Function.update h w' none) w none =
      Function.update (Function.update h w none) w' none := update_comm hne.symm none none h
  rw [passOn, passOn, hcomm, update_idem, update_of_ne hne]

theorem Exclusive.pass (hex : Exclusive h) (hw : h w = some k) : Exclusive (passOn h w w') := by
  rw [passOn, hw]
  exact hex.drop.take fun hheld => ((hex.held_drop hw).mp hheld).2 rfl

theorem Exclusive.held_pass (hex : Exclusive h) (hw : h w = some k) (hw' : h w' = none) :
    Held (passOn h w w') k' ↔ Held h k' := by
  have hnone : Function.update h w none w' = none := by
    by_cases hww : w' = w
    · rw [hww, update_self]
    · rw [update_of_ne hww, hw']
  rw [passOn, hw, held_take hnone, hex.held_drop hw]
  constructor
  · rintro (rfl | ⟨hheld, -⟩)
    · exact ⟨w, hw⟩
    · exact hheld
  · intro hheld
    by_cases hk : k' = k
    · exact .inl hk
    · exact .inr ⟨hheld, hk⟩

/-! ## Exchanging -/

/-- An owner takes a key, drops the one it has, or leaves it; the keys held become `R'`. -/
inductive Exchange (R R' : κ → Prop) : Option κ → Option κ → Prop
  | same {o : Option κ} : (∀ k, R' k ↔ R k) → Exchange R R' o o
  | take {k : κ} : ¬ R k → (∀ k', R' k' ↔ k' = k ∨ R k') → Exchange R R' none (some k)
  | drop {k : κ} : (∀ k', R' k' ↔ R k' ∧ k' ≠ k) → Exchange R R' (some k) none

/-- The keys of `R` have one owner each, and no others have any. -/
structure Owned (h : ω → Option κ) (R : κ → Prop) : Prop where
  exclusive : Exclusive h
  held : ∀ k, Held h k ↔ R k

omit [DecidableEq ω] in
theorem Owned.of_eq {h' : ω → Option κ} {R : κ → Prop} (hR : Owned h R) (heq : h' = h) :
    Owned h' R := heq ▸ hR

theorem Owned.exchange {R R' : κ → Prop} {o' : Option κ} (hR : Owned h R)
    (hx : Exchange R R' (h w) o') : Owned (Function.update h w o') R' := by
  obtain ⟨hex, hheld⟩ := hR
  generalize hw : h w = o at hx
  cases hx with
  | same hR =>
    rw [← hw, update_eq_self]
    exact ⟨hex, fun k => (hheld k).trans (hR k).symm⟩
  | take hfree hR =>
    refine ⟨hex.take fun hk => hfree ((hheld _).mp hk), fun k => ?_⟩
    rw [held_take hw, hheld, hR]
  | drop hR => exact ⟨hex.drop, fun k => by rw [hex.held_drop hw, hheld, hR]⟩

/-! ## Status words -/

/-- What an owner holds, without its stamp. -/
abbrev keyOf {φ : Type*} (load : ω → Option (κ × φ)) (w : ω) : Option κ := (load w).map Prod.fst

/-- Every key has one owner at most, and its word is the stamp of its owner, or a free one. -/
structure Stamped {φ : Type*} (load : ω → Option (κ × φ)) (status : κ → φ) (free : φ → Prop) :
    Prop where
  exclusive : Exclusive (keyOf load)
  stamp : ∀ w k x, load w = some (k, x) → status k = x ∧ ¬ free x
  free : ∀ k, ¬ Held (keyOf load) k → free (status k)

variable {φ : Type*} {load : ω → Option (κ × φ)} {status : κ → φ} {free : φ → Prop} {x y : φ}

theorem keyOf_update (o : Option (κ × φ)) :
    keyOf (Function.update load w o) = Function.update (keyOf load) w (o.map Prod.fst) := by
  funext u
  by_cases hu : u = w
  · subst hu
    rw [keyOf, update_self, update_self]
  · rw [keyOf, update_of_ne hu, update_of_ne hu]

section

omit [DecidableEq ω]

theorem keyOf_eq_some (h : load w = some (k, x)) : keyOf load w = some k := by
  rw [keyOf, h]
  rfl

theorem keyOf_eq_none (h : load w = none) : keyOf load w = none := by
  rw [keyOf, h]
  rfl

theorem held_keyOf : Held (keyOf load) k ↔ ∃ w x, load w = some (k, x) := by
  constructor
  · rintro ⟨w, hw⟩
    obtain ⟨⟨_, x⟩, hload, rfl⟩ := map_eq_some_iff.mp hw
    exact ⟨w, x, hload⟩
  · rintro ⟨w, x, hload⟩
    exact ⟨w, keyOf_eq_some hload⟩

theorem Stamped.same (h : Stamped load status free) (hw : load w = some (k, x))
    (hw' : load w' = some (k, y)) : w = w' :=
  h.exclusive w w' k (keyOf_eq_some hw) (keyOf_eq_some hw')

theorem Stamped.not_held (h : Stamped load status free) (hfree : free (status k)) :
    ¬ Held (keyOf load) k := by
  rw [held_keyOf]
  rintro ⟨w, x, hload⟩
  obtain ⟨hstatus, hx⟩ := h.stamp w k x hload
  exact hx (hstatus ▸ hfree)

end

theorem Stamped.passOn (h : Stamped load status free) (hw : load w = some (k, x))
    (hw' : load w' = none) : Stamped (passOn load w w') status free := by
  have hkeys : keyOf (Lib.passOn load w w') = Lib.passOn (keyOf load) w w' := by
    rw [Lib.passOn, keyOf_update, keyOf_update]
    rfl
  refine ⟨hkeys ▸ h.exclusive.pass (keyOf_eq_some hw), fun u k' x' hu => ?_, fun k' hk => ?_⟩
  · rw [Lib.passOn, hw] at hu
    obtain ⟨-, heq⟩ | ⟨-, hu⟩ := update_some_eq_some.mp hu
    · obtain ⟨rfl, rfl⟩ := Prod.mk.inj heq
      exact h.stamp w k x hw
    · exact h.stamp u k' x' (update_none_eq_some.mp hu).2
  · rw [hkeys, h.exclusive.held_pass (keyOf_eq_some hw) (keyOf_eq_none hw')] at hk
    exact h.free k' hk

variable [DecidableEq κ]

theorem Stamped.take (h : Stamped load status free) (hw : load w = none) (hfree : free (status k))
    (hx : ¬ free x) :
    Stamped (Function.update load w (some (k, x))) (Function.update status k x) free := by
  have hnew := h.not_held hfree
  refine ⟨?_, fun u k' x' hu => ?_, fun k' hk => ?_⟩
  · rw [keyOf_update]
    exact h.exclusive.take hnew
  · obtain ⟨-, heq⟩ | ⟨-, hold⟩ := update_some_eq_some.mp hu
    · obtain ⟨rfl, rfl⟩ := Prod.mk.inj heq
      exact ⟨update_self _ _ _, hx⟩
    · have hne : k' ≠ k := by
        rintro rfl
        exact hnew ⟨u, keyOf_eq_some hold⟩
      rw [update_of_ne hne]
      exact h.stamp u k' x' hold
  · rw [keyOf_update, map_some, held_take (keyOf_eq_none hw), not_or] at hk
    rw [update_of_ne hk.1]
    exact h.free k' hk.2

theorem Stamped.restamp (h : Stamped load status free) (hw : load w = some (k, x)) (hy : ¬ free y) :
    Stamped (Function.update load w (some (k, y))) (Function.update status k y) free := by
  have hkeys : keyOf (Function.update load w (some (k, y))) = keyOf load := by
    rw [keyOf_update, map_some, ← keyOf_eq_some hw, update_eq_self]
  refine ⟨hkeys ▸ h.exclusive, fun u k' x' hu => ?_, fun k' hk => ?_⟩
  · obtain ⟨-, heq⟩ | ⟨hne, hold⟩ := update_some_eq_some.mp hu
    · obtain ⟨rfl, rfl⟩ := Prod.mk.inj heq
      exact ⟨update_self _ _ _, hy⟩
    · have hk : k' ≠ k := by
        rintro rfl
        exact hne (h.same hold hw)
      rw [update_of_ne hk]
      exact h.stamp u k' x' hold
  · rw [hkeys] at hk
    have hne : k' ≠ k := by
      rintro rfl
      exact hk ⟨w, keyOf_eq_some hw⟩
    rw [update_of_ne hne]
    exact h.free k' hk

theorem Stamped.drop (h : Stamped load status free) (hw : load w = some (k, x)) (hy : free y) :
    Stamped (Function.update load w none) (Function.update status k y) free := by
  refine ⟨?_, fun u k' x' hu => ?_, fun k' hk => ?_⟩
  · rw [keyOf_update]
    exact h.exclusive.drop
  · obtain ⟨hne, hu⟩ := update_none_eq_some.mp hu
    have hk : k' ≠ k := by
      rintro rfl
      exact hne (h.same hu hw)
    rw [update_of_ne hk]
    exact h.stamp u k' x' hu
  by_cases hkk : k' = k
  · subst hkk
    rw [update_self]
    exact hy
  · rw [update_of_ne hkk]
    rw [keyOf_update, map_none, h.exclusive.held_drop (keyOf_eq_some hw)] at hk
    exact h.free k' fun hheld => hk ⟨hheld, hkk⟩

omit [DecidableEq ω] in
theorem Stamped.switch (h : Stamped load status free) (hfree : free (status k)) (hy : free y) :
    Stamped load (Function.update status k y) free := by
  refine ⟨h.exclusive, fun u k' x' hu => ?_, fun k' hk => ?_⟩
  · have hne : k' ≠ k := by
      rintro rfl
      exact h.not_held hfree ⟨u, keyOf_eq_some hu⟩
    rw [update_of_ne hne]
    exact h.stamp u k' x' hu
  · by_cases hkk : k' = k
    · subst hkk
      rw [update_self]
      exact hy
    · rw [update_of_ne hkk]
      exact h.free k' hk

end InterviewPrep.Lib
