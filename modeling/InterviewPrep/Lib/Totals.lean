/-
  Sums over the values of a dictionary.  Writing or removing one key moves the sum by what that
  key has and had; the two equations are additive, so they need no subtraction.

  Double-entry bookkeeping: a posting changes the balance of one account by an amount, and the
  effect of a list of postings on an account is the sum of the amounts posted to it.

  Debts between people as a balance per person, and lists of transfers that settle them: each
  transfer goes from somebody who owes at least the amount to somebody who is owed at least the
  amount, and at the end everybody is even.  Settling lists of disjoint groups concatenate
  (`Settles.add`).
-/
import InterviewPrep.Lib.Dict
import Mathlib.Algebra.Order.Floor.Ring

namespace InterviewPrep.Lib

open List

namespace Dict

variable {κ ν M : Type*} [AddCommMonoid M] {d : Dict κ ν} {k : κ} {v : ν}

/-- The sum of `f` over the values. -/
def total (d : Dict κ ν) (f : ν → M) : M := (d.values.map f).sum

@[simp] theorem total_empty (f : ν → M) : (empty : Dict κ ν).total f = 0 := rfl

theorem total_zero {f : ν → M} (h : ∀ v ∈ d.values, f v = 0) : d.total f = 0 := by
  apply sum_eq_zero
  intro x hx
  obtain ⟨v, hv, rfl⟩ := mem_map.mp hx
  exact h v hv

variable [DecidableEq κ]

theorem total_erase (h : d.get? k = some v) (f : ν → M) :
    d.total f = f v + (d.erase k).total f := by
  have hperm := (items_perm_of_get? h).map fun x => f x.2
  simpa [total, values, Function.comp_def] using hperm.sum_eq

theorem total_set (d : Dict κ ν) (k : κ) (v : ν) (f : ν → M) :
    (d.set k v).total f = f v + (d.erase k).total f := by
  have hperm := (set_items_perm d k v).map fun x => f x.2
  simpa [total, values, Function.comp_def] using hperm.sum_eq

theorem total_erase_of_none (h : d.get? k = none) (f : ν → M) :
    (d.erase k).total f = d.total f := by
  rw [total, total, values, values, erase_eq_of_get?_none h]

theorem total_set_of_none (h : d.get? k = none) (v : ν) (f : ν → M) :
    (d.set k v).total f = f v + d.total f := by
  rw [total_set, total_erase_of_none h]

theorem total_eq_of_get? {d' : Dict κ ν} (h : ∀ k, d.get? k = d'.get? k) (f : ν → M) :
    d.total f = d'.total f := by
  have hperm : d.items.Perm d'.items := by
    apply (perm_ext_iff_of_nodup d.items_nodup d'.items_nodup).mpr
    intro x
    rw [mem_items_iff, mem_items_iff, h]
  exact ((hperm.map Prod.snd).map f).sum_eq

theorem total_set_of_get? (h : d.get? k = some v) (w : ν) (f : ν → M) :
    f v + (d.set k w).total f = f w + d.total f := by
  rw [total_set, total_erase h, add_left_comm]

theorem total_set_same {w : ν} (h : d.get? k = some v) {f : ν → M} (hf : f w = f v) :
    (d.set k w).total f = d.total f := by
  rw [total_set, total_erase h, hf]

theorem total_put {old : Option ν} (h : d.get? k = old) (next : Option ν) (f : ν → M) :
    old.elim 0 f + (d.put k next).total f = next.elim 0 f + d.total f := by
  cases old with
  | none =>
    cases next with
    | none => simp [put, total_erase_of_none h]
    | some => simp [put, total_set_of_none h]
  | some =>
    cases next with
    | none => simp [put, total_erase h]
    | some w => simpa [put] using total_set_of_get? h w f

end Dict

variable {κ α : Type*} [DecidableEq κ] [AddCommGroup α] {ps : List (κ × α)}

/-- The net effect of the postings `ps` on the account `u`. -/
def effect (ps : List (κ × α)) (u : κ) : α := (ps.map fun p => if p.1 = u then p.2 else 0).sum

/-- The postings reversed: every amount with the opposite sign. -/
def reversed (ps : List (κ × α)) : List (κ × α) := ps.map fun p => (p.1, -p.2)

@[simp] theorem effect_nil (u : κ) : effect ([] : List (κ × α)) u = 0 := rfl

theorem effect_cons (p : κ × α) (ps : List (κ × α)) (u : κ) :
    effect (p :: ps) u = (if p.1 = u then p.2 else 0) + effect ps u := by
  rw [effect, map_cons, sum_cons, ← effect]

theorem effect_append (ps qs : List (κ × α)) (u : κ) :
    effect (ps ++ qs) u = effect ps u + effect qs u := by
  rw [effect, map_append, sum_append, ← effect, ← effect]

theorem effect_perm {qs : List (κ × α)} (h : ps.Perm qs) (u : κ) : effect ps u = effect qs u :=
  (h.map _).sum_eq

theorem effect_reversed (ps : List (κ × α)) (u : κ) : effect (reversed ps) u = -effect ps u := by
  induction ps with
  | nil => simp [reversed]
  | cons p _ ih =>
    rw [reversed, map_cons, ← reversed, effect_cons, effect_cons, ih, neg_add]
    congr 1
    by_cases h : p.1 = u
    · simp only [if_pos h]
    · simp only [if_neg h, neg_zero]

theorem effect_of_not_mem {u : κ} (h : u ∉ ps.map Prod.fst) : effect ps u = 0 := by
  induction ps with
  | nil => rfl
  | cons _ _ ih =>
    rw [map_cons, mem_cons, not_or] at h
    rw [effect_cons, if_neg (Ne.symm h.1), ih h.2, add_zero]

theorem effect_of_mem (hn : (ps.map Prod.fst).Nodup) {p : κ × α} (hp : p ∈ ps) :
    effect ps p.1 = p.2 := by
  induction ps with
  | nil => cases hp
  | cons q _ ih =>
    rw [map_cons, nodup_cons] at hn
    rcases mem_cons.mp hp with rfl | hp
    · rw [effect_cons, if_pos rfl, effect_of_not_mem hn.1, add_zero]
    · have hne : q.1 ≠ p.1 := fun h => hn.1 (h ▸ mem_map_of_mem hp)
      rw [effect_cons, if_neg hne, zero_add, ih hn.2 hp]

variable {κ α : Type*} [DecidableEq κ] [AddCommGroup α]

/-- The balances after `d` has handed the amount `a` to `c`. -/
def pay (b : κ → α) (d c : κ) (a : α) : κ → α := fun u => b u + effect [(d, a), (c, -a)] u

theorem pay_apply (b : κ → α) (d c : κ) (a : α) (u : κ) :
    pay b d c a u = b u + ((if d = u then a else 0) + if c = u then -a else 0) := by
  rw [pay, effect_cons, effect_cons, effect_nil, add_zero]

theorem pay_of_ne (b : κ → α) {d c : κ} (a : α) {u : κ} (hd : u ≠ d) (hc : u ≠ c) :
    pay b d c a u = b u := by
  rw [pay_apply, if_neg (Ne.symm hd), if_neg (Ne.symm hc), add_zero, add_zero]

theorem pay_add (b b' : κ → α) (d c : κ) (a : α) : pay (b + b') d c a = pay b d c a + b' := by
  funext u
  simp only [pay, Pi.add_apply]
  abel

variable [LinearOrder α] [IsOrderedAddMonoid α]

/-- The transfers `(debtor, creditor, amount)` settle the balances `b`. -/
inductive Settles : (κ → α) → List (κ × κ × α) → Prop
  | even {b : κ → α} (h : ∀ u, b u = 0) : Settles b []
  | pay {b : κ → α} {d c : κ} {a : α} {ts : List (κ × κ × α)} (ha : 0 < a) (hd : a ≤ -b d)
      (hc : a ≤ b c) (rest : Settles (pay b d c a) ts) : Settles b ((d, c, a) :: ts)

omit [DecidableEq κ] in
theorem debtor_ne_creditor {b : κ → α} {d c : κ} {a : α} (ha : 0 < a) (hd : a ≤ -b d)
    (hc : a ≤ b c) : d ≠ c := by
  rintro rfl
  have hneg : b d < 0 := neg_pos.mp (ha.trans_le hd)
  exact absurd (ha.trans_le hc) hneg.le.not_gt

theorem Settles.add {b b' : κ → α} {ts ts' : List (κ × κ × α)} (h : Settles b ts)
    (h' : Settles b' ts') (hdisj : ∀ u, b u = 0 ∨ b' u = 0) : Settles (b + b') (ts ++ ts') := by
  induction h with
  | @even b heven =>
    have hb : b = 0 := funext heven
    rw [hb, zero_add]
    exact h'
  | @pay b d c a ts ha hd hc _ ih =>
    have hbd : b' d = 0 := (hdisj d).resolve_left (neg_pos.mp (ha.trans_le hd)).ne
    have hbc : b' c = 0 := (hdisj c).resolve_left (ha.trans_le hc).ne'
    have hrest : Settles (Lib.pay b d c a + b') (ts ++ ts') := by
      apply ih
      intro u
      rcases hdisj u with hu | hu
      · by_cases hud : u = d
        · exact Or.inr (hud ▸ hbd)
        · by_cases huc : u = c
          · exact Or.inr (huc ▸ hbc)
          · exact Or.inl (by rw [pay_of_ne b a hud huc, hu])
      · exact Or.inr hu
    rw [← pay_add] at hrest
    refine Settles.pay ha ?_ ?_ hrest
    · rwa [Pi.add_apply, hbd, add_zero]
    · rwa [Pi.add_apply, hbc, add_zero]

end InterviewPrep.Lib
