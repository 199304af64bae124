/-
  Where parts of two lists agree.  `Agree xs ys a b n` compares the `n` elements from `a` in `xs`
  with those from `b` in `ys`; `EndsAt xs ys j i` says that the first `j` elements of `xs` end at
  `i` in `ys`, and a border of a prefix of `xs` is a shorter prefix that ends where it does.

  `Candidate` is what a scan that never goes back knows of its longest prefix: no longer one than
  by one element can end at the next position.  A step on agreement keeps it
  (`Candidate.advance`), and so do falling back to the longest border (`Candidate.fallback`) and a
  step from the empty prefix (`Candidate.skip`).  `MatchLength` is how far a list agrees with
  itself from a position on.
-/
import Mathlib.Data.List.Basic

namespace InterviewPrep.Lib

open List

variable {α : Type} {xs ys zs : List α} {a b c m n : Nat}

def Agree (xs ys : List α) (a b n : Nat) : Prop := ∀ k < n, xs[a + k]? = ys[b + k]?

theorem Agree.mono (h : Agree xs ys a b n) (hle : m ≤ n) : Agree xs ys a b m :=
  fun k hk => h k (by omega)

theorem Agree.symm (h : Agree xs ys a b n) : Agree ys xs b a n := fun k hk => (h k hk).symm

theorem Agree.trans (h : Agree xs ys a b n) (h' : Agree ys zs b c n) : Agree xs zs a c n :=
  fun k hk => (h k hk).trans (h' k hk)

theorem Agree.part (h : Agree xs ys a b n) (d : Nat) (hle : d + m ≤ n) :
    Agree xs ys (a + d) (b + d) m := by
  intro k hk
  have hd := h (d + k) (by omega)
  rwa [← Nat.add_assoc, ← Nat.add_assoc] at hd

theorem agree_succ : Agree xs ys a b (n + 1) ↔ Agree xs ys a b n ∧ xs[a + n]? = ys[b + n]? := by
  refine ⟨fun h => ⟨h.mono (Nat.le_succ n), h n (Nat.lt_succ_self n)⟩, fun ⟨h, hn⟩ k hk => ?_⟩
  obtain hk | rfl := Nat.lt_succ_iff_lt_or_eq.mp hk
  · exact h k hk
  · exact hn

theorem slice_eq_iff (hpos : 0 < ys.length) : (xs.drop a).take ys.length = ys ↔
    a + ys.length ≤ xs.length ∧ Agree ys xs 0 a ys.length := by
  constructor
  · intro h
    have hlength := congrArg List.length h
    rw [length_take, length_drop] at hlength
    refine ⟨by omega, fun k hk => ?_⟩
    have hk' := congrArg (fun zs : List α => zs[k]?) h
    rw [getElem?_take_of_lt hk, getElem?_drop] at hk'
    rw [Nat.zero_add, hk']
  · rintro ⟨hle, h⟩
    refine ext_getElem? fun k => ?_
    by_cases hk : k < ys.length
    · rw [getElem?_take_of_lt hk, getElem?_drop, ← h k hk, Nat.zero_add]
    · rw [getElem?_eq_none (by rw [length_take]; omega),
        getElem?_eq_none (by omega)]

/-! ## Prefixes that end at a position -/

variable {i j k f : Nat}

def EndsAt (xs ys : List α) (j i : Nat) : Prop := j ≤ i ∧ Agree xs ys 0 (i - j) j

theorem endsAt_zero (xs ys : List α) (i : Nat) : EndsAt xs ys 0 i :=
  ⟨Nat.zero_le i, fun _ hk => absurd hk (Nat.not_lt_zero _)⟩

theorem endsAt_succ : EndsAt xs ys (j + 1) (i + 1) ↔ EndsAt xs ys j i ∧ xs[j]? = ys[i]? := by
  unfold EndsAt
  rw [Nat.add_sub_add_right, agree_succ, Nat.zero_add, Nat.add_le_add_iff_right]
  refine ⟨fun ⟨hle, h, hj⟩ => ⟨⟨hle, h⟩, ?_⟩, fun ⟨⟨hle, h⟩, hj⟩ => ⟨hle, h, ?_⟩⟩
  · rwa [Nat.sub_add_cancel hle] at hj
  · rwa [Nat.sub_add_cancel hle]

theorem EndsAt.border_iff (h : EndsAt xs ys j i) (hle : k ≤ j) :
    EndsAt xs xs k j ↔ EndsAt xs ys k i := by
  -- the last `k` elements of the prefix are the last `k` before `i`
  have htail : Agree xs ys (j - k) (i - k) k := by
    have hpart := h.2.part (j - k) (m := k) (by omega)
    rwa [Nat.zero_add, show i - j + (j - k) = i - k by have := h.1; omega] at hpart
  exact ⟨fun hk => ⟨Nat.le_trans hle h.1, hk.2.trans htail⟩, fun hk => ⟨hle, hk.2.trans htail.symm⟩⟩

/-- The longest of the shorter prefixes that end where the first `j` elements end. -/
structure LongestBorder (xs : List α) (j k : Nat) : Prop where
  lt : k < j
  ends : EndsAt xs xs k j
  upper : ∀ k' < j, EndsAt xs xs k' j → k' ≤ k

/-- The first `j` elements end at `i`; no prefix up to `b` longer by more than one
    ends at `i + 1`. -/
structure Candidate (xs ys : List α) (b j i : Nat) : Prop where
  ends : EndsAt xs ys j i
  upper : ∀ k ≤ b, EndsAt xs ys k (i + 1) → k ≤ j + 1

namespace Candidate

theorem advance (h : Candidate xs ys b j i) (heq : xs[j]? = ys[i]?) (hle : c ≤ b + 1) :
    Candidate xs ys c (j + 1) (i + 1) := by
  refine ⟨endsAt_succ.mpr ⟨h.ends, heq⟩, fun k hk hends => ?_⟩
  cases k with
  | zero => omega
  | succ k =>
    have := h.upper k (by omega) (endsAt_succ.mp hends).1
    omega

theorem fallback (h : Candidate xs ys b j i) (hborder : LongestBorder xs j f)
    (hnot : ¬ (j + 1 ≤ b ∧ EndsAt xs ys (j + 1) (i + 1))) : Candidate xs ys b f i := by
  refine ⟨(h.ends.border_iff (Nat.le_of_lt hborder.lt)).mp hborder.ends, fun k hk hends => ?_⟩
  have hle := h.upper k hk hends
  cases k with
  | zero => omega
  | succ k =>
    have hlt : k < j := by
      by_contra hge
      obtain rfl : k = j := by omega
      exact hnot ⟨hk, hends⟩
    have := hborder.upper k hlt
      ((h.ends.border_iff (Nat.le_of_lt hlt)).mpr (endsAt_succ.mp hends).1)
    omega

theorem skip (h : Candidate xs ys b 0 i) (hne : xs[0]? ≠ ys[i]?) (hle : c ≤ b + 1) :
    Candidate xs ys c 0 (i + 1) := by
  refine ⟨endsAt_zero xs ys _, fun k hk hends => ?_⟩
  cases k with
  | zero => omega
  | succ k =>
    have hends' := (endsAt_succ.mp hends).1
    have hone := h.upper k (by omega) hends'
    cases k with
    | zero => omega
    | succ k =>
      obtain rfl : k = 0 := by omega
      exact absurd (endsAt_succ.mp hends').2 hne

theorem not_ends (h : Candidate xs ys b j i) (hle : k ≤ b) (hlt : j + 1 < k) :
    ¬ EndsAt xs ys k (i + 1) := by
  intro hends
  have := h.upper k hle hends
  omega

theorem longestBorder (h : Candidate xs xs i j i) (heq : xs[j]? = xs[i]?) (hlt : j < i) :
    LongestBorder xs (i + 1) (j + 1) :=
  ⟨by omega, endsAt_succ.mpr ⟨h.ends, heq⟩, fun k hk => h.upper k (by omega)⟩

theorem longestBorder_zero (h : Candidate xs xs i 0 i) (hne : xs[0]? ≠ xs[i]?) :
    LongestBorder xs (i + 1) 0 := by
  refine ⟨by omega, endsAt_zero xs xs _, fun k hk hends => ?_⟩
  have hone := h.upper k (by omega) hends
  cases k with
  | zero => exact Nat.le_refl 0
  | succ k =>
    obtain rfl : k = 0 := by omega
    exact absurd (endsAt_succ.mp hends).2 hne

end Candidate

/-! ## How far a list agrees with itself -/

/-- The list agrees with itself on `z` elements from `i` on, and on no more. -/
structure MatchLength (xs : List α) (i z : Nat) : Prop where
  fits : i + z ≤ xs.length
  agree : Agree xs xs 0 i z
  stops : i + z < xs.length → xs[z]? ≠ xs[i + z]?

theorem MatchLength.le_iff (h : MatchLength xs i m) :
    n ≤ m ↔ i + n ≤ xs.length ∧ Agree xs xs 0 i n := by
  refine ⟨fun hle => ⟨by have := h.fits; omega, h.agree.mono hle⟩, fun ⟨hfits, hagree⟩ => ?_⟩
  by_contra hlt
  have hstop := hagree m (by omega)
  rw [Nat.zero_add] at hstop
  exact h.stops (by omega) hstop

end InterviewPrep.Lib
