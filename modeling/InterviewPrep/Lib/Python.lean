/-
  What several of the programs use of Python itself: `ValueError`, and `int(x)` of a
  number that is not whole.

  Binary search in a sorted list, as Python's `bisect` does it.  `above` is the comparison
  with the value looked for, `x < key(a)`; on a list that is sorted by the key the search
  ends where the elements above `x` begin (`bisectRight_eq`).
-/
import Mathlib.Data.List.TakeWhile
import Mathlib.Data.Rat.Floor

namespace InterviewPrep.Lib

open List

/-- `ValueError` with its message. -/
structure ValueError where
  message : String

/-- `int(x)` truncates towards zero. -/
def truncate (x : ℚ) : Int := if 0 ≤ x then ⌊x⌋ else ⌈x⌉

theorem le_of_le_truncate {n : Int} {x : ℚ} (hn : 0 < n) (h : n ≤ truncate x) : (n : ℚ) ≤ x := by
  rw [truncate] at h
  split at h
  · exact Int.le_floor.mp h
  case isFalse hx =>
    have hceil : ⌈x⌉ ≤ 0 := Int.ceil_le.mpr (by simpa using (not_le.mp hx).le)
    omega

variable {α : Type*} (above : α → Bool) (xs : List α)

/-- The loop of `bisect_right`: halve `[lo, hi)` until it is empty. -/
def bisectLoop : Nat → Nat → Nat → Nat
  | 0, lo, _ => lo
  | fuel + 1, lo, hi =>
    if lo < hi then
      if xs[(lo + hi) / 2]?.any above then bisectLoop fuel lo ((lo + hi) / 2)
      else bisectLoop fuel ((lo + hi) / 2 + 1) hi
    else lo

/-- `bisect.bisect_right` -/
def bisectRight : Nat := bisectLoop above xs xs.length 0 xs.length

/-- `bisect.bisect_left`; `below` is the comparison `a < x`. -/
def bisectLeft (below : α → Bool) : Nat := bisectRight (fun a => !below a) xs

/-- `bisect.insort`, which is `insort_right` -/
def insort (x : α) : List α :=
  xs.take (bisectRight above xs) ++ x :: xs.drop (bisectRight above xs)

variable {above xs}

theorem bisectLoop_eq {n : Nat} (hbelow : ∀ i < n, xs[i]?.any above = false)
    (habove : ∀ i, n ≤ i → i < xs.length → xs[i]?.any above = true) (fuel lo hi : Nat)
    (hlo : lo ≤ n) (hhi : n ≤ hi) (hlen : hi ≤ xs.length) (hfuel : hi - lo ≤ fuel) :
    bisectLoop above xs fuel lo hi = n := by
  induction fuel generalizing lo hi with
  | zero =>
    rw [bisectLoop]
    omega
  | succ _ ih =>
    rw [bisectLoop]
    by_cases hlt : lo < hi
    · rw [if_pos hlt]
      by_cases hmid : (lo + hi) / 2 < n
      · simp only [hbelow _ hmid, Bool.false_eq_true, if_false]
        exact ih _ _ (by omega) hhi hlen (by omega)
      · have hlen' : (lo + hi) / 2 < xs.length := by omega
        simp only [habove _ (Nat.not_lt.mp hmid) hlen', if_true]
        exact ih _ _ hlo (by omega) (by omega) (by omega)
    · rw [if_neg hlt]
      omega

section

variable (hsorted : xs.Pairwise fun x y => above x → above y)

include hsorted

theorem above_of_mem_dropWhile : ∀ x ∈ xs.dropWhile fun x => !above x, above x = true := by
  have hsub := hsorted.sublist (dropWhile_sublist fun x => !above x)
  cases hdrop : xs.dropWhile fun x => !above x with
  | nil => exact nofun
  | cons y ys =>
    have hy : above y = true := by
      have hhead := head_dropWhile_not (fun x => !above x) (l := xs)
        (by rw [hdrop]; exact cons_ne_nil y ys)
      simpa [hdrop] using hhead
    rw [hdrop] at hsub
    intro x hx
    rcases mem_cons.mp hx with rfl | hx
    · exact hy
    · exact (pairwise_cons.mp hsub).1 x hx hy

theorem bisectRight_eq : bisectRight above xs = (xs.takeWhile fun x => !above x).length := by
  have hsplit := takeWhile_append_dropWhile (p := fun x => !above x) (l := xs)
  apply bisectLoop_eq _ _ _ _ _ (Nat.zero_le _) _ (Nat.le_refl _) (by omega)
  · intro i hi
    rw [← hsplit, getElem?_append_left hi, getElem?_eq_getElem hi]
    simpa using mem_takeWhile_imp (getElem_mem hi)
  · intro i hi hlen
    have hlen' : i - (xs.takeWhile fun x => !above x).length <
        (xs.dropWhile fun x => !above x).length := by
      have := congrArg List.length hsplit
      rw [length_append] at this
      omega
    rw [← hsplit, getElem?_append_right hi, getElem?_eq_getElem hlen']
    exact above_of_mem_dropWhile hsorted _ (getElem_mem hlen')
  · exact (takeWhile_sublist _).length_le

/-- The list in front of what is above and behind it, where the search ends and an
    insertion goes. -/
theorem bisect_split : ∃ front back, xs = front ++ back ∧ (∀ x ∈ front, above x = false) ∧
      (∀ x ∈ back, above x = true) ∧ xs[bisectRight above xs]? = back.head? ∧
      ∀ x, insort above xs x = front ++ x :: back := by
  have hget : ∀ ys zs : List α, (ys ++ zs)[ys.length]? = zs.head? := by
    intro ys zs
    rw [getElem?_append_right (Nat.le_refl _), Nat.sub_self, head?_eq_getElem?]
  have hinsert : ∀ (ys zs : List α) (x : α),
      (ys ++ zs).take ys.length ++ x :: (ys ++ zs).drop ys.length = ys ++ x :: zs := by
    intro ys zs x
    rw [take_left, drop_left]
  refine ⟨xs.takeWhile fun x => !above x, xs.dropWhile fun x => !above x,
    takeWhile_append_dropWhile.symm, ?_, above_of_mem_dropWhile hsorted, ?_, ?_⟩
  · intro x hx
    simpa using mem_takeWhile_imp hx
  · have hsplit := hget (xs.takeWhile fun x => !above x) (xs.dropWhile fun x => !above x)
    rwa [takeWhile_append_dropWhile, ← bisectRight_eq hsorted] at hsplit
  · intro x
    have hsplit := hinsert (xs.takeWhile fun x => !above x) (xs.dropWhile fun x => !above x) x
    rwa [takeWhile_append_dropWhile, ← bisectRight_eq hsorted] at hsplit

theorem bisect_parts : (xs.filter fun x => !above x) ++ xs.filter above = xs ∧
      bisectRight above xs = (xs.filter fun x => !above x).length := by
  have hsplit := takeWhile_append_dropWhile (p := fun x => !above x) (l := xs)
  have hfront : ∀ x ∈ xs.takeWhile fun x => !above x, above x = false :=
    fun x hx => by simpa using mem_takeWhile_imp hx
  have hback := above_of_mem_dropWhile hsorted
  have hpos : xs.filter above = xs.dropWhile fun x => !above x := by
    rw [← congrArg (List.filter above) hsplit, filter_append,
      filter_eq_nil_iff.mpr fun x hx => by simp [hfront x hx],
      filter_eq_self.mpr hback, nil_append]
  have hneg : xs.filter (fun x => !above x) = xs.takeWhile fun x => !above x := by
    rw [← congrArg (List.filter fun x => !above x) hsplit, filter_append,
      filter_eq_self.mpr fun x hx => by simp [hfront x hx],
      filter_eq_nil_iff.mpr fun x hx => by simp [hback x hx], append_nil]
  rw [hpos, hneg]
  exact ⟨hsplit, bisectRight_eq hsorted⟩

end

theorem bisectLeft_parts {below : α → Bool} (hsorted : xs.Pairwise fun x y => below y → below x) :
    xs.filter below ++ (xs.filter fun x => !below x) = xs ∧
      bisectLeft xs below = (xs.filter below).length := by
  have hnot : xs.Pairwise fun x y => (!below x) = true → (!below y) = true := by
    apply hsorted.imp
    intro x y hxy
    cases hy : below y with
    | false => simp
    | true => simp [hxy hy]
  have hparts := bisect_parts hnot
  simp only [Bool.not_not] at hparts
  exact hparts

theorem bisect_slice {below below' : α → Bool} (hsorted : xs.Pairwise fun x y => below y → below x)
    (hsorted' : xs.Pairwise fun x y => below' y → below' x) (himp : ∀ x, below x → below' x) :
    (xs.take (bisectLeft xs below')).drop (bisectLeft xs below) =
      xs.filter fun x => !below x && below' x := by
  have htake : xs.take (bisectLeft xs below') = xs.filter below' := by
    obtain ⟨hparts, hlen⟩ := bisectLeft_parts hsorted'
    rw [hlen, ← congrArg (List.take (xs.filter below').length) hparts, take_left]
  have hfilter : (xs.filter below').filter below = xs.filter below := by
    rw [filter_filter]
    apply filter_congr
    intro x _
    cases hx : below x with
    | false => simp
    | true => simp [himp x hx]
  -- the first search ends at the same place in the part before the second bound
  obtain ⟨hparts, _⟩ := bisectLeft_parts (hsorted.filter below')
  rw [hfilter] at hparts
  rw [htake, (bisectLeft_parts hsorted).2,
    ← congrArg (List.drop (xs.filter below).length) hparts, drop_left, filter_filter]

/-! ## Lists without duplicates -/

section

variable {ι : Type*} [LinearOrder ι] {ys : List ι} {y : ι}

theorem insort_sorted (hsorted : ys.Pairwise (· < ·)) (hy : y ∉ ys) :
    (insort (fun x => y < x) ys y).Pairwise (· < ·) ∧
      ∀ x, x ∈ insort (fun x => y < x) ys y ↔ x = y ∨ x ∈ ys := by
  have habove : ys.Pairwise fun x x' => decide (y < x) = true → decide (y < x') = true := by
    apply hsorted.imp
    intro x x' hlt hx
    rw [decide_eq_true_iff] at hx ⊢
    exact hx.trans hlt
  obtain ⟨front, back, hsplit, hfront, hback, -, hinsort⟩ := bisect_split habove
  rw [hinsort]
  subst hsplit
  have hbefore : ∀ x ∈ front, x < y := by
    intro x hx
    have hle := not_lt.mp (of_decide_eq_false (hfront x hx))
    exact lt_of_le_of_ne hle fun heq => hy (heq ▸ mem_append_left _ hx)
  obtain ⟨hsfront, hsback, hacross⟩ := pairwise_append.mp hsorted
  constructor
  · rw [pairwise_append, pairwise_cons]
    refine ⟨hsfront, ⟨fun x hx => of_decide_eq_true (hback x hx), hsback⟩, fun x hx x' hx' => ?_⟩
    rcases mem_cons.mp hx' with rfl | hx'
    · exact hbefore x hx
    · exact hacross x hx x' hx'
  · intro x
    rw [mem_append, mem_cons, mem_append]
    exact or_left_comm

theorem bisectLeft_remove (hsorted : ys.Pairwise (· < ·)) :
    let i := bisectLeft ys fun x => x < y
    let removed := if ys[i]? = some y then ys.eraseIdx i else ys
    removed.Pairwise (· < ·) ∧ ∀ x, x ∈ removed ↔ x ∈ ys ∧ x ≠ y := by
  intro i removed
  have hbelow : ys.Pairwise fun x x' => decide (x' < y) = true → decide (x < y) = true := by
    apply hsorted.imp
    intro x x' hlt hx
    rw [decide_eq_true_iff] at hx ⊢
    exact hlt.trans hx
  obtain ⟨hparts, hi⟩ := bisectLeft_parts hbelow
  obtain ⟨front, hfront⟩ : ∃ front, front = ys.filter fun x => x < y := ⟨_, rfl⟩
  obtain ⟨back, hback⟩ : ∃ back, back = ys.filter fun x => !decide (x < y) := ⟨_, rfl⟩
  rw [← hfront] at hi hparts
  rw [← hback] at hparts
  have hget : ys[i]? = back.head? := by
    rw [← hparts, show i = front.length from hi, getElem?_append_right (Nat.le_refl _),
      Nat.sub_self, head?_eq_getElem?]
  have hle : ∀ x ∈ back, y ≤ x := by
    intro x hx
    rw [hback, mem_filter] at hx
    simpa using hx.2
  have hlt : ∀ x ∈ front, x < y := by
    intro x hx
    rw [hfront, mem_filter] at hx
    exact of_decide_eq_true hx.2
  by_cases hfound : ys[i]? = some y
  · have hremoved : removed = ys.eraseIdx i := if_pos hfound
    rw [hget] at hfound
    obtain ⟨rest, hrest⟩ := head?_eq_some_iff.mp hfound
    have herase : removed = front ++ rest := by
      rw [hremoved, ← hparts, hrest, show i = front.length from hi,
        eraseIdx_append_of_length_le (Nat.le_refl _), Nat.sub_self, eraseIdx_cons_zero]
    have hys : ys = front ++ y :: rest := by rw [← hparts, hrest]
    rw [herase, hys]
    rw [hys] at hsorted
    have hnodup : y ∉ front ++ rest := by
      rw [mem_append]
      rintro (hmem | hmem)
      · exact lt_irrefl y (hlt y hmem)
      · exact lt_irrefl y ((pairwise_cons.mp (pairwise_append.mp hsorted).2.1).1 y hmem)
    refine ⟨hsorted.sublist (List.Sublist.append_left (sublist_cons_self y rest) front),
      fun x => ?_⟩
    rw [mem_append, mem_append, mem_cons, or_left_comm, or_and_right]
    constructor
    · intro hx
      refine .inr ⟨hx, ?_⟩
      rintro rfl
      exact hnodup (mem_append.mpr hx)
    · rintro (⟨heq, hne⟩ | ⟨hx, -⟩)
      · exact absurd heq hne
      · exact hx
  have hremoved : removed = ys := if_neg hfound
  rw [hremoved]
  refine ⟨hsorted, fun x => ⟨fun hx => ⟨hx, ?_⟩, fun hx => hx.1⟩⟩
  rintro rfl
  rw [← hparts, mem_append] at hx
  rcases hx with hx | hx
  · exact lt_irrefl x (hlt x hx)
  -- the first element behind the search is not above one that is there
  rw [hget] at hfound
  cases hb : back with
  | nil =>
    rw [hb] at hx
    cases hx
  | cons b =>
    rw [hb] at hfound hx
    rcases mem_cons.mp hx with rfl | hmem
    · exact hfound rfl
    · have hsback : back.Pairwise (· < ·) := by
        rw [hback]
        exact hsorted.filter _
      rw [hb] at hsback
      have hbx := (pairwise_cons.mp hsback).1 x hmem
      exact lt_irrefl x ((hle b (by rw [hb]; exact mem_cons_self)).trans_lt hbx)

end

end InterviewPrep.Lib
