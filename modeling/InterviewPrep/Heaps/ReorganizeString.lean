/-
  InterviewPrep.Heaps.ReorganizeString

  `reorganize_string` (13_heaps/questions.py): the most frequent character that is not the last
  one goes next; the last one is held out of the heap for a round.

  What is left of the string keeps every count at most half of it, but for one character more in
  the heap (`Holding`).  So the heap is empty only when nothing is left.
-/
import InterviewPrep.Lib.Dict
import InterviewPrep.Lib.Heaps
import InterviewPrep.Lib.Loops
import Mathlib.Data.Char
import Mathlib.Data.List.Chain
import Mathlib.Data.Prod.Lex

namespace InterviewPrep.Heaps

open Lib Lib.Dict List

/-- `Counter(s)`. -/
def counter (s : List Char) : Dict Char Int :=
  s.foldl (fun d c => d.set c ((d.get? c).getD 0 + 1)) empty

structure Greedy where
  heap : List (Int ×ₗ Char)
  result : List Char
  prevChar : Option Char
  prevCount : Int

/-- The previous character is pushed back if it has copies left. -/
def pushBack (heap : List (Int ×ₗ Char)) (prevChar : Option Char) (prevCount : Int) :
    List (Int ×ₗ Char) :=
  match prevChar with
  | some char => if prevCount < 0 then heappush heap (toLex (prevCount, char)) else heap
  | none => heap

/-- The body of `while heap`. -/
def placeNext (st : Greedy) : Except Stop (Option Greedy) :=
  match st.heap with
  | [] => .ok none
  | x :: heap => .ok (some ⟨pushBack heap st.prevChar st.prevCount, st.result ++ [(ofLex x).2],
      some (ofLex x).2, (ofLex x).1 + 1⟩)

/-- None is the `ValueError` of `max` on an empty string. -/
def reorganizeString (fuel : Nat) (s : List Char) : Option (Except Stop (List Char)) :=
  (counter s).values.max?.map fun maxFreq =>
    if maxFreq > ((s.length : Int) + 1) / 2 then .ok []
    else do
      let heap := heapify ((counter s).items.map fun x => toLex (-x.2, x.1))
      return (← whileLoop placeNext fuel ⟨heap, [], none, 0⟩).result

variable {s rest : List Char} {st : Greedy} {c : Char} {x : Int ×ₗ Char}

theorem get?_counter (s : List Char) (c : Char) :
    (counter s).get? c = if c ∈ s then some (s.count c : Int) else none := by
  induction s using reverseRecOn with
  | nil => rfl
  | append_singleton s d ih =>
    rw [counter, foldl_append, foldl_cons, foldl_nil, ← counter, get?_set]
    by_cases h : c = d
    · subst h
      rw [if_pos rfl, if_pos (by simp), ih, count_append, count_singleton_self]
      split
      · rfl
      next hc => rw [count_eq_zero_of_not_mem hc]; rfl
    · simp [h, Ne.symm h, ih]

/-! ## Counts -/

theorem count_add_count_le (l : List Char) {c d : Char} (h : c ≠ d) :
    l.count c + l.count d ≤ l.length := by
  induction l with
  | nil => exact Nat.le_refl 0
  | cons b l ih =>
    rw [count_cons, count_cons, length_cons]
    by_cases hc : b = c
    · have hd : b ≠ d := fun hd => h (hc.symm.trans hd)
      simp [hc, h]
      omega
    · simp only [beq_iff_eq, hc, if_false]
      split <;> omega

theorem count_le_of_isChain {t : List Char} (h : t.IsChain (· ≠ ·)) (c : Char) :
    2 * t.count c ≤ t.length + 1 := by
  suffices hle : 2 * t.count c ≤ t.length + if t.head? = some c then 1 else 0 by
    split at hle <;> omega
  induction t with
  | nil => exact Nat.zero_le _
  | cons b t ih =>
    have hle := ih h.tail
    rw [count_cons, length_cons, head?_cons]
    have hne : b = c → t.head? ≠ some c := by
      rintro rfl hhead
      cases t with
      | nil => cases hhead
      | cons d t =>
        cases hhead
        exact (isChain_cons_cons.mp h).1 rfl
    by_cases hb : b = c
    · rw [if_neg (hne hb)] at hle
      simp [hb]
      omega
    · simp only [beq_iff_eq, hb, if_false, Option.some.injEq]
      split at hle <;> omega

/-! ## The loop -/

/-- `rest` is what has not been placed: the characters of the heap and the one held out. -/
structure Holding (s : List Char) (st : Greedy) (rest : List Char) : Prop where
  perm : (st.result ++ rest).Perm s
  apart : st.result.IsChain (· ≠ ·)
  last : st.result.getLast? = st.prevChar
  heap : IsHeap st.heap
  nodup : (st.heap.map fun x => (ofLex x).2).Nodup
  counts : ∀ x ∈ st.heap, (ofLex x).1 = -(rest.count (ofLex x).2 : Int) ∧ (ofLex x).2 ∈ rest ∧
    st.prevChar ≠ some (ofLex x).2
  covers : ∀ c ∈ rest, st.prevChar = some c ∨ c ∈ st.heap.map fun x => (ofLex x).2
  held : ∀ c, st.prevChar = some c →
    st.prevCount = -(rest.count c : Int) ∧ 2 * rest.count c ≤ rest.length
  half : ∀ x ∈ st.heap, 2 * rest.count (ofLex x).2 ≤ rest.length + 1

theorem Holding.length (h : Holding s st rest) : st.result.length + rest.length = s.length := by
  rw [← length_append, h.perm.length_eq]

theorem Holding.done (h : Holding s st rest) (hheap : st.heap = []) : st.result.Perm s := by
  suffices hrest : rest = [] by
    rw [← append_nil st.result, ← hrest]
    exact h.perm
  have hall : ∀ c ∈ rest, st.prevChar = some c := fun c hc =>
    (h.covers c hc).resolve_right (by simp [hheap])
  cases rest with
  | nil => rfl
  | cons c rest =>
    have hprev := hall c mem_cons_self
    have hcount : (c :: rest).count c = (c :: rest).length :=
      count_eq_length.mpr fun d hd => Option.some.inj (hprev.symm.trans (hall d hd))
    have hheld := (h.held c hprev).2
    rw [hcount, length_cons] at hheld
    omega

theorem pushBack_spec {heap : List (Int ×ₗ Char)} (prevChar : Option Char) (prevCount : Int)
    (hheap : IsHeap heap) (hnodup : (heap.map fun x => (ofLex x).2).Nodup)
    (hprev : ∀ x ∈ heap, prevChar ≠ some (ofLex x).2) :
    IsHeap (pushBack heap prevChar prevCount) ∧
      ((pushBack heap prevChar prevCount).map fun x => (ofLex x).2).Nodup ∧
      ∀ x, x ∈ pushBack heap prevChar prevCount ↔ x ∈ heap ∨
        (ofLex x).1 = prevCount ∧ prevCount < 0 ∧ prevChar = some (ofLex x).2 := by
  cases prevChar with
  | none => exact ⟨hheap, hnodup, fun x => by simp [pushBack]⟩
  | some p =>
  rw [pushBack]
  split
  next hneg =>
    refine ⟨isHeap_heappush hheap _, ?_, fun x => ?_⟩
    · rw [((heappush_perm heap _).map _).nodup_iff, map_cons, nodup_cons]
      refine ⟨fun hmem => ?_, hnodup⟩
      obtain ⟨x, hx, heq⟩ := mem_map.mp hmem
      exact hprev x hx (congrArg some heq.symm)
    rw [mem_heappush, or_comm]
    refine or_congr_right ⟨?_, ?_⟩
    · rintro rfl
      exact ⟨rfl, hneg, rfl⟩
    · rintro ⟨rfl, -, hp⟩
      cases hp
      rfl
  next hneg => exact ⟨hheap, hnodup, fun x => by simp [hneg]⟩

theorem placeNext_spec (h : Holding s st rest) : placeNext st = .ok none ∧ st.result.Perm s ∨
    ∃ st' rest', placeNext st = .ok (some st') ∧ Holding s st' rest' ∧
      s.length - st'.result.length < s.length - st.result.length := by
  rw [placeNext]
  split
  next hheap => exact .inl ⟨rfl, h.done hheap⟩
  next x heap hheap =>
  right
  have hsorted := h.heap
  have hnodup := h.nodup
  rw [hheap] at hsorted hnodup
  rw [map_cons, nodup_cons] at hnodup
  obtain ⟨hmin, hsorted⟩ := pairwise_cons.mp hsorted
  have hx : x ∈ st.heap := by rw [hheap]; exact mem_cons_self
  have htail : ∀ y ∈ heap, y ∈ st.heap ∧ (ofLex y).2 ≠ (ofLex x).2 := fun y hy =>
    ⟨by rw [hheap]; exact mem_cons_of_mem x hy, fun heq => hnodup.1 (mem_map.mpr ⟨y, hy, heq⟩)⟩
  obtain ⟨hcount, hmem, hprev⟩ := h.counts x hx
  have hlen := length_erase_of_mem hmem
  have hlength := h.length
  have hother : ∀ d, d ≠ (ofLex x).2 → (rest.erase (ofLex x).2).count d = rest.count d :=
    fun d hd => count_erase_of_ne hd
  have hself := count_erase_self (a := (ofLex x).2) (l := rest)
  have hpos := count_pos_iff.mpr hmem
  obtain ⟨hheap', hnodup', hmem'⟩ := pushBack_spec st.prevChar st.prevCount hsorted
    hnodup.2 fun y hy => (h.counts y (htail y hy).1).2.2
  -- a character of the new heap has at most half of what is left
  have hnew : ∀ y ∈ pushBack heap st.prevChar st.prevCount, (ofLex y).2 ≠ (ofLex x).2 ∧
      (ofLex y).1 = -(rest.count (ofLex y).2 : Int) ∧ (ofLex y).2 ∈ rest ∧
      2 * rest.count (ofLex y).2 ≤ rest.length := by
    intro y hy
    obtain hy | ⟨hy, hneg, hp⟩ := (hmem' y).mp hy
    · obtain ⟨hyst, hne⟩ := htail y hy
      obtain ⟨hycount, hyrest, -⟩ := h.counts y hyst
      refine ⟨hne, hycount, hyrest, ?_⟩
      have hle : rest.count (ofLex y).2 ≤ rest.count (ofLex x).2 := by
        have hfst : (ofLex x).1 ≤ (ofLex y).1 := Prod.Lex.monotone_fst_ofLex (hmin y hy)
        omega
      have := count_add_count_le rest hne
      omega
    · obtain ⟨hheld, hhalf⟩ := h.held _ hp
      refine ⟨fun heq => hprev (heq ▸ hp), hy.trans hheld, ?_, hhalf⟩
      exact count_pos_iff.mp (by omega)
  refine ⟨_, rest.erase (ofLex x).2, rfl, ⟨?_, ?_, by simp, hheap', hnodup', ?_, ?_, ?_, ?_⟩, ?_⟩
  · rw [append_assoc]
    exact ((perm_cons_erase hmem).symm.append_left _).trans h.perm
  · rw [isChain_append]
    refine ⟨h.apart, .singleton _, fun a ha b hb => ?_⟩
    cases hb
    rintro rfl
    exact hprev (h.last.symm.trans ha)
  · intro y hy
    obtain ⟨hne, hycount, hyrest, -⟩ := hnew y hy
    exact ⟨by rw [hother _ hne]; exact hycount, (mem_erase_of_ne hne).mpr hyrest,
      fun heq => hne (Option.some.inj heq).symm⟩
  · intro c hc
    by_cases hcx : c = (ofLex x).2
    · exact .inl (congrArg some hcx.symm)
    right
    have hcrest := mem_of_mem_erase hc
    obtain hp | hheapc := h.covers c hcrest
    · obtain ⟨hheld, -⟩ := h.held c hp
      have hcpos := count_pos_iff.mpr hcrest
      exact mem_map.mpr ⟨toLex (st.prevCount, c), (hmem' _).mpr (.inr ⟨rfl, by omega, hp⟩), rfl⟩
    · rw [hheap, map_cons, mem_cons] at hheapc
      obtain ⟨y, hy, heq⟩ := mem_map.mp (hheapc.resolve_left hcx)
      exact mem_map.mpr ⟨y, (hmem' y).mpr (.inl hy), heq⟩
  · rintro c ⟨⟩
    have := h.half x hx
    show (ofLex x).1 + 1 = _ ∧ _
    omega
  · intro y hy
    obtain ⟨hne, -, -, hhalf⟩ := hnew y hy
    rw [hother _ hne]
    omega
  · have hrest := length_pos_of_mem hmem
    rw [length_append, length_singleton]
    omega

theorem holding_start (hs : ∀ c, 2 * s.count c ≤ s.length + 1) :
    Holding s ⟨heapify ((counter s).items.map fun x => toLex (-x.2, x.1)), [], none, 0⟩ s := by
  have hperm := heapify_perm ((counter s).items.map fun x => (toLex (-x.2, x.1) : Int ×ₗ Char))
  have hitem : ∀ x ∈ heapify ((counter s).items.map fun x => (toLex (-x.2, x.1) : Int ×ₗ Char)),
      (ofLex x).1 = -(s.count (ofLex x).2 : Int) ∧ (ofLex x).2 ∈ s := by
    intro x hx
    obtain ⟨y, hy, rfl⟩ := mem_map.mp (hperm.mem_iff.mp hx)
    rw [mem_items_iff, get?_counter] at hy
    split at hy
    next hmem => exact ⟨congrArg Neg.neg (Option.some.inj hy).symm, hmem⟩
    next => cases hy
  refine ⟨.refl s, .nil, rfl, isHeap_heapify _, ?_, fun x hx => ?_, fun c hc => ?_, nofun,
    fun x _ => hs _⟩
  · rw [(hperm.map _).nodup_iff, map_map]
    exact (counter s).keys_nodup
  · exact ⟨(hitem x hx).1, (hitem x hx).2, nofun⟩
  · right
    rw [(hperm.map _).mem_iff, map_map]
    exact mem_map.mpr ⟨(c, s.count c), mem_items_iff.mpr (by rw [get?_counter, if_pos hc]), rfl⟩

/-! ## The result -/

theorem mem_values_counter {k : Int} :
    k ∈ (counter s).values ↔ ∃ c ∈ s, k = s.count c := by
  rw [values, mem_map]
  constructor
  · rintro ⟨x, hx, rfl⟩
    rw [mem_items_iff, get?_counter] at hx
    split at hx
    next hmem => exact ⟨x.1, hmem, (Option.some.inj hx).symm⟩
    next => cases hx
  · rintro ⟨c, hc, rfl⟩
    exact ⟨(c, s.count c), mem_items_iff.mpr (by rw [get?_counter, if_pos hc]), rfl⟩

/-- The result is a rearrangement without equal neighbours, or empty where there is none. -/
theorem reorganizeString_spec (hs : s ≠ []) {fuel : Nat} (hfuel : s.length < fuel) :
    ∃ t, reorganizeString fuel s = some (.ok t) ∧ (t = [] ∨ t.Perm s ∧ t.IsChain (· ≠ ·)) ∧
      (t = [] ↔ ∀ u : List Char, u.Perm s → ¬ u.IsChain (· ≠ ·)) := by
  obtain ⟨c, hc⟩ := exists_mem_of_ne_nil s hs
  obtain ⟨maxFreq, hmax⟩ := Option.isSome_iff_exists.mp
    (isSome_max?_of_mem (mem_values_counter.mpr ⟨c, hc, rfl⟩))
  obtain ⟨hmem, hle⟩ := max?_eq_some_iff.mp hmax
  rw [reorganizeString, hmax, Option.map_some]
  split
  next hgt =>
    refine ⟨[], rfl, .inl rfl, fun _ u hu happart => ?_, fun _ => rfl⟩
    obtain ⟨d, -, rfl⟩ := mem_values_counter.mp hmem
    have := count_le_of_isChain happart d
    rw [hu.count_eq, hu.length_eq] at this
    omega
  next hgt =>
  have hhalf : ∀ d, 2 * s.count d ≤ s.length + 1 := by
    intro d
    by_cases hd : d ∈ s
    · have := hle _ (mem_values_counter.mpr ⟨d, hd, rfl⟩)
      omega
    · rw [count_eq_zero_of_not_mem hd]
      omega
  obtain ⟨t, ht, ⟨rest, hrest⟩, hdone⟩ := whileLoop_spec (fun st => ∃ rest, Holding s st rest)
    (fun st => s.length - st.result.length)
    (fun st ⟨rest, h⟩ => (placeNext_spec h).imp And.left fun ⟨st', rest', hnext, h', hlt⟩ =>
      ⟨st', hnext, ⟨rest', h'⟩, hlt⟩) ⟨s, holding_start hhalf⟩ (by simpa using hfuel)
  have hperm : t.result.Perm s := by
    obtain ⟨-, hperm⟩ | ⟨st', -, hnext, -⟩ := placeNext_spec hrest
    · exact hperm
    · exact absurd (hdone.symm.trans hnext) (by simp)
  refine ⟨t.result, by simp only [ht]; rfl, .inr ⟨hperm, hrest.apart⟩, fun hnil => ?_,
    fun hnone => ?_⟩
  · rw [hnil] at hperm
    exact absurd hperm.nil_eq.symm hs
  · exact absurd hrest.apart (hnone _ hperm)

theorem reorganizeString_spec_aab : ∃ t, reorganizeString 4 ['a', 'a', 'b'] = some (.ok t) ∧
    (t = [] ∨ t.Perm ['a', 'a', 'b'] ∧ t.IsChain (· ≠ ·)) :=
  (reorganizeString_spec (by decide) (by decide)).imp fun _ h => ⟨h.1, h.2.1⟩

end InterviewPrep.Heaps
