/-
  Python's `heapq` on a list of items of a linear order, by its documented behaviour.  The heap is
  kept as the sorted list of its items; which heap-ordered array holds them is not observable
  through these operations.

  Go's `container/heap`: a binary min-heap worked on through an interface.  The caller owns the
  container and implements `len`, `less` and `swap` (`HeapInterface`), so a swap may record the
  new positions of two elements.  `LawfulHeap` says what the order relies on: `less` compares
  keys, and `swap` exchanges two keys.

  `up` and `down` move one element whose key is out of place.  Each keeps every pair of parent and
  child in order except those at the element (`UpOrdered`, `DownOrdered`), and ends with all of
  them in order.  Whatever every swap keeps, the operations keep (`fix_preserves`,
  `removeSwaps_preserves`).

  A binary heap of references with back-pointers, so that an element can be removed from the
  middle.  What is compared, and where a reference has its position, is a parameter
  (`References`): the positions may be fields of the objects that are pointed to, or a table of
  their own.  `Valid` says that no reference is there twice, that each knows its position, and
  that no child comes before its parent.  `push`, `remove`, `pop` and `fix` keep it, and write
  nothing but positions (`Updated`).
-/
import Mathlib.Data.List.Perm.Basic
import Mathlib.Data.List.Sort
import Mathlib.Order.Nat
import Mathlib.Order.WithBot

namespace InterviewPrep.Lib

open List

variable {α : Type*} [LinearOrder α]

/-- `heapq.heappush(heap, x)`. -/
def heappush (heap : List α) (x : α) : List α := heap.orderedInsert (· ≤ ·) x

/-- `heapq.heapify(xs)`: the heap of the items of `xs`. -/
def heapify (xs : List α) : List α := xs.insertionSort (· ≤ ·)

/-- The list is a heap: every item is at most the items after it. -/
abbrev IsHeap (heap : List α) : Prop := heap.Pairwise (· ≤ ·)

theorem isHeap_heappush {heap : List α} (h : IsHeap heap) (x : α) : IsHeap (heappush heap x) :=
  h.orderedInsert x heap

theorem heappush_perm (heap : List α) (x : α) : (heappush heap x).Perm (x :: heap) :=
  perm_orderedInsert _ x heap

theorem mem_heappush {heap : List α} {x y : α} : y ∈ heappush heap x ↔ y = x ∨ y ∈ heap := by
  rw [(heappush_perm heap x).mem_iff, mem_cons]

theorem count_map_heappush {β : Type*} [DecidableEq β] (f : α → β) (heap : List α) (x : α) (b : β) :
    ((heappush heap x).map f).count b = (heap.map f).count b + if b = f x then 1 else 0 := by
  rw [((heappush_perm heap x).map f).count_eq, map_cons, count_cons]
  by_cases h : b = f x
  · rw [if_pos h, h, beq_self_eq_true, if_pos rfl]
  · rw [if_neg h, if_neg (by simpa using Ne.symm h)]

/-- `heapq.heappush` of items that are compared by a key. -/
def heappushBy {β : Type*} (key : β → α) (heap : List β) (x : β) : List β :=
  heap.orderedInsert (fun a b => key a ≤ key b) x

theorem heappushBy_perm {β : Type*} (key : β → α) (heap : List β) (x : β) :
    (heappushBy key heap x).Perm (x :: heap) :=
  perm_orderedInsert _ x heap

theorem isHeap_heapify (xs : List α) : IsHeap (heapify xs) :=
  pairwise_insertionSort _ xs

theorem heapify_perm (xs : List α) : (heapify xs).Perm xs :=
  perm_insertionSort _ xs

open Function

class HeapInterface (H : Type*) where
  len : H → Nat
  less : H → Nat → Nat → Bool
  swap : H → Nat → Nat → H
  len_swap : ∀ (h : H) i j, len (swap h i j) = len h

open HeapInterface

namespace BinaryHeap

section Operations

variable {H : Type*} [HeapInterface H]

def parent (k : Nat) : Nat := (k - 1) / 2

/-- The loop of `up`; an element moves up at most `j` times. -/
def upLoop : Nat → H → Nat → H
  | 0, h, _ => h
  | fuel + 1, h, j =>
    if parent j = j ∨ less h j (parent j) = false then h
    else upLoop fuel (swap h (parent j) j) (parent j)

def up (h : H) (j : Nat) : H := upLoop j h j

/-- The child of `i` with the smaller key, among the first `n` elements. -/
def minChild (h : H) (i n : Nat) : Nat :=
  if 2 * i + 2 < n ∧ less h (2 * i + 2) (2 * i + 1) = true then 2 * i + 2 else 2 * i + 1

/-- The loop of `down`: the heap and where the element ends up. -/
def downLoop (n : Nat) : Nat → H → Nat → H × Nat
  | 0, h, i => (h, i)
  | fuel + 1, h, i =>
    if 2 * i + 1 ≥ n ∨ less h (minChild h i n) i = false then (h, i)
    else downLoop n fuel (swap h i (minChild h i n)) (minChild h i n)

/-- `down`: whether the element moved is returned with the heap. -/
def down (h : H) (i n : Nat) : H × Bool :=
  let (h', i') := downLoop n n h i
  (h', decide (i < i'))

/-- `heap.Push`, after the interface's `Push` has appended the element. -/
def pushed (h : H) : H := up h (len h - 1)

/-- `heap.Fix`. -/
def fix (h : H) (i : Nat) : H :=
  let (h', moved) := down h i (len h)
  if moved then h' else up h' i

/-- `heap.Remove`, before the interface's `Pop` takes the last element off. -/
def removeSwaps (h : H) (i : Nat) : H :=
  let n := len h - 1
  if n = i then h
  else
    let (h', moved) := down (swap h i n) i n
    if moved then h' else up h' i

/-- `heap.Pop`, before the interface's `Pop` takes the last element off. -/
def popSwaps (h : H) : H :=
  let n := len h - 1
  (down (swap h 0 n) 0 n).1

end Operations

theorem parent_lt {k : Nat} (h : 0 < k) : parent k < k := by
  unfold parent
  omega

theorem parent_eq {c i : Nat} (hc : 0 < c) : parent c = i ↔ c = 2 * i + 1 ∨ c = 2 * i + 2 := by
  unfold parent
  omega

theorem minChild_child {H : Type*} [HeapInterface H] (h : H) {i n : Nat} (hc : 2 * i + 1 < n) :
    minChild h i n < n ∧ parent (minChild h i n) = i ∧ i < minChild h i n := by
  unfold minChild parent
  split <;> omega

end BinaryHeap

/-- What the heap algorithms rely on. -/
class LawfulHeap (H : Type*) [HeapInterface H] (κ : outParam (Type*)) [LinearOrder κ] where
  key : H → Nat → κ
  less_iff : ∀ h i j, less h i j = true ↔ key h i < key h j
  key_swap : ∀ (h : H) i j k, i < len h → j < len h →
    key (swap h i j) k = key h (Equiv.swap i j k)

namespace BinaryHeap

open LawfulHeap

variable {H κ : Type*} [HeapInterface H] [LinearOrder κ] [LawfulHeap H κ]

theorem less_eq_false {h : H} {i j : Nat} : less h i j = false ↔ key h j ≤ key h i := by
  rw [← not_lt, ← less_iff, Bool.not_eq_true]

/-- The first `n` elements are heap-ordered. -/
def Ordered (h : H) (n : Nat) : Prop :=
  ∀ k, 0 < k → k < n → key h (parent k) ≤ key h k

/-- Heap-ordered but for the element at `j`, which may be smaller than its parent. -/
structure UpOrdered (h : H) (n j : Nat) : Prop where
  others : ∀ k, 0 < k → k < n → k ≠ j → key h (parent k) ≤ key h k
  grand : 0 < j → ∀ c, 0 < c → c < n → parent c = j → key h (parent j) ≤ key h c

/-- Heap-ordered but for the element at `i`, whose key may be anything. -/
structure DownOrdered (h : H) (n i : Nat) : Prop where
  others : ∀ k, 0 < k → k < n → k ≠ i → parent k ≠ i → key h (parent k) ≤ key h k
  grand : 0 < i → ∀ c, 0 < c → c < n → parent c = i → key h (parent i) ≤ key h c

/-! ## up -/

section Up

variable {h : H} {n j : Nat}

theorem UpOrdered.finish (hu : UpOrdered h n j) (hstop : 0 < j → key h (parent j) ≤ key h j) :
    Ordered h n := by
  intro k hk hkn
  by_cases hkj : k = j
  · subst hkj
    exact hstop hk
  · exact hu.others k hk hkn hkj

theorem UpOrdered.move (hu : UpOrdered h n j) (hn : n ≤ len h) (hj0 : 0 < j) (hj : j < n)
    (hless : key h j < key h (parent j)) : UpOrdered (swap h (parent j) j) n (parent j) := by
  have hp := parent_lt hj0
  have hkey : ∀ k, key (swap h (parent j) j) k = key h (Equiv.swap (parent j) j k) :=
    fun k => key_swap h _ _ k (by omega) (by omega)
  have hpar : key (swap h (parent j) j) (parent j) = key h j := by
    rw [hkey, Equiv.swap_apply_left]
  have hself : key (swap h (parent j) j) j = key h (parent j) := by
    rw [hkey, Equiv.swap_apply_right]
  have hother : ∀ k, k ≠ parent j → k ≠ j → key (swap h (parent j) j) k = key h k :=
    fun k h1 h2 => by rw [hkey, Equiv.swap_apply_of_ne_of_ne h1 h2]
  refine ⟨fun k hk hkn hkp => ?_, fun hp0 c hc hcn hcp => ?_⟩
  · by_cases hkj : k = j
    · rw [hkj, hpar, hself]
      exact hless.le
    rw [hother k hkp hkj]
    by_cases hkp' : parent k = parent j
    · rw [hkp', hpar]
      exact hless.le.trans (hkp' ▸ hu.others k hk hkn hkj)
    · by_cases hkj' : parent k = j
      · rw [hkj', hself]
        exact hu.grand hj0 k hk hkn hkj'
      · rw [hother _ hkp' hkj']
        exact hu.others k hk hkn hkj
  have hpp := parent_lt hp0
  have habove : key h (parent (parent j)) ≤ key h (parent j) :=
    hu.others _ hp0 (by omega) (by omega)
  rw [hother _ (by omega) (by omega)]
  by_cases hcj : c = j
  · rw [hcj, hself]
    exact habove
  · have := parent_lt hc
    rw [hother c (by omega) hcj]
    exact habove.trans (hcp ▸ hu.others c hc hcn hcj)

theorem upLoop_ordered {fuel : Nat} (hfuel : j ≤ fuel) (hj : j < n) (hn : n ≤ len h)
    (hu : UpOrdered h n j) : Ordered (upLoop fuel h j) n := by
  induction fuel generalizing h j with
  | zero => exact hu.finish fun h0 => absurd h0 (by omega)
  | succ _ ih =>
    rw [upLoop]
    split
    next hstop =>
      refine hu.finish fun hj0 => ?_
      rcases hstop with hroot | hnot
      · exact absurd hroot (parent_lt hj0).ne
      · exact less_eq_false.mp hnot
    next hgo =>
      obtain ⟨hroot, hless⟩ := not_or.mp hgo
      have hj0 : 0 < j := Nat.pos_of_ne_zero fun e => hroot (by rw [e]; rfl)
      have hp := parent_lt hj0
      rw [Bool.not_eq_false, less_iff] at hless
      exact ih (by omega) (by omega) (by rwa [len_swap]) (hu.move hn hj0 hj hless)

theorem upLoop_preserves {P : H → Prop} (fuel : Nat)
    (hswap : ∀ (h : H) i j, P h → i < n → j < n → P (swap h i j)) (hj : j < n) (hP : P h) :
    P (upLoop fuel h j) := by
  induction fuel generalizing h j with
  | zero => exact hP
  | succ _ ih =>
    rw [upLoop]
    split
    next => exact hP
    next =>
      have hp : parent j < n := by
        unfold parent
        omega
      exact ih hp (hswap h _ _ hP hp hj)

end Up

/-! ## down -/

section Down

variable {h : H} {n i : Nat}

theorem minChild_le (h : H) (i n : Nat) :
    ∀ c, 0 < c → c < n → parent c = i → key h (minChild h i n) ≤ key h c := by
  intro c hc0 hcn hp
  unfold minChild
  split
  next hright =>
    rcases (parent_eq hc0).mp hp with rfl | rfl
    · exact ((less_iff ..).mp hright.2).le
    · exact le_refl _
  next hleft =>
    rcases (parent_eq hc0).mp hp with rfl | rfl
    · exact le_refl _
    · exact less_eq_false.mp (Bool.not_eq_true _ ▸ fun hless => hleft ⟨hcn, hless⟩)

theorem DownOrdered.finish (hd : DownOrdered h n i)
    (hstop : 2 * i + 1 ≥ n ∨ less h (minChild h i n) i = false) : UpOrdered h n i := by
  refine ⟨fun k hk hkn hki => ?_, hd.grand⟩
  by_cases hp : parent k = i
  · have hck := (parent_eq hk).mp hp
    rcases hstop with hleaf | hnot
    · omega
    · rw [hp]
      exact (less_eq_false.mp hnot).trans (minChild_le h i n k hk hkn hp)
  · exact hd.others k hk hkn hki hp

theorem DownOrdered.move (hd : DownOrdered h n i) (hn : n ≤ len h) (hc : 2 * i + 1 < n)
    (hless : key h (minChild h i n) < key h i) :
    DownOrdered (swap h i (minChild h i n)) n (minChild h i n) ∧
      key (swap h i (minChild h i n)) i ≤ key (swap h i (minChild h i n)) (minChild h i n) := by
  obtain ⟨hjn, hpj, hij⟩ := minChild_child h hc
  have hmin := minChild_le h i n
  set j := minChild h i n with hj
  have hkey : ∀ k, key (swap h i j) k = key h (Equiv.swap i j k) :=
    fun k => key_swap h _ _ k (by omega) (by omega)
  have hi : key (swap h i j) i = key h j := by rw [hkey, Equiv.swap_apply_left]
  have hself : key (swap h i j) j = key h i := by rw [hkey, Equiv.swap_apply_right]
  have hother : ∀ k, k ≠ i → k ≠ j → key (swap h i j) k = key h k :=
    fun k h1 h2 => by rw [hkey, Equiv.swap_apply_of_ne_of_ne h1 h2]
  refine ⟨⟨fun k hk hkn hkj hpk => ?_, fun _ c hc0 hcn hcp => ?_⟩, ?_⟩
  · by_cases hki : k = i
    · have := parent_lt (hki ▸ hk)
      rw [hki, hi, hother _ (by omega) (by omega)]
      exact hd.grand (hki ▸ hk) j (by omega) hjn hpj
    · rw [hother k hki hkj]
      by_cases hpi : parent k = i
      · rw [hpi, hi]
        exact hmin k hk hkn hpi
      · rw [hother _ hpi hpk]
        exact hd.others k hk hkn hki hpi
  · have := parent_lt hc0
    rw [hpj, hi, hother c (by omega) (by omega)]
    exact hcp ▸ hd.others c hc0 hcn (by omega) (by omega)
  · rw [hi, hself]
    exact hless.le

theorem downLoop_ordered (fuel : Nat) (hfuel : n ≤ fuel + i) (hn : n ≤ len h)
    (hd : DownOrdered h n i) (habove : 0 < i → key h (parent i) ≤ key h i) :
    Ordered (downLoop n fuel h i).1 n ∧ i ≤ (downLoop n fuel h i).2 := by
  induction fuel generalizing h i with
  | zero => exact ⟨(hd.finish (Or.inl (by omega))).finish habove, le_refl _⟩
  | succ _ ih =>
    rw [downLoop]
    split
    next hstop => exact ⟨(hd.finish hstop).finish habove, le_refl _⟩
    next hgo =>
    obtain ⟨hc, hless⟩ := not_or.mp hgo
    obtain ⟨-, hpj, hij⟩ := minChild_child h (not_le.mp hc)
    rw [Bool.not_eq_false, less_iff] at hless
    obtain ⟨hd', habove'⟩ := hd.move hn (not_le.mp hc) hless
    obtain ⟨hord, hle⟩ := ih (by omega) (by rwa [len_swap]) hd' (fun _ => hpj.symm ▸ habove')
    exact ⟨hord, by omega⟩

theorem down_spec (hi : i < n) (hn : n ≤ len h) (hd : DownOrdered h n i) :
    ((down h i n).2 = false ∧ (down h i n).1 = h ∧ UpOrdered h n i) ∨
      ((down h i n).2 = true ∧ Ordered (down h i n).1 n) := by
  obtain ⟨fuel, rfl⟩ : ∃ fuel, n = fuel + 1 := ⟨n - 1, by omega⟩
  simp only [down, downLoop]
  split
  next hstop => exact Or.inl ⟨decide_eq_false (lt_irrefl _), rfl, hd.finish hstop⟩
  next hgo =>
  obtain ⟨hc, hless⟩ := not_or.mp hgo
  obtain ⟨-, hpj, hij⟩ := minChild_child h (not_le.mp hc)
  rw [Bool.not_eq_false, less_iff] at hless
  obtain ⟨hd', habove'⟩ := hd.move hn (not_le.mp hc) hless
  obtain ⟨hord, hle⟩ := downLoop_ordered fuel (by omega) (by rwa [len_swap]) hd'
    (fun _ => hpj.symm ▸ habove')
  exact Or.inr ⟨decide_eq_true (by omega), hord⟩

theorem downLoop_preserves {P : H → Prop} (fuel i : Nat)
    (hswap : ∀ (h : H) i j, P h → i < n → j < n → P (swap h i j)) (hP : P h) :
    P (downLoop n fuel h i).1 := by
  induction fuel generalizing h i with
  | zero => exact hP
  | succ _ ih =>
    rw [downLoop]
    split
    next => exact hP
    next hgo =>
      obtain ⟨hc, -⟩ := not_or.mp hgo
      obtain ⟨hjn, -, hij⟩ := minChild_child h (not_le.mp hc)
      exact ih _ (hswap h _ _ hP (by omega) hjn)

end Down

/-! ## The operations -/

section

variable {h : H} {i n : Nat} {P : H → Prop}

theorem pushed_ordered (h0 : 0 < len h) (ho : Ordered h (len h - 1)) :
    Ordered (pushed h) (len h) := by
  refine upLoop_ordered (le_refl _) (by omega) (le_refl _) ⟨fun k hk hkn hkj => ?_, ?_⟩
  · exact ho k hk (by omega)
  · intro _ c hc hcn hp
    have := parent_lt hc
    omega

theorem settle_ordered (hi : i < n) (hn : n ≤ len h) (hd : DownOrdered h n i) :
    Ordered (if (down h i n).2 then (down h i n).1 else up (down h i n).1 i) n := by
  rcases down_spec hi hn hd with ⟨hstay, hsame, hu⟩ | ⟨hmoved, hord⟩
  · rw [hstay, hsame]
    exact upLoop_ordered (le_refl _) hi hn hu
  · rw [hmoved]
    exact hord

theorem fix_ordered (hi : i < len h) (hd : DownOrdered h (len h) i) : Ordered (fix h i) (len h) :=
  settle_ordered hi (le_refl _) hd

theorem Ordered.downOrdered {h' : H} (ho : Ordered h n) (hi : i < n)
    (hsame : ∀ k, k < n → k ≠ i → key h' k = key h k) : DownOrdered h' n i := by
  refine ⟨fun k hk hkn hki hp => ?_, fun hi0 c hc hcn hp => ?_⟩
  · have := parent_lt hk
    rw [hsame k hkn hki, hsame _ (by omega) hp]
    exact ho k hk hkn
  · have := parent_lt hi0
    have := parent_lt hc
    rw [hsame c hcn (by omega), hsame _ (by omega) (by omega)]
    exact (ho i hi0 hi).trans (hp ▸ ho c hc hcn)

theorem removeSwaps_ordered (hi : i < len h) (ho : Ordered h (len h)) :
    Ordered (removeSwaps h i) (len h - 1) := by
  simp only [removeSwaps]
  split
  next => exact fun k hk hkn => ho k hk (by omega)
  next =>
    refine settle_ordered (by omega) (by rw [len_swap]; omega) (Ordered.downOrdered (h := h)
      (fun k hk hkn => ho k hk (by omega)) (by omega) fun k hkn hki => ?_)
    rw [key_swap h i _ k hi (by omega), Equiv.swap_apply_of_ne_of_ne hki (by omega)]

theorem settle_preserves (hswap : ∀ (h : H) i j, P h → i < n → j < n → P (swap h i j)) (hi : i < n)
    (hP : P h) : P (if (down h i n).2 then (down h i n).1 else up (down h i n).1 i) := by
  have hP' : P (down h i n).1 := downLoop_preserves n i hswap hP
  split
  next => exact hP'
  next => exact upLoop_preserves i hswap hi hP'

theorem pushed_preserves (hswap : ∀ (h' : H) i j, P h' → i < len h → j < len h → P (swap h' i j))
    (h0 : 0 < len h) (hP : P h) : P (pushed h) :=
  upLoop_preserves _ hswap (by omega) hP

theorem fix_preserves (hswap : ∀ (h' : H) i j, P h' → i < len h → j < len h → P (swap h' i j))
    (hi : i < len h) (hP : P h) : P (fix h i) :=
  settle_preserves hswap hi hP

theorem removeSwaps_preserves
    (hswap : ∀ (h' : H) i j, P h' → i < len h - 1 → j < len h - 1 → P (swap h' i j))
    (hi : i < len h) (hlast : i = len h - 1 → P h)
    (hfirst : i < len h - 1 → P (swap h i (len h - 1))) : P (removeSwaps h i) := by
  simp only [removeSwaps]
  split
  next heq => exact hlast heq.symm
  next => exact settle_preserves hswap (by omega) (hfirst (by omega))

theorem popSwaps_eq (hlen : 1 < len h) : popSwaps h = removeSwaps h 0 := by
  simp only [popSwaps, removeSwaps]
  rw [if_neg (by omega)]
  split <;> rfl

end

end BinaryHeap

/-- How references are compared, and where each has its position. -/
structure References (σ ρ : Type*) where
  less : σ → ρ → ρ → Bool
  idx : σ → ρ → Int
  setIdx : σ → ρ → Int → σ

namespace References

variable {σ ρ κ : Type*} {O : References σ ρ} {P Q : ρ → Prop} {s s' s'' : σ} {r : ρ}

/-- Nothing is written but positions, those of the references of `P`. -/
inductive Written (O : References σ ρ) (P : ρ → Prop) (s : σ) : σ → Prop
  | refl : Written O P s s
  | setIdx {s' : σ} {r : ρ} (i : Int) : Written O P s s' → P r → Written O P s (O.setIdx s' r i)

theorem Written.trans (h : O.Written P s s') (h' : O.Written P s' s'') : O.Written P s s'' := by
  induction h' with
  | refl => exact h
  | setIdx i _ hr ih => exact ih.setIdx i hr

theorem Written.mono (hPQ : ∀ r, P r → Q r) (h : O.Written P s s') : O.Written Q s s' := by
  induction h with
  | refl => exact .refl
  | setIdx i _ hr ih => exact ih.setIdx i (hPQ _ hr)

variable [DecidableEq ρ]

/-- `less` compares the keys, and a position is no part of a key. -/
structure Lawful [LinearOrder κ] (O : References σ ρ) (key : σ → ρ → κ) : Prop where
  less_iff : ∀ s a b, O.less s a b = true ↔ key s a < key s b
  key_setIdx : ∀ s r i a, key (O.setIdx s r i) a = key s a
  idx_setIdx : ∀ s r i a, O.idx (O.setIdx s r i) a = if a = r then i else O.idx s a

/-- The positions are in a table of their own. -/
def plain (less : ρ → ρ → Bool) : References (ρ → Int) ρ := ⟨fun _ => less, id, Function.update⟩

theorem plain_lawful [LinearOrder κ] {less : ρ → ρ → Bool} {key : ρ → κ}
    (hless : ∀ a b, less a b = true ↔ key a < key b) : (plain less).Lawful fun _ => key :=
  ⟨fun _ => hless, fun _ _ _ _ => rfl, Function.update_apply⟩

theorem Written.idx_plain {less : ρ → ρ → Bool} {s s' : ρ → Int}
    (h : (plain less).Written P s s') (hr : ¬ P r) : s' r = s r := by
  induction h with
  | refl => rfl
  | setIdx i _ hr' ih =>
    refine (Function.update_of_ne ?_ _ _).trans ih
    rintro rfl
    exact hr hr'

end References

/-- The references in heap order, and the state that they point into. -/
structure IndexedHeap {σ ρ : Type*} (O : References σ ρ) where
  slots : List ρ
  mem : σ

namespace IndexedHeap

variable {σ ρ κ : Type*} [Inhabited ρ] {O : References σ ρ}

def at? (h : IndexedHeap O) (i : Nat) : ρ := h.slots.getD i default

/-- `Swap`: exchange two references, and tell them. -/
def swap (h : IndexedHeap O) (i j : Nat) : IndexedHeap O :=
  { slots := (h.slots.set i (h.at? j)).set j (h.at? i)
    mem := O.setIdx (O.setIdx h.mem (h.at? j) i) (h.at? i) j }

instance : HeapInterface (IndexedHeap O) where
  len h := h.slots.length
  less h i j := O.less h.mem (h.at? i) (h.at? j)
  swap := swap
  len_swap h i j := by simp [swap]

/-- `heap.Push`: the interface's `Push` appends the reference and records its position. -/
def push (h : IndexedHeap O) (r : ρ) : IndexedHeap O :=
  BinaryHeap.pushed { slots := h.slots ++ [r], mem := O.setIdx h.mem r h.slots.length }

/-- The interface's `Pop`: the last reference leaves. -/
def popLast (h : IndexedHeap O) : IndexedHeap O :=
  { slots := h.slots.dropLast, mem := O.setIdx h.mem (h.at? (h.slots.length - 1)) (-1) }

/-- `heap.Remove` -/
def remove (h : IndexedHeap O) (i : Nat) : IndexedHeap O := (BinaryHeap.removeSwaps h i).popLast

/-- `heap.Pop` -/
def pop (h : IndexedHeap O) : IndexedHeap O := (BinaryHeap.popSwaps h).popLast

/-- `heap.Fix` -/
def fix (h : IndexedHeap O) (i : Nat) : IndexedHeap O := BinaryHeap.fix h i

/-! ## Swaps -/

variable {h h' h'' : IndexedHeap O} {i j : Nat} {r : ρ}

theorem at?_of_lt (hi : i < h.slots.length) : h.at? i = h.slots[i] := by
  rw [at?, getD_eq_getElem?_getD, getElem?_eq_getElem hi, Option.getD_some]

theorem at?_mem (hi : i < h.slots.length) : h.at? i ∈ h.slots := by
  rw [at?_of_lt hi]
  exact getElem_mem hi

theorem mem_slots : r ∈ h.slots ↔ ∃ i, i < h.slots.length ∧ h.at? i = r := by
  constructor
  · intro hr
    obtain ⟨i, hi, rfl⟩ := mem_iff_getElem.mp hr
    exact ⟨i, hi, at?_of_lt hi⟩
  · rintro ⟨i, hi, rfl⟩
    exact at?_mem hi

theorem length_swap (h : IndexedHeap O) (i j : Nat) :
    (h.swap i j).slots.length = h.slots.length := by
  simp [swap]

theorem at?_swap (hi : i < h.slots.length) (hj : j < h.slots.length) (k : Nat) :
    (h.swap i j).at? k = h.at? (Equiv.swap i j k) := by
  rw [Equiv.swap_apply_def]
  simp only [at?, swap, getD_eq_getElem?_getD, getElem?_set, length_set]
  by_cases hkj : k = j
  · subst hkj
    by_cases hki : k = i
    · simp [hki, hi]
    · simp [hki, hj]
  · by_cases hki : k = i
    · simp [hki, hi, Ne.symm (hki ▸ hkj)]
    · simp [hki, hkj, Ne.symm hki, Ne.symm hkj]

/-- The same references in another order: only their positions may differ. -/
structure Rearranged (h h' : IndexedHeap O) : Prop where
  perm : h'.slots.Perm h.slots
  written : O.Written (· ∈ h.slots) h.mem h'.mem

omit [Inhabited ρ] in
theorem Rearranged.refl (h : IndexedHeap O) : h.Rearranged h := ⟨List.Perm.refl _, .refl⟩

omit [Inhabited ρ] in
theorem Rearranged.trans (h1 : h.Rearranged h') (h2 : h'.Rearranged h'') : h.Rearranged h'' :=
  ⟨h2.perm.trans h1.perm, h1.written.trans (h2.written.mono fun _ => h1.perm.mem_iff.mp)⟩

/-- Every reference knows its position. -/
structure Indexed (h : IndexedHeap O) : Prop where
  nodup : h.slots.Nodup
  idx : ∀ i, i < h.slots.length → O.idx h.mem (h.at? i) = i

theorem Indexed.inj (hx : h.Indexed) (hi : i < h.slots.length) (hj : j < h.slots.length)
    (hij : h.at? i = h.at? j) : i = j := by
  have hi' := hx.idx i hi
  rw [hij, hx.idx j hj] at hi'
  exact (Int.natCast_inj.mp hi').symm

theorem swap_rearranged (hi : i < h.slots.length) (hj : j < h.slots.length) :
    h.Rearranged (h.swap i j) := by
  refine ⟨?_, (References.Written.refl.setIdx _ (at?_mem hj)).setIdx _ (at?_mem hi)⟩
  rw [swap, at?_of_lt hi, at?_of_lt hj]
  exact set_set_perm hi hj

/-- No child comes before its parent, and every reference knows its position. -/
structure Valid (h : IndexedHeap O) : Prop where
  indexed : h.Indexed
  ordered : ∀ k, 0 < k → k < h.slots.length →
    O.less h.mem (h.at? k) (h.at? (BinaryHeap.parent k)) = false

theorem Valid.congr {σ' : Type*} {O' : References σ' ρ} {slots : List ρ} {s : σ} {s' : σ'}
    (hv : Valid (⟨slots, s⟩ : IndexedHeap O))
    (hless : ∀ a ∈ slots, ∀ b ∈ slots, O'.less s' a b = O.less s a b)
    (hidx : ∀ a ∈ slots, O'.idx s' a = O.idx s a) : Valid (⟨slots, s'⟩ : IndexedHeap O') := by
  have hat : ∀ k, k < slots.length → (⟨slots, s⟩ : IndexedHeap O).at? k ∈ slots :=
    fun k hk => at?_mem (h := ⟨slots, s⟩) hk
  refine ⟨⟨hv.indexed.nodup, fun i hi => ?_⟩, fun k hk hkn => ?_⟩
  · exact (hidx _ (hat i hi)).trans (hv.indexed.idx i hi)
  · refine (hless _ (hat k hkn) _ (hat _ ?_)).trans (hv.ordered k hk hkn)
    exact (BinaryHeap.parent_lt hk).trans hkn

theorem valid_nil (s : σ) : Valid (⟨[], s⟩ : IndexedHeap O) :=
  ⟨⟨nodup_nil, fun i hi => absurd hi (Nat.not_lt_zero i)⟩,
    fun k _ hk => absurd hk (Nat.not_lt_zero k)⟩

/-- `h'` is a valid heap of the references `S`; only positions have changed. -/
structure Updated (h : IndexedHeap O) (S : List ρ) (h' : IndexedHeap O) : Prop where
  valid : h'.Valid
  perm : h'.slots.Perm S
  written : O.Written (fun r => r ∈ h.slots ∨ r ∈ S) h.mem h'.mem

/-! ## The operations -/

section

variable [DecidableEq ρ] [LinearOrder κ] {key : σ → ρ → κ} (L : O.Lawful key)

include L

theorem Indexed.swap (hx : h.Indexed) (hi : i < h.slots.length) (hj : j < h.slots.length) :
    (h.swap i j).Indexed := by
  refine ⟨(swap_rearranged hi hj).perm.nodup_iff.mpr hx.nodup, fun k hk => ?_⟩
  rw [length_swap] at hk
  rw [at?_swap hi hj, Equiv.swap_apply_def]
  simp only [IndexedHeap.swap, L.idx_setIdx]
  by_cases hki : k = i
  · subst hki
    by_cases hkj : k = j
    · simp [hkj]
    · have hne : h.at? j ≠ h.at? k := fun e => hkj (hx.inj hi hj e.symm)
      simp [hne]
  · by_cases hkj : k = j
    · subst hkj
      simp [hki]
    · have hnei : h.at? k ≠ h.at? i := fun e => hki (hx.inj hk hi e)
      have hnej : h.at? k ≠ h.at? j := fun e => hkj (hx.inj hk hj e)
      simp [hki, hkj, hnei, hnej, hx.idx k hk]

theorem swap_keeps (h0 : IndexedHeap O) (h : IndexedHeap O) (i j : Nat)
    (hP : h0.Rearranged h ∧ h.Indexed) (hi : i < h0.slots.length) (hj : j < h0.slots.length) :
    h0.Rearranged (HeapInterface.swap h i j) ∧ (HeapInterface.swap h i j).Indexed := by
  obtain ⟨hre, hx⟩ := hP
  have hlen := hre.perm.length_eq
  exact ⟨hre.trans (swap_rearranged (hlen ▸ hi) (hlen ▸ hj)), hx.swap L (hlen ▸ hi) (hlen ▸ hj)⟩

@[reducible] def lawful : LawfulHeap (IndexedHeap O) κ where
  key h i := key h.mem (h.at? i)
  less_iff h i j := L.less_iff h.mem (h.at? i) (h.at? j)
  key_swap h i j k hi hj := by
    show key (O.setIdx (O.setIdx h.mem _ _) _ _) ((h.swap i j).at? k) = _
    rw [L.key_setIdx, L.key_setIdx, at?_swap hi hj]

theorem ordered_iff (h : IndexedHeap O) :
    (∀ k, 0 < k → k < h.slots.length →
      O.less h.mem (h.at? k) (h.at? (BinaryHeap.parent k)) = false) ↔
      @BinaryHeap.Ordered _ _ _ _ (lawful L) h h.slots.length := by
  let := lawful L
  exact forall₃_congr fun k _ _ => BinaryHeap.less_eq_false (h := h)

theorem push_spec (hv : h.Valid) (hr : r ∉ h.slots) : h.Updated (r :: h.slots) (h.push r) := by
  let := lawful L
  set h1 : IndexedHeap O := { slots := h.slots ++ [r], mem := O.setIdx h.mem r h.slots.length }
    with hh1
  have hlen : h1.slots.length = h.slots.length + 1 := by simp [hh1]
  have hlast : h1.at? h.slots.length = r := by
    simp [hh1, at?, getD_eq_getElem?_getD]
  have hold : ∀ i, i < h.slots.length → h1.at? i = h.at? i := by
    intro i hi
    simp only [hh1, at?, getD_eq_getElem?_getD, getElem?_append_left hi]
  have hx1 : h1.Indexed := by
    refine ⟨?_, fun i hi => ?_⟩
    · rw [hh1, (perm_append_singleton r h.slots).nodup_iff]
      exact nodup_cons.mpr ⟨hr, hv.indexed.nodup⟩
    · by_cases hil : i = h.slots.length
      · rw [hil, hlast, hh1, L.idx_setIdx, if_pos rfl]
      · have hi' : i < h.slots.length := by omega
        have hne : h.at? i ≠ r := fun e => hr (e ▸ at?_mem hi')
        rw [hold i hi', hh1, L.idx_setIdx, if_neg hne]
        exact hv.indexed.idx i hi'
  have hord1 : BinaryHeap.Ordered h1 (HeapInterface.len h1 - 1) := by
    intro k hk hkn
    have hkn' : k < h.slots.length := by
      have : HeapInterface.len h1 = h.slots.length + 1 := hlen
      omega
    have hp := BinaryHeap.parent_lt hk
    show key (O.setIdx h.mem r _) (h1.at? _) ≤ key (O.setIdx h.mem r _) (h1.at? k)
    rw [L.key_setIdx, L.key_setIdx, hold k hkn', hold _ (by omega)]
    exact (ordered_iff L h).mp hv.ordered k hk hkn'
  have hpos : 0 < HeapInterface.len h1 := by
    show 0 < h1.slots.length
    omega
  obtain ⟨hre, hx⟩ := BinaryHeap.pushed_preserves (P := fun g => h1.Rearranged g ∧ g.Indexed)
    (fun g i j hP hi hj => swap_keeps L h1 g i j hP hi hj) hpos ⟨Rearranged.refl _, hx1⟩
  have hord := BinaryHeap.pushed_ordered hpos hord1
  have hperm := perm_append_singleton r h.slots
  refine ⟨⟨hx, (ordered_iff L _).mpr ?_⟩, hre.perm.trans hperm, ?_⟩
  · rw [show (h.push r).slots.length = HeapInterface.len h1 from hre.perm.length_eq]
    exact hord
  · exact (References.Written.refl.setIdx _ (.inr mem_cons_self)).trans
      (hre.written.mono fun _ hm => .inr (hperm.mem_iff.mp hm))

/-- `heap.Fix` after the key of the reference at `i` has changed. -/
theorem fix_spec (hv : h.Valid) (hi : i < h.slots.length) {s : σ}
    (hkey : ∀ r ∈ h.slots, r ≠ h.at? i → key s r = key h.mem r)
    (hidx : ∀ r ∈ h.slots, O.idx s r = O.idx h.mem r) :
    (⟨h.slots, s⟩ : IndexedHeap O).Updated h.slots (fix ⟨h.slots, s⟩ i) := by
  let := lawful L
  set h1 : IndexedHeap O := ⟨h.slots, s⟩
  have hx : h1.Indexed :=
    ⟨hv.indexed.nodup, fun j hj => (hidx _ (at?_mem hj)).trans (hv.indexed.idx j hj)⟩
  have hd : BinaryHeap.DownOrdered h1 h1.slots.length i := by
    refine BinaryHeap.Ordered.downOrdered (h := h) ((ordered_iff L h).mp hv.ordered) hi ?_
    exact fun j hj hji => hkey _ (at?_mem hj) fun e => hji (hv.indexed.inj hj hi e)
  obtain ⟨hre, hx'⟩ := BinaryHeap.fix_preserves (h := h1) (i := i)
    (P := fun g => h1.Rearranged g ∧ g.Indexed)
    (fun g i j hP hi hj => swap_keeps L h1 g i j hP hi hj) hi ⟨Rearranged.refl _, hx⟩
  have hord : BinaryHeap.Ordered (h1.fix i) h1.slots.length := BinaryHeap.fix_ordered hi hd
  refine ⟨⟨hx', (ordered_iff L _).mpr ?_⟩, hre.perm, hre.written.mono fun _ => .inl⟩
  rw [show (h1.fix i).slots.length = h1.slots.length from hre.perm.length_eq]
  exact hord

theorem popLast_spec {g : IndexedHeap O} (hre : h.Rearranged g) (hg : g.Indexed)
    (hi : i < h.slots.length) (hend : g.at? (h.slots.length - 1) = h.at? i)
    (hord : @BinaryHeap.Ordered _ _ _ _ (lawful L) g (h.slots.length - 1)) :
    h.Updated (h.slots.erase (h.at? i)) g.popLast ∧ O.idx g.popLast.mem (h.at? i) = -1 := by
  have hlen := hre.perm.length_eq
  set n := h.slots.length - 1 with hn
  have hsplit : g.slots = g.slots.dropLast ++ [h.at? i] := by
    have hne : g.slots ≠ [] := by
      rw [← length_pos_iff]
      omega
    have hlast : g.slots.getLast hne = h.at? i := by
      rw [← hend, at?_of_lt (by omega), getLast_eq_getElem]
      congr 1
      omega
    rw [← hlast, dropLast_concat_getLast]
  have hmem : g.popLast.mem = O.setIdx g.mem (h.at? i) (-1) := by
    rw [popLast, hlen, hend]
  have hat : ∀ k, k < n → g.popLast.at? k = g.at? k := by
    intro k hk
    simp only [popLast, at?, getD_eq_getElem?_getD]
    conv_rhs => rw [hsplit]
    rw [getElem?_append_left (by rw [length_dropLast]; omega)]
  have hne : ∀ k, k < n → g.at? k ≠ h.at? i := by
    intro k hk he
    have := hg.inj (by omega) (by omega) (he.trans hend.symm)
    omega
  have hperm : g.popLast.slots.Perm (h.slots.erase (h.at? i)) := by
    have hcons : (h.at? i :: g.slots.dropLast).Perm h.slots := by
      refine List.Perm.trans ?_ hre.perm
      conv_rhs => rw [hsplit]
      exact (perm_append_singleton _ _).symm
    exact (cons_perm_iff_perm_erase.mp hcons).2
  have hlen' : g.popLast.slots.length = n := by
    rw [popLast, length_dropLast, hlen]
  refine ⟨⟨⟨⟨?_, fun k hk => ?_⟩, (ordered_iff L _).mpr fun k hk hkn => ?_⟩, hperm, ?_⟩, ?_⟩
  · rw [hperm.nodup_iff]
    exact (hre.perm.nodup_iff.mp hg.nodup).erase _
  · rw [hlen'] at hk
    rw [hat k hk, hmem, L.idx_setIdx, if_neg (hne k hk)]
    exact hg.idx k (by omega)
  · rw [hlen'] at hkn
    have := BinaryHeap.parent_lt hk
    show key g.popLast.mem (g.popLast.at? _) ≤ key g.popLast.mem (g.popLast.at? k)
    rw [hat k hkn, hat _ (by omega), hmem, L.key_setIdx, L.key_setIdx]
    exact hord k hk hkn
  · rw [hmem]
    exact (hre.written.mono fun _ => .inl).setIdx _ (.inl (at?_mem hi))
  · rw [hmem, L.idx_setIdx, if_pos rfl]

theorem remove_spec (hv : h.Valid) (hi : i < h.slots.length) :
    h.Updated (h.slots.erase (h.at? i)) (h.remove i) ∧ O.idx (h.remove i).mem (h.at? i) = -1 := by
  let := lawful L
  set n := h.slots.length - 1 with hn
  -- the removed reference is swapped to the end and stays there
  obtain ⟨hre, hx, hend⟩ := BinaryHeap.removeSwaps_preserves (h := h) (i := i)
    (P := fun g => h.Rearranged g ∧ g.Indexed ∧ g.at? n = h.at? i)
    (fun g j k hP hj hk => by
      have hj' : j < n := hj
      have hk' : k < n := hk
      obtain ⟨hre, hx⟩ := swap_keeps L h g j k ⟨hP.1, hP.2.1⟩ (by omega) (by omega)
      have hlen := hP.1.perm.length_eq
      refine ⟨hre, hx, (at?_swap (by omega) (by omega) n).trans ?_⟩
      rw [Equiv.swap_apply_of_ne_of_ne (by omega) (by omega)]
      exact hP.2.2)
    hi (fun he => ⟨Rearranged.refl _, hv.indexed, congrArg h.at? he.symm⟩) (fun hlt => by
      have hlt' : i < n := hlt
      obtain ⟨hre, hx⟩ := swap_keeps L h h i n ⟨Rearranged.refl _, hv.indexed⟩ hi (by omega)
      have hswap : (h.swap i n).at? n = h.at? i := by
        rw [at?_swap hi (by omega), Equiv.swap_apply_right]
      exact ⟨hre, hx, hswap⟩)
  have hord := BinaryHeap.removeSwaps_ordered hi ((ordered_iff L h).mp hv.ordered)
  exact popLast_spec L hre hx hi hend hord

theorem pop_spec (hv : h.Valid) (hr : h.slots.head? = some r) :
    h.Updated (h.slots.erase r) h.pop := by
  have hpos : 0 < h.slots.length := by
    rw [length_pos_iff]
    rintro heq
    rw [heq] at hr
    cases hr
  have hat : h.at? 0 = r := by
    rw [at?, getD_eq_getElem?_getD, ← head?_eq_getElem?, hr, Option.getD_some]
  rw [← hat]
  by_cases hlen : 1 < h.slots.length
  · rw [pop, BinaryHeap.popSwaps_eq hlen]
    exact (remove_spec L hv hpos).1
  have hone : h.slots.length - 1 = 0 := by omega
  have hswaps : BinaryHeap.popSwaps h = h.swap 0 0 := by
    show (BinaryHeap.down (h.swap 0 (h.slots.length - 1)) 0 (h.slots.length - 1)).1 = _
    rw [hone]
    rfl
  rw [pop, hswaps]
  refine (popLast_spec L (swap_rearranged hpos hpos) (hv.indexed.swap L hpos hpos) hpos ?_ ?_).1
  · rw [hone, at?_swap hpos hpos, Equiv.swap_self]
    rfl
  · intro k hk hkn
    omega

end

/-! ## Two heaps that share the positions -/

section

variable [DecidableEq ρ] {less less' : ρ → ρ → Bool} {h h' : IndexedHeap (.plain less)}
  {slots S : List ρ} (hv : h.Valid) (hv' : Valid (⟨slots, h.mem⟩ : IndexedHeap (.plain less')))
  (hdisjoint : ∀ x ∈ h.slots, x ∉ slots)

include hv' hdisjoint

theorem Updated.beside (hup : h.Updated S h') (hS : ∀ x ∈ slots, x ∉ S) :
    Valid (⟨slots, h'.mem⟩ : IndexedHeap (.plain less')) :=
  hv'.congr (fun _ _ _ _ => rfl) fun x hx =>
    hup.written.idx_plain (not_or.mpr ⟨fun hm => hdisjoint x hm hx, hS x hx⟩)

include hv

theorem push_beside [LinearOrder κ] {key : ρ → κ} (hless : ∀ a b, less a b = true ↔ key a < key b)
    (hr : r ∉ h.slots) (hr' : r ∉ slots) :
    (h.push r).Valid ∧ Valid (⟨slots, (h.push r).mem⟩ : IndexedHeap (.plain less')) ∧
      ∀ x, x ∈ (h.push r).slots ↔ x = r ∨ x ∈ h.slots := by
  have hup := push_spec (References.plain_lawful hless) hv hr
  refine ⟨hup.valid, hup.beside hv' hdisjoint fun x hx hm => ?_, fun x => ?_⟩
  · rcases mem_cons.mp hm with rfl | hm
    · exact hr' hx
    · exact hdisjoint x hm hx
  · rw [hup.perm.mem_iff, mem_cons]

theorem Updated.erase_beside (hup : h.Updated (h.slots.erase r) h') :
    h'.Valid ∧ Valid (⟨slots, h'.mem⟩ : IndexedHeap (.plain less')) ∧
      ∀ x, x ∈ h'.slots ↔ x ≠ r ∧ x ∈ h.slots := by
  refine ⟨hup.valid, hup.beside hv' hdisjoint fun x hx hm => ?_, fun x => ?_⟩
  · exact hdisjoint x (mem_of_mem_erase hm) hx
  · rw [hup.perm.mem_iff, hv.indexed.nodup.mem_erase_iff]

end

end IndexedHeap

end InterviewPrep.Lib
