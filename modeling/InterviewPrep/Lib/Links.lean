/-
  Mutable objects behind references.  Containers that share objects hold `Ref`s, and the records
  are in one `Memory`, so that writing through one container is seen through the other.

  Go's `container/list`, by its documented behaviour: a list of elements with an identity, so that
  an element can be moved or removed through a pointer to it.  Removing or moving an element that
  is not in the list does nothing.

  Doubly linked lists threaded through shared objects.  The `prev` and `next` fields of all
  objects are two maps from addresses (`Links`); a list (`DList`) is its two sentinels and a
  length.  `Holds` ties a list to the sequence of addresses that the fields thread from sentinel
  to sentinel, and says what each operation does to that sequence.
-/
import Mathlib.Data.List.Chain
import Mathlib.Data.List.Nodup

namespace InterviewPrep.Lib

open List

/-- The identity of an object. -/
abbrev Ref := Nat

/-- Objects by reference; references from `next` on are not allocated yet. -/
structure Memory (α : Type*) where
  cell : Ref → α
  next : Ref

namespace Memory

variable {α : Type*}

/-- No object is allocated; `fill` is what unallocated cells read as. -/
def init (fill : α) : Memory α := ⟨fun _ => fill, 0⟩

/-- The object behind `r`. -/
def read (m : Memory α) (r : Ref) : α := m.cell r

/-- Replace the object behind `r`. -/
def write (m : Memory α) (r : Ref) (x : α) : Memory α :=
  { m with cell := fun r' => if r' = r then x else m.cell r' }

/-- A new object holding `x`. -/
def alloc (m : Memory α) (x : α) : Ref × Memory α :=
  (m.next, { cell := fun r' => if r' = m.next then x else m.cell r', next := m.next + 1 })

theorem read_write (m : Memory α) (r r' : Ref) (x : α) :
    (m.write r x).read r' = if r' = r then x else m.read r' := rfl

@[simp] theorem read_write_self (m : Memory α) (r : Ref) (x : α) : (m.write r x).read r = x := by
  rw [read_write, if_pos rfl]

theorem read_write_of_ne (m : Memory α) {r r' : Ref} (x : α) (h : r' ≠ r) :
    (m.write r x).read r' = m.read r' := by
  rw [read_write, if_neg h]

theorem write_write (m : Memory α) (r : Ref) (x y : α) : (m.write r x).write r y = m.write r y := by
  have hcell : ∀ r', ((m.write r x).write r y).cell r' = (m.write r y).cell r' := by
    intro r'
    by_cases h : r' = r <;> simp [write, h]
  exact congrArg (Memory.mk · m.next) (funext hcell)

@[simp] theorem next_write (m : Memory α) (r : Ref) (x : α) : (m.write r x).next = m.next := rfl

@[simp] theorem alloc_ref (m : Memory α) (x : α) : (m.alloc x).1 = m.next := rfl

@[simp] theorem next_alloc (m : Memory α) (x : α) : (m.alloc x).2.next = m.next + 1 := rfl

@[simp] theorem read_alloc_self (m : Memory α) (x : α) : (m.alloc x).2.read m.next = x :=
  if_pos rfl

theorem read_alloc_of_ne (m : Memory α) {r : Ref} (x : α) (h : r ≠ m.next) :
    (m.alloc x).2.read r = m.read r :=
  if_neg h

end Memory

/-- An element of a list: its identity and its value. -/
structure Element (α : Type*) where
  id : Nat
  value : α

/-- The elements, front first. -/
structure LinkedList (α : Type*) where
  elems : List (Element α)

namespace LinkedList

variable {α : Type*}

def new : LinkedList α := ⟨[]⟩

/-- `PushFront` of a value, as the new element `e`. -/
def pushFront (l : LinkedList α) (e : Element α) : LinkedList α := ⟨e :: l.elems⟩

def remove (l : LinkedList α) (e : Element α) : LinkedList α :=
  ⟨l.elems.filter fun x => x.id ≠ e.id⟩

def moveToFront (l : LinkedList α) (e : Element α) : LinkedList α :=
  match l.elems.find? fun x => x.id = e.id with
  | none => l
  | some x => (l.remove e).pushFront x

def back (l : LinkedList α) : Option (Element α) := l.elems.getLast?

def len (l : LinkedList α) : Nat := l.elems.length

def Distinct (l : LinkedList α) : Prop := (l.elems.map Element.id).Nodup

variable {l : LinkedList α} {e x : Element α}

@[simp] theorem elems_pushFront (l : LinkedList α) (e : Element α) :
    (l.pushFront e).elems = e :: l.elems := rfl

theorem mem_remove : x ∈ (l.remove e).elems ↔ x ∈ l.elems ∧ x.id ≠ e.id := by
  simp [remove]

theorem distinct_new : (new : LinkedList α).Distinct := nodup_nil

theorem Distinct.pushFront (h : l.Distinct) (hnew : ∀ x ∈ l.elems, x.id ≠ e.id) :
    (l.pushFront e).Distinct := by
  refine nodup_cons.mpr ⟨fun hm => ?_, h⟩
  obtain ⟨x, hx, he⟩ := mem_map.mp hm
  exact hnew x hx he

theorem Distinct.remove (h : l.Distinct) (e : Element α) : (l.remove e).Distinct :=
  h.sublist (filter_sublist.map _)

theorem Distinct.eq_of_id (h : l.Distinct) (he : e ∈ l.elems) (hx : x ∈ l.elems)
    (hid : x.id = e.id) : x = e :=
  inj_on_of_nodup_map h hx he hid

theorem Distinct.remove_perm (h : l.Distinct) (he : e ∈ l.elems) :
    l.elems.Perm (e :: (l.remove e).elems) := by
  have hnodup : l.elems.Nodup := h.of_map
  have hrest : (e :: (l.remove e).elems).Nodup := by
    refine nodup_cons.mpr ⟨fun hm => (mem_remove.mp hm).2 rfl, hnodup.filter _⟩
  refine (perm_ext_iff_of_nodup hnodup hrest).mpr fun x => ?_
  rw [mem_cons, mem_remove]
  constructor
  · intro hx
    by_cases hid : x.id = e.id
    · exact Or.inl (h.eq_of_id he hx hid)
    · exact Or.inr ⟨hx, hid⟩
  · rintro (rfl | ⟨hx, -⟩)
    · exact he
    · exact hx

theorem Distinct.moveToFront_eq (h : l.Distinct) (he : e ∈ l.elems) :
    l.moveToFront e = (l.remove e).pushFront e := by
  have hfind : l.elems.find? (fun x => x.id = e.id) = some e := by
    cases hf : l.elems.find? (fun x => x.id = e.id) with
    | none =>
      rw [find?_eq_none] at hf
      exact absurd (decide_eq_true rfl) (hf e he)
    | some x =>
      have hid : x.id = e.id := by simpa using find?_some hf
      rw [h.eq_of_id he (mem_of_find?_eq_some hf) hid]
  rw [LinkedList.moveToFront, hfind]

theorem Distinct.moveToFront_perm (h : l.Distinct) (he : e ∈ l.elems) :
    (l.moveToFront e).elems.Perm l.elems := by
  rw [h.moveToFront_eq he]
  exact (h.remove_perm he).symm

end LinkedList

variable {A : Type}

/-- The link fields of the objects; `none` is a null link. -/
structure Links (A : Type) where
  prev : A → Option A
  next : A → Option A

namespace Links

def empty : Links A := ⟨fun _ => none, fun _ => none⟩

/-- `b` comes right after `a`. -/
def Linked (l : Links A) (a b : A) : Prop := l.next a = some b ∧ l.prev b = some a

theorem chain_congr {l l' : Links A} {xs : List A} (h : xs.IsChain l.Linked)
    (hnext : ∀ x ∈ xs.dropLast, l'.next x = l.next x)
    (hprev : ∀ x ∈ xs.tail, l'.prev x = l.prev x) : xs.IsChain l'.Linked := by
  induction xs with
  | nil => exact .nil
  | cons a xs ih =>
    cases xs with
    | nil => exact .singleton a
    | cons b =>
      obtain ⟨⟨hab, hba⟩, hrest⟩ := isChain_cons_cons.mp h
      rw [dropLast_cons_cons] at hnext
      rw [tail_cons] at hprev
      refine isChain_cons_cons.mpr ⟨⟨?_, ?_⟩, ih hrest ?_ ?_⟩
      · rw [hnext a (mem_cons_self ..), hab]
      · rw [hprev b (mem_cons_self ..), hba]
      · exact fun x hx => hnext x (mem_cons_of_mem _ hx)
      · exact fun x hx => hprev x (mem_cons_of_mem _ hx)

variable [DecidableEq A]

def setPrev (l : Links A) (a : A) (v : Option A) : Links A :=
  { l with prev := Function.update l.prev a v }

def setNext (l : Links A) (a : A) (v : Option A) : Links A :=
  { l with next := Function.update l.next a v }

@[simp] theorem next_setPrev (l : Links A) (a : A) (v : Option A) :
    (l.setPrev a v).next = l.next := rfl

@[simp] theorem prev_setNext (l : Links A) (a : A) (v : Option A) :
    (l.setNext a v).prev = l.prev := rfl

theorem prev_setPrev (l : Links A) (a b : A) (v : Option A) :
    (l.setPrev a v).prev b = if b = a then v else l.prev b :=
  Function.update_apply _ _ _ _

theorem next_setNext (l : Links A) (a b : A) (v : Option A) :
    (l.setNext a v).next b = if b = a then v else l.next b :=
  Function.update_apply _ _ _ _

end Links

/-- A list: its sentinels and its length. -/
structure DList (A : Type) where
  head : A
  tail : A
  len : Int

namespace DList

/-! ## The sequence of a list -/

/-- The links thread exactly `nodes` from the head to the tail. -/
structure Holds (d : DList A) (l : Links A) (nodes : List A) : Prop where
  chain : (d.head :: nodes ++ [d.tail]).IsChain l.Linked
  nodup : (d.head :: nodes ++ [d.tail]).Nodup
  len : d.len = nodes.length

section

variable {d : DList A} {l : Links A} {nodes : List A} {node : A}

theorem Holds.nodes_nodup (h : d.Holds l nodes) : nodes.Nodup :=
  (nodup_append.mp (nodup_cons.mp h.nodup).2).1

theorem Holds.ne_tail (h : d.Holds l nodes) (hn : node ∈ nodes) : node ≠ d.tail := by
  rintro rfl
  exact (nodup_append.mp (nodup_cons.mp h.nodup).2).2.2 _ hn _
    (mem_singleton_self _) rfl

theorem exists_concat (a : A) (xs : List A) : ∃ ys b, a :: xs = ys ++ [b] :=
  ⟨_, _, (dropLast_append_getLast (cons_ne_nil a xs)).symm⟩

theorem exists_cons (xs : List A) (b : A) : ∃ a ys, xs ++ [b] = a :: ys := by
  cases xs with
  | nil => exact ⟨b, [], rfl⟩
  | cons a xs => exact ⟨a, xs ++ [b], rfl⟩

/-- The last object of a nonempty list. -/
def back (d : DList A) (l : Links A) : Option A := if d.len = 0 then none else l.prev d.tail

theorem Holds.back (h : d.Holds l nodes) : d.back l = nodes.getLast? := by
  rw [DList.back, h.len]
  rcases eq_nil_or_concat nodes with rfl | ⟨xs, x, rfl⟩
  · rfl
  · have hchain := h.chain
    rw [concat_eq_append, cons_append, append_assoc, ← cons_append] at hchain
    have hlast := (isChain_append_cons_cons.mp hchain).2.1
    rw [if_neg (by simp; omega), concat_eq_append, getLast?_concat]
    exact hlast.2

/-! ## Operations -/

variable [DecidableEq A]

/-- A new empty list between two new objects. -/
def new (head tail : A) (l : Links A) : DList A × Links A :=
  (⟨head, tail, 0⟩, (l.setNext head (some tail)).setPrev tail (some head))

/-- Thread `node` in after the head; `none` when a null link is followed. -/
def pushFront (d : DList A) (l : Links A) (node : A) : Option (DList A × Links A) := do
  let l := l.setPrev node (some d.head)
  let l := l.setNext node (l.next d.head)
  let first ← l.next d.head
  let l := l.setPrev first (some node)
  return ({ d with len := d.len + 1 }, l.setNext d.head (some node))

/-- Unthread `node`. -/
def remove (d : DList A) (l : Links A) (node : A) : Option (DList A × Links A) := do
  let before ← l.prev node
  let l := l.setNext before (l.next node)
  let after ← l.next node
  let l := l.setPrev after (l.prev node)
  return ({ d with len := d.len - 1 }, (l.setNext node none).setPrev node none)

/-- The objects from `node` to before the tail, at most `fuel` of them. -/
def walk (d : DList A) (l : Links A) : Nat → A → Option (List A)
  | 0, node => if node = d.tail then some [] else none
  | fuel + 1, node =>
    if node = d.tail then some []
    else do return node :: (← d.walk l fuel (← l.next node))

/-- Iteration from front to back. -/
def toList (d : DList A) (l : Links A) : Option (List A) := do
  d.walk l d.len.toNat (← l.next d.head)

theorem new_holds {head tail : A} (h : head ≠ tail) (l : Links A) :
    (new head tail l).1.Holds (new head tail l).2 [] := by
  refine ⟨isChain_pair.mpr ⟨?_, ?_⟩, by simpa [new] using h, rfl⟩
  · rw [new, Links.next_setPrev, Links.next_setNext, if_pos rfl]
  · rw [new, Links.prev_setPrev, if_pos rfl]

theorem Holds.pushFront (h : d.Holds l nodes) (hnew : node ∉ nodes) (hhead : node ≠ d.head)
    (htail : node ≠ d.tail) :
    ∃ d' l', d.pushFront l node = some (d', l') ∧ d'.Holds l' (node :: nodes) ∧
      d'.head = d.head ∧ d'.tail = d.tail ∧
      ∀ a, a ∉ node :: d.head :: nodes ++ [d.tail] → l'.prev a = l.prev a ∧
        l'.next a = l.next a := by
  obtain ⟨first, rest, hrest⟩ := exists_cons nodes d.tail
  have hnodup := h.nodup
  have hchain := h.chain
  rw [cons_append, hrest] at hnodup hchain
  obtain ⟨⟨hnext, hprev⟩, hchain⟩ := isChain_cons_cons.mp hchain
  obtain ⟨hh, hnodup⟩ := nodup_cons.mp hnodup
  have hfresh : node ∉ first :: rest := by
    rw [← hrest]
    simp [hnew, htail]
  have hfirst : first ≠ node := fun e => hfresh (e ▸ mem_cons_self ..)
  have hfh : d.head ≠ first := fun e => hh (e ▸ mem_cons_self ..)
  have hpush : d.pushFront l node = some ({ d with len := d.len + 1 },
      (((l.setPrev node (some d.head)).setNext node (some first)).setPrev first (some node)).setNext
        d.head (some node)) := by
    simp [DList.pushFront, Links.next_setNext, Ne.symm hhead, hnext]
  refine ⟨_, _, hpush, ⟨?_, ?_, ?_⟩, rfl, rfl, fun a ha => ?_⟩
  · rw [cons_append, cons_append, hrest]
    refine isChain_cons_cons.mpr ⟨⟨?_, ?_⟩, isChain_cons_cons.mpr ⟨⟨?_, ?_⟩, ?_⟩⟩
    · simp [Links.next_setNext]
    · simp [Links.prev_setPrev, Ne.symm hfirst]
    · simp [Links.next_setNext, hhead]
    · simp [Links.prev_setPrev]
    refine Links.chain_congr hchain (fun x hx => ?_) (fun x hx => ?_)
    · have hx := (dropLast_sublist _).mem hx
      have h1 : x ≠ d.head := fun e => hh (e ▸ hx)
      have h2 : x ≠ node := fun e => hfresh (e ▸ hx)
      simp [Links.next_setNext, h1, h2]
    · have h1 : x ≠ first := fun e => (nodup_cons.mp hnodup).1 (e ▸ hx)
      have h2 : x ≠ node := fun e => hfresh (e ▸ mem_cons_of_mem _ hx)
      simp [Links.prev_setPrev, h1, h2]
  · have hall := h.nodup
    rw [cons_append, cons_append]
    rw [cons_append, hrest] at hall
    rw [hrest]
    obtain ⟨h1, h2⟩ := nodup_cons.mp hall
    refine nodup_cons.mpr ⟨?_, nodup_cons.mpr ⟨hfresh, h2⟩⟩
    rw [mem_cons]
    rintro (h3 | h3)
    · exact hhead h3.symm
    · exact h1 h3
  · rw [h.len, length_cons]
    rfl
  · have hmem : first ∈ nodes ++ [d.tail] := hrest ▸ mem_cons_self ..
    have h1 : a ≠ node := fun e => ha (by simp [e])
    have h2 : a ≠ d.head := fun e => ha (by simp [e])
    have h3 : a ≠ first := by
      rintro rfl
      exact ha (mem_cons_of_mem _ (mem_cons_of_mem _ hmem))
    simp [Links.prev_setPrev, Links.next_setNext, h1, h2, h3]

theorem Holds.remove {as bs : List A} (h : d.Holds l (as ++ node :: bs)) :
    ∃ d' l', d.remove l node = some (d', l') ∧ d'.Holds l' (as ++ bs) ∧
      d'.head = d.head ∧ d'.tail = d.tail ∧ ∀ a, a ∉ d.head :: (as ++ node :: bs) ++ [d.tail] →
        l'.prev a = l.prev a ∧ l'.next a = l.next a := by
  obtain ⟨xs, before, hbefore⟩ := exists_concat d.head as
  obtain ⟨after, ys, hafter⟩ := exists_cons bs d.tail
  have hsplit : d.head :: (as ++ node :: bs) ++ [d.tail] = xs ++ before :: node :: after :: ys := by
    have hsides : d.head :: (as ++ node :: bs) ++ [d.tail] =
        (d.head :: as) ++ node :: (bs ++ [d.tail]) := by simp
    rw [hsides, hbefore, hafter, append_assoc]
    rfl
  have hjoined : d.head :: (as ++ bs) ++ [d.tail] = xs ++ before :: after :: ys := by
    have hsides : d.head :: (as ++ bs) ++ [d.tail] = (d.head :: as) ++ (bs ++ [d.tail]) := by simp
    rw [hsides, hbefore, hafter, append_assoc]
    rfl
  have hchain := h.chain
  have hnodup := h.nodup
  rw [hsplit] at hchain hnodup
  obtain ⟨hleft, hbn, hright⟩ := isChain_append_cons_cons.mp hchain
  obtain ⟨hna, hright⟩ := isChain_cons_cons.mp hright
  obtain ⟨-, hnodup', hdisj⟩ := nodup_append.mp hnodup
  simp only [nodup_cons, mem_cons, not_or] at hnodup'
  obtain ⟨⟨hb1, hb2, hb3⟩, ⟨hn1, hn2⟩, ha1, -⟩ := hnodup'
  have hremove : d.remove l node = some ({ d with len := d.len - 1 },
      (((l.setNext before (some after)).setPrev after (some before)).setNext node none).setPrev
        node none) := by
    simp [DList.remove, hbn.2, hna.1, Links.next_setNext]
  refine ⟨_, _, hremove, ⟨?_, ?_, ?_⟩, rfl, rfl, fun a ha => ?_⟩
  · rw [hjoined]
    refine isChain_append_cons_cons.mpr ⟨?_, ⟨?_, ?_⟩, ?_⟩
    · refine Links.chain_congr hleft (fun x hx => ?_) (fun x hx => ?_)
      · rw [dropLast_concat] at hx
        have h1 : x ≠ before := fun e => hdisj _ hx _ (mem_cons_self ..) e
        have h2 : x ≠ node := fun e =>
          hdisj _ hx _ (mem_cons_of_mem _ (mem_cons_self ..)) e
        simp [Links.next_setNext, h1, h2]
      have hx := mem_of_mem_tail hx
      have h1 : x ≠ node ∧ x ≠ after := by
        rcases mem_append.mp hx with hx | hx
        · exact ⟨fun e => hdisj _ hx _ (by simp) e, fun e => hdisj _ hx _ (by simp) e⟩
        · rw [mem_singleton.mp hx]
          exact ⟨hb1, hb2⟩
      simp [Links.prev_setPrev, h1.1, h1.2]
    · simp [Links.next_setNext, hb1]
    · simp [Links.prev_setPrev, Ne.symm hn1]
    · refine Links.chain_congr hright (fun x hx => ?_) (fun x hx => ?_)
      · have hx := (dropLast_sublist _).mem hx
        have h1 : x ≠ before ∧ x ≠ node := by
          rcases mem_cons.mp hx with rfl | hx
          · exact ⟨Ne.symm hb2, Ne.symm hn1⟩
          · exact ⟨fun e => hb3 (e ▸ hx), fun e => hn2 (e ▸ hx)⟩
        simp [Links.next_setNext, h1.1, h1.2]
      · have h1 : x ≠ after := fun e => ha1 (e ▸ hx)
        have h2 : x ≠ node := fun e => hn2 (e ▸ hx)
        simp [Links.prev_setPrev, h1, h2]
  · rw [hjoined]
    refine hnodup.sublist ?_
    exact (List.Sublist.refl xs).append ((sublist_cons_self node _).cons_cons before)
  · rw [h.len, length_append, length_append, length_cons]
    push_cast
    omega
  · rw [hsplit] at ha
    simp only [mem_append, mem_cons, not_or] at ha
    obtain ⟨-, h1, h2, h3, -⟩ := ha
    simp [Links.prev_setPrev, Links.next_setNext, h1, h2, h3]

theorem walk_eq {a : A} {xs : List A} {fuel : Nat}
    (hchain : (a :: xs ++ [d.tail]).IsChain l.Linked) (htail : d.tail ∉ a :: xs)
    (hfuel : xs.length < fuel) : d.walk l fuel a = some (a :: xs) := by
  induction xs generalizing a fuel with
  | nil =>
    obtain ⟨n, rfl⟩ := Nat.exists_eq_add_one_of_ne_zero (Nat.ne_of_gt (Nat.zero_lt_of_lt hfuel))
    have hne : a ≠ d.tail := fun e => htail (by simp [e])
    have hnext : l.next a = some d.tail := (isChain_pair.mp hchain).1
    have hend : d.walk l n d.tail = some [] := by cases n <;> simp [walk]
    simp [walk, hne, hnext, hend]
  | cons b xs ih =>
    obtain ⟨n, rfl⟩ := Nat.exists_eq_add_one_of_ne_zero (Nat.ne_of_gt (Nat.zero_lt_of_lt hfuel))
    have hne : a ≠ d.tail := fun e => htail (by simp [e])
    obtain ⟨hab, hrest⟩ := isChain_cons_cons.mp hchain
    have hwalk : d.walk l n b = some (b :: xs) :=
      ih hrest (fun hm => htail (mem_cons_of_mem _ hm))
        (by rw [length_cons] at hfuel; omega)
    simp [walk, hne, hab.1, hwalk]

theorem Holds.toList (h : d.Holds l nodes) : d.toList l = some nodes := by
  have hchain := h.chain
  cases nodes with
  | nil =>
    have hnext : l.next d.head = some d.tail := (isChain_pair.mp hchain).1
    simp [DList.toList, hnext, h.len, walk]
  | cons a xs =>
    obtain ⟨hha, hrest⟩ := isChain_cons_cons.mp hchain
    have htail : d.tail ∉ a :: xs := fun hm => h.ne_tail hm rfl
    rw [DList.toList, h.len, hha.1]
    exact walk_eq hrest htail (by simp)

end

end DList

end InterviewPrep.Lib
