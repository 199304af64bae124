/-
  `BaseCache` (lru_cache.py): the template that owns the key map, the capacity, the time-to-live
  and the statistics, over the hooks of an eviction policy.  The map and the expiry heap hold
  `Ref`s to nodes in one memory.  A node's links and use count belong to the policy.  Times are
  the readings of the injected clock, of any ordered type; a method that reads the clock twice
  takes two readings.

  What `BaseCache` relies on in a policy (`LawfulCachePolicy`), and the policy of `LRUCache`: one
  doubly linked list between two sentinels, front most recent.
-/
import InterviewPrep.Lib.Dict
import InterviewPrep.Lib.Heaps
import InterviewPrep.Lib.Links
import Mathlib.Data.Prod.Lex

namespace InterviewPrep.LruCache

open Lib

/-- The exceptions the cache raises. -/
inductive PyError where
  | valueError (message : String)
  | keyError
  | attributeError

/-- The value of `x`, which the code takes for granted. -/
def orRaise {α : Type} (e : PyError) (x : Option α) : Except PyError α :=
  match x with
  | some a => .ok a
  | none => .error e

/-! ## Nodes, statistics, policy hooks -/

/-- `_Node`: a key with its value and deadline. -/
structure Node (K V T : Type) where
  key : K
  value : V
  expiresAt : Option T

/-- `_is_expired`, at a reading of the clock. -/
def Node.isExpired {K V T : Type} [LinearOrder T] (n : Node K V T) (now : T) : Bool :=
  n.expiresAt.any (· ≤ now)

structure CacheStats where
  hits : Nat := 0
  misses : Nat := 0
  evictions : Nat := 0
  expirations : Nat := 0

/-- The policy hooks, with the links and counts they keep on nodes. -/
class CachePolicy (P : Type) where
  new : P
  /-- a new node entered the cache -/
  insert : P → Ref → Except PyError P
  /-- an existing node was read or overwritten -/
  touch : P → Ref → Except PyError P
  /-- forget a node -/
  unlink : P → Ref → Except PyError P
  /-- the node to evict when full -/
  victim : P → Except PyError (Ref × P)

/-- The checked arguments of `__init__`. -/
structure Config (T : Type) [LinearOrder T] [Zero T] where
  capacity : Int
  defaultTtl : Option T
  capacity_pos : 0 < capacity
  defaultTtl_pos : ∀ ttl ∈ defaultTtl, 0 < ttl

/-! ## The cache -/

/-- An entry of the expiry heap: deadline, sequence number, node. -/
abbrev HeapEntry (T : Type) : Type := T ×ₗ Nat ×ₗ Ref

def heapEntry {T : Type} (deadline : T) (seq : Nat) (r : Ref) : HeapEntry T :=
  toLex (deadline, toLex (seq, r))

def entryDeadline {T : Type} (e : HeapEntry T) : T := (ofLex e).1

def entryNode {T : Type} (e : HeapEntry T) : Ref := (ofLex (ofLex e).2).2

structure BaseCache (K V T P : Type) [LinearOrder T] [Zero T] where
  config : Config T
  nodes : Memory (Option (Node K V T))
  map : Dict K Ref
  /-- entries go stale when a key is rewritten or deleted -/
  expiryHeap : List (HeapEntry T)
  /-- the next sequence number -/
  seq : Nat
  stats : CacheStats
  policy : P

namespace BaseCache

section

variable {K V T P : Type} [DecidableEq K] [LinearOrder T] [Zero T] [Add T] [CachePolicy P]

def new (config : Config T) : BaseCache K V T P :=
  ⟨config, Memory.init none, Dict.empty, [], 0, {}, CachePolicy.new⟩

variable (c : BaseCache K V T P)

/-- The fields of a node. -/
def node (r : Ref) : Except PyError (Node K V T) := orRaise .attributeError (c.nodes.read r)

/-! ## Internals -/

/-- `_remove`. -/
def remove (r : Ref) : Except PyError (BaseCache K V T P) := do
  let node ← c.node r
  let _ ← orRaise .keyError (c.map.get? node.key)
  let policy ← CachePolicy.unlink c.policy r
  return { c with map := c.map.erase node.key, policy }

/-- The fresh heap entries for the held nodes that have a deadline. -/
def liveEntries : List Ref → Nat → Except PyError (List (HeapEntry T) × Nat)
  | [], seq => .ok ([], seq)
  | r :: refs, seq => do
      let node ← c.node r
      match node.expiresAt with
      | none => liveEntries refs seq
      | some t =>
        let (entries, next) ← liveEntries refs (seq + 1)
        return (heapEntry t seq r :: entries, next)

/-- `_schedule`: push the node's deadline, and rebuild a heap that has grown big. -/
def schedule (r : Ref) : Except PyError (BaseCache K V T P) := do
  let node ← c.node r
  match node.expiresAt with
  | none => return c
  | some t =>
    let expiryHeap := heappush c.expiryHeap (heapEntry t c.seq r)
    if expiryHeap.length > 2 * c.map.size + 32 then
      let (entries, seq) ← c.liveEntries c.map.values (c.seq + 1)
      return { c with expiryHeap := heapify entries, seq }
    else
      return { c with expiryHeap, seq := c.seq + 1 }

/-- The loop of `purge_expired`, over the heap in the order it pops. -/
def purgeLoop (now : T) : List (HeapEntry T) → Nat → BaseCache K V T P →
    Except PyError (Nat × BaseCache K V T P)
  | [], removed, c => .ok (removed, { c with expiryHeap := [] })
  | e :: heap, removed, c =>
    if entryDeadline e ≤ now then do
      let node ← c.node (entryNode e)
      -- a stale entry: the node was dropped, or has another deadline by now
      if c.map.get? node.key = some (entryNode e) ∧ node.expiresAt = some (entryDeadline e) then
        let c ← c.remove (entryNode e)
        purgeLoop now heap (removed + 1)
          { c with stats := { c.stats with expirations := c.stats.expirations + 1 } }
      else purgeLoop now heap removed c
    else .ok (removed, { c with expiryHeap := e :: heap })

/-! ## Public methods -/

/-- `get`; `none` stands for the caller's default. -/
def get (key : K) (now : T) : Except PyError (Option V × BaseCache K V T P) :=
  match c.map.get? key with
  | none => .ok (none, { c with stats := { c.stats with misses := c.stats.misses + 1 } })
  | some r => do
      let node ← c.node r
      if node.isExpired now then
        let c ← c.remove r
        return (none, { c with stats := { c.stats with
          expirations := c.stats.expirations + 1, misses := c.stats.misses + 1 } })
      else
        let policy ← CachePolicy.touch c.policy r
        return (some node.value,
          { c with policy, stats := { c.stats with hits := c.stats.hits + 1 } })

/-- `purge_expired`: the number of entries dropped. -/
def purgeExpired (now : T) : Except PyError (Nat × BaseCache K V T P) :=
  purgeLoop now c.expiryHeap 0 c

/-- Evict the policy's victim. -/
def evict : Except PyError (BaseCache K V T P) := do
  let (victim, policy) ← CachePolicy.victim c.policy
  let c ← { c with policy }.remove victim
  return { c with stats := { c.stats with evictions := c.stats.evictions + 1 } }

/-- What `put` does to a full cache: reclaim dead entries before evicting a live one. -/
def makeRoom (later : T) : Except PyError (BaseCache K V T P) := do
  let (removed, c) ← c.purgeExpired later
  if removed = 0 then c.evict else return c

def ensureRoom (later : T) : Except PyError (BaseCache K V T P) :=
  if c.config.capacity ≤ c.map.size then c.makeRoom later else .ok c

/-- `put`; the deadline is computed from the first reading, a full cache purged at the second. -/
def put (key : K) (value : V) (ttl : Option T) (now later : T) :
    Except PyError (BaseCache K V T P) :=
  if ∃ t ∈ ttl, t ≤ 0 then .error (.valueError "ttl must be positive")
  else
    let expiresAt := (ttl.or c.config.defaultTtl).map (now + ·)
    match c.map.get? key with
    | some r => do
        let node ← c.node r
        let c := { c with nodes := c.nodes.write r (some { node with value, expiresAt }) }
        let c ← c.schedule r
        let policy ← CachePolicy.touch c.policy r
        return { c with policy }
    | none => do
        let c ← c.ensureRoom later
        let (r, nodes) := c.nodes.alloc (some ⟨key, value, expiresAt⟩)
        let policy ← CachePolicy.insert c.policy r
        { c with nodes, map := c.map.set key r, policy }.schedule r

def delete (key : K) : Except PyError (Bool × BaseCache K V T P) :=
  match c.map.get? key with
  | none => .ok (false, c)
  | some r => do return (true, ← c.remove r)

/-- `__contains__`. -/
def contains (key : K) (now : T) : Except PyError Bool :=
  match c.map.get? key with
  | none => .ok false
  | some r => do return !(← c.node r).isExpired now

/-- `__len__`: entries held, including expired ones not yet purged. -/
def len : Nat := c.map.size

end

end BaseCache

/-- A policy tracks the nodes inserted and not unlinked, each once; its victim is one of them. -/
class LawfulCachePolicy (P : Type) [CachePolicy P] where
  /-- the nodes the policy's structure holds -/
  nodes : P → List Ref
  /-- the consistency of the policy's structure -/
  Ok : P → Prop
  new_ok : Ok (CachePolicy.new : P) ∧ nodes (CachePolicy.new : P) = []
  nodup : ∀ {p : P}, Ok p → (nodes p).Nodup
  insert_ok : ∀ {p : P} {r : Ref}, Ok p → r ∉ nodes p →
    ∃ p', CachePolicy.insert p r = .ok p' ∧ Ok p' ∧ (nodes p').Perm (r :: nodes p)
  touch_ok : ∀ {p : P} {r : Ref}, Ok p → r ∈ nodes p →
    ∃ p', CachePolicy.touch p r = .ok p' ∧ Ok p' ∧ (nodes p').Perm (nodes p)
  unlink_ok : ∀ {p : P} {r : Ref}, Ok p → r ∈ nodes p →
    ∃ p', CachePolicy.unlink p r = .ok p' ∧ Ok p' ∧ nodes p' = (nodes p).filter (· ≠ r)
  victim_ok : ∀ {p : P}, Ok p → nodes p ≠ [] →
    ∃ r p', CachePolicy.victim p = .ok (r, p') ∧ r ∈ nodes p ∧ Ok p' ∧ nodes p' = nodes p

/-! ## The policy of LRUCache -/

/-- An object with link fields: a list's sentinel or a cache node. -/
inductive Cell where
  | sentinel (i : Nat)
  | node (r : Ref)
deriving DecidableEq

def Cell.ref? : Cell → Option Ref
  | .sentinel _ => none
  | .node r => some r

theorem ref?_node : Cell.ref? ∘ Cell.node = some := rfl

theorem cell_node_injective : Function.Injective Cell.node := fun _ _ h => Cell.node.inj h

theorem perm_cons_filter {refs : List Ref} {r : Ref} (h : refs.Nodup) (hr : r ∈ refs) :
    (r :: refs.filter (· ≠ r)).Perm refs := by
  have herase : refs.erase r = refs.filter (· ≠ r) := by
    rw [h.erase_eq_filter]
    exact List.filter_congr fun x _ => by rw [bne, beq_eq_decide, decide_not]
  rw [← herase]
  exact (List.perm_cons_erase hr).symm

structure LRU where
  order : DList Cell
  links : Links Cell

namespace LRU

def new : LRU :=
  let (order, links) := DList.new (Cell.sentinel 0) (Cell.sentinel 1) Links.empty
  ⟨order, links⟩

def insert (p : LRU) (r : Ref) : Except PyError LRU := do
  let (order, links) ← orRaise .attributeError (p.order.pushFront p.links (.node r))
  return ⟨order, links⟩

def unlink (p : LRU) (r : Ref) : Except PyError LRU := do
  let (order, links) ← orRaise .attributeError (p.order.remove p.links (.node r))
  return ⟨order, links⟩

def touch (p : LRU) (r : Ref) : Except PyError LRU := do
  let p ← p.unlink r
  p.insert r

/-- `_order.back()`; a null link has no key, and a sentinel's key is in no map. -/
def victim (p : LRU) : Except PyError Ref := do
  let cell ← orRaise .attributeError (p.order.back p.links)
  orRaise .keyError cell.ref?

instance : CachePolicy LRU where
  new := new
  insert := insert
  touch := touch
  unlink := unlink
  victim p := do return (← p.victim, p)

/-- The nodes, most recent first: `keys_mru_to_lru` lists their keys. -/
def nodes (p : LRU) : List Ref := ((p.order.toList p.links).getD []).filterMap Cell.ref?

/-- The list holds the nodes `refs`, most recent first. -/
structure Lists (p : LRU) (refs : List Ref) : Prop where
  holds : p.order.Holds p.links (refs.map .node)
  head : p.order.head = .sentinel 0
  tail : p.order.tail = .sentinel 1

section

variable {p : LRU} {refs : List Ref} {r : Ref}

theorem Lists.nodes_eq (h : p.Lists refs) : p.nodes = refs := by
  rw [nodes, h.holds.toList, Option.getD_some, List.filterMap_map, ref?_node, List.filterMap_some]

theorem Lists.nodup (h : p.Lists refs) : refs.Nodup := h.holds.nodes_nodup.of_map

theorem new_lists : new.Lists [] := ⟨DList.new_holds (by decide) _, rfl, rfl⟩

theorem Lists.insert (h : p.Lists refs) (hr : r ∉ refs) :
    ∃ p', p.insert r = .ok p' ∧ p'.Lists (r :: refs) := by
  have hnew : Cell.node r ∉ refs.map Cell.node := by
    rw [List.mem_map_of_injective cell_node_injective]
    exact hr
  obtain ⟨order, links, hpush, hholds, hhead, htail, -⟩ :=
    h.holds.pushFront hnew (by rw [h.head]; exact Cell.noConfusion)
      (by rw [h.tail]; exact Cell.noConfusion)
  refine ⟨⟨order, links⟩, ?_, hholds, hhead.trans h.head, htail.trans h.tail⟩
  rw [LRU.insert, hpush]
  rfl

theorem Lists.unlink (h : p.Lists refs) (hr : r ∈ refs) :
    ∃ p', p.unlink r = .ok p' ∧ p'.Lists (refs.filter (· ≠ r)) := by
  obtain ⟨as, bs, rfl⟩ := List.append_of_mem hr
  have hnodup := List.nodup_middle.mp h.nodup
  obtain ⟨hnot, -⟩ := List.nodup_cons.mp hnodup
  have hfilter : (as ++ r :: bs).filter (· ≠ r) = as ++ bs := by
    rw [List.filter_append, List.filter_cons_of_neg (by simp)]
    congr 1
    · exact List.filter_eq_self.mpr fun a ha => by
        simpa using fun e : a = r => hnot (List.mem_append_left _ (e ▸ ha))
    · exact List.filter_eq_self.mpr fun a ha => by
        simpa using fun e : a = r => hnot (List.mem_append_right _ (e ▸ ha))
  have hholds := h.holds
  rw [List.map_append, List.map_cons] at hholds
  obtain ⟨order, links, hremove, hholds, hhead, htail, -⟩ := hholds.remove
  refine ⟨⟨order, links⟩, ?_, ?_, hhead.trans h.head, htail.trans h.tail⟩
  · rw [LRU.unlink, hremove]
    rfl
  · rw [hfilter, List.map_append]
    exact hholds

theorem Lists.touch (h : p.Lists refs) (hr : r ∈ refs) :
    ∃ p', p.touch r = .ok p' ∧ p'.Lists (r :: refs.filter (· ≠ r)) := by
  obtain ⟨p1, hunlink, h1⟩ := h.unlink hr
  obtain ⟨p2, hinsert, h2⟩ := h1.insert (r := r) (by simp)
  refine ⟨p2, ?_, h2⟩
  rw [LRU.touch, hunlink]
  exact hinsert

theorem Lists.victim (h : p.Lists refs) (hr : refs.getLast? = some r) : p.victim = .ok r := by
  rw [LRU.victim, h.holds.back, List.getLast?_map, hr]
  rfl

end

instance : LawfulCachePolicy LRU where
  nodes := nodes
  Ok p := p.Lists p.nodes
  new_ok := by
    have h : (CachePolicy.new : LRU).Lists [] := new_lists
    have hnodes := h.nodes_eq
    rw [hnodes]
    exact ⟨h, rfl⟩
  nodup h := h.nodup
  insert_ok {p r} h hr := by
    obtain ⟨p', hp', h'⟩ := h.insert hr
    refine ⟨p', hp', ?_, ?_⟩
    · rw [h'.nodes_eq]
      exact h'
    · rw [h'.nodes_eq]
  touch_ok {p r} h hr := by
    obtain ⟨p', hp', h'⟩ := h.touch hr
    refine ⟨p', hp', ?_, ?_⟩
    · rw [h'.nodes_eq]
      exact h'
    · rw [h'.nodes_eq]
      exact perm_cons_filter h.nodup hr
  unlink_ok {p r} h hr := by
    obtain ⟨p', hp', h'⟩ := h.unlink hr
    refine ⟨p', hp', ?_, h'.nodes_eq⟩
    rw [h'.nodes_eq]
    exact h'
  victim_ok {p} h hne := by
    obtain ⟨r, hr⟩ := Option.isSome_iff_exists.mp (List.getLast?_isSome.mpr hne)
    refine ⟨r, p, ?_, List.mem_of_getLast? hr, h, rfl⟩
    show (do return (← p.victim, p) : Except PyError (Ref × LRU)) = _
    rw [h.victim hr]
    rfl

end LRU

end InterviewPrep.LruCache
