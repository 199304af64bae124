/-
  `entry` and `expiryHeap` of kv_store.go.  An entry is an object that the shard's map and its
  expiry heap both point to, so the heap is the slice of references together with the memory they
  point into.  A swap moves two references and records their new positions in the entries
  (`heapIdx`).

  Times are nanoseconds from the zero `time.Time`, and durations the int64 of `time.Duration`.

  The store: shards, the watchers, and what the operations do to a shard while they hold its lock.
  The locked functions take the store (for its counters and watchers) and the locked shard, and
  `withShard` puts the shard back when the lock is released.  The clock is read by the caller of
  an operation, and the hash of a key is a parameter: `maphash` draws its seed at random.

  Costs and `MaxCost` are int64 and versions are uint64, with Go's wrap-around.
-/
import InterviewPrep.KvStore.Policy
import InterviewPrep.Lib.Heaps
import Mathlib.Algebra.Order.Group.Int

namespace InterviewPrep.KvStore

open Lib BinaryHeap List Memory

/-- `time.Time`; 0 is the zero time. -/
abbrev Time := Int

/-- `time.Duration`. -/
abbrev Duration := Int64

structure Entry (V : Type) where
  key : String
  value : V
  version : UInt64
  /-- zero = never expires -/
  expiresAt : Time
  cost : Int64
  /-- position in the shard's expiry heap, -1 if not in it -/
  heapIdx : Int

namespace Entry

variable {V : Type}

/-- The entry no container holds. -/
def blank [Inhabited V] : Entry V :=
  { key := "", value := default, version := 0, expiresAt := 0, cost := 0, heapIdx := -1 }

def expired (e : Entry V) (now : Time) : Bool := e.expiresAt ≠ 0 ∧ e.expiresAt ≤ now

/-- Everything but the back-pointer. -/
def strip (e : Entry V) : Entry V := { e with heapIdx := 0 }

end Entry

/-- The heap compares deadlines, and a swap writes the positions into the entries. -/
def Entry.references (V : Type) : References (Memory (Entry V)) Ref where
  less mem a b := (mem.read a).expiresAt < (mem.read b).expiresAt
  idx mem r := (mem.read r).heapIdx
  setIdx mem r i := mem.write r { mem.read r with heapIdx := i }

/-- The expiry heap: its slice, and the entries. -/
abbrev ExpiryHeap (V : Type) := IndexedHeap (Entry.references V)

namespace ExpiryHeap

variable {V : Type} {h : ExpiryHeap V} {P : Ref → Prop} {mem mem' : Memory (Entry V)} {r : Ref}

theorem read_setIdx (mem : Memory (Entry V)) (r a : Ref) (i : Int) :
    ((Entry.references V).setIdx mem r i).read a =
      if a = r then { mem.read r with heapIdx := i } else mem.read a := rfl

theorem strip_setIdx (mem : Memory (Entry V)) (r a : Ref) (i : Int) :
    (((Entry.references V).setIdx mem r i).read a).strip = (mem.read a).strip := by
  rw [read_setIdx]
  split
  next h => rw [h]; rfl
  next => rfl

theorem lawful : (Entry.references V).Lawful fun mem r => (mem.read r).expiresAt where
  less_iff _ _ _ := decide_eq_true_iff
  key_setIdx mem r i a := by
    have h := congrArg Entry.expiresAt (strip_setIdx mem r a i)
    exact h
  idx_setIdx mem r i a := by
    show Entry.heapIdx (Memory.read _ a) = _
    rw [read_setIdx]
    split <;> rfl

theorem entries (h : (Entry.references V).Written P mem mem') :
    mem'.next = mem.next ∧ (∀ r, (mem'.read r).strip = (mem.read r).strip) ∧
      ∀ r, ¬ P r → mem'.read r = mem.read r := by
  induction h with
  | refl => exact ⟨rfl, fun _ => rfl, fun _ _ => rfl⟩
  | setIdx i _ hr ih =>
    obtain ⟨hnext, hstrip, hframe⟩ := ih
    refine ⟨hnext, fun a => (strip_setIdx ..).trans (hstrip a), fun a ha => ?_⟩
    rw [read_setIdx, if_neg, hframe a ha]
    rintro rfl
    exact ha hr

theorem withMem (hv : h.Valid) (hmem : ∀ r ∈ h.slots, mem.read r = h.mem.read r) :
    (⟨h.slots, mem⟩ : ExpiryHeap V).Valid := by
  refine hv.congr (fun a ha b hb => ?_) fun r hr => congrArg Entry.heapIdx (hmem r hr)
  show decide _ = decide _
  rw [hmem a ha, hmem b hb]

end ExpiryHeap

/-! ## Events and watchers -/

inductive EventType where
  | set
  | delete
  | expire
  | evict
deriving DecidableEq

structure Event (V : Type) where
  type : EventType
  key : String
  /-- the new value for `set`, the last value otherwise -/
  value : V
  version : UInt64

/-- `strings.HasPrefix`. -/
def hasPrefix (key keyPrefix : String) : Bool := keyPrefix.toList.isPrefixOf key.toList

/-- A watcher and its channel, with what the consumer has taken out of it, and the sends refused. -/
structure Watcher (V : Type) where
  keyPrefix : String
  capacity : Nat
  buffer : List (Event V)
  received : List (Event V)
  refused : Nat

namespace Watcher

variable {V : Type}

def init (keyPrefix : String) (capacity : Nat) : Watcher V := ⟨keyPrefix, capacity, [], [], 0⟩

/-- The event does not fit: the watcher wants it and its buffer is full. -/
def refuses (w : Watcher V) (ev : Event V) : Bool :=
  hasPrefix ev.key w.keyPrefix && decide (w.capacity ≤ w.buffer.length)

/-- The non-blocking send of `publish`. -/
def offer (w : Watcher V) (ev : Event V) : Watcher V :=
  if hasPrefix ev.key w.keyPrefix then
    if w.capacity ≤ w.buffer.length then { w with refused := w.refused + 1 }
    else { w with buffer := w.buffer ++ [ev] }
  else
    w

/-- Every event the channel accepted, oldest first. -/
def stream (w : Watcher V) : List (Event V) := w.received ++ w.buffer

end Watcher

/-! ## Shards and the store -/

structure Shard (V P : Type) where
  items : Dict String Ref
  policy : P
  /-- the expiry heap, with the memory that holds the shard's entries -/
  expiry : ExpiryHeap V
  cost : Int64
  /-- 0 = unbounded -/
  maxCost : Int64

structure Store (V P : Type) where
  shards : List (Shard V P)
  hash : String → UInt64
  cost : String → V → Int64
  watchSz : Nat
  /-- the store-wide revision -/
  version : UInt64
  watchers : Dict Nat (Watcher V)
  nextWatcher : Nat
  hits : Int64
  misses : Int64
  evictions : Int64
  expirations : Int64
  dropped : Int64
  /-- every event published so far; the code keeps no such list -/
  log : List (Event V)

inductive StoreError where
  | notFound
  | versionMismatch
  | tooLarge
deriving DecidableEq

namespace Shard

variable {V P : Type}

def entry (sh : Shard V P) (r : Ref) : Entry V := sh.expiry.mem.read r

/-- `heap.Remove(&sh.expiry, i)` for a recorded position. -/
def heapRemove (sh : Shard V P) (i : Int) : Except GoPanic (Shard V P) :=
  if i.toNat < sh.expiry.slots.length then
    .ok { sh with expiry := sh.expiry.remove i.toNat }
  else
    .error .indexOutOfRange

/-- `heap.Fix(&sh.expiry, i)` for a recorded position. -/
def heapFix (sh : Shard V P) (i : Int) : Except GoPanic (Shard V P) :=
  if i.toNat < sh.expiry.slots.length then
    .ok { sh with expiry := sh.expiry.fix i.toNat }
  else
    .error .indexOutOfRange

def setExpiresAt (sh : Shard V P) (r : Ref) (t : Time) : Shard V P :=
  { sh with expiry := { sh.expiry with
      mem := sh.expiry.mem.write r { sh.entry r with expiresAt := t } } }

/-- `Expire` has changed the deadline: the entry moves in the heap, or joins it. -/
def reschedule (sh : Shard V P) (r : Ref) : Except GoPanic (Shard V P) :=
  let heapIdx := (sh.entry r).heapIdx
  if heapIdx ≥ 0 then sh.heapFix heapIdx else .ok { sh with expiry := sh.expiry.push r }

/-- `Persist` takes the entry off the heap, if it is there. -/
def unschedule (sh : Shard V P) (r : Ref) : Except GoPanic (Shard V P) :=
  let heapIdx := (sh.entry r).heapIdx
  if heapIdx ≥ 0 then sh.heapRemove heapIdx else .ok sh

variable [EvictionPolicy P]

def removeLocked (sh : Shard V P) (r : Ref) : Except GoPanic (Shard V P) := do
  let e := sh.entry r
  let policy ← EvictionPolicy.onRemove sh.policy e.key
  let sh := { sh with items := sh.items.erase e.key, cost := sh.cost - e.cost, policy }
  if e.heapIdx ≥ 0 then sh.heapRemove e.heapIdx else return sh

end Shard

namespace Store

variable {V P : Type}

def publish (s : Store V P) (ev : Event V) : Store V P :=
  { s with
    watchers := s.watchers.mapValues (Watcher.offer · ev)
    dropped := s.dropped +
      Int64.ofNat (s.watchers.values.filter (Watcher.refuses · ev)).length
    log := s.log ++ [ev] }

/-- The event of type `type` about the entry `e`. -/
def eventOf (type : EventType) (e : Entry V) : Event V :=
  { type, key := e.key, value := e.value, version := e.version }

variable [EvictionPolicy P]

def expireLocked (s : Store V P) (sh : Shard V P) (r : Ref) :
    Except GoPanic (Store V P × Shard V P) := do
  let e := sh.entry r
  let sh ← sh.removeLocked r
  return ({ s with expirations := s.expirations + 1 }.publish (eventOf .expire e), sh)

/-- The live entry of `key`; an expired one is removed. -/
def liveLocked (s : Store V P) (sh : Shard V P) (key : String) (now : Time) :
    Except GoPanic (Option Ref × Store V P × Shard V P) :=
  match sh.items.get? key with
  | none => .ok (none, s, sh)
  | some r =>
    if (sh.entry r).expired now then do
      let (s, sh) ← s.expireLocked sh r
      return (none, s, sh)
    else
      .ok (some r, s, sh)

/-- The loop of `purgeExpiredLocked`; the heap gets shorter with every entry. -/
def purgeLoop (now : Time) : Nat → Store V P → Shard V P → Nat →
    Except GoPanic (Nat × Store V P × Shard V P)
  | fuel, s, sh, n =>
    match sh.expiry.slots with
    | [] => .ok (n, s, sh)
    | r :: _ =>
      if (sh.entry r).expired now then
        match fuel with
        | 0 => .error .diverges
        | fuel + 1 => do
            let (s, sh) ← s.expireLocked sh r
            purgeLoop now fuel s sh (n + 1)
      else
        .ok (n, s, sh)

def purgeExpiredLocked (s : Store V P) (sh : Shard V P) (now : Time) :
    Except GoPanic (Nat × Store V P × Shard V P) :=
  purgeLoop now sh.expiry.slots.length s sh 0

/-- Whether a write of `cost` does not fit into the shard as it is. -/
def overfull (sh : Shard V P) (cost : Int64) : Bool := sh.maxCost > 0 && sh.cost + cost > sh.maxCost

/-- The eviction loop of `putLocked`; every round removes an item. -/
def evictLoop (cost : Int64) : Nat → Store V P → Shard V P →
    Except GoPanic (Store V P × Shard V P)
  | fuel, s, sh =>
    if overfull sh cost then
      match fuel with
      | 0 => .error .diverges
      | fuel + 1 => do
          let (victim, policy) ← EvictionPolicy.victim sh.policy
          let sh := { sh with policy }
          match victim with
          | none => return (s, sh)
          | some key =>
            match sh.items.get? key with
            | none => .error .nilDeref
            | some r =>
              let e := sh.entry r
              let sh ← sh.removeLocked r
              evictLoop cost fuel
                ({ s with evictions := s.evictions + 1 }.publish (eventOf .evict e)) sh
    else
      .ok (s, sh)

/-- The new entry is inserted: it joins the map, the heap if it has a deadline, and the policy. -/
def insertLocked (s : Store V P) (sh : Shard V P) (key : String) (v : V) (expiresAt : Time)
    (version : UInt64) (cost : Int64) : Except GoPanic (Store V P × Shard V P) := do
  let e : Entry V := { key, value := v, version, expiresAt, cost, heapIdx := -1 }
  let (r, mem) := sh.expiry.mem.alloc e
  let expiry : ExpiryHeap V := { sh.expiry with mem }
  let policy ← EvictionPolicy.onInsert sh.policy key
  let sh := { sh with
    expiry := if expiresAt ≠ 0 then expiry.push r else expiry
    items := sh.items.set key r
    cost := sh.cost + cost
    policy }
  return (s.publish (eventOf .set e), sh)

/-- A replace removes the old entry of the key first. -/
def removeOld (sh : Shard V P) (key : String) : Except GoPanic (Shard V P) :=
  match sh.items.get? key with
  | some old => sh.removeLocked old
  | none => .ok sh

/-- Dead entries are reclaimed before live ones are evicted. -/
def reclaimDead (s : Store V P) (sh : Shard V P) (cost : Int64) (now : Time) :
    Except GoPanic (Store V P × Shard V P) :=
  if overfull sh cost then do
    let (_, s, sh) ← s.purgeExpiredLocked sh now
    return (s, sh)
  else
    .ok (s, sh)

def putLocked (s : Store V P) (sh : Shard V P) (key : String) (v : V) (expiresAt : Time)
    (version : UInt64) (now : Time) :
    Except GoPanic (Except StoreError Unit × Store V P × Shard V P) :=
  let cost := s.cost key v
  if sh.maxCost > 0 ∧ cost > sh.maxCost then
    .ok (.error .tooLarge, s, sh)
  else do
    let sh ← removeOld sh key
    let (s, sh) ← s.reclaimDead sh cost now
    let (s, sh) ← evictLoop cost (sh.items.size + 1) s sh
    let (s, sh) ← s.insertLocked sh key v expiresAt version cost
    return (.ok (), s, sh)

end Store

end InterviewPrep.KvStore
