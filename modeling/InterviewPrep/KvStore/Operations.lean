/-
  The public API of the store in kv_store.go, and one step of a run.

  Every operation gets the clock readings it takes.  The JSON codec is outside the model: a
  snapshot is its list of records, and `restore` is handed what the decoder returned.
-/
import InterviewPrep.KvStore.Store
import Mathlib.Algebra.Order.Floor.Ring
import Mathlib.Data.String.Basic

namespace InterviewPrep.KvStore

open Lib

structure Options (V : Type) where
  /-- default 1 -/
  shards : Int64 := 0
  /-- total capacity across shards; 0 = unbounded -/
  maxCost : Int64 := 0
  /-- default: 1 per entry -/
  cost : Option (String → V → Int64) := none
  /-- per-watcher channel buffer, default 64 -/
  watchBuffer : Int64 := 0

namespace Options

variable {V : Type}

def numShards (opts : Options V) : Int64 := if opts.shards ≤ 0 then 1 else opts.shards

def costFn (opts : Options V) : String → V → Int64 := opts.cost.getD fun _ _ => 1

def bufferSize (opts : Options V) : Int64 := if opts.watchBuffer ≤ 0 then 64 else opts.watchBuffer

/-- The capacity of one shard: `MaxCost` split evenly, rounded up. -/
def perShard (opts : Options V) : Int64 :=
  if opts.maxCost > 0 then (opts.maxCost + opts.numShards - 1) / opts.numShards else 0

end Options

structure Stats where
  hits : Int64
  misses : Int64
  evictions : Int64
  expirations : Int64
  droppedEvents : Int64
  items : Nat
  cost : Int64

structure SnapshotRecord (V : Type) where
  key : String
  value : V
  version : UInt64
  expiresAt : Option Time

/-- The errors of `Restore`: the decoder's, or a record that does not fit. -/
inductive RestoreError where
  | decode (message : String)
  | put (key : String) (err : StoreError)
deriving DecidableEq

/-- `NoTTL`. -/
def noTTL : Duration := -1

def deadline (now : Time) (ttl : Duration) : Time := if ttl ≤ 0 then 0 else now + ttl.toInt

/-- `Time.Sub`, which saturates. -/
def timeSub (t u : Time) : Duration :=
  if t - u > Int64.maxValue.toInt then Int64.maxValue
  else if t - u < Int64.minValue.toInt then Int64.minValue
  else Int64.ofInt (t - u)

namespace Store

variable {V P : Type} [EvictionPolicy P]

/-- `NewStore`; the policy is the type `P`, and `hash` the seeded `maphash.String`. -/
def new [Inhabited V] (opts : Options V) (hash : String → UInt64) : Store V P :=
  { shards := List.replicate opts.numShards.toInt.toNat
      { items := Dict.empty, policy := EvictionPolicy.new,
        expiry := { slots := [], mem := .init Entry.blank },
        cost := 0, maxCost := opts.perShard }
    hash, cost := opts.costFn, watchSz := opts.bufferSize.toInt.toNat, version := 0,
    watchers := Dict.empty, nextWatcher := 0, hits := 0, misses := 0, evictions := 0,
    expirations := 0, dropped := 0, log := [] }

/-- The index of `shardFor(key)`. -/
def shardIdx (s : Store V P) (key : String) : Nat := (s.hash key).toNat % s.shards.length

/-- Run `f` on the shard `i` with its lock held. -/
def withShardAt {α : Type} (s : Store V P) (i : Nat)
    (f : Store V P → Shard V P → Except GoPanic (α × Store V P × Shard V P)) :
    Except GoPanic (α × Store V P) :=
  match s.shards[i]? with
  | none => .error .indexOutOfRange
  | some sh => do
      let (a, s, sh) ← f s sh
      return (a, { s with shards := s.shards.set i sh })

def withShard {α : Type} (s : Store V P) (key : String)
    (f : Store V P → Shard V P → Except GoPanic (α × Store V P × Shard V P)) :
    Except GoPanic (α × Store V P) :=
  s.withShardAt (s.shardIdx key) f

/-- `s.version.Add(1)`, then `putLocked` under the new version. -/
def putNew (s : Store V P) (sh : Shard V P) (key : String) (v : V) (ttl : Duration) (now : Time) :
    Except GoPanic (Except StoreError UInt64 × Store V P × Shard V P) := do
  let ver := s.version + 1
  let s := { s with version := ver }
  let (r, s, sh) ← s.putLocked sh key v (deadline now ttl) ver now
  return (r.map fun _ => ver, s, sh)

def set (s : Store V P) (key : String) (v : V) (ttl : Duration) (now : Time) :
    Except GoPanic (Except StoreError UInt64 × Store V P) :=
  s.withShard key fun s sh => s.putNew sh key v ttl now

def getVersioned (s : Store V P) (key : String) (now : Time) :
    Except GoPanic (Option (V × UInt64) × Store V P) :=
  s.withShard key fun s sh => do
    let (e, s, sh) ← s.liveLocked sh key now
    match e with
    | none => return (none, { s with misses := s.misses + 1 }, sh)
    | some r =>
      let policy ← EvictionPolicy.onAccess sh.policy key
      return (some ((sh.entry r).value, (sh.entry r).version), { s with hits := s.hits + 1 },
        { sh with policy })

def get (s : Store V P) (key : String) (now : Time) : Except GoPanic (Option V × Store V P) := do
  let (v, s) ← s.getVersioned key now
  return (v.map Prod.fst, s)

def delete (s : Store V P) (key : String) (now : Time) : Except GoPanic (Bool × Store V P) :=
  s.withShard key fun s sh => do
    let (e, s, sh) ← s.liveLocked sh key now
    match e with
    | none => return (false, s, sh)
    | some r =>
      let e := sh.entry r
      let sh ← sh.removeLocked r
      return (true, s.publish { eventOf .delete e with key }, sh)

def compareAndSwap (s : Store V P) (key : String) (expected : UInt64) (v : V) (ttl : Duration)
    (now : Time) : Except GoPanic (Except StoreError UInt64 × Store V P) :=
  s.withShard key fun s sh => do
    let (e, s, sh) ← s.liveLocked sh key now
    match e with
    | none =>
      if expected ≠ 0 then return (.error .notFound, s, sh)
      else s.putNew sh key v ttl now
    | some r =>
      if expected = 0 ∨ (sh.entry r).version ≠ expected then
        return (.error .versionMismatch, s, sh)
      else
        s.putNew sh key v ttl now

def expire (s : Store V P) (key : String) (ttl : Duration) (now : Time) :
    Except GoPanic (Bool × Store V P) :=
  s.withShard key fun s sh => do
    let (e, s, sh) ← s.liveLocked sh key now
    match e with
    | none => return (false, s, sh)
    | some r =>
      if ttl ≤ 0 then
        let (s, sh) ← s.expireLocked sh r
        return (true, s, sh)
      else
        let sh ← (sh.setExpiresAt r (now + ttl.toInt)).reschedule r
        return (true, s, sh)

def persist (s : Store V P) (key : String) (now : Time) : Except GoPanic (Bool × Store V P) :=
  s.withShard key fun s sh => do
    let (e, s, sh) ← s.liveLocked sh key now
    match e with
    | none => return (false, s, sh)
    | some r =>
      let sh ← sh.unschedule r
      return (true, s, sh.setExpiresAt r 0)

def ttl (s : Store V P) (key : String) (now : Time) :
    Except GoPanic (Option Duration × Store V P) :=
  s.withShard key fun s sh => do
    let (e, s, sh) ← s.liveLocked sh key now
    match e with
    | none => return (none, s, sh)
    | some r =>
      if (sh.entry r).expiresAt = 0 then return (some noTTL, s, sh)
      else return (some (timeSub (sh.entry r).expiresAt now), s, sh)

/-- `Keys(prefix)`: the live keys with the prefix, sorted. -/
def keys (s : Store V P) (keyPrefix : String) (now : Time) : List String :=
  (s.shards.flatMap fun sh => sh.items.items.filterMap fun x =>
    if hasPrefix x.1 keyPrefix && !(sh.entry x.2).expired now then some x.1 else none).insertionSort
      (· ≤ ·)

/-- The loop of `DeleteExpired` over the shards from `i` on; `now j` is the clock for shard `j`. -/
def deleteExpiredLoop (now : Nat → Time) : Nat → Nat → Store V P → Nat →
    Except GoPanic (Nat × Store V P)
  | 0, _, s, n => .ok (n, s)
  | more + 1, i, s, n => do
      let (m, s) ← s.withShardAt i fun s sh => s.purgeExpiredLocked sh (now i)
      deleteExpiredLoop now more (i + 1) s (n + m)

def deleteExpired (s : Store V P) (now : Nat → Time) : Except GoPanic (Nat × Store V P) :=
  deleteExpiredLoop now s.shards.length 0 s 0

/-- `Watch`: the new watcher's number stands for its channel. -/
def watch (s : Store V P) (keyPrefix : String) : Nat × Store V P :=
  (s.nextWatcher, { s with
    watchers := s.watchers.set s.nextWatcher (.init keyPrefix s.watchSz)
    nextWatcher := s.nextWatcher + 1 })

/-- The watcher's context is cancelled: the store forgets it and closes the channel. -/
def cancelWatch (s : Store V P) (w : Nat) : Store V P :=
  { s with watchers := s.watchers.erase w }

/-- The consumer of a watcher takes the next event out of its channel, if there is one. -/
def receive (s : Store V P) (w : Nat) : Option (Event V) × Store V P :=
  match s.watchers.get? w with
  | none => (none, s)
  | some wt =>
    match wt.buffer with
    | [] => (none, s)
    | ev :: buffer =>
      (some ev, { s with
        watchers := s.watchers.set w { wt with buffer, received := wt.received ++ [ev] } })

def stats (s : Store V P) : Stats :=
  { hits := s.hits, misses := s.misses, evictions := s.evictions, expirations := s.expirations,
    droppedEvents := s.dropped,
    items := (s.shards.map fun sh => sh.items.size).sum,
    cost := s.shards.foldl (fun acc sh => acc + sh.cost) 0 }

/-! ## Snapshot and restore -/

def recordOf (e : Entry V) : SnapshotRecord V :=
  { key := e.key, value := e.value, version := e.version,
    expiresAt := if e.expiresAt = 0 then none else some e.expiresAt }

/-- `Snapshot`: the live entries, sorted by key. -/
def snapshot (s : Store V P) (now : Time) : List (SnapshotRecord V) :=
  (s.shards.flatMap fun sh => sh.items.values.filterMap fun r =>
    if (sh.entry r).expired now then none else some (recordOf (sh.entry r))).insertionSort
      fun a b => a.key ≤ b.key

/-- The record's deadline has passed at `now`. -/
def SnapshotRecord.expired (rec : SnapshotRecord V) (now : Time) : Bool :=
  match rec.expiresAt with
  | none => false
  | some t => !decide (now < t)

/-- A live entry whose version is not behind the record's is kept as it is. -/
def restoreLocked (s : Store V P) (sh : Shard V P) (rec : SnapshotRecord V) (now : Time) :
    Except GoPanic (Except StoreError Unit × Store V P × Shard V P) :=
  let keep := match sh.items.get? rec.key with
    | none => false
    | some r => !(sh.entry r).expired now && decide ((sh.entry r).version ≥ rec.version)
  if keep then .ok (.ok (), s, sh)
  else s.putLocked sh rec.key rec.value (rec.expiresAt.getD 0) rec.version now

/-- `Restore` of one record that has not expired. -/
def restoreRecord (s : Store V P) (rec : SnapshotRecord V) (now : Time) :
    Except GoPanic (Except StoreError Unit × Store V P) :=
  let s := { s with version := max s.version rec.version }
  s.withShard rec.key fun s sh => s.restoreLocked sh rec now

/-- The loop of `Restore`. -/
def restoreLoop (now : Time) : List (SnapshotRecord V) → Store V P →
    Except GoPanic (Except RestoreError Unit × Store V P)
  | [], s => .ok (.ok (), s)
  | rec :: recs, s =>
    if SnapshotRecord.expired rec now then restoreLoop now recs s
    else do
      let (r, s) ← s.restoreRecord rec now
      match r with
      | .error err => return (.error (.put rec.key err), s)
      | .ok () => restoreLoop now recs s

/-- `Restore` of what the decoder made of the input. -/
def restore (s : Store V P) (decoded : Except String (List (SnapshotRecord V))) (now : Time) :
    Except GoPanic (Except RestoreError Unit × Store V P) :=
  match decoded with
  | .error message => .ok (.error (.decode message), s)
  | .ok recs => restoreLoop now recs s

/-! ## Runs -/

end Store

/-- An operation with its arguments and clock readings. -/
inductive Op (V : Type) where
  | set (key : String) (v : V) (ttl : Duration) (now : Time)
  | get (key : String) (now : Time)
  | getVersioned (key : String) (now : Time)
  | delete (key : String) (now : Time)
  | compareAndSwap (key : String) (expected : UInt64) (v : V) (ttl : Duration) (now : Time)
  | expire (key : String) (ttl : Duration) (now : Time)
  | persist (key : String) (now : Time)
  | ttl (key : String) (now : Time)
  | keys (keyPrefix : String) (now : Time)
  | deleteExpired (now : Nat → Time)
  | watch (keyPrefix : String)
  | cancelWatch (w : Nat)
  | receive (w : Nat)
  | stats
  | snapshot (now : Time)
  | restore (decoded : Except String (List (SnapshotRecord V))) (now : Time)

/-- What an operation returns. -/
inductive Reply (V : Type) where
  | version (r : Except StoreError UInt64)
  | value (v : Option V)
  | versioned (v : Option (V × UInt64))
  | done (b : Bool)
  | remaining (ttl : Option Duration)
  | keys (ks : List String)
  | removed (n : Nat)
  | watching (w : Nat)
  | closed
  | event (ev : Option (Event V))
  | stats (st : Stats)
  | snapshot (recs : List (SnapshotRecord V))
  | restored (r : Except RestoreError Unit)

namespace Store

variable {V P : Type} [EvictionPolicy P]

/-- The operation `op` on the store. -/
def step (s : Store V P) (op : Op V) : Except GoPanic (Reply V × Store V P) :=
  match op with
  | .set key v ttl now => do let (r, s) ← s.set key v ttl now; return (.version r, s)
  | .get key now => do let (v, s) ← s.get key now; return (.value v, s)
  | .getVersioned key now => do let (v, s) ← s.getVersioned key now; return (.versioned v, s)
  | .delete key now => do let (b, s) ← s.delete key now; return (.done b, s)
  | .compareAndSwap key expected v ttl now => do
      let (r, s) ← s.compareAndSwap key expected v ttl now
      return (.version r, s)
  | .expire key ttl now => do let (b, s) ← s.expire key ttl now; return (.done b, s)
  | .persist key now => do let (b, s) ← s.persist key now; return (.done b, s)
  | .ttl key now => do let (d, s) ← s.ttl key now; return (.remaining d, s)
  | .keys keyPrefix now => .ok (.keys (s.keys keyPrefix now), s)
  | .deleteExpired now => do let (n, s) ← s.deleteExpired now; return (.removed n, s)
  | .watch keyPrefix => let (w, s) := s.watch keyPrefix; .ok (.watching w, s)
  | .cancelWatch w => .ok (.closed, s.cancelWatch w)
  | .receive w => let (ev, s) := s.receive w; .ok (.event ev, s)
  | .stats => .ok (.stats s.stats, s)
  | .snapshot now => .ok (.snapshot (s.snapshot now), s)
  | .restore decoded now => do let (r, s) ← s.restore decoded now; return (.restored r, s)

end Store

end InterviewPrep.KvStore
