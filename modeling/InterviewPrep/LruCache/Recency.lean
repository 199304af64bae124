/-
  What an LRU cache with time-to-live is: a list of entries, most recent first.  `LRUCache`
  refines it (`run_recency`): every method returns what the list says and leaves the entries the
  list has, in its order.

  `ThreadSafeCache` (lru_cache.py): one mutex around a cache, and `get_or_load` with
  single-flight, as a machine whose steps are the sections between lock boundaries.  A call of
  `get_or_load` looks the key up under the lock (`lookUp`) and returns, or waits for a flight
  (`wake`), or leads one: it runs its loader (`load`), stores the result under the lock
  (`cleanUp`) and announces it (`announce`).  What a loader returns or raises is part of the step
  that models it; its own calls of the cache are calls like any other.
-/
import InterviewPrep.Lib.Run
import InterviewPrep.LruCache.Operations

namespace InterviewPrep.LruCache

open Lib List Memory Option

/-! ## Calls -/

/-- A call, with the readings of the clock it takes. -/
inductive Op (K V T : Type) where
  | get (key : K) (now : T)
  | put (key : K) (value : V) (ttl : Option T) (now later : T)
  | delete (key : K)
  | purgeExpired (now : T)
  | contains (key : K) (now : T)

/-- What a call returns; `value none` is the caller's default. -/
inductive Reply (V : Type) where
  | value (v : Option V)
  | done
  | raised (e : PyError)
  | held (b : Bool)
  | count (n : Nat)

namespace BaseCache

variable {K V T P : Type} [DecidableEq K] [LinearOrder T] [Zero T] [Add T] [CachePolicy P]

/-- One call. A `ValueError` reaches the caller; another exception would be a fault of the cache. -/
def step (c : BaseCache K V T P) : Op K V T → Except PyError (Reply V × BaseCache K V T P)
  | .get key now => do
      let (v, c) ← c.get key now
      return (.value v, c)
  | .put key value ttl now later =>
    match c.put key value ttl now later with
    | .ok c' => .ok (.done, c')
    | .error (.valueError message) => .ok (.raised (.valueError message), c)
    | .error e => .error e
  | .delete key => do
      let (b, c) ← c.delete key
      return (.held b, c)
  | .purgeExpired now => do
      let (n, c) ← c.purgeExpired now
      return (.count n, c)
  | .contains key now => do
      return (.held (← c.contains key now), c)

theorem WF.step [LawfulCachePolicy P] {c : BaseCache K V T P} (h : c.WF) (op : Op K V T) :
    ∃ reply c', c.step op = .ok (reply, c') ∧ c'.WF := by
  cases op with
  | get key now =>
    obtain ⟨c', hget, hwf⟩ := get_spec h key now
    exact ⟨_, c', by simp only [BaseCache.step, hget]; rfl, hwf⟩
  | put key value ttl now later =>
    by_cases httl : ∃ t ∈ ttl, t ≤ 0
    · exact ⟨.raised _, c, by simp only [BaseCache.step, put_invalid httl]; rfl, h⟩
    · obtain ⟨c', hput, hwf⟩ := put_spec h key value httl now later
      exact ⟨.done, c', by simp only [BaseCache.step, hput], hwf⟩
  | delete key =>
    obtain ⟨b, c', hdelete, hwf⟩ := delete_spec h key
    exact ⟨_, c', by simp only [BaseCache.step, hdelete]; rfl, hwf⟩
  | purgeExpired now =>
    obtain ⟨n, c', hpurge, hwf, -⟩ := purgeExpired_spec h now
    exact ⟨_, c', by simp only [BaseCache.step, hpurge]; rfl, hwf⟩
  | contains =>
    exact ⟨_, c, by simp only [BaseCache.step, contains_spec h]; rfl, h⟩

end BaseCache

/-! ## The list model -/

/-- The entries held, expired or not, most recent first. -/
abbrev Recency (K V T : Type) : Type := List (Node K V T)

namespace Recency

variable {K V T : Type} [DecidableEq K] [LinearOrder T] [Zero T] [Add T]

def without (l : Recency K V T) (key : K) : Recency K V T := l.filter fun n => n.key ≠ key

def unexpired (l : Recency K V T) (now : T) : Recency K V T := l.filter fun n => !n.isExpired now

def find (l : Recency K V T) (key : K) : Option (Node K V T) := l.find? fun n => n.key = key

/-- A live entry moves to the front; an expired one is a miss and is dropped. -/
def get (l : Recency K V T) (key : K) (now : T) : Option V × Recency K V T :=
  match l.find key with
  | none => (none, l)
  | some n =>
    if n.isExpired now then (none, l.without key) else (some n.value, n :: l.without key)

/-- A new or overwritten entry goes to the front. A new one in a full cache first drops all expired
    entries, or if there is none the last entry. -/
def put (capacity : Int) (l : Recency K V T) (n : Node K V T) (later : T) : Recency K V T :=
  let rest := l.without n.key
  if rest.length < capacity then n :: rest
  else if (rest.unexpired later).length < rest.length then n :: rest.unexpired later
  else n :: rest.dropLast

def step (config : Config T) (l : Recency K V T) : Op K V T → Except Empty (Reply V × Recency K V T)
  | .get key now => .ok (.value (l.get key now).1, (l.get key now).2)
  | .put key value ttl now later =>
    if ∃ t ∈ ttl, t ≤ 0 then .ok (.raised (.valueError "ttl must be positive"), l)
    else .ok (.done, l.put config.capacity
      ⟨key, value, (ttl.or config.defaultTtl).map (now + ·)⟩ later)
  | .delete key => .ok (.held (l.find key).isSome, l.without key)
  | .purgeExpired now => .ok (.count (l.length - (l.unexpired now).length), l.unexpired now)
  | .contains key now => .ok (.held ((l.find key).any fun n => !n.isExpired now), l)

omit [Zero T] [Add T] in
theorem put_evicts {capacity : Int} {l : Recency K V T} {n m m' : Node K V T} {later : T}
    (hcap : l.length ≤ capacity) (hm : m ∈ l) (hkey : m.key ≠ n.key)
    (hout : m ∉ l.put capacity n later) (hlive : m.isExpired later = false) (hm' : m' ∈ l) :
    m'.isExpired later = false := by
  have hrest : m ∈ l.without n.key := mem_filter.mpr ⟨hm, decide_eq_true hkey⟩
  rw [put] at hout
  split at hout
  · exact absurd (mem_cons_of_mem _ hrest) hout
  · next =>
      split at hout
      · refine absurd (mem_cons_of_mem _ (mem_filter.mpr ⟨hrest, ?_⟩)) hout
        rw [hlive, Bool.not_false]
      · next hnone =>
          have hsame : l.without n.key = l := by
            refine filter_sublist.eq_of_length_le ?_
            have hlen : (l.length : Int) ≤ (l.without n.key).length := by omega
            exact_mod_cast hlen
          rw [hsame] at hnone
          have hall : l.unexpired later = l :=
            filter_sublist.eq_of_length_le (not_lt.mp hnone)
          rw [← hall] at hm'
          simpa using (mem_filter.mp hm').2

end Recency

/-! ## The entries of an LRU cache -/

namespace LRUCache

open BaseCache

variable {K V T : Type} [DecidableEq K] [LinearOrder T] [Zero T] {c c' : BaseCache K V T LRU}
  {r : Ref}

/-- The nodes of the order list, front first. -/
def entries (c : BaseCache K V T LRU) : Recency K V T := c.policy.nodes.filterMap c.nodes.read

theorem mem_entries (h : c.WF) {n : Node K V T} : n ∈ entries c ↔ c.held? n.key = some n := by
  rw [entries, mem_filterMap]
  constructor
  · rintro ⟨r, hr, hn⟩
    obtain ⟨k, hk⟩ := h.core.mem_refs.mp hr
    obtain ⟨n', hn', rfl⟩ := h.core.node k r hk
    rw [hn] at hn'
    cases hn'
    rw [held?, hk, bind_some, hn]
  · intro hn
    obtain ⟨r, hk, hr⟩ := bind_eq_some_iff.mp hn
    exact ⟨r, h.core.mem_refs.mpr ⟨_, hk⟩, hr⟩

theorem key_of_held (h : c.WF) {k : K} {n : Node K V T} (hn : c.held? k = some n) : n.key = k := by
  obtain ⟨r, hk, hr⟩ := bind_eq_some_iff.mp hn
  obtain ⟨n', hn', rfl⟩ := h.core.node k r hk
  rw [hr] at hn'
  cases hn'
  rfl

theorem find_entries (h : c.WF) (key : K) : (entries c).find key = c.held? key := by
  cases hf : (entries c).find key with
  | none =>
    cases hn : c.held? key with
    | none => rfl
    | some n =>
      have hkey := key_of_held h hn
      have hmem : n ∈ entries c := (mem_entries h).mpr (hkey ▸ hn)
      exact absurd (decide_eq_true hkey) (find?_eq_none.mp hf n hmem)
  | some n =>
    have hkey : n.key = key := by
      rw [Recency.find] at hf
      simpa using find?_some hf
    exact (hkey ▸ (mem_entries h).mp (mem_of_find?_eq_some hf)).symm

theorem length_entries (h : c.WF) : (entries c).length = c.map.size := by
  have hall : (entries c).length = c.policy.nodes.length := by
    rw [entries, filterMap_length_eq_length]
    intro r hr
    obtain ⟨k, hk⟩ := h.core.mem_refs.mp hr
    obtain ⟨n, hn, -⟩ := h.core.node k r hk
    rw [hn]
    rfl
  rw [hall]
  exact h.core.length_refs

theorem entries_keeps {q : Node K V T → Bool} (hk : Keeps q c c') :
    entries c' = (entries c).filter q := by
  have hrefs : c'.policy.nodes = c.policy.nodes.filter fun r => (c.nodes.read r).any q := hk.refs
  rw [entries, entries, hrefs, hk.nodes, filterMap_filter, filter_filterMap]
  refine filterMap_congr fun r _ => ?_
  cases c.nodes.read r with
  | none => rfl
  | some => rfl

theorem entries_others (h : c.WF) {key : K} (hk : c.map.get? key = some r)
    (read : Ref → Option (Node K V T)) (hread : ∀ r', r' ≠ r → read r' = c.nodes.read r') :
    (c.policy.nodes.filter (· ≠ r)).filterMap read = (entries c).without key := by
  rw [entries, Recency.without, filterMap_filter, filter_filterMap]
  refine filterMap_congr fun r' hr' => ?_
  obtain ⟨k, hk'⟩ := h.core.mem_refs.mp hr'
  obtain ⟨n, hn, rfl⟩ := h.core.node k r' hk'
  by_cases heq : r' = r
  · subst heq
    have hkey := h.core.key_inj hk' hk
    simp [hn, filter_some, hkey]
  · have hkey : n.key ≠ key := by
      rintro rfl
      rw [hk] at hk'
      exact heq (some.inj hk').symm
    simp [hread r' heq, hn, filter_some, hkey, heq]

theorem lists (h : c.WF) : c.policy.Lists c.policy.nodes := h.core.ok

theorem touch_nodes (h : c.WF) (hr : r ∈ c.policy.nodes) {p : LRU}
    (htouch : CachePolicy.touch c.policy r = .ok p) :
    p.nodes = r :: c.policy.nodes.filter (· ≠ r) := by
  obtain ⟨p', hp', hlists⟩ := (lists h).touch hr
  rw [show CachePolicy.touch c.policy r = c.policy.touch r from rfl, hp'] at htouch
  cases htouch
  exact hlists.nodes_eq

theorem insert_nodes (h : c.WF) (hr : r ∉ c.policy.nodes) {p : LRU}
    (hinsert : CachePolicy.insert c.policy r = .ok p) : p.nodes = r :: c.policy.nodes := by
  obtain ⟨p', hp', hlists⟩ := (lists h).insert hr
  rw [show CachePolicy.insert c.policy r = c.policy.insert r from rfl, hp'] at hinsert
  cases hinsert
  exact hlists.nodes_eq

/-! ## Each call -/

/-- The reply and the entries are what the list model says. -/
def Refines (c : BaseCache K V T LRU) (reply : Reply V) (l : Recency K V T)
    (x : Except PyError (Reply V × BaseCache K V T LRU)) : Prop :=
  ∃ c', x = .ok (reply, c') ∧ c'.WF ∧ c'.config = c.config ∧ entries c' = l

theorem not_held (h : c.WF) {key : K} (hk : c.held? key = none) : c.map.get? key = none := by
  cases hm : c.map.get? key with
  | none => rfl
  | some =>
    obtain ⟨n, -, -, -, hn⟩ := h.held hm
    rw [hk] at hn
    cases hn

theorem get_refines [Add T] (h : c.WF) (key : K) (now : T) :
    Refines c (.value ((entries c).get key now).1) ((entries c).get key now).2
      (c.step (.get key now)) := by
  rw [Recency.get, find_entries h]
  cases hn : c.held? key with
  | none =>
    refine ⟨{ c with stats := { c.stats with misses := c.stats.misses + 1 } }, ?_,
      h.withStats _, rfl, rfl⟩
    simp only [BaseCache.step, get_miss (not_held h hn), bind, Except.bind]
    rfl
  | some n =>
  dsimp only
  cases hexp : n.isExpired now with
  | true =>
    obtain ⟨c', hget, hwf, hkeep, -⟩ := get_expired h hn hexp
    rw [if_pos rfl]
    refine ⟨c', ?_, hwf, hkeep.config, entries_keeps hkeep⟩
    simp only [BaseCache.step, hget, bind, Except.bind]
    rfl
  | false =>
    obtain ⟨r, hk, hr⟩ := bind_eq_some_iff.mp hn
    obtain ⟨p, c', htouch, hget, rfl, hwf⟩ := get_hit h hk hn hexp
    rw [if_neg Bool.false_ne_true]
    refine ⟨_, ?_, hwf, rfl, ?_⟩
    · simp only [BaseCache.step, hget, bind, Except.bind]
      rfl
    · have hnodes := touch_nodes h (h.core.mem_refs.mpr ⟨key, hk⟩) htouch
      show p.nodes.filterMap c.nodes.read = _
      rw [hnodes, filterMap_cons_some hr, entries_others h hk c.nodes.read fun _ _ => rfl]

theorem delete_refines [Add T] (h : c.WF) (key : K) :
    Refines c (.held ((entries c).find key).isSome) ((entries c).without key)
      (c.step (.delete key)) := by
  rw [find_entries h]
  cases hk : c.map.get? key with
  | none =>
    have hn : c.held? key = none := by rw [held?, hk, bind_none]
    refine ⟨c, ?_, h, rfl, ?_⟩
    · simp only [BaseCache.step, delete_miss hk, bind, Except.bind, hn]
      rfl
    · rw [Recency.without, eq_comm, filter_eq_self]
      intro n hmem
      rw [decide_eq_true_eq]
      rintro rfl
      rw [(mem_entries h).mp hmem] at hn
      cases hn
  | some =>
    obtain ⟨n, -, -, -, hn⟩ := h.held hk
    obtain ⟨c', hdelete, hwf, hkeep⟩ := delete_held h hk
    refine ⟨c', ?_, hwf, hkeep.config, entries_keeps hkeep⟩
    simp only [BaseCache.step, hdelete, bind, Except.bind, hn]
    rfl

theorem purgeExpired_refines [Add T] (h : c.WF) (now : T) :
    Refines c (.count ((entries c).length - ((entries c).unexpired now).length))
      ((entries c).unexpired now) (c.step (.purgeExpired now)) := by
  obtain ⟨n, c', hpurge, hwf, hkeep, hsize, -⟩ := purgeExpired_spec h now
  have hentries := entries_keeps hkeep
  have hcount : (entries c).length - ((entries c).unexpired now).length = n := by
    rw [Recency.unexpired, ← hentries, length_entries h, length_entries hwf]
    omega
  refine ⟨c', ?_, hwf, hkeep.config, hentries⟩
  rw [hcount]
  simp only [BaseCache.step, hpurge, bind, Except.bind]
  rfl

theorem contains_refines [Add T] (h : c.WF) (key : K) (now : T) :
    Refines c (.held (((entries c).find key).any fun n => !n.isExpired now)) (entries c)
      (c.step (.contains key now)) := by
  refine ⟨c, ?_, h, rfl, rfl⟩
  rw [find_entries h]
  simp only [BaseCache.step, contains_spec h, bind, Except.bind, live?, isSome_map,
    isSome_filter]
  rfl

theorem makeRoom_entries (h : c.WF) (hfull : c.config.capacity ≤ c.map.size) (later : T) :
    ∃ c1, c.makeRoom later = .ok c1 ∧ c1.WF ∧ c1.config = c.config ∧ c1.nodes = c.nodes ∧
      c1.map.size < c.map.size ∧ (∀ k r, c1.map.get? k = some r → c.map.get? k = some r) ∧
      entries c1 = if ((entries c).unexpired later).length < (entries c).length
        then (entries c).unexpired later else (entries c).dropLast := by
  obtain ⟨n, c1, c', -, hwf1, hkeep, hsize, hroom, hwf, hconfig, hnodes, hless, hsub, hpurged,
    hevicted⟩ := makeRoom_spec h hfull later
  refine ⟨c', hroom, hwf, hconfig, hnodes, hless, hsub, ?_⟩
  have hentries : entries c1 = (entries c).unexpired later := entries_keeps hkeep
  rw [← hentries, length_entries h, length_entries hwf1]
  by_cases hn : n = 0
  · -- nothing was expired: the policy's victim is the last node of the list
    obtain ⟨victim, p, k, hvictim, hk, hkeep'⟩ := hevicted hn
    have hsame : entries c1 = entries c := by
      have hlen : ((entries c).unexpired later).length = (entries c).length := by
        rw [← hentries, length_entries h, length_entries hwf1]
        omega
      rw [hentries]
      exact List.Sublist.eq_of_length filter_sublist hlen
    have hlast : c1.policy.nodes.getLast? = some victim := by
      have hne : c1.policy.nodes ≠ [] := ne_nil_of_mem (hwf1.core.mem_refs.mpr ⟨k, hk⟩)
      obtain ⟨r, hr⟩ := isSome_iff_exists.mp (getLast?_isSome.mpr hne)
      have hv : CachePolicy.victim c1.policy = .ok (r, c1.policy) := by
        show (do return (← c1.policy.victim, c1.policy) : Except PyError (Ref × LRU)) = _
        rw [(lists hwf1).victim hr]
        rfl
      rw [hv] at hvictim
      cases hvictim
      exact hr
    rw [if_neg (by omega), ← hsame]
    obtain ⟨refs, hrefs⟩ := getLast?_eq_some_iff.mp hlast
    have hnodup : (refs ++ [victim]).Nodup := hrefs ▸ hwf1.core.nodup
    obtain ⟨m, hm, rfl⟩ := hwf1.core.node k victim hk
    have hwithout := entries_others hwf1 hk c1.nodes.read fun _ _ => rfl
    rw [entries_keeps hkeep']
    rw [Recency.without] at hwithout
    rw [← hwithout, entries, hrefs, filterMap_append, filterMap_cons_some hm,
      filterMap_nil, dropLast_concat, filter_append]
    have hrest : refs.filter (· ≠ victim) = refs := by
      refine filter_eq_self.mpr fun r hr => ?_
      rw [decide_eq_true_eq]
      rintro rfl
      exact (nodup_append.mp hnodup).2.2 r hr r (mem_singleton_self r) rfl
    rw [hrest]
    simp
  · rw [if_pos (by omega), hpurged hn]

theorem put_refines [Add T] (h : c.WF) (key : K) (value : V) {ttl : Option T}
    (httl : ¬ ∃ t ∈ ttl, t ≤ 0) (now later : T) :
    Refines c .done ((entries c).put c.config.capacity
      ⟨key, value, (ttl.or c.config.defaultTtl).map (now + ·)⟩ later)
      (c.step (.put key value ttl now later)) := by
  have hcap := h.core.size
  cases hk : c.map.get? key with
  | some r =>
    obtain ⟨p, c', htouch, hput, hwf, hconfig, -, hpolicy, hnodes⟩ :=
      put_held h hk value httl now later
    refine ⟨c', by simp only [BaseCache.step, hput], hwf, hconfig, ?_⟩
    obtain ⟨n, -, -, -, hn⟩ := h.held hk
    have hread : ∀ r', r' ≠ r → c'.nodes.read r' = c.nodes.read r' := by
      intro r' hr'
      rw [hnodes, read_write_of_ne _ _ hr']
    have hself : c'.nodes.read r = some ⟨key, value, c.deadline ttl now⟩ := by
      rw [hnodes, read_write_self]
    have hlen : ((entries c).without key).length < (entries c).length := by
      refine length_filter_lt_length_iff_exists.mpr ⟨n, ?_, by simp [key_of_held h hn]⟩
      exact (mem_entries h).mpr ((key_of_held h hn).symm ▸ hn)
    rw [length_entries h] at hlen
    have hroom : (((entries c).without key).length : Int) < c.config.capacity := by omega
    rw [Recency.put, if_pos hroom, entries, hpolicy,
      touch_nodes h (h.core.mem_refs.mpr ⟨key, hk⟩) htouch, filterMap_cons_some hself,
      entries_others h hk c'.nodes.read hread]
    rfl
  | none =>
  have hn : c.held? key = none := by rw [held?, hk, bind_none]
  have hrest : (entries c).without key = entries c := by
    refine filter_eq_self.mpr fun n hmem => ?_
    rw [decide_eq_true_eq]
    rintro rfl
    rw [(mem_entries h).mp hmem] at hn
    cases hn
  rw [Recency.put, hrest, length_entries h]
  -- what `put` leaves once there is room
  have hfront : ∀ c1 : BaseCache K V T LRU, c.ensureRoom later = .ok c1 → c1.WF →
      c1.config = c.config → (∀ k r, c1.map.get? k = some r → c.map.get? k = some r) →
      (c1.map.size : Int) < c1.config.capacity →
      Refines c .done (⟨key, value, c.deadline ttl now⟩ :: entries c1)
        (c.step (.put key value ttl now later)) := by
    intro c1 hroom h1 hconfig hsub hsize
    obtain ⟨p, c', hinsert, hput, hwf, hconfig', -, hpolicy, hnodes⟩ :=
      put_insert hk value httl now later hroom h1 hconfig hsub hsize
    refine ⟨c', by simp only [BaseCache.step, hput], hwf, hconfig', ?_⟩
    have hfresh : ∀ r ∈ c1.policy.nodes, r ≠ c1.nodes.next := by
      intro r hr
      obtain ⟨k, hk'⟩ := h1.core.mem_refs.mp hr
      exact Nat.ne_of_lt (h1.core.allocated k r hk')
    have hnew : c1.nodes.next ∉ c1.policy.nodes := fun hm => hfresh _ hm rfl
    rw [entries, hpolicy, insert_nodes h1 hnew hinsert, hnodes]
    rw [filterMap_cons_some (read_alloc_self _ _), entries]
    congr 1
    exact filterMap_congr fun r hr => read_alloc_of_ne _ _ (hfresh r hr)
  by_cases hfull : c.config.capacity ≤ c.map.size
  · obtain ⟨c1, hroom, h1, hconfig, -, hless, hsub, hentries⟩ := makeRoom_entries h hfull later
    have hfront1 := hfront c1 (by rw [ensureRoom, if_pos hfull, hroom]) h1 hconfig hsub
      (by rw [hconfig]; omega)
    rw [hentries, length_entries h] at hfront1
    rw [if_neg (by omega)]
    split
    · next hlt =>
        rw [if_pos hlt] at hfront1
        exact hfront1
    · next hlt =>
        rw [if_neg hlt] at hfront1
        exact hfront1
  · rw [if_pos (not_le.mp hfull)]
    exact hfront c (by rw [ensureRoom, if_neg hfull]) h rfl (fun _ _ hr => hr) (not_le.mp hfull)

/-- One call answers as the list model does. -/
theorem step_refines [Add T] (h : c.WF) (op : Op K V T) :
    ∃ reply c', c.step op = .ok (reply, c') ∧ c'.WF ∧ c'.config = c.config ∧
      Recency.step c.config (entries c) op = .ok (reply, entries c') := by
  cases op with
  | get key now =>
    obtain ⟨c', hstep, hwf, hconfig, hentries⟩ := get_refines h key now
    exact ⟨_, c', hstep, hwf, hconfig, by rw [hentries]; rfl⟩
  | put key value ttl now later =>
    by_cases httl : ∃ t ∈ ttl, t ≤ 0
    · refine ⟨_, c, ?_, h, rfl, if_pos httl⟩
      simp only [BaseCache.step, put_invalid httl]
    · obtain ⟨c', hstep, hwf, hconfig, hentries⟩ := put_refines h key value httl now later
      refine ⟨_, c', hstep, hwf, hconfig, ?_⟩
      rw [hentries]
      exact if_neg httl
  | delete key =>
    obtain ⟨c', hstep, hwf, hconfig, hentries⟩ := delete_refines h key
    exact ⟨_, c', hstep, hwf, hconfig, by rw [hentries]; rfl⟩
  | purgeExpired now =>
    obtain ⟨c', hstep, hwf, hconfig, hentries⟩ := purgeExpired_refines h now
    exact ⟨_, c', hstep, hwf, hconfig, by rw [hentries]; rfl⟩
  | contains key now =>
    obtain ⟨c', hstep, hwf, hconfig, hentries⟩ := contains_refines h key now
    exact ⟨_, c', hstep, hwf, hconfig, by rw [hentries]; rfl⟩

/-- Every run answers as the list model's does. -/
theorem run_refines [Add T] (config : Config T) (ops : List (Op K V T)) :
    ∃ replies c, runSteps step (BaseCache.new config : BaseCache K V T LRU) ops = .ok (replies, c) ∧
      c.WF ∧ c.config = config ∧
      runSteps (Recency.step config) [] ops = .ok (replies, entries c) := by
  refine runSteps_induction step _ (fun _ => True) (fun _ _ _ => trivial)
    (fun as os c => c.WF ∧ c.config = config ∧
      runSteps (Recency.step config) [] as = .ok (os, entries c)) ?_ ?_ ops trivial
  · exact ⟨new_wf config, rfl, rfl⟩
  · rintro as os c op - - ⟨hwf, hconfig, hrun⟩
    obtain ⟨reply, c', hstep, hwf', hconfig', hmodel⟩ := step_refines hwf op
    refine ⟨reply, c', hstep, hwf', hconfig'.trans hconfig, runSteps_append hrun ?_⟩
    rw [hconfig] at hmodel
    exact runSteps_cons_ok hmodel rfl

end LRUCache

/-! ## Flights and calls -/

/-- `_Flight`: `value` is unset until the loader has returned. -/
structure Flight (V E : Type) where
  done : Bool
  value : Option V
  error : Option E

def Flight.new {V E : Type} : Flight V E := ⟨false, none, none⟩

/-- What `get_or_load` raises: what a loader raised, or an exception of the cache. -/
inductive Raised (E : Type) where
  | loader (e : E)
  | cache (e : PyError)

/-- How `get_or_load` ends; a value `none` is the unset value of a flight. -/
abbrev Outcome (V E : Type) : Type := Except (Raised E) (Option V)

/-- What a flight's `error` and `value` say once it is done. -/
def Flight.outcome {V E : Type} (f : Flight V E) : Outcome V E :=
  match f.error with
  | some e => .error (.loader e)
  | none => .ok f.value

/-- The locals `leader` and `flight` of a call, once it has looked the key up. -/
inductive Role where
  | hit
  | leader (flight : Ref)
  | follower (flight : Ref)
deriving DecidableEq

/-- Where a call is. -/
inductive Pc (V E : Type) where
  /-- a follower, in `flight.done.wait()` -/
  | waiting
  /-- a leader, in `loader(key)` -/
  | loading
  /-- a leader, before the lock of the `finally` block -/
  | cleaning
  /-- a leader, before `flight.done.set()` -/
  | announcing
  | finished (outcome : Outcome V E)

/-- A call of `get_or_load` that has looked its key up. -/
structure Call (K V T E : Type) where
  key : K
  ttl : Option T
  role : Role
  pc : Pc V E

/-! ## The machine -/

structure ThreadSafeCache (K V T P E : Type) [LinearOrder T] [Zero T] where
  cache : BaseCache K V T P
  inflight : Dict K Ref
  flights : Memory (Flight V E)
  /-- the calls of `get_or_load` so far, finished ones too -/
  calls : Dict Nat (Call K V T E)

/-- A step.  `locked` is a method that runs under the lock as a whole. -/
inductive CacheStep (K V T E : Type) where
  | locked (op : Op K V T)
  | lookUp (call : Nat) (key : K) (ttl : Option T) (now : T)
  | load (call : Nat) (result : Except E V)
  | cleanUp (call : Nat) (now later : T)
  | announce (call : Nat)
  | wake (call : Nat)

/-- What a step did. -/
inductive CacheEvent (K V E : Type) where
  | replied (reply : Reply V)
  | hit (call : Nat) (key : K) (value : V)
  | led (call : Nat) (key : K) (flight : Ref)
  | joined (call : Nat) (key : K) (flight : Ref)
  | loaded (flight : Ref) (result : Except E V)
  | cleanedUp (call : Nat)
  | returned (call : Nat) (outcome : Outcome V E)

/-- Why a step is not taken: its call is not there, or the cache broke. -/
inductive NoStep where
  | notEnabled
  | fault (e : PyError)

namespace ThreadSafeCache

variable {K V T P E : Type} [DecidableEq K] [LinearOrder T] [Zero T] [Add T] [CachePolicy P]

def new (config : Config T) : ThreadSafeCache K V T P E :=
  ⟨.new config, Dict.empty, Memory.init .new, Dict.empty⟩

variable (s : ThreadSafeCache K V T P E)

/-- The call is at the point `pc`. -/
def moveTo (c : Nat) (call : Call K V T E) (pc : Pc V E) : ThreadSafeCache K V T P E :=
  { s with calls := s.calls.set c { call with pc } }

/-- The first section of `get_or_load`: a hit, or the key's flight, or a new one. -/
def lookUp (c : Nat) (key : K) (ttl : Option T) (now : T) :
    Except NoStep (CacheEvent K V E × ThreadSafeCache K V T P E) :=
  match s.calls.get? c, s.cache.get key now with
  | some _, _ => .error .notEnabled
  | none, .error e => .error (.fault e)
  | none, .ok (some value, cache) =>
    .ok (.hit c key value,
      { s with cache, calls := s.calls.set c ⟨key, ttl, .hit, .finished (.ok (some value))⟩ })
  | none, .ok (none, cache) =>
    match s.inflight.get? key with
    | some f =>
      .ok (.joined c key f,
        { s with cache, calls := s.calls.set c ⟨key, ttl, .follower f, .waiting⟩ })
    | none =>
      let (f, flights) := s.flights.alloc .new
      .ok (.led c key f,
        { cache, inflight := s.inflight.set key f, flights,
          calls := s.calls.set c ⟨key, ttl, .leader f, .loading⟩ })

/-- `flight.value = loader(key)`, or `flight.error = e` if it raises. -/
def load (c : Nat) (result : Except E V) :
    Except NoStep (CacheEvent K V E × ThreadSafeCache K V T P E) :=
  match s.calls.get? c with
  | some ⟨key, ttl, .leader f, .loading⟩ =>
    let flight := s.flights.read f
    let flight := match result with
      | .ok value => { flight with value := some value }
      | .error e => { flight with error := some e }
    .ok (.loaded f result, { s with flights := s.flights.write f flight }.moveTo c
      ⟨key, ttl, .leader f, .loading⟩ .cleaning)
  | _ => .error .notEnabled

/-- `del self._inflight[key]`, the end of the locked section of the clean-up. -/
def dropFlight (c : Nat) (call : Call K V T E) :
    Except NoStep (CacheEvent K V E × ThreadSafeCache K V T P E) :=
  match s.inflight.get? call.key with
  | none => .error (.fault .keyError)
  | some _ =>
    .ok (.cleanedUp c,
      { s with inflight := s.inflight.erase call.key }.moveTo c call .announcing)

/-- The section of the `finally` block. An exception of `put` leaves it before the flight is
    dropped. -/
def cleanUp (c : Nat) (now later : T) :
    Except NoStep (CacheEvent K V E × ThreadSafeCache K V T P E) :=
  match s.calls.get? c with
  | some ⟨key, ttl, .leader f, .cleaning⟩ =>
    let call : Call K V T E := ⟨key, ttl, .leader f, .cleaning⟩
    match (s.flights.read f).error, (s.flights.read f).value with
    | some _, _ => s.dropFlight c call
    | none, none => .error (.fault .attributeError)
    | none, some value =>
      match s.cache.put key value ttl now later with
      | .ok cache => { s with cache }.dropFlight c call
      | .error (.valueError message) =>
        .ok (.returned c (.error (.cache (.valueError message))),
          s.moveTo c call (.finished (.error (.cache (.valueError message)))))
      | .error e => .error (.fault e)
  | _ => .error .notEnabled

/-- `flight.done.set()`; the leader returns the value or raises the loader's exception. -/
def announce (c : Nat) : Except NoStep (CacheEvent K V E × ThreadSafeCache K V T P E) :=
  match s.calls.get? c with
  | some ⟨key, ttl, .leader f, .announcing⟩ =>
    let flight := { s.flights.read f with done := true }
    .ok (.returned c flight.outcome, { s with flights := s.flights.write f flight }.moveTo c
      ⟨key, ttl, .leader f, .announcing⟩ (.finished flight.outcome))
  | _ => .error .notEnabled

/-- A follower whose flight is done returns what the flight says. -/
def wake (c : Nat) : Except NoStep (CacheEvent K V E × ThreadSafeCache K V T P E) :=
  match s.calls.get? c with
  | some ⟨key, ttl, .follower f, .waiting⟩ =>
    let flight := s.flights.read f
    if flight.done then
      .ok (.returned c flight.outcome,
        s.moveTo c ⟨key, ttl, .follower f, .waiting⟩ (.finished flight.outcome))
    else .error .notEnabled
  | _ => .error .notEnabled

def step (s : ThreadSafeCache K V T P E) :
    CacheStep K V T E → Except NoStep (CacheEvent K V E × ThreadSafeCache K V T P E)
  | .locked op =>
    match s.cache.step op with
    | .ok (reply, cache) => .ok (.replied reply, { s with cache })
    | .error e => .error (.fault e)
  | .lookUp c key ttl now => s.lookUp c key ttl now
  | .load c result => s.load c result
  | .cleanUp c now later => s.cleanUp c now later
  | .announce c => s.announce c
  | .wake c => s.wake c

end ThreadSafeCache

end InterviewPrep.LruCache
