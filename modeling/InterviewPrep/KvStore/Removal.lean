/-
  What a shard's four structures have to do with each other.  `WF` is the part that every
  operation keeps: the map, the policy, the expiry heap with its back-pointers, and the running
  cost as the int64 sum of the entries' costs.  `Timed` says which entries are in the heap, and
  `Bounded` that the int64 arithmetic is exact and the capacity is respected.

  Taking entries out of a shard: `removeLocked`, lazy expiry, the purge of expired entries and the
  eviction loop.  All of them remove some entries and publish one event for each, so they share
  one relation, `Reclaims`.  Their loops end: every round makes the heap or the map smaller by
  one.
-/
import InterviewPrep.KvStore.Store
import Mathlib.Algebra.Order.BigOperators.Group.List
import Mathlib.Algebra.Order.Floor.Ring

namespace InterviewPrep.KvStore

open Lib Dict Function List

namespace Entry

variable {V : Type} {e e' : Entry V}

theorem fields_of_strip (h : e.strip = e'.strip) :
    e.key = e'.key ∧ e.value = e'.value ∧ e.version = e'.version ∧
      e.expiresAt = e'.expiresAt ∧ e.cost = e'.cost := by
  obtain ⟨⟩ := e
  obtain ⟨⟩ := e'
  simp only [strip, Entry.mk.injEq, and_true] at h
  exact h

end Entry

namespace Shard

variable {V P : Type}

/-- The value and the version the shard has for a key. -/
def pair? (sh : Shard V P) (key : String) : Option (V × UInt64) :=
  (sh.items.get? key).map fun r => ((sh.entry r).value, (sh.entry r).version)

/-- The costs of the entries of `items`, added up as integers. -/
def costOf (sh : Shard V P) (items : Dict String Ref) : Int :=
  (items.values.map fun r => (sh.entry r).cost.toInt).sum

def totalCost (sh : Shard V P) : Int := sh.costOf sh.items

/-- The costs of the entries of the other keys. -/
def costBeside (sh : Shard V P) (key : String) : Int := sh.costOf (sh.items.erase key)

/-- `K` is the property of the keys that hash to this shard. -/
structure WF [EvictionPolicy P] [LawfulEvictionPolicy P] (K : String → Prop) (sh : Shard V P) :
    Prop where
  entry : ∀ k r, sh.items.get? k = some r →
    (sh.entry r).key = k ∧ r < sh.expiry.mem.next ∧ K k
  policy_ok : LawfulEvictionPolicy.Ok sh.policy
  policy_keys : (LawfulEvictionPolicy.keys sh.policy).Perm sh.items.keys
  heap : sh.expiry.Valid
  slots : ∀ r ∈ sh.expiry.slots, ∃ k, sh.items.get? k = some r
  unslotted : ∀ k r, sh.items.get? k = some r → r ∉ sh.expiry.slots → (sh.entry r).heapIdx = -1
  cost : sh.cost = Int64.ofInt sh.totalCost

/-- The heap holds exactly the entries with a deadline. -/
def Timed (sh : Shard V P) : Prop :=
  ∀ k r, sh.items.get? k = some r → (r ∈ sh.expiry.slots ↔ (sh.entry r).expiresAt ≠ 0)

/-- Every entry has the cost that `cost` gives it. -/
def Priced (cost : String → V → Int64) (sh : Shard V P) : Prop :=
  ∀ k r, sh.items.get? k = some r → (sh.entry r).cost = cost k (sh.entry r).value

/-- The costs add up within int64 and within the capacity. -/
structure Bounded (sh : Shard V P) : Prop where
  nonneg : ∀ k r, sh.items.get? k = some r → 0 ≤ (sh.entry r).cost.toInt
  small : sh.totalCost < 2 ^ 63
  capacity : 0 < sh.maxCost → sh.totalCost ≤ sh.maxCost.toInt

variable {sh sh' sh'' : Shard V P} {items items' : Dict String Ref} {k : String} {r : Ref}

/-! ## Sums of costs -/

theorem costOf_congr (hitems : items'.items = items.items)
    (hcost : ∀ r, (sh'.entry r).cost = (sh.entry r).cost) :
    sh'.costOf items' = sh.costOf items := by
  simp only [costOf, Dict.values, hitems, hcost]

theorem costOf_of_get? (h : items.get? k = some r) :
    sh.costOf items = (sh.entry r).cost.toInt + sh.costOf (items.erase k) := by
  have hperm := (items_perm_of_get? h).map fun x => (sh.entry x.2).cost.toInt
  simpa [costOf, Dict.values, comp_def] using hperm.sum_eq

theorem costOf_set (items : Dict String Ref) (k : String) (r : Ref) :
    sh.costOf (items.set k r) = (sh.entry r).cost.toInt + sh.costOf (items.erase k) := by
  have hperm := (set_items_perm items k r).map fun x => (sh.entry x.2).cost.toInt
  simpa [costOf, Dict.values, comp_def] using hperm.sum_eq

theorem costOf_nonneg (h : ∀ k r, items.get? k = some r → 0 ≤ (sh.entry r).cost.toInt) :
    0 ≤ sh.costOf items := by
  refine sum_nonneg fun c hc => ?_
  obtain ⟨r, hr, rfl⟩ := List.mem_map.mp hc
  obtain ⟨x, hx, rfl⟩ := List.mem_map.mp hr
  exact h x.1 x.2 (mem_items_iff.mp hx)

theorem costOf_le_of_sublist (hsub : items'.items.Sublist items.items)
    (hnonneg : ∀ k r, items.get? k = some r → 0 ≤ (sh.entry r).cost.toInt) :
    sh.costOf items' ≤ sh.costOf items := by
  refine List.Sublist.sum_le_sum ((hsub.map Prod.snd).map _) fun c hc => ?_
  obtain ⟨r, hr, rfl⟩ := List.mem_map.mp hc
  obtain ⟨x, hx, rfl⟩ := List.mem_map.mp hr
  exact hnonneg x.1 x.2 (mem_items_iff.mp hx)

theorem costBeside_of_get? (h : sh.items.get? k = some r) :
    sh.costBeside k = sh.totalCost - (sh.entry r).cost.toInt := by
  have hcost : sh.costOf sh.items = _ := costOf_of_get? h
  unfold costBeside totalCost
  omega

theorem WF.toInt_cost [EvictionPolicy P] [LawfulEvictionPolicy P] {K : String → Prop}
    (h : sh.WF K) (hb : sh.Bounded) : sh.cost.toInt = sh.totalCost := by
  have h0 := costOf_nonneg hb.nonneg
  have h1 := hb.small
  rw [h.cost]
  refine Int64.toInt_ofInt_of_le (le_trans (by decide) h0) ?_
  omega

/-! ## What is left of a shard -/

/-- Some entries may have gone; the others are as they were. -/
structure Kept (sh sh' : Shard V P) : Prop where
  maxCost : sh'.maxCost = sh.maxCost
  items : sh'.items.items.Sublist sh.items.items
  strip : ∀ r, (sh'.entry r).strip = (sh.entry r).strip
  slots : ∀ k r, sh'.items.get? k = some r → (r ∈ sh'.expiry.slots ↔ r ∈ sh.expiry.slots)

theorem Kept.get? (h : sh.Kept sh') (hk : sh'.items.get? k = some r) : sh.items.get? k = some r :=
  Dict.mem_items.mp (h.items.subset (Dict.mem_items.mpr hk))

theorem Kept.get?_none (h : sh.Kept sh') (hk : sh.items.get? k = none) :
    sh'.items.get? k = none := by
  cases hk' : sh'.items.get? k with
  | none => rfl
  | some => rw [h.get? hk'] at hk; cases hk

theorem Kept.fields (h : sh.Kept sh') (r : Ref) :
    (sh'.entry r).value = (sh.entry r).value ∧ (sh'.entry r).version = (sh.entry r).version ∧
      (sh'.entry r).expiresAt = (sh.entry r).expiresAt ∧ (sh'.entry r).cost = (sh.entry r).cost :=
  (Entry.fields_of_strip (h.strip r)).2

theorem Kept.refl (sh : Shard V P) : sh.Kept sh :=
  ⟨rfl, List.Sublist.refl _, fun _ => rfl, fun _ _ _ => Iff.rfl⟩

section

variable (h : sh.Kept sh')

include h

theorem Kept.trans (h' : sh'.Kept sh'') : sh.Kept sh'' :=
  ⟨h'.maxCost.trans h.maxCost, h'.items.trans h.items, fun r => (h'.strip r).trans (h.strip r),
    fun k r hk => (h'.slots k r hk).trans (h.slots k r (h'.get? hk))⟩

theorem Kept.timed (ht : sh.Timed) : sh'.Timed := by
  intro k r hk
  rw [h.slots k r hk, ht k r (h.get? hk), (h.fields r).2.2.1]

theorem Kept.priced {cost : String → V → Int64} (hp : sh.Priced cost) : sh'.Priced cost := by
  intro k r hk
  rw [(h.fields r).2.2.2, (h.fields r).1]
  exact hp k r (h.get? hk)

theorem Kept.costOf (items : Dict String Ref) : sh'.costOf items = sh.costOf items :=
  costOf_congr rfl fun r => (h.fields r).2.2.2

theorem Kept.totalCost_le (hb : sh.Bounded) : sh'.totalCost ≤ sh.totalCost := by
  rw [totalCost, h.costOf]
  exact costOf_le_of_sublist h.items hb.nonneg

theorem Kept.costBeside_le (hb : sh.Bounded) (k : String) :
    sh'.costBeside k ≤ sh.costBeside k := by
  rw [costBeside, h.costOf]
  refine costOf_le_of_sublist (h.items.filter _) fun k' r hk' => hb.nonneg k' r ?_
  rw [get?_erase] at hk'
  split at hk'
  next => cases hk'
  next => exact hk'

theorem Kept.bounded (hb : sh.Bounded) : sh'.Bounded := by
  have hle := h.totalCost_le hb
  refine ⟨fun k r hk => ?_, lt_of_le_of_lt hle hb.small, fun hpos => ?_⟩
  · rw [(h.fields r).2.2.2]
    exact hb.nonneg k r (h.get? hk)
  · rw [h.maxCost] at hpos ⊢
    exact hle.trans (hb.capacity hpos)

end

end Shard

variable {V P : Type}

/-! ## Events -/

/-- What an event says about the contents: a `set` gives its key a value, any other removes it. -/
def Event.update (ev : Event V) : Update String (V × UInt64) :=
  ⟨ev.key, if ev.type = .set then some (ev.value, ev.version) else none⟩

/-- The contents after the events `evs`. -/
def contentsAfter (evs : List (Event V)) (c : String → Option (V × UInt64)) :
    String → Option (V × UInt64) :=
  UpdateLog.replay (evs.map Event.update) c

theorem contentsAfter_append (evs evs' : List (Event V)) (c : String → Option (V × UInt64)) :
    contentsAfter (evs ++ evs') c = contentsAfter evs' (contentsAfter evs c) := by
  rw [contentsAfter, map_append, UpdateLog.replay_append]
  rfl

theorem contentsAfter_of_ne {evs : List (Event V)} {k : String} (h : ∀ ev ∈ evs, ev.key ≠ k)
    (c : String → Option (V × UInt64)) : contentsAfter evs c k = c k := by
  refine UpdateLog.replay_of_ne fun u hu => ?_
  obtain ⟨ev, hev, rfl⟩ := List.mem_map.mp hu
  exact h ev hev

namespace Store

/-- The store `s'` is `s` after publishing `evs`; the shards and the version are the same. -/
structure Published (s : Store V P) (evs : List (Event V)) (s' : Store V P) : Prop where
  shards : s'.shards = s.shards
  hash : s'.hash = s.hash
  cost : s'.cost = s.cost
  version : s'.version = s.version
  nextWatcher : s'.nextWatcher = s.nextWatcher
  watchers : ∀ n, s'.watchers.get? n = (s.watchers.get? n).map fun w => evs.foldl Watcher.offer w
  log : s'.log = s.log ++ evs

variable {s s' s'' : Store V P} {evs evs' : List (Event V)}

theorem Published.refl (s : Store V P) : s.Published [] s :=
  ⟨rfl, rfl, rfl, rfl, rfl, fun _ => by simp, (append_nil _).symm⟩

theorem Published.trans (h : s.Published evs s') (h' : s'.Published evs' s'') :
    s.Published (evs ++ evs') s'' := by
  refine ⟨h'.shards.trans h.shards, h'.hash.trans h.hash, h'.cost.trans h.cost,
    h'.version.trans h.version, h'.nextWatcher.trans h.nextWatcher, fun n => ?_, ?_⟩
  · rw [h'.watchers, h.watchers, Option.map_map]
    refine congrArg (Option.map · _) (funext fun w => ?_)
    rw [comp_apply, foldl_append]
  · rw [h'.log, h.log, append_assoc]

theorem publish_published (s : Store V P) (ev : Event V) : s.Published [ev] (s.publish ev) :=
  ⟨rfl, rfl, rfl, rfl, rfl, fun _ => get?_mapValues .., rfl⟩

end Store

/-! ## removeLocked -/

/-- `h'` is `h` without the entry `r`. -/
structure ExpiryHeap.Unslotted (h : ExpiryHeap V) (r : Ref) (h' : ExpiryHeap V) : Prop where
  valid : h'.Valid
  mem : ∀ r', r' ∈ h'.slots ↔ r' ∈ h.slots ∧ r' ≠ r
  next : h'.mem.next = h.mem.next
  strip : ∀ r', (h'.mem.read r').strip = (h.mem.read r').strip
  frame : ∀ r', r' ∉ h.slots → h'.mem.read r' = h.mem.read r'
  idx : (h'.mem.read r).heapIdx = -1

namespace Shard

variable {sh sh' : Shard V P} {k : String} {r : Ref}

theorem unschedule_spec (hv : sh.expiry.Valid)
    (hidx : r ∉ sh.expiry.slots → (sh.entry r).heapIdx = -1) :
    ∃ h', sh.unschedule r = .ok { sh with expiry := h' } ∧ sh.expiry.Unslotted r h' := by
  unfold unschedule
  by_cases hr : r ∈ sh.expiry.slots
  · obtain ⟨i, hi, rfl⟩ := IndexedHeap.mem_slots.mp hr
    have hpos : (sh.entry (sh.expiry.at? i)).heapIdx = i := hv.indexed.idx i hi
    obtain ⟨hup, hout⟩ := IndexedHeap.remove_spec ExpiryHeap.lawful hv hi
    obtain ⟨hnext, hstrip, hframe⟩ := ExpiryHeap.entries hup.written
    refine ⟨sh.expiry.remove i, ?_, hup.valid, fun r' => ?_, hnext, hstrip,
      fun r' hr' => hframe r' (not_or.mpr ⟨hr', fun hm => hr' (mem_of_mem_erase hm)⟩), hout⟩
    · rw [hpos, if_pos (Int.natCast_nonneg i), heapRemove, Int.toNat_natCast, if_pos hi]
    · rw [hup.perm.mem_iff, hv.indexed.nodup.mem_erase_iff, and_comm]
  · have hneg := hidx hr
    refine ⟨sh.expiry, ?_, hv, fun r' => ?_, rfl, fun _ => rfl, fun _ _ => rfl, hneg⟩
    · rw [hneg, if_neg (by decide)]
    · exact ⟨fun hm => ⟨hm, fun e => hr (e ▸ hm)⟩, fun hm => hm.1⟩

variable [EvictionPolicy P] [LawfulEvictionPolicy P] {K : String → Prop}

theorem WF.key_inj (h : sh.WF K) {k' : String} (hk : sh.items.get? k = some r)
    (hk' : sh.items.get? k' = some r) : k = k' :=
  (h.entry k r hk).1.symm.trans (h.entry k' r hk').1

theorem removeLocked_spec (h : sh.WF K) (hk : sh.items.get? k = some r) :
    ∃ sh', sh.removeLocked r = .ok sh' ∧ sh'.WF K ∧ sh.Kept sh' ∧
      sh'.items = sh.items.erase k := by
  have hkey := (h.entry k r hk).1
  obtain ⟨p', hpol, hok, hperm⟩ := LawfulEvictionPolicy.onRemove_ok k h.policy_ok
  set sh1 : Shard V P := { sh with
    items := sh.items.erase k, cost := sh.cost - (sh.entry r).cost, policy := p' } with hsh1
  obtain ⟨h', hrun, hout⟩ : ∃ h', sh1.unschedule r = .ok { sh1 with expiry := h' } ∧
      sh.expiry.Unslotted r h' := unschedule_spec h.heap (h.unslotted k r hk)
  have hget : ∀ k' r', (sh.items.erase k).get? k' = some r' →
      k' ≠ k ∧ sh.items.get? k' = some r' ∧ r' ≠ r := by
    intro k' r' hk'
    have hne : k' ≠ k := fun e => by rw [e, get?_erase_self] at hk'; cases hk'
    rw [get?_erase_of_ne _ hne] at hk'
    exact ⟨hne, hk', fun e => hne (h.key_inj (e ▸ hk') hk)⟩
  have hkept : sh.Kept { sh1 with expiry := h' } := by
    refine ⟨rfl, filter_sublist, hout.strip, fun k' r' hk' => ?_⟩
    have hne := (hget k' r' hk').2.2
    exact (hout.mem r').trans ⟨fun hm => hm.1, fun hm => ⟨hm, hne⟩⟩
  refine ⟨{ sh1 with expiry := h' }, ?_,
    ⟨fun k' r' hk' => ?_, hok, ?_, hout.valid, fun r' hr' => ?_,
    fun k' r' hk' hr' => ?_, ?_⟩, hkept, rfl⟩
  · simp only [removeLocked, hkey, hpol, bind, Except.bind]
    exact hrun
  · obtain ⟨-, hold, -⟩ := hget k' r' hk'
    obtain ⟨he, hlt, hK⟩ := h.entry k' r' hold
    exact ⟨(Entry.fields_of_strip (hout.strip r')).1.trans he, hout.next.symm ▸ hlt, hK⟩
  · refine hperm.trans ((h.policy_keys.filter _).trans (List.Perm.of_eq ?_))
    show (sh.items.items.map Prod.fst).filter _ = (sh.items.items.filter _).map Prod.fst
    rw [List.filter_map]
    rfl
  · obtain ⟨hmem, hne⟩ := (hout.mem r').mp hr'
    obtain ⟨k', hk'⟩ := h.slots r' hmem
    have hkk : k' ≠ k := fun e => hne (Option.some.inj ((e ▸ hk').symm.trans hk))
    exact ⟨k', (get?_erase_of_ne _ hkk).trans hk'⟩
  · obtain ⟨-, hold, hne⟩ := hget k' r' hk'
    have hr : r' ∉ sh.expiry.slots := fun hm => hr' ((hout.mem r').mpr ⟨hm, hne⟩)
    exact (congrArg Entry.heapIdx (hout.frame r' hr)).trans (h.unslotted k' r' hold hr)
  · show sh.cost - (sh.entry r).cost = Int64.ofInt ({ sh1 with expiry := h' } : Shard V P).totalCost
    have htotal : ({ sh1 with expiry := h' } : Shard V P).totalCost = sh.costBeside k :=
      hkept.costOf _
    rw [htotal, costBeside_of_get? hk, Int64.ofInt_sub, ← h.cost, Int64.ofInt_toInt]

end Shard

/-! ## Reclaiming entries -/

variable [EvictionPolicy P] [LawfulEvictionPolicy P] {K : String → Prop}

/-- Some entries of the shard are removed, with an event for each of them. -/
structure Reclaims (K : String → Prop) (s : Store V P) (sh : Shard V P) (evs : List (Event V))
    (s' : Store V P) (sh' : Shard V P) : Prop where
  published : s.Published evs s'
  wf : sh'.WF K
  kept : sh.Kept sh'
  pairs : sh'.pair? = contentsAfter evs sh.pair?
  events : ∀ ev ∈ evs, ev.type ≠ .set ∧ K ev.key

variable {s s' s'' : Store V P} {sh sh' sh'' : Shard V P} {evs evs' : List (Event V)}
  {k : String} {r : Ref} {now : Time}

theorem Reclaims.refl (s : Store V P) (h : sh.WF K) : Reclaims K s sh [] s sh :=
  ⟨.refl s, h, .refl sh, rfl, nofun⟩

theorem Reclaims.trans (h : Reclaims K s sh evs s' sh') (h' : Reclaims K s' sh' evs' s'' sh'') :
    Reclaims K s sh (evs ++ evs') s'' sh'' := by
  refine ⟨h.published.trans h'.published, h'.wf, h.kept.trans h'.kept, ?_, fun ev hev => ?_⟩
  · rw [h'.pairs, h.pairs, contentsAfter_append]
  · rcases mem_append.mp hev with hev | hev
    · exact h.events ev hev
    · exact h'.events ev hev

omit [EvictionPolicy P] [LawfulEvictionPolicy P] in
theorem pair?_erase (hkept : sh.Kept sh') (hitems : sh'.items = sh.items.erase k) :
    sh'.pair? = Function.update sh.pair? k none := by
  funext k'
  by_cases hk : k' = k
  · rw [hk, update_self, Shard.pair?, hitems, get?_erase_self, Option.map_none]
  · rw [update_of_ne hk, Shard.pair?, Shard.pair?, hitems, get?_erase_of_ne _ hk]
    refine congrArg (Option.map · _) (funext fun r => ?_)
    obtain ⟨hval, hver, -⟩ := hkept.fields r
    rw [hval, hver]

theorem removeLocked_reclaims (h : sh.WF K) (hk : sh.items.get? k = some r) {ev : Event V}
    (hset : ev.type ≠ .set) (hkey : ev.key = k) (hpub : s.Published [ev] s') :
    ∃ sh', sh.removeLocked r = .ok sh' ∧ Reclaims K s sh [ev] s' sh' ∧
      sh'.items = sh.items.erase k := by
  obtain ⟨sh', hrun, hwf, hkept, hitems⟩ := Shard.removeLocked_spec h hk
  refine ⟨sh', hrun, ⟨hpub, hwf, hkept, ?_, fun ev' hev => ?_⟩, hitems⟩
  · rw [pair?_erase hkept hitems, ← hkey]
    simp [contentsAfter, UpdateLog.replay, Event.update, hset]
  · rw [mem_singleton.mp hev, hkey]
    exact ⟨hset, (h.entry k r hk).2.2⟩

theorem expireLocked_spec (s : Store V P) (h : sh.WF K) (hk : sh.items.get? k = some r) :
    ∃ ev s' sh', s.expireLocked sh r = .ok (s', sh') ∧ Reclaims K s sh [ev] s' sh' ∧
      sh'.items = sh.items.erase k ∧ ev.key = k := by
  have hkey : (Store.eventOf .expire (sh.entry r)).key = k := (h.entry k r hk).1
  have hpub := Store.publish_published { s with expirations := s.expirations + 1 }
    (Store.eventOf .expire (sh.entry r))
  obtain ⟨sh', hrun, hrec, hitems⟩ := removeLocked_reclaims (s := s) h hk
    (EventType.noConfusion : EventType.expire ≠ .set) hkey
    ⟨hpub.shards, hpub.hash, hpub.cost, hpub.version, hpub.nextWatcher, hpub.watchers, hpub.log⟩
  refine ⟨_, _, sh', ?_, hrec, hitems, hkey⟩
  simp only [Store.expireLocked, hrun, bind, Except.bind, pure, Except.pure]

theorem liveLocked_spec (s : Store V P) (h : sh.WF K) (key : String) (now : Time) :
    (∃ r, sh.items.get? key = some r ∧ (sh.entry r).expired now = false ∧
        s.liveLocked sh key now = .ok (some r, s, sh)) ∨
      ((∀ r, sh.items.get? key = some r → (sh.entry r).expired now = true) ∧
        ∃ evs s' sh', s.liveLocked sh key now = .ok (none, s', sh') ∧ Reclaims K s sh evs s' sh' ∧
          sh'.items = sh.items.erase key ∧ ∀ ev ∈ evs, ev.key = key) := by
  unfold Store.liveLocked
  cases hk : sh.items.get? key with
  | none =>
    refine Or.inr ⟨fun r hr => ?_, [], s, sh, rfl, .refl s h, ?_,
      nofun⟩
    · cases hr
    · exact (Dict.ext (erase_eq_of_get?_none hk)).symm
  | some r =>
    by_cases hexp : (sh.entry r).expired now = true
    · obtain ⟨ev, s', sh', hrun, hrec, hitems, hkey⟩ := expireLocked_spec s h hk
      refine Or.inr ⟨fun r' hr' => ?_, [ev], s', sh', ?_, hrec, hitems, fun ev' hev => ?_⟩
      · rwa [← Option.some.inj hr']
      · simp only [hexp, if_true, hrun, bind, Except.bind, pure, Except.pure]
      · rw [mem_singleton.mp hev, hkey]
    · refine Or.inl ⟨r, rfl, Bool.eq_false_iff.mpr hexp, ?_⟩
      simp only [if_neg hexp]

/-! ## The loops -/

theorem length_slots_lt (hwf : sh.WF K) (hwf' : sh'.WF K) (hkept : sh.Kept sh')
    (hr : r ∈ sh.expiry.slots) (hr' : r ∉ sh'.expiry.slots) :
    sh'.expiry.slots.length < sh.expiry.slots.length := by
  have hsub : sh'.expiry.slots ⊆ sh.expiry.slots.erase r := by
    intro x hx
    obtain ⟨k, hk⟩ := hwf'.slots x hx
    refine hwf.heap.indexed.nodup.mem_erase_iff.mpr ⟨fun e => hr' (e ▸ hx), ?_⟩
    exact (hkept.slots k x hk).mp hx
  have hle := (subperm_of_subset hwf'.heap.indexed.nodup hsub).length_le
  have hpos := length_pos_of_mem hr
  rw [length_erase_of_mem hr] at hle
  omega

theorem purgeLoop_spec (now : Time) (fuel : Nat) (s : Store V P) (h : sh.WF K) (n : Nat)
    (hfuel : sh.expiry.slots.length ≤ fuel) :
    ∃ evs m s' sh', Store.purgeLoop now fuel s sh n = .ok (m, s', sh') ∧
      Reclaims K s sh evs s' sh' := by
  induction fuel generalizing s sh n with
  | zero =>
    have hnil : sh.expiry.slots = [] := length_eq_zero_iff.mp (Nat.le_zero.mp hfuel)
    unfold Store.purgeLoop
    rw [hnil]
    exact ⟨[], n, s, sh, rfl, .refl s h⟩
  | succ _ ih =>
    unfold Store.purgeLoop
    cases hslots : sh.expiry.slots with
    | nil => exact ⟨[], n, s, sh, rfl, .refl s h⟩
    | cons r =>
    by_cases hexp : (sh.entry r).expired now = true
    · have hr : r ∈ sh.expiry.slots := hslots ▸ mem_cons_self ..
      obtain ⟨k, hk⟩ := h.slots r hr
      obtain ⟨ev, s', sh', hrun, hrec, hitems, -⟩ := expireLocked_spec s h hk
      have hr' : r ∉ sh'.expiry.slots := by
        intro hm
        obtain ⟨k', hk'⟩ := hrec.wf.slots r hm
        have hkk := h.key_inj (hrec.kept.get? hk') hk
        rw [hkk, hitems, get?_erase_self] at hk'
        cases hk'
      have hlen := length_slots_lt h hrec.wf hrec.kept hr hr'
      obtain ⟨evs, m, s'', sh'', hloop, hrec'⟩ := ih s' hrec.wf (n + 1) (by omega)
      refine ⟨[ev] ++ evs, m, s'', sh'', ?_, hrec.trans hrec'⟩
      simp only [hexp, if_true, hrun, bind, Except.bind]
      exact hloop
    · exact ⟨[], n, s, sh, if_neg hexp, .refl s h⟩

theorem purgeExpiredLocked_spec (s : Store V P) (h : sh.WF K) (now : Time) :
    ∃ evs m s' sh', s.purgeExpiredLocked sh now = .ok (m, s', sh') ∧ Reclaims K s sh evs s' sh' :=
  purgeLoop_spec now _ s h 0 (le_refl _)

theorem Shard.WF.withPolicy (h : sh.WF K) {p' : P} (hok : LawfulEvictionPolicy.Ok p')
    (hperm : (LawfulEvictionPolicy.keys p').Perm (LawfulEvictionPolicy.keys sh.policy)) :
    Shard.WF K { sh with policy := p' } :=
  ⟨h.entry, hok, hperm.trans h.policy_keys, h.heap, h.slots, h.unslotted, h.cost⟩

theorem Reclaims.withPolicy (s : Store V P) (h : sh.WF K) {p' : P}
    (hok : LawfulEvictionPolicy.Ok p')
    (hperm : (LawfulEvictionPolicy.keys p').Perm (LawfulEvictionPolicy.keys sh.policy)) :
    Reclaims K s sh [] s { sh with policy := p' } :=
  ⟨.refl s, h.withPolicy hok hperm, ⟨rfl, List.Sublist.refl _, fun _ => rfl, fun _ _ _ => Iff.rfl⟩,
    rfl, nofun⟩

/-- The eviction loop ends, with the cost fitting in or the shard empty. It leaves keys alone that
    the shard does not have. -/
theorem evictLoop_spec (cost : Int64) (fuel : Nat) (s : Store V P) (h : sh.WF K)
    (hfuel : sh.items.size < fuel) :
    ∃ evs s' sh', Store.evictLoop cost fuel s sh = .ok (s', sh') ∧ Reclaims K s sh evs s' sh' ∧
      (Store.overfull sh' cost = false ∨ sh'.items.items = []) := by
  induction fuel generalizing s sh with
  | zero => exact absurd hfuel (Nat.not_lt_zero _)
  | succ _ ih =>
    unfold Store.evictLoop
    by_cases hover : Store.overfull sh cost = true
    · obtain ⟨v, p', hvic, hok, hperm, hnone, hsome⟩ := LawfulEvictionPolicy.victim_ok h.policy_ok
      have hpol := Reclaims.withPolicy s h hok hperm
      simp only [hover, if_true, hvic, bind, Except.bind]
      cases v with
      | none =>
        refine ⟨[], s, _, rfl, hpol, Or.inr ?_⟩
        have hkeys := h.policy_keys
        rw [hnone rfl] at hkeys
        exact map_eq_nil_iff.mp (List.Perm.nil_eq hkeys).symm
      | some key =>
      obtain ⟨r, hr⟩ := Dict.mem_keys.mp (h.policy_keys.mem_iff.mp (hsome key rfl))
      have hkey : (Store.eventOf .evict (sh.entry r)).key = key := (h.entry key r hr).1
      have hpub := Store.publish_published { s with evictions := s.evictions + 1 }
        (Store.eventOf .evict (sh.entry r))
      obtain ⟨sh', hrun, hrec, hitems⟩ := removeLocked_reclaims (s := s) hpol.wf hr
        (EventType.noConfusion : EventType.evict ≠ .set) hkey
        ⟨hpub.shards, hpub.hash, hpub.cost, hpub.version, hpub.nextWatcher, hpub.watchers, hpub.log⟩
      have hsize : sh'.items.size < sh.items.size := by
        have hlen := (items_perm_of_get? hr).length_eq
        rw [length_cons] at hlen
        have hitems' : sh'.items = sh.items.erase key := hitems
        show sh'.items.items.length < sh.items.items.length
        rw [hitems']
        omega
      obtain ⟨evs, s'', sh'', hloop, hrec', hend⟩ := ih
        ({ s with evictions := s.evictions + 1 }.publish (Store.eventOf .evict (sh.entry r)))
        hrec.wf (by omega)
      refine ⟨_, s'', sh'', ?_, hpol.trans (hrec.trans hrec'), hend⟩
      simp only [hr, hrun]
      exact hloop
    · exact ⟨[], s, sh, if_neg hover, .refl s h, Or.inl (Bool.eq_false_iff.mpr hover)⟩

end InterviewPrep.KvStore
