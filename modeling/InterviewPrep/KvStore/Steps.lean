/-
  What an operation can do to the store, said once.  A move runs a locked function on one shard:
  its cause says what may have been written and under which version, and entries of the shard may
  have been reclaimed.  Every operation returns and is a sequence of moves (`step_moves`), so an
  invariant of the store is proved for one move.  `Op.Meets C` asks that its causes meet the
  condition `C`.

  Most operations are one move: the locked function looks for the live entry of the key, which may
  expire it, and goes on.  `DeleteExpired` makes a move on each shard, `Restore` one for each
  record that has not expired.
-/
import InterviewPrep.KvStore.Operations
import InterviewPrep.KvStore.Writes
import InterviewPrep.Lib.Run

namespace InterviewPrep.KvStore

open Lib

variable {V P : Type}

/-! ## Causes -/

/-- Why an operation works on a shard. -/
inductive Cause (V : Type) where
  /-- nothing is written; entries may expire -/
  | quiet
  /-- `Expire` gives an entry a deadline -/
  | deadline (t : Time)
  /-- a write under a fresh version -/
  | fresh (key : String) (v : V)
  /-- `Restore` loads a record -/
  | load (rec : SnapshotRecord V)
  /-- `Restore` keeps the live entry it finds -/
  | keep (rec : SnapshotRecord V)

namespace Cause

/-- The store-wide version after the move. -/
def versionAfter (version : UInt64) : Cause V → UInt64
  | quiet => version
  | deadline _ => version
  | fresh _ _ => version + 1
  | load rec => max version rec.version
  | keep rec => max version rec.version

/-- The event of the write, if the shard accepts it. -/
def written (version : UInt64) : Cause V → Option (Event V)
  | quiet => none
  | deadline _ => none
  | fresh key v => some (setEvent key v (version + 1))
  | load rec => some (setEvent rec.key rec.value rec.version)
  | keep _ => none

end Cause

namespace Store

/-- The contents that the published events describe. -/
def contents (s : Store V P) : String → Option (V × UInt64) := contentsAfter s.log fun _ => none

variable [EvictionPolicy P]

/-- The entry of `key` that an operation at `now` finds. -/
def live (s : Store V P) (key : String) (now : Time) : Option (Entry V) :=
  (s.shards[s.shardIdx key]?).bind fun sh => (sh.items.get? key).bind fun r =>
    if (sh.entry r).expired now then none else some (sh.entry r)

/-- `CompareAndSwap` goes on to the write. -/
def swaps (s : Store V P) (key : String) (expected : UInt64) (now : Time) : Bool :=
  match s.live key now with
  | none => expected = 0
  | some e => expected ≠ 0 ∧ e.version = expected

/-- What `Restore` does with a record that has not expired. -/
def restoreCause (s : Store V P) (rec : SnapshotRecord V) (now : Time) : Cause V :=
  match s.live rec.key now with
  | none => .load rec
  | some e => if e.version ≥ rec.version then .keep rec else .load rec

/-- The records that `Restore` looks at meet `C`, each in the store it finds. -/
def RestoreMeets (C : Store V P → Cause V → Prop) (now : Time) :
    List (SnapshotRecord V) → Store V P → Prop
  | [], _ => True
  | rec :: recs, s =>
    if SnapshotRecord.expired rec now then RestoreMeets C now recs s
    else C s (s.restoreCause rec now) ∧
      ∀ s', s.restoreRecord rec now = .ok (.ok (), s') → RestoreMeets C now recs s'

/-- The write of the cause, if the shard takes it, leaves the shard's costs within int64. -/
def Fits (s : Store V P) (sh : Shard V P) (c : Cause V) : Prop :=
  ∀ ev, c.written s.version = some ev → ¬ s.tooLarge sh ev.key ev.value →
    sh.costBeside ev.key + (s.cost ev.key ev.value).toInt < 2 ^ 63

/-- The key's shard and the keys that hash to each shard. -/
structure WF [LawfulEvictionPolicy P] (s : Store V P) : Prop where
  pos : 0 < s.shards.length
  shard : ∀ i (sh : Shard V P), s.shards[i]? = some sh → sh.WF (s.shardIdx · = i)
  contents : ∀ i (sh : Shard V P) k, s.shards[i]? = some sh → s.shardIdx k = i →
    sh.pair? k = s.contents k

end Store

/-- The moves that `op` makes meet `C`. -/
def Op.Meets [EvictionPolicy P] (C : Store V P → Cause V → Prop) (s : Store V P) : Op V → Prop
  | .set key v _ _ => C s (.fresh key v)
  | .compareAndSwap key expected v _ now => s.swaps key expected now = true → C s (.fresh key v)
  | .expire key d now => (s.live key now).isSome → 0 < d → C s (.deadline (now + d.toInt))
  | .restore (.ok recs) now => s.RestoreMeets C now recs
  | _ => True

/-! ## Moves -/

section

variable [EvictionPolicy P] [LawfulEvictionPolicy P] {K : String → Prop}

/-- What a locked function does to the store and to its shard. -/
structure Changed (K : String → Prop) (s : Store V P) (sh : Shard V P) (c : Cause V)
    (evs : List (Event V)) (s' : Store V P) (sh' : Shard V P) : Prop where
  shards : s'.shards = s.shards
  hash : s'.hash = s.hash
  cost : s'.cost = s.cost
  version : s'.version = c.versionAfter s.version
  nextWatcher : s'.nextWatcher = s.nextWatcher
  watchers : ∀ n, s'.watchers.get? n = (s.watchers.get? n).map fun w => evs.foldl Watcher.offer w
  log : s'.log = s.log ++ evs
  wf : sh'.WF K
  maxCost : sh'.maxCost = sh.maxCost
  pairs : sh'.pair? = contentsAfter evs sh.pair?
  keys : ∀ ev ∈ evs, K ev.key
  target : ∀ ev, c.written s.version = some ev → K ev.key
  events : ∃ removed, (∀ ev ∈ removed, ev.type ≠ .set) ∧
    (evs = removed ∨ ∃ ev, c.written s.version = some ev ∧ evs = removed ++ [ev])
  timed : c ≠ .deadline 0 → sh.Timed → sh'.Timed
  priced : sh.Priced s.cost → sh'.Priced s.cost
  bounded : (∀ k v, 0 ≤ (s.cost k v).toInt) → s.Fits sh c → sh.Bounded → sh'.Bounded
  total : sh.Bounded → sh'.totalCost ≤ sh.totalCost ∨ ∃ ev, c.written s.version = some ev ∧
    ¬ s.tooLarge sh ev.key ev.value ∧
      sh'.totalCost ≤ sh.costBeside ev.key + (s.cost ev.key ev.value).toInt

/-- A move of the store: a locked function has run on the shard `i`. -/
def Store.Moved (s : Store V P) (c : Cause V) (s' : Store V P) : Prop :=
  ∃ i sh evs s₁ sh', s.shards[i]? = some sh ∧ Changed (s.shardIdx · = i) s sh c evs s₁ sh' ∧
    s' = { s₁ with shards := s₁.shards.set i sh' }

/-- Moves one after the other, whose causes meet `C`. -/
inductive Store.Moves (C : Store V P → Cause V → Prop) : Store V P → Store V P → Prop where
  | refl (s : Store V P) : Moves C s s
  | step {s s' s'' : Store V P} {c : Cause V} :
      Moves C s s' → C s' c → s'.Moved c s'' → Moves C s s''

variable {C : Store V P → Cause V → Prop} {s s' s'' : Store V P} {sh sh' sh'' : Shard V P}
  {c : Cause V} {evs evs' : List (Event V)} {key k : String} {now : Time}

theorem Store.Moved.moves (hC : C s c) (h : s.Moved c s') : Store.Moves C s s' :=
  .step (.refl s) hC h

theorem Store.Moves.trans (h : Store.Moves C s s') (h' : Store.Moves C s' s'') :
    Store.Moves C s s'' := by
  induction h' with
  | refl => exact h
  | step _ hC hm ih => exact .step ih hC hm

theorem Store.Moved.length_shards (h : s.Moved c s') : s'.shards.length = s.shards.length := by
  obtain ⟨i, sh, evs, s1, sh', -, hch, rfl⟩ := h
  rw [List.length_set, hch.shards]

theorem Store.Moves.length_shards (h : Store.Moves C s s') :
    s'.shards.length = s.shards.length := by
  induction h with
  | refl => rfl
  | step _ _ hm ih => exact hm.length_shards.trans ih

theorem Store.Moved.shardIdx (h : s.Moved c s') (k : String) : s'.shardIdx k = s.shardIdx k := by
  obtain ⟨i, sh, evs, s1, sh', -, hch, rfl⟩ := h
  simp only [Store.shardIdx, List.length_set, hch.hash, hch.shards]

theorem Store.Moved.shard (h : s.Moved c s') {j : Nat} (hj : s'.shards[j]? = some sh') :
    (∃ sh evs s1, s.shards[j]? = some sh ∧ Changed (s.shardIdx · = j) s sh c evs s1 sh' ∧
        s'.log = s.log ++ evs) ∨
      (s.shards[j]? = some sh' ∧ ∃ evs, s'.log = s.log ++ evs ∧ ∀ ev ∈ evs,
        s.shardIdx ev.key ≠ j) := by
  obtain ⟨i, sh, evs, s1, sh1, hi, hch, rfl⟩ := h
  rw [List.getElem?_set, hch.shards] at hj
  split at hj
  next hij =>
    subst hij
    split at hj
    next =>
      cases hj
      exact Or.inl ⟨sh, evs, s1, hi, hch, hch.log⟩
    next => cases hj
  next hij =>
    refine Or.inr ⟨hj, evs, hch.log, fun ev hev => ?_⟩
    rw [hch.keys ev hev]
    exact hij

theorem Store.Moved.wf (hm : s.Moved c s') (h : s.WF) : s'.WF := by
  have hidx := hm.shardIdx
  refine ⟨hm.length_shards ▸ h.pos, fun j sh' hj => ?_, fun j sh' k hj hk => ?_⟩
  · simp only [hidx]
    rcases hm.shard hj with ⟨sh, evs, s1, -, hch, -⟩ | ⟨hj', -⟩
    · exact hch.wf
    · exact h.shard j sh' hj'
  · rw [hidx] at hk
    rcases hm.shard hj with ⟨sh, evs, s1, hj', hch, hlog⟩ | ⟨hj', evs, hlog, hne⟩
    · rw [hch.pairs, Store.contents, hlog, contentsAfter_append]
      exact UpdateLog.replay_congr _ (h.contents j sh k hj' hk)
    · rw [h.contents j sh' k hj' hk, Store.contents, Store.contents, hlog, contentsAfter_append]
      exact (contentsAfter_of_ne (fun ev hev e => hne ev hev (e ▸ hk)) _).symm

theorem Store.Moves.wf (hm : Store.Moves C s s') (h : s.WF) : s'.WF := by
  induction hm with
  | refl => exact h
  | step _ _ hm ih => exact hm.wf ih

theorem Store.Moved.cost (h : s.Moved c s') : s'.cost = s.cost := by
  obtain ⟨i, sh, evs, s1, sh', -, hch, rfl⟩ := h
  exact hch.cost

theorem Store.Moved.version (h : s.Moved c s') : s'.version = c.versionAfter s.version := by
  obtain ⟨i, sh, evs, s1, sh', -, hch, rfl⟩ := h
  exact hch.version

theorem Store.Moved.nextWatcher (h : s.Moved c s') : s'.nextWatcher = s.nextWatcher := by
  obtain ⟨i, sh, evs, s1, sh', -, hch, rfl⟩ := h
  exact hch.nextWatcher

/-- The new events, which every watcher has been offered: removals, then the write
    if it is taken. -/
theorem Store.Moved.log (h : s.Moved c s') : ∃ evs, s'.log = s.log ++ evs ∧
      (∀ n, s'.watchers.get? n = (s.watchers.get? n).map fun w => evs.foldl Watcher.offer w) ∧
      ∃ removed, (∀ ev ∈ removed, ev.type ≠ .set) ∧
        (evs = removed ∨ ∃ ev, c.written s.version = some ev ∧ evs = removed ++ [ev]) := by
  obtain ⟨i, sh, evs, s1, sh', -, hch, rfl⟩ := h
  exact ⟨evs, hch.log, hch.watchers, hch.events⟩

end

open LawfulEvictionPolicy List

variable {V P α : Type} [EvictionPolicy P] [LawfulEvictionPolicy P] {K : String → Prop}
  {C : Store V P → Cause V → Prop} {s s' s'' : Store V P} {sh sh' sh'' : Shard V P} {c : Cause V}
  {evs evs' : List (Event V)} {key k : String} {now : Time} {r : Ref}

/-! ## Locked functions as changes -/

theorem Reclaims.changed (h : Reclaims K s sh evs s' sh') : Changed K s sh .quiet evs s' sh' :=
  ⟨h.published.shards, h.published.hash, h.published.cost, h.published.version,
    h.published.nextWatcher, h.published.watchers, h.published.log, h.wf, h.kept.maxCost, h.pairs,
    fun ev hev => (h.events ev hev).2,
    nofun, ⟨evs, fun ev hev => (h.events ev hev).1, Or.inl rfl⟩, fun _ => h.kept.timed,
    h.kept.priced, fun _ _ => h.kept.bounded, fun hb => Or.inl (h.kept.totalCost_le hb)⟩

theorem Reclaims.publishedNil (h : Reclaims K s sh evs s' sh') (hs : s'.Published [] s'') :
    Reclaims K s sh evs s'' sh' :=
  ⟨by simpa using h.published.trans hs, h.wf, h.kept, h.pairs, h.events⟩

theorem Reclaims.changed_trans (h : Reclaims K s sh evs s' sh')
    (h' : Changed K s' sh' c evs' s'' sh'') : Changed K s sh c (evs ++ evs') s'' sh'' := by
  have hver := h.published.version
  obtain ⟨removed, hremoved, hevs⟩ := h'.events
  refine ⟨h'.shards.trans h.published.shards, h'.hash.trans h.published.hash,
    h'.cost.trans h.published.cost, hver ▸ h'.version,
    h'.nextWatcher.trans h.published.nextWatcher, fun n => ?_, ?_, h'.wf,
    h'.maxCost.trans h.kept.maxCost, ?_, fun ev hev => ?_, fun ev hev => h'.target ev (hver ▸ hev),
    ⟨evs ++ removed, fun ev hev => ?_, ?_⟩, fun hc ht => h'.timed hc (h.kept.timed ht),
    fun hp => ?_, fun hcost hfits hb => ?_, fun hb => ?_⟩
  · rw [h'.watchers, h.published.watchers, Option.map_map]
    refine congrArg (Option.map · _) (funext fun w => ?_)
    rw [Function.comp_apply, foldl_append]
  · rw [h'.log, h.published.log, append_assoc]
  · rw [h'.pairs, h.pairs, contentsAfter_append]
  · rcases mem_append.mp hev with hev | hev
    · exact (h.events ev hev).2
    · exact h'.keys ev hev
  · rcases mem_append.mp hev with hev | hev
    · exact (h.events ev hev).1
    · exact hremoved ev hev
  · rcases hevs with rfl | ⟨ev, hev, rfl⟩
    · exact Or.inl rfl
    · exact Or.inr ⟨ev, hver ▸ hev, (append_assoc ..).symm⟩
  · rw [← h.published.cost] at hp ⊢
    exact h'.priced (h.kept.priced hp)
  · refine h'.bounded (fun k v => ?_) (fun ev hev hfit => ?_) (h.kept.bounded hb)
    · rw [h.published.cost]
      exact hcost k v
    · rw [Store.tooLarge, h.published.cost, h.kept.maxCost] at hfit
      rw [h.published.cost]
      have hle := h.kept.costBeside_le hb ev.key
      have := hfits ev (hver ▸ hev) hfit
      omega
  · rcases h'.total (h.kept.bounded hb) with hle | ⟨ev, hev, hfit, hle⟩
    · exact Or.inl (hle.trans (h.kept.totalCost_le hb))
    · rw [Store.tooLarge, h.published.cost, h.kept.maxCost] at hfit
      rw [h.published.cost] at hle
      have hbeside := h.kept.costBeside_le hb ev.key
      exact Or.inr ⟨ev, hver ▸ hev, hfit, by omega⟩

theorem Changed.silent (s : Store V P) (hwf : sh'.WF K) (hmax : sh'.maxCost = sh.maxCost)
    (hpairs : sh'.pair? = sh.pair?) (htarget : ∀ ev, c.written s.version = some ev → K ev.key)
    (htimed : c ≠ .deadline 0 → sh.Timed → sh'.Timed)
    (hpriced : sh.Priced s.cost → sh'.Priced s.cost) (hbounded : sh.Bounded → sh'.Bounded)
    (htotal : sh'.totalCost = sh.totalCost) :
    Changed K s sh c [] { s with version := c.versionAfter s.version } sh' :=
  ⟨rfl, rfl, rfl, rfl, rfl, fun _ => by simp, (append_nil _).symm, hwf, hmax, hpairs,
    nofun, htarget,
    ⟨[], nofun, Or.inl rfl⟩, htimed, hpriced, fun _ _ => hbounded,
    fun _ => Or.inl (le_of_eq htotal)⟩

theorem putLocked_changed {version : UInt64} {v : V} {t : Time} (h : sh.WF K) (hK : K key)
    (s : Store V P) (hver : c.written s.version = some (setEvent key v version)) (now : Time) :
    ∃ res evs s' sh',
      ({ s with version := c.versionAfter s.version } : Store V P).putLocked sh key v
        t version now =
        .ok (res, s', sh') ∧ s'.version = c.versionAfter s.version ∧
        Changed K s sh c evs s' sh' := by
  set s0 : Store V P := { s with version := c.versionAfter s.version } with hs0
  have htarget : ∀ ev, c.written s.version = some ev → K ev.key := by
    intro ev hev
    rw [hver] at hev
    rw [← Option.some.inj hev]
    exact hK
  by_cases hfit : s0.tooLarge sh key v
  · exact ⟨_, [], s0, sh, putLocked_rejected hfit, rfl,
      .silent s h rfl rfl htarget (fun _ ht => ht) (fun hp => hp) (fun hb => hb) rfl⟩
  obtain ⟨evs, s', sh', hrun, hput⟩ := putLocked_spec t version now h hK hfit
  have hpub := hput.published
  have hfit' : ¬ s.tooLarge sh key v := by
    simpa only [Store.tooLarge, hs0] using hfit
  refine ⟨_, _, s', sh', hrun, hpub.version, hpub.shards, hpub.hash, hpub.cost, hpub.version,
    hpub.nextWatcher, hpub.watchers, hpub.log, hput.wf, hput.maxCost, hput.pairs,
    fun ev hev => ?_, htarget,
    ⟨evs, fun ev hev => (hput.events ev hev).1, Or.inr ⟨_, hver, rfl⟩⟩, fun _ => hput.timed,
    hput.priced, fun hcost hfits hb => ?_, fun hb => ?_⟩
  · rcases mem_append.mp hev with hev | hev
    · exact (hput.events ev hev).2
    · rw [mem_singleton.mp hev]
      exact hK
  · have hsmall := hfits _ hver hfit'
    simp only [setEvent] at hsmall
    exact hput.bounded hb (hcost key v) hsmall
  · exact Or.inr ⟨_, hver, hfit', hput.total hb⟩

theorem putNew_changed (h : sh.WF K) (hK : K key) (s : Store V P) (v : V) (ttl : Duration)
    (now : Time) : ∃ res evs s' sh', s.putNew sh key v ttl now = .ok (res, s', sh') ∧
      Changed K s sh (.fresh key v) evs s' sh' := by
  obtain ⟨res, evs, s', sh', hrun, -, hch⟩ := putLocked_changed (c := .fresh key v)
    (t := deadline now ttl) h hK s rfl now
  refine ⟨res.map fun _ => s.version + 1, evs, s', sh', ?_, hch⟩
  simp only [Cause.versionAfter] at hrun
  simp only [Store.putNew, hrun, bind, Except.bind, pure, Except.pure]

theorem liveLocked_live (hi : s.shards[s.shardIdx key]? = some sh) (h : sh.WF K) (now : Time) :
    (∃ r, sh.items.get? key = some r ∧ s.live key now = some (sh.entry r) ∧
        s.liveLocked sh key now = .ok (some r, s, sh)) ∨
      (s.live key now = none ∧ ∃ evs s' sh', s.liveLocked sh key now = .ok (none, s', sh') ∧
        Reclaims K s sh evs s' sh') := by
  rcases liveLocked_spec s h key now with ⟨r, hk, hexp, hrun⟩ | ⟨hexp, evs, s', sh', hrun, hrec, -⟩
  · refine Or.inl ⟨r, hk, ?_, hrun⟩
    simp [Store.live, hi, hk, hexp]
  · refine Or.inr ⟨?_, evs, s', sh', hrun, hrec⟩
    cases hk : sh.items.get? key with
    | none => simp [Store.live, hi, hk]
    | some r => simp [Store.live, hi, hk, hexp r hk]

/-! ## Operations on one shard -/

/-- Some run of a locked function on the shard `i` of `s`, with a cause that meets `C`. -/
def LockedMove (C : Store V P → Cause V → Prop) (s : Store V P) (i : Nat) (sh : Shard V P)
    {α : Type} (res : Except GoPanic (α × Store V P × Shard V P)) : Prop :=
  ∃ a c evs s₁ sh', res = .ok (a, s₁, sh') ∧ C s c ∧ Changed (s.shardIdx · = i) s sh c evs s₁ sh'

variable {f : Store V P → Shard V P → Except GoPanic (α × Store V P × Shard V P)}

omit [EvictionPolicy P] [LawfulEvictionPolicy P] in
theorem withShardAt_ok {i : Nat} {a : α} {s1 : Store V P}
    (hi : s.shards[i]? = some sh) (hf : f s sh = .ok (a, s1, sh')) :
    s.withShardAt i f = .ok (a, { s1 with shards := s1.shards.set i sh' }) := by
  simp only [Store.withShardAt, hi, hf, bind, Except.bind, pure, Except.pure]

theorem withShardAt_moves {i : Nat}
    (hi : s.shards[i]? = some sh) (hf : LockedMove C s i sh (f s sh)) :
    ∃ a s', s.withShardAt i f = .ok (a, s') ∧ Store.Moves C s s' := by
  obtain ⟨a, c, evs, s1, sh', hrun, hC, hch⟩ := hf
  have hmoved : s.Moved c { s1 with shards := s1.shards.set i sh' } :=
    ⟨i, sh, evs, s1, sh', hi, hch, rfl⟩
  exact ⟨a, _, withShardAt_ok hi hrun, hmoved.moves hC⟩

theorem Store.WF.shardOf (h : s.WF) (key : String) :
    ∃ sh, s.shards[s.shardIdx key]? = some sh ∧ sh.WF (s.shardIdx · = s.shardIdx key) := by
  have hlt : s.shardIdx key < s.shards.length := Nat.mod_lt _ h.pos
  have hi : s.shards[s.shardIdx key]? = some s.shards[s.shardIdx key] := getElem?_eq_getElem hlt
  exact ⟨_, hi, h.shard _ _ hi⟩

theorem withShard_live_moves (h : s.WF) (key : String) (now : Time)
    (hfound : ∀ sh r, s.shards[s.shardIdx key]? = some sh →
      sh.WF (s.shardIdx · = s.shardIdx key) → sh.items.get? key = some r →
      s.live key now = some (sh.entry r) → s.liveLocked sh key now = .ok (some r, s, sh) →
      LockedMove C s (s.shardIdx key) sh (f s sh))
    (hmissing : ∀ sh evs s' sh', s.shards[s.shardIdx key]? = some sh →
      s.live key now = none → s.liveLocked sh key now = .ok (none, s', sh') →
      Reclaims (s.shardIdx · = s.shardIdx key) s sh evs s' sh' →
      LockedMove C s (s.shardIdx key) sh (f s sh)) :
    ∃ a s', s.withShard key f = .ok (a, s') ∧ Store.Moves C s s' := by
  obtain ⟨sh, hi, hwf⟩ := h.shardOf key
  refine withShardAt_moves hi ?_
  rcases liveLocked_live hi hwf now with ⟨r, hk, hlive, hrun⟩ | ⟨hlive, evs, s', sh', hrun, hrec⟩
  · exact hfound sh r hi hwf hk hlive hrun
  · exact hmissing sh evs s' sh' hi hlive hrun hrec

section

variable (hquiet : ∀ s, C s .quiet) (h : s.WF)

include hquiet h

theorem getVersioned_moves (key : String) (now : Time) :
    ∃ a s', s.getVersioned key now = .ok (a, s') ∧ Store.Moves C s s' := by
  refine withShard_live_moves h key now (fun sh r hi hwf hk hlive hrun => ?_)
    fun sh evs s' sh' hi hlive hrun hrec => ?_
  · obtain ⟨p', hpol, hok, hperm⟩ := onAccess_ok key hwf.policy_ok
    have hhits : s.Published [] { s with hits := s.hits + 1 } :=
      ⟨rfl, rfl, rfl, rfl, rfl, fun _ => by simp, by simp⟩
    have hrec := (Reclaims.withPolicy s hwf hok hperm).publishedNil hhits
    refine ⟨some ((sh.entry r).value, (sh.entry r).version), .quiet, [], _, _, ?_, hquiet s,
      hrec.changed⟩
    simp only [hrun, hpol, bind, Except.bind, pure, Except.pure]
  · have hmisses : s'.Published [] { s' with misses := s'.misses + 1 } :=
      ⟨rfl, rfl, rfl, rfl, rfl, fun _ => by simp, by simp⟩
    have hrec' := hrec.publishedNil hmisses
    refine ⟨none, .quiet, evs, _, sh', ?_, hquiet s, hrec'.changed⟩
    simp only [hrun, bind, Except.bind, pure, Except.pure]

theorem delete_moves (key : String) (now : Time) :
    ∃ a s', s.delete key now = .ok (a, s') ∧ Store.Moves C s s' := by
  refine withShard_live_moves h key now (fun sh r hi hwf hk hlive hrun => ?_)
    fun sh evs s' sh' hi hlive hrun hrec => ?_
  · have hpub := s.publish_published { Store.eventOf .delete (sh.entry r) with key }
    obtain ⟨sh', hrem, hrec, -⟩ := removeLocked_reclaims hwf hk EventType.noConfusion rfl hpub
    refine ⟨true, .quiet, _, _, sh', ?_, hquiet s, hrec.changed⟩
    simp only [hrun, hrem, bind, Except.bind, pure, Except.pure]
  · refine ⟨false, .quiet, evs, s', sh', ?_, hquiet s, hrec.changed⟩
    simp only [hrun, bind, Except.bind, pure, Except.pure]

theorem ttl_moves (key : String) (now : Time) :
    ∃ a s', s.ttl key now = .ok (a, s') ∧ Store.Moves C s s' := by
  refine withShard_live_moves h key now (fun sh r hi hwf hk hlive hrun => ?_)
    fun sh evs s' sh' hi hlive hrun hrec => ?_
  · refine ⟨if (sh.entry r).expiresAt =
      0 then some noTTL else some (timeSub (sh.entry r).expiresAt now),
      .quiet, [], s, sh, ?_, hquiet s, (Reclaims.refl s hwf).changed⟩
    simp only [hrun, bind, Except.bind, pure, Except.pure]
    split <;> rfl
  · refine ⟨none, .quiet, evs, s', sh', ?_, hquiet s, hrec.changed⟩
    simp only [hrun, bind, Except.bind, pure, Except.pure]

theorem persist_moves (key : String) (now : Time) :
    ∃ a s', s.persist key now = .ok (a, s') ∧ Store.Moves C s s' := by
  refine withShard_live_moves h key now (fun sh r hi hwf hk hlive hrun => ?_)
    fun sh evs s' sh' hi hlive hrun hrec => ?_
  · obtain ⟨sh', hun, hwf', hret, hout⟩ := Shard.persist_spec hwf hk
    refine ⟨true, .quiet, [], s, _, ?_, hquiet s, .silent s hwf' hret.maxCost hret.pair?
      nofun (fun _ => hret.timed ?_) hret.priced hret.bounded hret.totalCost⟩
    · simp only [hrun, hun, bind, Except.bind, pure, Except.pure]
    · exact iff_of_false hout (not_not.mpr rfl)
  · refine ⟨false, .quiet, evs, s', sh', ?_, hquiet s, hrec.changed⟩
    simp only [hrun, bind, Except.bind, pure, Except.pure]

theorem expire_moves (key : String) (d : Duration) (now : Time)
    (hC : (s.live key now).isSome → 0 < d → C s (.deadline (now + d.toInt))) :
    ∃ a s', s.expire key d now = .ok (a, s') ∧ Store.Moves C s s' := by
  refine withShard_live_moves h key now (fun sh r hi hwf hk hlive hrun => ?_)
    fun sh evs s' sh' hi hlive hrun hrec => ?_
  · by_cases hd : d ≤ 0
    · obtain ⟨ev, s', sh', hexp, hrec, -⟩ := expireLocked_spec s hwf hk
      refine ⟨true, .quiet, [ev], s', sh', ?_, hquiet s, hrec.changed⟩
      simp only [hrun, if_pos hd, hexp, bind, Except.bind, pure, Except.pure]
    obtain ⟨sh', hre, hwf', hret, hin⟩ := Shard.reschedule_spec hwf hk (now + d.toInt)
    have hpos : 0 < d := by
      rw [Int64.le_iff_toInt_le] at hd
      rw [Int64.lt_iff_toInt_lt]
      omega
    refine ⟨true, .deadline (now + d.toInt), [], s, sh', ?_,
      hC (by rw [hlive]; rfl) hpos, .silent s hwf' hret.maxCost hret.pair?
        nofun (fun hne => hret.timed ?_) hret.priced hret.bounded hret.totalCost⟩
    · simp only [hrun, if_neg hd, hre, bind, Except.bind, pure, Except.pure]
    · exact iff_of_true hin fun h0 => hne (by rw [h0])
  · refine ⟨false, .quiet, evs, s', sh', ?_, hquiet s, hrec.changed⟩
    simp only [hrun, bind, Except.bind, pure, Except.pure]

theorem compareAndSwap_moves (key : String) (expected : UInt64) (v : V) (d : Duration) (now : Time)
    (hC : s.swaps key expected now = true → C s (.fresh key v)) :
    ∃ a s', s.compareAndSwap key expected v d now = .ok (a, s') ∧ Store.Moves C s s' := by
  refine withShard_live_moves h key now (fun sh r hi hwf hk hlive hrun => ?_)
    fun sh evs s' sh' hi hlive hrun hrec => ?_
  · by_cases hcmp : expected = 0 ∨ (sh.entry r).version ≠ expected
    · refine ⟨.error .versionMismatch, .quiet, [], s, sh, ?_, hquiet s,
        (Reclaims.refl s hwf).changed⟩
      simp only [hrun, if_pos hcmp, bind, Except.bind, pure, Except.pure]
    obtain ⟨res, evs, s', sh', hput, hch⟩ := putNew_changed hwf rfl s v d now
    rw [not_or, not_not] at hcmp
    refine ⟨res, .fresh key v, evs, s', sh', ?_, hC ?_, hch⟩
    · simp only [hrun, bind, Except.bind]
      rw [if_neg (by rwa [not_or, not_not])]
      exact hput
    · simp [Store.swaps, hlive, hcmp.1, hcmp.2]
  · by_cases hcmp : expected ≠ 0
    · refine ⟨.error .notFound, .quiet, evs, s', sh', ?_, hquiet s, hrec.changed⟩
      simp only [hrun, if_pos hcmp, bind, Except.bind, pure, Except.pure]
    · obtain ⟨res, evs', s'', sh'', hput, hch⟩ := putNew_changed hrec.wf rfl s' v d now
      refine ⟨res, .fresh key v, _, s'', sh'', ?_, hC ?_, hrec.changed_trans hch⟩
      · simp only [hrun, if_neg hcmp, bind, Except.bind]
        exact hput
      · simp [Store.swaps, hlive, not_not.mp hcmp]

end

theorem set_moves (h : s.WF) (key : String) (v : V) (d : Duration) (now : Time)
    (hC : C s (.fresh key v)) : ∃ a s', s.set key v d now = .ok (a, s') ∧ Store.Moves C s s' := by
  obtain ⟨sh, hi, hwf⟩ := h.shardOf key
  obtain ⟨res, evs, s', sh', hput, hch⟩ := putNew_changed hwf rfl s v d now
  exact withShardAt_moves (f := fun s sh => s.putNew sh key v d now) hi
    ⟨res, .fresh key v, evs, s', sh', hput, hC, hch⟩

/-! ## DeleteExpired and Restore -/

theorem deleteExpiredLoop_moves (hquiet : ∀ s, C s .quiet) (now : Nat → Time) (more i : Nat)
    (h : s.WF) (hi : i + more = s.shards.length) (n : Nat) :
    ∃ m s', Store.deleteExpiredLoop now more i s n = .ok (m, s') ∧ Store.Moves C s s' := by
  induction more generalizing s i n with
  | zero => exact ⟨n, s, rfl, .refl s⟩
  | succ _ ih =>
    have hlt : i < s.shards.length := by omega
    have hsh : s.shards[i]? = some s.shards[i] := getElem?_eq_getElem hlt
    obtain ⟨evs, m, s1, sh', hpurge, hrec⟩ := purgeExpiredLocked_spec s (h.shard i _ hsh) (now i)
    obtain ⟨m', s2, hrun, hmoves⟩ := withShardAt_moves (C := C)
      (f := fun s sh => s.purgeExpiredLocked sh (now i)) hsh
      ⟨m, .quiet, evs, s1, sh', hpurge, hquiet s, hrec.changed⟩
    have hlen : s2.shards.length = s.shards.length := hmoves.length_shards
    obtain ⟨m'', s', hloop, hmoves'⟩ := ih (i + 1) (hmoves.wf h) (by omega) (n + m')
    refine ⟨m'', s', ?_, hmoves.trans hmoves'⟩
    simp only [Store.deleteExpiredLoop, hrun, bind, Except.bind]
    exact hloop

theorem deleteExpired_moves (hquiet : ∀ s, C s .quiet) (h : s.WF) (now : Nat → Time) :
    ∃ n s', s.deleteExpired now = .ok (n, s') ∧ Store.Moves C s s' :=
  deleteExpiredLoop_moves hquiet now _ 0 h (Nat.zero_add _) 0

theorem restoreRecord_moves (h : s.WF) (rec : SnapshotRecord V) (now : Time) :
    ∃ res s', s.restoreRecord rec now = .ok (res, s') ∧ s.Moved (s.restoreCause rec now) s' := by
  obtain ⟨sh, hi, hwf⟩ := h.shardOf rec.key
  set s0 : Store V P := { s with version := max s.version rec.version } with hs0
  have hlive : s.live rec.key now = (sh.items.get? rec.key).bind fun r =>
      if (sh.entry r).expired now then none else some (sh.entry r) := by
    simp [Store.live, hi]
  obtain ⟨res, evs, s1, sh', hrun, hch⟩ : ∃ res evs s1 sh',
      s0.restoreLocked sh rec now = .ok (res, s1, sh') ∧
        Changed (s.shardIdx · = s.shardIdx rec.key) s sh (s.restoreCause rec now) evs s1 sh' := by
    obtain ⟨res, evs, s1, sh', hput, -, hch⟩ := putLocked_changed (c := .load rec)
      (t := rec.expiresAt.getD 0) hwf rfl s rfl now
    have hload : s.restoreCause rec now = .load rec →
        s0.restoreLocked sh rec now =
          s0.putLocked sh rec.key rec.value (rec.expiresAt.getD 0) rec.version now →
        ∃ res evs s1 sh', s0.restoreLocked sh rec now = .ok (res, s1, sh') ∧
          Changed (s.shardIdx · = s.shardIdx rec.key) s sh (s.restoreCause rec now) evs s1 sh' :=
      fun hcause heq => ⟨res, evs, s1, sh', heq.trans hput, hcause ▸ hch⟩
    cases hk : sh.items.get? rec.key with
    | none =>
      rw [hk] at hlive
      exact hload (by simp [Store.restoreCause, hlive]) (by simp [Store.restoreLocked, hk])
    | some r =>
    rw [hk] at hlive
    by_cases hexp : (sh.entry r).expired now = true
    · exact hload (by simp [Store.restoreCause, hlive, hexp])
        (by simp [Store.restoreLocked, hk, hexp])
    by_cases hver : (sh.entry r).version ≥ rec.version
    · have hcause : s.restoreCause rec now = .keep rec := by
        simp [Store.restoreCause, hlive, hexp, hver]
      refine ⟨.ok (), [], s0, sh, by simp [Store.restoreLocked, hk, hexp, hver], ?_⟩
      rw [hcause]
      exact .silent s hwf rfl rfl nofun (fun _ ht => ht) (fun hp => hp) (fun hb => hb) rfl
    · exact hload (by simp [Store.restoreCause, hlive, hexp, hver])
        (by simp [Store.restoreLocked, hk, hver])
  exact ⟨res, _, withShardAt_ok (s := s0) (f := fun s sh => s.restoreLocked sh rec now) hi hrun,
    s.shardIdx rec.key, sh, evs, s1, sh', hi, hch, rfl⟩

theorem restoreLoop_moves (now : Time) (recs : List (SnapshotRecord V)) (h : s.WF)
    (hC : s.RestoreMeets C now recs) :
    ∃ res s', s.restoreLoop now recs = .ok (res, s') ∧ Store.Moves C s s' := by
  induction recs generalizing s with
  | nil => exact ⟨_, s, rfl, .refl s⟩
  | cons rec _ ih =>
    simp only [Store.RestoreMeets] at hC
    by_cases hexp : Store.SnapshotRecord.expired rec now = true
    · rw [if_pos hexp] at hC
      obtain ⟨res, s', hrun, hmoves⟩ := ih h hC
      exact ⟨res, s', (if_pos hexp).trans hrun, hmoves⟩
    rw [if_neg hexp] at hC
    obtain ⟨res, s1, hrec, hmoved⟩ := restoreRecord_moves h rec now
    have hstep := hmoved.moves hC.1
    cases res with
    | error err =>
      refine ⟨.error (.put rec.key err), s1, (if_neg hexp).trans ?_, hstep⟩
      simp only [hrec, bind, Except.bind, pure, Except.pure]
    | ok =>
      obtain ⟨res, s', hrun, hmoves⟩ := ih (hmoved.wf h) (hC.2 s1 hrec)
      refine ⟨res, s', (if_neg hexp).trans ?_, hstep.trans hmoves⟩
      simp only [hrec, bind, Except.bind]
      exact hrun

/-! ## One operation -/

/-- The operation is not about watchers. -/
def Op.onData : Op V → Bool
  | .watch _ => false
  | .cancelWatch _ => false
  | .receive _ => false
  | _ => true

/-- What each operation does to the store: the shard that changed, and the events it published. -/
theorem step_moves (hquiet : ∀ s, C s .quiet) (h : s.WF) {op : Op V} (hdata : op.onData = true)
    (hC : op.Meets C s) : ∃ reply s', s.step op = .ok (reply, s') ∧ Store.Moves C s s' := by
  cases op with
  | set key v d now =>
    obtain ⟨a, s', hrun, hm⟩ := set_moves h key v d now hC
    exact ⟨.version a, s', by simp only [Store.step, hrun, bind, Except.bind, pure, Except.pure],
      hm⟩
  | get key now =>
    obtain ⟨a, s', hrun, hm⟩ := getVersioned_moves hquiet h key now
    exact ⟨.value (a.map Prod.fst), s', by
      simp only [Store.step, Store.get, hrun, bind, Except.bind, pure, Except.pure], hm⟩
  | getVersioned key now =>
    obtain ⟨a, s', hrun, hm⟩ := getVersioned_moves hquiet h key now
    exact ⟨.versioned a, s', by
      simp only [Store.step, hrun, bind, Except.bind, pure, Except.pure], hm⟩
  | delete key now =>
    obtain ⟨a, s', hrun, hm⟩ := delete_moves hquiet h key now
    exact ⟨.done a, s', by simp only [Store.step, hrun, bind, Except.bind, pure, Except.pure], hm⟩
  | compareAndSwap key expected v d now =>
    obtain ⟨a, s', hrun, hm⟩ := compareAndSwap_moves hquiet h key expected v d now hC
    exact ⟨.version a, s', by simp only [Store.step, hrun, bind, Except.bind, pure, Except.pure],
      hm⟩
  | expire key d now =>
    obtain ⟨a, s', hrun, hm⟩ := expire_moves hquiet h key d now hC
    exact ⟨.done a, s', by simp only [Store.step, hrun, bind, Except.bind, pure, Except.pure], hm⟩
  | persist key now =>
    obtain ⟨a, s', hrun, hm⟩ := persist_moves hquiet h key now
    exact ⟨.done a, s', by simp only [Store.step, hrun, bind, Except.bind, pure, Except.pure], hm⟩
  | ttl key now =>
    obtain ⟨a, s', hrun, hm⟩ := ttl_moves hquiet h key now
    exact ⟨.remaining a, s', by
      simp only [Store.step, hrun, bind, Except.bind, pure, Except.pure], hm⟩
  | keys => exact ⟨_, s, rfl, .refl s⟩
  | deleteExpired now =>
    obtain ⟨a, s', hrun, hm⟩ := deleteExpired_moves hquiet h now
    exact ⟨.removed a, s', by
      simp only [Store.step, hrun, bind, Except.bind, pure, Except.pure], hm⟩
  | watch | cancelWatch | receive => cases hdata
  | stats | snapshot => exact ⟨_, s, rfl, .refl s⟩
  | restore decoded now =>
    cases decoded with
    | error => exact ⟨_, s, rfl, .refl s⟩
    | ok recs =>
      obtain ⟨a, s', hrun, hm⟩ := restoreLoop_moves now recs h hC
      exact ⟨.restored a, s', by
        simp only [Store.step, Store.restore, hrun, bind, Except.bind, pure, Except.pure], hm⟩

omit [LawfulEvictionPolicy P] in
/-- An operation on the watchers leaves the shards and the log as they are. -/
theorem step_listens (s : Store V P) {op : Op V} (hop : op.onData = false) :
    ∃ reply, ∃ ws : Dict Nat (Watcher V), ∃ n,
      s.step op = .ok (reply, { s with watchers := ws, nextWatcher := n }) := by
  cases op with
  | watch | cancelWatch => exact ⟨_, _, _, rfl⟩
  | receive w =>
    cases hw : s.watchers.get? w with
    | none => exact ⟨.event none, s.watchers,
      s.nextWatcher, by simp [Store.step, Store.receive, hw]⟩
    | some wt =>
      cases hb : wt.buffer with
      | nil =>
        exact ⟨.event none, s.watchers, s.nextWatcher, by
          simp [Store.step, Store.receive, hw, hb]⟩
      | cons ev buffer =>
        exact ⟨.event (some ev), s.watchers.set w { wt with
          buffer, received := wt.received ++ [ev] }, s.nextWatcher, by
          simp [Store.step, Store.receive, hw, hb]⟩
  | _ => cases hop

/-! ## Runs -/

theorem Store.WF.listen (h : s.WF) (ws : Dict Nat (Watcher V)) (n : Nat) :
    Store.WF { s with watchers := ws, nextWatcher := n } := ⟨h.pos, h.shard, h.contents⟩

/-- What every step that meets the condition keeps holds after a run of them. -/
theorem run_keeps (hquiet : ∀ s, C s .quiet) {I : Store V P → Prop}
    (hmove : ∀ s c s', s.WF → C s c → s.Moved c s' → I s → I s')
    (hlisten : ∀ s ws n, I s → I { s with watchers := ws, nextWatcher := n })
    (h : s.WF) (hI : I s) {ops : List (Op V)}
    (hops : Guarded (fun s op => op.Meets C s) Store.step s ops) :
    ∃ out s', runSteps Store.step s ops = .ok (out, s') ∧ s'.WF ∧ I s' := by
  have hmoves : ∀ s s', s.WF → Store.Moves C s s' → I s → I s' := by
    intro s s' hwf hm hI
    induction hm with
    | refl => exact hI
    | step hm hC hmv ih => exact hmove _ _ _ (hm.wf hwf) hC hmv ih
  refine runSteps_invariant (fun _ _ s => s.WF ∧ I s) (fun _ _ s op hs hC => ?_) ⟨h, hI⟩ hops
  by_cases hdata : op.onData = true
  · obtain ⟨reply, s', hrun, hm⟩ := step_moves hquiet hs.1 hdata hC
    exact ⟨reply, s', hrun, hm.wf hs.1, hmoves s s' hs.1 hm hs.2⟩
  · obtain ⟨reply, ws, n, hrun⟩ := step_listens s (Bool.eq_false_iff.mpr hdata)
    exact ⟨reply, _, hrun, hs.1.listen ws n, hlisten s ws n hs.2⟩

omit [LawfulEvictionPolicy P] in
theorem Op.meets_true (s : Store V P) (op : Op V) : op.Meets (fun _ _ => True) s := by
  have hrestore : ∀ now recs (s : Store V P), s.RestoreMeets (fun _ _ => True) now recs := by
    intro now recs
    induction recs with
    | nil => exact fun _ => trivial
    | cons _ _ ih =>
      intro s
      simp only [Store.RestoreMeets]
      split
      next => exact ih s
      next => exact ⟨trivial, fun s' _ => ih s'⟩
  cases op with
  | restore decoded now =>
    cases decoded with
    | error => trivial
    | ok recs => exact hrestore now recs s
  | compareAndSwap => exact fun _ => trivial
  | expire => exact fun _ _ => trivial
  | _ => trivial

theorem new_wf [Inhabited V] (opts : Options V) (hash : String → UInt64) :
    (Store.new opts hash : Store V P).WF := by
  have hshard : ∀ i (sh : Shard V P), (Store.new opts hash : Store V P).shards[i]? = some sh →
      sh = { items := Dict.empty, policy := EvictionPolicy.new,
             expiry := { slots := [], mem := .init Entry.blank }, cost := 0,
             maxCost := opts.perShard } :=
    fun i sh hi => (mem_replicate.mp (mem_of_getElem? hi)).2
  refine ⟨?_, fun i sh hi => ?_, fun i sh k hi _ => ?_⟩
  · have hpos : 0 < opts.numShards.toInt := by
      unfold Options.numShards
      split
      next => decide
      next hn =>
        rw [Int64.le_iff_toInt_le] at hn
        have : (0 : Int64).toInt = 0 := rfl
        omega
    show 0 < (List.replicate opts.numShards.toInt.toNat _).length
    rw [length_replicate]
    omega
  · rw [hshard i sh hi]
    obtain ⟨hok, hkeys⟩ := new_ok (P := P)
    refine ⟨fun k r hk => ?_, hok, List.Perm.of_eq hkeys, ⟨⟨nodup_nil, fun j hj => ?_⟩,
      fun j _ hj => ?_⟩, fun r hr => ?_, fun k r hk => ?_, rfl⟩
    · cases hk
    · exact absurd hj (Nat.not_lt_zero j)
    · exact absurd hj (Nat.not_lt_zero j)
    · cases hr
    · cases hk
  · rw [hshard i sh hi]
    rfl

theorem run_wf (h : s.WF) (ops : List (Op V)) :
    ∃ out s', runSteps Store.step s ops = .ok (out, s') ∧ s'.WF := by
  obtain ⟨out, s', hrun, hwf, -⟩ := run_keeps (C := fun _ _ => True) (I := fun _ => True)
    (fun _ => trivial) (fun _ _ _ _ _ _ _ => trivial) (fun _ _ _ _ => trivial) h trivial
    (Guarded.of_forall (fun s op => op.meets_true s) s ops)
  exact ⟨out, s', hrun, hwf⟩

theorem new_run_wf [Inhabited V] {opts : Options V} {hash : String → UInt64} {ops : List (Op V)}
    {out : List (Reply V)}
    (h : runSteps Store.step (Store.new opts hash : Store V P) ops = .ok (out, s)) :
    s.WF := by
  obtain ⟨out', s', hrun, hwf⟩ := run_wf (new_wf (P := P) opts hash) ops
  rw [h] at hrun
  cases hrun
  exact hwf

end InterviewPrep.KvStore
