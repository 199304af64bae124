/-
  `Restore` of the snapshot of a store with one shard, into a new one.

  The records are loaded in the order of their keys and each goes through `putLocked`.  As long as
  there is room for the record beside those loaded before it nothing is reclaimed, and there is
  when the costs are not negative and the old shard was within its capacity: what is loaded then
  never costs more than what the snapshot was taken from (`snapshot_cost_le`).
-/
import InterviewPrep.KvStore.Representation
import InterviewPrep.KvStore.Restart

namespace InterviewPrep.KvStore

open Lib Store Dict List Option

variable {V P : Type}

/-- What a snapshot would say about the entry of a key. -/
def Shard.record? (sh : Shard V P) (key : String) : Option (SnapshotRecord V) :=
  (sh.items.get? key).map fun r => recordOf (sh.entry r)

theorem expired_recordOf (e : Entry V) (now : Time) :
    SnapshotRecord.expired (recordOf e) now = e.expired now := by
  unfold SnapshotRecord.expired recordOf Entry.expired
  by_cases h : e.expiresAt = 0
  · simp [h]
  · simp [h, ← decide_not]

theorem recordOf_strip {e e' : Entry V} (h : e.strip = e'.strip) : recordOf e = recordOf e' := by
  obtain ⟨hkey, hval, hver, hexp, -⟩ := Entry.fields_of_strip h
  simp only [recordOf, hkey, hval, hver, hexp]

theorem recordOf_reload (e : Entry V) (cost : Int64) :
    recordOf { e with expiresAt := (recordOf e).expiresAt.getD 0, cost, heapIdx := -1 } =
      recordOf e := by
  unfold recordOf
  by_cases h : e.expiresAt = 0
  · simp [h]
  · simp [h]

variable [EvictionPolicy P]

namespace Store

variable {s s' : Store V P} {sh sh' : Shard V P} {key : String} {now : Time}
  {recs : List (SnapshotRecord V)} {rec : SnapshotRecord V}

omit [EvictionPolicy P] in
theorem shardIdx_one (hsh : s.shards = [sh]) (key : String) : s.shardIdx key = 0 := by
  rw [shardIdx, hsh]
  exact Nat.mod_one _

omit [EvictionPolicy P] in
theorem live_one (hsh : s.shards = [sh]) (key : String) (now : Time) :
    (s.live key now).map recordOf =
      (sh.record? key).filter fun rec => !SnapshotRecord.expired rec now := by
  rw [live, shardIdx_one hsh, hsh, Shard.record?]
  cases hr : sh.items.get? key with
  | none => simp [hr]
  | some r =>
    rw [map_some, filter_some, expired_recordOf]
    by_cases hexp : (sh.entry r).expired now = true
    · simp [hr, hexp]
    · simp [hr, hexp]

/-! ## The snapshot of one shard -/

omit [EvictionPolicy P] in
theorem snapshot_perm (hsh : s.shards = [sh]) (now : Time) :
    (s.snapshot now).Perm ((sh.items.items.filter fun x => !(sh.entry x.2).expired now).map
      fun x => recordOf (sh.entry x.2)) := by
  refine (perm_insertionSort ..).trans (List.Perm.of_eq ?_)
  rw [hsh, flatMap_singleton, Dict.values, filterMap_map, ← filterMap_eq_map,
    ← filterMap_eq_filter, filterMap_filterMap]
  refine filterMap_congr fun x _ => ?_
  by_cases hexp : (sh.entry x.2).expired now = true
  · simp [hexp, Option.guard]
  · simp [hexp, Option.guard]

variable [LawfulEvictionPolicy P] {K : String → Prop}

theorem mem_snapshot (hsh : s.shards = [sh]) (h : sh.WF K) : rec ∈ s.snapshot now ↔
      sh.record? rec.key = some rec ∧ SnapshotRecord.expired rec now = false := by
  rw [(snapshot_perm hsh now).mem_iff]
  simp only [List.mem_map, mem_filter, Bool.not_eq_true']
  constructor
  · rintro ⟨x, ⟨hx, hexp⟩, rfl⟩
    have hk := mem_items_iff.mp hx
    have hkey : (recordOf (sh.entry x.2)).key = x.1 := (h.entry x.1 x.2 hk).1
    rw [hkey, Shard.record?, hk, expired_recordOf]
    exact ⟨rfl, hexp⟩
  · rintro ⟨hrec, hexp⟩
    obtain ⟨r, hk, hr⟩ := map_eq_some_iff.mp hrec
    refine ⟨(rec.key, r), ⟨mem_items_iff.mpr hk, ?_⟩, hr⟩
    rw [← expired_recordOf, hr]
    exact hexp

theorem snapshot_keys_nodup (hsh : s.shards = [sh]) (h : sh.WF K) (now : Time) :
    ((s.snapshot now).map (·.key)).Nodup := by
  rw [((snapshot_perm hsh now).map _).nodup_iff, List.map_map]
  refine List.Nodup.sublist ?_ sh.items.keys_nodup
  refine (map_congr_left fun x hx => ?_) ▸
    (filter_sublist (l := sh.items.items)).map Prod.fst
  exact (h.entry x.1 x.2 (mem_items_iff.mp (mem_filter.mp hx).1)).1.symm

theorem snapshot_cost_le (hsh : s.shards = [sh]) (h : sh.WF K) (hb : sh.Bounded)
    {cost : String → V → Int64} (hp : sh.Priced cost) (now : Time) :
    ((s.snapshot now).map fun rec => (cost rec.key rec.value).toInt).sum ≤ sh.totalCost := by
  have hle := List.Sublist.sum_le_sum ((filter_sublist
    (p := fun x => !(sh.entry x.2).expired now) (l := sh.items.items)).map
      fun x => (sh.entry x.2).cost.toInt) fun c hc => by
    obtain ⟨x, hx, rfl⟩ := List.mem_map.mp hc
    exact hb.nonneg x.1 x.2 (mem_items_iff.mp hx)
  rw [((snapshot_perm hsh now).map _).sum_eq, List.map_map]
  refine le_trans (le_of_eq (congrArg List.sum (map_congr_left fun x hx => ?_)))
    (hle.trans (le_of_eq ?_))
  · have hk := mem_items_iff.mp (mem_filter.mp hx).1
    show (cost (sh.entry x.2).key _).toInt = _
    rw [(h.entry x.1 x.2 hk).1, hp x.1 x.2 hk]
    rfl
  · rw [Shard.totalCost, Shard.costOf, Dict.values, List.map_map]
    rfl

/-! ## Loading the records -/

/-- What is left of the capacity takes the records. -/
def HasRoom (s : Store V P) (sh : Shard V P) (recs : List (SnapshotRecord V)) : Prop :=
  0 < sh.maxCost → 0 ≤ sh.totalCost ∧ (∀ rec ∈ recs, 0 ≤ (s.cost rec.key rec.value).toInt) ∧
    sh.totalCost + (recs.map fun rec => (s.cost rec.key rec.value).toInt).sum ≤ sh.maxCost.toInt

theorem putLocked_fits (h : sh.WF K) (hK : K key) (hk : sh.items.get? key = none) {v : V}
    (hroom : 0 < sh.maxCost → 0 ≤ sh.totalCost ∧ 0 ≤ (s.cost key v).toInt ∧
      sh.totalCost + (s.cost key v).toInt ≤ sh.maxCost.toInt) (t : Time) (version : UInt64) :
    ∃ sh', s.putLocked sh key v t version now =
        .ok (.ok (), s.publish (setEvent key v version), sh') ∧ sh'.WF K ∧
      sh.Inserted { key, value := v, version, expiresAt := t, cost := s.cost key v, heapIdx := -1 }
        sh' := by
  obtain ⟨sh', hrun, hwf', hins⟩ := Shard.insertLocked_spec s h hk hK v t version (s.cost key v)
  have hfit : ¬ (sh.maxCost > 0 ∧ s.cost key v > sh.maxCost) := by
    rintro ⟨hpos, hgt⟩
    have := hroom hpos
    have := Int64.lt_iff_toInt_lt.mp hgt
    omega
  have hover : overfull sh (s.cost key v) = false := by
    rw [overfull, Bool.and_eq_false_iff, decide_eq_false_iff_not, decide_eq_false_iff_not]
    refine or_iff_not_imp_left.mpr fun hpos hgt => ?_
    obtain ⟨h0, hc, hle⟩ := hroom (not_not.mp hpos)
    have hmax := sh.maxCost.toInt_lt
    have hgt' := Int64.lt_iff_toInt_lt.mp hgt
    rw [h.cost, ← Int64.ofInt_toInt (s.cost key v), ← Int64.ofInt_add,
      Int64.toInt_ofInt_of_le (le_trans (by decide) (Int.add_nonneg h0 hc)) (by omega)] at hgt'
    omega
  refine ⟨sh', ?_, hwf', hins⟩
  simp only [putLocked, if_neg hfit, removeOld, hk, reclaimDead, hover, evictLoop, hrun, bind,
    Except.bind, pure, Except.pure, Bool.false_eq_true, if_false]
  rfl

theorem record?_inserted {e : Entry V}
    (hi : sh.Inserted e sh') (h : sh.WF K) (k : String) :
    sh'.record? k = if k = e.key then some (recordOf e) else sh.record? k := by
  rw [Shard.record?, hi.items, get?_set]
  split
  next => rw [map_some, recordOf_strip hi.entry]
  next =>
    rw [Shard.record?]
    refine Option.map_congr fun r hr => ?_
    exact recordOf_strip (hi.strip r (h.entry k r hr).2.1)

omit [LawfulEvictionPolicy P] in
theorem restoreRecord_one (hsh : s.shards = [sh]) {res : Except StoreError Unit} {s1 : Store V P}
    (hrun : ({ s with version := max s.version rec.version } : Store V P).restoreLocked sh rec now =
      .ok (res, s1, sh')) (hsh1 : s1.shards = [sh]) :
    s.restoreRecord rec now = .ok (res, { s1 with shards := [sh'] }) := by
  set s0 : Store V P := { s with version := max s.version rec.version } with hs0
  have hsh0 : s0.shards[s0.shardIdx rec.key]? = some sh := by
    rw [shardIdx_one (s := s0) hsh, show s0.shards = [sh] from hsh]
    rfl
  refine (withShardAt_ok (f := fun s sh => s.restoreLocked sh rec now) hsh0 hrun).trans ?_
  rw [shardIdx_one (s := s0) hsh, hsh1]
  rfl

theorem restoreLoop_fits (hsh : s.shards = [sh]) (h : sh.WF K) (hK : ∀ k, K k)
    (hnew : ∀ rec ∈ recs, sh.items.get? rec.key = none) (hkeys : (recs.map (·.key)).Nodup)
    (hrecs : ∀ rec ∈ recs, SnapshotRecord.expired rec now = false ∧ ∃ e, rec = recordOf e)
    (hroom : s.HasRoom sh recs) :
    ∃ s' sh', s.restoreLoop now recs = .ok (.ok (), s') ∧ s'.shards = [sh'] ∧
      s'.evictions = s.evictions ∧ (∀ rec ∈ recs, sh'.record? rec.key = some rec) ∧
      ∀ key, key ∉ recs.map (·.key) → sh'.record? key = sh.record? key := by
  induction recs generalizing s sh with
  | nil => exact ⟨s, sh, rfl, hsh, rfl, nofun, fun _ _ => rfl⟩
  | cons rec recs ih =>
    obtain ⟨hexp, e, he⟩ := hrecs rec (mem_cons_self ..)
    obtain ⟨hkey, hkeys'⟩ := nodup_cons.mp hkeys
    have hnone := hnew rec (mem_cons_self ..)
    set s0 : Store V P := { s with version := max s.version rec.version } with hs0
    have hroom' : 0 < sh.maxCost → 0 ≤ sh.totalCost ∧ 0 ≤ (s.cost rec.key rec.value).toInt ∧
        0 ≤ (recs.map fun rec => (s.cost rec.key rec.value).toInt).sum ∧
        sh.totalCost + (s.cost rec.key rec.value).toInt +
          (recs.map fun rec => (s.cost rec.key rec.value).toInt).sum ≤ sh.maxCost.toInt := by
      intro hpos
      obtain ⟨h0, hc, hle⟩ := hroom hpos
      rw [map_cons, sum_cons, ← Int.add_assoc] at hle
      refine ⟨h0, hc rec (mem_cons_self ..), sum_nonneg fun c hmem => ?_, hle⟩
      obtain ⟨rec', hrec', rfl⟩ := List.mem_map.mp hmem
      exact hc rec' (mem_cons_of_mem _ hrec')
    have hfits : 0 < sh.maxCost → 0 ≤ sh.totalCost ∧ 0 ≤ (s0.cost rec.key rec.value).toInt ∧
        sh.totalCost + (s0.cost rec.key rec.value).toInt ≤ sh.maxCost.toInt := by
      intro hpos
      obtain ⟨h0, hc, hsum, hle⟩ := hroom' hpos
      exact ⟨h0, hc, (Int.le_add_of_nonneg_right hsum).trans hle⟩
    obtain ⟨sh1, hput, hwf1, hins⟩ : ∃ sh1, s0.putLocked sh rec.key rec.value
          (rec.expiresAt.getD 0) rec.version now = .ok (.ok (), _, sh1) ∧ sh1.WF K ∧
          sh.Inserted _ sh1 :=
      putLocked_fits h (hK rec.key) hnone hfits (rec.expiresAt.getD 0) rec.version
    have htotal : sh1.totalCost = sh.totalCost + (s.cost rec.key rec.value).toInt :=
      hins.totalCost (fun k r hk => (h.entry k r hk).2.1) hnone
    set s1 : Store V P :=
      { s0.publish (setEvent rec.key rec.value rec.version) with shards := [sh1] } with hs1
    have hstep : s.restoreRecord rec now = .ok (.ok (), s1) := by
      refine restoreRecord_one hsh ?_ hsh
      rw [restoreLocked, hnone]
      exact hput
    have hrecord := record?_inserted hins h
    obtain ⟨s', sh', hrun, hsh', hev, hheld, hother⟩ := ih
      (show s1.shards = [sh1] from rfl) hwf1 (fun rec' hrec' => by
        have hne : rec'.key ≠ rec.key := fun heq => hkey (List.mem_map.mpr ⟨rec', hrec', heq⟩)
        rw [hins.items]
        exact (get?_set_of_ne _ _ hne).trans (hnew rec' (mem_cons_of_mem _ hrec')))
      hkeys' (fun rec' hrec' => hrecs rec' (mem_cons_of_mem _ hrec')) (fun hpos => by
        rw [hins.maxCost] at hpos ⊢
        have := hroom' hpos
        rw [htotal]
        exact ⟨by omega, fun rec' hrec' => (hroom hpos).2.1 rec' (mem_cons_of_mem _ hrec'),
          this.2.2.2⟩)
    refine ⟨s', sh', ?_, hsh', hev, fun rec' hrec' => ?_, fun key hmem => ?_⟩
    · rw [restoreLoop, if_neg (Bool.eq_false_iff.mp hexp), hstep]
      exact hrun
    · rcases mem_cons.mp hrec' with rfl | hrec'
      · rw [hother _ hkey, hrecord, if_pos rfl, he]
        exact congrArg some (recordOf_reload e _)
      · exact hheld rec' hrec'
    · rw [map_cons, mem_cons, not_or] at hmem
      rw [hother key hmem.2, hrecord, if_neg hmem.1]

omit [LawfulEvictionPolicy P] in
theorem restoreLoop_again (hsh : s.shards = [sh])
    (hheld : ∀ rec ∈ recs, sh.record? rec.key = some rec ∧ rec.version ≤ s.version) :
    s.restoreLoop now recs = .ok (.ok (), s) := by
  induction recs with
  | nil => rfl
  | cons rec _ ih =>
    have hrest := ih fun rec hrec => hheld rec (mem_cons_of_mem _ hrec)
    obtain ⟨hrec, hver⟩ := hheld rec (mem_cons_self ..)
    obtain ⟨r, hk, hr⟩ := map_eq_some_iff.mp hrec
    have hmax : max s.version rec.version = s.version := by
      exact ite_eq_right_iff.mpr fun hle => UInt64.le_antisymm hver hle
    by_cases hexp : SnapshotRecord.expired rec now = true
    · rw [restoreLoop, if_pos hexp, hrest]
    have hlive : (sh.entry r).expired now = false := by
      rw [← expired_recordOf, hr]
      exact Bool.eq_false_iff.mpr hexp
    have hsame : (sh.entry r).version = rec.version := hr ▸ rfl
    have hkeep : s.restoreRecord rec now = .ok (.ok (), { s with shards := [sh] }) := by
      refine restoreRecord_one hsh ?_ hsh
      simp [restoreLocked, hk, hlive, hsame, hmax]
    rw [restoreLoop, if_neg hexp, hkeep, ← hsh]
    exact hrest

end Store

/-! ## The round trip -/

variable [LawfulEvictionPolicy P]

/-- A write of the cause cannot overflow, if the capacity is bounded. -/
def Store.Measured (opts : Options V) (s : Store V P) (c : Cause V) : Prop :=
  0 < opts.maxCost → s.NoOverflow c

variable {out : List (Reply V)}

theorem run_oneShard [Inhabited V] {opts : Options V} {hash : String → UInt64} {ops : List (Op V)}
    {s : Store V P} (hone : opts.numShards = 1)
    (hcosts : 0 < opts.maxCost → ∀ k v, 0 ≤ (opts.costFn k v).toInt)
    (hops : Guarded (fun s op => op.Meets (Store.Measured opts) s) Store.step
      (Store.new opts hash : Store V P) ops)
    (hrun : runSteps Store.step (Store.new opts hash : Store V P) ops = .ok (out, s)) :
    ∃ sh, s.shards = [sh] ∧ sh.WF (s.shardIdx · = 0) ∧ sh.maxCost = opts.perShard ∧
      sh.Priced opts.costFn ∧ (0 < opts.maxCost → sh.Bounded) := by
  have hnew : ∀ sh ∈ (Store.new opts hash : Store V P).shards,
      sh.maxCost = opts.perShard ∧ sh.Priced opts.costFn := by
    intro sh hsh
    obtain ⟨hitems, -, hmax⟩ := Store.new_shards hsh
    refine ⟨hmax, fun k r hk => ?_⟩
    rw [hitems] at hk
    cases hk
  obtain ⟨hwf, -, hlen, hall, hexact⟩ := run_keeps_of_run (fun _ _ => nofun)
    (I := fun s : Store V P => s.cost = opts.costFn ∧ s.shards.length = 1 ∧
      (∀ sh ∈ s.shards, sh.maxCost = opts.perShard ∧ sh.Priced opts.costFn) ∧
      (0 < opts.maxCost → s.Exact))
    (fun s c s' _ hC hm hI => ⟨hm.cost.trans hI.1, hm.length_shards.trans hI.2.1,
      hm.forall_shards (fun _ _ _ _ _ _ hch hQ => ⟨hch.maxCost.trans hQ.1,
        hI.1 ▸ hch.priced (hI.1.symm ▸ hQ.2)⟩) hI.2.2.1,
      fun hpos => (hI.2.2.2 hpos).move (hC hpos) hm⟩)
    (fun _ _ _ hI => ⟨hI.1, hI.2.1, hI.2.2.1, fun hpos => ⟨(hI.2.2.2 hpos).1, (hI.2.2.2 hpos).2⟩⟩)
    (new_wf opts hash)
    ⟨rfl, by rw [Store.new, length_replicate, hone]; rfl, hnew,
      fun hpos => Store.new_exact hash (hcosts hpos)⟩ hops hrun
  obtain ⟨sh, hsh⟩ := length_eq_one_iff.mp hlen
  have hmem : sh ∈ s.shards := hsh ▸ mem_singleton_self sh
  exact ⟨sh, hsh, hwf.shard 0 sh (by rw [hsh]; rfl), (hall sh hmem).1, (hall sh hmem).2,
    fun hpos => (hexact hpos).bounded sh hmem⟩

/-- Restoring the snapshot of a store with one shard into a new one with the same capacity and
    costs: the live entries are those of the old store, nothing is evicted, the counter is past
    every record, and restoring again changes nothing. -/
theorem restore_roundTrip [Inhabited V] {Q : Type} [EvictionPolicy Q] [LawfulEvictionPolicy Q]
    (optsA optsB : Options V) (hashA hashB : String → UInt64) (honeA : optsA.numShards = 1)
    (honeB : optsB.numShards = 1) (hmax : optsB.maxCost = optsA.maxCost)
    (hcost : optsB.costFn = optsA.costFn) {ops : List (Op V)} {a : Store V P}
    (hcosts : 0 < optsA.maxCost → ∀ k v, 0 ≤ (optsA.costFn k v).toInt)
    (hops : Guarded (fun s op => op.Meets (Store.Measured optsA) s) Store.step
      (Store.new optsA hashA : Store V P) ops)
    (hA : runSteps Store.step (Store.new optsA hashA : Store V P) ops = .ok (out, a)) (now : Time) :
    ∃ b : Store V Q,
      (Store.new optsB hashB : Store V Q).restore (.ok (a.snapshot now)) now = .ok (.ok (), b) ∧
        (∀ key, (b.live key now).map recordOf = (a.live key now).map recordOf) ∧ b.evictions = 0 ∧
        (∀ rec ∈ a.snapshot now, rec.version ≤ b.version) ∧
        ∀ later, b.restore (.ok (a.snapshot now)) later = .ok (.ok (), b) := by
  obtain ⟨shA, hshA, hwfA, hmaxA, hpriced, hbounded⟩ := run_oneShard honeA hcosts hops hA
  set b0 : Store V Q := Store.new optsB hashB with hb0
  obtain ⟨sh0, hsh0⟩ : ∃ sh0, b0.shards = [sh0] :=
    ⟨_, show List.replicate optsB.numShards.toInt.toNat _ = _ by rw [honeB]; rfl⟩
  obtain ⟨hitems0, htotal0, hmax0⟩ :=
    Store.new_shards (show sh0 ∈ b0.shards from hsh0 ▸ mem_singleton_self sh0)
  have hwf0 := (new_wf (P := Q) optsB hashB).shard 0 sh0 (by rw [← hb0, hsh0]; rfl)
  have hlive : ∀ rec ∈ a.snapshot now, shA.record? rec.key = some rec ∧
      SnapshotRecord.expired rec now = false := fun rec hrec => (mem_snapshot hshA hwfA).mp hrec
  have hroom : b0.HasRoom sh0 (a.snapshot now) := by
    intro hpos
    have hper : optsB.perShard = optsA.perShard := by
      unfold Options.perShard
      rw [honeA, honeB, hmax]
    rw [hmax0, hper] at hpos ⊢
    have hposA : 0 < optsA.maxCost := by
      by_contra hle
      rw [Options.perShard, if_neg hle] at hpos
      exact absurd hpos (by decide)
    have hle := snapshot_cost_le hshA hwfA (hbounded hposA) hpriced now
    have hcap := (hbounded hposA).capacity (hmaxA ▸ hpos)
    rw [htotal0, show b0.cost = optsA.costFn from hcost, Int.zero_add, ← hmaxA]
    exact ⟨le_refl _, fun rec _ => hcosts hposA rec.key rec.value, hle.trans hcap⟩
  obtain ⟨b, shB, hrun, hshB, hev, hheld, hother⟩ := restoreLoop_fits hsh0 hwf0
    (fun k => shardIdx_one hsh0 k) (fun rec _ => by rw [hitems0]; rfl)
    (snapshot_keys_nodup hshA hwfA now) (fun rec hrec => ⟨(hlive rec hrec).2, by
      obtain ⟨r, -, hr⟩ := map_eq_some_iff.mp (hlive rec hrec).1
      exact ⟨_, hr.symm⟩⟩) hroom
  have hver := fun rec hrec =>
    (restoreLoop_version (new_wf optsB hashB) hrun).2 rec hrec (hlive rec hrec).2
  refine ⟨b, hrun, fun key => ?_, hev, hver, fun later =>
    restoreLoop_again hshB fun rec hrec => ⟨hheld rec hrec, hver rec hrec⟩⟩
  rw [live_one hshB, live_one hshA]
  by_cases hkey : key ∈ (a.snapshot now).map (·.key)
  · obtain ⟨rec, hrec, rfl⟩ := List.mem_map.mp hkey
    rw [hheld rec hrec, (hlive rec hrec).1]
  -- no record, so the old store had no live entry of the key
  rw [hother key hkey, Shard.record?, hitems0]
  refine (filter_eq_none_iff.mpr fun rec hrec hexp => hkey ?_).symm
  obtain ⟨r, hk, rfl⟩ := map_eq_some_iff.mp hrec
  have hname : (recordOf (shA.entry r)).key = key := (hwfA.entry key r hk).1
  refine List.mem_map.mpr ⟨_, (mem_snapshot hshA hwfA).mpr ⟨hname ▸ hrec, ?_⟩, hname⟩
  exact Bool.eq_false_iff.mpr fun h => by simp [h] at hexp

/-- `restore_roundTrip` for two entries that fill the shard, into a store with another policy. -/
theorem restore_roundTrip_full : ∃ (out : List (Reply Nat)) (a : Store Nat LRU),
      runSteps Store.step (Store.new { maxCost := 2 } fun _ => 0 : Store Nat LRU)
          [.set "b" 1 0 1, .set "a" 2 9 1] = .ok (out, a) ∧
        ∃ b : Store Nat LFU,
          (Store.new { maxCost := 2 } fun _ => 1 : Store Nat LFU).restore (.ok (a.snapshot 3)) 3 =
              .ok (.ok (), b) ∧
            (∀ key, (b.live key 3).map recordOf = (a.live key 3).map recordOf) ∧ b.evictions = 0 ∧
            (∀ rec ∈ a.snapshot 3, rec.version ≤ b.version) ∧
            ∀ later, b.restore (.ok (a.snapshot 3)) later = .ok (.ok (), b) := by
  have hops : Guarded (fun s op => op.Meets (Store.Measured { maxCost := 2 }) s) Store.step
      (Store.new { maxCost := 2 } fun _ => 0 : Store Nat LRU)
      [.set "b" 1 0 1, .set "a" 2 9 1] := ⟨?_, fun o1 s1 h1 => ⟨?_, fun _ _ _ => trivial⟩⟩
  · exact ⟨_, _, rfl, restore_roundTrip { maxCost := 2 } { maxCost := 2 } (fun _ => 0) (fun _ => 1)
      (by decide) (by decide) rfl rfl (fun _ _ _ => show 0 ≤ (1 : Int64).toInt by decide)
      hops rfl 3⟩
  · intro _ ev hev sh hsh _
    cases hev
    cases hsh
    decide
  · cases h1
    intro _ ev hev sh hsh _
    cases hev
    cases hsh
    decide

/-- Entries of cost 7, and one that makes room. -/
def roomyCosts : Options Nat :=
  { maxCost := 8, cost := some fun k _ => if k = "c" then -6 else 7 }

/-- With a negative cost the records may fit in the order of the writes and not in
    that of the keys. -/
theorem restore_roundTrip_negativeCost : ∃ (out : List (Reply Nat)) (a b : Store Nat LRU),
      runSteps Store.step (Store.new roomyCosts fun _ => 0 : Store Nat LRU)
          [.set "c" 1 0 1, .set "a" 2 0 1, .set "b" 3 0 1] = .ok (out, a) ∧
        (Store.new roomyCosts fun _ => 0 : Store Nat LRU).restore (.ok (a.snapshot 2)) 2 =
          .ok (.ok (), b) ∧
        (a.live "a" 2).isSome = true ∧ (b.live "a" 2).isSome = false ∧ b.evictions = 1 := by
  obtain ⟨⟨out, a⟩, hA, hobsA⟩ := exists_ok_of_observe
    (f := fun r => ((r.2.live "a" 2).isSome,
      ((Store.new roomyCosts fun _ => 0 : Store Nat LRU).restore
      (.ok (r.2.snapshot 2)) 2).toOption.map fun q =>
        (q.1, (q.2.live "a" 2).isSome, q.2.evictions)))
    (x := runSteps Store.step (Store.new roomyCosts fun _ => 0 : Store Nat LRU)
      [.set "c" 1 0 1, .set "a" 2 0 1, .set "b" 3 0 1])
    (b := (true, some (.ok (), false, 1))) (by decide +kernel)
  obtain ⟨hlive, hobs⟩ := Prod.mk.inj hobsA
  obtain ⟨⟨res, b⟩, hB, hobsB⟩ := exists_ok_of_observe hobs
  obtain ⟨rfl, hobsB⟩ := Prod.mk.inj hobsB
  obtain ⟨hgone, hev⟩ := Prod.mk.inj hobsB
  exact ⟨out, a, b, hA, hB, hlive, hgone, hev⟩

end InterviewPrep.KvStore
