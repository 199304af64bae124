/-
  A compare-and-swap issued before a restart, on the store that `Restore` has rebuilt from a
  snapshot.

  `Restore` moves the revision counter past the versions of the records it reads.  When an entry
  that was deleted, evicted or expired had the highest version, the counter stops below it and the
  version is issued again, for whatever is written next.  When a record that is read has a version
  at least as high, it is not (`restart_sameValue`).
-/
import InterviewPrep.KvStore.Steps

namespace InterviewPrep.KvStore

open Lib List Option

variable {V P : Type}

/-! ## What a move does to the value of a key -/

theorem Cause.written_set {c : Cause V} {version : UInt64} {ev : Event V}
    (h : c.written version = some ev) : ev = setEvent ev.key ev.value ev.version := by
  cases c <;> cases h <;> rfl

theorem contentsAfter_setEvent (key : String) (v : V) (version : UInt64)
    (c : String → Option (V × UInt64)) :
    contentsAfter [setEvent key v version] c = Function.update c key (some (v, version)) := rfl

theorem contentsAfter_removed {evs : List (Event V)} (h : ∀ ev ∈ evs, ev.type ≠ .set)
    {c : String → Option (V × UInt64)} {k : String} {x : V × UInt64}
    (hx : contentsAfter evs c k = some x) : c k = some x := by
  rcases UpdateLog.replay_eq_some hx with hc | hmem
  · exact hc
  · obtain ⟨ev, hev, heq⟩ := List.mem_map.mp hmem
    have hnone := congrArg Update.value heq
    rw [Event.update, if_neg (h ev hev)] at hnone
    cases hnone

variable [EvictionPolicy P] [LawfulEvictionPolicy P] {C : Store V P → Cause V → Prop}
  {s s' : Store V P} {c : Cause V} {k : String} {v : V} {ver : UInt64}

namespace Store

theorem Moved.contents_some (hm : s.Moved c s') {x : V × UInt64} (hx : s'.contents k = some x) :
    s.contents k = some x ∨ c.written s.version = some (setEvent k x.1 x.2) := by
  obtain ⟨evs, hlog, -, removed, hremoved, hevs⟩ := hm.log
  rw [contents, hlog, contentsAfter_append] at hx
  rcases hevs with rfl | ⟨ev, hev, rfl⟩
  · exact Or.inl (contentsAfter_removed hremoved hx)
  rw [contentsAfter_append] at hx
  by_cases hk : ev.key = k
  · have hset := Cause.written_set hev
    rw [hset, contentsAfter_setEvent, ← hk, Function.update_self] at hx
    cases hx
    rw [hev, ← hk]
    exact Or.inr (congrArg some hset)
  · rw [contentsAfter_of_ne (by simpa using hk)] at hx
    exact Or.inl (contentsAfter_removed hremoved hx)

theorem Moved.mem_log (hm : s.Moved c s') (hmem : setEvent k v ver ∈ s'.log) :
    setEvent k v ver ∈ s.log ∨
      (c.written s.version = some (setEvent k v ver) ∧ s'.contents k = some (v, ver)) := by
  obtain ⟨evs, hlog, -, removed, hremoved, hevs⟩ := hm.log
  rw [hlog] at hmem
  rcases mem_append.mp hmem with hold | hnew
  · exact Or.inl hold
  rcases hevs with rfl | ⟨ev, hev, rfl⟩
  · exact absurd rfl (hremoved _ hnew)
  · rcases mem_append.mp hnew with hnew | hnew
    · exact absurd rfl (hremoved _ hnew)
    · rw [← mem_singleton.mp hnew] at hev hlog
      refine Or.inr ⟨hev, ?_⟩
      rw [contents, hlog, contentsAfter_append, contentsAfter_append, contentsAfter_setEvent,
        Function.update_self]

/-- The version `ver` of `k` stays with the value `v`: no write wraps the counter around, and no
    record gives `k` another value under it. -/
def KeepsVersion (k : String) (v : V) (ver : UInt64) (s : Store V P) : Cause V → Prop
  | .fresh _ _ => s.version + 1 ≠ 0
  | .load rec => rec.key = k → rec.version = ver → rec.value = v
  | _ => True

/-- Whatever `k` holds under `ver` is `v`. -/
def HoldsOnly (k : String) (v : V) (ver : UInt64) (s : Store V P) : Prop :=
  ∀ w, s.contents k = some (w, ver) → w = v

theorem HoldsOnly.move (h : s.HoldsOnly k v ver) (hm : s.Moved c s')
    (hfresh : ∀ key w, c = .fresh key w → s.version + 1 ≠ ver)
    (hload : ∀ rec, c = .load rec → rec.key = k → rec.version = ver → rec.value = v) :
    s'.HoldsOnly k v ver := by
  intro w hw
  rcases hm.contents_some hw with hold | hwritten
  · exact h w hold
  cases c with
  | fresh =>
    cases hwritten
    exact absurd rfl (hfresh _ _ rfl)
  | load rec =>
    cases hwritten
    exact hload rec rfl rfl rfl
  | quiet | deadline | keep => cases hwritten

end Store

/-! ## Versions -/

theorem lt_succ_of_ne_zero {a : UInt64} (h : a + 1 ≠ 0) : a < a + 1 := by
  rw [UInt64.lt_iff_toNat_lt]
  have hne : (a + 1).toNat ≠ 0 := fun e => h (UInt64.toNat_inj.mp e)
  have hlt := a.toNat_lt
  rw [UInt64.toNat_add] at hne ⊢
  have : (1 : UInt64).toNat = 1 := rfl
  omega

theorem le_max_version (a b : UInt64) : a ≤ max a b ∧ b ≤ max a b := by
  show (a ≤ if a ≤ b then b else a) ∧ b ≤ if a ≤ b then b else a
  simp only [UInt64.le_iff_toNat_le]
  split <;> omega

omit [EvictionPolicy P] [LawfulEvictionPolicy P] in
theorem version_le_versionAfter (h : s.KeepsVersion k v ver c) :
    s.version ≤ c.versionAfter s.version := by
  cases c with
  | fresh => exact UInt64.le_of_lt (lt_succ_of_ne_zero h)
  | load | keep => exact (le_max_version ..).1
  | quiet | deadline => exact UInt64.le_refl _

/-! ## The store before the restart -/

namespace Store

/-- The versions in the log are behind the counter, and `k` has nothing but `v`
    under `ver` since. -/
structure Recorded (k : String) (v : V) (ver : UInt64) (s : Store V P) : Prop where
  versions : ∀ key w version, setEvent key w version ∈ s.log → version ≤ s.version
  value : setEvent k v ver ∈ s.log → s.HoldsOnly k v ver

theorem Recorded.move (h : s.Recorded k v ver) (hC : s.KeepsVersion k v ver c)
    (hm : s.Moved c s') : s'.Recorded k v ver := by
  have hle : s.version ≤ s'.version := hm.version ▸ version_le_versionAfter hC
  refine ⟨fun key w version hmem => ?_, fun hmem => ?_⟩
  · rcases hm.mem_log hmem with hold | ⟨hwritten, -⟩
    · exact UInt64.le_trans (h.versions key w version hold) hle
    rw [hm.version]
    cases c with
    | fresh =>
      cases hwritten
      exact UInt64.le_refl _
    | load =>
      cases hwritten
      exact (le_max_version ..).2
    | quiet | deadline | keep => cases hwritten
  rcases hm.mem_log hmem with hold | ⟨-, hnow⟩
  · refine (h.value hold).move hm (fun key w hc he => ?_) fun rec hc => ?_
    · subst hc
      have hlt := lt_succ_of_ne_zero hC
      rw [he] at hlt
      exact absurd (h.versions k v ver hold) (UInt64.not_le.mpr hlt)
    · subst hc
      exact hC
  · intro w hw
    rw [hnow] at hw
    cases hw
    rfl

variable {now : Time}

theorem WF.snapshot_contents (h : s.WF) {rec : SnapshotRecord V} (hrec : rec ∈ s.snapshot now) :
    s.contents rec.key = some (rec.value, rec.version) := by
  rw [snapshot, (perm_insertionSort ..).mem_iff, mem_flatMap] at hrec
  obtain ⟨sh, hsh, hrec⟩ := hrec
  obtain ⟨r, hr, hrec⟩ := mem_filterMap.mp hrec
  split at hrec
  next => cases hrec
  next =>
  cases hrec
  obtain ⟨x, hx, rfl⟩ := List.mem_map.mp hr
  obtain ⟨i, hi⟩ := mem_iff_getElem?.mp hsh
  have hget : sh.items.get? x.1 = some x.2 := Dict.mem_items_iff.mp hx
  obtain ⟨hkey, -, hidx⟩ := (h.shard i sh hi).entry x.1 x.2 hget
  show s.contents (sh.entry x.2).key = _
  rw [hkey, ← h.contents i sh x.1 hi hidx, Shard.pair?, hget, map_some]
  rfl

/-! ## The store after the restart -/

/-- The counter is past `ver`, and `k` holds nothing but `v` under `ver`. -/
structure Safe (k : String) (v : V) (ver : UInt64) (s : Store V P) : Prop where
  version : ver ≤ s.version
  value : s.HoldsOnly k v ver

theorem Safe.move (h : s.Safe k v ver) (hC : s.KeepsVersion k v ver c) (hm : s.Moved c s') :
    s'.Safe k v ver := by
  refine ⟨?_, h.value.move hm (fun key w hc he => ?_) fun rec hc => ?_⟩
  · exact UInt64.le_trans h.version (hm.version ▸ version_le_versionAfter hC)
  · subst hc
    have hlt := lt_succ_of_ne_zero hC
    rw [he] at hlt
    exact absurd h.version (UInt64.not_le.mpr hlt)
  · subst hc
    exact hC

variable {recs : List (SnapshotRecord V)}

theorem restoreLoop_holdsOnly (hwf : s.WF) (h : s.HoldsOnly k v ver)
    (hrecs : ∀ rec ∈ recs, rec.key = k → rec.version = ver → rec.value = v)
    {res : Except RestoreError Unit} (hrun : s.restoreLoop now recs = .ok (res, s')) :
    s'.HoldsOnly k v ver := by
  induction recs generalizing s with
  | nil =>
    cases hrun
    exact h
  | cons rec _ ih =>
    have hrest := fun rec hrec => hrecs rec (mem_cons_of_mem _ hrec)
    rw [restoreLoop] at hrun
    split at hrun
    next => exact ih hwf h hrest hrun
    next =>
    obtain ⟨res1, s1, hrec, hmoved⟩ := restoreRecord_moves hwf rec now
    have h1 : s1.HoldsOnly k v ver := by
      refine h.move hmoved (fun key w hc => ?_) fun rec' hc => ?_
      · unfold restoreCause at hc
        split at hc
        · cases hc
        · split at hc <;> cases hc
      have : rec' = rec := by
        unfold restoreCause at hc
        split at hc
        · exact (Cause.load.inj hc).symm
        · split at hc
          · cases hc
          · exact (Cause.load.inj hc).symm
      rw [this]
      exact hrecs rec (mem_cons_self ..)
    rw [hrec] at hrun
    cases res1 with
    | error =>
      cases hrun
      exact h1
    | ok => exact ih (hmoved.wf hwf) h1 hrest hrun

theorem restoreLoop_version (hwf : s.WF) (hrun : s.restoreLoop now recs = .ok (.ok (), s')) :
    s.version ≤ s'.version ∧ ∀ rec ∈ recs, SnapshotRecord.expired rec now = false →
      rec.version ≤ s'.version := by
  induction recs generalizing s with
  | nil =>
    cases hrun
    exact ⟨UInt64.le_refl _, nofun⟩
  | cons rec _ ih =>
    rw [restoreLoop] at hrun
    split at hrun
    next hexp =>
      obtain ⟨hle, hrecs⟩ := ih hwf hrun
      refine ⟨hle, fun rec' hrec' hlive => ?_⟩
      rcases mem_cons.mp hrec' with rfl | hrec'
      · rw [hexp] at hlive
        cases hlive
      · exact hrecs rec' hrec' hlive
    next =>
    obtain ⟨res1, s1, hrec, hmoved⟩ := restoreRecord_moves hwf rec now
    have hver : s1.version = max s.version rec.version := by
      rw [hmoved.version, restoreCause]
      split
      · rfl
      · split <;> rfl
    obtain ⟨hs, hr⟩ := le_max_version s.version rec.version
    rw [hrec] at hrun
    cases res1 with
    | error => cases hrun
    | ok =>
      obtain ⟨hle, hrecs⟩ := ih (hmoved.wf hwf) hrun
      rw [hver] at hle
      refine ⟨UInt64.le_trans hs hle, fun rec' hrec' hlive => ?_⟩
      rcases mem_cons.mp hrec' with rfl | hrec'
      · exact UInt64.le_trans hr hle
      · exact hrecs rec' hrec' hlive

theorem WF.compareAndSwap_ok (h : s.WF) {key : String} {expected n : UInt64} {w : V} {d : Duration}
    (hcas : s.compareAndSwap key expected w d now = .ok (.ok n, s')) (hne : expected ≠ 0) :
    ∃ e, s.live key now = some e ∧ e.version = expected := by
  obtain ⟨sh, hi, hwf⟩ := h.shardOf key
  rcases liveLocked_live hi hwf now with ⟨r, hk, hlive, hrun⟩ | ⟨hlive, evs, s1, sh1, hrun, -⟩
  · refine ⟨sh.entry r, hlive, ?_⟩
    by_contra hver
    simp only [compareAndSwap, withShard, withShardAt, hi, hrun, if_pos (Or.inr hver), bind,
      Except.bind, pure, Except.pure] at hcas
    cases hcas
  · simp only [compareAndSwap, withShard, withShardAt, hi, hrun, if_pos hne, bind,
      Except.bind, pure,
      Except.pure] at hcas
    cases hcas

theorem WF.contents_of_live (h : s.WF) {key : String} {e : Entry V}
    (hlive : s.live key now = some e) : s.contents key = some (e.value, e.version) := by
  obtain ⟨sh, hi, -⟩ := h.shardOf key
  rw [live, hi, bind_some] at hlive
  obtain ⟨r, hr, hlive⟩ := bind_eq_some_iff.mp hlive
  split at hlive
  next => cases hlive
  next =>
    cases hlive
    rw [← h.contents _ sh key hi rfl, Shard.pair?, hr, map_some]

end Store

/-! ## Across the restart -/

theorem run_keeps_of_run (hquiet : ∀ s, C s .quiet) {I : Store V P → Prop}
    (hmove : ∀ s c s', s.WF → C s c → s.Moved c s' → I s → I s')
    (hlisten : ∀ s ws n, I s → I { s with watchers := ws, nextWatcher := n })
    (h : s.WF) (hI : I s) {ops : List (Op V)} {out : List (Reply V)}
    (hops : Guarded (fun s op => op.Meets C s) Store.step s ops)
    (hrun : runSteps Store.step s ops = .ok (out, s')) : s'.WF ∧ I s' := by
  obtain ⟨out', t, hrun', hwf, hI'⟩ := run_keeps hquiet hmove hlisten h hI hops
  rw [hrun] at hrun'
  cases hrun'
  exact ⟨hwf, hI'⟩

/-- An entry had the value `v` under `ver`, and `Restore` reads a record with a version at least as
    high: a compare-and-swap that expects `ver` succeeds only on that value. -/
theorem restart_sameValue [Inhabited V] {Q : Type} [EvictionPolicy Q] [LawfulEvictionPolicy Q]
    (optsA optsB : Options V) (hashA hashB : String → UInt64)
    {opsA opsB : List (Op V)} {outA outB : List (Reply V)} {a : Store V P} {b₀ b b' : Store V Q}
    {key : String} {w : V} {n : UInt64} {snapshotAt restoreAt now : Time} {ttl : Duration}
    (hA : runSteps Store.step (Store.new optsA hashA : Store V P) opsA = .ok (outA, a))
    (hopsA : Guarded (fun s op => op.Meets (Store.KeepsVersion key v ver) s) Store.step
      (Store.new optsA hashA : Store V P) opsA) (hset : setEvent key v ver ∈ a.log)
    (hrestore : (Store.new optsB hashB : Store V Q).restore
      (.ok (a.snapshot snapshotAt)) restoreAt =
      .ok (.ok (), b₀)) (hread : ∃ rec ∈ a.snapshot snapshotAt,
      Store.SnapshotRecord.expired rec restoreAt = false ∧ ver ≤ rec.version)
    (hB : runSteps Store.step b₀ opsB = .ok (outB, b))
    (hopsB : Guarded (fun s op => op.Meets (Store.KeepsVersion key v ver) s) Store.step b₀ opsB)
    (hver : ver ≠ 0) (hcas : b.compareAndSwap key ver w ttl now = .ok (.ok n, b')) :
    ∃ e, b.live key now = some e ∧ e.version = ver ∧ e.value = v := by
  -- before the restart
  have hrec0 : (Store.new optsA hashA : Store V P).Recorded key v ver :=
    ⟨nofun, nofun⟩
  obtain ⟨hwfA, hrecA⟩ := run_keeps_of_run (fun _ => trivial) (I := Store.Recorded key v ver)
    (fun _ _ _ _ hC hm h => h.move hC hm) (fun _ _ _ h => ⟨h.versions, h.value⟩)
    (new_wf optsA hashA) hrec0 hopsA hA
  have hrecs : ∀ rec ∈ a.snapshot snapshotAt, rec.key = key → rec.version = ver →
      rec.value = v := by
    intro rec hrec hkey hversion
    have hcontents := hwfA.snapshot_contents hrec
    rw [hkey, hversion] at hcontents
    exact hrecA.value hset rec.value hcontents
  -- the restore
  have hrestored : (Store.new optsB hashB : Store V Q).restoreLoop restoreAt
      (a.snapshot snapshotAt) =
      .ok (.ok (), b₀) := hrestore
  have hwf0 := new_wf (P := Q) optsB hashB
  have hsafe : b₀.Safe key v ver := by
    refine ⟨?_, Store.restoreLoop_holdsOnly hwf0 (fun w hw => nomatch hw) hrecs hrestored⟩
    obtain ⟨rec, hmem, hlive, hle⟩ := hread
    exact UInt64.le_trans hle ((Store.restoreLoop_version hwf0 hrestored).2 rec hmem hlive)
  have hwfB0 : b₀.WF := by
    obtain ⟨res, s', hrun, hmoves⟩ := restoreLoop_moves (C := fun _ _ => True) restoreAt
      (a.snapshot snapshotAt) hwf0
        (Op.meets_true _ (.restore (.ok (a.snapshot snapshotAt)) restoreAt))
    rw [hrestored] at hrun
    cases hrun
    exact hmoves.wf hwf0
  -- after the restart
  obtain ⟨hwfB, hsafeB⟩ := run_keeps_of_run (fun _ => trivial) (I := Store.Safe key v ver)
    (fun _ _ _ _ hC hm h => h.move hC hm) (fun _ _ _ h => ⟨h.version, h.value⟩) hwfB0 hsafe hopsB hB
  obtain ⟨e, hlive, hversion⟩ := hwfB.compareAndSwap_ok hcas hver
  refine ⟨e, hlive, hversion, hsafeB.value e.value ?_⟩
  rw [hwfB.contents_of_live hlive, hversion]

/-- `restart_sameValue` for an entry that the snapshot holds, read again before. -/
theorem restart_sameValue_kept : ∃ (outA outB : List (Reply Nat)) (a b₀ b : Store Nat LRU),
      runSteps Store.step (Store.new {} fun _ => 0 : Store Nat LRU) [.set "k" 7 0 1] =
      .ok (outA, a) ∧
        (Store.new {} fun _ => 0 : Store Nat LRU).restore (.ok (a.snapshot 2)) 3 =
        .ok (.ok (), b₀) ∧
        runSteps Store.step b₀ [.get "k" 4] = .ok (outB, b) ∧
        ∃ e, b.live "k" 5 = some e ∧ e.version = 1 ∧ e.value = 7 := by
  obtain ⟨⟨outA, a⟩, hA, hobsA⟩ := exists_ok_of_observe (f := fun r => (r.2.snapshot 2, r.2.log))
    (x := runSteps Store.step (Store.new {} fun _ => 0 : Store Nat LRU) [.set "k" 7 0 1])
    (b := ([{ key := "k", value := 7, version := 1, expiresAt := none }], [setEvent "k" 7 1])) rfl
  obtain ⟨hsnapshot, hlog⟩ := Prod.mk.inj hobsA
  simp only at hsnapshot hlog
  obtain ⟨⟨resB, b₀⟩, hB0, hobsB⟩ := exists_ok_of_observe
    (f := fun r : Except RestoreError Unit × Store Nat LRU =>
      (r.1, (runSteps Store.step r.2 [.get "k" 4]).toOption.map fun q =>
        (q.2.compareAndSwap "k" 1 8 0 5).toOption.map Prod.fst))
    (x := (Store.new {} fun _ => 0 : Store Nat LRU).restore (.ok (a.snapshot 2)) 3)
    (b := (.ok (), some (some (.ok 2)))) (by rw [hsnapshot]; decide +kernel)
  obtain ⟨rfl, hobs⟩ := Prod.mk.inj hobsB
  obtain ⟨⟨outB, b⟩, hB, hcas⟩ := exists_ok_of_observe hobs
  obtain ⟨⟨r, b'⟩, hcas, rfl⟩ := exists_ok_of_observe hcas
  refine ⟨outA, outB, a, b₀, b, hA, hB0, hB, ?_⟩
  refine restart_sameValue {} {} (fun _ => 0) (fun _ => 0) hA ⟨?_, fun _ _ _ => trivial⟩
    (hlog ▸ mem_singleton_self _) hB0 ?_ hB ⟨trivial, fun _ _ _ => trivial⟩ (by decide) hcas
  · show (0 : UInt64) + 1 ≠ 0
    decide
  · rw [hsnapshot]
    exact ⟨_, mem_singleton_self _, rfl, by decide⟩

/-- The only entry is deleted before the snapshot, so the next write gets version 1 again, and a
    compare-and-swap that expects the deleted entry's version succeeds on it. -/
theorem restart_reissues :
    ∃ (outA outB : List (Reply Nat)) (a b₀ b b' : Store Nat LRU) (e : Entry Nat),
      runSteps Store.step (Store.new {} fun _ => 0 : Store Nat LRU)
          [.set "k" 7 0 1, .delete "k" 2] = .ok (outA, a) ∧ setEvent "k" 7 1 ∈ a.log ∧
        (Store.new {} fun _ => 0 : Store Nat LRU).restore (.ok (a.snapshot 3)) 4 =
        .ok (.ok (), b₀) ∧
        runSteps Store.step b₀ [.set "k" 8 0 5] = .ok (outB, b) ∧
        b.compareAndSwap "k" 1 9 0 6 = .ok (.ok 2, b') ∧ b.live "k" 6 = some e ∧ e.value ≠ 7 :=
  ⟨_, _, _, _, _, _, _, rfl, mem_cons_self .., rfl, rfl, rfl, rfl, by decide⟩

end InterviewPrep.KvStore
