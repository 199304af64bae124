/-
  What a watcher's stream says about the contents of the store.

  The events of the whole store describe the contents of the shards (`Store.WF.contents`).  A
  watcher that no event was refused to has been sent the events with its prefix since it was
  registered, so its stream describes the contents at these keys.
-/
import InterviewPrep.KvStore.Steps

namespace InterviewPrep.KvStore

open Lib Dict List Option

variable {V P : Type}

/-! ## One watcher -/

def eventsWith (keyPrefix : String) (evs : List (Event V)) : List (Event V) :=
  evs.filter fun ev => hasPrefix ev.key keyPrefix

theorem contentsAfter_eventsWith (keyPrefix : String) (evs : List (Event V))
    (c : String → Option (V × UInt64)) (k : String) :
    contentsAfter (eventsWith keyPrefix evs) c k =
      if hasPrefix k keyPrefix then contentsAfter evs c k else c k := by
  have hmap : (eventsWith keyPrefix evs).map Event.update =
      (evs.map Event.update).filter fun u => hasPrefix u.key keyPrefix := by
    rw [List.filter_map]
    rfl
  rw [contentsAfter, hmap]
  exact UpdateLog.replay_filter (fun k => hasPrefix k keyPrefix) _ c k

namespace Watcher

theorem offer_keyPrefix (w : Watcher V) (ev : Event V) : (w.offer ev).keyPrefix = w.keyPrefix := by
  unfold offer
  split
  · split <;> rfl
  · rfl

theorem offer_stream (w : Watcher V) (ev : Event V) (h : (w.offer ev).refused = 0) :
    w.refused = 0 ∧ (w.offer ev).stream = w.stream ++ eventsWith w.keyPrefix [ev] := by
  unfold offer at h ⊢
  by_cases hp : hasPrefix ev.key w.keyPrefix = true
  · rw [if_pos hp] at h ⊢
    by_cases hfull : w.capacity ≤ w.buffer.length
    · rw [if_pos hfull] at h
      exact absurd h (Nat.succ_ne_zero _)
    · rw [if_neg hfull] at h ⊢
      exact ⟨h, by simp [stream, eventsWith, hp]⟩
  · rw [if_neg hp] at h ⊢
    exact ⟨h, by simp [eventsWith, hp]⟩

theorem foldl_offer (evs : List (Event V)) (w : Watcher V) :
    (evs.foldl offer w).keyPrefix = w.keyPrefix ∧ ((evs.foldl offer w).refused = 0 →
      w.refused = 0 ∧ (evs.foldl offer w).stream = w.stream ++ eventsWith w.keyPrefix evs) := by
  induction evs generalizing w with
  | nil => exact ⟨rfl, fun h => ⟨h, (append_nil _).symm⟩⟩
  | cons ev _ ih =>
    rw [foldl_cons]
    obtain ⟨hpre, hstream⟩ := ih (w.offer ev)
    refine ⟨hpre.trans (offer_keyPrefix w ev), fun h => ?_⟩
    obtain ⟨hoffer, heq⟩ := hstream h
    obtain ⟨hw, heq'⟩ := offer_stream w ev hoffer
    refine ⟨hw, ?_⟩
    rw [heq, heq', offer_keyPrefix, append_assoc, eventsWith, eventsWith, eventsWith,
      ← filter_append, singleton_append]

end Watcher

/-! ## The watcher over a run -/

variable [EvictionPolicy P] [LawfulEvictionPolicy P]

/-- The watcher `w`, registered when the events `base` had been published, is up to date. -/
structure Store.Tracks (base : List (Event V)) (keyPrefix : String) (w : Nat) (s : Store V P) :
    Prop where
  old : w < s.nextWatcher
  log : ∃ evs, s.log = base ++ evs ∧ ∀ wt, s.watchers.get? w = some wt →
    wt.keyPrefix = keyPrefix ∧ (wt.refused = 0 → wt.stream = eventsWith keyPrefix evs)

namespace Store

variable {C : Store V P → Cause V → Prop} {s s' : Store V P} {c : Cause V} {base : List (Event V)}
  {keyPrefix : String} {w : Nat}

theorem Tracks.move (h : s.Tracks base keyPrefix w) (hm : s.Moved c s') :
    s'.Tracks base keyPrefix w := by
  obtain ⟨evs, hlog, hwt⟩ := h.log
  obtain ⟨evs', hlog', hwatchers, -⟩ := hm.log
  refine ⟨hm.nextWatcher ▸ h.old, evs ++ evs', by rw [hlog', hlog, append_assoc], ?_⟩
  intro wt' hget'
  rw [hwatchers] at hget'
  obtain ⟨wt, hget, rfl⟩ := map_eq_some_iff.mp hget'
  obtain ⟨hpre, hstream⟩ := hwt wt hget
  obtain ⟨hpre', hstream'⟩ := Watcher.foldl_offer evs' wt
  refine ⟨hpre'.trans hpre, fun h0 => ?_⟩
  obtain ⟨hw0, heq⟩ := hstream' h0
  rw [heq, hstream hw0, hpre, eventsWith, eventsWith, eventsWith, filter_append]

theorem Moved.registered (hm : s.Moved c s') (n : Nat) :
    (s'.watchers.get? n).isSome = (s.watchers.get? n).isSome := by
  obtain ⟨evs, -, hwatchers, -⟩ := hm.log
  rw [hwatchers, isSome_map]

theorem Moves.tracks (hm : Moves C s s') (h : s.Tracks base keyPrefix w) :
    s'.Tracks base keyPrefix w ∧ (s'.watchers.get? w).isSome = (s.watchers.get? w).isSome := by
  induction hm with
  | refl => exact ⟨h, rfl⟩
  | step _ _ hm ih => exact ⟨ih.1.move hm, (hm.registered w).trans ih.2⟩

omit [EvictionPolicy P] [LawfulEvictionPolicy P] in
theorem receive_watchers (s : Store V P) (w' n : Nat) :
    ((s.receive w').2.watchers.get? n).isSome = (s.watchers.get? n).isSome ∧
      ∀ wt', (s.receive w').2.watchers.get? n = some wt' → ∃ wt, s.watchers.get? n = some wt ∧
        wt'.keyPrefix = wt.keyPrefix ∧ wt'.refused = wt.refused ∧ wt'.stream = wt.stream := by
  have hsame : (s.receive w').2 = s → ((s.receive w').2.watchers.get? n).isSome =
      (s.watchers.get? n).isSome ∧
      ∀ wt', (s.receive w').2.watchers.get? n = some wt' → ∃ wt, s.watchers.get? n = some wt ∧
        wt'.keyPrefix = wt.keyPrefix ∧ wt'.refused = wt.refused ∧ wt'.stream = wt.stream := by
    intro h
    rw [h]
    exact ⟨rfl, fun wt' hget => ⟨wt', hget, rfl, rfl, rfl⟩⟩
  cases hw : s.watchers.get? w' with
  | none => exact hsame (by simp [receive, hw])
  | some wt =>
  cases hb : wt.buffer with
  | nil => exact hsame (by simp [receive, hw, hb])
  | cons =>
    simp only [receive, hw, hb, get?_set]
    by_cases hn : n = w'
    · rw [if_pos hn, hn, hw]
      refine ⟨rfl, fun wt' hget => ⟨wt, rfl, ?_⟩⟩
      cases hget
      exact ⟨rfl, rfl, by simp [Watcher.stream, hb]⟩
    · rw [if_neg hn]
      exact ⟨rfl, fun wt' hget => ⟨wt', hget, rfl, rfl, rfl⟩⟩

omit [LawfulEvictionPolicy P] in
theorem Tracks.listen (h : s.Tracks base keyPrefix w) {op : Op V} (hop : op.onData = false)
    {reply : Reply V} (hrun : s.step op = .ok (reply, s')) : s'.Tracks base keyPrefix w ∧
      (op ≠ .cancelWatch w → (s'.watchers.get? w).isSome = (s.watchers.get? w).isSome) := by
  obtain ⟨evs, hlog, hwt⟩ := h.log
  cases op with
  | watch =>
    cases hrun
    have hne : w ≠ s.nextWatcher := Nat.ne_of_lt h.old
    refine ⟨⟨Nat.lt_succ_of_lt h.old, evs, hlog, fun wt hget => hwt wt ?_⟩, fun _ => ?_⟩
    · exact (get?_set_of_ne _ _ hne).symm.trans hget
    · exact congrArg Option.isSome (get?_set_of_ne _ _ hne)
  | cancelWatch w' =>
    cases hrun
    refine ⟨⟨h.old, evs, hlog, fun wt hget => hwt wt ?_⟩, fun hne => ?_⟩
    · have hget' : (s.watchers.erase w').get? w = some wt := hget
      rw [get?_erase] at hget'
      split at hget'
      next => cases hget'
      next => exact hget'
    · have hne' : w ≠ w' := fun e => hne (by rw [e])
      exact congrArg Option.isSome (get?_erase_of_ne _ hne')
  | receive w' =>
    have hrest : (s.receive w').2.nextWatcher = s.nextWatcher ∧ (s.receive w').2.log = s.log := by
      unfold receive
      split
      · exact ⟨rfl, rfl⟩
      · split <;> exact ⟨rfl, rfl⟩
    cases hrun
    obtain ⟨hsome, hsent⟩ := receive_watchers s w' w
    refine ⟨⟨lt_of_lt_of_eq h.old hrest.1.symm, evs, hrest.2.trans hlog, fun wt' hget => ?_⟩,
      fun _ => hsome⟩
    obtain ⟨wt, hold, hpre, hrefused, hstream⟩ := hsent wt' hget
    rw [hpre, hrefused, hstream]
    exact hwt wt hold
  | _ => cases hop

theorem Tracks.step (h : s.Tracks base keyPrefix w) (hwf : s.WF) (op : Op V) :
    ∃ reply s', s.step op = .ok (reply, s') ∧ s'.WF ∧ s'.Tracks base keyPrefix w ∧
      (op ≠ .cancelWatch w → (s'.watchers.get? w).isSome = (s.watchers.get? w).isSome) := by
  by_cases hdata : op.onData = true
  · obtain ⟨reply, s', hstep, hm⟩ := step_moves (C := fun _ _ => True) (fun _ => trivial) hwf hdata
      (op.meets_true s)
    obtain ⟨ht, hsame⟩ := hm.tracks h
    exact ⟨reply, s', hstep, hm.wf hwf, ht, fun _ => hsame⟩
  · have hlisten := Bool.eq_false_iff.mpr hdata
    obtain ⟨reply, ws, n, hstep⟩ := step_listens s hlisten
    obtain ⟨ht, hsame⟩ := h.listen hlisten hstep
    exact ⟨reply, _, hstep, hwf.listen ws n, ht, hsame⟩

omit [EvictionPolicy P] [LawfulEvictionPolicy P] in
theorem watch_tracks (s : Store V P) (keyPrefix : String) :
    (s.watch keyPrefix).2.Tracks s.log keyPrefix (s.watch keyPrefix).1 ∧
      ((s.watch keyPrefix).2.watchers.get? (s.watch keyPrefix).1).isSome := by
  have hget : (s.watch keyPrefix).2.watchers.get? (s.watch keyPrefix).1 =
      some (.init keyPrefix s.watchSz) := get?_set_self ..
  refine ⟨⟨Nat.lt_succ_self _, [], (append_nil _).symm, fun wt hwt => ?_⟩, by rw [hget]; rfl⟩
  rw [hget] at hwt
  cases hwt
  exact ⟨rfl, fun _ => rfl⟩

theorem WF.contents_iff (h : s.WF) (k : String) (x : V × UInt64) :
    s.contents k = some x ↔ ∃ sh ∈ s.shards, sh.pair? k = some x := by
  constructor
  · intro hk
    obtain ⟨sh, hi, -⟩ := h.shardOf k
    exact ⟨sh, mem_of_getElem? hi, (h.contents _ sh k hi rfl).trans hk⟩
  · rintro ⟨sh, hsh, hk⟩
    obtain ⟨i, hi⟩ := mem_iff_getElem?.mp hsh
    obtain ⟨r, hr, -⟩ := map_eq_some_iff.mp hk
    rw [← h.contents i sh k hi ((h.shard i sh hi).entry k r hr).2.2]
    exact hk

end Store

/-- A watcher registered on an empty store that no event was refused has been sent a stream that
    describes the contents at its keys. -/
theorem watch_stream [Inhabited V] (opts : Options V) (hash : String → UInt64)
    (before : List (Op V)) {out₀ : List (Reply V)} {s₀ : Store V P}
    (hbefore : runSteps Store.step (Store.new opts hash : Store V P) before = .ok (out₀, s₀))
    (hempty : ∀ sh ∈ s₀.shards, sh.items.items = []) (keyPrefix : String) (ops : List (Op V)) :
    ∃ out s, runSteps Store.step (s₀.watch keyPrefix).2 ops = .ok (out, s) ∧
      (.cancelWatch (s₀.watch keyPrefix).1 ∉ ops →
        (s.watchers.get? (s₀.watch keyPrefix).1).isSome) ∧
      ∀ wt, s.watchers.get? (s₀.watch keyPrefix).1 = some wt → wt.refused = 0 → ∀ k x,
        contentsAfter wt.stream (fun _ => none) k = some x ↔
          hasPrefix k keyPrefix = true ∧ ∃ sh ∈ s.shards, sh.pair? k = some x := by
  have hwf0 := new_run_wf hbefore
  obtain ⟨htracks, hwatching⟩ := s₀.watch_tracks keyPrefix
  obtain ⟨out, s, hrun, ⟨hwf, htr⟩, hreg⟩ := runSteps_induction Store.step (s₀.watch keyPrefix).2
    (fun _ => True) (fun _ _ _ => trivial)
    (fun as _ s => (s.WF ∧ s.Tracks s₀.log keyPrefix (s₀.watch keyPrefix).1) ∧
      (.cancelWatch (s₀.watch keyPrefix).1 ∉ as →
        (s.watchers.get? (s₀.watch keyPrefix).1).isSome))
    ⟨⟨hwf0.listen _ _, htracks⟩, fun _ => hwatching⟩ (fun as _ s op _ _ hI => by
      obtain ⟨⟨hs, ht⟩, hreg⟩ := hI
      obtain ⟨reply, s', hstep, hs', ht', hsame⟩ := ht.step hs op
      refine ⟨reply, s', hstep, ⟨hs', ht'⟩, fun hno => ?_⟩
      rw [hsame fun e => hno (mem_append_right _ (e ▸ mem_singleton_self _))]
      exact hreg fun hm => hno (mem_append_left _ hm)) ops trivial
  refine ⟨out, s, hrun, hreg, fun wt hget h0 k x => ?_⟩
  obtain ⟨evs, hlog, hsent⟩ := htr.log
  have hbase : contentsAfter s₀.log (fun _ => none) k = none := by
    rw [← Store.contents]
    refine eq_none_iff_forall_ne_some.mpr fun x hx => ?_
    obtain ⟨sh, hsh, hk⟩ := (hwf0.contents_iff k x).mp hx
    obtain ⟨r, hr, -⟩ := map_eq_some_iff.mp hk
    have hmem := Dict.mem_items.mpr hr
    rw [hempty sh hsh] at hmem
    exact not_mem_nil hmem
  have hcontents : s.contents k = contentsAfter evs (fun _ => none) k := by
    rw [Store.contents, hlog, contentsAfter_append]
    exact UpdateLog.replay_congr _ hbase
  rw [(hsent wt hget).2 h0, contentsAfter_eventsWith, ← hwf.contents_iff, hcontents]
  split
  next hp => exact ⟨fun h => ⟨hp, h⟩, fun h => h.2⟩
  next hp =>
    refine ⟨fun h => ?_, fun h => absurd h.1 hp⟩
    cases h

/-- `watch_stream` for a watcher of the keys `u:…`, after a deletion. -/
theorem watch_stream_users : ∃ (out : List (Reply Nat)) (s₀ s : Store Nat LRU),
      runSteps Store.step (s₀.watch "u:").2
        [.set "u:1" 1 0 3, .set "x" 2 0 4, .compareAndSwap "u:1" 2 5 0 5, .set "u:2" 3 9 6,
          .deleteExpired fun _ => 20] = .ok (out, s) ∧
      (s.watchers.get? (s₀.watch "u:").1).isSome ∧
      ∀ wt, s.watchers.get? (s₀.watch "u:").1 = some wt → wt.refused = 0 → ∀ k x,
        contentsAfter wt.stream (fun _ => none) k = some x ↔
          hasPrefix k "u:" = true ∧ ∃ sh ∈ s.shards, sh.pair? k = some x := by
  obtain ⟨⟨out0, s₀⟩, hrun0, hempty⟩ := exists_ok_of_observe
    (f := fun r => r.2.shards.map fun sh => sh.items.items)
    (x := runSteps Store.step (Store.new {} fun _ => 0 : Store Nat LRU)
      [.set "u:0" 7 0 1, .delete "u:0" 2]) (b := [[]]) rfl
  have hitems : ∀ sh ∈ s₀.shards, sh.items.items = [] := fun sh hsh =>
    mem_singleton.mp (hempty ▸ List.mem_map_of_mem hsh)
  obtain ⟨out, s, hrun, hreg, hstream⟩ := watch_stream {} (fun _ => 0) _ hrun0 hitems "u:"
    [.set "u:1" 1 0 3, .set "x" 2 0 4, .compareAndSwap "u:1" 2 5 0 5, .set "u:2" 3 9 6,
      .deleteExpired fun _ => 20]
  refine ⟨out, s₀, s, hrun, hreg ?_, hstream⟩
  simp

end InterviewPrep.KvStore
