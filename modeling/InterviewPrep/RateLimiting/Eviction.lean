/-
  That evicting idle keys is invisible: over any interleaving of calls and sweeps, the decisions
  for a key are those of one state that is never evicted (`run_decisions`).

  The evicted flag keeps every request on the key's current entry (`EvictInv`), and that entry
  settles like the state never evicted, or like a new one while the key has no entry (`Tracks`).
-/
import InterviewPrep.RateLimiting.Settling

namespace InterviewPrep.RateLimiting

open Lib Dict List Memory RateLimitAlgorithm

variable {K S : Type} [DecidableEq K] {algo : RateLimitAlgorithm S} {Current : S → ℚ → Prop}

/-! ## Serving requests -/

section

variable (h : algo.Lawful Current) {s s' : S} {t : ℚ}

include h

theorem RateLimitAlgorithm.Lawful.serve_congr (request : Request)
    (hs : algo.settle s t = algo.settle s' t) :
    algo.serve request s t = algo.serve request s' t := by
  cases request with
  | tryAcquire => rw [serve, serve, (h.looks hs).1]
  | peek => rw [serve, serve, (h.looks hs).2.2]

theorem RateLimitAlgorithm.Lawful.current_serve (request : Request) (hs : Current s t) :
    Current (algo.serve request s t).2 t := by
  cases request with
  | tryAcquire =>
    have hleft : Current (algo.remaining (algo.tryAcquire s t).2 t).2 t :=
      h.current_settle (h.current_tryAcquire hs)
    simp only [serve]
    split
    · exact hleft
    · rw [h.retryAfter_state]
      exact h.current_settle hleft
  | peek =>
    simp only [serve, h.retryAfter_state]
    exact h.current_settle (h.current_settle hs)

end

theorem RateLimitAlgorithm.serveAll_append (s : S) (xs : List (Request × ℚ)) (request : Request)
    (now : ℚ) : algo.serveAll s (xs ++ [(request, now)]) =
      ((algo.serveAll s xs).1 ++ [(algo.serve request (algo.serveAll s xs).2 now).1],
        (algo.serve request (algo.serveAll s xs).2 now).2) := by
  induction xs generalizing s with
  | nil => rfl
  | cons x _ ih =>
    obtain ⟨request', now'⟩ := x
    simp only [cons_append, serveAll, ih]

namespace RateLimiter

variable {s s' : RateLimiter K algo} {event : LimiterEvent K}

/-! ## What a step can do -/

/-- Every step of the limiter, with its guard. -/
inductive Moved (s : RateLimiter K algo) : LimiterEvent K → RateLimiter K algo → Prop where
  | called {c : Nat} {key : K} {request : Request} {now : ℚ} (hnow : s.clock ≤ now)
      (hc : s.calls.get? c = none) :
      Moved s .silent { s with clock := now, calls := s.calls.set c ⟨key, request, .called now⟩ }
  | found {c : Nat} {key : K} {request : Request} {now : ℚ} {r : Ref}
      (hc : s.calls.get? c = some ⟨key, request, .called now⟩) (hr : s.entries.get? key = some r) :
      Moved s .silent { s with calls := s.calls.set c ⟨key, request, .holding r⟩ }
  | created {c : Nat} {key : K} {request : Request} {now : ℚ}
      (hc : s.calls.get? c = some ⟨key, request, .called now⟩) (hr : s.entries.get? key = none)
      (hsweep : s.sweep = none) :
      Moved s .silent { s with
        entries := s.entries.set key s.heap.next,
        heap := (s.heap.alloc ⟨algo.newState now, false⟩).2,
        calls := s.calls.set c ⟨key, request, .holding s.heap.next⟩ }
  | lost {c : Nat} {key : K} {request : Request} {r : Ref} :
      Moved s .silent { s with calls := s.calls.set c ⟨key, request, .lost⟩ }
  | decided {c : Nat} {key : K} {request : Request} {now : ℚ} {r : Ref} (hnow : s.clock ≤ now)
      (hc : s.calls.get? c = some ⟨key, request, .holding r⟩)
      (hr : (s.heap.read r).evicted = false) :
      Moved s (.decided c key request now (algo.serve request (s.heap.read r).state now).1)
        { s with
          clock := now,
          heap := s.heap.write r ⟨(algo.serve request (s.heap.read r).state now).2, false⟩,
          calls := s.calls.erase c }
  | retried {c : Nat} {key : K} {request : Request} {now : ℚ} (hnow : s.clock ≤ now) :
      Moved s .silent { s with clock := now, calls := s.calls.set c ⟨key, request, .called now⟩ }
  | began (hsweep : s.sweep = none) : Moved s .silent { s with sweep := some ⟨s.entries.items, 0⟩ }
  | skipped {p : K × Ref} {pending : List (K × Ref)} {removed : Nat}
      (hsweep : s.sweep = some ⟨p :: pending, removed⟩) :
      Moved s .silent { s with sweep := some ⟨pending, removed⟩ }
  | kept {now : ℚ} {key : K} {r : Ref} {pending : List (K × Ref)} {removed : Nat}
      (hnow : s.clock ≤ now) (hsweep : s.sweep = some ⟨(key, r) :: pending, removed⟩) :
      Moved s .silent { s with
        clock := now,
        heap := s.heap.write r
          ⟨algo.settle (s.heap.read r).state now, (s.heap.read r).evicted⟩,
        sweep := some ⟨pending, removed⟩ }
  | evicted {now : ℚ} {key : K} {r : Ref} {pending : List (K × Ref)} {removed : Nat}
      (hnow : s.clock ≤ now) (hsweep : s.sweep = some ⟨(key, r) :: pending, removed⟩)
      (hidle : algo.rule.maxRequests ≤ (algo.remaining (s.heap.read r).state now).1) :
      Moved s .silent { s with
        clock := now,
        entries := s.entries.erase key,
        heap := s.heap.write r ⟨algo.settle (s.heap.read r).state now, true⟩,
        sweep := some ⟨pending, removed + 1⟩ }
  | swept {removed : Nat} (hsweep : s.sweep = some ⟨[], removed⟩) :
      Moved s (.evicted removed) { s with sweep := none }

theorem entry_moved {c : Nat} (h : s.entry c = .ok (event, s')) : s.Moved event s' := by
  simp only [entry] at h
  split at h
  case h_1 hc hsweep =>
    split at h
    case h_1 hr =>
      cases h
      exact .found hc hr
    case h_2 hr =>
      cases h
      exact .created hc hr hsweep
  case h_2 => cases h

theorem withState_moved {c : Nat} {now : ℚ} (h : s.withState c now = .ok (event, s')) :
    s.Moved event s' := by
  simp only [withState] at h
  split at h
  case h_1 r hc =>
    split at h
    case isTrue =>
      cases h
      exact .lost (r := r)
    case isFalse hr =>
    split at h
    case isTrue hnow =>
      cases h
      rw [Bool.not_eq_true] at hr
      rw [hr]
      exact .decided hnow hc hr
    case isFalse => cases h
  case h_2 => cases h

theorem evictKey_moved {now : ℚ} (h : s.evictKey now = .ok (event, s')) : s.Moved event s' := by
  simp only [evictKey, isIdle_eq, decide_eq_true_eq] at h
  split at h
  case h_1 hsweep =>
    split at h
    case isTrue hnow =>
      split at h
      case isTrue hidle =>
        split at h
        case h_1 => cases h
        case h_2 =>
          cases h
          exact .evicted hnow hsweep hidle
      case isFalse =>
        cases h
        exact .kept hnow hsweep
    case isFalse => cases h
  case h_2 => cases h

/-- A step that is taken is one of `Moved`, guards included. -/
theorem step_moved {a : LimiterStep K} (h : s.step a = .ok (event, s')) : s.Moved event s' := by
  cases a with
  | call =>
    simp only [step] at h
    split at h
    case h_1 => cases h
    case h_2 hc =>
      split at h
      case isTrue hnow =>
        cases h
        exact .called hnow hc
      case isFalse => cases h
  | entry => exact entry_moved h
  | withState => exact withState_moved h
  | retry =>
    simp only [step] at h
    split at h
    case h_1 =>
      split at h
      case isTrue hnow =>
        cases h
        exact .retried hnow
      case isFalse => cases h
    case h_2 => cases h
  | evictIdle =>
    simp only [step] at h
    split at h
    case h_1 hsweep =>
      cases h
      exact .began hsweep
    case h_2 => cases h
  | evictSkip =>
    simp only [step] at h
    split at h
    case h_1 hsweep =>
      cases h
      exact .skipped hsweep
    case h_2 => cases h
  | evictKey => exact evictKey_moved h
  | evictDone =>
    simp only [step] at h
    split at h
    case h_1 hsweep =>
      cases h
      exact .swept hsweep
    case h_2 => cases h

/-! ## The invariant -/

/-- Requests reach a key's current entry only: an entry is out of the map once it is marked evicted,
    and a call or a sweep that has one not marked has the current one. -/
structure EvictInv (Current : S → ℚ → Prop) (s : RateLimiter K algo) : Prop where
  mapped : ∀ k r, s.entries.get? k = some r → r < s.heap.next ∧
    (s.heap.read r).evicted = false ∧ Current (s.heap.read r).state s.clock
  inj : ∀ k k' r, s.entries.get? k = some r → s.entries.get? k' = some r → k = k'
  called : ∀ c call now, s.calls.get? c = some call → call.progress = .called now → now ≤ s.clock
  holding : ∀ c call r, s.calls.get? c = some call → call.progress = .holding r →
    r < s.heap.next ∧ ((s.heap.read r).evicted = false → s.entries.get? call.key = some r)
  pending : ∀ sweep, s.sweep = some sweep →
    (∀ p ∈ sweep.pending, s.entries.get? p.1 = some p.2) ∧ (sweep.pending.map Prod.fst).Nodup

theorem new_evictInv (start : ℚ) : EvictInv Current (new algo start : RateLimiter K algo) :=
  ⟨nofun, nofun, nofun, nofun, nofun⟩

namespace EvictInv

variable (inv : EvictInv Current s)

include inv

theorem tick (h : algo.Lawful Current) {now : ℚ} (hnow : s.clock ≤ now) :
    EvictInv Current ({ s with clock := now } : RateLimiter K algo) :=
  { inv with
    mapped := fun k r hr =>
      (inv.mapped k r hr).imp_right (.imp_right fun hcur => h.current_mono hcur hnow)
    called := fun c call t hc ht => (inv.called c call t hc ht).trans hnow }

theorem setCall {c : Nat} {call : Call K} (hcalled : ∀ t, call.progress = .called t → t ≤ s.clock)
    (hholding : ∀ r, call.progress = .holding r → s.entries.get? call.key = some r) :
    EvictInv Current ({ s with calls := s.calls.set c call } : RateLimiter K algo) := { inv with
  called := by
    intro c' call' t hc ht
    rcases get?_set_some hc with ⟨-, rfl⟩ | ⟨-, hc⟩
    · exact hcalled t ht
    · exact inv.called c' call' t hc ht
  holding := by
    intro c' call' r hc hr
    rcases get?_set_some hc with ⟨-, rfl⟩ | ⟨-, hc⟩
    · have hmap := hholding r hr
      exact ⟨(inv.mapped _ r hmap).1, fun _ => hmap⟩
    · exact inv.holding c' call' r hc hr }

theorem eraseCall (c : Nat) :
    EvictInv Current ({ s with calls := s.calls.erase c } : RateLimiter K algo) :=
  { inv with
    called := fun c' call' t hc => inv.called c' call' t (get?_erase_some hc).2
    holding := fun c' call' r hc => inv.holding c' call' r (get?_erase_some hc).2 }

theorem setSweep {sweep : Option (Sweep K)} (hsweep : ∀ sw, sweep = some sw →
      (∀ p ∈ sw.pending, s.entries.get? p.1 = some p.2) ∧ (sw.pending.map Prod.fst).Nodup) :
    EvictInv Current ({ s with sweep } : RateLimiter K algo) :=
  { inv with pending := hsweep }

theorem write {r : Ref} {state : S} (hstate : Current state s.clock) :
    EvictInv Current
      ({ s with heap := s.heap.write r ⟨state, (s.heap.read r).evicted⟩ } :
        RateLimiter K algo) := by
  have hflag : ∀ r', ((s.heap.write r ⟨state, (s.heap.read r).evicted⟩).read r').evicted =
      (s.heap.read r').evicted := by
    intro r'
    rw [read_write]
    split
    case isTrue heq => rw [heq]
    case isFalse => rfl
  exact { inv with
    mapped := by
      intro k r' hr'
      obtain ⟨hlt, hev, hcur⟩ := inv.mapped k r' hr'
      refine ⟨hlt, (hflag r').trans hev, ?_⟩
      rw [read_write]
      split
      · exact hstate
      · exact hcur
    holding := by
      intro c call r' hc hr'
      obtain ⟨hlt, hmap⟩ := inv.holding c call r' hc hr'
      exact ⟨hlt, fun hev => hmap ((hflag r').symm.trans hev)⟩ }

theorem create (h : algo.Lawful Current) {key : K} {now : ℚ} (hkey : s.entries.get? key = none)
    (hnow : now ≤ s.clock) (hsweep : s.sweep = none) : EvictInv Current ({ s with
      entries := s.entries.set key s.heap.next,
      heap := (s.heap.alloc ⟨algo.newState now, false⟩).2 } : RateLimiter K algo) := by
  have hread : ∀ r, r < s.heap.next →
      (s.heap.alloc ⟨algo.newState now, false⟩).2.read r = s.heap.read r :=
    fun r hr => s.heap.read_alloc_of_ne _ hr.ne
  refine ⟨fun k r hr => ?_, fun k k' r hr hr' => ?_, inv.called, fun c call r hc hr => ?_,
    fun sw hsw => ?_⟩
  · rcases get?_set_some hr with ⟨-, rfl⟩ | ⟨-, hr⟩
    · refine ⟨Nat.lt_succ_self _, ?_⟩
      rw [read_alloc_self]
      exact ⟨rfl, h.current_newState hnow⟩
    · obtain ⟨hlt, hmap⟩ := inv.mapped k r hr
      exact ⟨hlt.trans (Nat.lt_succ_self _), hread r hlt ▸ hmap⟩
  · rcases get?_set_some hr with ⟨rfl, rfl⟩ | ⟨-, hr⟩
    · rcases get?_set_some hr' with ⟨rfl, -⟩ | ⟨-, hr'⟩
      · rfl
      · exact absurd (inv.mapped k' _ hr').1 (lt_irrefl _)
    · rcases get?_set_some hr' with ⟨-, rfl⟩ | ⟨-, hr'⟩
      · exact absurd (inv.mapped k _ hr).1 (lt_irrefl _)
      · exact inv.inj k k' r hr hr'
  · obtain ⟨hlt, hmap⟩ := inv.holding c call r hc hr
    refine ⟨hlt.trans (Nat.lt_succ_self _), fun hev => ?_⟩
    rw [hread r hlt] at hev
    have hold := hmap hev
    rw [get?_set_of_ne, hold]
    intro heq
    rw [heq, hkey] at hold
    cases hold
  · rw [hsweep] at hsw
    cases hsw

variable {pending : List (K × Ref)}

theorem evict {key : K} {r : Ref} {removed removed' : Nat} {state : S}
    (hsweep : s.sweep = some ⟨(key, r) :: pending, removed⟩) : EvictInv Current ({ s with
      entries := s.entries.erase key,
      heap := s.heap.write r ⟨state, true⟩,
      sweep := some ⟨pending, removed'⟩ } : RateLimiter K algo) := by
  obtain ⟨hpend, hnodup⟩ := inv.pending _ hsweep
  have hkey : s.entries.get? key = some r := hpend (key, r) mem_cons_self
  -- the other keys' entries are other objects
  have hread : ∀ k r', (s.entries.erase key).get? k = some r' →
      s.entries.get? k = some r' ∧ (s.heap.write r ⟨state, true⟩).read r' = s.heap.read r' := by
    intro k r' hr'
    obtain ⟨hne, hr'⟩ := get?_erase_some hr'
    refine ⟨hr', s.heap.read_write_of_ne _ ?_⟩
    rintro rfl
    exact hne (inv.inj k key r' hr' hkey)
  refine ⟨fun k r' hr' => ?_,
    fun k k' r' hr hr' => inv.inj k k' r' (hread k r' hr).1 (hread k' r' hr').1,
    inv.called, fun c call r' hc hr' => ?_, fun sw hsw => ?_⟩
  · obtain ⟨hr', heq⟩ := hread k r' hr'
    rw [heq]
    exact inv.mapped k r' hr'
  · obtain ⟨hlt, hmap⟩ := inv.holding c call r' hc hr'
    refine ⟨hlt, fun hev => ?_⟩
    have hne : r' ≠ r := by
      rintro rfl
      rw [read_write_self] at hev
      cases hev
    rw [read_write_of_ne _ _ hne] at hev
    have hold := hmap hev
    rw [get?_erase_of_ne, hold]
    intro heq
    rw [heq, hkey] at hold
    exact hne (Option.some.inj hold).symm
  · cases hsw
    rw [map_cons, nodup_cons] at hnodup
    refine ⟨fun p hp => ?_, hnodup.2⟩
    rw [get?_erase_of_ne]
    · exact hpend p (mem_cons_of_mem _ hp)
    · intro heq
      have hmem : p.1 ∈ pending.map Prod.fst := List.mem_map_of_mem hp
      exact hnodup.1 (heq ▸ hmem)

theorem rest {p : K × Ref} {removed removed' : Nat}
    (hsweep : s.sweep = some ⟨p :: pending, removed⟩) :
    EvictInv Current ({ s with sweep := some ⟨pending, removed'⟩ } : RateLimiter K algo) := by
  obtain ⟨hpend, hnodup⟩ := inv.pending _ hsweep
  apply inv.setSweep
  rintro sw ⟨⟩
  exact ⟨fun p' hp' => hpend p' (mem_cons_of_mem _ hp'), (nodup_cons.mp hnodup).2⟩

theorem step (h : algo.Lawful Current) (hstep : s.Moved event s') : EvictInv Current s' := by
  cases hstep with
  | called hnow hc | retried hnow =>
    exact (inv.tick h hnow).setCall (fun t ht => by cases ht; exact le_rfl) nofun
  | found _ hr => exact inv.setCall nofun (fun r' hr' => by cases hr'; exact hr)
  | created hc hr hsweep =>
    refine (inv.create h hr (inv.called _ _ _ hc rfl) hsweep).setCall nofun
      (fun r' hr' => ?_)
    cases hr'
    exact get?_set_self _ _ _
  | lost => exact inv.setCall nofun nofun
  | @decided c _ request _ r hnow hc hr =>
    have hmap := (inv.holding _ _ _ hc rfl).2 hr
    have hcur := h.current_serve request (h.current_mono (inv.mapped _ _ hmap).2.2 hnow)
    have hwrite := ((inv.tick h hnow).write (r := r) hcur).eraseCall c
    rw [hr] at hwrite
    exact hwrite
  | began =>
    apply inv.setSweep
    rintro sw ⟨⟩
    exact ⟨fun p hp => mem_items_iff.mp hp, s.entries.keys_nodup⟩
  | skipped hsweep => exact inv.rest hsweep
  | @kept _ key r pending _ hnow hsweep =>
    have hmap := (inv.pending _ hsweep).1 (key, r) mem_cons_self
    have hcur := h.current_settle (h.current_mono (inv.mapped _ _ hmap).2.2 hnow)
    exact ((inv.tick h hnow).write (r := r) hcur).rest hsweep
  | evicted hnow hsweep => exact (inv.tick h hnow).evict hsweep
  | swept =>
    apply inv.setSweep
    rintro sw ⟨⟩

end EvictInv

/-! ## The state that is never evicted -/

/-- The entry of `key`, and a new one while there is none, settles like `q`, made at `t₀`. -/
structure Tracks (key : K) (t₀ : ℚ) (q : S) (s : RateLimiter K algo) : Prop where
  mapped : ∀ r, s.entries.get? key = some r → ∀ t, s.clock ≤ t → t₀ ≤ t →
    algo.settle (s.heap.read r).state t = algo.settle q t
  unmapped : s.entries.get? key = none → ∀ t t₁, s.clock ≤ t → t₀ ≤ t → t₁ ≤ t →
    algo.settle (algo.newState t₁) t = algo.settle q t

namespace Tracks

variable {key : K} {t₀ : ℚ} {q : S} (tr : Tracks key t₀ q s) {r : Ref} {e : Entry S}

theorem new (h : algo.Lawful Current) (start : ℚ) :
    Tracks key t₀ (algo.newState t₀) (new algo start : RateLimiter K algo) :=
  ⟨nofun, fun _ _ _ _ ht0 ht1 => h.settle_newState ht1 ht0⟩

theorem writeOwn {q' : S} (hr : s.entries.get? key = some r)
    (he : ∀ t, s.clock ≤ t → t₀ ≤ t → algo.settle e.state t = algo.settle q' t) :
    Tracks key t₀ q' ({ s with heap := s.heap.write r e } : RateLimiter K algo) where
  mapped := by
    intro r' hr' t ht ht0
    cases hr.symm.trans hr'
    rw [read_write_self]
    exact he t ht ht0
  unmapped := by
    intro hnone
    cases hr.symm.trans hnone

include tr

theorem tick {now : ℚ} (hnow : s.clock ≤ now) :
    Tracks key t₀ q ({ s with clock := now } : RateLimiter K algo) :=
  ⟨fun r hr t ht => tr.mapped r hr t (hnow.trans ht),
    fun hr t t1 ht => tr.unmapped hr t t1 (hnow.trans ht)⟩

theorem withCalls (calls : Dict Nat (Call K)) :
    Tracks key t₀ q ({ s with calls } : RateLimiter K algo) :=
  { tr with }

theorem withSweep (sweep : Option (Sweep K)) :
    Tracks key t₀ q ({ s with sweep } : RateLimiter K algo) :=
  { tr with }

theorem writeOther (e : Entry S) (hr : s.entries.get? key ≠ some r) :
    Tracks key t₀ q ({ s with heap := s.heap.write r e } : RateLimiter K algo) :=
  { tr with
    mapped := by
      intro r' hr' t ht ht0
      rw [read_write_of_ne _ _ (by rintro rfl; exact hr hr')]
      exact tr.mapped r' hr' t ht ht0 }

theorem createOther {key' : K} (inv : EvictInv Current s) (hne : key ≠ key') :
    Tracks key t₀ q ({ s with
      entries := s.entries.set key' s.heap.next, heap := (s.heap.alloc e).2 } :
        RateLimiter K algo) := by
  refine ⟨fun r hr t ht ht0 => ?_, fun hr => ?_⟩
  · have hold : s.entries.get? key = some r := (get?_set_of_ne _ _ hne).symm.trans hr
    rw [read_alloc_of_ne _ _ (inv.mapped key r hold).1.ne]
    exact tr.mapped r hold t ht ht0
  · exact tr.unmapped ((get?_set_of_ne _ _ hne).symm.trans hr)

theorem createOwn {now : ℚ} (hkey : s.entries.get? key = none) (hnow : now ≤ s.clock) :
    Tracks key t₀ q ({ s with
      entries := s.entries.set key s.heap.next,
      heap := (s.heap.alloc ⟨algo.newState now, false⟩).2 } : RateLimiter K algo) := by
  refine ⟨fun r hr t ht ht0 => ?_, fun hr => ?_⟩
  · cases (get?_set_self _ _ _).symm.trans hr
    rw [read_alloc_self]
    exact tr.unmapped hkey t now ht ht0 (hnow.trans ht)
  · cases (get?_set_self _ _ _).symm.trans hr

theorem evictOther {key' : K} (hne : key ≠ key') (hr : s.entries.get? key ≠ some r) :
    Tracks key t₀ q ({ s with
      entries := s.entries.erase key', heap := s.heap.write r e } : RateLimiter K algo) := by
  have hwrite := tr.writeOther e hr
  refine ⟨fun r' hr' => ?_, fun hr' => ?_⟩
  · exact hwrite.mapped r' ((get?_erase_of_ne _ hne).symm.trans hr')
  · exact hwrite.unmapped ((get?_erase_of_ne _ hne).symm.trans hr')

theorem evictOwn (h : algo.Lawful Current) (hr : s.entries.get? key = some r)
    (hcur : Current (s.heap.read r).state s.clock)
    (hidle : algo.rule.maxRequests ≤ (algo.remaining (s.heap.read r).state s.clock).1) :
    Tracks key t₀ q ({ s with
      entries := s.entries.erase key, heap := s.heap.write r e } : RateLimiter K algo) where
  mapped := by
    intro r' hr'
    exact absurd rfl (get?_erase_some hr').1
  unmapped := by
    intro _ t t1 ht ht0 ht1
    calc algo.settle (algo.newState t1) t
        = algo.settle (s.heap.read r).state t := (h.settle_of_idle hcur hidle ht ht1).symm
      _ = algo.settle q t := tr.mapped r hr t ht ht0

end Tracks

theorem step_tracks (h : algo.Lawful Current) {key : K} {t₀ : ℚ} {q : S} (hstep : s.Moved event s')
    (inv : EvictInv Current s) (tr : Tracks key t₀ q s)
    (ht0 : ∀ x, event.served key = some x → t₀ ≤ x.now) :
    match event.served key with
    | none => Tracks key t₀ q s'
    | some x => x.decision = (algo.serve x.request q x.now).1 ∧
        Tracks key t₀ (algo.serve x.request q x.now).2 s' := by
  cases hstep with
  | called hnow => exact (tr.tick hnow).withCalls _
  | found => exact tr.withCalls _
  | @created _ key' _ _ hc hr =>
    by_cases hkey : key = key'
    · subst hkey
      exact (tr.createOwn hr (inv.called _ _ _ hc rfl)).withCalls _
    · exact (tr.createOther inv hkey).withCalls _
  | lost => exact tr.withCalls _
  | @decided _ key' request now r hnow hc hr =>
    have hmap : s.entries.get? key' = some r := (inv.holding _ _ _ hc rfl).2 hr
    by_cases hkey : key' = key
    · subst hkey
      simp only [LimiterEvent.served, if_true] at ht0 ⊢
      have hserve := h.serve_congr request (tr.mapped r hmap now hnow (ht0 _ rfl))
      have hown := Tracks.writeOwn (s := ({ s with clock := now } : RateLimiter K algo))
        (e := ⟨(algo.serve request (s.heap.read r).state now).2, false⟩) hmap
        fun t _ (_ : t₀ ≤ t) => rfl
      rw [hserve] at hown ⊢
      exact ⟨rfl, hown.withCalls _⟩
    · simp only [LimiterEvent.served, if_neg hkey]
      refine ((tr.tick hnow).writeOther _ fun hr' => ?_).withCalls _
      exact hkey (inv.inj key' key r hmap hr')
  | retried hnow => exact (tr.tick hnow).withCalls _
  | began | skipped => exact tr.withSweep _
  | @kept now key' r pending _ hnow hsweep =>
    have hmap : s.entries.get? key' = some r := (inv.pending _ hsweep).1 _ mem_cons_self
    by_cases hkey : key' = key
    · subst hkey
      have hcur := h.current_mono (inv.mapped _ _ hmap).2.2 hnow
      refine (Tracks.writeOwn (s := ({ s with clock := now } : RateLimiter K algo)) hmap
        fun t ht ht0 => ?_).withSweep _
      calc algo.settle (algo.settle (s.heap.read r).state now) t
          = algo.settle (s.heap.read r).state t := h.settle_settle hcur ht
        _ = algo.settle q t := tr.mapped r hmap t (hnow.trans ht) ht0
    · refine ((tr.tick hnow).writeOther _ fun hr' => ?_).withSweep _
      exact hkey (inv.inj key' key r hmap hr')
  | @evicted _ key' r pending _ hnow hsweep hidle =>
    have hmap : s.entries.get? key' = some r := (inv.pending _ hsweep).1 _ mem_cons_self
    by_cases hkey : key' = key
    · subst hkey
      have hcur := h.current_mono (inv.mapped _ _ hmap).2.2 hnow
      exact ((tr.tick hnow).evictOwn h hmap hcur hidle).withSweep _
    · refine ((tr.tick hnow).evictOther (Ne.symm hkey) fun hr' => ?_).withSweep _
      exact hkey (inv.inj key' key r hmap hr')
  | swept => exact tr.withSweep _

/-! ## Whole runs -/

/-- The requests of a key and their times, as its callers were served. -/
def requestsOf (key : K) (events : List (LimiterEvent K)) : List (Request × ℚ) :=
  (servedOf key events).map fun x => (x.request, x.now)

/-- What a run served is what one state per key would have. -/
theorem run_tracks (h : algo.Lawful Current) (start t₀ : ℚ) (key : K) {steps : List (LimiterStep K)}
    {events : List (LimiterEvent K)}
    (hrun : runSteps step (new algo start) steps = .ok (events, s))
    (ht0 : ∀ x ∈ servedOf key events, t₀ ≤ x.now) : EvictInv Current s ∧
      (servedOf key events).map Served.decision =
        (algo.serveAll (algo.newState t₀) (requestsOf key events)).1 ∧
      Tracks key t₀ (algo.serveAll (algo.newState t₀) (requestsOf key events)).2 s := by
  refine runSteps_keeps (C := fun _ _ => True)
    (fun _ os t => (∀ x ∈ servedOf key os, t₀ ≤ x.now) → EvictInv Current t ∧
      (servedOf key os).map Served.decision =
        (algo.serveAll (algo.newState t₀) (requestsOf key os)).1 ∧
      Tracks key t₀ (algo.serveAll (algo.newState t₀) (requestsOf key os)).2 t)
    ?_ (fun _ => ⟨new_evictInv start, rfl, Tracks.new h start⟩)
    (Guarded.of_forall (fun _ _ => trivial) _ _) hrun ht0
  intro as os t a o t' _ hI _ hstep ht0
  have happ : servedOf key (os ++ [o]) = servedOf key os ++ (o.served key).toList := by
    rw [servedOf, filterMap_append, servedOf]
    cases hx : o.served key <;> simp [hx]
  rw [happ] at ht0 ⊢
  obtain ⟨inv, hdec, tr⟩ := hI fun x hx => ht0 x (mem_append_left _ hx)
  have hmoved := step_moved hstep
  have hnext := step_tracks h hmoved inv tr
    fun x hx => ht0 x (mem_append_right _ (by rw [hx]; exact mem_singleton_self x))
  refine ⟨inv.step h hmoved, ?_⟩
  rw [requestsOf, happ]
  cases hx : o.served key with
  | none =>
    rw [hx] at hnext
    rw [Option.toList_none, append_nil]
    exact ⟨hdec, hnext⟩
  | some =>
    rw [hx] at hnext
    obtain ⟨hd, htr⟩ := hnext
    simp only [Option.toList_some, map_append, map_cons, map_nil]
    rw [serveAll_append]
    exact ⟨by rw [hdec, hd]; rfl, htr⟩

/-- Evicting idle keys is invisible: for each algorithm and every run, the decisions for a key are
    those of one state, made at any time up to the first request served, that is never evicted. -/
theorem run_evictionInvisible (kind : AlgorithmKind) (rule : RateLimitRule) (start t₀ : ℚ) (key : K)
    (steps : List (LimiterStep K)) (events : List (LimiterEvent K))
    (s : RateLimiter K (kind.algorithm rule))
    (hrun : runSteps step (new (kind.algorithm rule) start) steps = .ok (events, s))
    (ht₀ : ∀ x ∈ servedOf key events, t₀ ≤ x.now) : (servedOf key events).map Served.decision =
      ((kind.algorithm rule).serveAll ((kind.algorithm rule).newState t₀)
        (requestsOf key events)).1 :=
  (run_tracks (kind.lawful rule) start t₀ key hrun ht₀).2.1

/-- One request in two seconds. -/
def slowRule : RateLimitRule := ⟨1, 2, by decide, by decide +kernel⟩

/-- `run_evictionInvisible` for a request whose entry is evicted before it has the entry's lock. -/
theorem run_evictionInvisible_retry :
    ∃ events s, runSteps step
      (new (AlgorithmKind.tokenBucket.algorithm slowRule) 0 : RateLimiter String _)
        [.call 0 "a" .tryAcquire 0, .entry 0, .withState 0 0, .call 1 "a" .tryAcquire 5, .entry 1,
          .evictIdle, .evictKey 5, .evictDone, .withState 1 6, .retry 1 6, .entry 1,
          .withState 1 6] = .ok (events, s) ∧ (servedOf "a" events).map Served.decision =
        ((AlgorithmKind.tokenBucket.algorithm slowRule).serveAll
          ((AlgorithmKind.tokenBucket.algorithm slowRule).newState 0)
            (requestsOf "a" events)).1 := by
  refine exists_run_of_observe (f := fun r => (servedOf "a" r.1).map Served.now) (b := [0, 6])
    (by decide +kernel) fun events s hrun hobs => ?_
  refine run_evictionInvisible _ _ 0 0 "a" _ events s hrun fun x hx => ?_
  have hmem : x.now ∈ ([0, 6] : List ℚ) := hobs ▸ List.mem_map_of_mem hx
  rcases mem_cons.mp hmem with h | h
  · exact h.ge
  · rw [mem_singleton.mp h]
    decide +kernel

end RateLimiter

end InterviewPrep.RateLimiting
