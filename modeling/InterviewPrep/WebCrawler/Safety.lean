/-
  What holds in every state of every crawl: a key is dispatched once, the budget is kept,
  `inFlight` counts the jobs whose results are outstanding, and unless the context is done
  the crawl can go on until the coordinator returns (`run_crawlSafe`).

  `Consistent` is the invariant; `admitAll` says once what a loop of `admitUrl` does.
-/
import InterviewPrep.WebCrawler.Coordinator

namespace InterviewPrep.WebCrawler

open Lib List Option

variable {U : Type}

/-! ## Admission -/

namespace Crawler

variable {c : Crawler U} {s s' : Crawl U} {depth w : Nat} {j : Job U} {x : Worker U} {r : Result U}

/-- The URL may be crawled at this depth. -/
def Admissible (c : Crawler U) (u : U) (depth : Nat) : Prop :=
  (depth : Int) ≤ c.opts.maxDepth ∧ c.allowed (c.urls.normalize u) = true

/-- What a loop of `admitUrl` adds. -/
structure Adds (c : Crawler U) (s : Crawl U) (us : List U) (depth : Nat) (new : List (Job U))
    (s' : Crawl U) : Prop where
  state : s' = { s with
    seen := (new.map c.key).reverse ++ s.seen, frontier := s.frontier ++ new }
  nodup : (new.map c.key).Nodup
  fresh : ∀ j ∈ new, c.key j ∉ s.seen
  sound : ∀ j ∈ new, j.depth = depth ∧
    ∃ u ∈ us, c.Admissible u depth ∧ j.u = c.urls.normalize u
  complete : ∀ u ∈ us, c.Admissible u depth → c.urls.string (c.urls.normalize u) ∈ s'.seen

theorem Adds.nothing {us : List U} (h : ∀ u ∈ us, c.Admissible u depth →
    c.urls.string (c.urls.normalize u) ∈ s.seen) : c.Adds s us depth [] s := by
  refine ⟨?_, nodup_nil, ?_, ?_, h⟩
  · rw [append_nil]
    rfl
  · exact nofun
  · exact nofun

theorem admit_adds (c : Crawler U) (s : Crawl U) (u : U) (depth : Nat) :
    ∃ new, c.Adds s [u] depth new (c.admitUrl s u depth) := by
  rw [admitUrl]
  split
  next hnot =>
    refine ⟨[], Adds.nothing fun u' hu' hadm => ?_⟩
    rw [mem_singleton.mp hu'] at hadm
    rcases hnot with hdepth | hallowed
    · exact absurd hadm.1 (by omega)
    · rw [hadm.2] at hallowed
      cases hallowed
  next hadm =>
  have hadm' : c.Admissible u depth := by
    constructor
    · omega
    · cases hallowed : c.allowed (c.urls.normalize u) with
      | true => rfl
      | false => exact absurd (Or.inr (by rw [hallowed]; rfl)) hadm
  split
  next hseen =>
    refine ⟨[], Adds.nothing fun u' hu' _ => ?_⟩
    rw [mem_singleton.mp hu']
    exact hseen
  next hfresh =>
  refine ⟨[⟨c.urls.normalize u, depth⟩], rfl, nodup_cons.mpr ⟨not_mem_nil, nodup_nil⟩,
    ?_, ?_, ?_⟩
  · intro j hj
    rw [mem_singleton.mp hj]
    exact hfresh
  · intro j hj
    rw [mem_singleton.mp hj]
    exact ⟨rfl, u, mem_singleton_self u, hadm', rfl⟩
  · intro u' hu' _
    rw [mem_singleton.mp hu']
    exact mem_cons_self

theorem Adds.trans {us vs : List U} {new new' : List (Job U)} {s1 s2 : Crawl U}
    (h : c.Adds s us depth new s1) (h' : c.Adds s1 vs depth new' s2) :
    c.Adds s (us ++ vs) depth (new ++ new') s2 := by
  have hseen : ∀ k, k ∈ s1.seen ↔ k ∈ new.map c.key ∨ k ∈ s.seen := by
    intro k
    rw [h.state, mem_append, mem_reverse]
  have hseen' : ∀ k, k ∈ s2.seen ↔ k ∈ new'.map c.key ∨ k ∈ s1.seen := by
    intro k
    rw [h'.state, mem_append, mem_reverse]
  constructor
  · rw [h'.state, h.state, map_append, reverse_append, append_assoc,
      append_assoc]
  · rw [map_append, nodup_append]
    refine ⟨h.nodup, h'.nodup, ?_⟩
    rintro k hk k' hk' rfl
    obtain ⟨j, hj, rfl⟩ := List.mem_map.mp hk'
    exact h'.fresh j hj ((hseen _).mpr (Or.inl hk))
  · intro j hj
    rcases mem_append.mp hj with hj | hj
    · exact h.fresh j hj
    · exact fun hmem => h'.fresh j hj ((hseen _).mpr (Or.inr hmem))
  · intro j hj
    rcases mem_append.mp hj with hj | hj
    · obtain ⟨hdepth, u, hu, hadm⟩ := h.sound j hj
      exact ⟨hdepth, u, mem_append_left _ hu, hadm⟩
    · obtain ⟨hdepth, u, hu, hadm⟩ := h'.sound j hj
      exact ⟨hdepth, u, mem_append_right _ hu, hadm⟩
  · intro u hu hadm
    rcases mem_append.mp hu with hu | hu
    · exact (hseen' _).mpr (Or.inr (h.complete u hu hadm))
    · exact h'.complete u hu hadm

theorem admitAll (c : Crawler U) (s : Crawl U) (us : List U) (depth : Nat) :
    ∃ new, c.Adds s us depth new (us.foldl (fun s u => c.admitUrl s u depth) s) := by
  induction us generalizing s with
  | nil => exact ⟨[], Adds.nothing nofun⟩
  | cons u _ ih =>
    obtain ⟨new, h⟩ := admit_adds c s u depth
    obtain ⟨new', h'⟩ := ih (c.admitUrl s u depth)
    exact ⟨new ++ new', h.trans h'⟩

/-! ## The invariant -/

/-- The jobs that workers have taken and whose results have not been received. -/
def outstanding (s : Crawl U) : List (Job U) := s.workers.filterMap Worker.job ++ s.dropped

/-- What a result says of its job. -/
def ident (c : Crawler U) (j : Job U) : String × Nat := (c.key j, j.depth)

structure Consistent (c : Crawler U) (s : Crawl U) : Prop where
  keys : ((s.taken ++ s.frontier).map c.key).Nodup
  seen : ∀ k, k ∈ s.seen ↔ k ∈ (s.taken ++ s.frontier).map c.key
  dispatched : s.dispatched = s.taken.length
  budget : 0 < c.opts.maxPages → s.dispatched ≤ c.opts.maxPages
  inFlight : s.inFlight = (outstanding s).length
  results : (s.taken.map c.ident).Perm
    (s.received.map (fun p => (p.url, p.depth)) ++ (outstanding s).map c.ident)
  stats : s.stats.fetched + s.stats.failed + s.stats.disallowed = s.received.length
  workers : s.workers.length = c.opts.workers.toNat
  sending : ∀ (w : Nat) j r, s.workers[w]? = some (Worker.sending j r) → ∃ outcome,
    r = c.result j outcome
  exited : ∀ w : Nat, s.workers[w]? = some Worker.exited → s.ctxDone = true ∨ s.returned ≠ none
  dropped : s.dropped ≠ [] → s.ctxDone = true
  nil : s.returned = some none → c.canSend s = false ∧ outstanding s = []

theorem result_ident (j : Job U) (outcome : Outcome U) :
    ((c.result j outcome).page.url, (c.result j outcome).page.depth) = c.ident j := by
  cases outcome <;> rfl

theorem outstanding_split {y : Worker U} (hw : s.workers[w]? = some y) :
    ∃ base, (outstanding s).Perm (y.job.toList ++ base) ∧
      ∀ x, ((s.workers.set w x).filterMap Worker.job ++ s.dropped).Perm (x.job.toList ++ base) := by
  obtain ⟨hlt, hget⟩ := List.getElem?_eq_some_iff.mp hw
  have hset : ∀ x, s.workers.set w x = s.workers.take w ++ x :: s.workers.drop (w + 1) :=
    fun x => by rw [set_eq_take_append_cons_drop, if_pos hlt]
  have hsame : s.workers = s.workers.take w ++ y :: s.workers.drop (w + 1) := by
    rw [← hset y, ← hget, set_getElem_self]
  have hjobs : ∀ x, ((s.workers.take w ++ x :: s.workers.drop (w + 1)).filterMap Worker.job
      ++ s.dropped).Perm (x.job.toList ++ ((s.workers.take w).filterMap Worker.job ++
        (s.workers.drop (w + 1)).filterMap Worker.job ++ s.dropped)) := by
    intro x
    rw [filterMap_append, ← append_assoc]
    apply List.Perm.append_right
    cases hx : x.job with
    | none =>
      rw [filterMap_cons_none hx]
      exact List.Perm.refl _
    | some =>
      rw [filterMap_cons_some hx]
      exact perm_middle
  refine ⟨(s.workers.take w).filterMap Worker.job ++
    (s.workers.drop (w + 1)).filterMap Worker.job ++ s.dropped, ?_, fun x => ?_⟩
  · have h := hjobs y
    rw [← hsame] at h
    exact h
  · rw [hset]
    exact hjobs x

theorem of_getElem?_set {ws : List (Worker U)} {w' : Nat} {y : Worker U}
    (h : (ws.set w x)[w']? = some y) : y = x ∨ ws[w']? = some y := by
  rw [getElem?_set] at h
  split at h
  · split at h
    · exact Or.inl (some.inj h).symm
    · cases h
  · exact Or.inr h

theorem mem_selecting (h : c.selecting s = true) :
    s.returned = none ∧ (c.canSend s = true ∨ s.inFlight ≠ 0) := by
  rw [selecting, Bool.and_eq_true, Bool.or_eq_true, decide_eq_true_eq, decide_eq_true_eq] at h
  exact h

theorem mem_canSend (h : c.canSend s = true) :
    s.frontier ≠ [] ∧ (c.opts.maxPages = 0 ∨ s.dispatched < c.opts.maxPages) := by
  rw [canSend, Bool.and_eq_true, Bool.or_eq_true, decide_eq_true_eq, decide_eq_true_eq,
    decide_eq_true_eq] at h
  exact h

/-! ## The steps -/

theorem Consistent.sending_set (h : c.Consistent s)
    (hx : ∀ j r, x = .sending j r → ∃ outcome, r = c.result j outcome) :
    ∀ (w' : Nat) j r, (s.workers.set w x)[w']? = some (Worker.sending j r) →
      ∃ outcome, r = c.result j outcome := by
  intro w' j r hget
  rcases of_getElem?_set hget with heq | hget
  · exact hx j r heq.symm
  · exact h.sending w' j r hget

theorem Consistent.exited_set (h : c.Consistent s)
    (hx : x = .exited → s.ctxDone = true ∨ s.returned ≠ none) :
    ∀ w' : Nat, (s.workers.set w x)[w']? = some Worker.exited →
      s.ctxDone = true ∨ s.returned ≠ none := by
  intro w' hget
  rcases of_getElem?_set hget with heq | hget
  · exact hx heq.symm
  · exact h.exited w' hget

theorem Consistent.send (h : c.Consistent s) {next : Job U} {frontier : List (Job U)}
    (hw : s.workers[w]? = some .receiving) (hfrontier : s.frontier = next :: frontier)
    (hselecting : c.selecting s = true) (hsend : c.canSend s = true) : c.Consistent { s with
      frontier := frontier
      inFlight := s.inFlight + 1
      dispatched := s.dispatched + 1
      workers := s.workers.set w (.processing next)
      taken := s.taken ++ [next] } := by
  obtain ⟨base, hold, hset⟩ := outstanding_split hw
  replace hold : (outstanding s).Perm base := hold
  have hnew : ((s.workers.set w (.processing next)).filterMap Worker.job ++ s.dropped).Perm
      (next :: base) := hset (.processing next)
  have hjobs : (s.taken ++ [next]) ++ frontier = s.taken ++ s.frontier := by
    rw [hfrontier, append_assoc]
    rfl
  refine ⟨?_, ?_, ?_, ?_, ?_, ?_, h.stats, ?_, ?_, ?_, h.dropped, ?_⟩
  · show (((s.taken ++ [next]) ++ frontier).map c.key).Nodup
    rw [hjobs]
    exact h.keys
  · intro k
    rw [hjobs]
    exact h.seen k
  · have := h.dispatched
    simp only [length_append, length_singleton]
    omega
  · intro hpages
    have := (mem_canSend hsend).2
    dsimp only
    omega
  · have hlength := hnew.length_eq
    have := hold.length_eq
    have := h.inFlight
    rw [length_cons] at hlength
    show s.inFlight + 1 =
      (((s.workers.set w (.processing next)).filterMap Worker.job ++ s.dropped).length : Int)
    omega
  · rw [map_append]
    have hresults := h.results.append_right ([next].map c.ident)
    refine hresults.trans ?_
    rw [append_assoc]
    apply List.Perm.append_left
    refine List.Perm.trans ?_ (hnew.map c.ident).symm
    refine ((hold.map c.ident).append_right _).trans ?_
    exact perm_append_comm
  · rw [length_set]
    exact h.workers
  · exact h.sending_set nofun
  · exact h.exited_set nofun
  · intro hnil
    rw [(mem_selecting hselecting).1] at hnil
    cases hnil

theorem Consistent.setWorker (h : c.Consistent s) {dropped : List (Job U)}
    (hsame : ((s.workers.set w x).filterMap Worker.job ++ dropped).Perm (outstanding s))
    (hsending : ∀ j r, x = .sending j r → ∃ outcome, r = c.result j outcome)
    (hexited : x = .exited → s.ctxDone = true ∨ s.returned ≠ none)
    (hdropped : dropped ≠ [] → s.ctxDone = true) :
    c.Consistent { s with workers := s.workers.set w x, dropped } := by
  refine ⟨h.keys, h.seen, h.dispatched, h.budget, ?_, ?_, h.stats, ?_, h.sending_set hsending,
    h.exited_set hexited, hdropped, fun hnil => ?_⟩
  · rw [h.inFlight, ← hsame.length_eq]
    rfl
  · exact h.results.trans ((hsame.map c.ident).symm.append_left _)
  · rw [length_set]
    exact h.workers
  · obtain ⟨hsend, hout⟩ := h.nil hnil
    rw [hout] at hsame
    exact ⟨hsend, hsame.eq_nil⟩

theorem Consistent.finish (h : c.Consistent s) (hw : s.workers[w]? = some (.processing j))
    (outcome : Outcome U) :
    c.Consistent { s with workers := s.workers.set w (.sending j (c.result j outcome)) } := by
  obtain ⟨base, hold, hset⟩ := outstanding_split hw
  refine h.setWorker ((hset (.sending j (c.result j outcome))).trans hold.symm)
    (fun j' r heq => ?_) nofun h.dropped
  cases heq
  exact ⟨outcome, rfl⟩

theorem count_sum (stats : Stats) (err : Option PageErr) :
    (count stats err).fetched + (count stats err).failed + (count stats err).disallowed =
      stats.fetched + stats.failed + stats.disallowed + 1 := by
  rcases err with _ | _ | text
  · simp only [count]
    omega
  · simp only [count]
    omega
  · simp only [count]
    omega

/-- The state after a result, but for what `OnPage` answers. -/
def received (c : Crawler U) (s : Crawl U) (w : Nat) (r : Result U) : Crawl U :=
  c.handle { s with workers := s.workers.set w .receiving } r none

theorem received_eq (c : Crawler U) (s : Crawl U) (w : Nat) (r : Result U) :
    ∃ new s1, c.Adds { s with
        inFlight := s.inFlight - 1
        stats := count s.stats r.page.err
        workers := s.workers.set w .receiving
        received := s.received ++ [r.page] } r.links (r.page.depth + 1) new s1 ∧
      c.received s w r = { s1 with
        stats := { s1.stats with
          discovered := s1.stats.discovered + (s1.seen.length - s.seen.length) } } := by
  obtain ⟨new, hadds⟩ := admitAll c { s with
    inFlight := s.inFlight - 1
    stats := count s.stats r.page.err
    workers := s.workers.set w .receiving
    received := s.received ++ [r.page] } r.links (r.page.depth + 1)
  exact ⟨new, _, hadds, rfl⟩

theorem Consistent.received (h : c.Consistent s) (hw : s.workers[w]? = some (.sending j r))
    (hselecting : c.selecting s = true) : c.Consistent (c.received s w r) := by
  obtain ⟨base, hold, hset⟩ := outstanding_split hw
  replace hold : (outstanding s).Perm (j :: base) := hold
  have hnew : ((s.workers.set w .receiving).filterMap Worker.job ++ s.dropped).Perm base :=
    hset .receiving
  obtain ⟨outcome, rfl⟩ := h.sending w j r hw
  obtain ⟨new, s1, hadds, heq⟩ := received_eq c s w (c.result j outcome)
  rw [heq, hadds.state]
  have hjobs : (s.taken ++ (s.frontier ++ new)).map c.key =
      (s.taken ++ s.frontier).map c.key ++ new.map c.key := by
    rw [← append_assoc, map_append]
  refine ⟨?_, ?_, h.dispatched, h.budget, ?_, ?_, ?_, ?_, ?_, ?_, h.dropped, ?_⟩
  · dsimp only
    rw [hjobs, nodup_append]
    refine ⟨h.keys, hadds.nodup, ?_⟩
    rintro k hk k' hk' rfl
    obtain ⟨j', hj', rfl⟩ := List.mem_map.mp hk'
    exact hadds.fresh j' hj' ((h.seen _).mpr hk)
  · intro k
    rw [hjobs, mem_append, mem_append, mem_reverse, h.seen, or_comm]
  · have hlength := hold.length_eq
    have := hnew.length_eq
    have := h.inFlight
    rw [length_cons] at hlength
    show s.inFlight - 1 =
      (((s.workers.set w .receiving).filterMap Worker.job ++ s.dropped).length : Int)
    omega
  · refine h.results.trans ?_
    rw [map_append, append_assoc]
    apply List.Perm.append_left
    refine (hold.map c.ident).trans ?_
    rw [map_cons, map_cons, result_ident]
    exact (hnew.map c.ident).symm.cons _
  · have := h.stats
    have := count_sum s.stats (c.result j outcome).page.err
    simp only [length_append, length_singleton]
    omega
  · rw [length_set]
    exact h.workers
  · exact h.sending_set nofun
  · exact h.exited_set nofun
  · intro hnil
    rw [show s.returned = none from (mem_selecting hselecting).1] at hnil
    cases hnil

theorem Consistent.abandon (h : c.Consistent s) (hw : s.workers[w]? = some (.sending j r))
    (hdone : s.ctxDone = true) : c.Consistent { s with
      workers := s.workers.set w .exited, dropped := s.dropped ++ [j] } := by
  obtain ⟨base, hold, hset⟩ := outstanding_split hw
  refine h.setWorker ?_ nofun (fun _ => Or.inl hdone) fun _ => hdone
  rw [← append_assoc]
  refine ((hset .exited).append_right [j]).trans ?_
  exact perm_append_comm.trans hold.symm

theorem Consistent.leave (h : c.Consistent s) (hw : s.workers[w]? = some .receiving)
    (hreturned : s.returned ≠ none) :
    c.Consistent { s with workers := s.workers.set w .exited } := by
  obtain ⟨base, hold, hset⟩ := outstanding_split hw
  exact h.setWorker ((hset .exited).trans hold.symm) nofun (fun _ => Or.inr hreturned) h.dropped

theorem Consistent.setReturned (h : c.Consistent s) (returned : Option (Option CrawlErr))
    (ctxDone : Bool) (hreturned : s.returned ≠ none → returned ≠ none)
    (hdone : s.ctxDone = true → ctxDone = true)
    (hnil : returned = some none → c.canSend s = false ∧ outstanding s = []) :
    c.Consistent { s with returned := returned, ctxDone := ctxDone } :=
  { h with
    exited := fun w hw => (h.exited w hw).imp hdone hreturned
    dropped := fun hdropped => hdone (h.dropped hdropped)
    nil := hnil }

theorem handle_eq (c : Crawler U) (s : Crawl U) (w : Nat) (r : Result U) (onPage : Option String) :
    c.handle { s with workers := s.workers.set w .receiving } r onPage =
      match onPage with
      | none => c.received s w r
      | some text => { c.received s w r with
          returned := some (some (.onPage text)), ctxDone := true } := by
  cases onPage <;> rfl

theorem Consistent.act (h : c.Consistent s) {op : Op U} (hact : c.act s op = some s') :
    c.Consistent s' := by
  cases op with
  | send =>
    rw [Crawler.act] at hact
    split at hact
    next next _ hw hfrontier =>
      split at hact
      next hguard =>
        rw [Bool.and_eq_true] at hguard
        rw [← some.inj hact]
        exact h.send hw hfrontier hguard.1 hguard.2
      next => cases hact
    next => cases hact
  | finish _ outcome =>
    rw [Crawler.act] at hact
    split at hact
    next hw =>
      rw [← some.inj hact]
      exact h.finish hw outcome
    next => cases hact
  | receive =>
    rw [Crawler.act] at hact
    split at hact
    next hw =>
      split at hact
      next hselecting =>
        rw [← some.inj hact, handle_eq]
        have hreceived := h.received hw hselecting
        split
        · exact hreceived
        · refine hreceived.setReturned _ _ (fun _ => some_ne_none _) (fun _ => rfl) ?_
          intro hnil
          cases hnil
      next => cases hact
    next => cases hact
  | returnNil =>
    rw [Crawler.act] at hact
    split at hact
    next hguard =>
      rw [← some.inj hact]
      rw [Bool.and_eq_true, Bool.and_eq_true, decide_eq_true_eq, decide_eq_true_eq,
        Bool.not_eq_true'] at hguard
      refine h.setReturned _ _ (fun _ => some_ne_none _) id fun _ => ⟨hguard.1.2, ?_⟩
      have hlength := h.inFlight
      rw [hguard.2] at hlength
      exact eq_nil_of_length_eq_zero (by omega)
    next => cases hact
  | returnDone =>
    rw [Crawler.act] at hact
    split at hact
    next =>
      rw [← some.inj hact]
      refine h.setReturned _ _ (fun _ => some_ne_none _) id fun hnil => ?_
      cases hnil
    next => cases hact
  | abandon =>
    rw [Crawler.act] at hact
    split at hact
    next hw =>
      split at hact
      next hdone =>
        rw [← some.inj hact]
        exact h.abandon hw hdone
      next => cases hact
    next => cases hact
  | leave =>
    rw [Crawler.act] at hact
    split at hact
    next hw =>
      split at hact
      next hreturned =>
        rw [← some.inj hact]
        exact h.leave hw (isSome_iff_ne_none.mp hreturned)
      next => cases hact
    next => cases hact
  | cancel =>
    rw [← some.inj hact]
    exact h.setReturned _ _ id (fun _ => rfl) h.nil

theorem step_eq_ok {op : Op U} {u : Unit} (hstep : c.step s op = .ok (u, s')) :
    c.act s op = some s' := by
  rw [step] at hstep
  split at hstep
  · cases hstep
  next hact =>
    cases hstep
    exact hact

/-! ## The start -/

variable {seeds : List String}

theorem crawl_eq_ok (hcrawl : c.crawl seeds = .ok s) : ∃ new, c.Adds
      { frontier := [], seen := [], stats := ⟨0, 0, 0, 0⟩, inFlight := 0, dispatched := 0
        workers := List.replicate c.opts.workers.toNat .receiving, ctxDone := false
        returned := none, taken := [], received := [], dropped := [] }
      (c.seedUrls seeds) 0 new s := by
  rw [crawl] at hcrawl
  split at hcrawl
  · cases hcrawl
  · rw [← Except.ok.inj hcrawl]
    exact admitAll c _ _ 0

theorem crawl_consistent (hcrawl : c.crawl seeds = .ok s) : c.Consistent s := by
  obtain ⟨new, hadds⟩ := crawl_eq_ok hcrawl
  have hidle : ∀ (w : Nat) y,
      (List.replicate c.opts.workers.toNat (Worker.receiving (U := U)))[w]? =
      some y → y = .receiving := by
    intro w y hget
    rw [getElem?_replicate] at hget
    split at hget
    · exact (some.inj hget).symm
    · cases hget
  have hnone : (List.replicate c.opts.workers.toNat (Worker.receiving (U := U))).filterMap
      Worker.job = [] := by
    rw [filterMap_eq_nil_iff]
    intro x hx
    rw [eq_of_mem_replicate hx]
    rfl
  have hout : outstanding s = [] := by
    rw [outstanding, hadds.state]
    rw [hnone]
    rfl
  rw [hadds.state] at hout ⊢
  refine ⟨?_, ?_, rfl, fun hpages => Int.le_of_lt hpages, ?_, ?_, rfl, ?_, ?_, ?_, ?_, ?_⟩
  · exact hadds.nodup
  · intro k
    simp
  · rw [hout]
    rfl
  · rw [hout]
    exact List.Perm.refl _
  · exact length_replicate
  · intro w j r hget
    cases hidle w _ hget
  · intro w hget
    cases hidle w _ hget
  · exact fun hne => absurd rfl hne
  · intro hnil
    cases hnil

/-! ## Progress -/

theorem newCrawler_workers (urls : Urls U) (opts : Options U) :
    0 < (newCrawler urls opts).opts.workers := by
  show 0 < if opts.workers ≤ 0 then (8 : Int) else opts.workers
  split <;> omega

/-- A worker whose result the coordinator takes when it offers it. -/
def CanReceive (c : Crawler U) (s : Crawl U) (w : Nat) : Prop :=
  ∀ onPage, (c.act s (.receive w onPage)).isSome = true

theorem canReceive (hw : s.workers[w]? = some (.sending j r)) (hselecting : c.selecting s = true) :
    c.CanReceive s w := by
  intro onPage
  rw [Crawler.act, hw]
  dsimp only
  rw [if_pos hselecting]
  rfl

/-- Unless the context is done: the coordinator returns, or there is a send or a receive, or a
    worker is at its job and is received from when it has done it. -/
theorem Consistent.progress (h : c.Consistent s) (hworkers : 0 < c.opts.workers)
    (hdone : s.ctxDone = false) (hreturned : s.returned = none) :
    (c.act s .returnNil).isSome = true ∨ (∃ w, (c.act s (.send w)).isSome = true) ∨
      (∃ w, c.CanReceive s w) ∨
      ∃ w, ∀ outcome, ∃ s', c.act s (.finish w outcome) = some s' ∧ c.CanReceive s' w := by
  have hdropped : s.dropped = [] := by
    by_contra hne
    rw [h.dropped hne] at hdone
    cases hdone
  have hexited : ∀ w : Nat, s.workers[w]? ≠ some .exited := by
    intro w hw
    rcases h.exited w hw with hdone' | hreturned'
    · rw [hdone] at hdone'
      cases hdone'
    · exact hreturned' hreturned
  by_cases hflight : s.inFlight = 0
  · have hout : outstanding s = [] := by
      have hlength := h.inFlight
      rw [hflight] at hlength
      exact eq_nil_of_length_eq_zero (by omega)
    cases hsend : c.canSend s with
    | false =>
      left
      rw [Crawler.act, hreturned, hsend, hflight]
      rfl
    | true =>
    -- nobody is busy, so the first worker takes the job
    right; left
    have hlength : 0 < s.workers.length := by
      rw [h.workers]
      omega
    obtain ⟨next, frontier, hfrontier⟩ := exists_cons_of_ne_nil (mem_canSend hsend).1
    have hselecting : c.selecting s = true := by
      rw [selecting, hreturned, hsend]
      rfl
    have hw : s.workers[0]? = some .receiving := by
      cases hget : s.workers[0]? with
      | none =>
        rw [List.getElem?_eq_none_iff] at hget
        omega
      | some y =>
      have hjob : y.job = none := by
        cases hjob : y.job with
        | none => rfl
        | some j =>
          have hmem : j ∈ outstanding s := mem_append_left _
            (mem_filterMap.mpr ⟨y, mem_of_getElem? hget, hjob⟩)
          rw [hout] at hmem
          cases hmem
      cases y with
      | receiving => rfl
      | processing | sending => cases hjob
      | exited => exact absurd hget (hexited 0)
    refine ⟨0, ?_⟩
    rw [Crawler.act, hw, hfrontier]
    rw [hselecting, hsend]
    rfl
  · have hselecting : c.selecting s = true := by
      rw [selecting, hreturned, Bool.and_eq_true, Bool.or_eq_true, decide_eq_true_eq,
        decide_eq_true_eq]
      exact ⟨rfl, Or.inr hflight⟩
    have hne : outstanding s ≠ [] := by
      intro hout
      have hlength := h.inFlight
      rw [hout] at hlength
      exact hflight hlength
    obtain ⟨j, hj⟩ := exists_mem_of_ne_nil _ hne
    rw [outstanding, hdropped, append_nil, mem_filterMap] at hj
    obtain ⟨y, hy, hjob⟩ := hj
    obtain ⟨w, hlt, hget⟩ := getElem_of_mem hy
    have hw : s.workers[w]? = some y := List.getElem?_eq_some_iff.mpr ⟨hlt, hget⟩
    right; right
    cases y with
    | receiving => cases hjob
    | exited => cases hjob
    | sending => exact Or.inl ⟨w, canReceive hw hselecting⟩
    | processing j' =>
      right
      refine ⟨w, fun outcome => ⟨_, by rw [Crawler.act, hw], ?_⟩⟩
      apply canReceive (j := j') (r := c.result j' outcome)
      · exact getElem?_set_self hlt
      · exact hselecting

/-! ## Runs -/

theorem Consistent.run (h : c.Consistent s) {ops : List (Op U)} {outs : List Unit}
    (hrun : runSteps c.step s ops = .ok (outs, s')) : c.Consistent s' := by
  induction ops generalizing s outs with
  | nil =>
    cases hrun
    exact h
  | cons _ _ ih =>
    obtain ⟨_, s1, _, hstep, hrest, -⟩ := runSteps_cons_inv hrun
    exact ih (h.act (step_eq_ok hstep)) hrest

/-- The coordinator is safe, whatever the workers and the schedule do. -/
structure Safe (c : Crawler U) (s : Crawl U) : Prop where
  /-- No key is dispatched twice. -/
  once : (s.taken.map c.key).Nodup
  budget : 0 < c.opts.maxPages → (s.taken.length : Int) ≤ c.opts.maxPages
  /-- `inFlight` is the number of jobs taken of which the result has not been received. -/
  inFlight : s.inFlight = (outstanding s).length
  results : (s.taken.map c.ident).Perm
    (s.received.map (fun p => (p.url, p.depth)) ++ (outstanding s).map c.ident)
  /-- The coordinator returns nil with nothing to send and no job outstanding. -/
  nil : s.returned = some none → c.canSend s = false ∧ outstanding s = []
  stats : s.stats.fetched + s.stats.failed + s.stats.disallowed = s.received.length
  /-- The crawl is not stuck. -/
  progress : s.ctxDone = false → s.returned = none →
    (c.act s .returnNil).isSome = true ∨ (∃ w, (c.act s (.send w)).isSome = true) ∨
      (∃ w, c.CanReceive s w) ∨
      ∃ w, ∀ outcome, ∃ s', c.act s (.finish w outcome) = some s' ∧ c.CanReceive s' w

theorem Consistent.safe (h : c.Consistent s) (hworkers : 0 < c.opts.workers) : c.Safe s := by
  refine ⟨?_, ?_, h.inFlight, h.results, h.nil, h.stats, h.progress hworkers⟩
  · have hkeys := h.keys
    rw [map_append] at hkeys
    exact (nodup_append.mp hkeys).1
  · rw [← h.dispatched]
    exact h.budget

/-- Every state of every crawl is safe. -/
theorem run_crawlSafe (urls : Urls U) (opts : Options U)
    (hcrawl : (newCrawler urls opts).crawl seeds = .ok s) {ops : List (Op U)} {outs : List Unit}
    (hrun : runSteps (newCrawler urls opts).step s ops = .ok (outs, s')) :
    (newCrawler urls opts).Safe s' :=
  ((crawl_consistent hcrawl).run hrun).safe (newCrawler_workers urls opts)

/-- URLs that are strings in normal form. -/
def plainUrls : Urls String := ⟨some, id, id, id⟩

/-- A page and a link that leads nowhere, with two workers. -/
theorem run_crawlSafe_two :
    ∃ s s' outs, (newCrawler plainUrls ⟨2, 3, 0, []⟩).crawl ["a"] = .ok s ∧
      runSteps (newCrawler plainUrls ⟨2, 3, 0, []⟩).step s
        [.send 0, .finish 0 (.fetched 200 ["b"]), .receive 0 none, .send 1,
          .finish 1 (.failed 404 "HTTP 404"), .receive 1 none, .returnNil] = .ok (outs, s') ∧
      s'.returned = some none ∧ (newCrawler plainUrls ⟨2, 3, 0, []⟩).Safe s' := by
  obtain ⟨s, hcrawl, hobserve⟩ := exists_ok_of_observe
    (x := (newCrawler plainUrls ⟨2, 3, 0, []⟩).crawl ["a"])
    (f := fun s => (runSteps (newCrawler plainUrls ⟨2, 3, 0, []⟩).step s
      [.send 0, .finish 0 (.fetched 200 ["b"]), .receive 0 none, .send 1,
        .finish 1 (.failed 404 "HTTP 404"), .receive 1 none, .returnNil]).toOption.map
          fun r => r.2.returned)
    (b := some (some none))
    (by decide +kernel)
  obtain ⟨⟨outs, s'⟩, hrun, hreturned⟩ := exists_ok_of_observe hobserve
  exact ⟨s, s', outs, hcrawl, hrun, hreturned, run_crawlSafe plainUrls ⟨2, 3, 0, []⟩ hcrawl hrun⟩

end Crawler

end InterviewPrep.WebCrawler
