/-
  Whether a crawl without a page budget is breadth first: whether it dispatches the URLs
  within `maxDepth` links of the seeds, each at its shortest distance.

  A URL is queued at the depth of the result that brings it first.  So a crawl is breadth
  first exactly when no result brings a URL to which a job that is queued or outstanding
  has a shorter route (`InOrder`), which results that overtake each other can break.
-/
import InterviewPrep.Lib.Routes
import InterviewPrep.WebCrawler.Safety

namespace InterviewPrep.WebCrawler

open Lib List Option

namespace Crawler

variable {U : Type} {c : Crawler U} {site : String → Outcome U}
  {seeds : List String} {s s' : Crawl U} {w d : Nat} {j : Job U} {k : String}

/-! ## The links of a site -/

/-- The page at `k` is fetched and has an admitted link to `k'`. -/
def Link (c : Crawler U) (site : String → Outcome U) (k k' : String) : Prop :=
  ∃ statusCode links, site k = .fetched statusCode links ∧ ∃ l ∈ links,
    c.allowed (c.urls.normalize l) = true ∧ c.urls.string (c.urls.normalize l) = k'

def Seed (c : Crawler U) (seeds : List String) (k : String) : Prop :=
  ∃ u ∈ c.seedUrls seeds,
    c.allowed (c.urls.normalize u) = true ∧ c.urls.string (c.urls.normalize u) = k

/-- The shortest distance of a URL from the seeds. -/
abbrev Distance (c : Crawler U) (site : String → Outcome U) (seeds : List String) (d : Nat)
    (k : String) : Prop :=
  Shortest (c.Seed seeds) (c.Link site) d k

/-- The crawl has dispatched the URLs within the depth limit, each at its distance. -/
def BreadthFirst (c : Crawler U) (site : String → Outcome U) (seeds : List String)
    (s : Crawl U) : Prop :=
  (∀ k, k ∈ s.taken.map c.key ↔ ∃ d : Nat, (d : Int) ≤ c.opts.maxDepth ∧
    c.Distance site seeds d k) ∧
    ∀ p ∈ s.received, c.Distance site seeds p.depth p.url

/-- Every URL has one outcome. -/
def Deterministic (c : Crawler U) (site : String → Outcome U) (s : Crawl U) : Op U → Prop
  | .finish w outcome => ∀ j, s.workers[w]? = some (.processing j) → outcome = site (c.key j)
  | _ => True

instance [DecidableEq U] (op : Op U) : Decidable (c.Deterministic site s op) :=
  match op with
  | .finish w outcome =>
    decidable_of_iff (((s.workers[w]?.bind Worker.processed).all fun j =>
      decide (outcome = site (c.key j))) = true) (by
        rw [Option.all_eq_true]
        simp only [decide_eq_true_eq, Option.bind_eq_some_iff, forall_exists_index, and_imp]
        constructor
        · exact fun h j hw => h j _ hw rfl
        · intro h j y hw hy
          cases y <;> cases hy
          exact h _ hw)
  | .send _ | .receive _ _ | .returnNil | .returnDone | .abandon _ | .leave _ | .cancel =>
    .isTrue trivial

/-- The result received brings no URL to which a queued or outstanding job has a shorter route. -/
def InOrder (c : Crawler U) (site : String → Outcome U) (s : Crawl U) : Op U → Prop
  | .receive w _ => ∀ j r, s.workers[w]? = some (.sending j r) → ∀ l ∈ r.links,
      c.Admissible l (j.depth + 1) → c.urls.string (c.urls.normalize l) ∉ s.seen →
      ∀ o ∈ s.frontier ++ outstanding s, ∀ m,
        Route (c.Link site) m (c.key o) (c.urls.string (c.urls.normalize l)) →
        j.depth + 1 ≤ o.depth + m
  | _ => True

/-! ## Jobs -/

/-- The jobs that have been queued so far. -/
def jobs (s : Crawl U) : List (Job U) := s.taken ++ s.frontier

structure Brings (c : Crawler U) (s : Crawl U) (j : Job U) (r : Result U) (new : List (Job U))
    (s' : Crawl U) : Prop where
  jobs : jobs s' = jobs s ++ new
  seen : ∀ k, k ∈ s'.seen ↔ k ∈ new.map c.key ∨ k ∈ s.seen
  received : s'.received = s.received ++ [r.page]
  workers : ∀ (w : Nat) j' r', s'.workers[w]? = some (Worker.sending j' r') →
    s.workers[w]? = some (Worker.sending j' r')
  fresh : ∀ j' ∈ new, c.key j' ∉ s.seen
  sound : ∀ j' ∈ new, j'.depth = j.depth + 1 ∧
    ∃ l ∈ r.links, c.Admissible l (j.depth + 1) ∧ j'.u = c.urls.normalize l
  complete : ∀ l ∈ r.links, c.Admissible l (j.depth + 1) →
    c.urls.string (c.urls.normalize l) ∈ s'.seen

/-- What the other steps leave as it is. -/
structure Quiet (s s' : Crawl U) : Prop where
  jobs : jobs s' = jobs s
  seen : s'.seen = s.seen
  received : s'.received = s.received

theorem sending_of_set {x : Worker U} (hx : ∀ j r, x ≠ .sending j r) (ws : List (Worker U)) :
    ∀ (w' : Nat) j r, (ws.set w x)[w']? = some (Worker.sending j r) →
      ws[w']? = some (Worker.sending j r) := by
  intro w' j r hget
  rcases of_getElem?_set hget with heq | hget
  · exact absurd heq.symm (hx j r)
  · exact hget

variable {onPage : Option String} {new : List (Job U)}

theorem Consistent.act_receive (h : c.Consistent s)
    (hact : c.act s (.receive w onPage) = some s') :
    ∃ j outcome new, s.workers[w]? = some (.sending j (c.result j outcome)) ∧
      c.Brings s j (c.result j outcome) new s' := by
  rw [Crawler.act] at hact
  split at hact
  next j r hw =>
    split at hact
    next =>
      obtain ⟨outcome, rfl⟩ := h.sending w j r hw
      rw [handle_eq] at hact
      obtain ⟨new, s1, hadds, heq⟩ := received_eq c s w (c.result j outcome)
      have hdepth : (c.result j outcome).page.depth = j.depth :=
        congrArg Prod.snd (result_ident j outcome)
      rw [hdepth] at hadds
      have hbrings : c.Brings s j (c.result j outcome) new
          (c.received s w (c.result j outcome)) := by
        refine ⟨?_, ?_, ?_, ?_, hadds.fresh, hadds.sound, ?_⟩
        · rw [heq, hadds.state, jobs, jobs, append_assoc]
        · intro k
          rw [heq, hadds.state, mem_append, mem_reverse]
        · rw [heq, hadds.state]
        · rw [heq, hadds.state]
          exact sending_of_set (fun j r heq => by cases heq) s.workers
        · rw [heq]
          exact hadds.complete
      refine ⟨j, outcome, new, hw, ?_⟩
      rw [← some.inj hact]
      cases onPage with
      | none => exact hbrings
      | some =>
        exact ⟨hbrings.jobs, hbrings.seen, hbrings.received, hbrings.workers, hbrings.fresh,
          hbrings.sound, hbrings.complete⟩
    next => cases hact
  next => cases hact

theorem act_quiet {op : Op U} (hact : c.act s op = some s')
    (hop : ∀ w onPage, op ≠ .receive w onPage) :
    Quiet s s' ∧ ∀ (w : Nat) j r, s'.workers[w]? = some (Worker.sending j r) →
      s.workers[w]? = some (Worker.sending j r) ∨
        ∃ outcome, op = .finish w outcome ∧ s.workers[w]? = some (.processing j) ∧
          r = c.result j outcome := by
  cases op with
  | receive w onPage => exact absurd rfl (hop w onPage)
  | send =>
    rw [act] at hact
    split at hact
    next next _ _ hfrontier =>
      split at hact
      next =>
        rw [← some.inj hact]
        refine ⟨⟨?_, rfl, rfl⟩, fun w' j r hget => Or.inl ?_⟩
        · rw [jobs, jobs, hfrontier, append_assoc]
          rfl
        · exact sending_of_set (fun j r heq => by cases heq) s.workers w' j r hget
      next => cases hact
    next => cases hact
  | finish w outcome =>
    rw [act] at hact
    split at hact
    next j hw =>
      rw [← some.inj hact]
      refine ⟨⟨rfl, rfl, rfl⟩, fun w' j' r hget => ?_⟩
      replace hget : (s.workers.set w (.sending j (c.result j outcome)))[w']? =
        some (Worker.sending j' r) := hget
      rw [getElem?_set] at hget
      split at hget
      next heq =>
        split at hget
        next =>
          cases hget
          rw [← heq]
          exact Or.inr ⟨outcome, rfl, hw, rfl⟩
        next => cases hget
      next => exact Or.inl hget
    next => cases hact
  | returnNil | returnDone =>
    rw [act] at hact
    split at hact
    next =>
      rw [← some.inj hact]
      exact ⟨⟨rfl, rfl, rfl⟩, fun w j r hget => Or.inl hget⟩
    next => cases hact
  | abandon w | leave w =>
    rw [act] at hact
    split at hact
    next =>
      split at hact
      next =>
        rw [← some.inj hact]
        exact ⟨⟨rfl, rfl, rfl⟩, fun w' j r hget =>
          Or.inl (sending_of_set (fun j r heq => by cases heq) s.workers w' j r hget)⟩
      next => cases hact
    next => cases hact
  | cancel =>
    rw [← some.inj hact]
    exact ⟨⟨rfl, rfl, rfl⟩, fun w j r hget => Or.inl hget⟩

/-! ## The invariant -/

/-- The crawl follows the links of the site. -/
structure Tracks (c : Crawler U) (site : String → Outcome U) (seeds : List String)
    (s : Crawl U) : Prop where
  consistent : c.Consistent s
  sound : ∀ j ∈ jobs s, Reaches (c.Seed seeds) (c.Link site) j.depth (c.key j) ∧
    (j.depth : Int) ≤ c.opts.maxDepth
  seeds : ∀ k, c.Seed seeds k → ∃ j ∈ jobs s, c.key j = k ∧ j.depth = 0
  sending : ∀ (w : Nat) j r, s.workers[w]? = some (Worker.sending j r) →
    r = c.result j (site (c.key j))
  closed : ∀ p ∈ s.received, ((p.depth + 1 : Nat) : Int) ≤ c.opts.maxDepth →
    ∀ k, c.Link site p.url k → k ∈ s.seen

/-- The jobs are queued at their distances. -/
def Exact (c : Crawler U) (site : String → Outcome U) (seeds : List String) (s : Crawl U) : Prop :=
  ∀ j ∈ jobs s, c.Distance site seeds j.depth (c.key j)

section

variable (h : c.Tracks site seeds s)

include h

theorem Tracks.seen_iff : k ∈ s.seen ↔ ∃ j ∈ jobs s, c.key j = k := by
  rw [h.consistent.seen, List.mem_map]
  rfl

theorem Tracks.mem_taken (hj : j ∈ s.taken) :
    (∃ o ∈ outstanding s, c.key o = c.key j ∧ o.depth = j.depth) ∨
      ∃ p ∈ s.received, p.url = c.key j ∧ p.depth = j.depth := by
  have hmem : c.ident j ∈ s.received.map (fun p => (p.url, p.depth)) ++
      (outstanding s).map c.ident :=
    h.consistent.results.mem_iff.mp (List.mem_map_of_mem hj)
  rcases mem_append.mp hmem with hreceived | hout
  · obtain ⟨p, hp, heq⟩ := List.mem_map.mp hreceived
    exact Or.inr ⟨p, hp, congrArg Prod.fst heq, congrArg Prod.snd heq⟩
  · obtain ⟨o, ho, heq⟩ := List.mem_map.mp hout
    exact Or.inl ⟨o, ho, congrArg Prod.fst heq, congrArg Prod.snd heq⟩

theorem Tracks.sound_outstanding {o : Job U} (ho : o ∈ s.frontier ++ outstanding s) :
    Reaches (c.Seed seeds) (c.Link site) o.depth (c.key o) := by
  rcases mem_append.mp ho with ho | ho
  · exact (h.sound o (mem_append_right _ ho)).1
  have hmem : c.ident o ∈ s.taken.map c.ident :=
    h.consistent.results.mem_iff.mpr (mem_append_right _ (List.mem_map_of_mem ho))
  obtain ⟨j, hj, heq⟩ := List.mem_map.mp hmem
  have hsound := (h.sound j (mem_append_left _ hj)).1
  rw [show c.key j = c.key o from congrArg Prod.fst heq,
    show j.depth = o.depth from congrArg Prod.snd heq] at hsound
  exact hsound

theorem Tracks.reaches (hexact : c.Exact site seeds s) {root : String}
    (hroot : c.Seed seeds root) (hroute : Route (c.Link site) d root k)
    (hd : (d : Int) ≤ c.opts.maxDepth) : (∃ j ∈ jobs s, c.key j = k ∧ j.depth ≤ d) ∨
      ∃ o ∈ s.frontier ++ outstanding s, ∃ m, Route (c.Link site) m (c.key o) k ∧
        o.depth + m ≤ d := by
  induction hroute with
  | refl =>
    obtain ⟨j, hj, hkey, hdepth⟩ := h.seeds _ hroot
    exact Or.inl ⟨j, hj, hkey, Nat.le_of_eq hdepth⟩
  | @snoc d a _ e hroute hlink ih =>
    rcases ih hroot (by omega) with ⟨j, hj, rfl, hle⟩ | ⟨o, ho, m, hm, hle⟩
    · have hopen : ∀ o ∈ s.frontier ++ outstanding s, c.key o = c.key j → o.depth = j.depth →
          ∃ o ∈ s.frontier ++ outstanding s, ∃ m, Route (c.Link site) m (c.key o) e ∧
            o.depth + m ≤ d + 1 := by
        intro o ho hkey hdepth
        refine ⟨o, ho, 1, ?_, by omega⟩
        rw [hkey]
        exact .snoc (.refl _) hlink
      rcases mem_append.mp hj with htaken | hfrontier
      · rcases h.mem_taken htaken with ⟨o, ho, hkey, hdepth⟩ | ⟨p, hp, hurl, hdepth⟩
        · exact Or.inr (hopen o (mem_append_right _ ho) hkey hdepth)
        -- the page has been received, so its links have been queued
        left
        rw [← hurl] at hlink
        obtain ⟨j', hj', rfl⟩ := h.seen_iff.mp (h.closed p hp (by omega) e hlink)
        refine ⟨j', hj', rfl, (hexact j' hj').2 (d + 1) ?_⟩
        rw [hurl] at hlink
        exact ⟨a, hroot, .snoc hroute hlink⟩
      · exact Or.inr (hopen j (mem_append_left _ hfrontier) rfl rfl)
    · exact Or.inr ⟨o, ho, m + 1, .snoc hm hlink, by omega⟩

end

theorem link_of_result {l : U} (hl : l ∈ (c.result j (site (c.key j))).links)
    (hallowed : c.allowed (c.urls.normalize l) = true) :
    c.Link site (c.key j) (c.urls.string (c.urls.normalize l)) := by
  cases hsite : site (c.key j) with
  | disallowed | failed statusCode text =>
    rw [hsite] at hl
    cases hl
  | fetched statusCode links =>
    rw [hsite] at hl
    exact ⟨statusCode, links, hsite, l, hl, hallowed, rfl⟩

theorem result_of_link (h : c.Link site (c.key j) k) :
    ∃ l ∈ (c.result j (site (c.key j))).links, c.allowed (c.urls.normalize l) = true ∧
      c.urls.string (c.urls.normalize l) = k := by
  obtain ⟨statusCode, links, hsite, l, hl, hallowed, hkey⟩ := h
  rw [hsite]
  exact ⟨l, hl, hallowed, hkey⟩

/-! ## The steps -/

theorem mem_outstanding {y : Worker U} (hw : s.workers[w]? = some y) (hj : y.job = some j) :
    j ∈ outstanding s :=
  mem_append_left _ (mem_filterMap.mpr ⟨y, mem_of_getElem? hw, hj⟩)

theorem Tracks.brings (h : c.Tracks site seeds s)
    (hw : s.workers[w]? = some (.sending j (c.result j (site (c.key j)))))
    (hbrings : c.Brings s j (c.result j (site (c.key j))) new s') (hs' : c.Consistent s') :
    c.Tracks site seeds s' := by
  have hreach := h.sound_outstanding (mem_append_right _ (mem_outstanding hw rfl))
  refine ⟨hs', ?_, ?_, fun w j r hget => h.sending w j r (hbrings.workers w j r hget), ?_⟩
  · intro j' hj'
    rw [hbrings.jobs] at hj'
    rcases mem_append.mp hj' with hold | hnew
    · exact h.sound j' hold
    · obtain ⟨hdepth, l, hl, hadm, hu⟩ := hbrings.sound j' hnew
      rw [hdepth, key, hu]
      exact ⟨hreach.snoc (link_of_result hl hadm.2), hadm.1⟩
  · intro k hseed
    obtain ⟨j', hj', hkey, hdepth⟩ := h.seeds k hseed
    refine ⟨j', ?_, hkey, hdepth⟩
    rw [hbrings.jobs]
    exact mem_append_left _ hj'
  intro p hp hdepth k hlink
  rw [hbrings.received] at hp
  rcases mem_append.mp hp with hp | hp
  · exact (hbrings.seen k).mpr (Or.inr (h.closed p hp hdepth k hlink))
  rw [mem_singleton.mp hp] at hdepth hlink
  have hident := result_ident (c := c) j (site (c.key j))
  rw [show (c.result j (site (c.key j))).page.depth = j.depth from congrArg Prod.snd hident]
    at hdepth
  rw [show (c.result j (site (c.key j))).page.url = c.key j from congrArg Prod.fst hident]
    at hlink
  obtain ⟨l, hl, hallowed, rfl⟩ := result_of_link hlink
  exact hbrings.complete l hl ⟨hdepth, hallowed⟩

theorem Tracks.exact_brings (h : c.Tracks site seeds s) (hexact : c.Exact site seeds s)
    (hw : s.workers[w]? = some (.sending j (c.result j (site (c.key j)))))
    (hbrings : c.Brings s j (c.result j (site (c.key j))) new s')
    (horder : c.InOrder site s (.receive w onPage)) : c.Exact site seeds s' := by
  intro j' hj'
  rw [hbrings.jobs] at hj'
  rcases mem_append.mp hj' with hold | hnew
  · exact hexact j' hold
  obtain ⟨hdepth, l, hl, hadm, hu⟩ := hbrings.sound j' hnew
  have hfresh := hbrings.fresh j' hnew
  have hreach := h.sound_outstanding (mem_append_right _ (mem_outstanding hw rfl))
  rw [key, hu] at hfresh
  rw [hdepth, key, hu]
  refine ⟨hreach.snoc (link_of_result hl hadm.2), ?_⟩
  rintro m ⟨root, hroot, hroute⟩
  by_contra hlt
  have hm : (m : Int) ≤ c.opts.maxDepth := by
    have := hadm.1
    omega
  rcases h.reaches hexact hroot hroute hm with ⟨j0, hj0, hkey, -⟩ | ⟨o, ho, m', hm', hle⟩
  · exact hfresh (h.seen_iff.mpr ⟨j0, hj0, hkey⟩)
  · have := horder j _ hw l hl hadm hfresh o ho m' hm'
    omega

theorem Tracks.act (h : c.Tracks site seeds s) {op : Op U} (hdet : c.Deterministic site s op)
    (hact : c.act s op = some s') :
    c.Tracks site seeds s' ∧ ((∃ w onPage, op = .receive w onPage ∧
      ∃ j new, s.workers[w]? = some (.sending j (c.result j (site (c.key j)))) ∧
        c.Brings s j (c.result j (site (c.key j))) new s') ∨
      (∀ w onPage, op ≠ .receive w onPage) ∧ Quiet s s') := by
  have hs' := h.consistent.act hact
  by_cases hop : ∃ w onPage, op = .receive w onPage
  · obtain ⟨w, onPage, rfl⟩ := hop
    obtain ⟨j, outcome, new, hw, hbrings⟩ := h.consistent.act_receive hact
    have hresult := h.sending w j _ hw
    rw [hresult] at hw hbrings
    exact ⟨h.brings hw hbrings hs', Or.inl ⟨w, onPage, rfl, j, new, hw, hbrings⟩⟩
  have hop' : ∀ w onPage, op ≠ .receive w onPage := fun w onPage heq => hop ⟨w, onPage, heq⟩
  obtain ⟨hquiet, hsending⟩ := act_quiet hact hop'
  refine ⟨⟨hs', ?_, ?_, ?_, ?_⟩, Or.inr ⟨hop', hquiet⟩⟩
  · rw [hquiet.jobs]
    exact h.sound
  · rw [hquiet.jobs]
    exact h.seeds
  · intro w j r hget
    rcases hsending w j r hget with hget | ⟨outcome, rfl, hw, rfl⟩
    · exact h.sending w j r hget
    · rw [hdet j hw]
  · rw [hquiet.received, hquiet.seen]
    exact h.closed

/-! ## Runs -/

theorem crawl_tracks (site : String → Outcome U) (hcrawl : c.crawl seeds = .ok s) :
    c.Tracks site seeds s ∧ c.Exact site seeds s := by
  have hconsistent := crawl_consistent hcrawl
  have hne : s.frontier ≠ [] := by
    intro hnil
    rw [crawl] at hcrawl
    split at hcrawl
    next => cases hcrawl
    next hfrontier =>
      rw [← Except.ok.inj hcrawl] at hnil
      exact hfrontier hnil
  obtain ⟨new, hadds⟩ := crawl_eq_ok hcrawl
  have hjobs : jobs s = new := by
    rw [jobs, hadds.state]
    rfl
  have hfrontier : s.frontier = new := by
    rw [hadds.state]
    rfl
  have hroot : ∀ j ∈ new, c.Seed seeds (c.key j) ∧ j.depth = 0 ∧ 0 ≤ c.opts.maxDepth := by
    intro j hj
    obtain ⟨hdepth, u, hu, hadm, heq⟩ := hadds.sound j hj
    refine ⟨⟨u, hu, hadm.2, ?_⟩, hdepth, hadm.1⟩
    rw [key, heq]
  have hexact : c.Exact site seeds s := by
    intro j hj
    rw [hjobs] at hj
    obtain ⟨hseed, hdepth, -⟩ := hroot j hj
    rw [hdepth]
    exact .root hseed
  refine ⟨⟨hconsistent, fun j hj => ⟨(hexact j hj).1, ?_⟩, ?_, ?_, ?_⟩, hexact⟩
  · rw [hjobs] at hj
    obtain ⟨-, hdepth, hmax⟩ := hroot j hj
    rw [hdepth]
    exact hmax
  · rintro k ⟨u, hu, hallowed, rfl⟩
    rw [hfrontier] at hne
    obtain ⟨j0, hj0⟩ := exists_mem_of_ne_nil _ hne
    have hseen := hadds.complete u hu ⟨(hroot j0 hj0).2.2, hallowed⟩
    obtain ⟨j, hj, hkey⟩ := List.mem_map.mp ((hconsistent.seen _).mp hseen)
    replace hj : j ∈ jobs s := hj
    refine ⟨j, hj, hkey, ?_⟩
    rw [hjobs] at hj
    exact (hroot j hj).2.1
  · intro w j r hget
    rw [hadds.state] at hget
    replace hget : (List.replicate c.opts.workers.toNat (Worker.receiving (U := U)))[w]? =
      some (.sending j r) := hget
    rw [getElem?_replicate] at hget
    split at hget <;> cases hget
  · intro p hp
    rw [hadds.state] at hp
    cases hp

section

variable (h : c.Tracks site seeds s)

include h

theorem Tracks.run {ops : List (Op U)} {outs : List Unit}
    (hrun : runSteps c.step s ops = .ok (outs, s'))
    (hdet : Guarded (c.Deterministic site) c.step s ops) :
    c.Tracks site seeds s' ∧ (∀ j ∈ jobs s, j ∈ jobs s') ∧
      (Guarded (c.InOrder site) c.step s ops → c.Exact site seeds s → c.Exact site seeds s') := by
  induction ops generalizing s outs with
  | nil =>
    cases hrun
    exact ⟨h, fun j hj => hj, fun _ hexact => hexact⟩
  | cons _ _ ih =>
    obtain ⟨u, s1, _, hstep, hrest, -⟩ := runSteps_cons_inv hrun
    obtain ⟨h1, hcases⟩ := h.act hdet.1 (step_eq_ok hstep)
    obtain ⟨h', hjobs, hexact'⟩ := ih h1 hrest (hdet.2 u s1 hstep)
    rcases hcases with ⟨w, onPage, rfl, j, new, hw, hbrings⟩ | ⟨-, hquiet⟩
    · refine ⟨h', fun j' hj' => hjobs j' ?_, fun horder hexact => ?_⟩
      · rw [hbrings.jobs]
        exact mem_append_left _ hj'
      · exact hexact' (horder.2 u s1 hstep) (h.exact_brings hexact hw hbrings horder.1)
    refine ⟨h', fun j' hj' => hjobs j' ?_, fun horder hexact => ?_⟩
    · rw [hquiet.jobs]
      exact hj'
    · refine hexact' (horder.2 u s1 hstep) ?_
      intro j hj
      rw [hquiet.jobs] at hj
      exact hexact j hj

theorem Tracks.inOrder {ops : List (Op U)} {outs : List Unit}
    (hrun : runSteps c.step s ops = .ok (outs, s'))
    (hdet : Guarded (c.Deterministic site) c.step s ops) (hexact : c.Exact site seeds s') :
    Guarded (c.InOrder site) c.step s ops := by
  induction ops generalizing s outs with
  | nil => exact trivial
  | cons op _ ih =>
    obtain ⟨u, s1, _, hstep, hrest, -⟩ := runSteps_cons_inv hrun
    have hdet1 := hdet.2 u s1 hstep
    obtain ⟨h1, hcases⟩ := h.act hdet.1 (step_eq_ok hstep)
    obtain ⟨-, hjobs, -⟩ := h1.run hrest hdet1
    constructor
    · rcases hcases with ⟨w, onPage, rfl, j, new, hw, hbrings⟩ | ⟨hop, -⟩
      · intro j' r' hw' l hl hadm hfresh o ho m hm
        rw [hw] at hw'
        cases hw'
        rcases (hbrings.seen _).mp (hbrings.complete l hl hadm) with hnew | hold
        · obtain ⟨j', hj', hkey⟩ := List.mem_map.mp hnew
          have hj1 : j' ∈ jobs s1 := by
            rw [hbrings.jobs]
            exact mem_append_right _ hj'
          have hdistance := hexact j' (hjobs j' hj1)
          rw [hkey, (hbrings.sound j' hj').1] at hdistance
          exact hdistance.2 _ ((h.sound_outstanding ho).trans hm)
        · exact absurd hold hfresh
      · cases op with
        | receive w onPage => exact absurd rfl (hop w onPage)
        | _ => exact trivial
    · intro o s2 hstep'
      rw [hstep] at hstep'
      cases hstep'
      exact ih h1 hrest hdet1

theorem Tracks.done (hpages : c.opts.maxPages = 0)
    (hnil : s.returned = some none) : s.frontier = [] ∧ outstanding s = [] := by
  obtain ⟨hsend, hout⟩ := h.consistent.nil hnil
  refine ⟨?_, hout⟩
  by_contra hne
  have hsend' : c.canSend s = true := by
    rw [canSend, hpages, Bool.and_eq_true, Bool.or_eq_true, decide_eq_true_eq, decide_eq_true_eq]
    exact ⟨hne, Or.inl rfl⟩
  rw [hsend] at hsend'
  cases hsend'

theorem Tracks.breadthFirst_iff (hpages : c.opts.maxPages = 0)
    (hnil : s.returned = some none) : c.BreadthFirst site seeds s ↔ c.Exact site seeds s := by
  obtain ⟨hfrontier, hout⟩ := h.done hpages hnil
  have hjobs : jobs s = s.taken := by rw [jobs, hfrontier, append_nil]
  have hresults := h.consistent.results
  rw [hout, map_nil, append_nil] at hresults
  constructor
  · rintro ⟨-, hpagesOk⟩ j hj
    rw [hjobs] at hj
    obtain ⟨p, hp, heq⟩ := List.mem_map.mp (hresults.mem_iff.mp (List.mem_map_of_mem hj))
    have hdistance := hpagesOk p hp
    rw [show p.url = c.key j from congrArg Prod.fst heq,
      show p.depth = j.depth from congrArg Prod.snd heq] at hdistance
    exact hdistance
  intro hexact
  refine ⟨fun k => ?_, fun p hp => ?_⟩
  · constructor
    · intro hk
      obtain ⟨j, hj, rfl⟩ := List.mem_map.mp hk
      rw [← hjobs] at hj
      exact ⟨j.depth, (h.sound j hj).2, hexact j hj⟩
    · rintro ⟨d, hd, ⟨root, hroot, hroute⟩, -⟩
      rcases h.reaches hexact hroot hroute hd with ⟨j, hj, rfl, -⟩ | ⟨o, ho, -⟩
      · rw [hjobs] at hj
        exact List.mem_map_of_mem hj
      · rw [hfrontier, hout] at ho
        cases ho
  · obtain ⟨j, hj, heq⟩ := List.mem_map.mp
      (hresults.mem_iff.mpr (List.mem_map_of_mem (f := fun p : Page => (p.url, p.depth)) hp))
    rw [← hjobs] at hj
    have hdistance := hexact j hj
    rw [show c.key j = p.url from congrArg Prod.fst heq,
      show j.depth = p.depth from congrArg Prod.snd heq] at hdistance
    exact hdistance

end

/-- A crawl that runs to its end is breadth first exactly when its results came in order. -/
theorem run_breadthFirst (urls : Urls U) (opts : Options U) (hpages : opts.maxPages = 0)
    (site : String → Outcome U)
    (hcrawl : (newCrawler urls opts).crawl seeds = .ok s) {ops : List (Op U)} {outs : List Unit}
    (hrun : runSteps (newCrawler urls opts).step s ops = .ok (outs, s'))
    (hdet : Guarded ((newCrawler urls opts).Deterministic site) (newCrawler urls opts).step s ops)
    (hnil : s'.returned = some none) : (newCrawler urls opts).BreadthFirst site seeds s' ↔
      Guarded ((newCrawler urls opts).InOrder site) (newCrawler urls opts).step s ops := by
  obtain ⟨h, hexact⟩ := crawl_tracks site hcrawl
  obtain ⟨h', -, hrunExact⟩ := h.run hrun hdet
  rw [h'.breadthFirst_iff hpages hnil]
  constructor
  · exact fun hexact' => h.inOrder hrun hdet hexact'
  · exact fun horder => hrunExact horder hexact

/-- A page with a link that leads nowhere. -/
def deadLink : String → Outcome String := fun k =>
  if k = "a" then .fetched 200 ["b"] else .failed 404 "HTTP 404"

def deadLinkRun : List (Op String) :=
  [.send 0, .finish 0 (.fetched 200 ["b"]), .receive 0 none, .send 1,
    .finish 1 (.failed 404 "HTTP 404"), .receive 1 none, .returnNil]

theorem run_breadthFirst_deadLink :
    ∃ s s' outs, (newCrawler plainUrls ⟨2, 3, 0, []⟩).crawl ["a"] = .ok s ∧
      runSteps (newCrawler plainUrls ⟨2, 3, 0, []⟩).step s deadLinkRun = .ok (outs, s') ∧
      ((newCrawler plainUrls ⟨2, 3, 0, []⟩).BreadthFirst deadLink ["a"] s' ↔
        Guarded ((newCrawler plainUrls ⟨2, 3, 0, []⟩).InOrder deadLink)
          (newCrawler plainUrls ⟨2, 3, 0, []⟩).step s deadLinkRun) := by
  obtain ⟨s, hcrawl, hobserve⟩ := exists_ok_of_observe
    (x := (newCrawler plainUrls ⟨2, 3, 0, []⟩).crawl ["a"])
    (f := fun s => ((runSteps (newCrawler plainUrls ⟨2, 3, 0, []⟩).step s deadLinkRun).toOption.map
        (fun r : List Unit × Crawl String => r.2.returned),
      decide (Guarded ((newCrawler plainUrls ⟨2, 3, 0, []⟩).Deterministic deadLink)
        (newCrawler plainUrls ⟨2, 3, 0, []⟩).step s deadLinkRun)))
    (b := (some (some none), true))
    (by decide +kernel)
  obtain ⟨⟨outs, s'⟩, hrun, hnil⟩ := exists_ok_of_observe (Prod.mk.inj hobserve).1
  exact ⟨s, s', outs, hcrawl, hrun, run_breadthFirst plainUrls ⟨2, 3, 0, []⟩ rfl deadLink hcrawl
    hrun (of_decide_eq_true (Prod.mk.inj hobserve).2) hnil⟩

/-- `t` is one link from the seed `p`, and two from the seed `q`. -/
def twoRoutes : String → Outcome String := fun k =>
  if k = "p" then .fetched 200 ["t"] else if k = "q" then .fetched 200 ["r"]
  else if k = "r" then .fetched 200 ["t"] else .fetched 200 []

/-- The results of `q` and of `r` overtake the one of `p`. -/
def overtaken : List (Op String) :=
  [.send 0, .send 1, .finish 1 (.fetched 200 ["r"]), .receive 1 none, .send 1,
    .finish 1 (.fetched 200 ["t"]), .receive 1 none, .finish 0 (.fetched 200 ["t"]),
    .receive 0 none, .send 0, .finish 0 (.fetched 200 []), .receive 0 none, .returnNil]

/-- `t` is dispatched at depth 2. -/
theorem run_overtaken :
    ∃ s s' outs, (newCrawler plainUrls ⟨2, 5, 0, []⟩).crawl ["p", "q"] = .ok s ∧
      runSteps (newCrawler plainUrls ⟨2, 5, 0, []⟩).step s overtaken = .ok (outs, s') ∧
      s'.returned = some none ∧
      Guarded ((newCrawler plainUrls ⟨2, 5, 0, []⟩).Deterministic twoRoutes)
        (newCrawler plainUrls ⟨2, 5, 0, []⟩).step s overtaken ∧
      ¬ (newCrawler plainUrls ⟨2, 5, 0, []⟩).BreadthFirst twoRoutes ["p", "q"] s' := by
  obtain ⟨s, hcrawl, hobserve⟩ := exists_ok_of_observe
    (x := (newCrawler plainUrls ⟨2, 5, 0, []⟩).crawl ["p", "q"])
    (f := fun s => ((runSteps (newCrawler plainUrls ⟨2, 5, 0, []⟩).step s overtaken).toOption.map
        (fun r : List Unit × Crawl String =>
          (r.2.returned, decide (∃ p ∈ r.2.received, p.depth = 2 ∧ p.url = "t"))),
      decide (Guarded ((newCrawler plainUrls ⟨2, 5, 0, []⟩).Deterministic twoRoutes)
        (newCrawler plainUrls ⟨2, 5, 0, []⟩).step s overtaken)))
    (b := (some (some none, true), true))
    (by decide +kernel)
  obtain ⟨⟨outs, s'⟩, hrun, hs'⟩ := exists_ok_of_observe (Prod.mk.inj hobserve).1
  refine ⟨s, s', outs, hcrawl, hrun, (Prod.mk.inj hs').1,
    of_decide_eq_true (Prod.mk.inj hobserve).2, ?_⟩
  obtain ⟨p, hp, hdepth, hurl⟩ := of_decide_eq_true (Prod.mk.inj hs').2
  rintro ⟨-, hpages⟩
  have hdistance := hpages p hp
  rw [hdepth, hurl] at hdistance
  have hseed : (newCrawler plainUrls ⟨2, 5, 0, []⟩).Seed ["p", "q"] "p" :=
    ⟨"p", by decide, by decide, rfl⟩
  have hlink : (newCrawler plainUrls ⟨2, 5, 0, []⟩).Link twoRoutes "p" "t" :=
    ⟨200, ["t"], rfl, "t", mem_singleton_self _, by decide, rfl⟩
  have hle := hdistance.2 1 ((Reaches.root hseed).snoc hlink)
  omega

end Crawler

end InterviewPrep.WebCrawler
