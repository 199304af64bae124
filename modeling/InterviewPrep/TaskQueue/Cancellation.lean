/-
  Every run of the queue completes, and leaves every task where its status says
  (`run_terminalOnce`).  When `Shutdown` has returned every task is terminal, unless a call
  returned because the workers had exited while another one, which had made them exit, was yet to
  cancel what they left behind (`shutdown_leaves`).

  What a call of `Cancel` that returns `nil` means.  A task that no worker runs is cancelled at
  once; a running one is cancelled when its handler returns an error, and succeeds when it returns
  a value; it is not tried again.  With a task that is cancelled everything that depends on it is.
-/
import InterviewPrep.TaskQueue.Calls

namespace InterviewPrep.TaskQueue

open Lib List Option Tasks

namespace Queue

/-- Every task is in the place that its status says, and the counts agree. -/
structure Conserved (q : Queue) : Prop where
  /-- in order, with every task at its `heapIdx`; what is ready or scheduled, and no more -/
  heaps : q.Heaps
  running : ∀ id, Tasks.status q.tasks id = some .running ↔
    ∃ w : Nat, q.workers[w]? = some (.running id)
  oneWorker : ∀ (w w' : Nat) (id : String), q.workers[w]? = some (.running id) →
    q.workers[w']? = some (.running id) → w = w'
  blocked : ∀ id t, q.tasks.get? id = some t → t.status = .blocked →
    t.waitingOn = Tasks.unfinished q.tasks t.spec.dependsOn ∧ 0 < t.waitingOn
  outstanding : q.outstanding = (Tasks.live q.tasks : Int)
  done : ∀ id t, q.tasks.get? id = some t → t.done = t.status.terminal
  attempts : ∀ id t, q.tasks.get? id = some t → t.attempts ≤ t.spec.maxAttempts

/-- What `Shutdown` promises when it returns. -/
def Finished (q : Queue) : Prop :=
  Shutdown.returned ∈ q.shutdowns → ∀ id t, q.tasks.get? id = some t → t.status.terminal

/-- No call of `Shutdown` returns with the workers gone while another one is yet to cancel what is
    left. -/
def awaitsStop (q : Queue) : Op → Prop
  | .shutdownDrained call => q.shutdowns[call]? = some .draining → q.drained →
      Shutdown.stopping ∈ q.shutdowns → q.outstanding = 0
  | _ => True

variable {q q' : Queue} {op : Op} {ops : List Op}

theorem Consistent.conserved (h : q.Consistent) : Conserved q := by
  constructor
  · exact h.inv.heaps
  · intro id
    constructor
    · intro hst
      obtain ⟨t, ht, hst⟩ := map_eq_some_iff.mp hst
      exact ((h.inv.ok id t ht).running hst).resolve_right fun hx => hx
    · intro hrun
      obtain ⟨t, _, ht, hst, _⟩ := h.runs hrun
      rw [status_of_get? ht, hst]
  · exact h.oneWorker
  · intro id t ht hst
    have hok := h.inv.ok id t ht
    refine ⟨?_, (hok.blocked hst).resolve_right fun hx => hx⟩
    rw [hok.waiting (by rw [hst]; rfl), deps_of_get? ht]
    exact Int.add_zero _
  · exact h.inv.outstanding
  · exact fun id t ht => (h.inv.ok id t ht).done
  · exact fun id t ht => (h.inv.ok id t ht).attempts.2

/-! ## Shutdown -/

theorem Consistent.outstanding_zero (h : q.Consistent) : q.outstanding = 0 ↔
    ∀ id t, q.tasks.get? id = some t → t.status.terminal := by
  rw [h.inv.outstanding, Int.natCast_eq_zero, live_eq_zero]

theorem Consistent.drained (h : q.Consistent) (hstarted : q.started) (hdrained : q.drained) :
    Shutdown.stopping ∈ q.shutdowns ∨ q.outstanding = 0 := by
  have hlength : 0 < q.workers.length := by
    rw [h.pool, if_pos hstarted]
    exact h.positive
  obtain ⟨worker, hworker⟩ := exists_mem_of_length_pos hlength
  have hexited : worker = .exited := by simpa using List.all_eq_true.mp hdrained worker hworker
  rw [hexited] at hworker
  rcases h.exited hworker with hbase | hclosed
  · exact (h.stopped hbase).2
  · exact Or.inr hclosed.2

theorem Consistent.settled_step (h : q.Consistent) (hstep : Stepped q op q')
    (hawaits : awaitsStop q op) (hsettled : Shutdown.returned ∈ q.shutdowns → q.outstanding = 0) :
    Shutdown.returned ∈ q'.shutdowns → q'.outstanding = 0 := by
  intro hmem
  have hzero : q.closing → q.outstanding = 0 → q'.outstanding = 0 := fun hclosing =>
    outstanding_later h.inv hstep.consistent.inv (hstep.later hclosing)
  rcases hstep.returned hmem with hbefore | hdone | ⟨call, rfl, hcall, hdrained⟩
  · exact hzero (h.closing _ hbefore).1 (hsettled hbefore)
  · exact hdone
  · have hclosing := h.closing .draining (mem_of_getElem? hcall)
    apply hzero hclosing.1
    rcases h.drained (hclosing.2 (by decide)) hdrained with hstopping | hnone
    · exact hawaits hcall hdrained hstopping
    · exact hnone

/-! ## Runs -/

theorem Consistent.run (h : q.Consistent) (ops : List Op) :
    ∃ answers q', runSteps Queue.step q ops = .ok (answers, q') ∧ q'.Consistent ∧
      q.toTaskTable.Keeps q'.toTaskTable := by
  induction ops generalizing q with
  | nil => exact ⟨[], q, rfl, h, (TaskTable.Later.refl _).kept⟩
  | cons op _ ih =>
    obtain ⟨a, q1, hok, hstep⟩ := h.step op
    obtain ⟨answers, q2, hrun, h2, hkeeps⟩ := ih hstep.consistent
    exact ⟨a :: answers, q2, runSteps_cons_ok hok hrun, h2, hstep.keeps.trans hkeeps⟩

theorem Consistent.stepped (h : q.Consistent) {a : Answer} (hok : q.step op = .ok (a, q')) :
    Stepped q op q' := by
  obtain ⟨a', q1, hok', hstep⟩ := h.step op
  rw [hok] at hok'
  cases hok'
  exact hstep

variable {answers : List Answer}

theorem Consistent.of_run (h : q.Consistent)
    (hrun : runSteps Queue.step q ops = .ok (answers, q')) :
    q'.Consistent ∧ q.toTaskTable.Keeps q'.toTaskTable := by
  obtain ⟨answers', q1, hrun', hcons, hkeeps⟩ := h.run ops
  rw [hrun] at hrun'
  cases hrun'
  exact ⟨hcons, hkeeps⟩

/-- Once a shutdown has returned, nothing is outstanding in any state that the run reaches. -/
theorem Consistent.settled_run (h : q.Consistent)
    (hsettled : Shutdown.returned ∈ q.shutdowns → q.outstanding = 0)
    (hguard : Guarded awaitsStop Queue.step q ops)
    (hrun : runSteps Queue.step q ops = .ok (answers, q')) :
    Shutdown.returned ∈ q'.shutdowns → q'.outstanding = 0 := by
  induction ops generalizing q answers with
  | nil =>
    cases hrun
    exact hsettled
  | cons _ _ ih =>
    obtain ⟨a, q1, answers', hok, hrun', rfl⟩ := runSteps_cons_inv hrun
    have hstep := h.stepped hok
    exact ih hstep.consistent (h.settled_step hstep hguard.1 hsettled) (hguard.2 a q1 hok) hrun'

theorem Consistent.awaits_of_finished (h : q.Consistent)
    (hfinished : ∀ pre post answers q', ops = pre ++ post →
      runSteps Queue.step q pre = .ok (answers, q') → Finished q') :
    Guarded awaitsStop Queue.step q ops := by
  induction ops generalizing q with
  | nil => trivial
  | cons op ops ih =>
    constructor
    · cases op with
      | shutdownDrained call =>
        intro hcall hdrained _
        have hlt : call < q.shutdowns.length := (List.getElem?_eq_some_iff.mp hcall).1
        have hstep : q.step (.shutdownDrained call) =
            .ok (.done, { q with shutdowns := q.shutdowns.set call .returned }) :=
          if_pos ⟨hcall, hdrained⟩
        exact h.outstanding_zero.mpr (hfinished [.shutdownDrained call] ops [.done]
          { q with shutdowns := q.shutdowns.set call .returned } rfl
          (runSteps_cons_ok hstep rfl) (mem_set hlt _))
      | _ => trivial
    · intro a q1 hok
      apply ih (h.stepped hok).consistent
      intro pre post answers q2 hops hrun
      exact hfinished (op :: pre) post (a :: answers) q2 (by rw [hops]; rfl)
        (runSteps_cons_ok hok hrun)

/-- Whatever is called, whatever the handlers return and in whichever order, the queue does not
    panic, every task is in its place, and what is terminal stays as it is. After `Shutdown` has
    returned every task is terminal, exactly if no call returns with the workers gone while another
    one is yet to cancel what is left. -/
theorem run_terminalOnce (workers : Int) (handlers : List String) (ops : List Op) :
    ∃ answers q, runSteps Queue.step (new workers handlers) ops = .ok (answers, q) ∧ Conserved q ∧
      (∀ ops', ∃ answers' q', runSteps Queue.step q ops' = .ok (answers', q') ∧
        q.toTaskTable.Keeps q'.toTaskTable) ∧ ((∀ pre post answers' q', ops = pre ++ post →
          runSteps Queue.step (new workers handlers) pre = .ok (answers', q') → Finished q') ↔
        Guarded awaitsStop Queue.step (new workers handlers) ops) := by
  have hnew := new_consistent workers handlers
  obtain ⟨answers, q, hrun, hcons, -⟩ := hnew.run ops
  refine ⟨answers, q, hrun, hcons.conserved, ?_, hnew.awaits_of_finished, ?_⟩
  · intro ops'
    obtain ⟨answers', q', hrun', -, hkeeps⟩ := hcons.run ops'
    exact ⟨answers', q', hrun', hkeeps⟩
  · intro hguard pre post answers' q' hops hrun' hreturned
    rw [hops] at hguard
    obtain ⟨hcons', -⟩ := hnew.of_run hrun'
    exact hcons'.outstanding_zero.mp
      (hnew.settled_run (nofun) hguard.append_inv.1 hrun' hreturned)

/-- Two calls of `Shutdown`: the workers exit, and the first returns with a task that is ready. -/
theorem shutdown_leaves : ∃ answers q, runSteps Queue.step (new 1 ["job"])
        [.submit ⟨"a", "job", "", 0, 3, 0, 0, []⟩ fun _ => 1, .shutdown,
          .shutdownStart 0, .shutdown,
          .shutdownExpired 1, .acquire 0 1, .shutdownDrained 0] = .ok (answers, q) ∧
      ¬ Finished q := by
  have hrun := exists_ok_of_observe (x := runSteps Queue.step (new 1 ["job"])
      [.submit ⟨"a", "job", "", 0, 3, 0, 0, []⟩ fun _ => 1, .shutdown, .shutdownStart 0, .shutdown,
        .shutdownExpired 1, .acquire 0 1, .shutdownDrained 0])
    (f := fun r => (r.2.shutdowns, (r.2.tasks.get? "a").map Task.status))
    (b := ([.returned, .stopping], some .ready)) (by decide +kernel)
  obtain ⟨⟨answers, q⟩, hrun, hobserve⟩ := hrun
  obtain ⟨hshutdowns, hstatus⟩ := Prod.mk.injEq .. ▸ hobserve
  refine ⟨answers, q, hrun, fun hfinished => ?_⟩
  obtain ⟨t, ht, hst⟩ := map_eq_some_iff.mp hstatus
  have hterminal := hfinished (by rw [hshutdowns]; decide) "a" t ht
  rw [hst] at hterminal
  cases hterminal

/-- A task that was ever run ran after all that it depends on had succeeded. -/
theorem run_inOrder (workers : Int) (handlers : List String) (ops : List Op) :
    ∃ answers q, runSteps step (new workers handlers) ops = .ok (answers, q) ∧
      ∀ id t, q.tasks.get? id = some t →
        (t.status = .running ∨ t.status = .succeeded ∨ t.status = .failed → 0 < t.attempts) ∧
        (0 < t.attempts → ∀ d ∈ t.spec.dependsOn, Tasks.status q.tasks d = some .succeeded) := by
  obtain ⟨_, q, hrun, h, -⟩ := (new_consistent workers handlers).run ops
  refine ⟨_, q, hrun, fun id t ht => ?_⟩
  exact ⟨(h.inv.ok id t ht).attempted, (h.inv.ok id t ht).ran⟩

variable {q q' : Queue} {op : Op} {id x y : String}

/-! ## Dependents -/

/-- The task `x` names `y` among its dependencies. -/
def DependsOn (q : Queue) (x y : String) : Prop :=
  ∃ t, q.tasks.get? x = some t ∧ y ∈ t.spec.dependsOn

/-- The task has never been attempted, and will not be while it is so. -/
structure Unrun (q : Queue) (x : String) : Prop where
  attempts : ∀ t, q.tasks.get? x = some t → t.attempts = 0
  status : Tasks.status q.tasks x = some .blocked ∨ Tasks.status q.tasks x = some .cancelled

theorem Consistent.unrun (h : q.Consistent) (hdep : q.DependsOn x y)
    (hy : Tasks.status q.tasks y ≠ some .succeeded) : q.Unrun x := by
  obtain ⟨t, ht, hmem⟩ := hdep
  have hok := h.inv.ok x t ht
  have hzero : t.attempts = 0 := by
    by_contra hne
    have hpos : 0 < t.attempts := by
      have := hok.attempts
      omega
    exact hy (hok.ran hpos y hmem)
  constructor
  · intro t' ht'
    rw [ht] at ht'
    rwa [← some.inj ht']
  rw [status_of_get? ht]
  have hattempted : ¬ (t.status = .running ∨ t.status = .succeeded ∨ t.status = .failed) := by
    intro hst
    have := hok.attempted hst
    omega
  have hwaits : t.status.terminal = false → t.status = .blocked := by
    intro hopen
    by_contra hne
    have hunblocked := hok.unblocked hopen hne
    have hwaiting := hok.waiting hopen
    have hpos : 0 < Tasks.unfinished q.tasks (q.deps x) := by
      rw [← deps_of_get? ht]
      exact countP_pos_iff.mpr ⟨y, hmem, by simpa using hy⟩
    have hcount : (0 : Int) = (Tasks.unfinished q.tasks (q.deps x) : Int) + (0 : Nat) := by
      rw [← hunblocked]
      exact hwaiting
    omega
  cases hst : t.status with
  | cancelled => exact Or.inr rfl
  | blocked => exact Or.inl rfl
  | running => exact absurd (Or.inl hst) hattempted
  | succeeded => exact absurd (Or.inr (Or.inl hst)) hattempted
  | failed => exact absurd (Or.inr (Or.inr hst)) hattempted
  | ready | scheduled =>
    have := hwaits (by rw [hst]; rfl)
    rw [hst] at this
    cases this

theorem Consistent.dependent_cancelled (h : q.Consistent) (hdep : q.DependsOn x y)
    (hy : Tasks.status q.tasks y = some .cancelled) : Tasks.status q.tasks x = some .cancelled := by
  have hne : Tasks.status q.tasks y ≠ some .succeeded := by
    rw [hy]
    decide
  apply (h.unrun hdep hne).status.resolve_left
  intro hblocked
  obtain ⟨t, ht, hmem⟩ := hdep
  rw [status_of_get? ht] at hblocked
  have hopen : t.status.terminal = false := by
    rw [some.inj hblocked]
    rfl
  rw [deps_of_get? ht] at hmem
  obtain ⟨ty, hty, hbad⟩ := (h.inv.ok x t ht).deps hopen y hmem
  rw [status_of_get? hty] at hy
  rcases hbad (by rw [some.inj hy]; rfl) with hsucceeded | hdoomed
  · rw [some.inj hy] at hsucceeded
    cases hsucceeded
  · exact hdoomed

theorem Consistent.unrun_trans (h : q.Consistent) (hdep : Relation.TransGen q.DependsOn x id)
    (hid : Tasks.status q.tasks id ≠ some .succeeded) : q.Unrun x := by
  induction hdep using Relation.TransGen.head_induction_on with
  | single hdep => exact h.unrun hdep hid
  | head hdep _ ih =>
    apply h.unrun hdep
    intro hsucceeded
    rcases ih.status with hst | hst
    · rw [hst] at hsucceeded
      cases hsucceeded
    · rw [hst] at hsucceeded
      cases hsucceeded

theorem Consistent.cancelled_trans (h : q.Consistent) (hdep : Relation.TransGen q.DependsOn x id)
    (hid : Tasks.status q.tasks id = some .cancelled) :
    Tasks.status q.tasks x = some .cancelled := by
  induction hdep using Relation.TransGen.head_induction_on with
  | single hdep => exact h.dependent_cancelled hdep hid
  | head hdep _ ih => exact h.dependent_cancelled hdep ih

/-! ## The cancelled task -/

/-- The attempt that is in flight returns a value. -/
def Returns (q : Queue) (id : String) (ops : List Op) : Prop :=
  ∃ pre post worker v retryAt clock answers q',
    ops = pre ++ .finish worker (.value v) retryAt clock :: post ∧
    runSteps Queue.step q pre = .ok (answers, q') ∧ q.workers[worker]? = some (.running id) ∧
    q'.workers[worker]? = some (.running id)

/-- The task is cancelled, or its handler has been told to stop. -/
structure Stopping (q : Queue) (id : String) (t : Task) : Prop where
  get : q.tasks.get? id = some t
  status : t.status = .cancelled ∨ t.status = .running ∧ t.cancelRequested

theorem Consistent.stopping_step (h : q.Consistent) {a : Answer} (hok : q.step op = .ok (a, q'))
    {t : Task} (ht : q.Stopping id t) :
    (∃ t', q'.Stopping id t' ∧ ∀ w : Nat, q'.workers[w]? = some (.running id) →
      q.workers[w]? = some (.running id)) ∨
    ∃ worker v retryAt clock, op = .finish worker (.value v) retryAt clock ∧
      q.workers[worker]? = some (.running id) ∧ Tasks.status q'.tasks id = some .succeeded := by
  have hstep := h.stepped hok
  obtain ⟨t', ht', hlater⟩ := hstep.keeps id t ht.get
  rcases ht.status with hcancelled | ⟨hrunning, hflag⟩
  · -- what is cancelled stays so, and runs no more
    have hst' : t'.status = .cancelled := by
      rw [hlater.status (by rw [hcancelled]; rfl), hcancelled]
    refine Or.inl ⟨t', ⟨ht', Or.inl hst'⟩, fun w hw => ?_⟩
    have hrun := ((hstep.consistent.inv.ok id t' ht').held ⟨w, hw⟩).1
    rw [hst'] at hrun
    cases hrun
  obtain ⟨w, hw⟩ := ((h.inv.ok id t ht.get).running hrunning).resolve_right fun hx => hx
  rcases hstep.busy w id hw with hbusy | ⟨outcome, retryAt, clock, rfl⟩
  · have hst' := ((hstep.consistent.inv.ok id t' ht').held ⟨w, hbusy⟩).1
    refine Or.inl ⟨t', ⟨ht', Or.inr ⟨hst', hlater.flagged hflag⟩⟩, fun w' hw' => ?_⟩
    rw [hstep.consistent.oneWorker w' w id hw' hbusy]
    exact hw
  obtain ⟨tt, retries, hfinish, hcons, -, hresult⟩ := h.finish hw ht.get clock outcome retryAt
  rw [Queue.step, hw] at hok
  dsimp only at hok
  rw [hfinish] at hok
  cases hok
  cases outcome with
  | value v =>
    obtain ⟨t1, ht1, hresult1⟩ := hresult _ rfl
    refine Or.inr ⟨w, v, retryAt, clock, rfl, hw, ?_⟩
    rw [status_of_get? ht1, show t1.status = .succeeded from
      congrArg TaskResult.status hresult1]
  | error =>
    obtain ⟨t1, ht1, hresult1⟩ := hresult _ (if_pos (Or.inl hflag))
    have hst1 : t1.status = .cancelled := congrArg TaskResult.status hresult1
    refine Or.inl ⟨t1, ⟨ht1, Or.inl hst1⟩, fun w' hw' => ?_⟩
    have hrun := ((hcons.inv.ok id t1 ht1).held ⟨w', hw'⟩).1
    rw [hst1] at hrun
    cases hrun

theorem succeeded_of_keeps {tt tt' : TaskTable} (h : tt.Keeps tt')
    (hst : Tasks.status tt.tasks id = some .succeeded) :
    Tasks.status tt'.tasks id = some .succeeded := by
  obtain ⟨t, ht, hst⟩ := map_eq_some_iff.mp hst
  obtain ⟨t', ht', hlater⟩ := h id t ht
  rw [status_of_get? ht', hlater.status (by rw [hst]; rfl), hst]

variable {answers : List Answer} {clock : String → Time}

/-- Any steps after the task was told to stop: it has, or is yet to, or its
    attempt has succeeded. -/
theorem Consistent.stopping_run (h : q.Consistent) {t : Task} (ht : q.Stopping id t) {ops : List Op}
    (hrun : runSteps Queue.step q ops = .ok (answers, q')) : (∃ t', q'.Stopping id t') ∨
      Tasks.status q'.tasks id = some .succeeded ∧ q.Returns id ops := by
  induction ops generalizing q t answers with
  | nil =>
    cases hrun
    exact Or.inl ⟨t, ht⟩
  | cons op ops ih =>
    obtain ⟨a, q1, answers', hok, hrun', rfl⟩ := runSteps_cons_inv hrun
    have hstep := h.stepped hok
    rcases h.stopping_step hok ht with ⟨t1, ht1, hbefore⟩ | ⟨w, v, retryAt, clock, rfl, hw, hst⟩
    · refine (ih hstep.consistent ht1 hrun').imp_right fun hreturned => ⟨hreturned.1, ?_⟩
      obtain ⟨pre, post, w, v, retryAt, clock, answers2, q2, rfl, hpre, hw, hw2⟩ := hreturned.2
      exact ⟨op :: pre, post, w, v, retryAt, clock, a :: answers2, q2, rfl,
        runSteps_cons_ok hok hpre, hbefore w hw, hw2⟩
    · obtain ⟨-, hkeeps⟩ := hstep.consistent.of_run hrun'
      exact Or.inr ⟨succeeded_of_keeps hkeeps hst, [], ops, w, v, retryAt, clock, [], q,
        rfl, rfl, hw, hw⟩

theorem Consistent.returns (h : q.Consistent) {ops : List Op}
    (hrun : runSteps Queue.step q ops = .ok (answers, q')) (hreturns : q.Returns id ops) :
    Tasks.status q'.tasks id = some .succeeded := by
  obtain ⟨pre, post, w, v, retryAt, clock, answers1, q1, rfl, hpre, -, hw⟩ := hreturns
  obtain ⟨h1, -⟩ := h.of_run hpre
  obtain ⟨t, _, ht, -⟩ := h1.runs ⟨w, hw⟩
  obtain ⟨tt, retries, hfinish, hcons, -, hresult⟩ := h1.finish hw ht clock (.value v) retryAt
  obtain ⟨t1, ht1, hresult1⟩ := hresult _ rfl
  obtain ⟨answers2, q2, hpost, -, hkeeps⟩ := hcons.run post
  have hstep : q1.step (.finish w (.value v) retryAt clock) = .ok (.done,
      { q1 with toTaskTable := tt, workers := q1.workers.set w .idle, retries := retries }) := by
    rw [Queue.step, hw]
    dsimp only
    rw [hfinish]
    rfl
  have hall := runSteps_append hpre (runSteps_cons_ok hstep hpost)
  rw [hrun] at hall
  cases hall
  apply succeeded_of_keeps hkeeps
  rw [status_of_get? ht1, show t1.status = .succeeded from congrArg TaskResult.status hresult1]

theorem Consistent.cancel_stopping (h : q.Consistent)
    (hcancel : q.step (.cancel id clock) = .ok (.cancel none, q')) : ∃ t, q'.Stopping id t := by
  obtain ⟨a, tt, hok, -, -, hnil⟩ := h.cancel clock id
  rw [show q.step (.cancel id clock) = q.cancel clock id from rfl, hok] at hcancel
  cases hcancel
  obtain ⟨t, ht, hst⟩ := hnil rfl
  exact ⟨t, ht, hst⟩

/-- After a call of `Cancel` that has returned `nil`: the task is cancelled, or its handler is still
    running and has been told to stop, or it has succeeded, exactly if the attempt in flight has
    returned a value. While it has not succeeded nothing that depends on it has run, and with the
    task all of that is cancelled. -/
theorem cancel_cancels (workers : Int) (handlers : List String) {ops ops' : List Op}
    {answers' : List Answer} {q₁ : Queue}
    (hrun : runSteps Queue.step (new workers handlers) ops = .ok (answers, q))
    (hcancel : q.step (.cancel id clock) = .ok (.cancel none, q₁))
    (hrun' : runSteps Queue.step q₁ ops' = .ok (answers', q')) : ∃ t, q'.tasks.get? id = some t ∧
      (t.status = .cancelled ∨ t.status = .running ∧ t.cancelRequested ∨ t.status = .succeeded) ∧
      (t.status = .succeeded ↔ q₁.Returns id ops') ∧
      (t.status ≠ .succeeded → ∀ x, Relation.TransGen q'.DependsOn x id → q'.Unrun x) ∧
      (t.status = .cancelled → ∀ x, Relation.TransGen q'.DependsOn x id →
        Tasks.status q'.tasks x = some .cancelled) := by
  have h := ((new_consistent workers handlers).of_run hrun).1
  have h1 := (h.stepped hcancel).consistent
  have h' := (h1.of_run hrun').1
  obtain ⟨t1, ht1⟩ := h.cancel_stopping hcancel
  have hreturns : q₁.Returns id ops' → Tasks.status q'.tasks id = some .succeeded :=
    h1.returns hrun'
  have hdependents : ∀ t, q'.tasks.get? id = some t →
      (t.status ≠ .succeeded → ∀ x, Relation.TransGen q'.DependsOn x id → q'.Unrun x) ∧
      (t.status = .cancelled → ∀ x, Relation.TransGen q'.DependsOn x id →
        Tasks.status q'.tasks x = some .cancelled) := by
    intro t ht
    have hstatus := status_of_get? ht
    constructor
    · intro hne x hdep
      apply h'.unrun_trans hdep
      rw [hstatus]
      exact fun heq => hne (some.inj heq)
    · intro heq x hdep
      apply h'.cancelled_trans hdep
      rw [hstatus, heq]
  rcases h1.stopping_run ht1 hrun' with ⟨t, ht, hst⟩ | ⟨hst, hreturned⟩
  · refine ⟨t, ht, hst.imp_right Or.inl, ⟨fun hsucceeded => ?_, fun hret => ?_⟩, hdependents t ht⟩
    · rcases hst with hst | hst
      · rw [hst] at hsucceeded
        cases hsucceeded
      · rw [hst.1] at hsucceeded
        cases hsucceeded
    · have hsucceeded := hreturns hret
      rw [status_of_get? ht] at hsucceeded
      exact some.inj hsucceeded
  · obtain ⟨t, ht, hst⟩ := map_eq_some_iff.mp hst
    exact ⟨t, ht, Or.inr (Or.inr hst), ⟨fun _ => hreturned, fun _ => hst⟩, hdependents t ht⟩

/-- The handler of a task told to stop returns an error: it is cancelled, and so is
    what follows it. -/
theorem cancel_cancels_running : ∃ answers q q₁ answers' q', runSteps Queue.step (new 1 ["job"])
        [.submit ⟨"a", "job", "", 0, 3, 0, 0, []⟩ fun _ => 1, .start, .acquire 0 1] =
          .ok (answers, q) ∧ q.step (.cancel "a" fun _ => 2) = .ok (.cancel none, q₁) ∧
      runSteps Queue.step q₁ [.submit ⟨"b", "job", "", 0, 3, 0, 0, ["a"]⟩ fun _ => 3,
          .finish 0 (.error ⟨"stopped", false⟩) 9 fun _ => 4] = .ok (answers', q') ∧
      Tasks.status q'.tasks "a" = some .cancelled ∧ ∃ t, q'.tasks.get? "a" = some t ∧
        (t.status = .cancelled → ∀ x, Relation.TransGen q'.DependsOn x "a" →
          Tasks.status q'.tasks x = some .cancelled) := by
  obtain ⟨⟨answers, q⟩, hrun, hobserve⟩ := exists_ok_of_observe
    (x := runSteps Queue.step (new 1 ["job"])
      [.submit ⟨"a", "job", "", 0, 3, 0, 0, []⟩ fun _ => 1, .start, .acquire 0 1])
    (f := fun r => (r.2.step (.cancel "a" fun _ => 2)).toOption.map fun r => (r.1,
      (runSteps Queue.step r.2 [.submit ⟨"b", "job", "", 0, 3, 0, 0, ["a"]⟩ fun _ => 3,
        .finish 0 (.error ⟨"stopped", false⟩) 9 fun _ => 4]).toOption.map fun r =>
          Tasks.status r.2.tasks "a"))
    (b := some (.cancel none, some (some .cancelled))) (by decide +kernel)
  obtain ⟨⟨answer, q₁⟩, hcancel, hobserve1⟩ := exists_ok_of_observe hobserve
  obtain ⟨rfl, hobserve1⟩ := Prod.mk.inj hobserve1
  obtain ⟨⟨answers', q'⟩, hrun', hstatus⟩ := exists_ok_of_observe hobserve1
  obtain ⟨t, ht, -, -, -, hdependents⟩ := cancel_cancels 1 ["job"] hrun hcancel hrun'
  exact ⟨answers, q, q₁, answers', q', hrun, hcancel, hrun', hstatus, t, ht, hdependents⟩

/-- It returns a value: the task has succeeded. -/
theorem cancel_loses : ∃ answers q, runSteps Queue.step (new 1 ["job"])
        [.submit ⟨"a", "job", "", 0, 3, 0, 0, []⟩ fun _ => 1, .start, .acquire 0 1,
          .cancel "a" fun _ => 2, .finish 0 (.value none) 9 fun _ => 3] = .ok (answers, q) ∧
      answers = [.submitted "a", .done, .acquired "a", .cancel none, .done] ∧
      Tasks.status q.tasks "a" = some .succeeded := by
  refine exists_run_of_observe (f := fun r => (r.1, Tasks.status r.2.tasks "a"))
    (b := ([.submitted "a", .done, .acquired "a", .cancel none, .done], some .succeeded))
    (by decide +kernel) fun answers q hrun hobserve => ?_
  obtain ⟨hanswers, hstatus⟩ := Prod.mk.inj hobserve
  exact ⟨hanswers, hstatus⟩

end Queue

end InterviewPrep.TaskQueue
