/-
  `Submit` and the invariant: a new task is registered with one dependency after the other
  (`register_spec`), and then it waits, or is enqueued, or has been cancelled.

  What the workers do with a task, and the invariant: a task that is due becomes ready, a
  ready one is taken, and when its handler has returned it is finalized or tried again.
-/
import InterviewPrep.TaskQueue.Finalize

namespace InterviewPrep.TaskQueue

open Lib Dict Function List Option Tasks

/-- Nothing is left to do: these tasks are running, and have these dependencies. -/
def Unsettled.rest (running : String → Prop) (deps : String → List String) : Unsettled :=
  { running := running, current := fun _ => False, debt := fun _ => 0, doomed := fun _ => False,
    deps := deps }

/-- A task is being submitted, and has been registered with some of its dependencies. -/
def Unsettled.submitting (running : String → Prop) (deps : String → List String) (id : String)
    (known : List String) : Unsettled :=
  { Unsettled.rest running (Function.update deps id known) with current := fun x => x = id }

variable {running : String → Prop} {deps : String → List String} {tt : TaskTable} {id : String}

theorem Unsettled.submitting_sameAt (deps : String → List String) (known known' : List String)
    {x : String} (hx : x ≠ id) :
    (submitting running deps id known).SameAt (submitting running deps id known') x := by
  constructor
  · exact Iff.rfl
  · exact Iff.rfl
  · rfl
  · exact Iff.rfl
  · show Function.update deps id known' x = Function.update deps id known x
    rw [update_of_ne hx, update_of_ne hx]

/-! ## The new task -/

theorem Tasks.Ok.insert {tasks : Tasks} (h : Ok (.rest running deps) tasks)
    (hnew : tasks.get? id = none) (hidle : ¬ running id) {spec : TaskSpec} (hid : spec.id = id)
    (hattempts : 0 < spec.maxAttempts) (seq : Nat) :
    Ok (.submitting running deps id []) (tasks.set id (Queue.newTask spec seq)) := by
  have hstatus : ∀ d, tasks.status d = some .succeeded →
      Tasks.status (tasks.set id (Queue.newTask spec seq)) d = some .succeeded := by
    intro d hd
    have hne : d ≠ id := by
      rintro rfl
      rw [status, hnew] at hd
      cases hd
    rw [status_set_of_ne hne, hd]
  have hdeps : ∀ x tx, tasks.get? x = some tx → tx.status.terminal = false → id ∉ deps x := by
    intro x tx htx hopen hmem
    obtain ⟨td, htd, -⟩ := (h x tx htx).deps hopen id hmem
    rw [hnew] at htd
    cases htd
  intro x tx htx
  rcases get?_set_some htx with ⟨rfl, rfl⟩ | ⟨hne, hold⟩
  · constructor
    · constructor
      · exact hid
      · intros; contradiction
      · exact fun hrun => absurd hrun hidle
      · intros; contradiction
      · rfl
      · exact fun _ _ => rfl
      · exact fun _ => Or.inr rfl
      · exact ⟨Int.le_refl _, Int.le_of_lt hattempts⟩
      · exact fun _ _ => hattempts
      · exact fun _ => rfl
      · rintro (hst | hst | hst) <;> cases hst
      · intros; contradiction
    have hknown : (Unsettled.submitting running deps x []).deps x = [] := update_self _ _ _
    constructor
    · intro _
      rw [hknown]
      rfl
    · intro _ d hd
      rw [hknown] at hd
      cases hd
    · intro _ d td htd _
      rw [hknown]
      rcases get?_set_some htd with ⟨rfl, rfl⟩ | ⟨_, htd⟩
      · rfl
      · apply List.count_eq_zero.mpr
        exact fun hmem => (h d td htd).dependents x hmem hnew
    · intros; contradiction
    · exact fun hran => absurd hran (Int.lt_irrefl 0)
  have hok := h x tx hold
  have hknown : (Unsettled.submitting running deps id []).deps x = deps x :=
    update_of_ne hne _ _
  constructor
  · exact ⟨hok.keyed, fun hst => (hok.running hst).imp_right False.elim, hok.held, hok.ctx,
      hok.done, hok.unblocked, fun hst => (hok.blocked hst).imp_right False.elim, hok.attempts,
      hok.attempting, hok.unattempted, hok.attempted, hok.flagged⟩
  constructor
  · intro hopen
    rw [hknown, hok.waiting hopen]
    have hunfinished : Tasks.unfinished (tasks.set id (Queue.newTask spec seq)) (deps x) =
        tasks.unfinished (deps x) := by
      apply countP_congr
      intro d hd
      rw [status_set_of_ne (ne_of_mem_of_not_mem hd (hdeps x tx hold hopen))]
    rw [hunfinished]
    rfl
  · intro hopen d hd
    rw [hknown] at hd
    obtain ⟨td, htd, hbad⟩ := hok.deps hopen d hd
    refine ⟨td, ?_, fun hst => (hbad hst).imp_right False.elim⟩
    rw [get?_set_of_ne _ _ (ne_of_mem_of_not_mem hd (hdeps x tx hold hopen)), htd]
  · intro hopen d td htd hdopen
    rw [hknown]
    rcases get?_set_some htd with ⟨rfl, rfl⟩ | ⟨_, htd⟩
    · exact (List.count_eq_zero.mpr (hdeps x tx hold hopen)).symm
    · exact hok.registered hopen d td htd hdopen
  · exact fun d hd => get?_set_ne_none (hok.dependents d hd)
  · exact fun hran d hd => hstatus d (hok.ran hran d hd)

/-! ## A dependency -/

variable {tasks : Tasks} {t td : Task} {known : List String} {d : String}

/-- The task `id`, which is `t`, is registered with the task `d`, which is `td`. -/
def Tasks.await (tasks : Tasks) (id : String) (t : Task) (d : String) (td : Task) : Tasks :=
  (tasks.set id { t with waitingOn := t.waitingOn + 1 }).set d
    { td with dependents := td.dependents ++ [id] }

section Await

variable (ht : tasks.get? id = some t) (hne : d ≠ id) (hd : tasks.get? d = some td)

include ht hd

theorem Tasks.status_await (y : String) : (tasks.await id t d td).status y = tasks.status y := by
  by_cases hyd : y = d
  · rw [hyd, status_of_get? hd, Tasks.await, status_set_self]
  rw [Tasks.await, status_set_of_ne hyd]
  by_cases hyid : y = id
  · rw [hyid, status_of_get? ht, status_set_self]
  · rw [status_set_of_ne hyid]

include hne

/-- The links of the other tasks stay. -/
theorem Tasks.Linked.await {x : String} {tx : Task}
    (h : Linked (.submitting running deps id known) tasks x tx) (hx : x ≠ id) :
    Linked (.submitting running deps id (known ++ [d])) (tasks.await id t d td) x tx := by
  have hcount : (td.dependents ++ [id]).count x = td.dependents.count x := by
    rw [count_append, count_singleton]
    simp [Ne.symm hx]
  have hset := h.change { t with waitingOn := t.waitingOn + 1 } ht (.inl rfl) (.inr rfl)
  exact (hset.change { td with dependents := td.dependents ++ [id] }
    ((get?_set_of_ne _ _ hne).trans hd) (.inl rfl) (.inr hcount)).sameAt
    (Unsettled.submitting_sameAt deps known (known ++ [d]) hx)

theorem Tasks.TaskOk.await_dependency
    (h : TaskOk (.submitting running deps id known) tasks d td) :
    TaskOk (.submitting running deps id (known ++ [d])) (tasks.await id t d td) d
      { td with dependents := td.dependents ++ [id] } := by
  have hlinked := h.toLinked.await ht hne hd hne
  have hlocal := h.toLocalOk.sameAt (Unsettled.submitting_sameAt deps known (known ++ [d]) hne)
  refine ⟨⟨hlocal.keyed, hlocal.running, hlocal.held, hlocal.ctx, hlocal.done, hlocal.unblocked,
    hlocal.blocked, hlocal.attempts, hlocal.attempting, hlocal.unattempted, hlocal.attempted,
    hlocal.flagged⟩, hlinked.waiting, hlinked.deps, hlinked.registered, fun y hy => ?_,
    hlinked.ran⟩
  rcases mem_append.mp hy with hy | hy
  · exact hlinked.dependents y hy
  · rw [mem_singleton.mp hy]
    apply get?_set_ne_none
    rw [get?_set_self]
    exact some_ne_none _

/-- The task that is submitted waits for one more. -/
theorem Tasks.TaskOk.await_self (h : TaskOk (.submitting running deps id known) tasks id t)
    (hblocked : t.status = .blocked) (hopen : td.status.terminal = false) :
    TaskOk (.submitting running deps id (known ++ [d])) (tasks.await id t d td) id
      { t with waitingOn := t.waitingOn + 1 } := by
  have hknown : ∀ known, (Unsettled.submitting running deps id known).deps id = known :=
    fun known => update_self _ _ _
  have hset := h.toLinked.change { t with waitingOn := t.waitingOn + 1 } ht (.inl rfl) (.inr rfl)
  have hget := (get?_set_of_ne tasks { t with waitingOn := t.waitingOn + 1 } hne).trans hd
  refine ⟨⟨h.keyed, h.running, h.held, h.ctx, h.done, fun _ hst => absurd hblocked hst,
    fun _ => .inr rfl, h.attempts, h.attempting, h.unattempted, h.attempted, h.flagged⟩,
    fun hidopen => ?_, fun hidopen y hy => ?_, fun hidopen y ty hty htyopen => ?_,
    fun y hy => get?_set_ne_none (hset.dependents y hy), fun hran y hy => ?_⟩
  · have hdopen : tasks.status d ≠ some .succeeded := by
      rw [status_of_get? hd]
      intro heq
      rw [some.inj heq] at hopen
      cases hopen
    have hwaiting := h.waiting hidopen
    have hunfinished : (tasks.await id t d td).unfinished (known ++ [d]) =
        tasks.unfinished (known ++ [d]) :=
      unfinished_congr (fun y => by rw [status_await ht hd]) _
    rw [hknown] at hwaiting ⊢
    show t.waitingOn + 1 = _
    rw [hwaiting, hunfinished, Tasks.unfinished, Tasks.unfinished, countP_append]
    simp [hdopen, Unsettled.submitting, Unsettled.rest]
  · rw [hknown] at hy
    by_cases hyd : y = d
    · subst hyd
      refine ⟨_, get?_set_self _ _ _, fun hst => ?_⟩
      have hst : td.status.terminal = true := hst
      rw [hopen] at hst
      cases hst
    have hy : y ∈ known :=
      (mem_append.mp hy).resolve_right fun hy => hyd (mem_singleton.mp hy)
    obtain ⟨ty, hty, hbad⟩ := hset.deps hidopen y (by rw [hknown]; exact hy)
    exact ⟨ty, (get?_set_of_ne _ _ hyd).trans hty, hbad⟩
  · have hold := hset.registered hidopen
    rw [hknown] at hold ⊢
    rw [count_append, count_singleton]
    rcases get?_set_some hty with ⟨rfl, rfl⟩ | ⟨hyd, hty⟩
    · rw [count_append, hold y td hget hopen]
      simp
    · rw [hold y ty hty htyopen]
      simp [Ne.symm hyd]
  · rw [status_await ht hd]
    exact h.ran hran y hy

theorem Tasks.Ok.await (h : Ok (.submitting running deps id known) tasks)
    (hblocked : t.status = .blocked) (hopen : td.status.terminal = false) :
    Ok (.submitting running deps id (known ++ [d])) (tasks.await id t d td) := by
  intro x tx htx
  rcases get?_set_some htx with ⟨rfl, rfl⟩ | ⟨-, htx⟩
  · exact (h x td hd).await_dependency ht hne hd
  rcases get?_set_some htx with ⟨rfl, rfl⟩ | ⟨hx, htx⟩
  · exact (h x t ht).await_self ht hne hd hblocked hopen
  · exact ⟨(h x tx htx).toLocalOk.sameAt (Unsettled.submitting_sameAt deps known _ hx),
      (h x tx htx).toLinked.await ht hne hd hx⟩

end Await

namespace Invariant

open TaskTable

theorem insert (h : Invariant (.rest running deps) tt) (hnew : tt.tasks.get? id = none)
    (hidle : ¬ running id) {spec : TaskSpec} (hid : spec.id = id)
    (hattempts : 0 < spec.maxAttempts) (seq : Nat) : Invariant (.submitting running deps id [])
      { tt with
        tasks := tt.tasks.set id (Queue.newTask spec seq)
        heapIdx := Function.update tt.heapIdx id (-1)
        outstanding := tt.outstanding + 1 } := by
  have hblank : tt.task id = Task.blank := by
    rw [task, hnew]
    rfl
  have hqueued : (tt.task id).status.queued = false := by rw [hblank]; rfl
  obtain ⟨hready, hdelayed⟩ := h.heaps.not_mem hqueued
  have hheaps : (tt.update id fun _ => Queue.newTask spec seq).Heaps := h.heaps.update hqueued rfl
  refine ⟨h.ok.insert hnew hidle hid hattempts seq,
    ⟨?_, ?_, hheaps.mem_ready, hheaps.mem_delayed⟩, ?_⟩
  · refine hheaps.ready.congr (fun _ _ _ _ => rfl) ?_
    exact fun x hx => update_of_ne (ne_of_mem_of_not_mem hx hready) _ _
  · refine hheaps.delayed.congr (fun _ _ _ _ => rfl) ?_
    exact fun x hx => update_of_ne (ne_of_mem_of_not_mem hx hdelayed) _ _
  · show tt.outstanding + 1 = (Tasks.live (tt.tasks.set id (Queue.newTask spec seq)) : Int)
    have hlive : Tasks.live (tt.tasks.set id (Queue.newTask spec seq)) = 1 + Tasks.live tt.tasks :=
      total_set_of_none hnew _ _
    rw [hlive, h.outstanding]
    omega

/-! ## The dependencies -/

theorem skip (h : Invariant (.submitting running deps id known) tt)
    (hd : Tasks.status tt.tasks d = some .succeeded) :
    Invariant (.submitting running deps id (known ++ [d])) tt := by
  refine ⟨fun x tx htx => ?_, h.heaps, h.outstanding⟩
  have hok := h.ok x tx htx
  by_cases hx : x = id
  · subst hx
    have hknown : ∀ known, (Unsettled.submitting running deps x known).deps x = known :=
      fun known => update_self _ _ _
    refine ⟨⟨hok.keyed, hok.running, hok.held, hok.ctx, hok.done, hok.unblocked, hok.blocked,
      hok.attempts, hok.attempting, hok.unattempted, hok.attempted, hok.flagged⟩, ?_, ?_, ?_,
      hok.dependents, hok.ran⟩
    · intro hopen
      have hwaiting := hok.waiting hopen
      rw [hknown] at hwaiting ⊢
      rw [hwaiting, Tasks.unfinished, Tasks.unfinished, countP_append]
      simp [hd]
      rfl
    · intro hopen y hy
      rw [hknown] at hy
      rcases mem_append.mp hy with hy | hy
      · exact hok.deps hopen y (by rw [hknown]; exact hy)
      · rw [mem_singleton.mp hy]
        obtain ⟨td, htd, hst⟩ := map_eq_some_iff.mp hd
        exact ⟨td, htd, fun _ => Or.inl hst⟩
    · intro hopen y ty hty htyopen
      have hregistered := hok.registered hopen y ty hty htyopen
      rw [hknown] at hregistered ⊢
      have hne : y ≠ d := by
        rintro rfl
        rw [status_of_get? hty] at hd
        rw [some.inj hd] at htyopen
        cases htyopen
      rw [hregistered, count_append, count_singleton]
      simp [Ne.symm hne]
  · have hsame : (Unsettled.submitting running deps id known).SameAt
        (.submitting running deps id (known ++ [d])) x :=
      Unsettled.submitting_sameAt deps known (known ++ [d]) hx
    exact ⟨hok.toLocalOk.sameAt hsame, hok.toLinked.sameAt hsame⟩

theorem await (h : Invariant (.submitting running deps id known) tt)
    (ht : tt.tasks.get? id = some t) (hblocked : t.status = .blocked) (hne : d ≠ id)
    (hd : tt.tasks.get? d = some td) (hopen : td.status.terminal = false) :
    Invariant (.submitting running deps id (known ++ [d]))
      ((tt.update id fun t => { t with waitingOn := t.waitingOn + 1 }).update d fun t =>
        { t with dependents := t.dependents ++ [id] }) := by
  have hget : (tt.update id fun t => { t with waitingOn := t.waitingOn + 1 }).tasks.get? d =
      some td := by
    rw [update_tasks, get?_set_of_ne _ _ hne, hd]
  have hheaps : (tt.update id fun t => { t with waitingOn := t.waitingOn + 1 }).Heaps :=
    h.heaps.updateSame rfl rfl rfl rfl (by rw [ht]; exact some_ne_none _)
  have htasks : ((tt.update id fun t => { t with waitingOn := t.waitingOn + 1 }).update d fun t =>
      { t with dependents := t.dependents ++ [id] }).tasks = Tasks.await tt.tasks id t d td := by
    rw [update_tasks, task_of_get? hget, update_tasks, task_of_get? ht]
    rfl
  refine ⟨?_, hheaps.updateSame rfl rfl rfl rfl (by rw [hget]; exact some_ne_none _), ?_⟩
  · rw [htasks]
    exact h.ok.await ht hne hd hblocked hopen
  · have hlive := live_set ht { t with waitingOn := t.waitingOn + 1 }
    have hlive' := live_set ((get?_set_of_ne tt.tasks { t with waitingOn := t.waitingOn + 1 }
      hne).trans hd) { td with dependents := td.dependents ++ [id] }
    rw [htasks, Tasks.await, update_outstanding, update_outstanding, Nat.add_left_cancel hlive',
      Nat.add_left_cancel hlive]
    exact h.outstanding

/-- The loop over the dependencies. Unless the task has been cancelled on the way, it has been
    registered with all of them; the induction is on those that are left. -/
theorem register_spec (clock : String → Time) (ds : List String)
    (h : Invariant (.submitting running deps id known) tt) (ht : tt.tasks.get? id = some t)
    (hblocked : t.status = .blocked) (hidle : ¬ running id)
    (hds : ∀ d ∈ ds, d ≠ id ∧ tt.tasks.get? d ≠ none) :
    ∃ waits tt' t', Queue.register clock id tt ds = .ok (waits, tt') ∧ tt.Later tt' ∧
      tt'.tasks.get? id = some t' ∧
      if waits then Invariant (.submitting running deps id (known ++ ds)) tt' ∧ t'.status = .blocked
      else t'.status = .cancelled ∧
        ∀ full, Invariant (.rest running (Function.update deps id full)) tt' := by
  induction ds generalizing tt t known with
  | nil =>
    refine ⟨true, tt, t, rfl, .refl tt, ht, ?_⟩
    rw [if_pos rfl, append_nil]
    exact ⟨h, hblocked⟩
  | cons d ds ih =>
    obtain ⟨hne, hd⟩ := hds d mem_cons_self
    obtain ⟨td, htd⟩ := ne_none_iff_exists'.mp hd
    have happend : known ++ d :: ds = (known ++ [d]) ++ ds := append_cons known d ds
    rw [Queue.register, task_of_get? htd]
    by_cases hsucceeded : td.status = .succeeded
    · rw [if_pos hsucceeded, happend]
      apply ih (h.skip _) ht hblocked fun x hx => hds x (mem_cons_of_mem _ hx)
      rw [status_of_get? htd, hsucceeded]
    rw [if_neg hsucceeded]
    cases hst : td.status.terminal with
    | true =>
      obtain ⟨tt', hfinalize, h', hlater, t', ht', hresult⟩ :=
        h.finalizeLocked_spec ht (by rw [hblocked]; rfl) hidle (fun x hx => hx) clock
          .cancelled rfl (fun hne => absurd rfl hne) none (some (.dependencyFailed d))
      have hstatus : t'.status = .cancelled := congrArg TaskResult.status hresult
      refine ⟨false, tt', t', by rw [if_pos rfl, hfinalize]; rfl, hlater, ht', ?_⟩
      rw [if_neg Bool.false_ne_true]
      refine ⟨hstatus, fun full => ⟨h'.ok.sameOpen rfl rfl ?_, h'.heaps, h'.outstanding⟩⟩
      intro x tx htx hopen
      have hx : x ≠ id := by
        rintro rfl
        rw [ht'] at htx
        obtain rfl := some.inj htx
        rw [hstatus] at hopen
        cases hopen
      refine ⟨Iff.rfl, Iff.rfl, rfl, Iff.rfl, ?_⟩
      show Function.update deps id full x = Function.update deps id known x
      rw [update_of_ne hx, update_of_ne hx]
    | false =>
    rw [if_neg Bool.false_ne_true, happend]
    have h1 := h.await ht hblocked hne htd hst
    let t1 : Task := { t with waitingOn := t.waitingOn + 1 }
    let d1 : Task := { td with dependents := td.dependents ++ [id] }
    let tt1 := tt.update id fun t => { t with waitingOn := t.waitingOn + 1 }
    let tt2 := tt1.update d fun t => { t with dependents := t.dependents ++ [id] }
    have htasks1 : tt1.tasks = tt.tasks.set id t1 := by
      show tt.tasks.set id _ = _
      rw [task_of_get? ht]
    have hget1 : tt1.tasks.get? d = some td := by
      rw [htasks1, get?_set_of_ne _ _ hne, htd]
    have htasks2 : tt2.tasks = tt1.tasks.set d d1 := by
      show tt1.tasks.set d _ = _
      rw [task_of_get? hget1]
    have hlater : tt.Later tt2 :=
      (Later.set t1 ht ⟨rfl, fun _ => rfl, fun hflag => hflag⟩ htasks1).trans
        (Later.set d1 hget1 ⟨rfl, fun _ => rfl, fun hflag => hflag⟩ htasks2)
    have ht2 : tt2.tasks.get? id = some t1 := by
      rw [htasks2, get?_set_of_ne _ _ (Ne.symm hne), htasks1, get?_set_self]
    obtain ⟨waits, tt', t', hregister, hlater', ht', hresult⟩ := ih h1 ht2 hblocked
      fun x hx => ⟨(hds x (mem_cons_of_mem _ hx)).1,
        hlater.get?_ne_none (hds x (mem_cons_of_mem _ hx)).2⟩
    exact ⟨waits, tt', t', hregister, hlater.trans hlater', ht', hresult⟩

theorem waits (h : Invariant (.submitting running deps id known) tt)
    (ht : tt.tasks.get? id = some t) (hblocked : t.status = .blocked) (hwaits : 0 < t.waitingOn) :
    Invariant (.rest running (Function.update deps id known)) tt := by
  refine ⟨fun x tx htx => ?_, h.heaps, h.outstanding⟩
  have hok := h.ok x tx htx
  refine ⟨⟨hok.keyed, ?_, hok.held, hok.ctx, hok.done, hok.unblocked, ?_, hok.attempts,
    hok.attempting, hok.unattempted, hok.attempted, hok.flagged⟩, hok.waiting, hok.deps,
    hok.registered, hok.dependents, hok.ran⟩
  · intro hst
    rcases hok.running hst with hrun | rfl
    · exact Or.inl hrun
    · rw [ht] at htx
      obtain rfl := some.inj htx
      rw [hblocked] at hst
      cases hst
  · intro hst
    rcases hok.blocked hst with hpos | rfl
    · exact Or.inl hpos
    · rw [ht] at htx
      obtain rfl := some.inj htx
      exact Or.inl hwaits

theorem runnable (h : Invariant (.submitting running deps id known) tt)
    (ht : tt.tasks.get? id = some t) (hblocked : t.status = .blocked) (hidle : ¬ running id)
    (hwaits : ¬ 0 < t.waitingOn) (now : Time) :
    Invariant (.rest running (Function.update deps id known)) (tt.enqueueLocked now id) ∧
      ∃ st, (st = .ready ∨ st = .scheduled) ∧
        (tt.enqueueLocked now id).tasks = tt.tasks.set id { t with status := st } := by
  have hok := h.ok id t ht
  have hopen : t.status.terminal = false := by rw [hblocked]; rfl
  have hzero : t.waitingOn = 0 := by
    have hwaiting := hok.waiting hopen
    omega
  have hsame : ∀ x, x ≠ id → (Unsettled.submitting running deps id known).SameAt
      (.rest running (Function.update deps id known)) x :=
    fun x hx => ⟨Iff.rfl, ⟨False.elim, fun heq => hx heq⟩, rfl, Iff.rfl, rfl⟩
  have hrun : t.status ≠ .running := by rw [hblocked]; decide
  apply enqueue h.heaps h.outstanding ht hopen (by rw [hblocked]; rfl) now
  intro st hst
  apply h.ok.set { t with status := st } ht hopen _ rfl rfl hsame rfl Iff.rfl rfl hok.ran
  · exact hok.queue hopen hidle hidle (hok.unflagged hopen hrun) (hok.attempting hopen hrun) hst
      hzero t.runAt t.err
  · rcases hst with rfl | rfl <;> rfl

theorem submitNew_spec {q : Queue} (h : Invariant (.rest running deps) q.toTaskTable)
    {spec : TaskSpec} (hnew : q.tasks.get? spec.id = none) (hidle : ¬ running spec.id)
    (hattempts : 0 < spec.maxAttempts) (hdeps : ∀ d ∈ spec.dependsOn, q.tasks.get? d ≠ none)
    (clock : String → Time) :
    ∃ tt' t', q.submitNew clock spec = .ok { q with toTaskTable := tt' } ∧
      Invariant (.rest running (Function.update deps spec.id spec.dependsOn)) tt' ∧
      q.toTaskTable.Keeps tt' ∧ tt'.tasks.get? spec.id = some t' ∧ t'.spec = spec ∧
      ∀ x, x ≠ spec.id → q.tasks.get? x = none → tt'.tasks.get? x = none := by
  let tt0 : TaskTable := { q.toTaskTable with
    tasks := q.tasks.set spec.id (Queue.newTask spec q.seq)
    heapIdx := Function.update q.heapIdx spec.id (-1)
    outstanding := q.outstanding + 1 }
  have h0 : Invariant (.submitting running deps spec.id []) tt0 :=
    h.insert hnew hidle rfl hattempts q.seq
  have ht0 : tt0.tasks.get? spec.id = some (Queue.newTask spec q.seq) := get?_set_self _ _ _
  have hkeeps0 : q.toTaskTable.Keeps tt0 := by
    intro x tx htx
    have hne : x ≠ spec.id := ne_of_eq_none htx hnew
    exact ⟨tx, by rw [← htx]; exact get?_set_of_ne _ _ hne, rfl, fun _ => rfl, fun hflag => hflag⟩
  have hds : ∀ d ∈ spec.dependsOn, d ≠ spec.id ∧ tt0.tasks.get? d ≠ none := by
    intro d hd
    have hne : d ≠ spec.id := by
      rintro rfl
      exact hdeps _ hd hnew
    exact ⟨hne, get?_set_ne_none (hdeps d hd)⟩
  obtain ⟨waits, tt1, t1, hregister, hlater, ht1, hresult⟩ :=
    h0.register_spec clock spec.dependsOn ht0 rfl hidle hds
  have hspec1 : t1.spec = spec := by
    obtain ⟨t', ht', hlater'⟩ := hlater.kept _ _ ht0
    rw [ht1] at ht'
    rw [some.inj ht', hlater'.spec]
    rfl
  have hkeeps1 := hkeeps0.trans hlater.kept
  have hold1 : ∀ x, x ≠ spec.id → q.tasks.get? x = none → tt1.tasks.get? x = none := by
    intro x hne hx
    apply hlater.old
    rw [← hx]
    exact get?_set_of_ne _ _ hne
  have hrun : q.submitNew clock spec =
      (Queue.register clock spec.id tt0 spec.dependsOn).bind fun r =>
        if r.1 then
          if (r.2.task spec.id).waitingOn > 0 then
            .ok { q with toTaskTable := r.2.update spec.id fun t => { t with status := .blocked } }
          else .ok { q with toTaskTable := r.2.enqueueLocked (clock spec.id) spec.id }
        else .ok { q with toTaskTable := r.2 } := rfl
  rw [hrun, hregister]
  dsimp only [Except.bind]
  rw [task_of_get? ht1]
  cases waits with
  | false =>
    rw [if_neg Bool.false_ne_true] at hresult
    exact ⟨tt1, t1, rfl, hresult.2 _, hkeeps1, ht1, hspec1, hold1⟩
  | true =>
  rw [if_pos rfl] at hresult
  obtain ⟨h1, hblocked⟩ := hresult
  rw [if_pos rfl]
  by_cases hwaits : 0 < t1.waitingOn
  · have hsame : (tt1.update spec.id fun t => { t with status := .blocked }) = tt1 := by
      have htasks : tt1.tasks.set spec.id { t1 with status := .blocked } = tt1.tasks := by
        rw [← hblocked]
        exact set_eq_self ht1
      show TaskTable.mk (tt1.tasks.set spec.id { tt1.task spec.id with status := .blocked }) .. =
        tt1
      rw [task_of_get? ht1, htasks]
    rw [if_pos hwaits, hsame]
    exact ⟨tt1, t1, rfl, h1.waits ht1 hblocked hwaits, hkeeps1, ht1, hspec1, hold1⟩
  rw [if_neg hwaits]
  obtain ⟨hinv, st, _, htasks⟩ :=
    h1.runnable ht1 hblocked hidle hwaits (clock spec.id)
  refine ⟨_, { t1 with status := st }, rfl, hinv, hkeeps1.trans ?_, ?_, hspec1, ?_⟩
  · refine (Later.set { t1 with status := st } ht1 ⟨rfl, fun hst => ?_, fun hflag => hflag⟩
      htasks).kept
    rw [hblocked] at hst
    cases hst
  · rw [htasks, get?_set_self]
  · intro x hne hx
    rw [htasks, get?_set_of_ne _ _ hne]
    exact hold1 x hne hx

end Invariant

variable {running : String → Prop} {deps : String → List String} {tt : TaskTable} {id : String}
  {t : Task}

namespace Invariant

open TaskTable

theorem live_update (t' : Task) (ht : tt.tasks.get? id = some t)
    (hst : t'.status.terminal = t.status.terminal) :
    Tasks.live (tt.tasks.set id t') = Tasks.live tt.tasks := by
  have hlive := Tasks.live_set ht t'
  rw [hst] at hlive
  exact Nat.add_left_cancel hlive

theorem promote_spec (h : Invariant (.rest running deps) tt) (now : Time) (fuel : Nat) :
    Invariant (.rest running deps) (Queue.promote now fuel tt) ∧
      tt.Later (Queue.promote now fuel tt) := by
  induction fuel generalizing tt with
  | zero => exact ⟨h, .refl tt⟩
  | succ _ ih =>
    rw [Queue.promote]
    split
    next => exact ⟨h, .refl tt⟩
    next id rest hdelayed =>
    split
    · exact ⟨h, .refl tt⟩
    have hmem : id ∈ tt.delayed := by rw [hdelayed]; exact mem_cons_self
    obtain ⟨t, ht, hst⟩ := map_eq_some_iff.mp ((h.heaps.mem_delayed id).mp hmem)
    have hok := h.ok id t ht
    have hopen : t.status.terminal = false := by rw [hst]; rfl
    have hrun : t.status ≠ .running := by rw [hst]; decide
    have hidle : ¬ running id := fun hrunning => hrun (hok.held hrunning).1
    let tt1 := ((tt.onDelayed fun h => h.pop).update id fun t =>
      { t with status := .ready }).onReady
      fun h => h.push id
    have hheaps : tt1.Heaps := by
      have hpop := h.heaps.popDelayed (f := fun t => { t with status := .blocked }) hdelayed rfl
      have hpush := hpop.pushReady (f := fun t => { t with status := .ready })
        (by rw [task_update_self]; rfl) rfl
      rwa [update_update] at hpush
    have htasks : tt1.tasks = tt.tasks.set id { t with status := .ready } := by
      show tt.tasks.set id { tt.task id with status := .ready } = _
      rw [task_of_get? ht]
    have h1 : Invariant (.rest running deps) tt1 := by
      refine ⟨?_, hheaps, ?_⟩
      · rw [htasks]
        apply h.ok.set { t with status := .ready } ht hopen rfl rfl rfl
          (fun x _ => Unsettled.SameAt.refl _ x) rfl Iff.rfl rfl hok.ran
        exact hok.queue hopen hidle hidle (hok.unflagged hopen hrun) (hok.attempting hopen hrun)
          (Or.inl rfl) (hok.unblocked hopen (by rw [hst]; decide)) t.runAt t.err
      · rw [htasks, live_update { t with status := .ready } ht (by rw [hopen]; rfl)]
        exact h.outstanding
    obtain ⟨h2, hlater⟩ := ih h1
    refine ⟨h2, Later.trans (Later.set { t with status := .ready } ht ⟨rfl, ?_, fun h => h⟩ htasks)
      hlater⟩
    exact fun hterminal => absurd hterminal (by rw [hopen]; decide)

theorem take_spec {f : Task → Task} (hf : ∀ t, f t = { t with
      status := .running, attempts := t.attempts + 1, ctx := some ⟨t.spec.timeout, false⟩ })
        {rest : List String} (h : Invariant (.rest running deps) tt)
    (hready : tt.ready = id :: rest)
    (hdeps : ∀ t, tt.tasks.get? id = some t → t.spec.dependsOn = deps id) :
    ¬ running id ∧
      Invariant (.rest (fun x => running x ∨ x = id) deps)
        ((tt.onReady fun h => h.pop).update id f) ∧
      tt.Later ((tt.onReady fun h => h.pop).update id f) := by
  have hmem : id ∈ tt.ready := by rw [hready]; exact mem_cons_self
  obtain ⟨t, ht, hst⟩ := map_eq_some_iff.mp ((h.heaps.mem_ready id).mp hmem)
  have hok := h.ok id t ht
  have hopen : t.status.terminal = false := by rw [hst]; rfl
  have hrun : t.status ≠ .running := by rw [hst]; decide
  have hidle : ¬ running id := fun hrunning => hrun (hok.held hrunning).1
  have hzero := hok.unblocked hopen (by rw [hst]; decide)
  let t' : Task :=
    { t with status := .running, attempts := t.attempts + 1, ctx := some ⟨t.spec.timeout, false⟩ }
  have htasks : ((tt.onReady fun h => h.pop).update id f).tasks = tt.tasks.set id t' := by
    show tt.tasks.set id (f (tt.task id)) = _
    rw [task_of_get? ht, hf]
  have hsucceeded : ∀ d ∈ t.spec.dependsOn, Tasks.status tt.tasks d = some .succeeded := by
    have hwaiting := hok.waiting hopen
    have hnone : Tasks.unfinished tt.tasks (deps id) = 0 := by
      have hdebt : (Unsettled.rest running deps).debt id = 0 := rfl
      rw [hzero, hdebt] at hwaiting
      have hcast : (0 : Int) = (Tasks.unfinished tt.tasks (deps id) : Int) + (0 : Nat) := hwaiting
      omega
    intro d hd
    rw [hdeps t ht] at hd
    by_contra hnot
    have hpos : 0 < Tasks.unfinished tt.tasks (deps id) :=
      countP_pos_iff.mpr ⟨d, hd, by simpa using hnot⟩
    omega
  refine ⟨hidle, ⟨?_, h.heaps.popReady hready (by rw [hf]; rfl), ?_⟩, ?_⟩
  · rw [htasks]
    have hsame : ∀ x, x ≠ id → (Unsettled.rest running deps).SameAt
        (.rest (fun x => running x ∨ x = id) deps) x :=
      fun x hx => ⟨⟨fun hrun => hrun.resolve_right hx, Or.inl⟩, Iff.rfl, rfl, Iff.rfl, rfl⟩
    apply h.ok.set t' ht hopen rfl rfl rfl hsame rfl Iff.rfl rfl (fun _ => hsucceeded)
    have hattempts := hok.attempts
    have hattempting := hok.attempting hopen hrun
    constructor
    · exact hok.keyed
    · exact fun _ => Or.inl (Or.inr rfl)
    · exact fun _ => ⟨rfl, rfl⟩
    · exact fun _ => Or.inr rfl
    · exact hok.done.trans hopen
    · exact fun _ _ => hzero
    · exact nofun
    · show 0 ≤ t.attempts + 1 ∧ t.attempts + 1 ≤ t.spec.maxAttempts
      omega
    · exact fun _ hne => absurd rfl hne
    · exact nofun
    · intro _
      show 0 < t.attempts + 1
      omega
    · exact fun _ => Or.inl rfl
  · rw [htasks, live_update t' ht (by rw [hopen]; rfl)]
    exact h.outstanding
  · refine Later.set t' ht ⟨rfl, fun hterminal => ?_, fun hflag => hflag⟩ htasks
    rw [hopen] at hterminal
    cases hterminal

theorem flag_spec (h : Invariant (.rest running deps) tt) (ht : tt.tasks.get? id = some t)
    (hst : t.status = .running) (ctx : Context) : Invariant (.rest running deps)
        (tt.update id fun t => { t with cancelRequested := true, ctx := some ctx }) ∧
      tt.Later (tt.update id fun t => { t with cancelRequested := true, ctx := some ctx }) := by
  have hok := h.ok id t ht
  have hopen : t.status.terminal = false := by rw [hst]; rfl
  let t' : Task := { t with cancelRequested := true, ctx := some ctx }
  have htasks : (tt.update id fun t => { t with cancelRequested := true, ctx := some ctx }).tasks =
      tt.tasks.set id t' := by rw [update_tasks, task_of_get? ht]
  have hrunning : running id := (hok.running hst).resolve_right fun h => h
  refine ⟨⟨?_, h.heaps.updateSame rfl rfl rfl rfl (by rw [ht]; exact some_ne_none _), ?_⟩, ?_⟩
  · rw [htasks]
    apply h.ok.set t' ht hopen hopen rfl rfl (fun x _ => Unsettled.SameAt.refl _ x) rfl Iff.rfl rfl
      hok.ran
    exact ⟨hok.keyed, hok.running, fun _ => ⟨hst, rfl⟩, fun _ => hrunning, hok.done, hok.unblocked,
      hok.blocked, hok.attempts, hok.attempting, hok.unattempted, hok.attempted,
      fun _ => Or.inl hst⟩
  · rw [htasks, live_update t' ht rfl]
    exact h.outstanding
  · exact Later.set t' ht ⟨rfl, fun _ => rfl, fun _ => rfl⟩ htasks

theorem release_spec (h : Invariant (.rest running deps) tt) (ht : tt.tasks.get? id = some t)
    (hst : t.status = .running) :
    Invariant { Unsettled.rest (fun x => running x ∧ x ≠ id) deps with current := fun x => x = id }
        (tt.update id fun t => { t with ctx := none }) ∧
      tt.Later (tt.update id fun t => { t with ctx := none }) ∧
      (tt.update id fun t => { t with ctx := none }).tasks.get? id =
    some { t with ctx := none } := by
  have hok := h.ok id t ht
  have hopen : t.status.terminal = false := by rw [hst]; rfl
  let t' : Task := { t with ctx := none }
  have htasks : (tt.update id fun t => { t with ctx := none }).tasks = tt.tasks.set id t' := by
    rw [update_tasks, task_of_get? ht]
  refine ⟨⟨?_, h.heaps.updateSame rfl rfl rfl rfl (by rw [ht]; exact some_ne_none _), ?_⟩, ?_,
    by rw [htasks, Dict.get?_set_self]⟩
  · rw [htasks]
    have hsame : ∀ x, x ≠ id → (Unsettled.rest running deps).SameAt
        { Unsettled.rest (fun x => running x ∧ x ≠ id) deps with current := fun x => x = id } x :=
      fun x hx => ⟨⟨And.left, fun hrun => ⟨hrun, hx⟩⟩, ⟨fun heq => hx heq, False.elim⟩,
        rfl, Iff.rfl,
        rfl⟩
    apply h.ok.set t' ht hopen hopen rfl rfl hsame rfl Iff.rfl rfl hok.ran
    exact ⟨hok.keyed, fun _ => Or.inr rfl, fun hrun => absurd rfl hrun.2,
      fun hctx => absurd hctx Bool.false_ne_true, hok.done, hok.unblocked, fun _ => Or.inr rfl,
      hok.attempts, hok.attempting, hok.unattempted, hok.attempted, hok.flagged⟩
  · rw [htasks, live_update t' ht rfl]
    exact h.outstanding
  · exact Later.set t' ht ⟨rfl, fun _ => rfl, fun hflag => hflag⟩ htasks

theorem retry_spec
    (h : Invariant { Unsettled.rest running deps with current := fun x => x = id } tt)
    (ht : tt.tasks.get? id = some t) (hst : t.status = .running) (hidle : ¬ running id)
    (hflag : t.cancelRequested = false) (hattempts : t.attempts < t.spec.maxAttempts)
    (err : Option TaskError) (runAt now : Time) :
    Invariant (.rest running deps)
        ((tt.update id fun t => { t with err := err, runAt := runAt }).enqueueLocked now id) ∧
      tt.Later
        ((tt.update id fun t => { t with err := err, runAt := runAt }).enqueueLocked now id) := by
  have hok := h.ok id t ht
  have hopen : t.status.terminal = false := by rw [hst]; rfl
  let t1 : Task := { t with err := err, runAt := runAt }
  let tt1 := tt.update id fun t => { t with err := err, runAt := runAt }
  have htasks1 : tt1.tasks = tt.tasks.set id t1 := by
    show tt.tasks.set id _ = _
    rw [task_of_get? ht]
  have hget1 : tt1.tasks.get? id = some t1 := by rw [htasks1, Dict.get?_set_self]
  have hqueued : (tt.task id).status.queued = false := by rw [task_of_get? ht, hst]; rfl
  have hheaps1 : tt1.Heaps := h.heaps.update hqueued hqueued
  have hlive1 : tt1.outstanding = (Tasks.live tt1.tasks : Int) := by
    rw [htasks1, live_update t1 ht rfl]
    exact h.outstanding
  have hlater1 : tt.Later tt1 :=
    Later.set t1 ht ⟨rfl, fun hterminal => absurd hterminal (by rw [hopen]; decide),
      fun h => h⟩ htasks1
  have hsame : ∀ x, x ≠ id → Unsettled.SameAt
      { Unsettled.rest running deps with current := fun x => x = id } (.rest running deps) x :=
    fun x hx => ⟨Iff.rfl, ⟨False.elim, fun heq => hx heq⟩, rfl, Iff.rfl, rfl⟩
  obtain ⟨hinv, st, _, htasks⟩ := enqueue (u := .rest running deps) hheaps1 hlive1 hget1 hopen
    (by show t.status.queued = false; rw [hst]; rfl) now (by
      intro st hst'
      rw [htasks1, Dict.set_set]
      apply h.ok.set { t1 with status := st } ht hopen _ rfl rfl hsame rfl Iff.rfl rfl hok.ran
      · exact hok.queue hopen hidle hidle hflag hattempts hst'
          (hok.unblocked hopen (by rw [hst]; decide)) runAt err
      · rcases hst' with rfl | rfl <;> rfl)
  refine ⟨hinv, hlater1.trans (Later.set { t1 with status := st } hget1 ⟨rfl, ?_,
    fun h => h⟩ htasks)⟩
  exact fun hterminal =>
    absurd hterminal (by rw [show t1.status = t.status from rfl, hopen]; decide)

/-! ## The end of Shutdown -/

theorem sweep_spec (hnone : ∀ x, ¬ running x) (clock : String → Time) (order : List String)
    (h : Invariant (.rest running deps) tt) (horder : ∀ id ∈ order, tt.tasks.get? id ≠ none) :
    ∃ tt', order.foldlM (fun tt id =>
        tt.finalizeLocked clock id .cancelled none (some .shutdown)) tt = .ok tt' ∧
      Invariant (.rest running deps) tt' ∧ tt.Later tt' ∧
      ∀ id ∈ order, ∃ t, tt'.tasks.get? id = some t ∧ t.status.terminal := by
  induction order generalizing tt with
  | nil => exact ⟨tt, rfl, h, .refl tt, nofun⟩
  | cons id _ ih =>
    obtain ⟨t, ht⟩ := ne_none_iff_exists'.mp (horder id mem_cons_self)
    have hstep : ∃ tt1 t1, tt.finalizeLocked clock id .cancelled none (some .shutdown) = .ok tt1 ∧
        Invariant (.rest running deps) tt1 ∧ tt.Later tt1 ∧ tt1.tasks.get? id = some t1 ∧
        t1.status.terminal := by
      cases hst : t.status.terminal with
      | true =>
        refine ⟨tt, t, ?_, h, .refl tt, ht, hst⟩
        rw [finalizeLocked, TaskTable.finalize, task_of_get? ht, if_pos hst]
      | false =>
        obtain ⟨tt1, hfinalize, h1, hlater, t1, ht1, hresult⟩ :=
          h.finalizeLocked_spec ht hst (hnone id) (fun x hx => False.elim hx) clock .cancelled rfl
            (fun hne => absurd rfl hne) none (some .shutdown)
        have hstatus : t1.status = .cancelled := congrArg TaskResult.status hresult
        exact ⟨tt1, t1, hfinalize, h1, hlater, ht1, by rw [hstatus]; rfl⟩
    obtain ⟨tt1, t1, hfinalize, h1, hlater1, ht1, hterminal1⟩ := hstep
    obtain ⟨tt2, hfold, h2, hlater2, hrest⟩ := ih h1
      fun x hx => hlater1.get?_ne_none (horder x (mem_cons_of_mem _ hx))
    refine ⟨tt2, ?_, h2, hlater1.trans hlater2, ?_⟩
    · rw [foldlM_cons, hfinalize]
      exact hfold
    · intro x hx
      rcases mem_cons.mp hx with rfl | hx
      · obtain ⟨t2, ht2, hlater⟩ := hlater2.kept x t1 ht1
        exact ⟨t2, ht2, by rw [hlater.status hterminal1, hterminal1]⟩
      · exact hrest x hx

end Invariant

end InterviewPrep.TaskQueue
