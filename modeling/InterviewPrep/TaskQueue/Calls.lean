/-
  One step of the queue keeps it consistent (`Consistent.step`), never panics, and forgets no
  task: no terminal one changes, and no request to cancel is taken back.

  The calls of the queue's callers keep it consistent, and with the steps of the workers every
  step does (`Consistent.step`): it does not panic, and no task is forgotten.
-/
import InterviewPrep.TaskQueue.Attempts

namespace InterviewPrep.TaskQueue

open Lib List Option

namespace Queue

/-- A worker runs the task. -/
def running (q : Queue) (id : String) : Prop := ∃ w : Nat, q.workers[w]? = some (.running id)

def deps (q : Queue) (id : String) : List String := (q.task id).spec.dependsOn

structure Consistent (q : Queue) : Prop where
  inv : Invariant (.rest q.running q.deps) q.toTaskTable
  known : ∀ id, q.running id → q.tasks.get? id ≠ none
  oneWorker : ∀ (w w' : Nat) (id : String), q.workers[w]? = some (.running id) →
    q.workers[w']? = some (.running id) → w = w'
  positive : 0 < q.workerCount
  pool : q.workers.length = if q.started then q.workerCount else 0
  closing : ∀ c ∈ q.shutdowns, q.closing ∧ (c ≠ .starting → q.started)
  exited : Worker.exited ∈ q.workers → q.baseCancelled ∨ q.closing ∧ q.outstanding = 0
  stopped : q.baseCancelled → q.closing ∧ (Shutdown.stopping ∈ q.shutdowns ∨ q.outstanding = 0)

variable {q : Queue} {tt' : TaskTable} {id : String} {w : Nat}

theorem new_consistent (workers : Int) (handlers : List String) :
    (new workers handlers).Consistent := by
  constructor
  · refine ⟨fun id t ht => (by cases ht),
      ⟨IndexedHeap.valid_nil _, IndexedHeap.valid_nil _, ?_, ?_⟩, rfl⟩
    · exact fun id => ⟨(by cases ·), by rintro ⟨t, ht, -⟩⟩
    · exact fun id => ⟨(by cases ·), by rintro ⟨t, ht, -⟩⟩
  · rintro id ⟨w, hw⟩
    simp [new] at hw
  · intro w w' id hw
    simp [new] at hw
  · show 0 < if workers ≤ 0 then 4 else workers.toNat
    split <;> omega
  · rfl
  · intros; contradiction
  · intros; contradiction
  · intros; contradiction

theorem settle {running : String → Prop} {deps : String → List String}
    (h : Invariant (.rest running deps) tt')
    (hdeps : ∀ id t, tt'.tasks.get? id = some t → t.spec.dependsOn = deps id) :
    Invariant (.rest running fun id => (tt'.task id).spec.dependsOn) tt' := by
  refine ⟨h.ok.sameOpen rfl rfl fun x tx htx _ => ⟨Iff.rfl, Iff.rfl, rfl, Iff.rfl, ?_⟩, h.heaps,
    h.outstanding⟩
  show (tt'.task x).spec.dependsOn = deps x
  rw [TaskTable.task_of_get? htx, hdeps x tx htx]

theorem deps_of_get? {t : Task} (ht : q.tasks.get? id = some t) : t.spec.dependsOn = q.deps id := by
  rw [deps, TaskTable.task_of_get? ht]

theorem deps_later (hlater : q.toTaskTable.Later tt') :
    ∀ id t, tt'.tasks.get? id = some t → t.spec.dependsOn = q.deps id := by
  intro id t' ht'
  cases hget : q.tasks.get? id with
  | none =>
    rw [hlater.old id hget] at ht'
    cases ht'
  | some t =>
    obtain ⟨t1, ht1, hlater1⟩ := hlater.kept id t hget
    rw [ht'] at ht1
    rw [some.inj ht1, hlater1.spec, deps_of_get? hget]

theorem outstanding_later {u u' : Unsettled} (h : Invariant u q.toTaskTable) (h' : Invariant u' tt')
    (hlater : q.toTaskTable.Later tt') (hzero : q.outstanding = 0) : tt'.outstanding = 0 := by
  have hlive := hlater.live
  have houtstanding := h.outstanding
  rw [h'.outstanding]
  omega

theorem Consistent.later {workers : List Worker} (h : q.Consistent)
    (hinv : Invariant (.rest ({ q with workers := workers }.running) q.deps) tt')
    (hlater : q.toTaskTable.Later tt')
    (hknown : ∀ id, { q with workers := workers }.running id → q.tasks.get? id ≠ none)
    (honeWorker : ∀ (w w' : Nat) (id : String), workers[w]? = some (.running id) →
      workers[w']? = some (.running id) → w = w')
    (hlength : workers.length = q.workers.length)
    (hexited : Worker.exited ∈ workers →
      Worker.exited ∈ q.workers ∨ q.baseCancelled ∨ q.closing ∧ q.outstanding = 0) :
    Consistent { q with toTaskTable := tt', workers := workers } := by
  have hzero := outstanding_later h.inv hinv hlater
  constructor
  · exact settle hinv (deps_later hlater)
  · exact fun id hrun => hlater.get?_ne_none (hknown id hrun)
  · exact honeWorker
  · exact h.positive
  · exact hlength.trans h.pool
  · exact h.closing
  · intro hex
    exact ((hexited hex).elim h.exited fun hstop => hstop).imp_right fun hclosed =>
      ⟨hclosed.1, hzero hclosed.2⟩
  · exact fun hstop => ⟨(h.stopped hstop).1, (h.stopped hstop).2.imp_right hzero⟩

theorem Consistent.table (h : q.Consistent) (hinv : Invariant (.rest q.running q.deps) tt')
    (hlater : q.toTaskTable.Later tt') : Consistent { q with toTaskTable := tt' } :=
  h.later hinv hlater h.known h.oneWorker rfl Or.inl

/-! ## Workers -/

theorem running_set_of_idle {new : Worker} (hidle : q.workers[w]? = some .idle) (x : String) :
    { q with workers := q.workers.set w new }.running x ↔ q.running x ∨ new = .running x := by
  have hlt : w < q.workers.length := (List.getElem?_eq_some_iff.mp hidle).1
  constructor
  · rintro ⟨w', hw'⟩
    have hw' : (q.workers.set w new)[w']? = some (.running x) := hw'
    rw [getElem?_set] at hw'
    by_cases heq : w = w'
    · rw [if_pos heq, if_pos (heq ▸ hlt)] at hw'
      exact Or.inr (some.inj hw')
    · rw [if_neg heq] at hw'
      exact Or.inl ⟨w', hw'⟩
  rintro (⟨w', hw'⟩ | rfl)
  · have hne : w ≠ w' := by
      rintro rfl
      rw [hidle] at hw'
      cases hw'
    refine ⟨w', ?_⟩
    rw [getElem?_set, if_neg hne, hw']
  · refine ⟨w, ?_⟩
    rw [getElem?_set, if_pos rfl, if_pos hlt]

theorem Consistent.running_set (h : q.Consistent) (hrun : q.workers[w]? = some (.running id))
    (x : String) :
    { q with workers := q.workers.set w .idle }.running x ↔ q.running x ∧ x ≠ id := by
  have hlt : w < q.workers.length := (List.getElem?_eq_some_iff.mp hrun).1
  constructor
  · rintro ⟨w', hw'⟩
    have hw' : (q.workers.set w .idle)[w']? = some (.running x) := hw'
    rw [getElem?_set] at hw'
    by_cases heq : w = w'
    · rw [if_pos heq, if_pos (heq ▸ hlt)] at hw'
      cases hw'
    · rw [if_neg heq] at hw'
      refine ⟨⟨w', hw'⟩, ?_⟩
      rintro rfl
      exact heq (h.oneWorker w w' x hrun hw')
  rintro ⟨⟨w', hw'⟩, hne⟩
  have hneq : w ≠ w' := by
    rintro rfl
    rw [hrun] at hw'
    cases hw'
    exact hne rfl
  refine ⟨w', ?_⟩
  rw [getElem?_set, if_neg hneq, hw']

theorem Consistent.oneWorker_set (h : q.Consistent) {new : Worker}
    (hnew : ∀ id, new = .running id → ¬ q.running id) (w1 w2 : Nat) (id : String)
    (h1 : (q.workers.set w new)[w1]? = some (.running id))
    (h2 : (q.workers.set w new)[w2]? = some (.running id)) : w1 = w2 := by
  rw [getElem?_set] at h1 h2
  by_cases heq1 : w = w1
  · by_cases heq2 : w = w2
    · exact heq1.symm.trans heq2
    · rw [if_neg heq2] at h2
      rw [if_pos heq1] at h1
      split at h1
      · exact absurd ⟨w2, h2⟩ (hnew id (some.inj h1))
      · cases h1
  rw [if_neg heq1] at h1
  by_cases heq2 : w = w2
  · rw [if_pos heq2] at h2
    split at h2
    · exact absurd ⟨w1, h1⟩ (hnew id (some.inj h2))
    · cases h2
  · rw [if_neg heq2] at h2
    exact h.oneWorker w1 w2 id h1 h2

theorem promote_outstanding (now : Time) (fuel : Nat) (tt : TaskTable) :
    (promote now fuel tt).outstanding = tt.outstanding := by
  induction fuel generalizing tt with
  | zero => rfl
  | succ _ ih =>
    rw [promote]
    split
    · rfl
    · split
      · rfl
      · rw [ih]
        rfl

theorem Consistent.acquire (h : q.Consistent) (hidle : q.workers[w]? = some .idle) (now : Time) :
    (q.acquire w now).2.Consistent ∧ q.toTaskTable.Later (q.acquire w now).2.toTaskTable := by
  have hsame : ∀ {new : Worker}, (∀ id, new ≠ .running id) →
      { q with workers := q.workers.set w new }.running = q.running := by
    intro new hnew
    funext x
    exact propext ((running_set_of_idle hidle x).trans (or_iff_left (hnew x)))
  have hexit : ∀ {tt : TaskTable}, Invariant (.rest q.running q.deps) tt → q.toTaskTable.Later tt →
      (q.baseCancelled ∨ q.closing ∧ q.outstanding = 0) →
      Consistent { q with toTaskTable := tt, workers := q.workers.set w .exited } := by
    intro tt hinv hlater hstop
    apply h.later _ hlater _ (h.oneWorker_set fun id heq => by cases heq) (length_set)
      fun _ => Or.inr hstop
    · rw [hsame fun id heq => by cases heq]
      exact hinv
    · rw [hsame fun id heq => by cases heq]
      exact h.known
  obtain ⟨hpromote, hlater⟩ := h.inv.promote_spec now q.delayed.length
  rw [Queue.acquire]
  split
  next hbase => exact ⟨hexit h.inv (.refl _) (Or.inl hbase), .refl _⟩
  next =>
  dsimp only
  split
  next id _ hready =>
    have hdeps : ∀ t, (promote now q.delayed.length q.toTaskTable).tasks.get? id = some t →
        t.spec.dependsOn = q.deps id := deps_later hlater id
    obtain ⟨hnot, htake, hlater'⟩ := hpromote.take_spec (fun t => rfl) hready hdeps
    have hmem : id ∈ (promote now q.delayed.length q.toTaskTable).ready := by
      rw [hready]
      exact mem_cons_self
    have hrunning : { q with workers := q.workers.set w (.running id) }.running =
        fun x => q.running x ∨ x = id := by
      funext x
      rw [running_set_of_idle hidle x]
      exact propext (or_congr_right ⟨fun heq => by cases heq; rfl, fun heq => by rw [heq]⟩)
    refine ⟨h.later ?_ (hlater.trans hlater') ?_ (h.oneWorker_set ?_) length_set ?_,
      hlater.trans hlater'⟩
    · rw [hrunning]
      exact htake
    · rw [hrunning]
      rintro x (hrun | rfl)
      · exact h.known x hrun
      · intro hnone
        have hst := (hpromote.heaps.mem_ready x).mp hmem
        rw [TaskTable.status, Tasks.status, hlater.old x hnone] at hst
        cases hst
    · rintro x heq
      cases heq
      exact hnot
    · intro hex
      rcases mem_or_eq_of_mem_set hex with hex | heq
      · exact Or.inl hex
      · cases heq
  next =>
    split
    next hclosed =>
      have hzero : q.outstanding = 0 := by
        rw [← promote_outstanding now q.delayed.length q.toTaskTable]
        exact hclosed.2
      exact ⟨hexit hpromote hlater (Or.inr ⟨hclosed.1, hzero⟩), hlater⟩
    next => exact ⟨h.table hpromote hlater, hlater⟩

theorem Consistent.runs (h : q.Consistent) (hrun : q.running id) :
    ∃ t ctx, q.tasks.get? id = some t ∧ t.status = .running ∧ t.ctx = some ctx := by
  obtain ⟨t, ht⟩ := ne_none_iff_exists'.mp (h.known id hrun)
  obtain ⟨hst, hctx⟩ := (h.inv.ok id t ht).held hrun
  obtain ⟨ctx, hctx⟩ := isSome_iff_exists.mp hctx
  exact ⟨t, ctx, ht, hst, hctx⟩

/-- What `finish` makes of the task. -/
def finished (t : Task) (baseCancelled : Bool) : Outcome → Option TaskResult
  | .value v => some ⟨t.spec.id, .succeeded, v, none, t.attempts⟩
  | .error e =>
    if t.cancelRequested ∨ baseCancelled then
      some ⟨t.spec.id, .cancelled, none, some (.cancelledAfter e), t.attempts⟩
    else if t.attempts < t.spec.maxAttempts ∧ ¬ e.permanent then none
    else some ⟨t.spec.id, .failed, none, some (.handler e), t.attempts⟩

theorem Consistent.finish (h : q.Consistent) {t : Task} (hrun : q.workers[w]? = some (.running id))
    (ht : q.tasks.get? id = some t) (clock : String → Time) (outcome : Outcome) (retryAt : Time) :
    ∃ tt retries, q.finish clock w id outcome retryAt = .ok
        { q with toTaskTable := tt, workers := q.workers.set w .idle, retries := retries } ∧
      Consistent
        { q with toTaskTable := tt, workers := q.workers.set w .idle, retries := retries } ∧
      q.toTaskTable.Later tt ∧
      ∀ r, finished t q.baseCancelled outcome = some r →
        ∃ t', tt.tasks.get? id = some t' ∧ t'.result = r := by
  obtain ⟨t0, ctx, ht0, hst, hctx⟩ := h.runs ⟨w, hrun⟩
  rw [ht] at ht0
  obtain rfl := some.inj ht0
  have hok := h.inv.ok id t ht
  obtain ⟨h1, hlater1, ht1⟩ := h.inv.release_spec ht hst
  obtain ⟨tt1, htt1⟩ : ∃ tt1, tt1 = q.update id fun t => { t with ctx := none } := ⟨_, rfl⟩
  rw [← htt1] at h1 hlater1 ht1
  have htask1 : tt1.task id = { t with ctx := none } := TaskTable.task_of_get? ht1
  have hpos : 0 < t.attempts := hok.attempted (Or.inl hst)
  have hrunning : { q with workers := q.workers.set w .idle }.running =
      fun x => q.running x ∧ x ≠ id := by
    funext x
    exact propext (h.running_set hrun x)
  -- whatever becomes of the task, its worker is idle
  have hsettle : ∀ {tt : TaskTable}, Invariant (.rest (fun x => q.running x ∧ x ≠ id) q.deps) tt →
      tt1.Later tt → Consistent { q with toTaskTable := tt, workers := q.workers.set w .idle } := by
    intro tt hinv hlater
    apply h.later _ (hlater1.trans hlater) _ (h.oneWorker_set fun id heq => by cases heq)
      length_set
    · intro hex
      rcases mem_or_eq_of_mem_set hex with hex | heq
      · exact Or.inl hex
      · cases heq
    · rw [hrunning]
      exact hinv
    · rw [hrunning]
      exact fun x hx => h.known x hx.1
  have hfinal : ∀ (st : Status) (value : Option String) (err : Option TaskError), st.terminal →
      ∃ tt, tt1.finalizeLocked clock id st value err = .ok tt ∧
        Consistent { q with toTaskTable := tt, workers := q.workers.set w .idle } ∧
        q.toTaskTable.Later tt ∧
        ∃ t', tt.tasks.get? id = some t' ∧ t'.result = ⟨t.spec.id, st, value, err, t.attempts⟩ := by
    intro st value err hterminal
    obtain ⟨tt, hfinalize, hinv, hlater, hresult⟩ :=
      h1.finalizeLocked_spec ht1 (by show t.status.terminal = false; rw [hst]; rfl)
        (fun hx => hx.2 rfl) (fun x hx => hx) clock st hterminal (fun _ => hpos) value err
    exact ⟨tt, hfinalize, hsettle hinv hlater, hlater1.trans hlater, hresult⟩
  rw [Queue.finish, TaskTable.task_of_get? ht, hctx]
  rw [← htt1]
  cases outcome with
  | value v =>
    dsimp only
    obtain ⟨tt, hfinalize, hcons, hlater, hresult⟩ := hfinal .succeeded v none rfl
    refine ⟨tt, q.retries, by rw [hfinalize]; rfl, hcons, hlater, ?_⟩
    intro r hr
    cases hr
    exact hresult
  | error e =>
  dsimp only
  rw [htask1]
  by_cases hcancel : t.cancelRequested ∨ q.baseCancelled
  · obtain ⟨tt, hfinalize, hcons, hlater, hresult⟩ :=
      hfinal .cancelled none (some (.cancelledAfter e)) rfl
    rw [if_pos hcancel]
    refine ⟨tt, q.retries, by rw [hfinalize]; rfl, hcons, hlater, ?_⟩
    intro r hr
    rw [finished, if_pos hcancel] at hr
    cases hr
    exact hresult
  rw [if_neg hcancel]
  by_cases hretry : t.attempts < t.spec.maxAttempts ∧ ¬ e.permanent
  · rw [if_pos hretry]
    obtain ⟨hinv, hlater⟩ := h1.retry_spec ht1 hst (fun hx => hx.2 rfl)
      (by simpa using (not_or.mp hcancel).1) hretry.1 (some (.handler e)) retryAt (clock id)
    have hcons := hsettle hinv hlater
    refine ⟨_, q.retries + 1, rfl, ⟨hcons.inv, hcons.known, hcons.oneWorker, hcons.positive,
      hcons.pool, hcons.closing, hcons.exited, hcons.stopped⟩, hlater1.trans hlater, ?_⟩
    intro r hr
    rw [finished, if_neg hcancel, if_pos hretry] at hr
    cases hr
  rw [if_neg hretry]
  obtain ⟨tt, hfinalize, hcons, hlater, hresult⟩ :=
    hfinal .failed none (some (.handler e)) rfl
  refine ⟨tt, q.retries, by rw [hfinalize]; rfl, hcons, hlater, ?_⟩
  intro r hr
  rw [finished, if_neg hcancel, if_neg hretry] at hr
  cases hr
  exact hresult

end Queue

namespace Tasks

theorem live_eq_zero {tasks : Tasks} :
    tasks.live = 0 ↔ ∀ id t, tasks.get? id = some t → t.status.terminal := by
  rw [live, Dict.total, List.sum_eq_zero_iff_forall_eq_nat]
  constructor
  · intro h id t ht
    have hmem : t ∈ tasks.values := List.mem_map.mpr ⟨(id, t), Dict.mem_items.mpr ht, rfl⟩
    have hzero := h _ (List.mem_map.mpr ⟨t, hmem, rfl⟩)
    by_contra hopen
    rw [if_neg hopen] at hzero
    cases hzero
  · intro h x hx
    obtain ⟨t, hmem, rfl⟩ := List.mem_map.mp hx
    obtain ⟨⟨id, t'⟩, hitem, rfl⟩ := List.mem_map.mp hmem
    exact if_pos (h id t' (Dict.mem_items.mp hitem))

end Tasks

namespace Queue

variable {q : Queue} {c : Shutdown}

/-! ## Submit and Cancel -/

theorem Consistent.submitNew (h : q.Consistent) (hclosing : q.closing = false) {spec : TaskSpec}
    (hnew : q.tasks.get? spec.id = none) (hattempts : 0 < spec.maxAttempts)
    (hdeps : ∀ d ∈ spec.dependsOn, q.tasks.get? d ≠ none) (clock : String → Time) :
    ∃ tt, q.submitNew clock spec = .ok { q with toTaskTable := tt } ∧
      Consistent { q with toTaskTable := tt } ∧ q.toTaskTable.Keeps tt := by
  have hidle : ¬ q.running spec.id := fun hrun => h.known _ hrun hnew
  obtain ⟨tt', t', hsubmit, hinv, hkeeps, ht', hspec, hold⟩ :=
    h.inv.submitNew_spec hnew hidle hattempts hdeps clock
  refine ⟨tt', hsubmit, ?_, hkeeps⟩
  constructor
  · apply settle hinv
    intro x tx htx
    by_cases hx : x = spec.id
    · subst hx
      rw [ht'] at htx
      rw [Function.update_self, ← some.inj htx, hspec]
    rw [Function.update_of_ne hx]
    cases hget : q.tasks.get? x with
    | none =>
      rw [hold x hx hget] at htx
      cases htx
    | some t =>
      obtain ⟨t1, ht1, hlater⟩ := hkeeps x t hget
      rw [htx] at ht1
      rw [some.inj ht1, hlater.spec, deps_of_get? hget]
  · intro x hrun hnone
    obtain ⟨t, ht⟩ := ne_none_iff_exists'.mp (h.known x hrun)
    obtain ⟨t1, ht1, -⟩ := hkeeps x t ht
    rw [ht1] at hnone
    cases hnone
  · exact h.oneWorker
  · exact h.positive
  · exact h.pool
  · exact h.closing
  · intro hex
    rcases h.exited hex with hbase | hclosed
    · exact Or.inl hbase
    · rw [hclosing] at hclosed
      cases hclosed.1
  · intro hbase
    have hclosed := (h.stopped hbase).1
    rw [hclosing] at hclosed
    cases hclosed

theorem Consistent.submit (h : q.Consistent) (clock : String → Time) (spec : TaskSpec) :
    ∃ a tt seq, q.submit clock spec = .ok (a, { q with toTaskTable := tt, seq := seq }) ∧
      Consistent { q with toTaskTable := tt, seq := seq } ∧ q.toTaskTable.Keeps tt ∧
      (q.closing → tt = q.toTaskTable) := by
  have hsame : ∀ seq, Consistent { q with seq := seq } := fun seq =>
    ⟨h.inv, h.known, h.oneWorker, h.positive, h.pool, h.closing, h.exited, h.stopped⟩
  have hrefl : q.toTaskTable.Keeps q.toTaskTable := (TaskTable.Later.refl _).kept
  rw [Queue.submit]
  split
  · exact ⟨_, _, q.seq, rfl, h, hrefl, fun _ => rfl⟩
  -- `MaxAttempts` has its default, and the task an id
  obtain ⟨spec1, hspec1⟩ : ∃ s, s = if spec.maxAttempts ≤ 0 then { spec with maxAttempts := 3 }
    else spec := ⟨_, rfl⟩
  have hattempts1 : 0 < spec1.maxAttempts := by
    rw [hspec1]
    split
    · show (0 : Int) < 3
      decide
    · omega
  dsimp only
  rw [← hspec1]
  split
  · exact ⟨_, _, q.seq, rfl, h, hrefl, fun _ => rfl⟩
  next hclosing =>
  obtain ⟨spec2, hspec2⟩ : ∃ s, s = if spec1.id = "" then
    { spec1 with id := "task-" ++ toString (q.seq + 1) } else spec1 := ⟨_, rfl⟩
  have hattempts2 : 0 < spec2.maxAttempts := by
    rw [hspec2]
    split
    · exact hattempts1
    · exact hattempts1
  rw [← hspec2]
  split
  · exact ⟨_, _, q.seq + 1, rfl, hsame _, hrefl, fun _ => rfl⟩
  next hnew =>
  split
  · exact ⟨_, _, q.seq + 1, rfl, hsame _, hrefl, fun _ => rfl⟩
  next hfind =>
  have hdeps : ∀ d ∈ spec2.dependsOn, q.tasks.get? d ≠ none := by
    intro d hd hnone
    have := find?_eq_none.mp hfind d hd
    rw [hnone] at this
    exact this rfl
  obtain ⟨tt, hsubmit, hcons, hkeeps⟩ :=
    (hsame (q.seq + 1)).submitNew (by simpa using hclosing)
      (by simpa using hnew) hattempts2 hdeps clock
  refine ⟨.submitted spec2.id, tt, q.seq + 1, ?_, hcons, hkeeps,
    fun hclosed => absurd hclosed hclosing⟩
  rw [hsubmit]
  rfl

theorem Consistent.cancel (h : q.Consistent) (clock : String → Time) (id : String) :
    ∃ a tt, q.cancel clock id = .ok (a, { q with toTaskTable := tt }) ∧
      Consistent { q with toTaskTable := tt } ∧ q.toTaskTable.Later tt ∧
      (a = .cancel none → ∃ t, tt.tasks.get? id = some t ∧
        (t.status = .cancelled ∨ t.status = .running ∧ t.cancelRequested)) := by
  rw [Queue.cancel]
  split
  · exact ⟨_, _, rfl, h, .refl _, nofun⟩
  next t ht =>
  split
  · exact ⟨_, _, rfl, h, .refl _, nofun⟩
  next hopen =>
  rw [Bool.not_eq_true] at hopen
  have hok := h.inv.ok id t ht
  split
  next hst =>
    have hrun : q.running id := (hok.running hst).resolve_right fun hx => hx
    obtain ⟨ctx, hctx⟩ := isSome_iff_exists.mp (hok.held hrun).2
    rw [hctx]
    obtain ⟨hinv, hlater⟩ := h.inv.flag_spec ht hst { ctx with cancelled := true }
    have hsame : (q.update id fun t =>
          { t with cancelRequested := true, ctx := some { ctx with cancelled := true } }).tasks.get?
        id = some
          { t with cancelRequested := true, ctx := some { ctx with cancelled := true } } := by
      rw [TaskTable.update_tasks, TaskTable.task_of_get? ht, Dict.get?_set_self]
    exact ⟨_, _, rfl, h.table hinv hlater, hlater, fun _ => ⟨_, hsame, Or.inr ⟨hst, rfl⟩⟩⟩
  next hst =>
  have hidle : ¬ q.running id := fun hrun => hst (hok.held hrun).1
  obtain ⟨tt, hfinalize, hinv, hlater, t', ht', hresult⟩ :=
    h.inv.finalizeLocked_spec ht hopen hidle (fun x hx => False.elim hx) clock .cancelled rfl
      (fun hne => absurd rfl hne) none (some .cancelled)
  refine ⟨.cancel none, tt, ?_, h.table hinv hlater, hlater, fun _ =>
    ⟨t', ht', Or.inl (congrArg TaskResult.status hresult)⟩⟩
  rw [hfinalize]
  rfl

/-! ## Start and Shutdown -/

theorem Consistent.unstarted (h : q.Consistent) (hstarted : ¬ q.started) : q.workers = [] := by
  have hpool := h.pool
  rw [if_neg hstarted] at hpool
  exact eq_nil_of_length_eq_zero hpool

theorem start_started (q : Queue) : q.start.started := by
  rw [start]
  split
  next hstarted => exact hstarted
  next => rfl

theorem start_toTaskTable (q : Queue) : q.start.toTaskTable = q.toTaskTable := by
  rw [start]
  split <;> rfl

theorem start_shutdowns (q : Queue) : q.start.shutdowns = q.shutdowns := by
  rw [start]
  split <;> rfl

theorem Consistent.start (h : q.Consistent) : q.start.Consistent := by
  rw [Queue.start]
  split
  · exact h
  next hstarted =>
  have hempty := h.unstarted hstarted
  have hbefore : ∀ id, ¬ q.running id := by
    rintro id ⟨w, hw⟩
    rw [hempty] at hw
    simp at hw
  have hafter : ∀ (w : Nat) (id : String),
      (List.replicate q.workerCount Worker.idle)[w]? ≠ some (.running id) := by
    intro w id hw
    cases eq_of_mem_replicate (mem_of_getElem? hw)
  have hrunning :
      { q with started := true, workers := List.replicate q.workerCount .idle }.running =
        q.running := by
    funext id
    exact propext ⟨fun ⟨w, hw⟩ => absurd hw (hafter w id), fun hrun => absurd hrun (hbefore id)⟩
  constructor
  · rw [hrunning]
    exact h.inv
  · rw [hrunning]
    exact h.known
  · exact fun w _ id hw => absurd hw (hafter w id)
  · exact h.positive
  · exact length_replicate
  · exact fun c hc => ⟨(h.closing c hc).1, fun _ => rfl⟩
  · exact fun hex => by cases eq_of_mem_replicate hex
  · exact h.stopped

theorem Consistent.shutdown (h : q.Consistent) : q.shutdown.Consistent := by
  refine ⟨h.inv, h.known, h.oneWorker, h.positive, h.pool, ?_, ?_, ?_⟩
  · intro c hc
    refine ⟨rfl, fun hne => ?_⟩
    rcases mem_append.mp hc with hc | hc
    · exact (h.closing c hc).2 hne
    · rw [mem_singleton] at hc
      by_contra hstarted
      apply hne
      rw [hc]
      exact if_neg hstarted
  · exact fun hex => (h.exited hex).imp_right fun hclosed => ⟨rfl, hclosed.2⟩
  · exact fun hbase => ⟨rfl, (h.stopped hbase).2.imp_left (mem_append_left _)⟩

theorem mem_set_of_ne {calls : List Shutdown} {i : Nat} {c' d : Shutdown} (hc : c ∈ calls)
    (hi : calls[i]? = some d) (hne : c ≠ d) : c ∈ calls.set i c' := by
  obtain ⟨j, hj⟩ := mem_iff_getElem?.mp hc
  apply mem_of_getElem? (i := j)
  rw [getElem?_set_ne _, hj]
  rintro rfl
  rw [hi] at hj
  exact hne (some.inj hj).symm

theorem Consistent.call (h : q.Consistent) (base : Bool) {call : Nat} {d : Shutdown}
    (hcall : q.shutdowns[call]? = some d) (hstarted : q.started)
    (hbase : base → q.baseCancelled ∨ c = .stopping) (hkeep : q.baseCancelled → base)
    (hreturns : d = .stopping → c = .stopping ∨ q.outstanding = 0) :
    Consistent { q with baseCancelled := base, shutdowns := q.shutdowns.set call c } := by
  have hlt : call < q.shutdowns.length := (List.getElem?_eq_some_iff.mp hcall).1
  have hclosing : q.closing := (h.closing d (mem_of_getElem? hcall)).1
  refine ⟨h.inv, h.known, h.oneWorker, h.positive, h.pool, ?_, ?_, ?_⟩
  · exact fun _ _ => ⟨hclosing, fun _ => hstarted⟩
  · exact fun hex => (h.exited hex).imp_left hkeep
  intro hb
  refine ⟨hclosing, ?_⟩
  have hmem : c ∈ q.shutdowns.set call c := mem_set hlt _
  rcases hbase hb with hbefore | rfl
  · rcases (h.stopped hbefore).2 with hstopping | hzero
    · by_cases hd : d = .stopping
      · rcases hreturns hd with rfl | hzero
        · exact Or.inl hmem
        · exact Or.inr hzero
      · exact Or.inl (mem_set_of_ne hstopping hcall (Ne.symm hd))
    · exact Or.inr hzero
  · exact Or.inl hmem

theorem running_of_drained (hdrained : q.drained) (id : String) : ¬ q.running id := by
  rintro ⟨w, hw⟩
  have := List.all_eq_true.mp hdrained _ (mem_of_getElem? hw)
  simp at this

theorem Consistent.sweep (h : q.Consistent) {call : Nat} {order : List String}
    (hcall : q.shutdowns[call]? = some .stopping) (hdrained : q.drained)
    (horder : order.Perm q.tasks.keys) (clock : String → Time) :
    ∃ tt, q.sweep clock order = .ok tt ∧
      Consistent { q with toTaskTable := tt, shutdowns := q.shutdowns.set call .returned } ∧
      q.toTaskTable.Later tt ∧ tt.outstanding = 0 := by
  obtain ⟨tt, hsweep, hinv, hlater, hterminal⟩ :=
    h.inv.sweep_spec (running_of_drained hdrained) clock order
      fun id hid hnone => Dict.get?_eq_none.mp hnone (horder.mem_iff.mp hid)
  have hzero : tt.outstanding = 0 := by
    rw [hinv.outstanding, Int.natCast_eq_zero, Tasks.live_eq_zero]
    intro id t ht
    have hid : id ∈ order := by
      apply horder.mem_iff.mpr
      by_contra hnot
      rw [hlater.old id (Dict.get?_eq_none.mpr hnot)] at ht
      cases ht
    obtain ⟨t', ht', hst⟩ := hterminal id hid
    rw [ht] at ht'
    rwa [some.inj ht']
  refine ⟨tt, hsweep, ?_, hlater, hzero⟩
  have hstarted : q.started :=
    (h.closing .stopping (mem_of_getElem? hcall)).2 (by decide)
  exact (h.table hinv hlater).call (q := { q with toTaskTable := tt }) q.baseCancelled hcall
    hstarted Or.inl (fun hb => hb) fun _ => Or.inr hzero

/-! ## One step -/

/-- What a step does, whichever it is. -/
structure Stepped (q : Queue) (op : Op) (q' : Queue) : Prop where
  consistent : q'.Consistent
  keeps : q.toTaskTable.Keeps q'.toTaskTable
  /-- after a call of `Shutdown` there is no new task -/
  later : q.closing → q.toTaskTable.Later q'.toTaskTable
  /-- only its handler ends an attempt -/
  busy : ∀ (w : Nat) (id : String), q.workers[w]? = some (.running id) →
    q'.workers[w]? = some (.running id) ∨
      ∃ outcome retryAt clock, op = .finish w outcome retryAt clock
  /-- how a call of `Shutdown` returns -/
  returned : Shutdown.returned ∈ q'.shutdowns →
    Shutdown.returned ∈ q.shutdowns ∨ q'.outstanding = 0 ∨
      ∃ call, op = .shutdownDrained call ∧ q.shutdowns[call]? = some .draining ∧ q.drained

theorem Stepped.refl (h : q.Consistent) (op : Op) : Stepped q op q :=
  ⟨h, (TaskTable.Later.refl _).kept, fun _ => .refl _, fun _ _ hw => Or.inl hw, Or.inl⟩

theorem Stepped.of_later {tt : TaskTable} {op : Op} (h : Consistent { q with toTaskTable := tt })
    (hlater : q.toTaskTable.Later tt) : Stepped q op { q with toTaskTable := tt } :=
  ⟨h, hlater.kept, fun _ => hlater, fun _ _ hw => Or.inl hw, Or.inl⟩

theorem Consistent.busy_start (h : q.Consistent) {w : Nat} {id : String}
    (hw : q.workers[w]? = some (.running id)) : q.start.workers[w]? = some (.running id) := by
  rw [Queue.start]
  split
  · exact hw
  next hstarted =>
    rw [h.unstarted hstarted] at hw
    simp at hw

theorem acquire_shutdowns (q : Queue) (w : Nat) (now : Time) :
    (q.acquire w now).2.shutdowns = q.shutdowns := by
  rw [Queue.acquire]
  split
  · rfl
  · dsimp only
    split
    · rfl
    · split <;> rfl

theorem acquire_busy {w w' : Nat} {id : String} (now : Time) (hidle : q.workers[w]? = some .idle)
    (hw' : q.workers[w']? = some (.running id)) :
    (q.acquire w now).2.workers[w']? = some (.running id) := by
  have hne : w ≠ w' := by
        rintro rfl
        rw [hidle] at hw'
        cases hw'
  have hset : ∀ new, (q.workers.set w new)[w']? = some (.running id) := by
    intro new
    rw [getElem?_set_ne hne, hw']
  rw [Queue.acquire]
  split
  · exact hset _
  · dsimp only
    split
    · exact hset _
    · split
      · exact hset _
      · exact hw'

theorem returned_set {call : Nat} (hne : c ≠ .returned)
    (hmem : Shutdown.returned ∈ q.shutdowns.set call c) : Shutdown.returned ∈ q.shutdowns := by
  rcases mem_or_eq_of_mem_set hmem with hmem | heq
  · exact hmem
  · exact absurd heq.symm hne

theorem Consistent.step (h : q.Consistent) (op : Op) :
    ∃ a q', q.step op = .ok (a, q') ∧ Stepped q op q' := by
  have hdisabled : ∃ a q', (Except.ok (Answer.disabled, q) : Except Panic (Answer × Queue)) =
      .ok (a, q') ∧ Stepped q op q' := ⟨_, _, rfl, .refl h op⟩
  cases op with
  | start =>
    refine ⟨_, _, rfl, h.start, ?_, ?_, fun w id hw => Or.inl (h.busy_start hw), ?_⟩
    · rw [start_toTaskTable]
      exact (TaskTable.Later.refl _).kept
    · rw [start_toTaskTable]
      exact fun _ => .refl _
    · rw [start_shutdowns]
      exact Or.inl
  | submit spec clock =>
    obtain ⟨a, tt, seq, hstep, hcons, hkeeps, hclosed⟩ := h.submit clock spec
    refine ⟨a, _, hstep, hcons, hkeeps, fun hclosing => ?_, fun _ _ hw => Or.inl hw, Or.inl⟩
    rw [hclosed hclosing]
    exact .refl _
  | cancel id clock =>
    obtain ⟨a, tt, hstep, hcons, hlater, -⟩ := h.cancel clock id
    exact ⟨a, _, hstep, .of_later hcons hlater⟩
  | acquire w now =>
    rw [Queue.step]
    split
    next hidle =>
      obtain ⟨hcons, hlater⟩ := h.acquire hidle now
      refine ⟨_, (q.acquire w now).2, rfl, hcons, hlater.kept, fun _ => hlater,
        fun w' id hw' => Or.inl (acquire_busy now hidle hw'), ?_⟩
      rw [acquire_shutdowns]
      exact Or.inl
    next => exact hdisabled
  | finish w outcome retryAt clock =>
    rw [Queue.step]
    split
    next hrun =>
      obtain ⟨t, _, ht, -⟩ := h.runs ⟨w, hrun⟩
      obtain ⟨tt, retries, hstep, hcons, hlater, -⟩ := h.finish hrun ht clock outcome retryAt
      refine ⟨.done, _, by rw [hstep]; rfl, hcons, hlater.kept, fun _ => hlater, ?_, Or.inl⟩
      intro w' id' hw'
      by_cases hw : w = w'
      · exact Or.inr ⟨outcome, retryAt, clock, by rw [hw]⟩
      · refine Or.inl ?_
        rw [getElem?_set_ne hw, hw']
    next => exact hdisabled
  | shutdown =>
    refine ⟨_, _, rfl, h.shutdown, (TaskTable.Later.refl _).kept, fun _ => .refl _,
      fun _ _ hw => Or.inl hw, fun hmem => ?_⟩
    rcases mem_append.mp hmem with hmem | hmem
    · exact Or.inl hmem
    · rw [mem_singleton] at hmem
      split at hmem <;> cases hmem
  | shutdownStart call =>
    rw [Queue.step]
    split
    next hcall =>
      rw [← start_shutdowns] at hcall ⊢
      refine ⟨_, _, rfl, h.start.call q.start.baseCancelled hcall q.start_started Or.inl
        (fun hb => hb) nofun, ?_, ?_, fun w id hw => Or.inl (h.busy_start hw), ?_⟩
      · show q.toTaskTable.Keeps q.start.toTaskTable
        rw [start_toTaskTable]
        exact (TaskTable.Later.refl _).kept
      · show _ → q.toTaskTable.Later q.start.toTaskTable
        rw [start_toTaskTable]
        exact fun _ => .refl _
      · intro hmem
        rw [← start_shutdowns]
        exact Or.inl (returned_set (by decide) hmem)
    next => exact hdisabled
  | shutdownDrained call =>
    rw [Queue.step]
    split
    next hcall =>
      have hstarted : q.started :=
        (h.closing .draining (mem_of_getElem? hcall.1)).2 (by decide)
      exact ⟨_, _, rfl, h.call q.baseCancelled hcall.1 hstarted Or.inl (fun hb => hb) nofun,
        (TaskTable.Later.refl _).kept, fun _ => .refl _, fun _ _ hw => Or.inl hw,
        fun _ => Or.inr (Or.inr ⟨call, rfl, hcall⟩)⟩
    next => exact hdisabled
  | shutdownExpired call =>
    rw [Queue.step]
    split
    next hcall =>
      have hstarted : q.started :=
        (h.closing .draining (mem_of_getElem? hcall)).2 (by decide)
      exact ⟨_, _, rfl, h.call true hcall hstarted (fun _ => Or.inr rfl) (fun _ => rfl)
        (fun _ => Or.inl rfl), (TaskTable.Later.refl _).kept, fun _ => .refl _,
        fun _ _ hw => Or.inl hw, fun hmem => Or.inl (returned_set (by decide) hmem)⟩
    next => exact hdisabled
  | shutdownSweep _ _ clock =>
    rw [Queue.step]
    split
    next hcall =>
      obtain ⟨tt, hsweep, hcons, hlater, hzero⟩ := h.sweep hcall.1 hcall.2.1 hcall.2.2 clock
      exact ⟨.done, _, by rw [hsweep]; rfl, hcons, hlater.kept, fun _ => hlater,
        fun _ _ hw => Or.inl hw, fun _ => Or.inr (Or.inl hzero)⟩
    next => exact hdisabled

end Queue

end InterviewPrep.TaskQueue
