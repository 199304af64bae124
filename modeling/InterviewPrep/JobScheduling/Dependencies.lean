/-
  What dependencies promise: a job starts after all of its dependencies completed, and the
  jobs that depend on one that did not complete are cancelled with it and never start
  (`run_dependencies`).  Both follow from what holds of a dependency after every step
  (`Respected.met`): it completed, or it is unmet still, or the job was cancelled.
-/
import InterviewPrep.JobScheduling.Conservation

namespace InterviewPrep.JobScheduling

open Lib List

/-! ## Statuses and notifications -/

/-- The job ended and is not completed. -/
def JobStatus.Incomplete (status : JobStatus) : Prop :=
  status = .failed ∨ status = .timedOut ∨ status = .cancelled

theorem JobStatus.Incomplete.isTerminal {status : JobStatus} (h : status.Incomplete) :
    status.isTerminal = true ∧ status ≠ .completed := by
  rcases h with rfl | rfl | rfl <;> exact ⟨rfl, by decide⟩

theorem Follows.no_other {first last : JobStatus} {ns : List Notification}
    (h : Follows first ns last)
    {n : Notification} (hn : n ∈ ns) (hterminal : n.new.isTerminal = true) : n.new = last := by
  induction ns generalizing first with
  | nil => cases hn
  | cons _ _ ih =>
    rcases mem_cons.mp hn with rfl | hn
    · exact (h.2.2.terminal hterminal).symm
    · exact ih h.2.2 hn

theorem split_append {α : Type} {xs more pre post : List α} {x : α}
    (h : xs ++ more = pre ++ x :: post) :
    (∃ post', xs = pre ++ x :: post') ∨ x ∈ more ∧ ∀ y ∈ xs, y ∈ pre := by
  rcases append_eq_append_iff.mp h with ⟨between, rfl, hmore⟩ | ⟨between, rfl, hpost⟩
  · refine .inr ⟨?_, fun y hy => mem_append_left _ hy⟩
    rw [hmore]
    simp
  cases between with
  | nil =>
    rw [nil_append] at hpost
    refine .inr ⟨?_, fun y hy => by simpa using hy⟩
    rw [← hpost]
    exact mem_cons_self
  | cons _ between =>
    rw [cons_append, List.cons.injEq] at hpost
    obtain ⟨rfl, rfl⟩ := hpost
    exact .inl ⟨between, rfl⟩

namespace JobScheduler

variable {K : Type} [LinearOrder K] {s s' : JobScheduler K} {trace trace' : List SchedulerEvent}
  {id d : JobId}

/-! ## After every step -/

/-- `id` was submitted as depending on `d`. -/
def DependsOn (trace : List SchedulerEvent) (id d : JobId) : Prop :=
  ∃ deps, .submitted id deps ∈ trace ∧ d ∈ deps

structure Respected (trace : List SchedulerEvent) (s : JobScheduler K) : Prop where
  met : ∀ id d, DependsOn trace id d → s.status d = .completed ∨ s.status id = .cancelled ∨
    ∃ unmet, s.blocked.get? id = some unmet ∧ d ∈ unmet
  /-- before a job started, its dependency had completed -/
  order : ∀ id d, DependsOn trace id d → ∀ pre old post,
    s.notified = pre ++ ⟨id, old, .running⟩ :: post → ∃ old', ⟨d, old', .completed⟩ ∈ pre

variable {as : List SchedulerStep} {e : SchedulerEvent}

theorem DependsOn.append_inv (h : DependsOn (trace ++ [e]) id d) :
    DependsOn trace id d ∨ ∃ deps, e = .submitted id deps ∧ d ∈ deps := by
  obtain ⟨deps, hmem, hd⟩ := h
  rcases mem_append.mp hmem with hmem | hmem
  · exact .inl ⟨deps, hmem, hd⟩
  · exact .inr ⟨deps, (mem_singleton.mp hmem).symm, hd⟩

omit [LinearOrder K] in
theorem Consistent.completed_note {stack : List JobId} {loose : Option JobId}
    (h : Consistent s stack loose) (hd : s.status d = .completed) :
    ∃ old, ⟨d, old, .completed⟩ ∈ s.notified := by
  have hpath := h.path d
  rw [hd] at hpath
  obtain ⟨n, hn, hnew⟩ := hpath.mem_of_ne (by decide)
  obtain ⟨hmem, hjob⟩ := mem_filter.mp hn
  obtain rfl : n.job = d := by simpa using hjob
  exact ⟨n.old, hnew ▸ hmem⟩

theorem Respected.step (h : Respected trace s) (hs : Consistent s [] none) {a : SchedulerStep}
    (hok : s.step a = .ok (e, s')) : Respected (trace ++ [e]) s' := by
  obtain ⟨lost, hstep, -⟩ := step_stepped hs hok
  have hkeep : ∀ j status, s.status j = status → status.isTerminal = true →
      s'.status j = status := by
    intro j status hj hterminal
    refine (hstep.progress.terminal j ?_).trans hj
    rw [not_live, hj]
    exact hterminal
  refine ⟨fun id d hdep => ?_, fun id d hdep pre old post hnotified => ?_⟩
  · rcases hdep.append_inv with hdep | ⟨deps, rfl, hd⟩
    · rcases h.met id d hdep with hcompleted | hcancelled | ⟨unmet, hunmet, hd⟩
      · exact .inl (hkeep d _ hcompleted rfl)
      · exact .inr (.inl (hkeep id _ hcancelled rfl))
      · rcases hstep.progress.unmet id unmet d hunmet hd with hstill | hcancelled | hcompleted
        · exact .inr (.inr hstill)
        · exact .inr (.inl hcancelled)
        · exact .inl hcompleted
    · exact (hstep.admitted id deps rfl).2.waits d (mem_dedup.mpr hd)
  rcases hdep.append_inv with hdep | ⟨deps, rfl, hd⟩
  · -- a job that starts in this step waits for nothing
    rcases hstep.progress.notes with ⟨more, heq, hquiet⟩ | ⟨j, old', heq, hlive, -, hnone⟩
    · rcases split_append (heq.symm.trans hnotified) with ⟨post', hold⟩ | ⟨hmem, -⟩
      · exact h.order id d hdep pre old post' hold
      · exact absurd rfl (hquiet _ hmem)
    rcases split_append (heq.symm.trans hnotified) with ⟨post', hold⟩ | ⟨hmem, hpre⟩
    · exact h.order id d hdep pre old post' hold
    obtain rfl : id = j := congrArg Notification.job (mem_singleton.mp hmem)
    have hcompleted : s.status d = .completed := by
      rcases h.met id d hdep with hcompleted | hcancelled | ⟨unmet, hunmet, -⟩
      · exact hcompleted
      · rw [Live, hcancelled] at hlive
        cases hlive
      · rw [hnone] at hunmet
        cases hunmet
    obtain ⟨old'', hnote⟩ := hs.completed_note hcompleted
    exact ⟨old'', hpre _ hnote⟩
  · -- a job that is submitted did not start before or in this step
    obtain ⟨herror, hadmitted⟩ := hstep.admitted id deps rfl
    obtain ⟨hid, hpending, -⟩ := submitError_eq_none herror
    have hunseen := (hs.unseen id hid (by rw [Live, hpending]; rfl)).2.2
    obtain ⟨more, heq, hquiet⟩ := hadmitted.quiet
    rcases split_append (heq.symm.trans hnotified) with ⟨post', hold⟩ | ⟨hmem, -⟩
    · exact absurd rfl (hunseen ⟨id, old, .running⟩ (by rw [hold]; simp))
    · exact absurd rfl (hquiet _ hmem)

/-! ## Runs -/

/-- A run starts no job before those it depends on have completed. -/
theorem run_respected (h : Respected trace s) (hr : Reached trace s)
    (hrun : runSteps JobScheduler.step s as = .ok (trace', s')) :
    Respected (trace ++ trace') s' := by
  induction as generalizing s trace trace' with
  | nil =>
    cases hrun
    rwa [append_nil]
  | cons _ _ ih =>
    obtain ⟨e, t, trace'', hok, hrun', rfl⟩ := runSteps_cons_inv hrun
    have ht := ih (h.step hr.consistent hok) (hr.step hok) hrun'
    rwa [append_assoc] at ht

omit [LinearOrder K] in
theorem Respected.cancelled (h : Respected trace s) (hs : Consistent s [] none)
    (hdep : DependsOn trace id d) (hd : JobStatus.Incomplete (s.status d)) :
    s.status id = .cancelled := by
  rcases h.met id d hdep with hcompleted | hcancelled | ⟨unmet, hunmet, hmem⟩
  · exact absurd hcompleted hd.isTerminal.2
  · exact hcancelled
  · rcases (hs.unmet id unmet hunmet).2.2 d hmem with ⟨hlive, -⟩ | hstack
    · rw [Live, hd.isTerminal.1] at hlive
      cases hlive
    · cases hstack

omit [LinearOrder K] in
theorem Respected.cancelled_trans (h : Respected trace s) (hs : Consistent s [] none)
    (hdep : Relation.TransGen (DependsOn trace) id d) (hd : JobStatus.Incomplete (s.status d)) :
    s.status id = .cancelled := by
  induction hdep using Relation.TransGen.head_induction_on with
  | single hdep => exact h.cancelled hs hdep hd
  | head hdep _ ih => exact h.cancelled hs hdep (.inr (.inr ih))

omit [LinearOrder K] in
theorem Respected.not_started (h : Respected trace s) (hs : Consistent s [] none)
    (hdep : DependsOn trace id d) (hd : JobStatus.Incomplete (s.status d)) :
    ∀ n ∈ s.notes id, n.new ≠ .running := by
  rintro ⟨job, old, new⟩ hn rfl
  obtain ⟨hmem, hjob⟩ := mem_filter.mp hn
  obtain rfl : job = id := by simpa using hjob
  obtain ⟨pre, post, heq⟩ := append_of_mem hmem
  obtain ⟨old', hnote⟩ := h.order job d hdep pre old post heq
  have hcompleted : ⟨d, old', .completed⟩ ∈ s.notes d := by
    refine mem_filter.mpr ⟨?_, by simp⟩
    rw [heq]
    exact mem_append_left _ hnote
  exact hd.isTerminal.2 ((hs.path d).no_other hcompleted rfl).symm

end JobScheduler

end InterviewPrep.JobScheduling
