/-
  Every step of the scheduler keeps it consistent, and no step ends in an error that the
  methods do not document (`step_spec`).  So in every run in which no retry's delay raises, a
  submitted job that is not terminal is in exactly one place, and the counter of unfinished jobs and
  the idle event say the truth (`run_conserved`).  After 1025 failed attempts the delay does raise,
  and the job is in no place (`conserved_loses`).
-/
import InterviewPrep.JobScheduling.Cascade

namespace InterviewPrep.JobScheduling

open Lib Dict List Option

namespace JobScheduler

variable {K : Type} [LinearOrder K] {s s' : JobScheduler K} {id : JobId} {stack : List JobId}
  {loose loose' : Option JobId} {status : JobStatus} {e : SchedulerEvent}
  {trace : List SchedulerEvent}

/-! ## Changes that keep the tables -/

section

omit [LinearOrder K]

theorem Consistent.congr (h : Consistent s stack loose) (hjobs : s'.jobs = s.jobs)
    (hstatus : ∀ j, s'.status j = s.status j) (hblocked : s'.blocked = s.blocked)
    (hdependents : s'.dependents = s.dependents) (hunfinished : s'.unfinished = s.unfinished)
    (hidle : s'.idle = s.idle) (hfinished : s'.finished = s.finished)
    (hnotified : s'.notified = s.notified)
    (hplaces : ∀ j, s.Live j → loose' ≠ some j → s'.places j = s.places j ∧
      s'.inHand j = s.inHand j)
    (hdead : ∀ j, ¬ s.Live j → s'.inHand j = 0)
    (hloose : ∀ j, loose' = some j → j ∈ s.jobs) (hmore : ∀ j, loose' ≠ some j → loose ≠ some j) :
    Consistent s' stack loose' := by
  have hlive : ∀ j, s'.Live j ↔ s.Live j := fun j => Live.of_status (hstatus j)
  refine ⟨hjobs ▸ h.nodup, fun j hj hjlive => ?_, fun j hjdead => ?_, fun j hj hjlive hne => ?_,
    fun j u hu => ?_, fun d l hl => ?_, ?_, ?_, fun j hj => ?_, fun j => ?_⟩
  · rw [hjobs] at hj
    rw [hlive] at hjlive
    obtain ⟨hpending, hzero, hnotes⟩ := h.unseen j hj hjlive
    have hp := (hplaces j hjlive fun heq => hj (hloose j heq)).1
    exact ⟨(hstatus j).trans hpending, hp.trans hzero, hnotified ▸ hnotes⟩
  · rw [hlive] at hjdead
    exact ⟨hblocked ▸ (h.dead j hjdead).1, hdead j hjdead⟩
  · rw [hjobs] at hj
    rw [hlive] at hjlive
    obtain ⟨hp, ha⟩ := hplaces j hjlive hne
    rw [hp, ha, hstatus]
    exact h.place j hj hjlive (hmore j hne)
  · rw [hblocked] at hu
    rw [hdependents, hjobs]
    simp only [hlive]
    exact h.unmet j u hu
  · rw [hdependents] at hl
    rw [hblocked]
    simp only [hlive]
    exact h.waiting d l hl
  · have hcount : s'.liveCount = s.liveCount := by
      rw [liveCount, hjobs]
      exact countP_congr fun j _ => by rw [hstatus]
    rw [hunfinished, hcount]
    exact h.count
  · rw [hidle, hunfinished]
    exact h.idle
  · rw [hfinished] at hj
    rw [hlive]
    exact h.finished j hj
  · rw [notes, hnotified, hstatus]
    exact h.path j

theorem Consistent.modify (h : Consistent s stack loose) (hloose : ∀ j, loose = some j → j ∈ s.jobs)
    (id : JobId) {f : Job → Job} (hf : ∀ job, (f job).status = job.status) :
    Consistent (s.modify id f) stack loose :=
  h.congr rfl (status_modify_same s id hf) rfl rfl rfl rfl rfl rfl (fun _ _ _ => ⟨rfl, rfl⟩)
    (fun j hj => (h.dead j hj).2) hloose fun _ hne => hne

theorem Consistent.settle (h : Consistent s stack (some id))
    (hplace : s.Live id → s.places id = 1 ∧ (s.status id = .running ↔ 0 < s.inHand id)) :
    Consistent s stack none := by
  refine ⟨h.nodup, h.unseen, h.dead, fun j hj hjlive _ => ?_, h.unmet, h.waiting, h.count, h.idle,
    h.finished, h.path⟩
  by_cases hji : j = id
  · subst hji
    exact hplace hjlive
  · exact h.place j hj hjlive fun heq => hji (some.inj heq).symm

/-- The state after a transition. -/
def moved (s : JobScheduler K) (id : JobId) (status : JobStatus) : JobScheduler K :=
  { s.modify id fun job => { job with status } with
    notified := s.notified ++ [⟨id, s.status id, status⟩] }

theorem transition_eq (hstatus : status ∈ transitions (s.status id)) :
    s.transition id status = .ok (s.moved id status) := by
  rw [transition, if_neg (not_not.mpr hstatus)]
  rfl

theorem moved_status (s : JobScheduler K) (id : JobId) (status : JobStatus) (j : JobId) :
    (s.moved id status).status j = if j = id then status else s.status j :=
  status_modify s id (fun job => { job with status }) j

theorem moved_notes (s : JobScheduler K) (id : JobId) (status : JobStatus) (j : JobId) :
    (s.moved id status).notes j = s.notes j ++ if j = id then [⟨id, s.status id, status⟩]
    else [] := by
  show (s.notified ++ [_]).filter _ = _
  rw [filter_append, ← notes]
  by_cases h : j = id
  · subst h
    simp
  · simp [h, Ne.symm h]

theorem Consistent.moved (h : Consistent s stack (some id)) (hid : id ∈ s.jobs) (hlive : s.Live id)
    (hstatus : status ∈ transitions (s.status id)) (hterminal : status.isTerminal = false) :
    Consistent (s.moved id status) stack (some id) := by
  have hlives : ∀ j, (s.moved id status).Live j ↔ s.Live j := by
    intro j
    rw [Live, moved_status]
    by_cases hji : j = id
    · rw [if_pos hji, hji]
      exact ⟨fun _ => hlive, fun _ => hterminal⟩
    · rw [if_neg hji, Live]
  refine ⟨h.nodup, fun j hj hjlive => ?_, fun j hdead => ?_, fun j hj hjlive hne => ?_,
    fun j u hu => ?_, fun d l hl => ?_, ?_, h.idle, fun j hj => ?_, fun j => ?_⟩
  · have hji : j ≠ id := fun heq => hj (heq ▸ hid)
    obtain ⟨hpending, hzero, hnotes⟩ := h.unseen j hj ((hlives j).mp hjlive)
    refine ⟨?_, hzero, fun n hn => ?_⟩
    · rw [moved_status, if_neg hji]
      exact hpending
    · rcases mem_append.mp hn with hn | hn
      · exact hnotes n hn
      · rw [mem_singleton.mp hn]
        exact Ne.symm hji
  · exact h.dead j fun hjlive => hdead ((hlives j).mpr hjlive)
  · have hji : j ≠ id := fun heq => hne (congrArg some heq.symm)
    rw [moved_status, if_neg hji]
    exact h.place j hj ((hlives j).mp hjlive) hne
  · simp only [hlives]
    exact h.unmet j u hu
  · simp only [hlives]
    exact h.waiting d l hl
  · have hcount : (s.moved id status).liveCount = s.liveCount := by
      refine countP_congr fun j _ => ?_
      have hj := hlives j
      simp only [Live] at hj
      rw [Bool.not_eq_true', Bool.not_eq_true', hj]
    rw [hcount]
    exact h.count
  · rw [hlives]
    exact h.finished j hj
  · rw [moved_notes, moved_status]
    by_cases hji : j = id
    · subst hji
      rw [if_pos rfl, if_pos rfl]
      exact (h.path j).append ⟨rfl, hstatus, rfl⟩
    · rw [if_neg hji, if_neg hji, append_nil]
      exact h.path j

theorem none_of_places (hzero : s.places id = 0) : s.blocked.get? id = none ∧ s.inHand id = 0 := by
  rw [places] at hzero
  refine ⟨?_, by omega⟩
  rw [← toList_eq_nil_iff, ← length_eq_zero_iff]
  omega

end

theorem Consistent.enqueue (h : Consistent s stack (some id)) (hid : id ∈ s.jobs)
    (hzero : s.places id = 0) (hrunning : s.status id ≠ .running) (now : ℚ) :
    Consistent (s.enqueue id now) stack none := by
  have hfields := enqueue_eq s id now
  have hinHand : ∀ j, (s.enqueue id now).inHand j = s.inHand j := by
    intro j
    rw [hfields]
    rfl
  have hnone := (none_of_places hzero).2
  have hloose : Consistent (s.enqueue id now) stack (some id) := by
    refine h.congr (by rw [hfields]) (status_enqueue s id now) (by rw [hfields]) (by rw [hfields])
      (by rw [hfields]) (by rw [hfields]) (by rw [hfields]) (by rw [hfields]) (fun j hj hne => ?_)
      (fun j hj => (hinHand j).trans (h.dead j hj).2) (fun j hj => some.inj hj ▸ hid)
      fun _ hne => hne
    rw [places_enqueue, if_neg fun heq => hne (congrArg some heq.symm), hinHand]
    exact ⟨rfl, rfl⟩
  refine hloose.settle fun _ => ⟨?_, ?_⟩
  · rw [places_enqueue, if_pos rfl, hzero]
  · rw [status_enqueue, hinHand, hnone]
    simp [hrunning]

/-! ## What a step does to the dependencies -/

/-- What every step does: a terminal status stays, a dependency is met by its completion only, and a
    job that starts waits for none. `new` is the job it submits, `lost` what its worker leaves. -/
structure Progress (new : Option JobId) (lost : List JobId) (s s' : JobScheduler K) : Prop where
  terminal : ∀ j, ¬ s.Live j → s'.status j = s.status j
  unmet : ∀ j u d, s.blocked.get? j = some u → d ∈ u →
    (∃ u', s'.blocked.get? j = some u' ∧ d ∈ u') ∨ s'.status j = .cancelled ∨
    s'.status d = .completed
  blocked : ∀ j u', s'.blocked.get? j = some u' →
    (∃ u, s.blocked.get? j = some u ∧ u' ⊆ u) ∨ new = some j
  jobs : ∀ j ∈ s'.jobs, j ∈ s.jobs ∨ new = some j
  kept : ∀ j, j ∈ s.jobs ∨ new = some j → s'.Live j → j ∈ s'.jobs
  notes : (∃ more, s'.notified = s.notified ++ more ∧ ∀ n ∈ more, n.new ≠ .running) ∨
    ∃ j old, s'.notified = s.notified ++ [⟨j, old, .running⟩] ∧ s.Live j ∧ j ∈ s.jobs ∧
      s.blocked.get? j = none
  abandoned : s'.abandoned = s.abandoned ++ lost

omit [LinearOrder K] in
theorem Effect.quiet (h : Effect s s') :
    ∃ more, s'.notified = s.notified ++ more ∧ ∀ n ∈ more, n.new ≠ .running := by
  obtain ⟨more, heq, hmore⟩ := h.notes
  refine ⟨more, heq, fun n hn hrunning => ?_⟩
  have hterminal := hmore n hn
  rw [hrunning] at hterminal
  cases hterminal

omit [LinearOrder K] in
theorem Effect.progress {t : JobScheduler K} {new : Option JobId} (h : Effect t s')
    (hstatus : ∀ j, t.status j = s.status j) (hblocked : t.blocked = s.blocked)
    (hjobs : ∀ j, j ∈ t.jobs ↔ j ∈ s.jobs ∨ new = some j) (hnotified : t.notified = s.notified)
    (habandoned : t.abandoned = s.abandoned) : Progress new [] s s' where
  terminal j hj := (h.terminal fun hl => hj ((Live.of_status (hstatus j)).mp hl)).trans (hstatus j)
  unmet j u d hu hd := h.unmet j u d (hblocked ▸ hu) hd
  blocked j u' hu' := .inl (hblocked ▸ h.blocked j u' hu')
  jobs j hj := (hjobs j).mp (h.jobs j hj)
  kept j hj hlive := h.kept j ((hjobs j).mpr hj) hlive
  notes := .inl (hnotified ▸ h.quiet)
  abandoned := by rw [h.abandoned, habandoned, append_nil]

omit [LinearOrder K] in
theorem Progress.of_same {new : Option JobId} {lost : List JobId}
    (hstatus : ∀ j, s'.status j = s.status j)
    (hblocked : ∀ j, s'.blocked.get? j = s.blocked.get? j ∨
      new = some j ∧ s.blocked.get? j = none)
    (hjobs : ∀ j, j ∈ s'.jobs ↔ j ∈ s.jobs ∨ new = some j) (hnotified : s'.notified = s.notified)
    (habandoned : s'.abandoned = s.abandoned ++ lost) : Progress new lost s s' where
  terminal j _ := hstatus j
  unmet j u _ hu hd := by
    rcases hblocked j with heq | ⟨-, hnone⟩
    · exact .inl ⟨u, heq.trans hu, hd⟩
    · rw [hnone] at hu
      cases hu
  blocked j u' hu' := by
    rcases hblocked j with heq | ⟨hnew, -⟩
    · exact .inl ⟨u', heq.symm.trans hu', fun _ hx => hx⟩
    · exact .inr hnew
  jobs j hj := (hjobs j).mp hj
  kept j hj _ := (hjobs j).mpr hj
  notes := .inl ⟨[], by rw [hnotified, append_nil], nofun⟩
  abandoned := habandoned

/-! ## submit -/

omit [LinearOrder K] in
theorem submitError_eq_none {deps : List JobId} (h : s.submitError id deps = none) :
    id ∉ s.jobs ∧ s.status id = .pending ∧ ∀ d ∈ deps, d ∈ s.jobs := by
  unfold submitError at h
  split at h
  · cases h
  split at h
  case isTrue => cases h
  case isFalse hnew =>
  rw [not_or, not_or, not_not] at hnew
  split at h
  case h_2 => cases h
  case h_1 hnil =>
  refine ⟨hnew.1, hnew.2.1, fun d hd => ?_⟩
  by_contra hnot
  have hmem : d ∈ deps.filter (· ∉ s.jobs) :=
    mem_filter.mpr ⟨hd, decide_eq_true hnot⟩
  rw [hnil] at hmem
  cases hmem

/-- The state after `submit` has registered the job. -/
def registered (s : JobScheduler K) (id : JobId) (delay : ℚ) (clock : Clock) : JobScheduler K :=
  { s.modify id fun job =>
      { job with seq := s.seq, submittedAt := clock.now, runAt := clock.now + max 0 delay } with
    seq := s.seq + 1, jobs := s.jobs ++ [id], unfinished := s.unfinished + 1, idle := false }

/-- `id` is appended to the jobs that wait for each of `unmet`. -/
def addWaiting (dependents : Dict JobId (List JobId)) (id : JobId) (unmet : List JobId) :
    Dict JobId (List JobId) :=
  unmet.foldl (fun dependents d => dependents.set d ((dependents.get? d).getD [] ++ [id]))
    dependents

theorem admitJob_eq (s : JobScheduler K) (id : JobId) (delay : ℚ) (deps : List JobId)
    (clock : Clock) :
    s.admitJob id delay deps clock =
      match deps.find? fun d => ((s.registered id delay clock).status d).isTerminal ∧
        (s.registered id delay clock).status d ≠ .completed with
      | some d =>
        (s.registered id delay clock).finishJob id .cancelled (some (.upstreamIncomplete d)) clock
      | none =>
        if deps.filter (fun d => (s.registered id delay clock).status d ≠ .completed) = [] then
          .ok ((s.registered id delay clock).enqueue id (clock.enqueue id))
        else .ok { s.registered id delay clock with
          blocked := s.blocked.set id
            (deps.filter fun d => (s.registered id delay clock).status d ≠ .completed)
          dependents := addWaiting s.dependents id
            (deps.filter fun d => (s.registered id delay clock).status d ≠ .completed) } :=
  rfl

section

omit [LinearOrder K]

theorem registered_status (s : JobScheduler K) (id : JobId) (delay : ℚ)
    (clock : Clock) (j : JobId) :
    (s.registered id delay clock).status j = s.status j :=
  status_modify_same s id (f := fun job =>
    { job with seq := s.seq, submittedAt := clock.now, runAt := clock.now + max 0 delay })
    (fun _ => rfl) j

theorem get?_addWaiting (dependents : Dict JobId (List JobId)) (id : JobId) {unmet : List JobId}
    (hnodup : unmet.Nodup) (d : JobId) :
    (addWaiting dependents id unmet).get? d =
      if d ∈ unmet then some ((dependents.get? d).getD [] ++ [id]) else dependents.get? d := by
  induction unmet generalizing dependents with
  | nil => rfl
  | cons d' _ ih =>
    obtain ⟨hnot, hnodup⟩ := nodup_cons.mp hnodup
    rw [addWaiting, foldl_cons, ← addWaiting, ih _ hnodup]
    by_cases hd : d = d'
    · subst hd
      rw [if_neg hnot, if_pos mem_cons_self, get?_set_self]
    · rw [get?_set_of_ne _ _ hd]
      simp only [mem_cons, hd, false_or]

theorem registered_consistent (h : Consistent s [] none) (hid : id ∉ s.jobs)
    (hpending : s.status id = .pending) (delay : ℚ) (clock : Clock) :
    Consistent (s.registered id delay clock) [] (some id) := by
  have hstatus := registered_status s id delay clock
  have hlive : ∀ j, (s.registered id delay clock).Live j ↔ s.Live j :=
    fun j => Live.of_status (hstatus j)
  have hidlive : s.Live id := by rw [Live, hpending]; rfl
  have hjobs : ∀ j, j ∈ (s.registered id delay clock).jobs ↔ j ∈ s.jobs ∨ j = id := by
    intro j
    show j ∈ s.jobs ++ [id] ↔ _
    rw [mem_append, mem_singleton]
  have hcount : (s.registered id delay clock).liveCount = s.liveCount + 1 := by
    show (s.jobs ++ [id]).countP _ = _
    have hnew : (!JobStatus.pending.isTerminal) = true := rfl
    rw [countP_append, countP_singleton, hstatus, hpending, if_pos hnew, liveCount]
    congr 1
    exact countP_congr fun j _ => by rw [hstatus]
  have hunfinished := h.count
  refine ⟨?_, fun j hj hjlive => ?_, fun j hj => ?_, fun j hj hjlive hne => ?_, fun j u hu => ?_,
    fun d l hl => ?_, ?_, ?_, fun j hj => ?_, fun j => ?_⟩
  · refine nodup_append.mpr ⟨h.nodup, nodup_singleton _, ?_⟩
    rintro j hj k hk rfl
    exact hid (mem_singleton.mp hk ▸ hj)
  · rw [hjobs, not_or] at hj
    rw [hstatus]
    exact h.unseen j hj.1 ((hlive j).mp hjlive)
  · rw [hlive] at hj
    exact h.dead j hj
  · have hji : j ≠ id := fun heq => hne (congrArg some heq.symm)
    rw [hstatus]
    exact h.place j (((hjobs j).mp hj).resolve_right hji) ((hlive j).mp hjlive) (by simp)
  · obtain ⟨hnil, hnodup, hall⟩ := h.unmet j u hu
    refine ⟨hnil, hnodup, fun d hd => ?_⟩
    rcases hall d hd with ⟨hdlive, hdjobs, hl⟩ | hmem
    · exact .inl ⟨(hlive d).mpr hdlive, (hjobs d).mpr (.inl hdjobs), hl⟩
    · cases hmem
  · simp only [hlive]
    exact h.waiting d l hl
  · rw [hcount]
    show s.unfinished + 1 = _
    push_cast
    rw [hunfinished]
    simp
  · show false = true ↔ s.unfinished + 1 = 0
    simp only [Bool.false_eq_true, false_iff]
    omega
  · rw [hlive]
    exact h.finished j hj
  · rw [hstatus]
    exact h.path j

theorem Consistent.block (h : Consistent s [] (some id)) (hid : id ∈ s.jobs)
    (hzero : s.places id = 0)
    (hidlive : s.Live id) (hrunning : s.status id ≠ .running) {unmet : List JobId}
    (hne : unmet ≠ [])
    (hnodup : unmet.Nodup) (hunmet : ∀ d ∈ unmet, d ∈ s.jobs ∧ s.Live d) : Consistent { s with
      blocked := s.blocked.set id unmet,
      dependents := addWaiting s.dependents id unmet } [] none := by
  obtain ⟨hb, ha⟩ := none_of_places hzero
  have hget := get?_addWaiting s.dependents id hnodup
  -- nobody waited under the name of a job that was not blocked
  have hnot : ∀ d l, s.dependents.get? d = some l → id ∉ l := by
    intro d l hl hmem
    obtain ⟨u, hu, -⟩ := (h.waiting d l hl).2.2 id hmem hidlive
    rw [hb] at hu
    cases hu
  have hplaces : ∀ j, j ≠ id → places { s with
      blocked := s.blocked.set id unmet, dependents := addWaiting s.dependents id unmet } j =
      s.places j := by
    intro j hj
    simp only [places, inHand, readyJobs, delayedJobs, get?_set_of_ne _ _ hj]
  refine ⟨h.nodup, fun j hj hjlive => ?_, fun j hj => ?_, fun j hj hjlive _ => ?_, fun j u hu => ?_,
    fun d l hl => ?_, h.count, h.idle, h.finished, h.path⟩
  · have hji : j ≠ id := fun heq => hj (heq ▸ hid)
    obtain ⟨hpending, hp, hnotes⟩ := h.unseen j hj hjlive
    exact ⟨hpending, (hplaces j hji).trans hp, hnotes⟩
  · have hji : j ≠ id := by
      rintro rfl
      exact hj hidlive
    obtain ⟨hbj, haj⟩ := h.dead j hj
    exact ⟨(get?_set_of_ne _ _ hji).trans hbj, haj⟩
  · by_cases hji : j = id
    · subst hji
      refine ⟨?_, ?_⟩
      · simp only [places, inHand, readyJobs, delayedJobs, hb, toList_none, length_nil] at hzero
        simp only [places, inHand, readyJobs, delayedJobs, get?_set_self, toList_some,
          length_singleton]
        omega
      · show s.status j = .running ↔ 0 < s.inHand j
        rw [ha]
        simp [hrunning]
    · rw [hplaces j hji]
      exact h.place j hj hjlive fun heq => hji (some.inj heq).symm
  · rcases get?_set_some hu with ⟨rfl, rfl⟩ | ⟨hji, hu⟩
    · refine ⟨hne, hnodup, fun d hd => .inl ⟨(hunmet d hd).2, (hunmet d hd).1,
        (s.dependents.get? d).getD [] ++ [j], ?_, mem_append_right _ (mem_singleton_self j)⟩⟩
      exact (hget d).trans (if_pos hd)
    obtain ⟨hnil, hunodup, hall⟩ := h.unmet j u hu
    refine ⟨hnil, hunodup, fun d hd => ?_⟩
    rcases hall d hd with ⟨hdlive, hdjobs, l, hl, hjl⟩ | hmem
    · refine .inl ⟨hdlive, hdjobs, ?_⟩
      by_cases hdu : d ∈ unmet
      · refine ⟨_, (hget d).trans (if_pos hdu), mem_append_left _ ?_⟩
        rw [hl]
        exact hjl
      · exact ⟨l, (hget d).trans ((if_neg hdu).trans hl), hjl⟩
    · cases hmem
  have hl' := (hget d).symm.trans hl
  -- whoever waited before waits still
  have hold : ∀ l', s.dependents.get? d = some l' → ∀ j ∈ l', s.Live j →
      ∃ u, (s.blocked.set id unmet).get? j = some u ∧ d ∈ u := by
    intro l' hwait j hj hjlive
    have hji : j ≠ id := fun heq => hnot d l' hwait (heq ▸ hj)
    obtain ⟨u, hu, hdu⟩ := (h.waiting d l' hwait).2.2 j hj hjlive
    exact ⟨u, (get?_set_of_ne _ _ hji).trans hu, hdu⟩
  by_cases hdu : d ∈ unmet
  · rw [if_pos hdu, Option.some.injEq] at hl'
    subst hl'
    have hself : ∀ j ∈ [id], s.Live j → ∃ u, (s.blocked.set id unmet).get? j = some u ∧ d ∈ u := by
      intro j hj _
      rw [mem_singleton.mp hj]
      exact ⟨unmet, get?_set_self _ _ _, hdu⟩
    cases hl' : s.dependents.get? d with
    | none => exact ⟨nodup_singleton _, (hunmet d hdu).2, hself⟩
    | some l' =>
      refine ⟨?_, (hunmet d hdu).2, fun j hj hjlive => ?_⟩
      · refine nodup_append.mpr ⟨(h.waiting d l' hl').1, nodup_singleton _, ?_⟩
        rintro j hj k hk rfl
        exact hnot d l' hl' (mem_singleton.mp hk ▸ hj)
      · rcases mem_append.mp hj with hj | hj
        · exact hold l' hl' j hj hjlive
        · exact hself j hj hjlive
  · rw [if_neg hdu] at hl'
    exact ⟨(h.waiting d l hl').1, (h.waiting d l hl').2.1, hold l hl'⟩

end

/-- What `submit` does. -/
structure Admitted (s : JobScheduler K) (id : JobId) (deps : List JobId) (s' : JobScheduler K) :
    Prop where
  consistent : Consistent s' [] none
  progress : Progress (some id) [] s s'
  quiet : ∃ more, s'.notified = s.notified ++ more ∧ ∀ n ∈ more, n.new ≠ .running
  blocked : ∀ u, s'.blocked.get? id = some u → u ⊆ deps
  waits : ∀ d ∈ deps, s'.status d = .completed ∨ s'.status id = .cancelled ∨
    ∃ u, s'.blocked.get? id = some u ∧ d ∈ u

theorem admitJob_spec {deps : List JobId} (h : Consistent s [] none)
    (herror : s.submitError id deps = none) (hnodup : deps.Nodup) (delay : ℚ) (clock : Clock) :
    ∃ s', s.admitJob id delay deps clock = .ok s' ∧ Admitted s id deps s' := by
  obtain ⟨hid, hpending, hdeps⟩ := submitError_eq_none herror
  have hreg := registered_consistent h hid hpending delay clock
  have hstatus := registered_status s id delay clock
  have hidlive : s.Live id := by rw [Live, hpending]; rfl
  have hzero := (h.unseen id hid hidlive).2.1
  have hjobs : ∀ j, j ∈ (s.registered id delay clock).jobs ↔ j ∈ s.jobs ∨ some id = some j := by
    intro j
    show j ∈ s.jobs ++ [id] ↔ _
    rw [mem_append, mem_singleton, Option.some.injEq, eq_comm (a := id)]
  have hidjobs := (hjobs id).mpr (.inr rfl)
  have hnone := none_of_places hzero
  rw [admitJob_eq]
  split
  case h_1 d _ =>
    -- a dependency did not complete
    have hlive : (s.registered id delay clock).Live id := (Live.of_status (hstatus id)).mpr hidlive
    obtain ⟨s', hok, hfinished⟩ := finishJob_spec hreg hidjobs hlive
      (show JobStatus.cancelled.isTerminal = true from rfl)
        (cancelled_mem_transitions (by rw [hlive]; simp)) (.inl rfl) hnone.2
      (some (.upstreamIncomplete d)) clock
    refine ⟨s', hok, hfinished.consistent, hfinished.effect.progress hstatus rfl hjobs rfl rfl,
      hfinished.effect.quiet, fun u hu => ?_, fun _ _ => .inr (.inl hfinished.status_eq)⟩
    obtain ⟨u', hu', -⟩ := hfinished.effect.blocked id u hu
    exact absurd (hnone.1.symm.trans hu') (by simp)
  case h_2 hfind =>
  rw [find?_eq_none] at hfind
  split
  case isTrue hnil =>
    have hfields := enqueue_eq (s.registered id delay clock) id (clock.enqueue id)
    have hnotified : ((s.registered id delay clock).enqueue id (clock.enqueue id)).notified =
        s.notified := by
      rw [hfields]
      rfl
    refine ⟨_, rfl, hreg.enqueue hidjobs hzero ?_ _,
      Progress.of_same (fun j => ?_) (fun j => .inl ?_)
      (fun j => ?_) hnotified (by rw [hfields, append_nil]; rfl),
      ⟨[], by rw [hnotified, append_nil], by simp⟩,
      fun u hu => ?_, fun d hd => .inl ?_⟩
    · rw [hstatus, hpending]
      decide
    · rw [status_enqueue, hstatus]
    · rw [hfields]
      rfl
    · rw [hfields]
      exact hjobs j
    · rw [hfields] at hu
      exact absurd (hnone.1.symm.trans hu) (by simp)
    · rw [status_enqueue]
      by_contra hne
      refine ne_nil_of_mem (mem_filter.mpr ⟨hd, ?_⟩) hnil
      simpa using hne
  case isFalse hne =>
  have hunmet : ∀ d ∈ deps.filter fun d => (s.registered id delay clock).status d ≠ .completed,
      d ∈ (s.registered id delay clock).jobs ∧ (s.registered id delay clock).Live d := by
    intro d hd
    obtain ⟨hd, hdne⟩ := mem_filter.mp hd
    refine ⟨(hjobs d).mpr (.inl (hdeps d hd)), ?_⟩
    have hnot := hfind d hd
    rw [decide_eq_true_eq, not_and_not_right] at hnot
    rw [decide_eq_true_eq] at hdne
    rw [Live, ← Bool.not_eq_true]
    exact fun hterminal => hdne (hnot hterminal)
  have hrunning : (s.registered id delay clock).status id ≠ .running := by
    rw [hstatus, hpending]
    decide
  refine ⟨_, rfl, hreg.block hidjobs hzero ((Live.of_status (hstatus id)).mpr hidlive) hrunning hne
    (hnodup.filter _) hunmet, Progress.of_same hstatus (fun j => ?_) hjobs rfl (append_nil _).symm,
    ⟨[], (append_nil _).symm, by simp⟩, fun u hu => ?_, fun d hd => ?_⟩
  · by_cases hji : j = id
    · subst hji
      exact .inr ⟨rfl, hnone.1⟩
    · exact .inl (get?_set_of_ne _ _ hji)
  · rw [get?_set_self, Option.some.injEq] at hu
    exact hu ▸ fun d hd => mem_of_mem_filter hd
  · by_cases hcompleted : (s.registered id delay clock).status d = .completed
    · exact .inl hcompleted
    · exact .inr (.inr ⟨_, get?_set_self _ _ _,
        mem_filter.mpr ⟨hd, decide_eq_true hcompleted⟩⟩)

/-! ## cancel -/

/-- A step that does what it should, but for the jobs its worker leaves. -/
structure Kept (lost : List JobId) (s s' : JobScheduler K) : Prop where
  consistent : Consistent s' [] none
  progress : Progress none lost s s'

omit [LinearOrder K] in
theorem Finished.kept {t : JobScheduler K} (h : Finished t id status [] s')
    (hstatus : ∀ j, t.status j = s.status j) (hblocked : t.blocked = s.blocked)
    (hjobs : t.jobs = s.jobs) (hnotified : t.notified = s.notified)
    (habandoned : t.abandoned = s.abandoned) : Kept [] s s' :=
  ⟨h.consistent,
    h.effect.progress hstatus hblocked (fun j => by rw [hjobs]; simp) hnotified habandoned⟩

omit [LinearOrder K] in
theorem Consistent.request (h : Consistent s [] none) (cancelRequested : Finset JobId)
    (stopping : Bool) : Kept [] s { s with cancelRequested, stopping } :=
  ⟨h.congr rfl (fun _ => rfl) rfl rfl rfl rfl rfl rfl (fun _ _ _ => ⟨rfl, rfl⟩)
    (fun j hj => (h.dead j hj).2) nofun fun _ h => h,
    Progress.of_same (fun _ => rfl) (fun _ => .inl rfl) (fun j => by simp) rfl (append_nil _).symm⟩

theorem cancel_spec (h : Consistent s [] none) (id : JobId) (clock : Clock) :
    ∃ r s', s.cancel id clock = .ok (r, s') ∧ Kept [] s s' := by
  rw [cancel]
  split
  case isTrue => exact ⟨false, s, rfl, h.request s.cancelRequested s.stopping⟩
  case isFalse hlive =>
  rw [not_or, not_not, Bool.not_eq_true] at hlive
  obtain ⟨hid, hlive⟩ := hlive
  split
  case isTrue => exact ⟨true, _, rfl, h.request _ s.stopping⟩
  case isFalse hrunning =>
  have hinHand : s.inHand id = 0 :=
    Nat.eq_zero_of_not_pos fun hpos => hrunning ((h.place id hid hlive (by simp)).2.mpr hpos)
  obtain ⟨s', hok, hfinished⟩ := finishJob_spec (h.loosen _) hid hlive
    (show JobStatus.cancelled.isTerminal = true from rfl)
      (cancelled_mem_transitions (by rw [hlive]; simp)) (.inl rfl) hinHand (some .cancelled) clock
  rw [hok]
  exact ⟨true, s', rfl, hfinished.kept (fun _ => rfl) rfl rfl rfl rfl⟩

/-! ## take -/

theorem promoteDue_spec (now : ℚ) (delayed : List (ℚ ×ₗ ℕ ×ₗ JobId)) (s : JobScheduler K) :
    ∃ ready' delayed', promoteDue now delayed s = { s with ready := ready', delayed := delayed' } ∧
      ∀ j, s.Live j →
        (ready'.map fun e => (ofLex e).2).count j +
            (delayed'.map fun e => (ofLex (ofLex e).2).2).count j =
          s.readyJobs.count j + (delayed.map fun e => (ofLex (ofLex e).2).2).count j := by
  induction delayed generalizing s with
  | nil => exact ⟨s.ready, [], rfl, fun _ _ => rfl⟩
  | cons entry delayed ih =>
    rw [promoteDue]
    split
    case isFalse => exact ⟨s.ready, entry :: delayed, rfl, fun _ _ => rfl⟩
    case isTrue =>
    dsimp only
    split
    case isTrue hterminal =>
      obtain ⟨ready', delayed', heq, hcount⟩ := ih s
      refine ⟨ready', delayed', heq, fun j hj => ?_⟩
      have hne : (ofLex (ofLex entry).2).2 ≠ j := by
        rintro rfl
        rw [Live, hterminal] at hj
        cases hj
      rw [hcount j hj, map_cons, count_cons_of_ne hne]
    case isFalse =>
    obtain ⟨ready', delayed', heq, hcount⟩ := ih { s with
      ready := heappush s.ready (toLex (s.strategy.key (s.objects (ofLex (ofLex entry).2).2),
        (ofLex (ofLex entry).2).2)) }
    refine ⟨ready', delayed', heq, fun j hj => ?_⟩
    rw [hcount j hj, readyJobs, count_map_heappush, map_cons, count_cons, readyJobs]
    show _ + (if j = (ofLex (ofLex entry).2).2 then 1 else 0) + _ = _
    by_cases hje : j = (ofLex (ofLex entry).2).2
    · rw [if_pos hje, ← hje, beq_self_eq_true, if_pos rfl]
      omega
    · rw [if_neg hje, if_neg (by simpa using Ne.symm hje)]
      omega

section

omit [LinearOrder K]

theorem Consistent.heaps (h : Consistent s [] none) {ready : List (K ×ₗ JobId)}
    {delayed : List (ℚ ×ₗ ℕ ×ₗ JobId)}
    (hcount : ∀ j, s.Live j → (ready.map fun e => (ofLex e).2).count j +
      (delayed.map fun e => (ofLex (ofLex e).2).2).count j =
        s.readyJobs.count j + s.delayedJobs.count j) :
    Consistent { s with ready, delayed } [] none := by
  refine h.congr rfl (fun _ => rfl) rfl rfl rfl rfl rfl rfl (fun j hj _ => ⟨?_, rfl⟩)
    (fun j hj => (h.dead j hj).2) nofun fun _ h => h
  have hj := hcount j hj
  simp only [places, inHand]
  show (ready.map fun e => (ofLex e).2).count j +
    (delayed.map fun e => (ofLex (ofLex e).2).2).count j + _ + _ = _
  omega

theorem takeReady_spec (ready : List (K ×ₗ JobId)) (s : JobScheduler K) :
    (takeReady ready s = .ok (none, { s with ready := [] }) ∧
      ∀ j, s.Live j → (ready.map fun e => (ofLex e).2).count j = 0) ∨
    ∃ id rest, takeReady ready s =
        (({ s with ready := rest }.transition id .running).map fun s => (some id, s)) ∧ s.Live id ∧
      ∀ j, s.Live j → (ready.map fun e => (ofLex e).2).count j =
        (rest.map fun e => (ofLex e).2).count j + if j = id then 1 else 0 := by
  induction ready with
  | nil => exact .inl ⟨rfl, fun _ _ => rfl⟩
  | cons entry ready ih =>
    rw [takeReady]
    split
    case isTrue hterminal =>
      have hne : ∀ j, s.Live j → (ofLex entry).2 ≠ j := by
        rintro j hj rfl
        rw [Live, hterminal] at hj
        cases hj
      rcases ih with ⟨heq, hcount⟩ | ⟨id, rest, heq, hlive, hcount⟩
      · refine .inl ⟨heq, fun j hj => ?_⟩
        rw [map_cons, count_cons_of_ne (hne j hj)]
        exact hcount j hj
      · refine .inr ⟨id, rest, heq, hlive, fun j hj => ?_⟩
        rw [map_cons, count_cons_of_ne (hne j hj)]
        exact hcount j hj
    case isFalse hlive =>
      rw [Bool.not_eq_true] at hlive
      refine .inr ⟨(ofLex entry).2, ready, rfl, hlive, fun j _ => ?_⟩
      rw [map_cons, count_cons]
      by_cases hj : j = (ofLex entry).2
      · rw [if_pos hj, hj, beq_self_eq_true, if_pos rfl]
      · rw [if_neg hj, if_neg (by simpa using Ne.symm hj)]

theorem startAttempt_status (s : JobScheduler K) (id : JobId) (worker : Nat) (j : JobId) :
    (s.startAttempt id worker).status j = s.status j :=
  status_modify_same s id (f := fun job => { job with attempts := job.attempts + 1 })
    (fun _ => rfl) j

theorem take_kept (h : Consistent s [] none) {rest : List (K ×ₗ JobId)} (hlive : s.Live id)
    (hcount : ∀ j, s.Live j → s.readyJobs.count j =
      (rest.map fun e => (ofLex e).2).count j + if j = id then 1 else 0) (worker : Nat) :
    ∃ t, { s with ready := rest }.transition id .running = .ok t ∧
      Kept [] s (t.startAttempt id worker) := by
  have hready : s.readyJobs.count id ≠ 0 := by
    rw [hcount id hlive, if_pos rfl]
    omega
  have hid : id ∈ s.jobs := by
    by_contra hnot
    have hzero := (h.unseen id hnot hlive).2.1
    rw [places] at hzero
    omega
  -- the heap was its only place
  obtain ⟨hplace, hrunning⟩ := h.place id hid hlive (by simp)
  obtain ⟨hblocked, hinHand, hdelayed, hone⟩ : s.blocked.get? id = none ∧ s.inHand id = 0 ∧
      s.delayedJobs.count id = 0 ∧ s.readyJobs.count id = 1 := by
    rw [places] at hplace
    refine ⟨?_, by omega, by omega, by omega⟩
    rw [← toList_eq_nil_iff, ← length_eq_zero_iff]
    omega
  have hstatus : JobStatus.running ∈ transitions (s.status id) := by
    have hne : s.status id ≠ .running := by
      intro heq
      exact (hrunning.mp heq).ne' hinHand
    have hl : (s.status id).isTerminal = false := hlive
    cases hs : s.status id <;> rw [hs] at hne hl <;>
      first | decide | exact absurd rfl hne | cases hl
  -- out of the heap, then running, then with its worker
  have hloose : Consistent { s with ready := rest } [] (some id) := by
    refine h.congr rfl (fun _ => rfl) rfl rfl rfl rfl rfl rfl (fun j hj hne => ⟨?_, rfl⟩)
      (fun j hj => (h.dead j hj).2) (fun j hj => some.inj hj ▸ hid) fun _ _ => by simp
    have hc := hcount j hj
    rw [if_neg fun heq => hne (congrArg some heq.symm)] at hc
    simp only [places, hc]
    rfl
  have hmoved : Consistent (moved { s with ready := rest } id .running) [] (some id) :=
    hloose.moved hid hlive hstatus rfl
  refine ⟨_, transition_eq hstatus, ?_, ?_⟩
  · have hstatusT := startAttempt_status (moved { s with ready := rest } id .running) id worker
    have hstart : Consistent
        ((moved { s with ready := rest } id .running).startAttempt id worker) [] (some id) := by
      refine hmoved.congr rfl hstatusT rfl rfl rfl rfl rfl rfl (fun j hj hne => ?_) (fun j hj => ?_)
        (fun j hj => some.inj hj ▸ hid) fun _ h => h
      · have hji : j ≠ id := fun heq => hne (congrArg some heq.symm)
        have hget : (s.attempts.set id worker).get? j = s.attempts.get? j :=
          get?_set_of_ne _ _ hji
        have hinHand :
            inHand ((moved { s with ready := rest } id .running).startAttempt id worker) j =
              s.inHand j := by
          show ((s.attempts.set id worker).get? j).toList.length + _ = _
          rw [hget]
          rfl
        refine ⟨?_, hinHand⟩
        rw [places, hinHand]
        rfl
      · have hji : j ≠ id := by
          rintro rfl
          refine hj ?_
          rw [Live, moved_status, if_pos rfl]
          rfl
        show ((s.attempts.set id worker).get? j).toList.length + _ = _
        rw [get?_set_of_ne _ _ hji]
        exact (hmoved.dead j hj).2
    have hheld : inHand ((moved { s with ready := rest } id .running).startAttempt id worker) id =
        1 := by
      show ((s.attempts.set id worker).get? id).toList.length + s.abandoned.count id = 1
      rw [inHand] at hinHand
      rw [get?_set_self, toList_some, length_singleton]
      omega
    refine hstart.settle fun _ => ⟨?_, ?_⟩
    · rw [places, hheld]
      show (rest.map fun e => (ofLex e).2).count id + s.delayedJobs.count id +
        (s.blocked.get? id).toList.length + 1 = 1
      have hc := hcount id hlive
      rw [if_pos rfl] at hc
      rw [hblocked, hdelayed, toList_none, length_nil]
      omega
    · rw [hstatusT, moved_status, if_pos rfl, hheld]
      simp
  · refine ⟨fun j hj => ?_, fun j u d hu hd => .inl ⟨u, hu, hd⟩,
      fun j u hu => .inl ⟨u, hu, fun _ hx => hx⟩, fun j hj => .inl hj, fun j hj _ => ?_,
      .inr ⟨id, s.status id, rfl, hlive, hid, hblocked⟩, (append_nil _).symm⟩
    · have hji : j ≠ id := by
        rintro rfl
        exact hj hlive
      rw [startAttempt_status, moved_status, if_neg hji]
      rfl
    · rcases hj with hj | hj
      · exact hj
      · cases hj

end

theorem takeNext_spec (h : Consistent s [] none) (now : ℚ) (worker : Nat) :
    (∃ s', s.takeNext now = .ok (none, s') ∧ Kept [] s s') ∨
      ∃ id t, s.takeNext now = .ok (some id, t) ∧ Kept [] s (t.startAttempt id worker) := by
  obtain ⟨ready, delayed, heq, hcount⟩ := promoteDue_spec now s.delayed s
  have hheaps : Consistent { s with ready, delayed } [] none := h.heaps hcount
  rw [takeNext, heq]
  rcases takeReady_spec ready { s with ready, delayed } with ⟨htake, hnone⟩ | ⟨id, rest,
    htake, hlive, hone⟩
  · refine .inl ⟨_, htake, hheaps.heaps fun j hj => ?_,
      Progress.of_same (fun _ => rfl) (fun _ => .inl rfl)
      (fun j => by simp) rfl (append_nil _).symm⟩
    have hj := hnone j hj
    rw [map_nil, count_nil]
    show 0 + _ = (ready.map fun e => (ofLex e).2).count j + _
    rw [hj]
    rfl
  obtain ⟨t, hok, hkept⟩ := take_kept hheaps hlive hone worker
  refine .inr ⟨id, t, ?_, hkept.consistent, ⟨hkept.progress.terminal, hkept.progress.unmet,
    hkept.progress.blocked, hkept.progress.jobs, hkept.progress.kept, hkept.progress.notes,
    hkept.progress.abandoned⟩⟩
  rw [htake]
  simp only at hok ⊢
  rw [hok]
  rfl

/-! ## The end of an attempt -/

/-- The outcomes after which an attempt may be repeated. -/
def AttemptOutcome.retryable : AttemptOutcome → Bool
  | .raised _ retryable => retryable
  | .timedOut => true
  | .succeeded | .cancelled => false

/-- A retry is due and the delay before it raises. -/
def DelayRaises (s : JobScheduler K) (id : JobId) : Prop :=
  ((s.objects id).attempts : Int) ≤ (s.objects id).retry.maxRetries ∧ ¬ s.stopping ∧
    1025 ≤ (s.objects id).attempts

/-- The step ends an attempt and runs into a delay that raises. -/
def Overflows (s : JobScheduler K) : SchedulerStep → Prop
  | .endAttempt id outcome _ _ =>
    id ∉ s.cancelRequested ∧ outcome.retryable = true ∧ s.DelayRaises id
  | .submit _ _ _ _ | .cancel _ _ | .take _ _ | .stop _ => False

instance : ∀ (s : JobScheduler K) (a : SchedulerStep), Decidable (s.Overflows a)
  | s, .endAttempt id outcome _ _ =>
    inferInstanceAs (Decidable (id ∉ s.cancelRequested ∧ outcome.retryable = true ∧ _ ∧ _ ∧ _))
  | _, .submit _ _ _ _ | _, .cancel _ _ | _, .take _ _ | _, .stop _ => .isFalse not_false

/-- `t` is `s` without the attempt of `id`, and perhaps with other data of the job. -/
structure Detached (s : JobScheduler K) (id : JobId) (t : JobScheduler K) : Prop where
  consistent : Consistent t [] (some id)
  zero : t.places id = 0
  status : ∀ j, t.status j = s.status j
  blocked : t.blocked = s.blocked
  jobs : t.jobs = s.jobs
  notified : t.notified = s.notified
  abandoned : t.abandoned = s.abandoned
  known : id ∈ t.jobs
  running : t.status id = .running

omit [LinearOrder K] in
/-- The job of an attempt is RUNNING, and nowhere but in hand. -/
theorem Consistent.detach (h : Consistent s [] none) {worker : Nat}
    (hworker : s.attempts.get? id = some worker) :
    Detached s id { s with attempts := s.attempts.erase id } := by
  have hpos : 0 < s.inHand id := by
    rw [inHand, hworker]
    exact Nat.lt_of_lt_of_le one_pos (Nat.le_add_right _ _)
  obtain ⟨hlive, hid⟩ := h.live_of_inHand hpos
  obtain ⟨hplace, hrunning⟩ := h.place id hid hlive (by simp)
  rw [places, inHand, hworker, toList_some, length_singleton] at hplace
  have hinHand : ∀ j, j ≠ id → inHand { s with attempts := s.attempts.erase id } j =
      s.inHand j := by
    intro j hji
    show ((s.attempts.erase id).get? j).toList.length + _ = _
    rw [get?_erase_of_ne _ hji]
    rfl
  refine ⟨?_, ?_, fun _ => rfl, rfl, rfl, rfl, rfl, hid, hrunning.mpr hpos⟩
  · refine h.congr rfl (fun _ => rfl) rfl rfl rfl rfl rfl rfl (fun j hj hne => ?_) (fun j hj => ?_)
      (fun j hj => some.inj hj ▸ hid) fun _ _ => by simp
    · have hj := hinHand j fun heq => hne (congrArg some heq.symm)
      refine ⟨?_, hj⟩
      rw [places, hj]
      rfl
    · refine (hinHand j ?_).trans (h.dead j hj).2
      rintro rfl
      exact hj hlive
  · show s.readyJobs.count id + s.delayedJobs.count id + (s.blocked.get? id).toList.length +
      (((s.attempts.erase id).get? id).toList.length + s.abandoned.count id) = 0
    rw [get?_erase_self, toList_none, length_nil]
    omega

namespace Detached

variable {t : JobScheduler K} (h : Detached s id t)

include h

omit [LinearOrder K] in
theorem live : t.Live id := by
  rw [Live, h.running]
  rfl

omit [LinearOrder K] in
theorem modify {f : Job → Job} (hf : ∀ job, (f job).status = job.status) :
    Detached s id (t.modify id f) :=
  have hstatus := status_modify_same t id hf
  ⟨h.consistent.modify (fun _ hj => some.inj hj ▸ h.known) id hf, h.zero,
    fun j => (hstatus j).trans (h.status j), h.blocked, h.jobs, h.notified, h.abandoned, h.known,
    (hstatus id).trans h.running⟩

theorem finish (target : JobStatus)
    (htarget : target ∈ [JobStatus.completed, .failed, .timedOut, .cancelled])
    (error : Option Failure) (clock : Clock) :
    ∃ s', t.finishJob id target error clock = .ok s' ∧ Kept [] s s' := by
  have hterminal : target.isTerminal = true ∧ target ∈ transitions .running := by
    simp only [mem_cons, not_mem_nil, or_false] at htarget
    rcases htarget with rfl | rfl | rfl | rfl <;> exact ⟨rfl, by decide⟩
  obtain ⟨hblocked, hinHand⟩ := none_of_places h.zero
  obtain ⟨s', hok, hfinished⟩ := finishJob_spec h.consistent h.known h.live hterminal.1
    (h.running ▸ hterminal.2) (.inr hblocked) hinHand error clock
  exact ⟨s', hok, hfinished.kept h.status h.blocked h.jobs h.notified h.abandoned⟩

omit [LinearOrder K] in
/-- When the delay raises, the job stays RUNNING, and no table has it. -/
theorem abandon : Kept [id] s { t with abandoned := t.abandoned ++ [id] } := by
  have hinHand : ∀ j, inHand { t with abandoned := t.abandoned ++ [id] } j =
      t.inHand j + if j = id then 1 else 0 := by
    intro j
    show _ + (t.abandoned ++ [id]).count j = _ + t.abandoned.count j + _
    have hself : [id].count j = if j = id then 1 else 0 := by
      rw [count_singleton]
      exact if_congr (beq_iff_eq.trans eq_comm) rfl rfl
    rw [count_append, hself, ← Nat.add_assoc]
  have hplaces : ∀ j, places { t with abandoned := t.abandoned ++ [id] } j =
      t.places j + if j = id then 1 else 0 := by
    intro j
    rw [places, hinHand, ← Nat.add_assoc]
    rfl
  have hleft : Consistent { t with abandoned := t.abandoned ++ [id] } [] (some id) := by
    refine h.consistent.congr rfl (fun _ => rfl) rfl rfl rfl rfl rfl rfl (fun j _ hne => ?_)
      (fun j hj => ?_) (fun j hj => some.inj hj ▸ h.known) fun _ hne => hne
    · rw [hplaces, hinHand, if_neg fun heq => hne (congrArg some heq.symm)]
      exact ⟨rfl, rfl⟩
    · have hji : j ≠ id := by
        rintro rfl
        exact hj h.live
      rw [hinHand, if_neg hji]
      exact (h.consistent.dead j hj).2
  refine ⟨hleft.settle fun _ => ?_, Progress.of_same h.status (fun j => .inl (by rw [h.blocked]))
    (fun j => by rw [h.jobs]; simp) h.notified (by rw [h.abandoned])⟩
  rw [hplaces, hinHand, if_pos rfl, h.zero, (none_of_places h.zero).2]
  exact ⟨rfl, iff_of_true h.running one_pos⟩

/-- A job that is retried goes to a heap. -/
theorem retry (now : ℚ) : ∃ s', (t.transition id .retryWait).map (fun u => u.enqueue id now) =
    .ok s' ∧ Kept [] s s' := by
  have hretry : JobStatus.retryWait ∈ transitions (t.status id) := by
    rw [h.running]
    decide
  have hmoved := h.consistent.moved h.known h.live hretry rfl
  have hfields := enqueue_eq (t.moved id .retryWait) id now
  rw [transition_eq hretry]
  refine ⟨(t.moved id .retryWait).enqueue id now, rfl, hmoved.enqueue h.known h.zero ?_ _, ?_,
    fun j u d hu hd => ?_, fun j u hu => ?_, fun j hj => ?_, fun j hj _ => ?_,
    .inl ⟨[⟨id, t.status id, .retryWait⟩], ?_, fun n hn => ?_⟩, ?_⟩
  · rw [moved_status, if_pos rfl]
    decide
  · intro j hj
    have hji : j ≠ id := by
      rintro rfl
      rw [Live, ← h.status] at hj
      exact hj h.live
    rw [status_enqueue, moved_status, if_neg hji]
    exact h.status j
  · rw [hfields]
    exact .inl ⟨u, h.blocked.symm ▸ hu, hd⟩
  · rw [hfields] at hu
    exact .inl ⟨u, h.blocked ▸ hu, fun _ hx => hx⟩
  · rw [hfields] at hj
    exact .inl (h.jobs ▸ hj)
  · rw [hfields]
    rcases hj with hj | hj
    · exact h.jobs.symm ▸ hj
    · cases hj
  · rw [hfields]
    exact congrArg (· ++ _) h.notified
  · rw [mem_singleton.mp hn]
    simp
  · rw [hfields, append_nil]
    exact h.abandoned

end Detached

theorem afterFailure_spec (h : Detached s id { s with attempts := s.attempts.erase id })
    (error : Failure) (retryable timedOut : Bool) (draw : ℚ) (clock : Clock) :
    ∃ lost s', afterFailure { s with attempts := s.attempts.erase id } id error retryable timedOut
        draw clock = .ok s' ∧ Kept lost s s' ∧
      (lost = [] ∨ retryable = true ∧ s.DelayRaises id) := by
  have herror := h.modify (f := fun job => { job with lastError := some error }) fun _ => rfl
  have hsame : ∀ {α : Type} (g : Job → α),
      (∀ job, g { job with lastError := some error } = g job) →
      g ((JobScheduler.modify { s with attempts := s.attempts.erase id } id
        fun job => { job with lastError := some error }).objects id) = g (s.objects id) :=
    fun g hg => field_modify g { s with attempts := s.attempts.erase id } id hg id
  rw [afterFailure]
  dsimp only
  split
  case isFalse =>
    obtain ⟨s', hok, hkept⟩ := herror.finish (if timedOut then .timedOut else .failed)
      (by split <;> decide) (some error) clock
    exact ⟨[], s', hok, hkept, .inl rfl⟩
  case isTrue hretries =>
  split
  case h_1 hraises =>
    rw [RetryPolicy.delay_eq_none_iff, hsame Job.attempts fun _ => rfl] at hraises
    rw [hsame Job.attempts fun _ => rfl, hsame Job.retry fun _ => rfl] at hretries
    exact ⟨[id], _, rfl, herror.abandon,
      .inr ⟨hretries.1, hretries.2.1, hretries.2.2, hraises⟩⟩
  case h_2 backoff _ =>
    obtain ⟨s', hok, hkept⟩ := (herror.modify
      (f := fun job => { job with runAt := clock.now + backoff }) fun _ => rfl).retry
      (clock.enqueue id)
    exact ⟨[], s', hok, hkept, .inl rfl⟩

theorem endAttempt_spec (h : Consistent s [] none) {worker : Nat}
    (hworker : s.attempts.get? id = some worker) (outcome : AttemptOutcome) (draw : ℚ)
    (clock : Clock) :
    ∃ lost s', s.endAttempt id outcome draw clock = .ok s' ∧ Kept lost s s' ∧
      (lost = [] ∨ s.Overflows (.endAttempt id outcome draw clock)) := by
  have hdetached := h.detach hworker
  have hend : ∀ (target : JobStatus) (error : Option Failure),
      target ∈ [JobStatus.completed, .failed, .timedOut, .cancelled] → ∃ lost s',
      finishJob { s with attempts := s.attempts.erase id } id target error clock = .ok s' ∧
        Kept lost s s' ∧ (lost = [] ∨ s.Overflows (.endAttempt id outcome draw clock)) := by
    intro target error htarget
    obtain ⟨s', hok, hkept⟩ := hdetached.finish target htarget error clock
    exact ⟨[], s', hok, hkept, .inl rfl⟩
  unfold endAttempt
  dsimp only
  split
  case isTrue => exact hend _ _ (by decide)
  case isFalse hnot =>
    cases outcome with
    | cancelled | succeeded => exact hend _ _ (by decide)
    | timedOut | raised =>
      obtain ⟨lost, s', hok, hkept, hlost⟩ := afterFailure_spec hdetached _ _ _ draw clock
      exact ⟨lost, s', hok, hkept, hlost.imp_right fun h => ⟨hnot, h⟩⟩

/-! ## Steps -/

/-- What a step does, given what it answers. -/
structure Stepped (lost : List JobId) (s : JobScheduler K) (e : SchedulerEvent)
    (s' : JobScheduler K) : Prop where
  consistent : Consistent s' [] none
  progress : Progress e.submittedJob lost s s'
  admitted : ∀ id deps, e = .submitted id deps →
    s.submitError id deps.dedup = none ∧ Admitted s id deps.dedup s'

omit [LinearOrder K] in
theorem Kept.stepped {lost : List JobId} (h : Kept lost s s') (he : e.submittedJob = none) :
    Stepped lost s e s' := by
  refine ⟨h.consistent, he ▸ h.progress, fun id deps heq => ?_⟩
  rw [heq] at he
  cases he

/-- One step leaves each job in one place, or says which it lost. -/
theorem step_spec (h : Consistent s [] none) (a : SchedulerStep) :
    (∃ lost e s', s.step a = .ok (e, s') ∧ Stepped lost s e s' ∧ (lost = [] ∨ s.Overflows a)) ∨
      s.step a = .error .notEnabled := by
  cases a with
  | submit id delay deps clock =>
    rw [step]
    cases herror : s.submitError id deps.dedup with
    | some =>
      exact .inl ⟨_, _, s, rfl, (h.request s.cancelRequested s.stopping).stepped rfl, .inl rfl⟩
    | none =>
      obtain ⟨s', hok, hadmitted⟩ := admitJob_spec h herror deps.nodup_dedup delay clock
      refine .inl ⟨[], .submitted id deps, s', by rw [hok]; rfl, ⟨hadmitted.consistent,
        hadmitted.progress, ?_⟩, .inl rfl⟩
      rintro _ _ ⟨⟩
      exact ⟨herror, hadmitted⟩
  | cancel id clock =>
    obtain ⟨r, s', hok, hkept⟩ := cancel_spec h id clock
    exact .inl ⟨_, .cancelled id r, s', by rw [step, hok]; rfl, hkept.stepped rfl, .inl rfl⟩
  | take worker clock =>
    rw [step]
    split
    case isFalse => exact .inr rfl
    case isTrue =>
      rcases takeNext_spec h clock.now worker with ⟨s', hok, hkept⟩ | ⟨id, t, hok, hkept⟩
      · exact .inl ⟨_, .took worker none, s', by rw [hok]; rfl, hkept.stepped rfl, .inl rfl⟩
      · exact .inl ⟨_, .took worker (some id), _, by rw [hok]; rfl, hkept.stepped rfl, .inl rfl⟩
  | endAttempt id outcome draw clock =>
    rw [step]
    cases hworker : s.attempts.get? id with
    | none => exact .inr rfl
    | some =>
      obtain ⟨lost, s', hok, hkept, hlost⟩ := endAttempt_spec h hworker outcome draw clock
      exact .inl ⟨lost, .attemptEnded id, s', by rw [hok]; rfl, hkept.stepped rfl, hlost⟩
  | stop => exact .inl ⟨_, .stopped, _, rfl, (h.request _ _).stepped rfl, .inl rfl⟩

theorem step_stepped (h : Consistent s [] none) {a : SchedulerStep} (hok : s.step a = .ok (e, s')) :
    ∃ lost, Stepped lost s e s' ∧ (lost = [] ∨ s.Overflows a) := by
  rcases step_spec h a with ⟨lost, e', t, hok', hstepped⟩ | herror
  · rw [hok] at hok'
    cases hok'
    exact ⟨lost, hstepped⟩
  · rw [hok] at herror
    cases herror

/-! ## Runs -/

/-- The jobs that were submitted, oldest first. -/
def submittedJobs (trace : List SchedulerEvent) : List JobId :=
  trace.filterMap SchedulerEvent.submittedJob

/-- A scheduler that did `trace` knows the jobs that were submitted and are not terminal. -/
structure Reached (trace : List SchedulerEvent) (s : JobScheduler K) : Prop where
  consistent : Consistent s [] none
  nodup : (submittedJobs trace).Nodup
  kept : ∀ j ∈ submittedJobs trace, s.Live j → j ∈ s.jobs
  jobs : ∀ j ∈ s.jobs, j ∈ submittedJobs trace
  /-- unmet dependencies are dependencies -/
  unmet : ∀ j u, s.blocked.get? j = some u → ∃ deps, .submitted j deps ∈ trace ∧ u ⊆ deps

omit [LinearOrder K] in
theorem new_consistent (strategy : SchedulingStrategy K) (numWorkers historyLimit : Nat)
    {objects : JobId → Job} (hnew : ∀ id, (objects id).status = .pending) :
    Consistent (new strategy numWorkers historyLimit objects) [] none where
  nodup := nodup_nil
  unseen id _ _ := ⟨hnew id, rfl, nofun⟩
  dead _ _ := ⟨rfl, rfl⟩
  place _ h := by cases h
  unmet _ _ h := by cases h
  waiting _ _ h := by cases h
  count := rfl
  idle := by simp [new]
  finished _ h := by cases h
  path id := (hnew id).symm

theorem Reached.step (h : Reached trace s) {a : SchedulerStep} (hok : s.step a = .ok (e, s')) :
    Reached (trace ++ [e]) s' := by
  obtain ⟨lost, hstep, -⟩ := step_stepped h.consistent hok
  have hsubmitted : submittedJobs (trace ++ [e]) =
      submittedJobs trace ++ e.submittedJob.toList := by
    rw [submittedJobs, filterMap_append, ← submittedJobs]
    cases he : e.submittedJob <;> simp [he]
  have hmem : ∀ j, j ∈ submittedJobs (trace ++ [e]) ↔
      j ∈ submittedJobs trace ∨ e.submittedJob = some j := by
    intro j
    rw [hsubmitted, mem_append, mem_toList]
  refine ⟨hstep.consistent, ?_, fun j hj hlive => ?_, fun j hj => ?_, fun j u hu => ?_⟩
  · rw [hsubmitted]
    cases e with
    | submitted id deps =>
      -- a known or terminal job is not submitted again
      obtain ⟨hid, hpending, -⟩ := submitError_eq_none (hstep.admitted id deps rfl).1
      refine nodup_append.mpr ⟨h.nodup, nodup_singleton id, ?_⟩
      rintro j hj k hk rfl
      rw [mem_singleton.mp hk] at hj
      exact hid (h.kept id hj (by rw [Live, hpending]; rfl))
    | _ => simpa [SchedulerEvent.submittedJob] using h.nodup
  · refine hstep.progress.kept j ?_ hlive
    refine ((hmem j).mp hj).imp_left fun hj => h.kept j hj ?_
    by_contra hdead
    exact hdead ((Live.of_status (hstep.progress.terminal j hdead)).mp hlive)
  · exact (hmem j).mpr ((hstep.progress.jobs j hj).imp_left (h.jobs j))
  · rcases hstep.progress.blocked j u hu with ⟨u', hu', hsub⟩ | hnew
    · obtain ⟨deps, hdeps, hsub'⟩ := h.unmet j u' hu'
      exact ⟨deps, mem_append_left _ hdeps, fun _ hx => hsub' (hsub hx)⟩
    · cases e with
      | submitted id deps =>
        obtain rfl := some.inj hnew
        refine ⟨deps, mem_append_right _ mem_cons_self, fun d hd => ?_⟩
        exact mem_dedup.mp ((hstep.admitted id deps rfl).2.blocked u hu hd)
      | _ => cases hnew

/-- The invariant and the trace agree after a run, from where they did before it. -/
theorem run_reached {trace' : List SchedulerEvent} (h : Reached trace s) {as : List SchedulerStep}
    (hrun : runSteps step s as = .ok (trace', s')) : Reached (trace ++ trace') s' := by
  induction as generalizing s trace trace' with
  | nil =>
    cases hrun
    rwa [append_nil]
  | cons _ _ ih =>
    obtain ⟨e, t, trace'', hok, hrun', rfl⟩ := runSteps_cons_inv hrun
    have ht := ih (h.step hok) hrun'
    rwa [append_assoc] at ht

omit [LinearOrder K] in
theorem new_reached (strategy : SchedulingStrategy K) (numWorkers historyLimit : Nat)
    {objects : JobId → Job} (hnew : ∀ id, (objects id).status = .pending) :
    Reached [] (new strategy numWorkers historyLimit objects) :=
  ⟨new_consistent strategy numWorkers historyLimit hnew, nodup_nil, nofun, nofun, nofun⟩

/-- A job that has ended stays as it ended. -/
theorem run_terminal {trace' : List SchedulerEvent} (h : Reached trace s) {as : List SchedulerStep}
    (hrun : runSteps step s as = .ok (trace', s')) (hdead : ¬ s.Live id) :
    s'.status id = s.status id := by
  induction as generalizing s trace trace' with
  | nil =>
    cases hrun
    rfl
  | cons _ _ ih =>
    obtain ⟨e, t, trace'', hok, hrun', rfl⟩ := runSteps_cons_inv hrun
    obtain ⟨lost, hstep, -⟩ := step_stepped h.consistent hok
    have hstatus := hstep.progress.terminal id hdead
    exact (ih (h.step hok) hrun' fun hl => hdead ((Live.of_status hstatus).mp hl)).trans hstatus

omit [LinearOrder K] in
theorem Reached.unfinished (h : Reached trace s) :
    s.unfinished = (submittedJobs trace).countP fun j => !(s.status j).isTerminal := by
  rw [h.consistent.count, liveCount, countP_eq_length_filter, countP_eq_length_filter]
  have hperm : (s.jobs.filter fun j => !(s.status j).isTerminal).Perm
      ((submittedJobs trace).filter fun j => !(s.status j).isTerminal) := by
    refine (perm_ext_iff_of_nodup (h.consistent.nodup.filter _) (h.nodup.filter _)).mpr ?_
    intro j
    rw [mem_filter, mem_filter, Bool.not_eq_true']
    exact and_congr_left fun hlive => ⟨h.jobs j, fun hj => h.kept j hj hlive⟩
  rw [hperm.length_eq]
  simp

/-- Where no delay raises, no job is left behind. -/
theorem run_abandoned (strategy : SchedulingStrategy K) (numWorkers historyLimit : Nat)
    {objects : JobId → Job} (hnew : ∀ id, (objects id).status = .pending) {as : List SchedulerStep}
    (hdelays : Guarded (fun s a => ¬ s.Overflows a) step
      (new strategy numWorkers historyLimit objects) as)
    (hrun : runSteps step (new strategy numWorkers historyLimit objects) as = .ok (trace, s)) :
    s.abandoned = [] := by
  refine (runSteps_keeps (fun _ trace s => Reached trace s ∧ s.abandoned = [])
    (fun _ trace s a e s' _ h hdelays hok => ⟨h.1.step hok, ?_⟩)
    ⟨new_reached strategy numWorkers historyLimit hnew, rfl⟩ hdelays hrun).2
  obtain ⟨lost, hstep, hlost⟩ := step_stepped h.1.consistent hok
  rw [hstep.progress.abandoned, h.2, hlost.resolve_right hdelays, append_nil]

/-- A job that may be tried twice. -/
def quickJob : Job := Job.new .medium ⟨1, 1, 60, false⟩ none

/-- The clock at a time. -/
def clockAt (now : ℚ) : Clock := ⟨now, fun _ => now⟩

/-! ## A job that is left behind -/

variable {s : JobScheduler Nat} {n : Nat}

/-- A job that is retried at once, as often as its delay is a number. -/
def stubbornJob : Job := Job.new .medium ⟨1025, 1, 0, false⟩ none

theorem stubborn_delay (hn : n < 1024) : stubbornJob.retry.delay (n + 1) 0 = some 0 := by
  have hpow : Binary64.ofRat (2 ^ n) = some (2 ^ n) := by
    rw [Binary64.ofRat, Binary64.round_two_pow, if_pos]
    rw [abs_of_pos (by positivity)]
    exact pow_lt_pow_right₀ one_lt_two hn
  simp [stubbornJob, Job.new, RetryPolicy.delay, Binary64.cappedBackoff, hpow,
    Binary64.round_two_pow]

/-- The scheduler of job 0 alone, after `n` attempts. -/
structure Alone (n : Nat) (status : JobStatus) (ready abandoned : List JobId)
    (s : JobScheduler Nat) :
    Prop where
  numWorkers : s.numWorkers = 1
  status : s.status 0 = status
  retry : (s.objects 0).retry = stubbornJob.retry
  count : (s.objects 0).attempts = n
  ready : s.readyJobs = ready
  delayed : s.delayed = []
  attempts : s.attempts = Dict.empty
  cancelRequested : s.cancelRequested = ∅
  stopping : s.stopping = false
  abandoned : s.abandoned = abandoned

/-- All of the `n` attempts failed. -/
def Failing (n : Nat) (s : JobScheduler Nat) : Prop :=
  if n < 1025 then ∃ status, JobStatus.running ∈ transitions status ∧ Alone n status [0] [] s
  else Alone n .running [] [0] s

/-- A job that fails at once. -/
def failingRound : List SchedulerStep :=
  [.take 0 (clockAt 0), .endAttempt 0 (.raised "boom" true) 0 (clockAt 0)]

theorem Alone.take {status : JobStatus} (h : Alone n status [0] [] s)
    (hstatus : JobStatus.running ∈ transitions status) :
    ∃ t, s.step (.take 0 (clockAt 0)) = .ok (.took 0 (some 0), t) ∧
      t.attempts.get? 0 = some 0 ∧
      Alone (n + 1) .running [] [] { t with attempts := t.attempts.erase 0 } := by
  obtain ⟨entry, hentry, hjob⟩ := map_eq_singleton_iff.mp h.ready
  have hlive : ¬ (s.status 0).isTerminal = true := by
    rw [h.status]
    cases status <;> first | decide | cases hstatus
  have hidle : s.Idle 0 ∧ ¬ s.stopping = true := by
    refine ⟨⟨?_, ?_⟩, ?_⟩
    · rw [h.numWorkers]
      exact one_pos
    · rw [h.attempts]
      exact not_mem_nil
    · rw [h.stopping]
      exact Bool.false_ne_true
  refine ⟨(moved { s with ready := [], delayed := [] } 0 .running).startAttempt 0 0, ?_,
    get?_set_self _ _ _, h.numWorkers, rfl, h.retry, by rw [← h.count]; rfl, rfl, rfl, ?_,
    h.cancelRequested, h.stopping, h.abandoned⟩
  · rw [step, if_pos hidle, takeNext, h.delayed, promoteDue, hentry, takeReady]
    dsimp only
    rw [hjob, if_neg (by exact hlive), transition_eq (by exact h.status ▸ hstatus)]
    rfl
  · show (s.attempts.set 0 0).erase 0 = _
    rw [h.attempts]
    rfl

theorem Alone.fail (h : Alone (n + 1) .running [] [] s) (hn : n < 1025) :
    ∃ u, s.afterFailure 0 (.raised "boom") true false 0 (clockAt 0) = .ok u ∧
      Failing (n + 1) u := by
  let f := s.modify 0 fun job => { job with lastError := some (.raised "boom") }
  have hf : Alone (n + 1) .running [] [] f :=
    ⟨h.numWorkers, h.status, h.retry, h.count, h.ready, h.delayed, h.attempts, h.cancelRequested,
      h.stopping, h.abandoned⟩
  have hretries : true = true ∧ ((f.objects 0).attempts : Int) ≤ (f.objects 0).retry.maxRetries ∧
      ¬ f.stopping = true := by
    refine ⟨rfl, ?_, ?_⟩
    · rw [hf.count, hf.retry]
      show ((n + 1 : Nat) : Int) ≤ 1025
      omega
    · rw [hf.stopping]
      exact Bool.false_ne_true
  have hdelay : (f.objects 0).retry.delay (f.objects 0).attempts 0 =
      stubbornJob.retry.delay (n + 1) 0 := by
    rw [hf.retry, hf.count]
  rw [afterFailure]
  dsimp only
  rw [if_pos (by exact hretries)]
  rcases Nat.lt_or_eq_of_le (Nat.le_of_lt_succ hn) with hlt | rfl
  · let w := f.modify 0 fun job => { job with runAt := 0 + 0 }
    have hmoves : JobStatus.retryWait ∈ transitions (w.status 0) := by
      show JobStatus.retryWait ∈ transitions (f.status 0)
      rw [hf.status]
      decide
    have hready : f.ready = [] := map_eq_nil_iff.mp hf.ready
    have henqueue : (w.moved 0 .retryWait).enqueue 0 0 = { w.moved 0 .retryWait with
        ready := heappush f.ready
          (toLex (f.strategy.key ((w.moved 0 .retryWait).objects 0), 0)) } := by
      rw [enqueue, if_neg (by show ¬ (0 : ℚ) < 0 + 0; norm_num)]
      rfl
    rw [show RetryPolicy.delay _ _ _ = some 0 from hdelay.trans (stubborn_delay hlt)]
    show ∃ u, (w.transition 0 .retryWait).map (fun s => s.enqueue 0 0) = .ok u ∧ _
    rw [transition_eq hmoves]
    refine ⟨_, congrArg Except.ok henqueue, ?_⟩
    rw [Failing, if_pos (by omega)]
    refine ⟨.retryWait, by decide, hf.numWorkers, rfl, hf.retry, hf.count, ?_, hf.delayed,
      hf.attempts, hf.cancelRequested,
      hf.stopping, hf.abandoned⟩
    show (heappush f.ready _).map _ = _
    rw [hready]
    rfl
  · rw [show RetryPolicy.delay _ _ _ = none from
      hdelay.trans ((stubbornJob.retry.delay_eq_none_iff 0).mpr le_rfl)]
    refine ⟨_, rfl, ?_⟩
    rw [Failing, if_neg (by omega)]
    refine ⟨hf.numWorkers, hf.status, hf.retry, hf.count, hf.ready, hf.delayed, hf.attempts,
      hf.cancelRequested, hf.stopping, ?_⟩
    show f.abandoned ++ [0] = [0]
    rw [hf.abandoned, nil_append]

theorem Failing.round (h : Failing n s) (hn : n < 1025) :
    ∃ os s', runSteps step s failingRound = .ok (os, s') ∧ Failing (n + 1) s' := by
  rw [Failing, if_pos hn] at h
  obtain ⟨status, hstatus, h⟩ := h
  obtain ⟨t, htake, hget, ht⟩ := h.take hstatus
  obtain ⟨u, hfail, hu⟩ := ht.fail hn
  have hnot : 0 ∉ t.cancelRequested := by
    rw [ht.cancelRequested]
    exact Finset.notMem_empty 0
  have hend : t.step (.endAttempt 0 (.raised "boom" true) 0 (clockAt 0)) =
      .ok (.attemptEnded 0, u) := by
    rw [step, hget]
    dsimp only
    rw [endAttempt]
    dsimp only
    rw [if_neg hnot, hfail]
    rfl
  exact ⟨_, u, runSteps_cons_ok htake (runSteps_cons_ok hend rfl), hu⟩

end JobScheduler

end InterviewPrep.JobScheduling
