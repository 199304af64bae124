/-
  What the tables of the scheduler say of each other (`Consistent`): a job that is not terminal is
  in one place, an unmet dependency may still complete, and the counter of unfinished jobs is
  right.  There is a place for what `finish` is in the middle of: the jobs on its stack, which are
  terminal and not counted off, and a job whose status is about to change.

  `finish` and its cascade: from a consistent state it succeeds, leaves a consistent state and
  does to the jobs what `Effect` says (`finish_spec`).  The induction is on the fuel, which the
  jobs that are not terminal bound; the loop over the waiting jobs keeps that whoever still waits
  for the finished job is yet to be visited (`Visiting`).
-/
import InterviewPrep.JobScheduling.Scheduler

namespace InterviewPrep.JobScheduling

open Lib Dict List Option

/-! ## Paths of transitions -/

/-- The notifications are a path of `_TRANSITIONS` from one status to another. -/
def Follows : JobStatus → List Notification → JobStatus → Prop
  | status, [], last => status = last
  | status, n :: ns, last => n.old = status ∧ n.new ∈ transitions status ∧ Follows n.new ns last

variable {first last : JobStatus} {ns : List Notification}

theorem Follows.append {status : JobStatus} {ns' : List Notification} (h : Follows first ns last)
    (h' : Follows last ns' status) : Follows first (ns ++ ns') status := by
  induction ns generalizing first with
  | nil => exact h ▸ h'
  | cons _ _ ih => exact ⟨h.1, h.2.1, ih h.2.2⟩

theorem Follows.terminal (h : Follows first ns last) (hfirst : first.isTerminal = true) :
    last = first := by
  cases ns with
  | nil => exact h.symm
  | cons =>
    have hmem := h.2.1
    rw [transitions_of_isTerminal hfirst] at hmem
    cases hmem

theorem Follows.mem_of_ne (h : Follows first ns last) (hne : last ≠ first) :
    ∃ n ∈ ns, n.new = last := by
  induction ns generalizing first with
  | nil => exact absurd h.symm hne
  | cons n _ ih =>
    by_cases hlast : last = n.new
    · exact ⟨n, mem_cons_self, hlast.symm⟩
    · obtain ⟨m, hm, heq⟩ := ih h.2.2 hlast
      exact ⟨m, mem_cons_of_mem n hm, heq⟩

namespace JobScheduler

variable {K : Type}

/-! ## Places -/

def Live (s : JobScheduler K) (id : JobId) : Prop := (s.status id).isTerminal = false

variable {id j : JobId}

theorem not_live {s : JobScheduler K} : ¬ s.Live id ↔ (s.status id).isTerminal = true := by
  rw [Live, Bool.not_eq_false]

theorem Live.of_status {s s' : JobScheduler K} (h : s'.status id = s.status id) :
    s'.Live id ↔ s.Live id := by
  rw [Live, Live, h]

/-- The jobs of the heaps. -/
def readyJobs (s : JobScheduler K) : List JobId := s.ready.map fun entry => (ofLex entry).2

def delayedJobs (s : JobScheduler K) : List JobId :=
  s.delayed.map fun entry => (ofLex (ofLex entry).2).2

/-- How often a job is with a worker, or was left behind by one. -/
def inHand (s : JobScheduler K) (id : JobId) : Nat :=
  (s.attempts.get? id).toList.length + s.abandoned.count id

/-- How often a job is runnable, delayed, blocked or in hand. -/
def places (s : JobScheduler K) (id : JobId) : Nat :=
  s.readyJobs.count id + s.delayedJobs.count id + (s.blocked.get? id).toList.length + s.inHand id

/-- The jobs that are known and not terminal. -/
def liveCount (s : JobScheduler K) : Nat := s.jobs.countP fun j => !(s.status j).isTerminal

/-- What listeners were told about a job. -/
def notes (s : JobScheduler K) (id : JobId) : List Notification := s.notified.filter (·.job = id)

/-! ## Consistency -/

/-- `stack`: the jobs that `finish` is at; `loose`: a job whose status is about to change. -/
structure Consistent (s : JobScheduler K) (stack : List JobId) (loose : Option JobId) : Prop where
  nodup : s.jobs.Nodup
  /-- a job that is not known and not terminal was not submitted -/
  unseen : ∀ id, id ∉ s.jobs → s.Live id →
    s.status id = .pending ∧ s.places id = 0 ∧ ∀ n ∈ s.notified, n.job ≠ id
  dead : ∀ id, ¬ s.Live id → s.blocked.get? id = none ∧ s.inHand id = 0
  place : ∀ id ∈ s.jobs, s.Live id → loose ≠ some id →
    s.places id = 1 ∧ (s.status id = .running ↔ 0 < s.inHand id)
  /-- an unmet dependency may complete, and then finds who waits for it -/
  unmet : ∀ id u, s.blocked.get? id = some u → u ≠ [] ∧ u.Nodup ∧
    ∀ d ∈ u, (s.Live d ∧ d ∈ s.jobs ∧ ∃ l, s.dependents.get? d = some l ∧ id ∈ l) ∨ d ∈ stack
  waiting : ∀ d l, s.dependents.get? d = some l → l.Nodup ∧ s.Live d ∧
    ∀ id ∈ l, s.Live id → ∃ u, s.blocked.get? id = some u ∧ d ∈ u
  count : s.unfinished = s.liveCount + stack.length
  idle : s.idle = true ↔ s.unfinished = 0
  finished : ∀ id ∈ s.finished, ¬ s.Live id
  path : ∀ id, Follows .pending (s.notes id) (s.status id)

variable {s s' s'' : JobScheduler K} {id : JobId} {stack : List JobId} {loose : Option JobId}

theorem Consistent.live_of_blocked (h : Consistent s stack loose) {u : List JobId}
    (hu : s.blocked.get? id = some u) : s.Live id ∧ id ∈ s.jobs := by
  have hlive : s.Live id := by
    by_contra hdead
    rw [(h.dead id hdead).1] at hu
    cases hu
  refine ⟨hlive, ?_⟩
  by_contra hnot
  have hplaces := (h.unseen id hnot hlive).2.1
  rw [places, hu] at hplaces
  simp at hplaces

theorem Consistent.live_of_inHand (h : Consistent s stack loose) (hpos : 0 < s.inHand id) :
    s.Live id ∧ id ∈ s.jobs := by
  have hlive : s.Live id := by
    by_contra hdead
    exact hpos.ne' (h.dead id hdead).2
  refine ⟨hlive, ?_⟩
  by_contra hnot
  have hplaces := (h.unseen id hnot hlive).2.1
  rw [places] at hplaces
  omega

theorem Consistent.loosen (h : Consistent s stack none) (loose : Option JobId) :
    Consistent s stack loose :=
  ⟨h.nodup, h.unseen, h.dead, fun id hid hlive _ => h.place id hid hlive (by simp),
    h.unmet, h.waiting,
    h.count, h.idle, h.finished, h.path⟩

theorem liveCount_pos (hid : id ∈ s.jobs) (hlive : s.Live id) : 0 < s.liveCount := by
  refine countP_pos_iff.mpr ⟨id, hid, ?_⟩
  rw [hlive]
  rfl

/-! ## What finishing jobs does -/

structure Effect (s s' : JobScheduler K) : Prop where
  /-- a status stays, or a job that was not terminal is now -/
  status : ∀ j, s'.status j = s.status j ∨ (s.Live j ∧ ¬ s'.Live j)
  blocked : ∀ j u', s'.blocked.get? j = some u' → ∃ u, s.blocked.get? j = some u ∧ u' ⊆ u
  /-- a dependency stays unmet until it completes, or the job is cancelled -/
  unmet : ∀ j u d, s.blocked.get? j = some u → d ∈ u →
    (∃ u', s'.blocked.get? j = some u' ∧ d ∈ u') ∨ s'.status j = .cancelled ∨
    s'.status d = .completed
  notes : ∃ more, s'.notified = s.notified ++ more ∧ ∀ n ∈ more, n.new.isTerminal = true
  attempts : s'.attempts = s.attempts
  abandoned : s'.abandoned = s.abandoned
  jobs : ∀ j ∈ s'.jobs, j ∈ s.jobs
  kept : ∀ j ∈ s.jobs, s'.Live j → j ∈ s'.jobs
  tries : ∀ j, (s'.objects j).attempts = (s.objects j).attempts

theorem Effect.refl (s : JobScheduler K) : Effect s s :=
  ⟨fun _ => .inl rfl, fun _ u h => ⟨u, h, fun _ hx => hx⟩, fun _ u _ h hd => .inl ⟨u, h, hd⟩,
    ⟨[], (append_nil _).symm, nofun⟩, rfl, rfl, fun _ h => h, fun _ h _ => h,
    fun _ => rfl⟩

theorem Effect.terminal (h : Effect s s') (hj : ¬ s.Live j) : s'.status j = s.status j := by
  rcases h.status j with heq | ⟨hlive, -⟩
  · exact heq
  · exact absurd hlive hj

theorem Effect.live (h : Effect s s') (hj : s'.Live j) : s.Live j := by
  by_contra hdead
  exact hdead ((Live.of_status (h.terminal hdead)).mp hj)

theorem Effect.trans (h : Effect s s') (h' : Effect s' s'') : Effect s s'' where
  status j := by
    rcases h.status j with heq | ⟨hlive, hdead⟩
    · rcases h'.status j with heq' | ⟨hlive', hdead'⟩
      · exact .inl (heq'.trans heq)
      · exact .inr ⟨(Live.of_status heq).mp hlive', hdead'⟩
    · refine .inr ⟨hlive, fun hlive'' => hdead (h'.live hlive'')⟩
  blocked j u'' hu'' := by
    obtain ⟨u', hu', hsub'⟩ := h'.blocked j u'' hu''
    obtain ⟨u, hu, hsub⟩ := h.blocked j u' hu'
    exact ⟨u, hu, fun _ hx => hsub (hsub' hx)⟩
  unmet j u d hu hd := by
    rcases h.unmet j u d hu hd with ⟨u', hu', hd'⟩ | hc | hc
    · exact h'.unmet j u' d hu' hd'
    · refine .inr (.inl ((h'.terminal ?_).trans hc))
      rw [not_live, hc]
      rfl
    · refine .inr (.inr ((h'.terminal ?_).trans hc))
      rw [not_live, hc]
      rfl
  notes := by
    obtain ⟨more, heq, hmore⟩ := h.notes
    obtain ⟨more', heq', hmore'⟩ := h'.notes
    refine ⟨more ++ more', ?_, fun n hn => ?_⟩
    · rw [heq', heq, append_assoc]
    · rcases mem_append.mp hn with hn | hn
      · exact hmore n hn
      · exact hmore' n hn
  attempts := h'.attempts.trans h.attempts
  abandoned := h'.abandoned.trans h.abandoned
  jobs j hj := h.jobs j (h'.jobs j hj)
  kept j hj hlive := h'.kept j (h.kept j hj (h'.live hlive)) hlive
  tries j := (h'.tries j).trans (h.tries j)

variable {K : Type} [LinearOrder K] {s s' : JobScheduler K} {id : JobId} {stack : List JobId}
  {loose : Option JobId} {status : JobStatus} {error : Option Failure}

/-! ## Writes -/

omit [LinearOrder K] in
theorem status_modify (s : JobScheduler K) (id : JobId) (f : Job → Job) (j : JobId) :
    (s.modify id f).status j = if j = id then (f (s.objects id)).status else s.status j := by
  unfold JobScheduler.status modify
  dsimp only
  split <;> rfl

omit [LinearOrder K] in
theorem field_modify {α : Type} (g : Job → α) (s : JobScheduler K) (id : JobId) {f : Job → Job}
    (hf : ∀ job, g (f job) = g job) (j : JobId) :
    g ((s.modify id f).objects j) = g (s.objects j) := by
  unfold modify
  dsimp only
  split
  case isTrue h => rw [hf, h]
  case isFalse => rfl

omit [LinearOrder K] in
theorem status_modify_same (s : JobScheduler K) (id : JobId) {f : Job → Job}
    (hf : ∀ job, (f job).status = job.status) (j : JobId) :
    (s.modify id f).status j = s.status j :=
  field_modify Job.status s id hf j

theorem enqueue_eq (s : JobScheduler K) (id : JobId) (now : ℚ) : s.enqueue id now =
      { s with ready := (s.enqueue id now).ready, delayed := (s.enqueue id now).delayed } := by
  rw [enqueue]
  split <;> rfl

@[simp] theorem status_enqueue (s : JobScheduler K) (id : JobId) (now : ℚ) (j : JobId) :
    (s.enqueue id now).status j = s.status j := by
  rw [enqueue_eq]
  rfl

theorem places_enqueue (s : JobScheduler K) (id : JobId) (now : ℚ) (j : JobId) :
    (s.enqueue id now).places j = s.places j + if j = id then 1 else 0 := by
  rw [enqueue]
  split
  · simp only [places, inHand, readyJobs, delayedJobs]
    rw [count_map_heappush]
    show _ + (_ + if j = id then 1 else 0) + _ + _ = _
    omega
  · simp only [places, inHand, readyJobs, delayedJobs]
    rw [count_map_heappush]
    show _ + (if j = id then 1 else 0) + _ + _ + _ = _
    omega

/-! ## Eviction -/

theorem evict_spec (historyLimit : Nat) (finished jobs : List JobId) :
    (∀ j ∈ (evict historyLimit finished jobs).1, j ∈ finished) ∧
      (evict historyLimit finished jobs).2.Sublist jobs ∧
      ∀ p : JobId → Bool, (∀ j ∈ finished, p j = false) →
        (evict historyLimit finished jobs).2.countP p = jobs.countP p ∧
        ∀ j ∈ jobs, p j = true → j ∈ (evict historyLimit finished jobs).2 := by
  induction finished generalizing jobs with
  | nil => exact ⟨fun _ h => h, List.Sublist.refl _, fun _ _ => ⟨rfl, fun _ h _ => h⟩⟩
  | cons old _ ih =>
    rw [evict]
    split
    · obtain ⟨hmem, hsub, hcount⟩ := ih (jobs.erase old)
      refine ⟨fun j hj => mem_cons_of_mem _ (hmem j hj), hsub.trans erase_sublist,
        fun p hp => ?_⟩
      obtain ⟨heq, hkept⟩ := hcount p fun j hj => hp j (mem_cons_of_mem _ hj)
      have hold : p old = false := hp old mem_cons_self
      refine ⟨heq.trans ?_, fun j hj hpj => hkept j ?_ hpj⟩
      · by_cases hmem : old ∈ jobs
        · rw [(perm_cons_erase hmem).countP_eq, countP_cons, hold]
          simp
        · rw [erase_of_not_mem hmem]
      · have hne : j ≠ old := by
          rintro rfl
          rw [hold] at hpj
          cases hpj
        exact (mem_erase_of_ne hne).mpr hj
    · exact ⟨fun _ h => h, List.Sublist.refl _, fun _ _ => ⟨rfl, fun _ h _ => h⟩⟩

/-! ## The first and the last thing that `finish` does -/

/-- The state after `_transition` and the pops of `_finish`. -/
def marked (s : JobScheduler K) (id : JobId) (status : JobStatus) (error : Option Failure) :
    JobScheduler K :=
  let s' := (s.modify id fun job => { job with lastError := error.or job.lastError }).modify id
    fun job => { job with status }
  { s' with
    notified := s.notified ++ [⟨id, s.status id, status⟩]
    cancelRequested := s.cancelRequested.erase id
    blocked := s.blocked.erase id
    dependents := s.dependents.erase id }

/-- What `_finish` does with a waiting job. -/
def visit (clock : Clock) (fuel : Nat) (id : JobId) (status : JobStatus) (s : JobScheduler K)
    (dependent : JobId) : Except SchedulerError (JobScheduler K) :=
  if dependent ∉ s.jobs ∨ (s.status dependent).isTerminal then .ok s
  else if status = .completed then .ok (s.unblock id dependent (clock.enqueue dependent))
  else finish clock fuel s dependent .cancelled (some (.upstream id status))

theorem finish_succ (clock : Clock) (fuel : Nat) (hlive : s.Live id)
    (hstatus : status ∈ transitions (s.status id)) : finish clock (fuel + 1) s id status error =
      (((s.dependents.get? id).getD []).foldlM (visit clock fuel id status)
        (s.marked id status error)).map (·.countOff id) := by
  have htransition :
      (s.modify id fun job => { job with lastError := error.or job.lastError }).transition
      id status = .ok { (s.modify id fun job =>
        { job with lastError := error.or job.lastError }).modify id
        (fun job => { job with status }) with
        notified := s.notified ++ [⟨id, s.status id, status⟩] } := by
    rw [transition, status_modify_same s id (f := fun job =>
      { job with lastError := error.or job.lastError }) fun _ => rfl, if_neg (not_not.mpr hstatus)]
    rfl
  rw [finish, if_neg (by rw [hlive]; simp), htransition]
  rfl

section

omit [LinearOrder K]

theorem marked_status (s : JobScheduler K) (id : JobId) (status : JobStatus)
    (error : Option Failure)
    (j : JobId) : (s.marked id status error).status j = if j = id then status else s.status j := by
  refine (status_modify (s.modify id fun job => { job with lastError := error.or job.lastError }) id
    (fun job => { job with status }) j).trans ?_
  by_cases h : j = id
  · rw [if_pos h, if_pos h]
  · rw [if_neg h, if_neg h, status_modify_same s id (f := fun job =>
      { job with lastError := error.or job.lastError }) fun _ => rfl]

theorem marked_status_self (s : JobScheduler K) (id : JobId) (status : JobStatus)
    (error : Option Failure) : (s.marked id status error).status id = status := by
  rw [marked_status, if_pos rfl]

variable {j dependent : JobId} {remaining : List JobId}

theorem marked_live_of_ne (hne : j ≠ id) : (s.marked id status error).Live j ↔ s.Live j :=
  Live.of_status (by rw [marked_status, if_neg hne])

theorem marked_not_live (hstatus : status.isTerminal = true) :
    ¬ (s.marked id status error).Live id := by
  rw [not_live, marked_status_self]
  exact hstatus

theorem marked_places_of_ne (hne : j ≠ id) :
    (s.marked id status error).places j = s.places j := by
  show _ + ((s.blocked.erase id).get? j).toList.length + _ = _
  rw [get?_erase_of_ne _ hne]
  rfl

theorem marked_notes (s : JobScheduler K) (id : JobId) (status : JobStatus) (error : Option Failure)
    (j : JobId) : (s.marked id status error).notes j =
      s.notes j ++ if j = id then [⟨id, s.status id, status⟩] else [] := by
  show (s.notified ++ [_]).filter _ = _
  rw [filter_append, ← notes]
  by_cases h : j = id
  · subst h
    simp
  · simp [h, Ne.symm h]

theorem marked_liveCount (hnodup : s.jobs.Nodup) (hid : id ∈ s.jobs) (hlive : s.Live id)
    (hstatus : status.isTerminal = true) :
    (s.marked id status error).liveCount + 1 = s.liveCount := by
  show s.jobs.countP _ + 1 = _
  have hperm := perm_cons_erase hid
  have hrest : (s.jobs.erase id).countP (fun j =>
      !((s.marked id status error).status j).isTerminal) =
      (s.jobs.erase id).countP fun j => !(s.status j).isTerminal := by
    refine countP_congr fun j hj => ?_
    have hne : j ≠ id := fun heq => (List.Nodup.not_mem_erase hnodup) (heq ▸ hj)
    rw [marked_status, if_neg hne]
  rw [liveCount, hperm.countP_eq, hperm.countP_eq, countP_cons, countP_cons, hrest,
    marked_status_self, hstatus, hlive]
  rfl

/-- Whoever waits for `id` is one of the jobs to be visited. -/
structure Visiting (s : JobScheduler K) (id : JobId) (remaining : List JobId) : Prop where
  nodup : remaining.Nodup
  waits : ∀ j u, s.blocked.get? j = some u → id ∈ u → j ∈ remaining
  blocked : ∀ j ∈ remaining, s.Live j → ∃ u, s.blocked.get? j = some u ∧ id ∈ u

theorem marked_consistent (h : Consistent s stack (some id)) (hid : id ∈ s.jobs) (hlive : s.Live id)
    (hterminal : status.isTerminal = true) (hstatus : status ∈ transitions (s.status id))
    (hattempts : s.inHand id = 0) (hstack : id ∉ stack) :
    Consistent (s.marked id status error) (id :: stack) none := by
  have hne : ∀ j, (s.marked id status error).Live j → j ≠ id := by
    rintro j hj rfl
    exact marked_not_live hterminal hj
  have hblocked : ∀ j u, (s.marked id status error).blocked.get? j = some u →
      j ≠ id ∧ s.blocked.get? j = some u := fun j u hu => get?_erase_some hu
  refine ⟨h.nodup, fun j hj hjlive => ?_, fun j hdead => ?_, fun j hj hjlive _ => ?_,
    fun j u hu => ?_, fun d l hl => ?_, ?_, h.idle, fun j hj => ?_, fun j => ?_⟩
  · have hji := hne j hjlive
    obtain ⟨hpending, hplaces, hnotes⟩ := h.unseen j hj ((marked_live_of_ne hji).mp hjlive)
    refine ⟨?_, (marked_places_of_ne hji).trans hplaces, fun n hn => ?_⟩
    · rw [marked_status, if_neg hji]
      exact hpending
    · rcases mem_append.mp hn with hn | hn
      · exact hnotes n hn
      · rw [mem_singleton.mp hn]
        exact Ne.symm hji
  · by_cases hji : j = id
    · subst hji
      exact ⟨get?_erase_self _ _, hattempts⟩
    · obtain ⟨hb, ha⟩ := h.dead j fun hjlive => hdead ((marked_live_of_ne hji).mpr hjlive)
      exact ⟨(get?_erase_of_ne _ hji).trans hb, ha⟩
  · have hji := hne j hjlive
    rw [marked_places_of_ne hji, marked_status, if_neg hji]
    exact h.place j hj ((marked_live_of_ne hji).mp hjlive) fun heq => hji (some.inj heq).symm
  · obtain ⟨hji, hu⟩ := hblocked j u hu
    obtain ⟨hnil, hnodup, hall⟩ := h.unmet j u hu
    refine ⟨hnil, hnodup, fun d hd => ?_⟩
    by_cases hdi : d = id
    · exact .inr (hdi ▸ mem_cons_self)
    · rcases hall d hd with ⟨hdlive, hdjobs, l, hl, hjl⟩ | hd
      · exact .inl ⟨(marked_live_of_ne hdi).mpr hdlive, hdjobs, l,
          (get?_erase_of_ne _ hdi).trans hl, hjl⟩
      · exact .inr (mem_cons_of_mem _ hd)
  · obtain ⟨hdi, hl⟩ := get?_erase_some hl
    obtain ⟨hnodup, hdlive, hall⟩ := h.waiting d l hl
    refine ⟨hnodup, (marked_live_of_ne hdi).mpr hdlive, fun j hj hjlive => ?_⟩
    have hji := hne j hjlive
    obtain ⟨u, hu, hdu⟩ := hall j hj ((marked_live_of_ne hji).mp hjlive)
    exact ⟨u, (get?_erase_of_ne _ hji).trans hu, hdu⟩
  · have hcount : (s.marked id status error).liveCount + 1 = s.liveCount :=
      marked_liveCount h.nodup hid hlive hterminal
    have hunfinished := h.count
    show s.unfinished = _
    rw [length_cons]
    omega
  · by_cases hji : j = id
    · exact hji ▸ marked_not_live hterminal
    · rw [marked_live_of_ne hji]
      exact h.finished j hj
  · rw [marked_notes, marked_status]
    by_cases hji : j = id
    · subst hji
      rw [if_pos rfl, if_pos rfl]
      exact (h.path j).append ⟨rfl, hstatus, rfl⟩
    · rw [if_neg hji, if_neg hji, append_nil]
      exact h.path j

theorem marked_effect (hlive : s.Live id) (hterminal : status.isTerminal = true)
    (hcancelled : status = .cancelled ∨ s.blocked.get? id = none) :
    Effect s (s.marked id status error) where
  status j := by
    by_cases hji : j = id
    · exact .inr ⟨hji ▸ hlive, hji ▸ marked_not_live hterminal⟩
    · rw [marked_status, if_neg hji]
      exact .inl rfl
  blocked j u hu := ⟨u, (get?_erase_some hu).2, fun _ h => h⟩
  unmet j u d hu hd := by
    by_cases hji : j = id
    · subst hji
      rcases hcancelled with hc | hc
      · exact .inr (.inl ((marked_status_self s j status error).trans hc))
      · rw [hc] at hu
        cases hu
    · exact .inl ⟨u, (get?_erase_of_ne _ hji).trans hu, hd⟩
  notes := ⟨[⟨id, s.status id, status⟩], rfl, fun n hn => by
    rw [mem_singleton.mp hn]
    exact hterminal⟩
  attempts := rfl
  abandoned := rfl
  jobs _ h := h
  kept _ h _ := h
  tries j := by
    refine (field_modify Job.attempts (s.modify id fun job =>
      { job with lastError := error.or job.lastError }) id (f := fun job => { job with status })
        (fun _ => rfl) j).trans ?_
    exact field_modify Job.attempts s id
      (f := fun job => { job with lastError := error.or job.lastError }) (fun _ => rfl) j

theorem marked_visiting (h : Consistent s stack (some id)) (hid : id ∉ stack)
    (hterminal : status.isTerminal = true) :
    Visiting (s.marked id status error) id ((s.dependents.get? id).getD []) := by
  refine ⟨?_, fun j u hu hiu => ?_, fun j hj hjlive => ?_⟩
  · cases hl : s.dependents.get? id with
    | none => exact nodup_nil
    | some l => exact (h.waiting id l hl).1
  · obtain ⟨-, hu⟩ := get?_erase_some hu
    rcases (h.unmet j u hu).2.2 id hiu with ⟨-, -, l, hl, hjl⟩ | hmem
    · rw [hl]
      exact hjl
    · exact absurd hmem hid
  have hji : j ≠ id := by
    rintro rfl
    exact marked_not_live hterminal hjlive
  cases hl : s.dependents.get? id with
  | none => rw [hl] at hj; cases hj
  | some l =>
    rw [hl] at hj
    obtain ⟨u, hu, hiu⟩ := (h.waiting id l hl).2.2 j hj ((marked_live_of_ne hji).mp hjlive)
    exact ⟨u, (get?_erase_of_ne _ hji).trans hu, hiu⟩

/-! ## A visit to a waiting job -/

theorem Visiting.skip (h : Consistent s stack none)
    (hvisiting : Visiting s id (dependent :: remaining))
    (hskip : dependent ∉ s.jobs ∨ ¬ s.Live dependent) : Visiting s id remaining := by
  refine ⟨(nodup_cons.mp hvisiting.nodup).2, fun j u hu hiu => ?_, fun j hj hjlive =>
    hvisiting.blocked j (mem_cons_of_mem _ hj) hjlive⟩
  rcases mem_cons.mp (hvisiting.waits j u hu hiu) with rfl | hj
  · obtain ⟨hlive, hjobs⟩ := h.live_of_blocked hu
    exact absurd hlive (hskip.resolve_left (not_not.mpr hjobs))
  · exact hj

end

section Unblock

variable {dependent : JobId} {remaining u : List JobId}

section

variable (hu : s.blocked.get? dependent = some u)

include hu

theorem unblock_eq (now : ℚ) :
    s.unblock id dependent now =
      if u.erase id = [] then { s with blocked := s.blocked.erase dependent }.enqueue dependent now
      else { s with blocked := s.blocked.set dependent (u.erase id) } := by
  rw [unblock, hu]

theorem status_unblock (now : ℚ) (j : JobId) :
    (s.unblock id dependent now).status j = s.status j := by
  rw [unblock_eq hu]
  split
  · rw [status_enqueue]
    rfl
  · rfl

theorem unblock_fields (now : ℚ) : s.unblock id dependent now = { s with
      ready := (s.unblock id dependent now).ready
      delayed := (s.unblock id dependent now).delayed
      blocked := if u.erase id = [] then s.blocked.erase dependent
        else s.blocked.set dependent (u.erase id) } := by
  rw [unblock_eq hu]
  split
  · rw [enqueue_eq]
  · rfl

theorem unblock_blocked (now : ℚ) {j : JobId} {v : List JobId} :
    (s.unblock id dependent now).blocked.get? j = some v ↔
      (j = dependent ∧ v = u.erase id ∧ v ≠ []) ∨ (j ≠ dependent ∧ s.blocked.get? j = some v) := by
  rw [unblock_fields hu]
  by_cases hj : j = dependent
  · subst hj
    by_cases hnil : u.erase id = []
    · simp only [if_pos hnil, get?_erase_self]
      simp only [reduceCtorEq, true_and, ne_eq, not_true_eq_false, false_and, or_false, false_iff]
      rintro ⟨rfl, hne⟩
      exact hne hnil
    · simp only [if_neg hnil, get?_set_self, Option.some.injEq, true_and, ne_eq,
        not_true_eq_false, false_and, or_false]
      constructor
      · rintro rfl
        exact ⟨rfl, hnil⟩
      · exact fun h => h.1.symm
  · have hget : (if u.erase id = [] then s.blocked.erase dependent
        else s.blocked.set dependent (u.erase id)).get? j = s.blocked.get? j := by
      split
      · exact get?_erase_of_ne _ hj
      · exact get?_set_of_ne _ _ hj
    simp only [hget, hj, false_and, ne_eq, not_false_eq_true, true_and, false_or]

theorem unblock_places (now : ℚ) (j : JobId) :
    (s.unblock id dependent now).places j = s.places j := by
  rw [unblock_eq hu]
  by_cases hnil : u.erase id = []
  · rw [if_pos hnil, places_enqueue]
    by_cases hj : j = dependent
    · subst hj
      simp only [places, inHand, readyJobs, delayedJobs, get?_erase_self, hu, toList_none,
        toList_some, length_nil, length_singleton, if_true]
      omega
    · simp only [places, inHand, readyJobs, delayedJobs, get?_erase_of_ne _ hj, if_neg hj]
      omega
  · rw [if_neg hnil]
    by_cases hj : j = dependent
    · subst hj
      simp only [places, inHand, readyJobs, delayedJobs, get?_set_self, hu, toList_some,
        length_singleton]
    · simp only [places, inHand, readyJobs, delayedJobs, get?_set_of_ne _ _ hj]

end

theorem unblock_consistent (h : Consistent s (id :: stack) none) (hid : ¬ s.Live id)
    (hu : s.blocked.get? dependent = some u) (now : ℚ) :
    Consistent (s.unblock id dependent now) (id :: stack) none := by
  have hstatus : ∀ j, (s.unblock id dependent now).status j = s.status j := status_unblock hu now
  have hlive : ∀ j, (s.unblock id dependent now).Live j ↔ s.Live j :=
    fun j => Live.of_status (hstatus j)
  have hplaces : ∀ j, (s.unblock id dependent now).places j = s.places j := unblock_places hu now
  have hfields := @unblock_fields K _ s id dependent u hu now
  have hblocked := @unblock_blocked K _ s id dependent u hu now
  have hdependents : (s.unblock id dependent now).dependents = s.dependents := by rw [hfields]
  have hjobs : (s.unblock id dependent now).jobs = s.jobs := by rw [hfields]
  have hinHand : ∀ j, (s.unblock id dependent now).inHand j = s.inHand j := by
    intro j
    rw [hfields]
    rfl
  have hnotified : (s.unblock id dependent now).notified = s.notified := by rw [hfields]
  refine ⟨hjobs ▸ h.nodup, fun j hj hjlive => ?_, fun j hdead => ⟨?_, ?_⟩, fun j hj hjlive _ => ?_,
    fun j v hv => ?_, fun d l hl => ?_, ?_, ?_, fun j hj => ?_, fun j => ?_⟩
  · rw [hjobs] at hj
    rw [hlive] at hjlive
    rw [hstatus, hplaces, hnotified]
    exact h.unseen j hj hjlive
  · rw [hlive] at hdead
    cases hb : (s.unblock id dependent now).blocked.get? j with
    | none => rfl
    | some =>
      rcases hblocked.mp hb with ⟨rfl, -, -⟩ | ⟨-, hv⟩
      · exact absurd (h.live_of_blocked hu).1 hdead
      · exact absurd (h.live_of_blocked hv).1 hdead
  · rw [hlive] at hdead
    rw [hinHand]
    exact (h.dead j hdead).2
  · rw [hjobs] at hj
    rw [hlive] at hjlive
    rw [hplaces, hstatus, hinHand]
    exact h.place j hj hjlive (by simp)
  · rw [hdependents, hjobs]
    simp only [hlive]
    rcases hblocked.mp hv with ⟨rfl, rfl, hnil⟩ | ⟨-, hv⟩
    · obtain ⟨-, hnodup, hall⟩ := h.unmet j u hu
      exact ⟨hnil, hnodup.erase id, fun d hd => hall d (mem_of_mem_erase hd)⟩
    · exact h.unmet j v hv
  · rw [hdependents] at hl
    obtain ⟨hnodup, hdlive, hall⟩ := h.waiting d l hl
    refine ⟨hnodup, (hlive d).mpr hdlive, fun j hj hjlive => ?_⟩
    obtain ⟨v, hv, hdv⟩ := hall j hj ((hlive j).mp hjlive)
    by_cases hjd : j = dependent
    · subst hjd
      rw [hu, Option.some.injEq] at hv
      subst hv
      have hne : d ≠ id := by
        rintro rfl
        exact hid hdlive
      have hmem : d ∈ u.erase id := (mem_erase_of_ne hne).mpr hdv
      exact ⟨u.erase id, hblocked.mpr (.inl ⟨rfl, rfl, ne_nil_of_mem hmem⟩), hmem⟩
    · exact ⟨v, hblocked.mpr (.inr ⟨hjd, hv⟩), hdv⟩
  · have hcount : (s.unblock id dependent now).liveCount = s.liveCount := by
      rw [liveCount, hjobs]
      exact countP_congr fun j _ => by rw [hstatus]
    rw [hcount, ← h.count, hfields]
  · have hcount := h.idle
    rw [hfields]
    exact hcount
  · rw [hlive]
    rw [hfields] at hj
    exact h.finished j hj
  · rw [notes, hnotified, hstatus]
    exact h.path j

theorem unblock_effect (hu : s.blocked.get? dependent = some u) (now : ℚ)
    (hcompleted : s.status id = .completed) : Effect s (s.unblock id dependent now) := by
  have hstatus : ∀ j, (s.unblock id dependent now).status j = s.status j := status_unblock hu now
  have hfields := @unblock_fields K _ s id dependent u hu now
  have hblocked := @unblock_blocked K _ s id dependent u hu now
  refine ⟨fun j => .inl (hstatus j), fun j v hv => ?_, fun j v d hv hdv => ?_,
    ⟨[], by rw [hfields, append_nil], nofun⟩, by rw [hfields], by rw [hfields],
    fun j hj => by rw [hfields] at hj; exact hj, fun j hj _ => by rw [hfields]; exact hj,
    fun j => by rw [hfields]⟩
  · rcases hblocked.mp hv with ⟨rfl, rfl, -⟩ | ⟨-, hv⟩
    · exact ⟨u, hu, fun _ hx => mem_of_mem_erase hx⟩
    · exact ⟨v, hv, fun _ hx => hx⟩
  by_cases hdi : d = id
  · exact .inr (.inr ((hstatus d).trans (hdi ▸ hcompleted)))
  by_cases hjd : j = dependent
  · subst hjd
    rw [hu, Option.some.injEq] at hv
    subst hv
    have hmem : d ∈ u.erase id := (mem_erase_of_ne hdi).mpr hdv
    exact .inl ⟨u.erase id, hblocked.mpr (.inl ⟨rfl, rfl, ne_nil_of_mem hmem⟩), hmem⟩
  · exact .inl ⟨v, hblocked.mpr (.inr ⟨hjd, hv⟩), hdv⟩

theorem unblock_visiting (h : Consistent s (id :: stack) none)
    (hu : s.blocked.get? dependent = some u) (now : ℚ)
    (hvisiting : Visiting s id (dependent :: remaining)) :
    Visiting (s.unblock id dependent now) id remaining := by
  have hstatus : ∀ j, (s.unblock id dependent now).status j = s.status j := status_unblock hu now
  have hblocked := @unblock_blocked K _ s id dependent u hu now
  obtain ⟨hnot, hnodup⟩ := nodup_cons.mp hvisiting.nodup
  refine ⟨hnodup, fun j v hv hiv => ?_, fun j hj hjlive => ?_⟩
  · rcases hblocked.mp hv with ⟨rfl, rfl, -⟩ | ⟨hjd, hv⟩
    · exact absurd hiv (List.Nodup.not_mem_erase (h.unmet j u hu).2.1)
    · exact (mem_cons.mp (hvisiting.waits j v hv hiv)).resolve_left hjd
  · have hjd : j ≠ dependent := fun heq => hnot (heq ▸ hj)
    obtain ⟨v, hv, hiv⟩ := hvisiting.blocked j (mem_cons_of_mem _ hj)
      ((Live.of_status (hstatus j)).mp hjlive)
    exact ⟨v, hblocked.mpr (.inr ⟨hjd, hv⟩), hiv⟩

end Unblock

section

omit [LinearOrder K]

theorem Visiting.cancelled
    (hvisiting : Visiting s id (dependent :: remaining)) (heffect : Effect s s')
    (hcancelled : ¬ s'.Live dependent) (hdead : s'.blocked.get? dependent = none)
    (hid : s'.status id ≠ .completed) : Visiting s' id remaining := by
  refine ⟨(nodup_cons.mp hvisiting.nodup).2, fun j v hv hiv => ?_, fun j hj hjlive => ?_⟩
  · obtain ⟨u, hu, hsub⟩ := heffect.blocked j v hv
    rcases mem_cons.mp (hvisiting.waits j u hu (hsub hiv)) with rfl | hj
    · rw [hdead] at hv
      cases hv
    · exact hj
  · obtain ⟨u, hu, hiu⟩ := hvisiting.blocked j (mem_cons_of_mem _ hj) (heffect.live hjlive)
    rcases heffect.unmet j u id hu hiu with h | hc | hc
    · exact h
    · rw [Live, hc] at hjlive
      cases hjlive
    · exact absurd hc hid

/-! ## Counting off -/

theorem countOff_consistent (h : Consistent s (id :: stack) none) (hid : ¬ s.Live id)
    (hvisiting : Visiting s id []) : Consistent (s.countOff id) stack none := by
  obtain ⟨hfin, hsub, hcount⟩ := evict_spec s.historyLimit (s.finished ++ [id]) s.jobs
  have hfinished : ∀ j ∈ s.finished ++ [id], ¬ s.Live j := by
    intro j hj
    rcases mem_append.mp hj with hj | hj
    · exact h.finished j hj
    · rw [mem_singleton.mp hj]
      exact hid
  obtain ⟨hlives, hkept⟩ := hcount (fun j => !(s.status j).isTerminal) fun j hj => by
    rw [not_live.mp (hfinished j hj)]
    rfl
  have hkept' : ∀ j ∈ s.jobs, s.Live j → j ∈ (s.countOff id).jobs := by
    intro j hj hjlive
    refine hkept j hj ?_
    rw [hjlive]
    rfl
  have hunfinished : s.unfinished = s.liveCount + (stack.length + 1) := by
    have hc := h.count
    rw [length_cons] at hc
    omega
  have hnew : (s.countOff id).unfinished = s.unfinished - 1 := rfl
  refine ⟨hsub.nodup h.nodup, fun j hj hjlive => ?_, h.dead, fun j hj hjlive hloose =>
    h.place j (hsub.subset hj) hjlive hloose, fun j u hu => ?_, h.waiting, ?_, ?_,
    fun j hj => hfinished j (hfin j hj), h.path⟩
  · exact h.unseen j (fun hmem => hj (hkept' j hmem hjlive)) hjlive
  · obtain ⟨hnil, hnodup, hall⟩ := h.unmet j u hu
    refine ⟨hnil, hnodup, fun d hd => ?_⟩
    rcases hall d hd with ⟨hdlive, hdjobs, hl⟩ | hmem
    · exact .inl ⟨hdlive, hkept' d hdjobs hdlive, hl⟩
    · rcases mem_cons.mp hmem with rfl | hmem
      · cases hvisiting.waits j u hu hd
      · exact .inr hmem
  · have hlive : (s.countOff id).liveCount = s.liveCount := hlives
    rw [hnew, hlive]
    omega
  · rw [hnew]
    show (if s.unfinished - 1 = 0 then true else s.idle) = true ↔ _
    split
    case isTrue hzero => simp [hzero]
    case isFalse =>
      rw [h.idle]
      omega

theorem countOff_effect (h : Consistent s (id :: stack) none) (hid : ¬ s.Live id) :
    Effect s (s.countOff id) := by
  obtain ⟨-, hsub, hcount⟩ := evict_spec s.historyLimit (s.finished ++ [id]) s.jobs
  refine ⟨fun _ => .inl rfl, fun _ u hu => ⟨u, hu, fun _ hx => hx⟩, fun _ u _ hu hd =>
    .inl ⟨u, hu, hd⟩,
    ⟨[], (append_nil _).symm, nofun⟩, rfl, rfl, fun j hj => hsub.subset hj,
    fun j hj hjlive => ?_, fun _ => rfl⟩
  refine (hcount (fun j => !(s.status j).isTerminal) fun j hj => ?_).2 j hj ?_
  · rcases mem_append.mp hj with hj | hj
    · rw [not_live.mp (h.finished j hj)]
      rfl
    · rw [mem_singleton.mp hj, not_live.mp hid]
      rfl
  · have hlive : s.Live j := hjlive
    rw [hlive]
    rfl

/-! ## The cascade -/

/-- What `finish` comes to. -/
structure Finished (s : JobScheduler K) (id : JobId) (status : JobStatus) (stack : List JobId)
    (s' : JobScheduler K) : Prop where
  consistent : Consistent s' stack none
  effect : Effect s s'
  status_eq : s'.status id = status
  liveCount_lt : s'.liveCount < s.liveCount

theorem Effect.liveCount_le (h : Effect s s') (hnodup : s'.jobs.Nodup) :
    s'.liveCount ≤ s.liveCount := by
  rw [liveCount, liveCount, countP_eq_length_filter, countP_eq_length_filter]
  refine List.Subperm.length_le (subperm_of_subset (hnodup.filter _) fun j hj => ?_)
  obtain ⟨hj, hjlive⟩ := mem_filter.mp hj
  refine mem_filter.mpr ⟨h.jobs j hj, ?_⟩
  rw [Bool.not_eq_true'] at hjlive ⊢
  exact h.live hjlive

end

theorem finish_spec (clock : Clock) (fuel : Nat) :
    ∀ {s : JobScheduler K} {id : JobId} {status : JobStatus} {stack : List JobId}
      (error : Option Failure), Consistent s stack (some id) → id ∈ s.jobs → s.Live id →
      s.liveCount ≤ fuel → status.isTerminal = true → status ∈ transitions (s.status id) →
      (status = .cancelled ∨ s.blocked.get? id = none) → s.inHand id = 0 → id ∉ stack →
      (∀ j ∈ stack, ¬ s.Live j) →
      ∃ s', finish clock fuel s id status error = .ok s' ∧ Finished s id status stack s' := by
  induction fuel with
  | zero =>
    intro s id status stack error h hid hlive hfuel
    have hpos := liveCount_pos hid hlive
    omega
  | succ fuel ih =>
    intro s id status stack error h hid hlive hfuel hterminal hstatus hcancelled hattempts hstack
      hdead
    rw [finish_succ clock fuel hlive hstatus]
    -- the loop over the waiting jobs
    have hloop : ∀ (remaining : List JobId) (t : JobScheduler K),
        Consistent t (id :: stack) none → Visiting t id remaining → t.status id = status →
        t.liveCount ≤ fuel → (∀ j ∈ stack, ¬ t.Live j) →
        ∃ t', remaining.foldlM (visit clock fuel id status) t = .ok t' ∧
          Consistent t' (id :: stack) none ∧ Effect t t' ∧ Visiting t' id [] := by
      intro remaining
      induction remaining with
      | nil => exact fun t ht hvisiting _ _ _ => ⟨t, rfl, ht, .refl t, hvisiting⟩
      | cons dependent remaining ihr =>
        intro t ht hvisiting htid htfuel htdead
        have htterminal : ¬ t.Live id := not_live.mpr (htid ▸ hterminal)
        -- the visit of the first one
        have hvisit : ∃ t1, visit clock fuel id status t dependent = .ok t1 ∧
            Consistent t1 (id :: stack) none ∧ Effect t t1 ∧ Visiting t1 id remaining := by
          rw [visit]
          split
          case isTrue hskip =>
            rw [← not_live] at hskip
            exact ⟨t, rfl, ht, .refl t, hvisiting.skip ht hskip⟩
          case isFalse hvisit =>
          rw [not_or, not_not, ← not_live, not_not] at hvisit
          obtain ⟨hdjobs, hdlive⟩ := hvisit
          obtain ⟨u, hu, hiu⟩ := hvisiting.blocked dependent mem_cons_self hdlive
          split
          case isTrue hcompleted =>
            exact ⟨_, rfl, unblock_consistent ht htterminal hu _,
              unblock_effect hu _ (htid.trans hcompleted), unblock_visiting ht hu _ hvisiting⟩
          case isFalse hcompleted =>
          have hnotin : dependent ∉ id :: stack := by
            intro hmem
            rcases mem_cons.mp hmem with rfl | hmem
            · exact htterminal hdlive
            · exact htdead dependent hmem hdlive
          have hnone : t.inHand dependent = 0 := by
            have hplace := (ht.place dependent hdjobs hdlive (by simp)).1
            rw [places, hu, toList_some, length_singleton] at hplace
            omega
          obtain ⟨t1, hok, hfinished⟩ := ih (some (.upstream id status)) (ht.loosen _) hdjobs
            hdlive htfuel rfl (cancelled_mem_transitions (by rw [hdlive]; simp)) (.inl rfl)
            hnone hnotin (by
              intro j hj
              rcases mem_cons.mp hj with rfl | hj
              · exact htterminal
              · exact htdead j hj)
          have hdead1 : ¬ t1.Live dependent := by
            rw [not_live, hfinished.status_eq]
            rfl
          refine ⟨t1, hok, hfinished.consistent, hfinished.effect,
            hvisiting.cancelled hfinished.effect hdead1
              (hfinished.consistent.dead dependent hdead1).1 ?_⟩
          rw [hfinished.effect.terminal htterminal, htid]
          exact hcompleted
        obtain ⟨t1, hok, ht1, heffect1, hvisiting1⟩ := hvisit
        have hid1 : t1.status id = status := (heffect1.terminal htterminal).trans htid
        obtain ⟨t', hok', ht', heffect', hvisiting'⟩ := ihr t1 ht1 hvisiting1 hid1
          (le_trans (heffect1.liveCount_le ht1.nodup) htfuel)
          fun j hj hjlive => htdead j hj (heffect1.live hjlive)
        refine ⟨t', ?_, ht', heffect1.trans heffect', hvisiting'⟩
        rw [foldlM_cons, hok]
        exact hok'
    have hmarked : (s.marked id status error).liveCount + 1 = s.liveCount :=
      marked_liveCount h.nodup hid hlive hterminal
    have hmarkedEffect : Effect s (s.marked id status error) :=
      marked_effect hlive hterminal hcancelled
    obtain ⟨t, hok, ht, heffect, hvisiting⟩ := hloop ((s.dependents.get? id).getD [])
      (s.marked id status error)
      (marked_consistent h hid hlive hterminal hstatus hattempts hstack)
      (marked_visiting h hstack hterminal) (marked_status_self s id status error) (by omega)
      fun j hj hjlive => hdead j hj (hmarkedEffect.live hjlive)
    have hid' : ¬ t.Live id := fun hl => marked_not_live hterminal (heffect.live hl)
    have hfinal := countOff_consistent ht hid' hvisiting
    have hoff := countOff_effect ht hid'
    refine ⟨t.countOff id, by rw [hok]; rfl, hfinal, hmarkedEffect.trans (heffect.trans hoff),
      ?_, ?_⟩
    · refine (hoff.terminal hid').trans ((heffect.terminal (marked_not_live hterminal)).trans ?_)
      exact marked_status_self s id status error
    · have hle := (heffect.trans hoff).liveCount_le hfinal.nodup
      omega

theorem finishJob_spec (h : Consistent s [] (some id)) (hid : id ∈ s.jobs) (hlive : s.Live id)
    (hterminal : status.isTerminal = true) (hstatus : status ∈ transitions (s.status id))
    (hcancelled : status = .cancelled ∨ s.blocked.get? id = none)
    (hattempts : s.inHand id = 0) (error : Option Failure) (clock : Clock) :
    ∃ s', s.finishJob id status error clock = .ok s' ∧ Finished s id status [] s' := by
  have hfuel : s.liveCount ≤ s.jobs.length + 1 := Nat.le_succ_of_le countP_le_length
  exact finish_spec clock _ error h hid hlive hfuel hterminal hstatus hcancelled hattempts
    (not_mem_nil) (nofun)

end JobScheduler

end InterviewPrep.JobScheduling
