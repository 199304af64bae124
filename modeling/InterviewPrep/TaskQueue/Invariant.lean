/-
  What holds of the tasks while the lock is held.  `Unsettled` is what the locked section has
  yet to do, and `Tasks.Ok` the invariant with it: with nothing left to do it is the invariant
  between the locked sections.  A change of one task is checked at that task and at the
  others (`Ok.set`, `Ok.concluded`).
-/
import InterviewPrep.Lib.Totals
import InterviewPrep.TaskQueue.Queue

namespace InterviewPrep.TaskQueue

open Lib Dict List Option

/-- Where a locked section is. -/
structure Unsettled where
  /-- the tasks that a worker runs -/
  running : String → Prop
  /-- the task that the section is about, which need not be where its status says -/
  current : String → Prop
  /-- dependencies that have succeeded, and are still counted -/
  debt : String → Nat
  /-- tasks that are to be cancelled, for a dependency that did not succeed -/
  doomed : String → Prop
  /-- the dependencies that the task has been registered with -/
  deps : String → List String

/-- The two say the same of a task. -/
structure Unsettled.SameAt (u u' : Unsettled) (x : String) : Prop where
  running : u'.running x ↔ u.running x
  current : u'.current x ↔ u.current x
  debt : u'.debt x = u.debt x
  doomed : u'.doomed x ↔ u.doomed x
  deps : u'.deps x = u.deps x

theorem Unsettled.SameAt.refl (u : Unsettled) (x : String) : u.SameAt u x :=
  ⟨Iff.rfl, Iff.rfl, rfl, Iff.rfl, rfl⟩

/-- What is left to do when `t` has reached the terminal status `st`. -/
def Unsettled.conclude (u : Unsettled) (t : Task) (st : Status) : Unsettled :=
  { u with
    current := fun _ => False
    debt := fun x => u.debt x + if st = .succeeded then t.dependents.count x else 0
    doomed := fun x => u.doomed x ∨ st ≠ .succeeded ∧ x ∈ t.dependents }

theorem Unsettled.conclude_succeeded (u : Unsettled) (t : Task) : u.conclude t .succeeded =
      { u with current := fun _ => False, debt := fun x => u.debt x + t.dependents.count x } := by
  simp [conclude]

theorem Unsettled.conclude_of_ne (u : Unsettled) (t : Task) {st : Status} (hst : st ≠ .succeeded) :
    u.conclude t st =
      { u with current := fun _ => False, doomed := fun x => u.doomed x ∨ x ∈ t.dependents } := by
  simp [conclude, hst]

abbrev Tasks := Dict String Task

namespace Tasks

/-- `none` for a task that there is not. -/
def status (tasks : Tasks) (id : String) : Option Status := (tasks.get? id).map Task.status

/-- The number of dependencies that have not succeeded. -/
def unfinished (tasks : Tasks) (deps : List String) : Nat :=
  deps.countP fun d => tasks.status d ≠ some .succeeded

/-- The number of tasks that are not terminal. -/
def live (tasks : Tasks) : Nat := tasks.total fun t => if t.status.terminal then 0 else 1

/-- A task by itself. -/
structure LocalOk (u : Unsettled) (id : String) (t : Task) : Prop where
  keyed : t.spec.id = id
  running : t.status = .running → u.running id ∨ u.current id
  held : u.running id → t.status = .running ∧ t.ctx.isSome
  ctx : t.ctx.isSome → u.running id
  done : t.done = t.status.terminal
  unblocked : t.status.terminal = false → t.status ≠ .blocked → t.waitingOn = 0
  blocked : t.status = .blocked → 0 < t.waitingOn ∨ u.current id
  attempts : 0 ≤ t.attempts ∧ t.attempts ≤ t.spec.maxAttempts
  attempting : t.status.terminal = false → t.status ≠ .running →
    t.attempts < t.spec.maxAttempts
  unattempted : t.status = .blocked → t.attempts = 0
  attempted : t.status = .running ∨ t.status = .succeeded ∨ t.status = .failed → 0 < t.attempts
  flagged : t.cancelRequested → t.status = .running ∨ t.status.terminal

/-- A task and those that it depends on, or that depend on it. -/
structure Linked (u : Unsettled) (tasks : Tasks) (id : String) (t : Task) : Prop where
  waiting : t.status.terminal = false →
    t.waitingOn = (tasks.unfinished (u.deps id) : Int) + u.debt id
  deps : t.status.terminal = false → ∀ d ∈ u.deps id, ∃ td, tasks.get? d = some td ∧
    (td.status.terminal → td.status = .succeeded ∨ u.doomed id)
  registered : t.status.terminal = false → ∀ d td, tasks.get? d = some td →
    td.status.terminal = false → td.dependents.count id = (u.deps id).count d
  dependents : ∀ d ∈ t.dependents, tasks.get? d ≠ none
  ran : 0 < t.attempts → ∀ d ∈ t.spec.dependsOn, tasks.status d = some .succeeded

structure TaskOk (u : Unsettled) (tasks : Tasks) (id : String) (t : Task) : Prop
    extends LocalOk u id t, Linked u tasks id t

def Ok (u : Unsettled) (tasks : Tasks) : Prop := ∀ id t, tasks.get? id = some t →
    TaskOk u tasks id t

/-! ## Changes of one task -/

variable {u u' : Unsettled} {tasks : Tasks} {id x : String} {t t' tx : Task}

theorem status_of_get? (h : tasks.get? id = some t) : tasks.status id = some t.status := by
  rw [status, h]
  rfl

theorem status_set_self : Tasks.status (tasks.set id t') id = some t'.status := by
  rw [status, get?_set_self]
  rfl

theorem status_set_of_ne (h : x ≠ id) : Tasks.status (tasks.set id t') x = tasks.status x := by
  rw [status, get?_set_of_ne _ _ h]
  rfl

theorem Ok.change (h : Ok u tasks) (hself : TaskOk u' (tasks.set id t') id t')
    (hother : ∀ x tx, x ≠ id → tasks.get? x = some tx → TaskOk u tasks x tx →
      TaskOk u' (tasks.set id t') x tx) : Ok u' (tasks.set id t') := by
  intro x tx hx
  rcases get?_set_some hx with ⟨rfl, rfl⟩ | ⟨hne, hx⟩
  · exact hself
  · exact hother x tx hne hx (h x tx hx)

theorem unfinished_congr {tasks' : Tasks}
    (h : ∀ d, tasks'.status d = some .succeeded ↔ tasks.status d = some .succeeded)
    (deps : List String) : tasks'.unfinished deps = tasks.unfinished deps := by
  apply countP_congr
  intro d _
  simp only [ne_eq, decide_not, Bool.not_eq_true', decide_eq_false_iff_not, h]

theorem unfinished_succeeded (ht : tasks.get? id = some t) (hopen : t.status.terminal = false)
    (hst : t'.status = .succeeded) (deps : List String) :
    tasks.unfinished deps = Tasks.unfinished (tasks.set id t') deps + deps.count id := by
  have hid : tasks.status id ≠ some .succeeded := by
    rw [status_of_get? ht]
    intro heq
    rw [some.inj heq] at hopen
    cases hopen
  induction deps with
  | nil => rfl
  | cons d _ ih =>
    unfold unfinished at ih ⊢
    rw [countP_cons, countP_cons, count_cons, ih]
    by_cases hd : d = id
    · subst hd
      simp [hid, status_set_self, hst]
      omega
    · simp [hd, status_set_of_ne hd]
      omega

theorem succeeded_set (ht : tasks.get? id = some t) (hopen : t.status.terminal = false) {d : String}
    (hd : tasks.status d = some .succeeded) :
    Tasks.status (tasks.set id t') d = some .succeeded := by
  have hne : d ≠ id := by
    intro heq
    rw [heq, status_of_get? ht] at hd
    rw [some.inj hd] at hopen
    cases hopen
  rw [status_set_of_ne hne, hd]

theorem LocalOk.sameAt (h : LocalOk u id t) (hsame : u.SameAt u' id) : LocalOk u' id t := by
  constructor
  · exact h.keyed
  · rw [hsame.running, hsame.current]
    exact h.running
  · rw [hsame.running]
    exact h.held
  · rw [hsame.running]
    exact h.ctx
  · exact h.done
  · exact h.unblocked
  · rw [hsame.current]
    exact h.blocked
  · exact h.attempts
  · exact h.attempting
  · exact h.unattempted
  · exact h.attempted
  · exact h.flagged

theorem LocalOk.unflagged (h : LocalOk u id t) (hopen : t.status.terminal = false)
    (hst : t.status ≠ .running) : t.cancelRequested = false := by
  by_contra hflag
  rw [Bool.not_eq_false] at hflag
  rcases h.flagged hflag with heq | heq
  · exact hst heq
  · rw [hopen] at heq
    cases heq

theorem LocalOk.queue (h : LocalOk u id t) (hopen : t.status.terminal = false)
    (hidle : ¬ u.running id) (hidle' : ¬ u'.running id) (hflag : t.cancelRequested = false)
    (hattempts : t.attempts < t.spec.maxAttempts) {st : Status}
    (hst : st = .ready ∨ st = .scheduled)
    {waitingOn : Int} (hwaiting : waitingOn = 0) (runAt : Time) (err : Option TaskError) :
    LocalOk u' id { t with status := st, waitingOn := waitingOn, runAt := runAt, err := err } := by
  have hst' : st ≠ .running ∧ st ≠ .blocked ∧ st ≠ .succeeded ∧ st ≠ .failed ∧
      st.terminal = false := by
    rcases hst with rfl | rfl <;> decide
  constructor
  · exact h.keyed
  · exact fun heq => absurd heq hst'.1
  · exact fun hrun => absurd hrun hidle'
  · exact fun hctx => absurd (h.ctx hctx) hidle
  · show t.done = st.terminal
    rw [h.done, hopen, hst'.2.2.2.2]
  · exact fun _ _ => hwaiting
  · exact fun heq => absurd heq hst'.2.1
  · exact h.attempts
  · exact fun _ _ => hattempts
  · exact fun heq => absurd heq hst'.2.1
  · rintro (heq | heq | heq)
    · exact absurd heq hst'.1
    · exact absurd heq hst'.2.2.1
    · exact absurd heq hst'.2.2.2.1
  · intro hcancel
    have hcancel : t.cancelRequested = true := hcancel
    rw [hflag] at hcancel
    cases hcancel

theorem get?_set_ne_none {d : String} (hd : tasks.get? d ≠ none) :
    Dict.get? (tasks.set id t') d ≠ none := by
  by_cases hdid : d = id
  · subst hdid
    rw [get?_set_self]
    exact some_ne_none _
  · rw [get?_set_of_ne _ _ hdid]
    exact hd

theorem Linked.change (hx : Linked u tasks x tx) (t' : Task) (ht : tasks.get? id = some t)
    (hstatus : t'.status = t.status ∨ t.status.terminal = false ∧ t'.status.terminal = false)
    (hcount : t.status.terminal ∨ t'.dependents.count x = t.dependents.count x) :
    Linked u (tasks.set id t') x tx := by
  have hterminal : t'.status.terminal = t.status.terminal := by
    rcases hstatus with h | ⟨h, h'⟩
    · rw [h]
    · rw [h, h']
  have hsucceeded : t'.status = .succeeded ↔ t.status = .succeeded := by
    rcases hstatus with h | ⟨h, h'⟩
    · rw [h]
    constructor
    · intro hst
      rw [hst] at h'
      cases h'
    · intro hst
      rw [hst] at h
      cases h
  have hst : ∀ d, Tasks.status (tasks.set id t') d = some .succeeded ↔
      tasks.status d = some .succeeded := by
    intro d
    by_cases hd : d = id
    · subst hd
      rw [status_set_self, status_of_get? ht, some_inj, some_inj, hsucceeded]
    · rw [status_set_of_ne hd]
  constructor
  · rw [unfinished_congr hst]
    exact hx.waiting
  · intro hopen d hd
    obtain ⟨td, htd, hbad⟩ := hx.deps hopen d hd
    by_cases hdid : d = id
    · subst hdid
      rw [ht] at htd
      obtain rfl := some.inj htd
      refine ⟨t', get?_set_self _ _ _, ?_⟩
      rw [hterminal, hsucceeded]
      exact hbad
    · exact ⟨td, by rw [get?_set_of_ne _ _ hdid, htd], hbad⟩
  · intro hopen d td htd htdopen
    rcases get?_set_some htd with ⟨rfl, rfl⟩ | ⟨_, htd⟩
    · rw [hterminal] at htdopen
      rcases hcount with h | h
      · rw [h] at htdopen
        cases htdopen
      · rw [h]
        exact hx.registered hopen d t ht htdopen
    · exact hx.registered hopen d td htd htdopen
  · exact fun d hd => get?_set_ne_none (hx.dependents d hd)
  · intro hran d hd
    exact (hst d).mpr (hx.ran hran d hd)

theorem Linked.sameAt (h : Linked u tasks id t) (hsame : u.SameAt u' id) :
    Linked u' tasks id t := by
  constructor
  · rw [hsame.deps, hsame.debt]
    exact h.waiting
  · rw [hsame.deps, hsame.doomed]
    exact h.deps
  · rw [hsame.deps]
    exact h.registered
  · exact h.dependents
  · exact h.ran

theorem Ok.set (h : Ok u tasks) (t' : Task) (ht : tasks.get? id = some t)
    (hopen : t.status.terminal = false)
    (hopen' : t'.status.terminal = false) (hdependents : t'.dependents = t.dependents)
    (hspec : t'.spec = t.spec) (hsame : ∀ x, x ≠ id → u.SameAt u' x)
    (hdeps : u'.deps id = u.deps id) (hdoomed : u'.doomed id ↔ u.doomed id)
    (hwaiting : t'.waitingOn - u'.debt id = t.waitingOn - u.debt id)
    (hran : 0 < t'.attempts → ∀ d ∈ t.spec.dependsOn, tasks.status d = some .succeeded)
    (hlocal : LocalOk u' id t') : Ok u' (tasks.set id t') := by
  have hok := h id t ht
  apply h.change
  · refine ⟨hlocal, ?_⟩
    have hlinked := hok.toLinked.change t' ht (Or.inr ⟨hopen, hopen'⟩)
      (Or.inr (by rw [hdependents]))
    constructor
    · intro _
      have := hlinked.waiting hopen
      rw [hdeps]
      omega
    · intro _
      rw [hdeps, hdoomed]
      exact hlinked.deps hopen
    · intro _
      rw [hdeps]
      exact hlinked.registered hopen
    · rw [hdependents]
      exact hlinked.dependents
    · rw [hspec]
      exact fun hpos d hd => succeeded_set ht hopen (hran hpos d hd)
  · intro x tx hne _ hx
    exact ⟨hx.toLocalOk.sameAt (hsame x hne), (hx.toLinked.change t' ht (Or.inr ⟨hopen, hopen'⟩)
      (Or.inr (by rw [hdependents]))).sameAt (hsame x hne)⟩

theorem Linked.concluded (hx : Linked u tasks x tx) (t' : Task) (ht : tasks.get? id = some t)
    (hopen : t.status.terminal = false) (hterminal : t'.status.terminal) :
    Linked (u.conclude t t'.status) (tasks.set id t') x tx := by
  constructor
  · intro hxopen
    rw [hx.waiting hxopen]
    show (tasks.unfinished (u.deps x) : Int) + u.debt x =
      (Tasks.unfinished (tasks.set id t') (u.deps x) : Int) +
        ((u.debt x + if t'.status = .succeeded then t.dependents.count x else 0 : Nat) : Int)
    by_cases hst : t'.status = .succeeded
    · rw [if_pos hst, hx.registered hxopen id t ht hopen, unfinished_succeeded ht hopen hst]
      omega
    rw [if_neg hst]
    have hunfinished : Tasks.unfinished (tasks.set id t') (u.deps x) =
        tasks.unfinished (u.deps x) := by
      apply unfinished_congr
      intro d
      by_cases hd : d = id
      · subst hd
        rw [status_set_self, status_of_get? ht, some_inj, some_inj]
        refine iff_of_false hst ?_
        intro heq
        rw [heq] at hopen
        cases hopen
      · rw [status_set_of_ne hd]
    rw [hunfinished]
    omega
  · intro hxopen d hd
    obtain ⟨td, htd, hbad⟩ := hx.deps hxopen d hd
    by_cases hdid : d = id
    · subst hdid
      refine ⟨t', get?_set_self _ _ _, fun _ => ?_⟩
      by_cases hst : t'.status = .succeeded
      · exact Or.inl hst
      · have hcount := hx.registered hxopen d t ht hopen
        refine Or.inr (Or.inr ⟨hst, count_pos_iff.mp ?_⟩)
        rw [hcount]
        exact count_pos_iff.mpr hd
    · exact ⟨td, by rw [get?_set_of_ne _ _ hdid, htd], fun h => (hbad h).imp_right Or.inl⟩
  · intro hxopen d td htd htdopen
    rcases get?_set_some htd with ⟨rfl, rfl⟩ | ⟨_, htd⟩
    · rw [hterminal] at htdopen
      cases htdopen
    · exact hx.registered hxopen d td htd htdopen
  · exact fun d hd => get?_set_ne_none (hx.dependents d hd)
  · exact fun hran d hd => succeeded_set ht hopen (hx.ran hran d hd)

theorem Ok.concluded (h : Ok u tasks) (ht : tasks.get? id = some t)
    (hopen : t.status.terminal = false) (hidle : ¬ u.running id)
    (hcurrent : ∀ x, u.current x → x = id) {st : Status} (hst : st.terminal)
    (hattempted : st ≠ .cancelled → 0 < t.attempts) (value : Option String)
    (err : Option TaskError) : Ok (u.conclude t st)
      (tasks.set id { t with status := st, value := value, err := err, done := true }) := by
  have hok := h id t ht
  have hnot : ∀ P : Prop, st.terminal = false → P := by
    intro P hlive
    rw [hst] at hlive
    cases hlive
  apply h.change
  · constructor
    · constructor
      · exact hok.keyed
      · rintro rfl
        cases hst
      · exact fun hrun => absurd hrun hidle
      · exact hok.ctx
      · exact hst.symm
      · exact hnot _
      · rintro rfl
        cases hst
      · exact hok.attempts
      · exact hnot _
      · rintro rfl
        cases hst
      · intro hst'
        apply hattempted
        rintro rfl
        rcases hst' with h | h | h <;> cases h
      · exact fun _ => Or.inr hst
    · constructor
      · exact hnot _
      · exact hnot _
      · exact hnot _
      · exact fun d hd => get?_set_ne_none (hok.dependents d hd)
      · exact fun hran d hd => succeeded_set ht hopen (hok.ran hran d hd)
  · intro x tx hne _ hx
    have hlinked := hx.toLinked.concluded
      { t with status := st, value := value, err := err, done := true } ht hopen hst
    refine ⟨⟨hx.keyed, ?_, hx.held, hx.ctx, hx.done, hx.unblocked, ?_, hx.attempts, hx.attempting,
      hx.unattempted, hx.attempted, hx.flagged⟩, hlinked⟩
    · exact fun hrun => (hx.running hrun).imp_right fun hcur => hne (hcurrent x hcur)
    · exact fun hblocked => (hx.blocked hblocked).imp_right fun hcur => hne (hcurrent x hcur)

theorem Ok.sameOpen (h : Ok u tasks) (hrunning : u'.running = u.running)
    (hcurrent : u'.current = u.current)
    (hsame : ∀ x tx, tasks.get? x = some tx → tx.status.terminal = false → u.SameAt u' x) :
    Ok u' tasks := by
  intro x tx htx
  have hok := h x tx htx
  cases hst : tx.status.terminal with
  | false =>
    exact ⟨hok.toLocalOk.sameAt (hsame x tx htx hst), hok.toLinked.sameAt (hsame x tx htx hst)⟩
  | true =>
  have hnot : ∀ P : Prop, tx.status.terminal = false → P := by
    intro P hlive
    rw [hst] at hlive
    cases hlive
  constructor
  · refine ⟨hok.keyed, ?_, ?_, ?_, hok.done, hok.unblocked, ?_, hok.attempts, hok.attempting,
      hok.unattempted, hok.attempted, hok.flagged⟩
    · rw [hrunning, hcurrent]
      exact hok.running
    · rw [hrunning]
      exact hok.held
    · rw [hrunning]
      exact hok.ctx
    · rw [hcurrent]
      exact hok.blocked
  · exact ⟨hnot _, hnot _, hnot _, hok.dependents, hok.ran⟩

theorem Ok.forget (h : Ok u tasks) (ht : tasks.get? id = some t) (hst : t.status.terminal) :
    Ok u (tasks.set id { t with dependents := [] }) := by
  have hok := h id t ht
  apply h.change
  · have hlinked := hok.toLinked.change { t with dependents := [] } ht (Or.inl rfl) (Or.inl hst)
    exact ⟨⟨hok.keyed, hok.running, hok.held, hok.ctx, hok.done, hok.unblocked, hok.blocked,
      hok.attempts, hok.attempting, hok.unattempted, hok.attempted, hok.flagged⟩,
      ⟨hlinked.waiting, hlinked.deps, hlinked.registered, nofun,
        hlinked.ran⟩⟩
  · exact fun x tx _ _ hx => ⟨hx.toLocalOk, hx.toLinked.change _ ht (Or.inl rfl) (Or.inl hst)⟩

theorem Ok.dependent_blocked (h : Ok u tasks) (ht : tasks.get? id = some t)
    (hopen : t.status.terminal = false) (hx : x ∈ t.dependents) (htx : tasks.get? x = some tx)
    (hxopen : tx.status.terminal = false) : tx.status = .blocked := by
  have hok := h x tx htx
  have hmem : id ∈ u.deps x := by
    apply count_pos_iff.mp
    rw [← hok.registered hxopen id t ht hopen]
    exact count_pos_iff.mpr hx
  have hid : tasks.status id ≠ some .succeeded := by
    rw [status_of_get? ht]
    intro heq
    rw [some.inj heq] at hopen
    cases hopen
  have hpos : 0 < tasks.unfinished (u.deps x) := by
    apply countP_pos_iff.mpr
    exact ⟨id, hmem, by simpa using hid⟩
  by_contra hst
  have hzero := hok.unblocked hxopen hst
  have hwaiting := hok.waiting hxopen
  omega

theorem live_set (ht : tasks.get? id = some t) (t' : Task) :
    (if t.status.terminal then 0 else 1) + Tasks.live (tasks.set id t') =
      (if t'.status.terminal then 0 else 1) + tasks.live :=
  total_set_of_get? ht t' fun t => if t.status.terminal then 0 else 1

theorem live_le_size (tasks : Tasks) : tasks.live ≤ tasks.size := by
  rw [live, Dict.total, Dict.values, Dict.size]
  induction tasks.items with
  | nil => exact Nat.le_refl _
  | cons =>
    simp only [map_cons, sum_cons, length_cons]
    split <;> omega

end Tasks

end InterviewPrep.TaskQueue
