/-
  The ready heap has the tasks that are ready, and the delayed heap those that are scheduled
  (`TaskTable.Heaps`); what the queue does with a task keeps it so.

  `finalizeLocked` and the invariant.  A task that succeeds leaves its dependents one
  dependency less (`resolve_succeeded`); with any other terminal status they are cancelled,
  and so are theirs (`finalize_spec`).  The depth suffices.
-/
import InterviewPrep.TaskQueue.Invariant
import Mathlib.Data.Prod.Lex

namespace InterviewPrep.TaskQueue

open Lib Dict List Option Tasks

/-! ## The two orders -/

theorem byPriority_iff (a b : Task) : byPriority a b = true ↔
    toLex (-a.spec.priority, a.seq) < toLex (-b.spec.priority, b.seq) := by
  rw [Prod.Lex.toLex_lt_toLex, byPriority]
  by_cases h : a.spec.priority = b.spec.priority
  · simp [h]
  · simp [h]

theorem byRunAt_iff (a b : Task) : byRunAt a b = true ↔
    toLex (a.runAt, a.seq) < toLex (b.runAt, b.seq) := by
  rw [Prod.Lex.toLex_lt_toLex, byRunAt]
  by_cases h : a.runAt = b.runAt
  · simp [h]
  · simp [h]

/-- In one of the heaps. -/
def Status.queued : Status → Bool
  | .ready | .scheduled => true
  | _ => false

namespace TaskTable

variable {tt : TaskTable} {id x : String} {f : Task → Task}

theorem less_byPriority_iff (tt : TaskTable) (a b : String) : tt.less byPriority a b = true ↔
    toLex (-(tt.task a).spec.priority, (tt.task a).seq) <
      toLex (-(tt.task b).spec.priority, (tt.task b).seq) := byPriority_iff _ _

theorem less_byRunAt_iff (tt : TaskTable) (a b : String) : tt.less byRunAt a b = true ↔
    toLex ((tt.task a).runAt, (tt.task a).seq) < toLex ((tt.task b).runAt, (tt.task b).seq) :=
  byRunAt_iff _ _

/-! ## One task -/

@[simp] theorem update_tasks (tt : TaskTable) (id : String) (f : Task → Task) :
    (tt.update id f).tasks = tt.tasks.set id (f (tt.task id)) := rfl

@[simp] theorem update_outstanding (tt : TaskTable) (id : String) (f : Task → Task) :
    (tt.update id f).outstanding = tt.outstanding := rfl

@[simp] theorem onReady_tasks (tt : TaskTable)
    (f : TaskHeap (tt.less byPriority) → TaskHeap (tt.less byPriority)) :
    (tt.onReady f).tasks = tt.tasks := rfl

@[simp] theorem onReady_outstanding (tt : TaskTable)
    (f : TaskHeap (tt.less byPriority) → TaskHeap (tt.less byPriority)) :
    (tt.onReady f).outstanding = tt.outstanding := rfl

@[simp] theorem onDelayed_tasks (tt : TaskTable)
    (f : TaskHeap (tt.less byRunAt) → TaskHeap (tt.less byRunAt)) :
    (tt.onDelayed f).tasks = tt.tasks := rfl

@[simp] theorem onDelayed_outstanding (tt : TaskTable)
    (f : TaskHeap (tt.less byRunAt) → TaskHeap (tt.less byRunAt)) :
    (tt.onDelayed f).outstanding = tt.outstanding := rfl

@[simp] theorem task_update_self (tt : TaskTable) (id : String) (f : Task → Task) :
    (tt.update id f).task id = f (tt.task id) := by
  rw [task, update_tasks, get?_set_self]
  rfl

theorem task_update_of_ne (tt : TaskTable) (f : Task → Task) (h : x ≠ id) :
    (tt.update id f).task x = tt.task x := by
  rw [task, update_tasks, get?_set_of_ne _ _ h]
  rfl

theorem task_of_get? {t : Task} (h : tt.tasks.get? id = some t) : tt.task id = t := by
  rw [task, h]
  rfl

theorem update_update (tt : TaskTable) (id : String) (f g : Task → Task) :
    (tt.update id f).update id g = tt.update id fun t => g (f t) := by
  show TaskTable.mk ((tt.tasks.set id _).set id (g ((tt.update id f).task id))) .. = _
  rw [Dict.set_set, task_update_self]
  rfl

/-! ## The heaps -/

abbrev status (tt : TaskTable) (id : String) : Option Status := Tasks.status tt.tasks id

structure Heaps (tt : TaskTable) : Prop where
  ready : (⟨tt.ready, tt.heapIdx⟩ : TaskHeap (tt.less byPriority)).Valid
  delayed : (⟨tt.delayed, tt.heapIdx⟩ : TaskHeap (tt.less byRunAt)).Valid
  mem_ready : ∀ id, id ∈ tt.ready ↔ tt.status id = some .ready
  mem_delayed : ∀ id, id ∈ tt.delayed ↔ tt.status id = some .scheduled

theorem Heaps.disjoint (h : tt.Heaps) : ∀ id ∈ tt.ready, id ∉ tt.delayed := by
  intro id hready hdelayed
  rw [h.mem_ready] at hready
  rw [h.mem_delayed, hready] at hdelayed
  cases hdelayed

theorem Heaps.not_mem (h : tt.Heaps) (hid : (tt.task id).status.queued = false) :
    id ∉ tt.ready ∧ id ∉ tt.delayed := by
  rw [h.mem_ready, h.mem_delayed]
  unfold status Tasks.status
  rw [task] at hid
  cases hget : tt.tasks.get? id with
  | none => simp
  | some t =>
  rw [hget, getD_some] at hid
  constructor
  · intro heq
    have hst : t.status = .ready := some.inj heq
    rw [hst] at hid
    cases hid
  · intro heq
    have hst : t.status = .scheduled := some.inj heq
    rw [hst] at hid
    cases hid

variable {items rest : List String}

theorem less_update (tt : TaskTable) (order : Task → Task → Bool) (f : Task → Task)
    (hid : id ∉ items) :
    ∀ a ∈ items, ∀ b ∈ items, (tt.update id f).less order a b = tt.less order a b := by
  intro a ha b hb
  rw [less, less, task_update_of_ne _ _ (ne_of_mem_of_not_mem ha hid),
    task_update_of_ne _ _ (ne_of_mem_of_not_mem hb hid)]

theorem valid_update {order : Task → Task → Bool} {idx : String → Int} (f : Task → Task)
    (hv : (⟨items, idx⟩ : TaskHeap (tt.less order)).Valid) (hid : id ∉ items) :
    (⟨items, idx⟩ : TaskHeap ((tt.update id f).less order)).Valid :=
  hv.congr (less_update tt order f hid) fun _ _ => rfl

theorem status_update_of_ne (tt : TaskTable) (f : Task → Task) (h : x ≠ id) :
    (tt.update id f).status x = tt.status x := status_set_of_ne h

theorem status_update_self (tt : TaskTable) (id : String) (f : Task → Task) :
    (tt.update id f).status id = some (f (tt.task id)).status := status_set_self

theorem Heaps.update (h : tt.Heaps) (hid : (tt.task id).status.queued = false)
    (hid' : (f (tt.task id)).status.queued = false) : (tt.update id f).Heaps := by
  obtain ⟨hready, hdelayed⟩ := h.not_mem hid
  have hmem : ∀ {st : Status} {items : List String}, st.queued → id ∉ items →
      (∀ x, x ∈ items ↔ tt.status x = some st) →
      ∀ x, x ∈ items ↔ (tt.update id f).status x = some st := by
    intro st items hst hnot hitems x
    by_cases hx : x = id
    · subst hx
      rw [status_update_self]
      refine iff_of_false hnot ?_
      intro heq
      rw [some.inj heq, hst] at hid'
      cases hid'
    · rw [status_update_of_ne _ _ hx]
      exact hitems x
  constructor
  · exact valid_update f h.ready hready
  · exact valid_update f h.delayed hdelayed
  · exact hmem rfl hready h.mem_ready
  · exact hmem rfl hdelayed h.mem_delayed

theorem Heaps.updateSame (h : tt.Heaps) (hst : (f (tt.task id)).status = (tt.task id).status)
    (hspec : (f (tt.task id)).spec = (tt.task id).spec)
    (hseq : (f (tt.task id)).seq = (tt.task id).seq)
    (hrunAt : (f (tt.task id)).runAt = (tt.task id).runAt) (hget : tt.tasks.get? id ≠ none) :
    (tt.update id f).Heaps := by
  have hsame : ∀ x, ((tt.update id f).task x).status = (tt.task x).status ∧
      ((tt.update id f).task x).spec = (tt.task x).spec ∧
      ((tt.update id f).task x).seq = (tt.task x).seq ∧
      ((tt.update id f).task x).runAt = (tt.task x).runAt := by
    intro x
    by_cases hx : x = id
    · subst hx
      rw [task_update_self]
      exact ⟨hst, hspec, hseq, hrunAt⟩
    · rw [task_update_of_ne _ _ hx]
      exact ⟨rfl, rfl, rfl, rfl⟩
  have hstatus : ∀ x, (tt.update id f).status x = tt.status x := by
    intro x
    by_cases hx : x = id
    · subst hx
      rw [status_update_self, hst]
      cases hx : tt.tasks.get? x with
      | none => exact absurd hx hget
      | some => rw [task_of_get? hx, status, status_of_get? hx]
    · exact status_update_of_ne _ _ hx
  constructor
  · refine h.ready.congr (fun a _ b _ => ?_) fun _ _ => rfl
    show (tt.update id f).less byPriority a b = tt.less byPriority a b
    simp only [less, byPriority, hsame]
  · refine h.delayed.congr (fun a _ b _ => ?_) fun _ _ => rfl
    show (tt.update id f).less byRunAt a b = tt.less byRunAt a b
    simp only [less, byRunAt, hsame]
  · intro x
    rw [hstatus]
    exact h.mem_ready x
  · intro x
    rw [hstatus]
    exact h.mem_delayed x

theorem mem_iff_update {items' : List String} {st : Status} (hid : id ∉ items)
    (hmem : ∀ x, x ∈ items ↔ tt.status x = some st)
    (hmem' : ∀ x, x ∈ items' ↔ x = id ∧ (f (tt.task id)).status = st ∨ x ∈ items) (x : String) :
    x ∈ items' ↔ (tt.update id f).status x = some st := by
  rw [hmem']
  by_cases hx : x = id
  · subst hx
    rw [status_update_self, some.injEq]
    exact (or_iff_left hid).trans (and_iff_right rfl)
  · rw [status_update_of_ne _ _ hx, ← hmem]
    exact or_iff_right fun h => hx h.1

theorem Heaps.pushReady (h : tt.Heaps) (hid : (tt.task id).status.queued = false)
    (hid' : (f (tt.task id)).status = .ready) :
    ((tt.update id f).onReady fun h => h.push id).Heaps := by
  obtain ⟨hready, hdelayed⟩ := h.not_mem hid
  obtain ⟨hpush, hother, hmem⟩ := IndexedHeap.push_beside (valid_update f h.ready hready)
    (valid_update f h.delayed hdelayed) h.disjoint (less_byPriority_iff (tt.update id f)) hready
    hdelayed
  refine ⟨hpush, hother, mem_iff_update hready h.mem_ready ?_,
    mem_iff_update hdelayed h.mem_delayed ?_⟩
  · exact fun x => (hmem x).trans (or_congr_left (and_iff_left hid').symm)
  · exact fun x => (or_iff_right fun hx => by rw [hid'] at hx; cases hx.2).symm

theorem Heaps.pushDelayed (h : tt.Heaps) (hid : (tt.task id).status.queued = false)
    (hid' : (f (tt.task id)).status = .scheduled) :
    ((tt.update id f).onDelayed fun h => h.push id).Heaps := by
  obtain ⟨hready, hdelayed⟩ := h.not_mem hid
  obtain ⟨hpush, hother, hmem⟩ := IndexedHeap.push_beside (valid_update f h.delayed hdelayed)
    (valid_update f h.ready hready) (fun r hr hr' => h.disjoint r hr' hr)
    (less_byRunAt_iff (tt.update id f)) hdelayed hready
  refine ⟨hother, hpush, mem_iff_update hready h.mem_ready ?_,
    mem_iff_update hdelayed h.mem_delayed ?_⟩
  · exact fun x => (or_iff_right fun hx => by rw [hid'] at hx; cases hx.2).symm
  · exact fun x => (hmem x).trans (or_congr_left (and_iff_left hid').symm)

theorem Heaps.leave {r d : List String} {idx : String → Int} (h : tt.Heaps)
    (hid : (f (tt.task id)).status.queued = false)
    (hready : (⟨r, idx⟩ : TaskHeap (tt.less byPriority)).Valid)
    (hdelayed : (⟨d, idx⟩ : TaskHeap (tt.less byRunAt)).Valid)
    (hr : ∀ x, x ∈ r ↔ x ≠ id ∧ x ∈ tt.ready) (hd : ∀ x, x ∈ d ↔ x ≠ id ∧ x ∈ tt.delayed) :
    (TaskTable.update { tt with ready := r, delayed := d, heapIdx := idx } id f).Heaps := by
  have hmem : ∀ {st : Status} {items items' : List String}, st.queued →
      (∀ x, x ∈ items ↔ tt.status x = some st) → (∀ x, x ∈ items' ↔ x ≠ id ∧ x ∈ items) →
      ∀ x, x ∈ items' ↔ (tt.update id f).status x = some st := by
    intro st items items' hst hitems hitems' x
    rw [hitems', hitems]
    by_cases hx : x = id
    · subst hx
      rw [status_update_self]
      refine iff_of_false (fun h => h.1 rfl) ?_
      intro heq
      rw [some.inj heq, hst] at hid
      cases hid
    · rw [status_update_of_ne _ _ hx]
      exact and_iff_right hx
  constructor
  · exact valid_update f hready fun hmem => ((hr id).mp hmem).1 rfl
  · exact valid_update f hdelayed fun hmem => ((hd id).mp hmem).1 rfl
  · exact hmem rfl h.mem_ready hr
  · exact hmem rfl h.mem_delayed hd

theorem mem_others (hid : id ∉ items) : ∀ x, x ∈ items ↔ x ≠ id ∧ x ∈ items := by
  intro x
  constructor
  · exact fun hx => ⟨ne_of_mem_of_not_mem hx hid, hx⟩
  · exact fun hx => hx.2

theorem Heaps.popReady (h : tt.Heaps) (hr : tt.ready = id :: rest)
    (hid : (f (tt.task id)).status.queued = false) :
    ((tt.onReady fun h => h.pop).update id f).Heaps := by
  have hmem : id ∈ tt.ready := by rw [hr]; exact mem_cons_self
  obtain ⟨hpop, hother, hitems⟩ := (IndexedHeap.pop_spec
    (References.plain_lawful (less_byPriority_iff tt)) h.ready (r := id)
    (by rw [hr]; rfl)).erase_beside h.ready h.delayed h.disjoint
  exact h.leave hid hpop hother hitems (mem_others (h.disjoint id hmem))

theorem Heaps.popDelayed (h : tt.Heaps) (hd : tt.delayed = id :: rest)
    (hid : (f (tt.task id)).status.queued = false) :
    ((tt.onDelayed fun h => h.pop).update id f).Heaps := by
  have hmem : id ∈ tt.delayed := by rw [hd]; exact mem_cons_self
  obtain ⟨hpop, hother, hitems⟩ := (IndexedHeap.pop_spec
    (References.plain_lawful (less_byRunAt_iff tt)) h.delayed (r := id)
    (by rw [hd]; rfl)).erase_beside h.delayed h.ready fun r hr hr' => h.disjoint r hr' hr
  exact h.leave hid hother hpop (mem_others fun hr => h.disjoint id hr hmem) hitems

theorem Heaps.dequeue (h : tt.Heaps) (hget : tt.tasks.get? id ≠ none)
    (hid : (f (tt.task id)).status.queued = false) :
    ∃ tt', tt.dequeue id = .ok tt' ∧ (tt'.update id f).Heaps ∧ tt'.tasks = tt.tasks ∧
      tt'.outstanding = tt.outstanding := by
  have hst : tt.status id = some (tt.task id).status := by
    cases hx : tt.tasks.get? id with
    | none => exact absurd hx hget
    | some => rw [task_of_get? hx, status, status_of_get? hx]
  have hfind : ∀ {less : String → String → Bool} {items : List String},
      (⟨items, tt.heapIdx⟩ : TaskHeap less).Valid → id ∈ items →
      0 ≤ tt.heapIdx id ∧ tt.heapIdx id < items.length ∧
        (⟨items, tt.heapIdx⟩ : TaskHeap less).at? (tt.heapIdx id).toNat = id := by
    intro less items hv hmem
    obtain ⟨i, hi, hat⟩ :=
      (IndexedHeap.mem_slots (h := (⟨items, tt.heapIdx⟩ : TaskHeap less))).mp hmem
    have hidx : tt.heapIdx id = i := (congrArg tt.heapIdx hat).symm.trans (hv.indexed.idx i hi)
    rw [hidx]
    exact ⟨Int.natCast_nonneg i, Int.ofNat_lt.mpr hi, hat⟩
  unfold TaskTable.dequeue
  cases hstatus : (tt.task id).status with
  | ready =>
    have hmem : id ∈ tt.ready := by rw [h.mem_ready, hst, hstatus]
    obtain ⟨h0, hlt, hat⟩ := hfind h.ready hmem
    have hup := (IndexedHeap.remove_spec (References.plain_lawful (less_byPriority_iff tt)) h.ready
      ((Int.toNat_lt h0).mpr hlt)).1
    rw [hat] at hup
    obtain ⟨hremove, hother, hitems⟩ := hup.erase_beside h.ready h.delayed h.disjoint
    refine ⟨tt.onReady fun h => h.remove (tt.heapIdx id).toNat, if_pos ⟨h0, hlt⟩, ?_, rfl, rfl⟩
    exact h.leave hid hremove hother hitems (mem_others (h.disjoint id hmem))
  | scheduled =>
    have hmem : id ∈ tt.delayed := by rw [h.mem_delayed, hst, hstatus]
    obtain ⟨h0, hlt, hat⟩ := hfind h.delayed hmem
    have hup := (IndexedHeap.remove_spec (References.plain_lawful (less_byRunAt_iff tt)) h.delayed
      ((Int.toNat_lt h0).mpr hlt)).1
    rw [hat] at hup
    obtain ⟨hremove, hother, hitems⟩ := hup.erase_beside h.delayed h.ready
      fun r hr hr' => h.disjoint r hr' hr
    refine ⟨tt.onDelayed fun h => h.remove (tt.heapIdx id).toNat, if_pos ⟨h0, hlt⟩, ?_, rfl, rfl⟩
    exact h.leave hid hother hremove (mem_others fun hr => h.disjoint id hr hmem) hitems
  | blocked | running | succeeded | failed | cancelled =>
    exact ⟨tt, rfl, h.update (by rw [hstatus]; rfl) hid, rfl, rfl⟩

end TaskTable

/-- The invariant, with what the locked section has yet to do. -/
structure Invariant (u : Unsettled) (tt : TaskTable) : Prop where
  ok : Tasks.Ok u tt.tasks
  heaps : tt.Heaps
  outstanding : tt.outstanding = (Tasks.live tt.tasks : Int)

/-- The task is the same, and if it was terminal it is as it was. -/
structure Task.Later (t t' : Task) : Prop where
  spec : t'.spec = t.spec
  terminal : t.status.terminal → t'.result = t.result
  flagged : t.cancelRequested → t'.cancelRequested

theorem Task.Later.status {t t' : Task} (h : t.Later t') (hst : t.status.terminal) :
    t'.status = t.status := congrArg TaskResult.status (h.terminal hst)

/-- Every task is still there. -/
def TaskTable.Keeps (tt tt' : TaskTable) : Prop :=
  ∀ id t, tt.tasks.get? id = some t → ∃ t', tt'.tasks.get? id = some t' ∧ t.Later t'

/-- What the queue does without a new task. -/
structure TaskTable.Later (tt tt' : TaskTable) : Prop where
  kept : tt.Keeps tt'
  old : ∀ id, tt.tasks.get? id = none → tt'.tasks.get? id = none
  live : Tasks.live tt'.tasks ≤ Tasks.live tt.tasks

namespace TaskTable

variable {u : Unsettled} {tt tt' tt'' : TaskTable} {id : String} {t t' : Task}

theorem Later.refl (tt : TaskTable) : tt.Later tt :=
  ⟨fun _ t h => ⟨t, h, rfl, fun _ => rfl, id⟩, fun _ h => h, Nat.le_refl _⟩

theorem Keeps.trans (h : tt.Keeps tt') (h' : tt'.Keeps tt'') : tt.Keeps tt'' := by
  intro id t ht
  obtain ⟨t1, ht1, hlater1⟩ := h id t ht
  obtain ⟨t2, ht2, hlater2⟩ := h' id t1 ht1
  refine ⟨t2, ht2, hlater2.spec.trans hlater1.spec, fun hst => ?_,
    fun hflag => hlater2.flagged (hlater1.flagged hflag)⟩
  have hst1 : t1.status.terminal := by rwa [hlater1.status hst]
  exact (hlater2.terminal hst1).trans (hlater1.terminal hst)

theorem Later.trans (h : tt.Later tt') (h' : tt'.Later tt'') : tt.Later tt'' := by
  constructor
  · exact h.kept.trans h'.kept
  · exact fun id hid => h'.old id (h.old id hid)
  · exact h'.live.trans h.live

theorem Later.set (t' : Task) (ht : tt.tasks.get? id = some t) (hlater : t.Later t')
    (htasks : tt'.tasks = tt.tasks.set id t') : tt.Later tt' := by
  constructor
  · intro x tx hx
    rw [htasks]
    by_cases hxid : x = id
    · subst hxid
      rw [ht] at hx
      obtain rfl := some.inj hx
      exact ⟨t', get?_set_self _ _ _, hlater⟩
    · exact ⟨tx, by rw [get?_set_of_ne _ _ hxid, hx], rfl, fun _ => rfl, fun hflag => hflag⟩
  · intro x hx
    have hne : x ≠ id := (ne_of_eq_none ht hx).symm
    rw [htasks, get?_set_of_ne _ _ hne, hx]
  have hlive := live_set ht t'
  rw [← htasks] at hlive
  cases hst : t.status.terminal with
  | false =>
    rw [hst, if_neg Bool.false_ne_true] at hlive
    split at hlive <;> omega
  | true =>
    rw [hlater.status hst, hst] at hlive
    simp at hlive
    omega

theorem Later.open_inv (h : tt.Later tt') (ht : tt'.tasks.get? id = some t')
    (hopen : t'.status.terminal = false) :
    ∃ t, tt.tasks.get? id = some t ∧ t.status.terminal = false := by
  cases hget : tt.tasks.get? id with
  | none =>
    rw [h.old id hget] at ht
    cases ht
  | some t =>
    refine ⟨t, rfl, ?_⟩
    obtain ⟨t1, ht1, hlater⟩ := h.kept id t hget
    rw [ht] at ht1
    obtain rfl := some.inj ht1
    by_contra hst
    rw [Bool.not_eq_false] at hst
    rw [hlater.status hst, hst] at hopen
    cases hopen

theorem Later.get?_ne_none (h : tt.Later tt') (hid : tt.tasks.get? id ≠ none) :
    tt'.tasks.get? id ≠ none := by
  obtain ⟨t, ht⟩ := ne_none_iff_exists'.mp hid
  obtain ⟨t', ht', -⟩ := h.kept id t ht
  rw [ht']
  exact some_ne_none _

theorem conclude_eq (tt : TaskTable) (id : String) (st : Status) (value : Option String)
    (err : Option TaskError) (hdone : (tt.task id).done = false) :
    ∃ letters, tt.conclude id st value err = .ok
      { tt.update id fun t => { t with status := st, value := value, err := err, done := true } with
        outstanding := tt.outstanding - 1
        deadLetters := letters } := by
  rw [task] at hdone
  simp only [conclude, update, task, get?_set_self, getD_some, Dict.set_set, hdone,
    Bool.false_eq_true, if_false]
  exact ⟨_, rfl⟩

end TaskTable

namespace Invariant

open TaskTable

variable {u : Unsettled} {tt tt' : TaskTable} {id : String} {t t' : Task}
  {cancel : TaskTable → String → Except Panic TaskTable}

/-! ## A task becomes terminal -/

/-- A task that no worker runs leaves its heap and becomes terminal; its dependents are to be dealt
    with. -/
theorem terminate (h : Invariant u tt) (ht : tt.tasks.get? id = some t)
    (hopen : t.status.terminal = false) (hidle : ¬ u.running id)
    (hcurrent : ∀ x, u.current x → x = id) {st : Status} (hst : st.terminal)
    (hattempted : st ≠ .cancelled → 0 < t.attempts) (value : Option String)
    (err : Option TaskError) :
    ∃ tt1 tt2, tt.dequeue id = .ok tt1 ∧ tt1.conclude id st value err = .ok tt2 ∧
      Invariant (u.conclude t st) tt2 ∧ tt2.tasks = tt.tasks.set id
        { t with status := st, value := value, err := err, done := true } := by
  let f : Task → Task := fun t => { t with status := st, value := value, err := err, done := true }
  have htask := task_of_get? ht
  have hqueued : (f (tt.task id)).status.queued = false := by
    cases st <;> first | rfl | cases hst
  obtain ⟨tt1, hdequeue, hheaps, htasks, houtstanding⟩ :=
    h.heaps.dequeue (f := f) (by rw [ht]; exact some_ne_none _) hqueued
  have htask1 : tt1.task id = t := by rw [task, htasks, ht]; rfl
  obtain ⟨letters, hconclude⟩ := conclude_eq tt1 id st value err
    (by rw [htask1, (h.ok id t ht).done, hopen])
  have htasks2 : (tt1.update id f).tasks = tt.tasks.set id (f t) := by
    rw [update_tasks, htask1, htasks]
  refine ⟨tt1, _, hdequeue, hconclude, ⟨?_, ?_, ?_⟩, htasks2⟩
  · show Tasks.Ok _ (tt1.update id f).tasks
    rw [htasks2]
    exact h.ok.concluded ht hopen hidle hcurrent hst hattempted value err
  · exact ⟨hheaps.ready, hheaps.delayed, hheaps.mem_ready, hheaps.mem_delayed⟩
  · show tt1.outstanding - 1 = (Tasks.live (tt1.update id f).tasks : Int)
    have hlive := live_set ht (f t)
    rw [hopen, show (f t).status.terminal = true from hst] at hlive
    rw [htasks2, houtstanding, h.outstanding]
    simp at hlive
    omega

theorem enqueue (hheaps : tt.Heaps) (houtstanding : tt.outstanding = (Tasks.live tt.tasks : Int))
    (ht : tt.tasks.get? id = some t) (hopen : t.status.terminal = false)
    (hqueued : t.status.queued = false) (now : Time) (hok : ∀ st, st = .ready ∨ st = .scheduled →
      Tasks.Ok u (tt.tasks.set id { t with status := st })) :
    Invariant u (tt.enqueueLocked now id) ∧
      ∃ st, (st = .ready ∨ st = .scheduled) ∧
        (tt.enqueueLocked now id).tasks = tt.tasks.set id { t with status := st } := by
  have htask := task_of_get? ht
  have hlive : ∀ st : Status, st.terminal = false →
      Tasks.live (tt.tasks.set id { t with status := st }) = Tasks.live tt.tasks := by
    intro st hst
    have := live_set ht { t with status := st }
    rw [hopen, hst] at this
    simpa using this
  unfold enqueueLocked
  split
  · refine ⟨⟨?_, hheaps.pushDelayed (by rw [htask, hqueued]) rfl, ?_⟩, .scheduled, Or.inr rfl, ?_⟩
    · rw [onDelayed_tasks, update_tasks, htask]
      exact hok _ (Or.inr rfl)
    · rw [onDelayed_tasks, onDelayed_outstanding, update_tasks, update_outstanding, htask,
        hlive _ rfl, houtstanding]
    · rw [onDelayed_tasks, update_tasks, htask]
  · refine ⟨⟨?_, hheaps.pushReady (by rw [htask, hqueued]) rfl, ?_⟩, .ready, Or.inl rfl, ?_⟩
    · rw [onReady_tasks, update_tasks, htask]
      exact hok _ (Or.inl rfl)
    · rw [onReady_tasks, onReady_outstanding, update_tasks, update_outstanding, htask,
        hlive _ rfl, houtstanding]
    · rw [onReady_tasks, update_tasks, htask]

/-! ## Dependents of a task that has succeeded -/

theorem resolve_succeeded {d : String}
    (h : Invariant { u with debt := fun x => u.debt x + if x = d then 1 else 0 } tt)
    (hd : tt.tasks.get? d ≠ none) (clock : String → Time) :
    ∃ tt', resolve cancel clock .succeeded tt d = .ok tt' ∧ Invariant u tt' ∧ tt.Later tt' := by
  obtain ⟨t, ht⟩ := ne_none_iff_exists'.mp hd
  have htask := task_of_get? ht
  have hok := h.ok d t ht
  have hsame : ∀ x, x ≠ d →
      Unsettled.SameAt { u with debt := fun x => u.debt x + if x = d then 1 else 0 } u x := by
    intro x hx
    exact ⟨Iff.rfl, Iff.rfl, by simp [hx], Iff.rfl, rfl⟩
  unfold resolve
  rw [htask]
  cases hst : t.status.terminal with
  | true =>
    refine ⟨tt, rfl, ⟨h.ok.sameOpen rfl rfl ?_, h.heaps, h.outstanding⟩, .refl tt⟩
    intro x tx htx hopen
    apply hsame
    rintro rfl
    rw [ht] at htx
    obtain rfl := some.inj htx
    rw [hst] at hopen
    cases hopen
  | false =>
  have hwaiting : t.waitingOn = (Tasks.unfinished tt.tasks (u.deps d) : Int) + (u.debt d + 1) := by
    have := hok.waiting hst
    simpa using this
  have hblocked : t.status = .blocked := by
    by_contra hne
    have := hok.unblocked hst hne
    omega
  have hidle : ¬ u.running d := by
    intro hrun
    have := (hok.held hrun).1
    rw [hblocked] at this
    cases this
  let t1 : Task := { t with waitingOn := t.waitingOn - 1 }
  let tt1 := tt.update d fun t => { t with waitingOn := t.waitingOn - 1 }
  have htasks1 : tt1.tasks = tt.tasks.set d t1 := by
    show tt.tasks.set d _ = _
    rw [htask]
  have hget1 : tt1.tasks.get? d = some t1 := by rw [htasks1, get?_set_self]
  have hheaps1 : tt1.Heaps := h.heaps.updateSame rfl rfl rfl rfl hd
  have hlive1 : tt1.outstanding = (Tasks.live tt1.tasks : Int) := by
    have := live_set ht t1
    rw [htasks1, Nat.add_left_cancel this]
    exact h.outstanding
  have hrun : t.status ≠ .running := by rw [hblocked]; decide
  -- the task with one dependency less, wherever it is then
  have hset : ∀ st : Status, st.terminal = false →
      Tasks.LocalOk u d { t1 with status := st } →
      Tasks.Ok u (tt.tasks.set d { t1 with status := st }) := by
    intro st hopen hlocal
    apply h.ok.set { t1 with status := st } ht hst hopen rfl rfl hsame rfl Iff.rfl _ hok.ran hlocal
    show t.waitingOn - 1 - (u.debt d : Int) =
      t.waitingOn - ((u.debt d + if d = d then 1 else 0 : Nat) : Int)
    rw [if_pos rfl]
    omega
  have hlater : ∀ {tt' : TaskTable} {st : Status},
      tt'.tasks = tt.tasks.set d { t1 with status := st } → tt.Later tt' := by
    intro tt' st htasks
    apply Later.set _ ht _ htasks
    exact ⟨rfl, fun hterminal => absurd hterminal (by rw [hst]; decide), fun hflag => hflag⟩
  rw [if_neg (by decide), if_pos rfl]
  by_cases hzero : t.waitingOn - 1 = 0
  · obtain ⟨hinv, st, hst', htasks'⟩ := enqueue (u := u) hheaps1 hlive1 hget1 hst
      (by show t.status.queued = false; rw [hblocked]; rfl) (clock d) (by
        intro st hst'
        rw [htasks1, Dict.set_set]
        apply hset st
        · rcases hst' with rfl | rfl <;> rfl
        · exact hok.queue hst hidle hidle (hok.unflagged hst hrun) (hok.attempting hst hrun) hst'
            hzero t.runAt t.err)
    rw [htasks1, Dict.set_set] at htasks'
    refine ⟨tt1.enqueueLocked (clock d) d, ?_, hinv, hlater htasks'⟩
    show Except.ok (if (tt1.task d).waitingOn = 0 then _ else _) = _
    rw [task_of_get? hget1, if_pos hzero]
  have htasks' : tt1.tasks = tt.tasks.set d { t1 with status := t.status } := htasks1
  refine ⟨tt1, ?_, ⟨?_, hheaps1, hlive1⟩, hlater htasks'⟩
  · show Except.ok (if (tt1.task d).waitingOn = 0 then _ else _) = _
    rw [task_of_get? hget1, if_neg hzero]
  · rw [htasks']
    apply hset _ hst
    exact ⟨hok.keyed, hok.running, hok.held, hok.ctx, hok.done,
      fun _ hne => absurd hblocked hne, fun _ => Or.inl (by show 0 < t.waitingOn - 1; omega),
      hok.attempts, hok.attempting, hok.unattempted, hok.attempted, hok.flagged⟩

theorem fold_succeeded (ds : List String)
    (h : Invariant { u with debt := fun x => u.debt x + ds.count x } tt)
    (hds : ∀ d ∈ ds, tt.tasks.get? d ≠ none) (clock : String → Time) :
    ∃ tt', ds.foldlM (resolve cancel clock .succeeded) tt = .ok tt' ∧ Invariant u tt' ∧
      tt.Later tt' := by
  induction ds generalizing tt with
  | nil => exact ⟨tt, rfl, h, .refl tt⟩
  | cons d ds ih =>
    have hdebt : (fun x => u.debt x + (d :: ds).count x) =
        fun x => u.debt x + ds.count x + if x = d then 1 else 0 := by
      funext x
      rw [count_cons, ← Nat.add_assoc]
      by_cases hx : x = d
      · simp [hx]
      · simp [hx, Ne.symm hx]
    rw [hdebt] at h
    obtain ⟨tt1, hresolve, h1, hlater1⟩ :=
      resolve_succeeded (u := { u with debt := fun x => u.debt x + ds.count x }) h
        (hds d mem_cons_self) clock
    obtain ⟨tt2, hfold, h2, hlater2⟩ := ih h1
      fun x hx => hlater1.get?_ne_none (hds x (mem_cons_of_mem _ hx))
    refine ⟨tt2, ?_, h2, hlater1.trans hlater2⟩
    rw [foldlM_cons, hresolve]
    exact hfold

/-! ## Dependents of a task that has not -/

/-- What finalizing a task that no worker runs does, with at most `n` tasks that
    are not terminal. -/
def Finalizes (n : Nat) (finalize : TaskTable → String → Except Panic TaskTable)
    (result : Task → TaskResult) : Prop :=
  ∀ {u : Unsettled} {tt : TaskTable} {d : String} {t : Task}, Invariant u tt →
    tt.tasks.get? d = some t → t.status.terminal = false → ¬ u.running d →
    (∀ x, u.current x → x = d) → Tasks.live tt.tasks ≤ n →
    ∃ tt', finalize tt d = .ok tt' ∧ Invariant { u with current := fun _ => False } tt' ∧
      tt.Later tt' ∧ ∃ t', tt'.tasks.get? d = some t' ∧ t'.result = result t

theorem fold_cancelled {n : Nat}
    {result : Task → TaskResult} (hcancel : Finalizes n cancel result)
    (hresult : ∀ t, (result t).status.terminal) {st : Status} (hst : st ≠ .succeeded)
    (ds : List String) (h : Invariant { u with doomed := fun x => u.doomed x ∨ x ∈ ds } tt)
    (hcurrent : u.current = fun _ => False) (hlive : Tasks.live tt.tasks ≤ n)
    (hds : ∀ d ∈ ds, tt.tasks.get? d ≠ none)
    (hidle : ∀ d ∈ ds, ∀ t, tt.tasks.get? d = some t → t.status.terminal = false → ¬ u.running d)
    (clock : String → Time) :
    ∃ tt', ds.foldlM (resolve cancel clock st) tt = .ok tt' ∧ Invariant u tt' ∧
      tt.Later tt' := by
  induction ds generalizing tt with
  | nil =>
    refine ⟨tt, rfl, ⟨h.ok.sameOpen rfl rfl fun x _ _ _ => ?_, h.heaps, h.outstanding⟩, .refl tt⟩
    exact ⟨Iff.rfl, Iff.rfl, rfl, by simp, rfl⟩
  | cons d ds ih =>
    obtain ⟨t, ht⟩ := ne_none_iff_exists'.mp (hds d mem_cons_self)
    -- the dependent is terminal afterwards, so that it is not to be cancelled any more
    have hstep : ∃ tt1, resolve cancel clock st tt d = .ok tt1 ∧
        Invariant { u with doomed := fun x => u.doomed x ∨ x ∈ d :: ds } tt1 ∧ tt.Later tt1 ∧
        ∃ t1, tt1.tasks.get? d = some t1 ∧ t1.status.terminal := by
      unfold resolve
      rw [task_of_get? ht]
      cases hterminal : t.status.terminal with
      | true => exact ⟨tt, rfl, h, .refl tt, t, ht, hterminal⟩
      | false =>
      rw [if_neg Bool.false_ne_true, if_neg hst]
      obtain ⟨tt1, hok, h1, hlater, t1, ht1, hresult1⟩ :=
        hcancel h ht hterminal (hidle d mem_cons_self t ht hterminal)
          (fun x hx => by simp [hcurrent] at hx) hlive
      refine ⟨tt1, hok, ?_, hlater, t1, ht1, ?_⟩
      · rw [hcurrent]
        exact h1
      · have hstatus : t1.status = (result t).status := congrArg TaskResult.status hresult1
        rw [hstatus]
        exact hresult t
    obtain ⟨tt1, hresolve, h1, hlater1, t1, ht1, hterminal1⟩ := hstep
    have h1' : Invariant { u with doomed := fun x => u.doomed x ∨ x ∈ ds } tt1 := by
      refine ⟨h1.ok.sameOpen rfl rfl fun x tx htx hopen => ?_, h1.heaps, h1.outstanding⟩
      have hne : x ≠ d := by
        rintro rfl
        rw [ht1] at htx
        obtain rfl := some.inj htx
        rw [hterminal1] at hopen
        cases hopen
      exact ⟨Iff.rfl, Iff.rfl, rfl, by simp [hne], rfl⟩
    obtain ⟨tt2, hfold, h2, hlater2⟩ := ih h1' (hlater1.live.trans hlive)
      (fun x hx => hlater1.get?_ne_none (hds x (mem_cons_of_mem _ hx)))
      (fun x hx tx htx hopen => by
        obtain ⟨t0, ht0, hopen0⟩ := hlater1.open_inv htx hopen
        exact hidle x (mem_cons_of_mem _ hx) t0 ht0 hopen0)
    refine ⟨tt2, ?_, h2, hlater1.trans hlater2⟩
    rw [foldlM_cons, hresolve]
    exact hfold

/-! ## finalizeLocked -/

theorem forget (h : Invariant u tt) (ht : tt.tasks.get? id = some t) (hst : t.status.terminal) :
    Invariant u (tt.update id fun t => { t with dependents := [] }) := by
  have htask := task_of_get? ht
  refine ⟨?_, h.heaps.updateSame rfl rfl rfl rfl (by rw [ht]; exact some_ne_none _), ?_⟩
  · rw [update_tasks, htask]
    exact h.ok.forget ht hst
  · have hlive := live_set ht { t with dependents := [] }
    rw [update_tasks, update_outstanding, htask, Nat.add_left_cancel hlive]
    exact h.outstanding

theorem finalize_spec (clock : String → Time) (depth : Nat) (st : Status) (hst : st.terminal)
    (value : Option String) (err : Option TaskError) :
    ∀ {u : Unsettled} {tt : TaskTable} {d : String} {t : Task}, Invariant u tt →
      tt.tasks.get? d = some t → t.status.terminal = false → ¬ u.running d →
      (∀ x, u.current x → x = d) → (st ≠ .cancelled → 0 < t.attempts) →
      Tasks.live tt.tasks ≤ depth →
      ∃ tt', finalize clock (depth + 1) tt d st value err = .ok tt' ∧
        Invariant { u with current := fun _ => False } tt' ∧ tt.Later tt' ∧
        ∃ t', tt'.tasks.get? d = some t' ∧ t'.result = ⟨t.spec.id, st, value, err, t.attempts⟩ := by
  induction depth generalizing st value err with
  | zero =>
    intro u tt id t h ht hopen _ _ _ hlive
    have hpos := live_set ht { t with status := .cancelled }
    rw [hopen] at hpos
    simp [Status.terminal] at hpos
    omega
  | succ depth ih =>
    intro u tt id t h ht hopen hidle hcurrent hattempted hlive
    obtain ⟨tt1, tt2, hdequeue, hconclude, h2, htasks2⟩ :=
      h.terminate ht hopen hidle hcurrent hst hattempted value err
    let t2 : Task := { t with status := st, value := value, err := err, done := true }
    have ht2 : tt2.tasks.get? id = some t2 := by rw [htasks2, get?_set_self]
    have hlive2 : Tasks.live tt2.tasks ≤ depth := by
      have hset := live_set ht t2
      rw [hopen, show t2.status.terminal = true from hst, ← htasks2] at hset
      simp at hset
      omega
    have hlater2 : tt.Later tt2 :=
      Later.set t2 ht ⟨rfl, fun hterminal => absurd hterminal (by rw [hopen]; decide),
        fun hflag => hflag⟩ htasks2
    have hdependents : ∀ d ∈ t.dependents, tt2.tasks.get? d ≠ none :=
      fun d hd => hlater2.get?_ne_none ((h.ok id t ht).dependents d hd)
    have hfold : ∃ tt3,
        t.dependents.foldlM (resolve (fun tt d => TaskTable.finalize clock (depth + 1) tt d
          .cancelled none (some (.dependencyFailed id))) clock st) tt2 = .ok tt3 ∧
        Invariant { u with current := fun _ => False } tt3 ∧ tt2.Later tt3 := by
      by_cases hsucceeded : st = .succeeded
      · subst hsucceeded
        rw [Unsettled.conclude_succeeded] at h2
        exact fold_succeeded (u := { u with current := fun _ => False }) _ h2 hdependents clock
      rw [Unsettled.conclude_of_ne _ _ hsucceeded] at h2
      apply fold_cancelled (u := { u with current := fun _ => False }) (n := depth)
        (fun h ht hopen hidle hcurrent hlive => ih .cancelled rfl none _ h ht hopen hidle hcurrent
          (fun hne => absurd rfl hne) hlive)
        (fun _ => rfl) hsucceeded _ h2 rfl hlive2 hdependents
      intro d hd td htd htdopen hrun
      obtain ⟨t0, ht0, hopen0⟩ := hlater2.open_inv htd htdopen
      have hblocked := h.ok.dependent_blocked ht hopen hd ht0 hopen0
      rw [((h.ok d t0 ht0).held hrun).1] at hblocked
      cases hblocked
    obtain ⟨tt3, hfold, h3, hlater3⟩ := hfold
    obtain ⟨t3, ht3, hlater⟩ := hlater3.kept id t2 ht2
    have hst3 : t3.status.terminal := by rw [hlater.status hst]; exact hst
    have htasks4 : (tt3.update id fun t => { t with dependents := [] }).tasks =
        tt3.tasks.set id { t3 with dependents := [] } := by
      rw [update_tasks, task_of_get? ht3]
    refine ⟨_, ?_, h3.forget ht3 hst3, ?_, { t3 with dependents := [] }, ?_,
      hlater.terminal hst⟩
    · rw [TaskTable.finalize, task_of_get? ht, if_neg (by rw [hopen]; decide), hdequeue]
      dsimp only [bind, Except.bind]
      rw [hconclude]
      dsimp only
      rw [task_of_get? ht2, hfold]
    · exact (hlater2.trans hlater3).trans 
        (Later.set { t3 with dependents := [] } ht3 ⟨rfl, fun _ => rfl, fun hflag => hflag⟩ htasks4)
    · rw [htasks4, get?_set_self]

theorem finalizeLocked_spec (h : Invariant u tt) (ht : tt.tasks.get? id = some t)
    (hopen : t.status.terminal = false) (hidle : ¬ u.running id)
    (hcurrent : ∀ x, u.current x → x = id) (clock : String → Time) (st : Status)
    (hst : st.terminal) (hattempted : st ≠ .cancelled → 0 < t.attempts) (value : Option String)
    (err : Option TaskError) : ∃ tt', tt.finalizeLocked clock id st value err = .ok tt' ∧
      Invariant { u with current := fun _ => False } tt' ∧ tt.Later tt' ∧
      ∃ t', tt'.tasks.get? id = some t' ∧ t'.result = ⟨t.spec.id, st, value, err, t.attempts⟩ :=
  finalize_spec clock tt.tasks.size st hst value err h ht hopen hidle hcurrent hattempted
    (live_le_size tt.tasks)

end Invariant

end InterviewPrep.TaskQueue
