/-
  `AsyncHandler` over any number of `handle` calls, the worker and `close`.  A step is what one of
  them does up to the next point at which another may run: a read of `_closed`, an operation of
  the queue, a count, or a call of the target.  What the filters answer is part of the call.

  A record is in the queue, handed to the target, counted as dropped, or about to be counted
  (`Accounted`).  After `close` each record has been handed or counted, once, as long as the final
  drain does not take the stop marker, no call enqueues behind the drain, and no call finds the
  handler closed with a record that the filters reject (`run_recordsAccounted`).
-/
import InterviewPrep.Lib.Dict
import InterviewPrep.Lib.Run
import Mathlib.Algebra.Order.Ring.Unbundled.Rat

namespace InterviewPrep.Logging

open Lib List

/-! ## The handler -/

inductive OverflowPolicy where
  | drop
  | block

/-- What `_apply_filters` does with a record. -/
inductive Filtered where
  | kept
  | rejected
  | raised
  deriving DecidableEq

structure Config where
  level : Int
  capacity : Nat
  overflow : OverflowPolicy
  blockTimeout : Option ℚ
  proper : 0 < capacity

/-- How far a call of `handle` has come. -/
inductive Stage where
  | entered
  | filtering
  | putting
  | counting
  | returned
  deriving DecidableEq

structure HandleCall where
  level : Int
  filtered : Filtered
  stage : Stage

/-- What the queue holds: the record of a call, or `_STOP`. -/
inductive Item where
  | record (i : Nat)
  | stop
  deriving DecidableEq

inductive Worker where
  /-- Waiting for an item. -/
  | getting
  /-- Inside `target.handle`. -/
  | handling (i : Nat)
  | stopped
  deriving DecidableEq

/-- How far `close` has come. -/
inductive Closer where
  | idle
  | marking (timeout : Option ℚ)
  | joining (timeout : Option ℚ)
  | draining
  | counting (item : Item)
  | closing
  | returned
  deriving DecidableEq

inductive Op where
  | handle (i : Nat) (level : Int) (filtered : Filtered)
  /-- The next step of a call; a `put` that waits may time out. -/
  | go (i : Nat) (timesOut : Bool)
  | work
  | close (timeout : Option ℚ)
  /-- The next step of `close`; the `join` may time out. -/
  | closer (timesOut : Bool)

inductive Answer where
  | done
  | going
  | raised
  /-- The step waits, or there is none. -/
  | disabled

structure AsyncHandler where
  queue : List Item
  closed : Bool
  dropped : Nat
  worker : Worker
  closer : Closer
  targetClosed : Bool
  calls : Dict Nat HandleCall
  /-- The records that the target has been handed. -/
  handed : List Nat
  /-- What `dropped` has counted. -/
  counted : List Item

namespace AsyncHandler

def new : AsyncHandler :=
  { queue := []
    closed := false
    dropped := 0
    worker := .getting
    closer := .idle
    targetClosed := false
    calls := Dict.empty
    handed := []
    counted := [] }

variable (c : Config) (s : AsyncHandler)

/-- A call comes to its next stage. -/
def moveTo (i : Nat) (call : HandleCall) (stage : Stage) : AsyncHandler :=
  { s with calls := s.calls.set i { call with stage := stage } }

/-- `_count_drop`. -/
def countDrop (item : Item) : AsyncHandler :=
  { s with dropped := s.dropped + 1, counted := item :: s.counted }

/-- `put_nowait` or `put`, as the policy says. -/
def put (i : Nat) (call : HandleCall) (timesOut : Bool) : Answer × AsyncHandler :=
  let enqueued := { s.moveTo i call .returned with queue := s.queue ++ [.record i] }
  match c.overflow with
  | .drop =>
    if s.queue.length < c.capacity then (.done, enqueued)
    else (.going, s.moveTo i call .counting)
  | .block =>
    match c.blockTimeout with
    | none => if s.queue.length < c.capacity then (.done, enqueued) else (.disabled, s)
    | some timeout =>
      if timeout < 0 then (.raised, s.moveTo i call .returned)
      else if s.queue.length < c.capacity then (.done, enqueued)
      else if timesOut then (.going, s.moveTo i call .counting)
      else (.disabled, s)

/-- The next step of a call of `handle`. -/
def handleStep (i : Nat) (call : HandleCall) (timesOut : Bool) : Answer × AsyncHandler :=
  match call.stage with
  | .entered => (.going, s.moveTo i call (if s.closed then .counting else .filtering))
  | .filtering =>
    if call.filtered = .kept then (.going, s.moveTo i call .putting)
    else (.done, s.moveTo i call .returned)
  | .putting => s.put c i call timesOut
  | .counting => (.done, (s.moveTo i call .returned).countDrop (.record i))
  | .returned => (.disabled, s)

/-- The loop of `_run`. -/
def workStep : Answer × AsyncHandler :=
  match s.worker, s.queue with
  | .getting, [] => (.disabled, s)
  | .getting, .stop :: rest => (.done, { s with queue := rest, worker := .stopped })
  | .getting, .record i :: rest =>
    (.going, { s with queue := rest, worker := .handling i, handed := i :: s.handed })
  | .handling _, _ => (.going, { s with worker := .getting })
  | .stopped, _ => (.disabled, s)

/-- The next step of `close`. -/
def closeStep (timesOut : Bool) : Answer × AsyncHandler :=
  match s.closer with
  | .idle | .returned => (.disabled, s)
  | .marking timeout =>
    if s.queue.length < c.capacity then
      (.going, { s with queue := s.queue ++ [.stop], closer := .joining timeout })
    else (.disabled, s)
  | .joining timeout =>
    if s.worker = .stopped ∨ timesOut = true ∧ timeout.isSome then
      (.going, { s with closer := .draining })
    else (.disabled, s)
  | .draining =>
    match s.queue with
    | [] => (.going, { s with closer := .closing })
    | item :: rest => (.going, { s with queue := rest, closer := .counting item })
  | .counting item => (.going, { s.countDrop item with closer := .draining })
  | .closing => (.done, { s with targetClosed := true, closer := .returned })

def act : Op → Answer × AsyncHandler
  | .handle i level filtered =>
    if (s.calls.get? i).isSome then (.disabled, s)
    else if level < c.level then (.done, s.moveTo i ⟨level, filtered, .returned⟩ .returned)
    else (.going, s.moveTo i ⟨level, filtered, .entered⟩ .entered)
  | .go i timesOut =>
    match s.calls.get? i with
    | none => (.disabled, s)
    | some call => s.handleStep c i call timesOut
  | .work => s.workStep
  | .close timeout =>
    if s.closed then (.done, s) else (.going, { s with closed := true, closer := .marking timeout })
  | .closer timesOut => s.closeStep c timesOut

def step (s : AsyncHandler) (op : Op) : Except Empty (Answer × AsyncHandler) := .ok (s.act c op)

end AsyncHandler

/-! ## Accounts -/

/-- The record passes the level check and the filters. -/
def HandleCall.passes (c : Config) (call : HandleCall) : Bool :=
  decide (c.level ≤ call.level ∧ call.filtered = .kept)

/-- What a record is accounted for: once, when its call has returned and it passes. -/
def due (c : Config) : Option HandleCall → Nat
  | none => 0
  | some call => if call.stage = .returned ∧ call.passes c = true then 1 else 0

/-- The drain has taken the item from the queue. -/
def Closer.holds (item : Item) : Closer → Nat
  | .counting item' => if item' = item then 1 else 0
  | _ => 0

/-- The stop marker has been put. -/
def Closer.marked : Closer → Bool
  | .idle | .marking _ => false
  | _ => true

/-- The drain has found the queue empty. -/
def Closer.drained : Closer → Bool
  | .closing | .returned => true
  | _ => false

/-- A call that goes on with its record has let it pass. -/
structure HandleCall.Fine (c : Config) (call : HandleCall) : Prop where
  level : call.stage ≠ .returned → c.level ≤ call.level
  kept : call.stage = .putting ∨ call.stage = .counting → call.filtered = .kept

variable {c : Config} {call : HandleCall}

theorem due_of_ne (h : call.stage ≠ .returned) : due c (some call) = 0 :=
  if_neg fun hreturned => h hreturned.1

theorem due_of_passes (h : call.stage = .returned) (hlevel : c.level ≤ call.level)
    (hkept : call.filtered = .kept) : due c (some call) = 1 :=
  if_pos ⟨h, decide_eq_true ⟨hlevel, hkept⟩⟩

theorem due_of_not (h : ¬ (c.level ≤ call.level ∧ call.filtered = .kept)) : due c (some call) = 0 :=
  if_neg fun hpasses => h (of_decide_eq_true hpasses.2)

namespace AsyncHandler

variable {c : Config} {s s' : AsyncHandler} {i k x : Nat} {call call' : HandleCall} {item : Item}
  {timesOut : Bool}

/-- How often a record is in the queue, handed, counted, or taken by the drain. -/
def tally (s : AsyncHandler) (x : Nat) : Nat :=
  s.queue.count (.record x) + s.handed.count x + s.counted.count (.record x) +
    s.closer.holds (.record x)

/-- Every record that is due is in one place, and `dropped` counts records only. -/
structure Accounted (c : Config) (s : AsyncHandler) : Prop where
  records : ∀ x, s.tally x = due c (s.calls.get? x)
  fine : ∀ x call, s.calls.get? x = some call → call.Fine c
  marker : s.queue.count .stop + (if s.worker = .stopped then 1 else 0) =
    if s.closer.marked = true then 1 else 0
  counted : s.counted.count .stop = 0
  closer : s.closer.holds .stop = 0
  drained : s.closer.drained = true → s.queue = []
  idle : s.closed = false → s.closer = .idle
  total : s.dropped = s.counted.length

/-- The drain does not take the stop marker, no call enqueues behind it, and none finds the handler
    closed with a record that the filters reject. -/
def orderly (s : AsyncHandler) : Op → Bool
  | .go i _ =>
    match s.calls.get? i with
    | none => true
    | some call =>
      match call.stage with
      | .entered => !s.closed || decide (call.filtered = .kept)
      | .putting => !s.closer.drained
      | .filtering | .counting | .returned => true
  | .closer _ => !(decide (s.closer = .draining) && decide (s.queue.head? = some .stop))
  | .handle _ _ _ | .work | .close _ => true

theorem new_accounted (c : Config) : Accounted c new :=
  ⟨fun _ => rfl, (by rintro _ _ ⟨⟩), rfl, rfl, rfl, fun _ => rfl, fun _ => rfl, rfl⟩

theorem count_record_concat (queue : List Item) (i x : Nat) :
    (queue ++ [Item.record i]).count (Item.record x) = queue.count (Item.record x) +
    if x = i then 1 else 0 := by
  rw [count_append, count_singleton]
  by_cases hx : x = i
  · rw [if_pos hx, hx, if_pos (beq_self_eq_true _)]
  · rw [if_neg hx, if_neg (by simpa using Ne.symm hx)]

theorem count_record_cons (queue : List Item) (i x : Nat) :
    (Item.record i :: queue).count (Item.record x) = queue.count (Item.record x) +
    if x = i then 1 else 0 := by
  rw [count_cons]
  by_cases hx : x = i
  · rw [if_pos hx, hx, if_pos (beq_self_eq_true _)]
  · rw [if_neg hx, if_neg (by simpa using Ne.symm hx)]

theorem holds_record (i x : Nat) :
    (Closer.counting (.record i)).holds (.record x) = if x = i then 1 else 0 := by
  simp only [Closer.holds, Item.record.injEq, eq_comm]

theorem count_id_cons (xs : List Nat) (i x : Nat) :
    (i :: xs).count x = xs.count x + if x = i then 1 else 0 := by
  rw [count_cons]
  by_cases hx : x = i
  · rw [if_pos hx, hx, if_pos (beq_self_eq_true _)]
  · rw [if_neg hx, if_neg (by simpa using Ne.symm hx)]

/-! ## The calls -/

section

variable (h : Accounted c s)

include h

theorem Accounted.advance (hcalls : s'.calls = s.calls.set i call')
    (hfine : call'.Fine c) (htally : ∀ x, s'.tally x = s.tally x + if x = i then k else 0)
    (hdue : due c (some call') = due c (s.calls.get? i) + k)
    (hqueue : s'.queue.count Item.stop = s.queue.count Item.stop) (hworker : s'.worker = s.worker)
    (hclosed : s'.closed = s.closed) (hcloser : s'.closer = s.closer)
    (hcounted : s'.counted.count Item.stop = s.counted.count Item.stop)
    (hdrained : s.closer.drained = true → s'.queue = []) (htotal : s'.dropped = s'.counted.length) :
    Accounted c s' := by
  refine ⟨fun x => ?_, fun x call hcall => ?_, ?_, ?_, ?_, ?_, ?_, htotal⟩
  · rw [htally, h.records, hcalls, Dict.get?_set]
    by_cases hx : x = i
    · rw [if_pos hx, if_pos hx, hdue, hx]
    · rw [if_neg hx, if_neg hx, Nat.add_zero]
  · rw [hcalls] at hcall
    obtain ⟨-, rfl⟩ | ⟨-, hcall⟩ := Dict.get?_set_some hcall
    · exact hfine
    · exact h.fine x call hcall
  · rw [hqueue, hworker, hcloser]
    exact h.marker
  · rw [hcounted]
    exact h.counted
  · rw [hcloser]
    exact h.closer
  · rw [hcloser]
    exact hdrained
  · rw [hclosed, hcloser]
    exact h.idle

theorem Accounted.moveTo {stage : Stage}
    (hfine : ({ call with stage := stage } : HandleCall).Fine c)
    (hdue : due c (some { call with stage := stage }) = due c (s.calls.get? i)) :
    Accounted c (s.moveTo i call stage) :=
  h.advance (k := 0) rfl hfine (fun x => by rw [ite_self, Nat.add_zero]; rfl) hdue
    rfl rfl rfl rfl rfl
    h.drained h.total

theorem Accounted.enqueue (hcall : s.calls.get? i = some call)
    (hstage : call.stage = .putting) (hopen : s.closer.drained = false) :
    Accounted c { s.moveTo i call .returned with queue := s.queue ++ [Item.record i] } := by
  have hfine := h.fine i call hcall
  have hne : call.stage ≠ .returned := by
    rw [hstage]
    rintro ⟨⟩
  have hlevel := hfine.level hne
  have hkept := hfine.kept (.inl hstage)
  refine h.advance (k := 1) rfl ⟨fun hne => absurd rfl hne, (by rintro (⟨⟨⟩⟩ | ⟨⟨⟩⟩))⟩
    (fun x => ?_) ?_ ?_ rfl
    rfl rfl rfl ?_ h.total
  · show (s.queue ++ [Item.record i]).count (Item.record x) + s.handed.count x +
      s.counted.count (Item.record x) + s.closer.holds (.record x) = s.tally x + _
    rw [count_record_concat, tally]
    omega
  · rw [hcall, due_of_ne hne]
    exact due_of_passes rfl hlevel hkept
  · show (s.queue ++ [Item.record i]).count Item.stop = _
    rw [count_append, count_singleton, if_neg (by simp), Nat.add_zero]
  · intro hdrained
    rw [hopen] at hdrained
    cases hdrained

theorem Accounted.countCall (hcall : s.calls.get? i = some call)
    (hstage : call.stage = .counting) :
    Accounted c ((s.moveTo i call .returned).countDrop (.record i)) := by
  have hfine := h.fine i call hcall
  have hne : call.stage ≠ .returned := by
    rw [hstage]
    rintro ⟨⟩
  have hlevel := hfine.level hne
  have hkept := hfine.kept (.inr hstage)
  refine h.advance (k := 1) rfl ⟨fun hne => absurd rfl hne, (by rintro (⟨⟨⟩⟩ | ⟨⟨⟩⟩))⟩
    (fun x => ?_) ?_ rfl rfl
    rfl rfl ?_ h.drained ?_
  · show s.queue.count (Item.record x) + s.handed.count x +
      (Item.record i :: s.counted).count (Item.record x) + s.closer.holds (.record x) =
        s.tally x + _
    rw [count_record_cons, tally]
    omega
  · rw [hcall, due_of_ne hne]
    exact due_of_passes rfl hlevel hkept
  · show (Item.record i :: s.counted).count Item.stop = _
    rw [count_cons, if_neg (by simp), Nat.add_zero]
  · show s.dropped + 1 = s.counted.length + 1
    rw [h.total]

theorem Accounted.put (hc : ∀ timeout, c.blockTimeout = some timeout → 0 ≤ timeout)
    (hcall : s.calls.get? i = some call) (hstage : call.stage = .putting)
    (hopen : s.closer.drained = false) : Accounted c (s.put c i call timesOut).2 := by
  have henqueue := h.enqueue hcall hstage hopen
  have hfine := h.fine i call hcall
  have hne : call.stage ≠ .returned := by
    rw [hstage]
    rintro ⟨⟩
  have hcount : Accounted c (s.moveTo i call .counting) := by
    apply h.moveTo
    · exact ⟨fun _ => hfine.level hne, fun _ => hfine.kept (.inl hstage)⟩
    · rw [hcall, due_of_ne hne]
      exact due_of_ne (by rintro ⟨⟩)
  rw [AsyncHandler.put]
  split
  · split
    · exact henqueue
    · exact hcount
  split
  · split
    · exact henqueue
    · exact h
  · next timeout htimeout =>
    rw [if_neg (not_lt.mpr (hc timeout htimeout))]
    split
    · exact henqueue
    · split
      · exact hcount
      · exact h

theorem Accounted.handleStep (hc : ∀ timeout, c.blockTimeout = some timeout → 0 ≤ timeout)
    (hcall : s.calls.get? i = some call) (horderly : s.orderly (.go i timesOut) = true) :
    Accounted c (s.handleStep c i call timesOut).2 := by
  have hfine := h.fine i call hcall
  rw [orderly, hcall] at horderly
  dsimp only at horderly
  rw [AsyncHandler.handleStep]
  cases hstage : call.stage with
  | entered =>
    have hne : call.stage ≠ .returned := by
      rw [hstage]
      rintro ⟨⟩
    rw [hstage] at horderly
    dsimp only at horderly ⊢
    apply h.moveTo
    · refine ⟨fun _ => hfine.level hne, fun hgone => ?_⟩
      by_cases hclosed : s.closed = true
      · rw [hclosed] at horderly
        exact of_decide_eq_true horderly
      · rw [if_neg hclosed] at hgone
        obtain ⟨⟨⟩⟩ | ⟨⟨⟩⟩ := hgone
    · rw [hcall, due_of_ne hne]
      apply due_of_ne
      split <;> rintro ⟨⟩
  | filtering =>
    have hne : call.stage ≠ .returned := by
      rw [hstage]
      rintro ⟨⟩
    dsimp only
    split
    · next hkept =>
      apply h.moveTo
      · exact ⟨fun _ => hfine.level hne, fun _ => hkept⟩
      · rw [hcall, due_of_ne hne]
        exact due_of_ne (by rintro ⟨⟩)
    · next hkept =>
      apply h.moveTo
      · exact ⟨fun hne => absurd rfl hne, (by rintro (⟨⟨⟩⟩ | ⟨⟨⟩⟩))⟩
      · rw [hcall, due_of_ne hne]
        exact due_of_not fun hpasses => hkept hpasses.2
  | putting =>
    rw [hstage] at horderly
    exact h.put hc hcall hstage (by simpa using horderly)
  | counting => exact h.countCall hcall hstage
  | returned => exact h

end

/-! ## The worker and the closer -/

theorem Accounted.workStep (h : Accounted c s) : Accounted c s.workStep.2 := by
  have hmarker := h.marker
  rw [AsyncHandler.workStep]
  split
  · exact h
  · next hworker hqueue =>
    rw [hworker, hqueue, count_cons_self] at hmarker
    refine ⟨fun x => ?_, h.fine, ?_, h.counted, h.closer, fun hdrained => ?_, h.idle, h.total⟩
    · rw [← h.records x, tally, tally, hqueue, count_cons_of_ne (by simp)]
    · exact hmarker
    · have hnil := h.drained hdrained
      rw [hqueue] at hnil
      cases hnil
  · next i rest hworker hqueue =>
    rw [hworker, hqueue, count_cons_of_ne (by simp)] at hmarker
    refine ⟨fun x => ?_, h.fine, hmarker, h.counted, h.closer, fun hdrained => ?_, h.idle, h.total⟩
    · rw [← h.records x, tally, tally, hqueue, count_record_cons]
      show rest.count (Item.record x) + (i :: s.handed).count x + s.counted.count (Item.record x) +
        s.closer.holds (.record x) = _
      rw [count_id_cons]
      omega
    · have hnil := h.drained hdrained
      rw [hqueue] at hnil
      cases hnil
  · next hworker =>
    rw [hworker] at hmarker
    exact ⟨h.records, h.fine, hmarker, h.counted, h.closer, h.drained, h.idle, h.total⟩
  · exact h

theorem Accounted.closeStep (h : Accounted c s) (horderly : s.orderly (.closer timesOut) = true) :
    Accounted c (s.closeStep c timesOut).2 := by
  have hmarker := h.marker
  have hcloser := h.closer
  have hrecords : ∀ x, s.queue.count (Item.record x) + s.handed.count x +
      s.counted.count (Item.record x) + s.closer.holds (.record x) = due c (s.calls.get? x) :=
    h.records
  have hidle : s.closer ≠ .idle → ∀ next : Closer, s.closed = false → next = .idle :=
    fun hne _ hclosed => absurd (h.idle hclosed) hne
  rw [AsyncHandler.closeStep]
  split
  · exact h
  · exact h
  · next hmarking =>
    rw [hmarking] at hmarker hrecords
    split
    · refine ⟨fun x => ?_, h.fine, ?_, h.counted, rfl, (by rintro ⟨⟩),
        hidle (by simp [*]) _, h.total⟩
      · rw [← hrecords x]
        show (s.queue ++ [Item.stop]).count (Item.record x) + _ + _ + _ = _
        rw [count_append, count_singleton, if_neg (by simp), Nat.add_zero]
        rfl
      · show (s.queue ++ [Item.stop]).count Item.stop + _ = 1
        rw [count_append, count_singleton_self]
        change s.queue.count Item.stop + (if s.worker = .stopped then 1 else 0) = 0 at hmarker
        show _ + _ + (if s.worker = .stopped then 1 else 0) = _
        omega
    · exact h
  · next hjoining =>
    rw [hjoining] at hmarker hrecords
    split
    · exact ⟨hrecords, h.fine, hmarker, h.counted, rfl, (by rintro ⟨⟩),
        hidle (by simp [*]) _, h.total⟩
    · exact h
  · next hdraining =>
    rw [hdraining] at hmarker hrecords
    have hnext : s.queue.head? ≠ some .stop := by
      intro hhead
      rw [orderly, hdraining, hhead] at horderly
      cases horderly
    split
    · next hqueue =>
      exact ⟨hrecords, h.fine, hmarker, h.counted, rfl, fun _ => hqueue,
        hidle (by simp [*]) _, h.total⟩
    · next item rest hqueue =>
      rw [hqueue] at hnext hmarker hrecords
      cases item with
      | stop => exact absurd rfl hnext
      | record i =>
        rw [count_cons_of_ne (by simp)] at hmarker
        refine ⟨fun x => ?_, h.fine, hmarker, h.counted, rfl, (by rintro ⟨⟩),
          hidle (by simp [*]) _, h.total⟩
        rw [← hrecords x, count_record_cons, tally]
        show rest.count (Item.record x) + s.handed.count x + s.counted.count (Item.record x) +
          (Closer.counting (.record i)).holds (.record x) =
            rest.count (Item.record x) + (if x = i then 1 else 0) + s.handed.count x +
              s.counted.count (Item.record x) + 0
        rw [holds_record]
        omega
  · next item hcounting =>
    rw [hcounting] at hmarker hcloser hrecords
    cases item with
    | stop => cases hcloser
    | record i =>
    refine ⟨fun x => ?_, h.fine, hmarker, ?_, rfl, (by rintro ⟨⟩), hidle (by simp [*]) _, ?_⟩
    · have hx := hrecords x
      rw [holds_record] at hx
      show s.queue.count (Item.record x) + s.handed.count x +
        (Item.record i :: s.counted).count (Item.record x) + 0 = due c (s.calls.get? x)
      rw [count_record_cons]
      omega
    · show (Item.record i :: s.counted).count Item.stop = 0
      rw [count_cons_of_ne (by simp), h.counted]
    · show s.dropped + 1 = s.counted.length + 1
      rw [h.total]
  · next hclosing =>
    rw [hclosing] at hmarker hrecords
    exact ⟨hrecords, h.fine, hmarker, h.counted, rfl, fun _ => h.drained (by rw [hclosing]; rfl),
      hidle (by simp [*]) _, h.total⟩

theorem Accounted.act (h : Accounted c s)
    (hc : ∀ timeout, c.blockTimeout = some timeout → 0 ≤ timeout) (op : Op)
    (horderly : s.orderly op = true) : Accounted c (s.act c op).2 := by
  cases op with
  | handle i =>
    rw [AsyncHandler.act]
    split
    · exact h
    · next hnone =>
      have hcall : s.calls.get? i = none := by simpa using hnone
      split
      · next hlevel =>
        apply h.moveTo
        · exact ⟨fun hne => absurd rfl hne, (by rintro (⟨⟨⟩⟩ | ⟨⟨⟩⟩))⟩
        · rw [hcall]
          exact due_of_not fun hpasses => absurd hpasses.1 (not_le.mpr hlevel)
      · next hlevel =>
        apply h.moveTo
        · exact ⟨fun _ => not_lt.mp hlevel, (by rintro (⟨⟨⟩⟩ | ⟨⟨⟩⟩))⟩
        · rw [hcall]
          exact due_of_ne (by rintro ⟨⟩)
  | go i =>
    rw [AsyncHandler.act]
    cases hcall : s.calls.get? i with
    | none => exact h
    | some => exact h.handleStep hc hcall horderly
  | work => exact h.workStep
  | close =>
    rw [AsyncHandler.act]
    split
    · exact h
    · next hclosed =>
      have hidle := h.idle (by simpa using hclosed)
      have hmarker := h.marker
      rw [hidle] at hmarker
      refine ⟨fun x => ?_, h.fine, hmarker, h.counted, rfl, (by rintro ⟨⟩), (by rintro ⟨⟩), h.total⟩
      rw [← h.records x, tally, tally, hidle]
      rfl
  | closer => exact h.closeStep horderly

/-! ## Runs -/

theorem step_eq_act (c : Config) (s : AsyncHandler) (op : Op) :
    s.step c op = .ok (s.act c op) := rfl

/-- `close` and all calls of `handle` have returned, and the worker has stopped or waits. -/
structure Quiet (s : AsyncHandler) : Prop where
  closer : s.closer = .returned
  calls : ∀ i call, s.calls.get? i = some call → call.stage = .returned
  worker : s.worker = .stopped ∨ s.worker = .getting ∧ s.queue = []

/-- A queue of one record, which drops what does not fit. -/
def small : Config :=
  { level := 0
    capacity := 1
    overflow := .drop
    blockTimeout := none
    proper := by decide }

/-- A record whose call enqueues it. -/
def logged (i : Nat) : List Op := [.handle i 20 .kept, .go i false, .go i false, .go i false]

end AsyncHandler

end InterviewPrep.Logging
