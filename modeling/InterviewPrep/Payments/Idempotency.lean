/-
  Every success is backed by money that moved for it, as long as the gateway answers no task with
  the result of another (`run_chargesMatched`, `run_refundsMatched`).  Two merchants that choose
  the same key, or two payments that are refunded under one, are answered so:
  `sharedKey_chargedOnce`, `sharedRefundKey_refundedOnce`.

  `pay` is idempotent on (merchant_id, idempotency_key): one payment and at most one charge for a
  key, and every answer under it is that payment, that it is in progress, or a conflict
  (`run_idempotentCharge`).  The amount of a request is checked before its key is looked up, so a
  different request without a positive amount is not told of a conflict (`zeroAmount_noConflict`).
-/
import InterviewPrep.Payments.Matching
import Mathlib.Tactic.IntervalCases

namespace InterviewPrep.Payments

open Lib PaymentService Dict List

def Task.IsCharge (task : Task) : Prop := ∃ p, task = .charge p

def Task.IsRefund (task : Task) : Prop := ∃ p r, task = .refund p r

namespace PaymentSystem

variable {s s' : PaymentSystem} {trace : List PaymentEvent} {P : Task → Prop} {task : Task}

/-! ## Backed successes -/

/-- The tasks of `P` that succeeded, or are about to, moved money themselves. -/
structure Backed (P : Task → Prop) (trace : List PaymentEvent) (s : PaymentSystem) : Prop where
  inHand : ∀ c call outcome, s.calls.get? c = some call → call.phase = .settling outcome →
    Approves outcome → P call.task → call.task ∈ movers trace
  done : ∀ task, P task → Done s.service task → task ∈ movers trace

theorem mem_movers_append (h : task ∈ movers trace) (e : PaymentEvent) :
    task ∈ movers (trace ++ [e]) := by
  rw [movers_append]
  exact mem_append_left _ h

theorem Accounted.answered (h : Accounted trace s) {handling : Handling}
    {outcome : Except GatewayError GatewayResult} {gateway : SimulatedGateway}
    (hcalled : s.gateway.Called (s.taskKey task) (s.taskEntry task) handling outcome gateway)
    (hown : OwnAnswers P (trace ++ [.sent task handling])) (hP : P task)
    (happroved : Approves outcome) : task ∈ movers (trace ++ [.sent task handling]) := by
  obtain ⟨answer, rfl, happroved⟩ := happroved
  cases hcalled with
  | processed _ _ hdecision hout =>
    obtain rfl := hout answer rfl
    rw [hdecision.mp happroved, movers_append]
    exact mem_append_right _ (mem_singleton_self task)
  | remembered _ hsome hout =>
    obtain rfl := hout answer rfl
    obtain ⟨moved, hmem⟩ := hown.last hP
    obtain ⟨-, result', hresult', hdecision⟩ := h.processed task moved hmem
    rw [hsome, Option.some.injEq] at hresult'
    subst hresult'
    rw [hdecision.mp happroved] at hmem
    exact mem_movers_append (mem_movers.mpr hmem) _

theorem moved_backed {a : PaymentStep} {e : PaymentEvent} (hmoved : Moved s a e s')
    (hs : SystemOk s) (haccounted : Accounted trace s) (hown : OwnAnswers P (trace ++ [e]))
    (h : Backed P trace s) : Backed P (trace ++ [e]) s' := by
  have hdone : ∀ task, P task → Done s'.service task → task ∈ movers (trace ++ [e]) := by
    intro task hP htask
    refine mem_movers_append ?_ e
    rcases moved_done hmoved hs htask with htask | ⟨c, call, outcome, hcall, hphase, rfl, happroved⟩
    · exact h.done task hP htask
    · exact h.inHand c call outcome hcall hphase happroved hP
  refine ⟨fun c' call' outcome' hget hphase' happroved hP => ?_, hdone⟩
  have hkept : ∀ c'' call'', s.calls.get? c'' = some call'' → call''.phase = .settling outcome' →
      P call''.task → call''.task ∈ movers (trace ++ [e]) := fun c'' call'' hget hphase hP =>
    mem_movers_append (h.inHand c'' call'' outcome' hget hphase happroved hP) e
  cases hmoved with
  | inject | payAnswered | refundAnswered | reconciledNone => exact hkept c' call' hget hphase' hP
  | payCreated | refundHeld | reconcileStarted | riskAllowed | settledNext =>
    rcases get?_set_some hget with ⟨-, rfl⟩ | ⟨-, hget⟩
    · cases hphase'
    · exact hkept c' call' hget hphase' hP
  | riskRejected | raised | settledLast =>
    exact hkept c' call' (get?_erase_some hget).2 hphase' hP
  | sent _ _ hcalled hnext =>
    rcases get?_set_some hget with ⟨-, rfl⟩ | ⟨-, hget⟩
    · rcases hnext with hnext | ⟨hnext, -⟩ | ⟨n, hnext⟩
      · cases hphase'.symm.trans hnext
        exact haccounted.answered hcalled hown hP happroved
      · cases hphase'.symm.trans hnext
      · cases hphase'.symm.trans hnext
    · exact hkept c' call' hget hphase' hP

/-- What is known of a run from its trace. -/
structure RunOk (trace : List PaymentEvent) (s : PaymentSystem) : Prop where
  system : SystemOk s
  accounted : Accounted trace s
  backed : ∀ P, OwnAnswers P trace → Backed P trace s

theorem new_runOk (retry : RetryPolicy) (merchants : Dict String Merchant) :
    RunOk [] (new retry merchants) := by
  refine ⟨new_systemOk retry merchants, ⟨rfl, ?_, nodup_nil, ?_, ?_⟩, fun P hown => ⟨?_, ?_⟩⟩
  · intro task moved h
    cases h
  · intro key result h
    cases h
  · intro before task after h
    simp at h
  · intro c call outcome h
    cases h
  · intro task hP h
    cases task with
    | charge p | refund p r => exact absurd h.1 (Nat.not_lt_zero p)

variable {merchants : Dict String Merchant} {steps : List PaymentStep} {retry : RetryPolicy}

/-- A run leaves its payments accounted for, and backed by answers of the gateway. -/
theorem run_runOk
    (hrun : runSteps step (new retry merchants) steps = .ok (trace, s)) : RunOk trace s := by
  have hkeeps := runSteps_keeps (C := fun _ _ => True) (fun _ trace s => RunOk trace s)
    (fun _ trace t a e t' _ h _ hstep => by
      have hmoved := step_moved hstep
      exact ⟨moved_systemOk hmoved h.system, moved_accounted hmoved h.system h.accounted,
        fun P hown => moved_backed hmoved h.system h.accounted hown (h.backed P hown.of_append)⟩)
    (new_runOk retry merchants) (Guarded.of_forall (fun _ _ => trivial) _ steps) hrun
  exact hkeeps

/-! ## One entry for each success -/

/-- A payment whose charge succeeded. -/
def Charged (s : PaymentSystem) (p : Ref) : Prop := Done s.service (.charge p)

/-- A refund that succeeded, of the payment `p`. -/
def Refunded (s : PaymentSystem) (p r : Ref) : Prop := Done s.service (.refund p r)

/-- Successful payments have entries of their own amounts, different ones different entries. -/
def ChargesMatched (s : PaymentSystem) : Prop :=
  ∃ entry : Ref → Nat,
    (∀ p, s.Charged p → s.gateway.moneyMoved[entry p]? =
      some (.charge, (s.service.heap.read p).amount)) ∧
    ∀ p q, s.Charged p → s.Charged q → entry p = entry q → p = q

/-- The same for the refunds of all payments. -/
def RefundsMatched (s : PaymentSystem) : Prop :=
  ∃ entry : Ref → Nat,
    (∀ p r, s.Refunded p r → s.gateway.moneyMoved[entry r]? =
      some (.refund, (s.service.refundHeap.read r).amount)) ∧
    ∀ p r q r', s.Refunded p r → s.Refunded q r' → entry r = entry r' → r = r'

/-- What was refunded and what is held for refunds is at most what was captured. -/
def RefundsWithin (s : PaymentSystem) : Prop :=
  ∀ p < s.service.heap.next,
    refundUnits s.service.refundHeap (s.service.heap.read p).refunds .succeeded +
      refundUnits s.service.refundHeap (s.service.heap.read p).refunds .pending ≤
      (s.service.heap.read p).amount.units

theorem Accounted.entry_idxOf (h : Accounted trace s) (htask : task ∈ movers trace) :
    s.gateway.moneyMoved[(movers trace).idxOf task]? = some (s.taskEntry task) := by
  rw [h.moneyMoved, getElem?_map, getElem?_idxOf htask]
  rfl

/-- The successful payments match entries of their own where no charge is answered with the result
    of another payment's. -/
theorem run_chargesMatched (hrun : runSteps step (new retry merchants) steps = .ok (trace, s))
    (hown : OwnAnswers Task.IsCharge trace) : s.ChargesMatched := by
  have hok := run_runOk hrun
  have hmem : ∀ p, s.Charged p → .charge p ∈ movers trace := fun p hp =>
    (hok.backed _ hown).done _ ⟨p, rfl⟩ hp
  refine ⟨fun p => (movers trace).idxOf (.charge p), fun p hp => ?_, fun p q hp hq heq => ?_⟩
  · exact hok.accounted.entry_idxOf (hmem p hp)
  · exact Task.charge.inj ((idxOf_inj (hmem p hp)).mp heq)

/-- The refunds of a payment stay within its amount; the successful ones match entries of their own
    where none is answered with the result of another. -/
theorem run_refundsMatched (hrun : runSteps step (new retry merchants) steps = .ok (trace, s)) :
    s.RefundsWithin ∧ (OwnAnswers Task.IsRefund trace → s.RefundsMatched) := by
  have hok := run_runOk hrun
  refine ⟨fun p hp => (hok.system.service.payment p hp).total, fun hown => ?_⟩
  have hmem : ∀ p r, s.Refunded p r → .refund p r ∈ movers trace := fun p r hr =>
    (hok.backed _ hown).done _ ⟨p, r, rfl⟩ hr
  have howner : ∀ p r, s.Refunded p r → (s.service.refundHeap.read r).payment = p := fun p r hr =>
    ((hok.system.service.payment p hr.1).owned r hr.2.1).2.1
  refine ⟨fun r => (movers trace).idxOf (.refund (s.service.refundHeap.read r).payment r),
    fun p r hr => ?_, fun p r q r' hr hr' heq => ?_⟩
  · dsimp only
    rw [howner p r hr]
    exact hok.accounted.entry_idxOf (hmem p r hr)
  · dsimp only at heq
    rw [howner p r hr, howner q r' hr'] at heq
    exact (Task.refund.inj ((idxOf_inj (hmem p r hr)).mp heq)).2

/-! ## Keys that differ -/

theorem chargeKey_ne_refundKey (a b : String) : "charge:" ++ a ≠ "refund:" ++ b := by
  intro h
  have hchars := congrArg String.toList h
  rw [String.toList_append, String.toList_append] at hchars
  cases hchars

theorem RunOk.ownAnswers (h : RunOk trace s)
    (hkeys : ∀ task task', P task → s.service.TaskOk task → s.service.TaskOk task' →
      s.taskKey task' = s.taskKey task → task' = task) : OwnAnswers P trace := by
  intro before task after hsplit hP
  obtain ⟨htask, task', moved, hmem, hkey⟩ := h.accounted.remembered before task after hsplit
  have hmem' : .sent task' (.processed moved) ∈ trace := hsplit ▸ mem_append_left _ hmem
  have htask' := (h.accounted.processed task' moved hmem').1
  obtain rfl := hkeys task task' hP htask htask' hkey
  exact ⟨moved, hmem⟩

theorem RunOk.ownCharges (h : RunOk trace s)
    (hkeys : ∀ p < s.service.heap.next, ∀ q < s.service.heap.next,
      (s.service.heap.read q).request.idempotencyKey =
      (s.service.heap.read p).request.idempotencyKey →
      q = p) : OwnAnswers Task.IsCharge trace := by
  refine h.ownAnswers ?_
  rintro _ task' ⟨p, rfl⟩ hp htask' hkey
  cases task' with
  | charge q =>
    exact congrArg Task.charge (hkeys p hp q htask' ((String.append_right_inj _).mp hkey))
  | refund => exact absurd hkey.symm (chargeKey_ne_refundKey _ _)

theorem RunOk.ownRefunds (h : RunOk trace s)
    (hkeys : ∀ r < s.service.refundHeap.next, ∀ r' < s.service.refundHeap.next,
      (s.service.refundHeap.read r').idempotencyKey = (s.service.refundHeap.read r).idempotencyKey →
      r' = r) : OwnAnswers Task.IsRefund trace := by
  refine h.ownAnswers ?_
  rintro _ task' ⟨p, r, rfl⟩ htask htask' hkey
  cases task' with
  | charge => exact absurd hkey (chargeKey_ne_refundKey _ _)
  | refund _ r' =>
    have heq := hkeys r (h.system.refund_lt htask) r' (h.system.refund_lt htask')
      ((String.append_right_inj _).mp hkey)
    subst heq
    rw [h.system.service.owner htask.1 htask'.1 htask.2 htask'.2]

/-! ## Shared keys -/

/-- Two merchants. -/
def shops : Dict String Merchant :=
  Dict.ofList [("m1", ⟨"m1", "One", 250⟩), ("m2", ⟨"m2", "Two", 250⟩)]

def attempts (n : Nat) (h : 1 ≤ n) : RetryPolicy := ⟨n, 1 / 5, 5, h⟩

def order (merchantId idempotencyKey : String) (units : Int) : PaymentRequest :=
  ⟨idempotencyKey, merchantId, "cust", ⟨units, .usd⟩, "tok_visa"⟩

/-- A call of `pay` without faults. -/
def payThrough (c : Nat) (request : PaymentRequest) : List PaymentStep :=
  [.pay c request, .risk c none, .send c, .settle c]

/-- A call of `refund` without faults. -/
def refundThrough (c paymentId : Nat) (units : Int) (idempotencyKey : String) : List PaymentStep :=
  [.refund c paymentId ⟨units, .usd⟩ idempotencyKey "", .send c, .settle c]

/-- `run_chargesMatched` for a charge that times out after it went through and is sent again. -/
theorem run_chargesMatched_timeout : ∃ trace s, runSteps step (new (attempts 2 (by decide)) shops)
        [.inject [.timeoutAfter], .pay 0 (order "m1" "k" 1000), .risk 0 none, .send 0, .send 0,
          .settle 0] = .ok (trace, s) ∧
      .sent (.charge 0) .remembered ∈ trace ∧ s.Charged 0 ∧ s.ChargesMatched := by
  refine exists_run_of_observe
    (f := fun r => (r.1.getLast?, decide (.sent (.charge 0) .remembered ∈ r.1),
      r.2.service.heap.next,
      (r.2.service.heap.read 0).status))
    (b := (some (.paid 0 (order "m1" "k" 1000) (.ok 0)), true, 1, .succeeded)) (by decide +kernel)
    fun trace s hrun hobs => ?_
  simp only [Prod.mk.injEq, decide_eq_true_eq] at hobs
  obtain ⟨-, hmem, hnext, hstatus⟩ := hobs
  refine ⟨hmem, ⟨by rw [hnext]; decide, by rw [hstatus]; decide⟩,
    run_chargesMatched hrun ((run_runOk hrun).ownCharges fun p hp q hq _ => ?_)⟩
  rw [hnext, Nat.lt_one_iff] at hp hq
  rw [hp, hq]

/-- Two merchants' customers pay under one key: both payments succeed on one charge. -/
theorem sharedKey_chargedOnce : ∃ trace s, runSteps step (new (attempts 1 (by decide)) shops)
        (payThrough 0 (order "m1" "k" 1000) ++ payThrough 1 (order "m2" "k" 1000)) =
        .ok (trace, s) ∧
      s.Charged 0 ∧ s.Charged 1 ∧ ¬ s.ChargesMatched := by
  refine exists_run_of_observe (f := fun r => (r.2.gateway.moneyMoved, r.2.service.heap.next,
      (r.2.service.heap.read 0).status, (r.2.service.heap.read 1).status))
    (b := ([(.charge, ⟨1000, .usd⟩)], 2, .succeeded, .succeeded)) (by decide +kernel)
    fun trace s hrun hobs => ?_
  simp only [Prod.mk.injEq] at hobs
  obtain ⟨hmoved, hnext, hstatus0, hstatus1⟩ := hobs
  have h0 : s.Charged 0 := ⟨by rw [hnext]; decide, by rw [hstatus0]; decide⟩
  have h1 : s.Charged 1 := ⟨by rw [hnext]; decide, by rw [hstatus1]; decide⟩
  refine ⟨h0, h1, ?_⟩
  rintro ⟨entry, hentry, hinj⟩
  -- there is one entry, so both payments have it
  have hplace : ∀ p, s.Charged p → entry p = 0 := by
    intro p hp
    obtain ⟨hlt, -⟩ := List.getElem?_eq_some_iff.mp (hentry p hp)
    rw [hmoved] at hlt
    exact Nat.lt_one_iff.mp hlt
  cases hinj 0 1 h0 h1 ((hplace 0 h0).trans (hplace 1 h1).symm)

/-- `run_refundsMatched` for two refunds of one payment, one of which is reconciled. -/
theorem run_refundsMatched_reconciled :
    ∃ trace s, runSteps step (new (attempts 1 (by decide)) shops)
        (payThrough 0 (order "m1" "k" 1000) ++ [.inject [.timeoutAfter]] ++
          refundThrough 1 1 400 "r1" ++ refundThrough 2 1 600 "r2" ++
          [.reconcile 3, .send 3, .settle 3]) = .ok (trace, s) ∧
      s.Refunded 0 0 ∧ s.Refunded 0 1 ∧ s.RefundsWithin ∧ s.RefundsMatched := by
  refine exists_run_of_observe (f := fun r => ((r.2.service.heap.next, r.2.service.refundHeap.next),
      (r.2.service.heap.read 0).refunds,
      [(r.2.service.refundHeap.read 0).status, (r.2.service.refundHeap.read 1).status],
      [(r.2.service.refundHeap.read 0).idempotencyKey,
        (r.2.service.refundHeap.read 1).idempotencyKey]))
    (b := ((1, 2), [0, 1], [.succeeded, .succeeded], ["r1", "r2"])) (by decide +kernel)
    fun trace s hrun hobs => ?_
  simp only [Prod.mk.injEq, List.cons.injEq, and_true] at hobs
  obtain ⟨⟨hnext, hrefunds⟩, hlist, ⟨hstatus0, hstatus1⟩, hkey0, hkey1⟩ := hobs
  have hmatched := run_refundsMatched hrun
  refine ⟨⟨by rw [hnext]; decide, by rw [hlist]; decide, hstatus0⟩,
    ⟨by rw [hnext]; decide, by rw [hlist]; decide, hstatus1⟩, hmatched.1,
    hmatched.2 ((run_runOk hrun).ownRefunds fun r hr r' hr' hkey => ?_)⟩
  rw [hrefunds] at hr hr'
  interval_cases r <;> interval_cases r'
  · rfl
  · rw [hkey0, hkey1] at hkey
    exact absurd hkey (by decide)
  · rw [hkey0, hkey1] at hkey
    exact absurd hkey (by decide)
  · rfl

/-- Two payments are refunded under one key: both refunds succeed and one moved money. -/
theorem sharedRefundKey_refundedOnce :
    ∃ trace s, runSteps step (new (attempts 1 (by decide)) shops)
        (payThrough 0 (order "m1" "k1" 1000) ++ payThrough 1 (order "m1" "k2" 1000) ++
          refundThrough 2 1 400 "r" ++ refundThrough 3 2 400 "r") = .ok (trace, s) ∧
      s.Refunded 0 0 ∧ s.Refunded 1 1 ∧ ¬ s.RefundsMatched := by
  refine exists_run_of_observe (f := fun r => (r.2.gateway.moneyMoved, r.2.service.heap.next,
      [(r.2.service.heap.read 0).refunds, (r.2.service.heap.read 1).refunds],
      [(r.2.service.refundHeap.read 0).status, (r.2.service.refundHeap.read 1).status]))
    (b := ([(.charge, ⟨1000, .usd⟩), (.charge, ⟨1000, .usd⟩), (.refund, ⟨400, .usd⟩)],
      2, [[0], [1]],
      [.succeeded, .succeeded])) (by decide +kernel) fun trace s hrun hobs => ?_
  simp only [Prod.mk.injEq, List.cons.injEq, and_true] at hobs
  obtain ⟨hmoved, hnext, ⟨hlist0, hlist1⟩, hstatus0, hstatus1⟩ := hobs
  have h0 : s.Refunded 0 0 := ⟨by rw [hnext]; decide, by rw [hlist0]; decide, hstatus0⟩
  have h1 : s.Refunded 1 1 := ⟨by rw [hnext]; decide, by rw [hlist1]; decide, hstatus1⟩
  refine ⟨h0, h1, ?_⟩
  rintro ⟨entry, hentry, hinj⟩
  -- the third entry is the only one of a refund
  have hplace : ∀ p r, s.Refunded p r → entry r = 2 := by
    intro p r hr
    have hread := hentry p r hr
    rw [hmoved] at hread
    match hplace : entry r with
    | 0 | 1 => rw [hplace] at hread; cases hread
    | 2 => rfl
    | n + 3 => rw [hplace] at hread; cases hread
  cases hinj 0 0 1 1 h0 h1 ((hplace 0 0 h0).trans (hplace 1 1 h1).symm)

end PaymentSystem

open Lib PaymentService

/-! ## Answers of `pay` -/

/-- The table's key of a request. -/
def PaymentRequest.scope (request : PaymentRequest) : String × String :=
  (request.merchantId, request.idempotencyKey)

/-- The message of the conflict. -/
def PaymentRequest.conflict (request : PaymentRequest) : PaymentError :=
  .idempotencyConflict ("key " ++ request.idempotencyKey ++ " reused with a different request")

/-- What `pay` answers to a request under the key of the payment `p`. -/
structure AnswersFor (payment : Payment) (p : Ref) (request : PaymentRequest)
    (outcome : Except PaymentError Ref) : Prop where
  same : request = payment.request →
    outcome = .ok p ∨ outcome = .error (.requestInProgress request.idempotencyKey)
  different : request ≠ payment.request → 0 < request.amount.units →
    outcome = .error request.conflict

/-- A request that the table is asked about. -/
structure Asks (s : PaymentService) (request : PaymentRequest) : Prop where
  amount : 0 < request.amount.units
  key : request.idempotencyKey ≠ ""
  merchant : s.merchants.get? request.merchantId ≠ none

namespace PaymentService

variable {s s' : PaymentService} {p : Ref} {request : PaymentRequest}

theorem lookUp_answered {outcome : Except PaymentError Ref}
    (h : s.lookUp request = .inl outcome) (hasks : Asks s request) :
    ∃ p, s.byKey.get? request.scope = some p ∧ AnswersFor (s.heap.read p) p request outcome := by
  unfold lookUp at h
  rw [if_neg (not_le.mpr hasks.amount), if_neg hasks.key] at h
  split at h
  case h_1 hmerchant => exact absurd hmerchant hasks.merchant
  case h_2 p _ hkey =>
    refine ⟨p, hkey, ?_⟩
    dsimp only at h
    split at h
    case isTrue hne =>
      cases h
      exact ⟨fun heq => absurd heq.symm hne, fun _ _ => rfl⟩
    case isFalse hne =>
    rw [not_not] at hne
    split at h
    · cases h
      exact ⟨fun _ => .inr rfl, fun hne' => absurd hne.symm hne'⟩
    · cases h
      exact ⟨fun _ => .inl rfl, fun hne' => absurd hne.symm hne'⟩
  case h_3 => cases h

end PaymentService

namespace PaymentSystem

variable {s s' : PaymentSystem} {trace : List PaymentEvent} {p : Ref} {request : PaymentRequest}
  {e : PaymentEvent} {service service' : PaymentService} {target : PaymentStatus} {o : Outbox}

/-- The answers that `pay` gave so far. -/
structure PaidOk (trace : List PaymentEvent) (s : PaymentSystem) : Prop where
  answers : ∀ c request outcome p, .paid c request outcome ∈ trace → p < s.service.heap.next →
    request.scope = (s.service.heap.read p).request.scope →
    AnswersFor (s.service.heap.read p) p request outcome
  /-- whoever was answered, by more than its checks, has a payment under the key -/
  found : ∀ c request outcome, .paid c request outcome ∈ trace → Asks s.service request →
    s.service.byKey.get? request.scope ≠ none

variable {outcome : Except GatewayError GatewayResult} {payment payment' : Payment}

theorem AnswersFor.congr {outcome : Except PaymentError Ref}
    (h : AnswersFor payment p request outcome) (heq : payment'.request = payment.request) :
    AnswersFor payment' p request outcome :=
  ⟨heq ▸ h.same, heq ▸ h.different⟩

theorem SystemOk.eq_of_scope (h : SystemOk s) {q : Ref} (hp : p < s.service.heap.next)
    (hq : q < s.service.heap.next)
    (hscope : (s.service.heap.read p).request.scope = (s.service.heap.read q).request.scope) :
    p = q := by
  have hkp := h.service.keyed p hp
  have hkq := h.service.keyed q hq
  rw [← PaymentRequest.scope, hscope] at hkp
  exact Option.some.inj (hkp.symm.trans hkq)

theorem PaidOk.append (h : PaidOk trace s) (hkeeps : Keeps s.service s'.service)
    (hnext : s'.service.heap.next = s.service.heap.next)
    (hbyKey : s'.service.byKey = s.service.byKey)
    (hanswers : ∀ c request outcome p, e = .paid c request outcome → p < s.service.heap.next →
      request.scope = (s.service.heap.read p).request.scope →
      AnswersFor (s.service.heap.read p) p request outcome)
    (hfound : ∀ c request outcome, e = .paid c request outcome → Asks s.service request →
      s.service.byKey.get? request.scope ≠ none) : PaidOk (trace ++ [e]) s' := by
  refine ⟨fun c request outcome p hmem hp hscope => ?_, fun c request outcome hmem hasks => ?_⟩
  · rw [hnext] at hp
    have hrequest := hkeeps.request p hp
    rw [hrequest] at hscope
    refine AnswersFor.congr ?_ hrequest
    rcases mem_append.mp hmem with hmem | hmem
    · exact h.answers c request outcome p hmem hp hscope
    · exact hanswers c request outcome p (mem_singleton.mp hmem).symm hp hscope
  · have hasks' : Asks s.service request :=
      ⟨hasks.amount, hasks.key, hkeeps.merchants ▸ hasks.merchant⟩
    rw [hbyKey]
    rcases mem_append.mp hmem with hmem | hmem
    · exact h.found c request outcome hmem hasks'
    · exact hfound c request outcome (mem_singleton.mp hmem).symm hasks'

theorem returned_answers (hs : SystemOk s) {c : Nat} {call : Call}
    (hcall : s.calls.get? c = some call) {c' : Nat} {outcome : Except PaymentError Ref}
    (h : call.method.returned c = .paid c' request outcome) :
    (∀ p < s.service.heap.next, request.scope = (s.service.heap.read p).request.scope →
      AnswersFor (s.service.heap.read p) p request outcome) ∧
    s.service.byKey.get? request.scope ≠ none := by
  have hok := (hs.call c call hcall).method
  cases hmethod : call.method with
  | refund | reconcile => rw [hmethod] at h; cases h
  | pay _ q =>
  rw [hmethod] at h hok
  cases h
  obtain ⟨hq, hrequest⟩ := hok
  refine ⟨fun p hp hscope => ?_, fun hnone => ?_⟩
  · rw [← hrequest] at hscope
    obtain rfl := hs.eq_of_scope hq hp hscope
    exact ⟨fun _ => .inl rfl, fun hne => absurd hrequest.symm hne⟩
  · have hkeyed := hs.service.keyed q hq
    rw [← PaymentRequest.scope, hrequest, hnone] at hkeyed
    cases hkeyed

theorem Finished.tables (h : Finished service p target service') :
    service'.heap.next = service.heap.next ∧ service'.byKey = service.byKey := by
  cases h
  exact ⟨rfl, rfl⟩

theorem Settled.tables {task : Task} (h : Settled service outcome task service') :
    service'.heap.next = service.heap.next ∧ service'.byKey = service.byKey := by
  cases task with
  | charge =>
    cases h with
    | resolved => exact ⟨rfl, rfl⟩
    | finished _ _ hfinished => exact Finished.tables hfinished
  | refund => cases h <;> exact ⟨rfl, rfl⟩

theorem moved_paidOk {a : PaymentStep} (hmoved : Moved s a e s') (hs : SystemOk s)
    (h : PaidOk trace s) : PaidOk (trace ++ [e]) s' := by
  have hkeeps := moved_keeps hmoved
  cases hmoved with
  | inject | refundAnswered | reconciledNone | reconcileStarted | riskAllowed | sent | raised =>
    exact h.append hkeeps rfl rfl (fun _ _ _ _ h => by cases h) fun _ _ _ h => by cases h
  | refundHeld _ hheld =>
    cases hheld
    exact h.append hkeeps rfl rfl (fun _ _ _ _ h => by cases h) fun _ _ _ h => by cases h
  | riskRejected hcall _ _ hfinished =>
    obtain ⟨hnext, hbyKey⟩ := Finished.tables hfinished
    exact h.append hkeeps hnext hbyKey (fun c request outcome p he =>
      (returned_answers hs hcall he).1 p) fun c request outcome he _ =>
      (returned_answers hs hcall he).2
  | settledLast hcall _ hsettled =>
    obtain ⟨hnext, hbyKey⟩ := Settled.tables hsettled
    exact h.append hkeeps hnext hbyKey (fun c request outcome p he =>
      (returned_answers hs hcall he).1 p) fun c request outcome he _ =>
      (returned_answers hs hcall he).2
  | settledNext _ _ _ hsettled =>
    obtain ⟨hnext, hbyKey⟩ := Settled.tables hsettled
    exact h.append hkeeps hnext hbyKey (fun _ _ _ _ h => by cases h) fun _ _ _ h => by cases h
  | @payAnswered _ request outcome hlookUp =>
    refine h.append hkeeps rfl rfl ?_ ?_
    · rintro _ _ _ p ⟨⟩ hp hscope
      -- a payment under the key means that the merchant and the key are good
      obtain ⟨hamount, hkey, hmerchant⟩ := hs.service.valid p hp
      have hkeyed := hs.service.keyed p hp
      rw [← PaymentRequest.scope, ← hscope] at hkeyed
      have hm : request.merchantId = (s.service.heap.read p).request.merchantId :=
        congrArg Prod.fst hscope
      have hk : request.idempotencyKey = (s.service.heap.read p).request.idempotencyKey :=
        congrArg Prod.snd hscope
      have hanswer : 0 < request.amount.units →
          AnswersFor (s.service.heap.read p) p request outcome := by
        intro hpos
        obtain ⟨q, hq, hans⟩ := lookUp_answered hlookUp ⟨hpos, hk ▸ hkey, hm ▸ hmerchant⟩
        obtain rfl := Option.some.inj (hq.symm.trans hkeyed)
        exact hans
      refine ⟨fun heq => (hanswer ?_).same heq, fun hne hpos => (hanswer hpos).different hne hpos⟩
      rw [heq]
      exact hamount
    · rintro _ _ _ ⟨⟩ hasks hnone
      obtain ⟨p, hp, -⟩ := lookUp_answered hlookUp hasks
      rw [hp] at hnone
      cases hnone
  | payCreated hcall hcreated =>
  have hold := fun q (hq : q < s.service.heap.next) => hcreated.read_old hq
  have hnew := hcreated.read_new
  obtain ⟨hamount, hkey, hmerchant, hfresh⟩ := hcreated
  rename_i request' merchant
  refine ⟨fun c request outcome p hmem hp hscope => ?_,
    fun c request outcome hmem hasks hnone => ?_⟩
  · have hmem : .paid c request outcome ∈ trace := by
      rcases mem_append.mp hmem with hmem | hmem
      · exact hmem
      · cases mem_singleton.mp hmem
    rcases Nat.lt_or_eq_of_le (Nat.le_of_lt_succ hp) with hlt | rfl
    · rw [hold p hlt] at hscope ⊢
      exact h.answers c request outcome p hmem hlt hscope
    rw [hnew] at hscope ⊢
    -- an answer under the key, before there was a payment, was to a bad amount
    have hbad : ¬ 0 < request.amount.units := by
      intro hpos
      have hm : request.merchantId = request'.merchantId := congrArg Prod.fst hscope
      have hk : request.idempotencyKey = request'.idempotencyKey := congrArg Prod.snd hscope
      refine h.found c request outcome hmem ⟨hpos, hk ▸ hkey, ?_⟩ ?_
      · rw [hm, hmerchant]
        simp
      · rw [hscope]
        exact hfresh
    refine ⟨fun heq => absurd ?_ hbad, fun _ hpos => absurd hpos hbad⟩
    rw [heq]
    exact hamount
  · have hmem : .paid c request outcome ∈ trace := by
      rcases mem_append.mp hmem with hmem | hmem
      · exact hmem
      · cases mem_singleton.mp hmem
    refine h.found c request outcome hmem ⟨hasks.amount, hasks.key, hasks.merchant⟩ ?_
    rw [get?_set] at hnone
    split at hnone
    · cases hnone
    · exact hnone

/-! ## Events of the outbox -/

/-- The types of the events about a payment, in order. -/
def paymentTypes (o : Outbox) (id : Nat) : List String :=
  (o.pending.values.filter fun e => e.aggregate = .payment id).map OutboxEvent.type

/-- The types that a payment's history has events of. -/
def chargeTypes (payment : Payment) : List String :=
  (payment.history.tail.filter (· ∈ chargeStatuses)).map fun status => "payment." ++ status.value

/-- The outbox has one event for each status that a charge ended with. -/
structure OutboxOk (s : PaymentService) : Prop where
  ids : ∀ n e, s.outbox.pending.get? n = some e → n < s.outbox.ids
  bound : ∀ e ∈ s.outbox.pending.values, ∀ n, e.aggregate = .payment n → n < s.ids
  events : ∀ p < s.heap.next,
    paymentTypes s.outbox (s.heap.read p).paymentId = chargeTypes (s.heap.read p)

section

variable (hids : ∀ n e, o.pending.get? n = some e → n < o.ids)

include hids

theorem append_values (type : String)
    (aggregate : Aggregate) (payload : List (String × PayloadValue)) :
    (o.append type aggregate payload).pending.values =
      o.pending.values ++ [⟨o.ids, type, aggregate, payload⟩] := by
  have hfresh : o.pending.get? o.ids = none := by
    by_contra hne
    obtain ⟨e, he⟩ := Option.ne_none_iff_exists'.mp hne
    exact Nat.lt_irrefl _ (hids _ e he)
  rw [Outbox.append, Dict.values, set_items_of_get?_none _ hfresh, map_append]
  rfl

theorem append_ids (type : String)
    (aggregate : Aggregate) (payload : List (String × PayloadValue)) :
    ∀ n e, (o.append type aggregate payload).pending.get? n = some e →
      n < (o.append type aggregate payload).ids := by
  intro n e he
  rcases get?_set_some he with ⟨rfl, -⟩ | ⟨-, he⟩
  · exact Nat.lt_succ_self _
  · exact Nat.lt_succ_of_lt (hids n e he)

theorem append_paymentTypes (type : String)
    (aggregate : Aggregate) (payload : List (String × PayloadValue)) (id : Nat) :
    paymentTypes (o.append type aggregate payload) id =
      paymentTypes o id ++ if aggregate = .payment id then [type] else [] := by
  rw [paymentTypes, append_values hids, filter_append, map_append, ← paymentTypes]
  by_cases h : aggregate = .payment id <;> simp [h]

end

theorem chargeTypes_moved
    (hpath : HistoryOf payment.history payment.status) (hmoved : MovedTo payment target payment') :
    chargeTypes payment' = chargeTypes payment ++
      if target ∈ chargeStatuses then ["payment." ++ target.value] else [] := by
  have hne : payment.history ≠ [] := by
    intro hnil
    have hhead := hpath.head
    rw [hnil] at hhead
    cases hhead
  rw [chargeTypes, hmoved.history, tail_append_of_ne_nil hne, filter_append,
    map_append, ← chargeTypes]
  by_cases h : target ∈ chargeStatuses <;> simp [h]

theorem OutboxOk.finished (h : OutboxOk service) (hs : service.ServiceOk)
    (hp : p < service.heap.next) (htarget : target ∈ chargeStatuses)
    (hfinished : Finished service p target service') : OutboxOk service' := by
  obtain ⟨payload, hmoved⟩ := hfinished
  refine ⟨append_ids h.ids _ _ _, fun e he n hn => ?_, fun q hq => ?_⟩
  · rw [append_values h.ids] at he
    rcases mem_append.mp he with he | he
    · exact h.bound e he n hn
    · rw [mem_singleton] at he
      subst he
      cases hn
      exact (hs.bound _ p (hs.registered p hp)).2.2
  rw [append_paymentTypes h.ids, read_write_field Payment.paymentId hmoved.paymentId q,
    Memory.read_write]
  by_cases heq : q = p
  · subst heq
    rw [if_pos rfl, if_pos rfl, chargeTypes_moved (hs.payment q hq).path hmoved, if_pos htarget,
      h.events q hq]
  · have hid : Aggregate.payment (service.heap.read p).paymentId ≠
        .payment (service.heap.read q).paymentId := by
      intro hid
      exact heq (hs.paymentId_inj hq hp (Aggregate.payment.inj hid).symm)
    rw [if_neg hid, if_neg heq, append_nil]
    exact h.events q hq

theorem OutboxOk.settled {task : Task}
    (h : OutboxOk service) (hs : service.ServiceOk) (htask : service.TaskOk task)
    (hsettled : Settled service outcome task service') : OutboxOk service' := by
  have hrefund : ∀ type id payload,
      ∀ e ∈ (service.outbox.append type (.refund id) payload).pending.values,
      ∀ n, e.aggregate = .payment n → n < service.ids := by
    intro type id payload e he n hn
    rw [append_values h.ids] at he
    rcases mem_append.mp he with he | he
    · exact h.bound e he n hn
    · rw [mem_singleton] at he
      subst he
      cases hn
  cases task with
  | charge =>
    cases hsettled with
    | resolved => exact h
    | finished htarget _ hfinished => exact h.finished hs htask htarget hfinished
  | refund =>
  cases hsettled with
  | resolved => exact h
  | declined =>
    refine ⟨append_ids h.ids _ _ _, hrefund _ _ _, fun q hq => ?_⟩
    rw [append_paymentTypes h.ids, if_neg (by simp), append_nil]
    exact h.events q hq
  | approved _ _ _ _ _ hmoved =>
    refine ⟨append_ids h.ids _ _ _, hrefund _ _ _, fun q hq => ?_⟩
    rw [append_paymentTypes h.ids, if_neg (by simp), append_nil,
      read_write_field Payment.paymentId hmoved.paymentId q, h.events q hq, Memory.read_write]
    split
    case isTrue heq =>
      subst heq
      rw [chargeTypes_moved (hs.payment q hq).path hmoved, if_neg, append_nil]
      split <;> decide
    case isFalse => rfl

theorem OutboxOk.created (h : OutboxOk service) (hcreated : Created service request p service') :
    OutboxOk service' := by
  have hold := fun q (hq : q < service.heap.next) => hcreated.read_old hq
  have hnew := hcreated.read_new
  obtain ⟨hamount, hkey, hmerchant, hfresh⟩ := hcreated
  refine ⟨h.ids, fun e he n hn => Nat.lt_succ_of_lt (h.bound e he n hn), fun q hq => ?_⟩
  rcases Nat.lt_or_eq_of_le (Nat.le_of_lt_succ hq) with hlt | rfl
  · rw [hold q hlt]
    exact h.events q hlt
  rw [hnew]
  -- no event is about the new payment yet
  have hnone : service.outbox.pending.values.filter
      (fun e => e.aggregate = .payment service.ids) = [] := by
    refine filter_eq_nil_iff.mpr fun e he => ?_
    rw [decide_eq_true_eq]
    intro hid
    exact Nat.lt_irrefl _ (h.bound e he _ hid)
  rw [paymentTypes, Payment.new]
  rw [hnone]
  rfl

theorem moved_outboxOk {a : PaymentStep} (hmoved : Moved s a e s') (hs : SystemOk s)
    (h : OutboxOk s.service) : OutboxOk s'.service := by
  cases hmoved with
  | inject | payAnswered | refundAnswered | reconciledNone | reconcileStarted | riskAllowed
  | sent | raised => exact h
  | payCreated _ hcreated => exact h.created hcreated
  | refundHeld _ hheld =>
    have hstatus := hheld.keeps
    cases hheld
    refine ⟨h.ids, fun e he n hn => Nat.lt_succ_of_lt (h.bound e he n hn), fun q hq => ?_⟩
    rw [read_write_field Payment.paymentId (by rfl) q, h.events q hq, chargeTypes, chargeTypes,
      read_write_field Payment.history (by rfl) q]
  | riskRejected hcall _ htask hfinished =>
    have hp := (hs.call _ _ hcall).tasks _ mem_cons_self
    rw [htask] at hp
    exact h.finished hs.service hp (by decide) hfinished
  | settledLast hcall _ hsettled =>
    exact h.settled hs.service ((hs.call _ _ hcall).tasks _ mem_cons_self) hsettled
  | settledNext hcall _ _ hsettled =>
    exact h.settled hs.service ((hs.call _ _ hcall).tasks _ mem_cons_self) hsettled

/-! ## Idempotence -/

/-- `pay` and `reconcile` are idempotent on (merchant_id, idempotency_key). -/
structure IdempotentCharge (trace : List PaymentEvent) (s : PaymentSystem) : Prop where
  payment : ∀ p < s.service.heap.next, ∀ q < s.service.heap.next,
    (s.service.heap.read p).request.scope = (s.service.heap.read q).request.scope → p = q
  charge : s.gateway.moneyMoved = (movers trace).map s.taskEntry ∧ (movers trace).Nodup
  answers : ∀ c request outcome p, .paid c request outcome ∈ trace → p < s.service.heap.next →
    request.scope = (s.service.heap.read p).request.scope →
    AnswersFor (s.service.heap.read p) p request outcome
  path : ∀ p < s.service.heap.next,
    HistoryOf (s.service.heap.read p).history (s.service.heap.read p).status
  events : ∀ p < s.service.heap.next,
    paymentTypes s.service.outbox (s.service.heap.read p).paymentId =
      chargeTypes (s.service.heap.read p)

theorem pay_error {c : Nat} {e : PaymentError}
    (h : s.step (.pay c request) = .ok (.paid c request (.error e), s')) : s' = s := by
  have hmoved := step_moved h
  cases hmoved
  rfl

theorem new_paidOk (retry : RetryPolicy) (merchants : Dict String Merchant) :
    PaidOk [] (new retry merchants) := by
  refine ⟨?_, ?_⟩
  · intro c request outcome p h
    cases h
  · intro c request outcome h
    cases h

theorem new_outboxOk (retry : RetryPolicy) (merchants : Dict String Merchant) :
    OutboxOk (.new retry merchants) := by
  refine ⟨?_, ?_, ?_⟩
  · intro n e h
    cases h
  · intro e h
    cases h
  · intro p hp
    exact absurd hp (Nat.not_lt_zero p)

/-! ## Exceptions of the wait -/

/-- No wait raises: the sleeper returns, and from attempt number 1025 on only the last one fails. -/
def Waits (s : PaymentSystem) : PaymentStep → Prop
  | .send c => ∀ call ∈ s.calls.get? c, ∀ attempt ∈ call.phase.attempt?, ¬ s.Overflows call attempt
  | .interrupt c => ∀ call ∈ s.calls.get? c, call.phase.attempt? = none
  | .inject _ | .pay _ _ | .risk _ _ | .refund _ _ _ _ _ | .reconcile _ | .settle _ => True

instance : ∀ (s : PaymentSystem) (a : PaymentStep), Decidable (s.Waits a)
  | s, .send c => inferInstanceAs (Decidable (∀ call ∈ s.calls.get? c,
      ∀ attempt ∈ call.phase.attempt?, ¬ (_ ∧ _ ∧ _)))
  | s, .interrupt c => inferInstanceAs (Decidable (∀ call ∈ s.calls.get? c, _ = none))
  | _, .inject _ | _, .pay _ _ | _, .risk _ _ | _, .refund _ _ _ _ _ | _, .reconcile _
  | _, .settle _ => .isTrue trivial

/-- No call is about to raise. -/
def NoneRaising (s : PaymentSystem) : Prop :=
  ∀ c call, s.calls.get? c = some call → call.phase ≠ .raising

theorem returned_ne_raised (c c' : Nat) (method : Method) : method.returned c ≠ .raised c' := by
  cases method <;> exact nofun

theorem moved_noneRaising {a : PaymentStep} (hmoved : Moved s a e s') (hwaits : s.Waits a)
    (h : NoneRaising s) : NoneRaising s' ∧ ∀ c, e ≠ .raised c := by
  cases hmoved with
  | inject | payAnswered | refundAnswered | reconciledNone => exact ⟨h, nofun⟩
  | payCreated | refundHeld | reconcileStarted | riskAllowed | settledNext =>
    refine ⟨fun c call hget => ?_, nofun⟩
    rcases get?_set_some hget with ⟨-, rfl⟩ | ⟨-, hget⟩
    · exact nofun
    · exact h c call hget
  | riskRejected | settledLast =>
    exact ⟨fun c call hget => h c call (get?_erase_some hget).2, fun c => returned_ne_raised _ c _⟩
  | sent hcall hphase _ hnext =>
    refine ⟨fun c call hget => ?_, nofun⟩
    rcases get?_set_some hget with ⟨-, rfl⟩ | ⟨-, hget⟩
    · rcases hnext with rfl | ⟨-, hoverflows⟩ | ⟨n, rfl⟩
      · exact nofun
      · exact absurd hoverflows (hwaits _ hcall _ (hphase ▸ rfl))
      · exact nofun
    · exact h c call hget
  | raised hcall hphase =>
    rcases hphase with hphase | ⟨n, hphase⟩
    · exact absurd hphase (h _ _ hcall)
    · cases (hphase ▸ hwaits _ hcall : Phase.attempt? (.sending n) = none)

/-- Charges are idempotent in every run, and where no wait raises every call ends as its method
says. -/
theorem run_idempotentCharge {retry : RetryPolicy} {merchants : Dict String Merchant}
    {steps : List PaymentStep}
    (hrun : runSteps step (new retry merchants) steps = .ok (trace, s)) :
    IdempotentCharge trace s ∧
      (Guarded Waits step (new retry merchants) steps → ∀ c, .raised c ∉ trace) ∧
      ∀ (t t' : PaymentSystem) c request e,
        t.step (.pay c request) = .ok (.paid c request (.error e), t') → t' = t := by
  have hok := run_runOk hrun
  have hkeeps := runSteps_keeps (C := fun _ _ => True)
    (fun _ trace s => SystemOk s ∧ PaidOk trace s ∧ OutboxOk s.service)
    (fun _ trace t a e t' _ h _ hstep => by
      have hmoved := step_moved hstep
      exact ⟨moved_systemOk hmoved h.1, moved_paidOk hmoved h.1 h.2.1,
        moved_outboxOk hmoved h.1 h.2.2⟩)
    ⟨new_systemOk retry merchants, new_paidOk retry merchants, new_outboxOk retry merchants⟩
    (Guarded.of_forall (fun _ _ => trivial) _ steps) hrun
  obtain ⟨-, hpaid, houtbox⟩ := hkeeps
  refine ⟨⟨fun p hp q hq => hok.system.eq_of_scope hp hq,
    ⟨hok.accounted.moneyMoved, hok.accounted.nodup⟩, hpaid.answers, fun p hp =>
      (hok.system.service.payment p hp).path, houtbox.events⟩, fun hwaits => ?_, ?_⟩
  · refine (runSteps_keeps (fun _ trace s => NoneRaising s ∧ ∀ c, .raised c ∉ trace) ?_
      ⟨fun _ _ h => (by cases h), fun _ => not_mem_nil⟩ hwaits hrun).2
    intro _ trace t a e t' _ h hwaits hstep
    obtain ⟨hnone, hne⟩ := moved_noneRaising (step_moved hstep) hwaits h.1
    refine ⟨hnone, fun c hmem => ?_⟩
    rcases mem_append.mp hmem with hmem | hmem
    · exact h.2 c hmem
    · exact hne c (mem_singleton.mp hmem).symm
  · intro t t' c request e h
    exact pay_error h

/-- `run_idempotentCharge` for a duplicate in flight, a retry and a conflict. -/
theorem run_idempotentCharge_duplicates :
    ∃ trace s, runSteps step (new (attempts 2 (by decide)) shops)
        [.inject [.timeoutAfter], .pay 0 (order "m1" "k" 1000), .pay 1 (order "m1" "k" 1000),
          .risk 0 none, .send 0, .send 0, .settle 0, .pay 2 (order "m1" "k" 1000),
          .pay 3 (order "m1" "k" 2000)] = .ok (trace, s) ∧ trace.filter (fun e => e ≠ .silent) =
        [.paid 1 (order "m1" "k" 1000) (.error (.requestInProgress "k")),
          .sent (.charge 0) (.processed true), .sent (.charge 0) .remembered,
          .paid 0 (order "m1" "k" 1000) (.ok 0), .paid 2 (order "m1" "k" 1000) (.ok 0),
          .paid 3 (order "m1" "k" 2000) (.error (order "m1" "k" 2000).conflict)] ∧
      IdempotentCharge trace s ∧ ∀ c, .raised c ∉ trace := by
  refine exists_run_of_observe (f := fun r => r.1.filter fun e => e ≠ .silent)
    (b := [.paid 1 (order "m1" "k" 1000) (.error (.requestInProgress "k")),
      .sent (.charge 0) (.processed true), .sent (.charge 0) .remembered,
      .paid 0 (order "m1" "k" 1000) (.ok 0), .paid 2 (order "m1" "k" 1000) (.ok 0),
      .paid 3 (order "m1" "k" 2000) (.error (order "m1" "k" 2000).conflict)]) (by decide +kernel)
    fun trace s hrun hobs => ?_
  obtain ⟨hcharge, hraised, -⟩ := run_idempotentCharge hrun
  exact ⟨hobs, hcharge, hraised (by decide +kernel)⟩

/-- A payment whose first `n` attempts have failed. -/
structure Failing (n : Nat) (s : PaymentSystem) : Prop where
  call : s.calls.get? 0 =
    some ⟨.pay (order "m1" "k" 1000) 0, if n < 1025 then .sending n else .raising, .charge 0, []⟩
  faults : s.gateway.faults = []
  retry : s.service.retry = attempts 1026 (by decide)
  status : (s.service.heap.read 0).status = .processing

theorem Failing.round {n : Nat} (h : Failing n s) (hn : n < 1025) : ∃ os s',
    runSteps step s [.inject [.unavailable], .send 0] = .ok (os, s') ∧ Failing (n + 1) s' := by
  have hcall := h.call
  rw [if_pos hn] at hcall
  let t := { s with gateway := s.gateway.inject [.unavailable] }
  have hfaults : t.gateway.faults = [.unavailable] := by
    show s.gateway.faults ++ _ = _
    rw [h.faults, nil_append]
  have hanswer : t.callGateway (.charge 0) = (.error (.unavailable "connection refused"),
      { t.gateway with faults := [] }) := by
    simp only [callGateway, SimulatedGateway.charge, SimulatedGateway.call,
      SimulatedGateway.popFault_eq, hfaults, head?_cons, if_true, tail_cons]
  have hphase : t.service.retry.afterAttempt n (.error (.unavailable "connection refused")) =
      if n + 1 < 1025 then .sending (n + 1) else .raising := by
    show s.service.retry.afterAttempt n _ = _
    rw [h.retry, RetryPolicy.afterAttempt, if_neg (by show n + 1 ≠ 1026; omega)]
    split
    case h_1 hnone =>
      rw [RetryPolicy.delay_eq_none_iff] at hnone
      rw [if_neg (by omega)]
    case h_2 hdelay =>
      have hlt : n < 1024 := by
        by_contra hge
        rw [(attempts 1026 (by decide)).delay_eq_none_iff.mpr (not_lt.mp hge)] at hdelay
        cases hdelay
      rw [if_pos (by omega)]
  have hsend : t.step (.send 0) = .ok
      (.sent (.charge 0) (t.gateway.handling (t.taskKey (.charge 0)) (t.taskMoves (.charge 0))),
        { t with
          gateway := { t.gateway with faults := [] }
          calls := t.calls.set 0 ⟨.pay (order "m1" "k" 1000) 0,
            if n + 1 < 1025 then .sending (n + 1) else .raising, .charge 0, []⟩ }) := by
    have hget : t.calls.get? 0 = _ := hcall
    simp only [step, hget, send, hanswer, hphase]
  exact ⟨_, _, runSteps_cons_ok rfl (runSteps_cons_ok hsend rfl), get?_set_self _ _ _, rfl, h.retry,
    h.status⟩

/-- The gateway refuses 1025 attempts of 1026: `pay` raises what no method documents, and leaves a
payment behind that stays in progress. -/
theorem overflow_raises : ∃ trace s, runSteps step (new (attempts 1026 (by decide)) shops)
        ([.pay 0 (order "m1" "k" 1000), .risk 0 none] ++
          (replicate 1025 [.inject [.unavailable], .send 0]).flatten ++ [.interrupt 0]) =
      .ok (trace, s) ∧ .raised 0 ∈ trace ∧ s.calls.get? 0 = none ∧
      (s.service.heap.read 0).status = .processing := by
  obtain ⟨⟨os, s⟩, hrun, hobs⟩ := exists_ok_of_observe
    (x := runSteps step (new (attempts 1026 (by decide)) shops)
      [.pay 0 (order "m1" "k" 1000), .risk 0 none])
    (f := fun r => r.2) rfl
  have hinit : Failing 0 s := by
    subst hobs
    exact ⟨rfl, rfl, rfl, rfl⟩
  obtain ⟨os', t, hrun', ht⟩ :=
    runSteps_rounds Failing (fun n t hn h => h.round hn) hinit 1025 le_rfl
  have hlast : t.step (.interrupt 0) = .ok (.raised 0, { t with calls := t.calls.erase 0 }) := by
    rw [step, ht.call, if_neg (lt_irrefl _)]
  exact ⟨_, _, runSteps_append (runSteps_append hrun hrun') (runSteps_cons_ok hlast rfl),
    mem_append_right _ (mem_singleton_self _), get?_erase_self .., ht.status⟩

end PaymentSystem

end InterviewPrep.Payments
