/-
  What the sections of `PaymentService` can do: `finishCharge`, `settleCharge`,
  `settleRefund`, `lookUp` and `holdRefund` read backwards, and the same for a step of the
  machine (`PaymentSystem.Moved`).
-/
import InterviewPrep.Payments.Service

namespace InterviewPrep.Payments

open Lib List

/-! ## The sections of the service -/

/-- A payment moved to `target`; what is not named here nothing depends on. -/
structure MovedTo (payment : Payment) (target : PaymentStatus) (payment' : Payment) : Prop where
  allowed : target ∈ allowedTransitions payment.status
  paymentId : payment'.paymentId = payment.paymentId
  request : payment'.request = payment.request
  refunds : payment'.refunds = payment.refunds
  status : payment'.status = target
  history : payment'.history = payment.history ++ [target]

/-- A refund with its outcome. -/
def Refund.settled (refund : Refund) (status : RefundStatus) (reference : String) : Refund :=
  { refund with gatewayRef := some reference, status }

namespace PaymentService

variable {s s' : PaymentService} {p r : Ref}

/-- A payment moved, and the event of it was appended. -/
inductive Finished (s : PaymentService) (p : Ref) (target : PaymentStatus) :
    PaymentService → Prop where
  | intro {payment' : Payment} (payload : List (String × PayloadValue))
      (hmoved : MovedTo (s.heap.read p) target payment') :
      Finished s p target { s with
        heap := s.heap.write p payment'
        outbox := s.outbox.append ("payment." ++ target.value)
          (.payment (s.heap.read p).paymentId) payload }

theorem finishCharge_finished {target : PaymentStatus} {reason : Option String}
    (h : s.finishCharge p target reason = .ok s') : Finished s p target s' := by
  rw [finishCharge] at h
  cases htr : (s.heap.read p).transition target with
  | error => rw [htr] at h; cases h
  | ok =>
    rw [htr] at h
    cases h
    obtain ⟨hmem, rfl⟩ := Payment.transition_ok htr
    exact .intro _ ⟨hmem, rfl, rfl, rfl, rfl, rfl⟩

theorem finishCharge_written {payment : Payment} {target : PaymentStatus} {reason : Option String}
    (h : { s with heap := s.heap.write p payment }.finishCharge p target reason = .ok s')
    (hid : payment.paymentId = (s.heap.read p).paymentId)
    (hrequest : payment.request = (s.heap.read p).request)
    (hrefunds : payment.refunds = (s.heap.read p).refunds)
    (hstatus : payment.status = (s.heap.read p).status)
    (hhistory : payment.history = (s.heap.read p).history) :
    Finished s p target s' := by
  obtain ⟨payload, hmoved⟩ := finishCharge_finished h
  simp only [Memory.read_write_self] at hmoved ⊢
  rw [Memory.write_write, hid]
  exact .intro payload ⟨hstatus ▸ hmoved.allowed, hmoved.paymentId.trans hid,
    hmoved.request.trans hrequest, hmoved.refunds.trans hrefunds, hmoved.status,
    hhistory ▸ hmoved.history⟩

/-- The statuses that a charge ends with. -/
def chargeStatuses : List PaymentStatus := [.succeeded, .failed, .unknown]

def Approves (outcome : Except GatewayError GatewayResult) : Prop :=
  ∃ result, outcome = .ok result ∧ result.decision = .approved

inductive ChargeSettled (s : PaymentService) (p : Ref)
    (outcome : Except GatewayError GatewayResult) :
    PaymentService → Prop where
  | resolved : ChargeSettled s p outcome s
  | finished {target : PaymentStatus} {s' : PaymentService} (htarget : target ∈ chargeStatuses)
      (happroved : target = .succeeded → Approves outcome) (h : Finished s p target s') :
      ChargeSettled s p outcome s'

variable {outcome : Except GatewayError GatewayResult}

theorem settleCharge_settled
    (h : s.settleCharge p outcome = .ok s') : ChargeSettled s p outcome s' := by
  unfold settleCharge at h
  cases outcome with
  | error =>
    simp only at h
    split at h
    · exact .finished (by decide) (by intro h; cases h) (finishCharge_finished h)
    · cases h; exact .resolved
  | ok result =>
  simp only at h
  split at h
  · cases h; exact .resolved
  cases hdec : result.decision with
  | approved =>
    rw [hdec] at h
    simp only at h
    split at h
    · cases h
    · have hfinished := finishCharge_written h rfl rfl rfl rfl rfl
      exact .finished (by decide) (fun _ => ⟨result, rfl, hdec⟩) hfinished
  | declined =>
    rw [hdec] at h
    have hfinished := finishCharge_written h rfl rfl rfl rfl rfl
    exact .finished (by decide) (by intro h; cases h) hfinished

inductive RefundSettled (s : PaymentService) (p r : Ref)
    (outcome : Except GatewayError GatewayResult) : PaymentService → Prop where
  | resolved : RefundSettled s p r outcome s
  | approved {total : Money} {payment' : Payment} (reference : String)
      (payload : List (String × PayloadValue))
      (happroved : Approves outcome) (hpending : (s.refundHeap.read r).status = .pending)
      (htotal : (s.heap.read p).refunded (s.refundHeap.write r
        (Refund.settled (s.refundHeap.read r) .succeeded reference)) = .ok total)
      (hmoved : MovedTo (s.heap.read p)
        (if total = (s.heap.read p).amount then .refunded else .partiallyRefunded) payment') :
      RefundSettled s p r outcome { s with
        heap := s.heap.write p payment'
        refundHeap := s.refundHeap.write r
          (Refund.settled (s.refundHeap.read r) .succeeded reference)
        outbox := s.outbox.append "refund.succeeded"
          (.refund (s.refundHeap.read r).refundId) payload }
  | declined (reference : String) (payload : List (String × PayloadValue))
      (hpending : (s.refundHeap.read r).status = .pending) :
      RefundSettled s p r outcome { s with
        refundHeap := s.refundHeap.write r
          (Refund.settled (s.refundHeap.read r) .failed reference)
        outbox := s.outbox.append "refund.failed" (.refund (s.refundHeap.read r).refundId) payload }

theorem settleRefund_settled
    (h : s.settleRefund p r outcome = .ok s') : RefundSettled s p r outcome s' := by
  unfold settleRefund at h
  cases outcome with
  | error => cases h; exact .resolved
  | ok result =>
  simp only at h
  split at h
  case isTrue => cases h; exact .resolved
  case isFalse hpending =>
  rw [not_not] at hpending
  cases hdec : result.decision with
  | approved =>
    rw [hdec] at h
    simp only at h
    cases htotal : (s.heap.read p).refunded (s.refundHeap.write r
        (Refund.settled (s.refundHeap.read r) .succeeded result.reference)) with
    | error e =>
      rw [Refund.settled] at htotal
      rw [htotal] at h
      cases h
    | ok total =>
      have htotal' := htotal
      rw [Refund.settled] at htotal'
      rw [htotal'] at h
      simp only at h
      split at h
      · cases h
      case h_2 htr =>
        cases h
        obtain ⟨hmem, rfl⟩ := Payment.transition_ok htr
        exact .approved result.reference _ ⟨result, rfl, hdec⟩ hpending htotal
          ⟨hmem, rfl, rfl, rfl, rfl, rfl⟩
  | declined =>
    rw [hdec] at h
    cases h
    exact .declined result.reference _ hpending

/-- A new payment, under a key that had none. -/
inductive Created (s : PaymentService) (request : PaymentRequest) :
    Ref → PaymentService → Prop where
  | intro {merchant : Merchant} (hamount : 0 < request.amount.units)
      (hkey : request.idempotencyKey ≠ "")
      (hmerchant : s.merchants.get? request.merchantId = some merchant)
      (hfresh : s.byKey.get? (request.merchantId, request.idempotencyKey) = none) :
      Created s request s.heap.next { s with
        payments := s.payments.set s.ids s.heap.next
        byKey := s.byKey.set (request.merchantId, request.idempotencyKey) s.heap.next
        ids := s.ids + 1
        heap := (s.heap.alloc (.new s.ids request)).2 }

theorem lookUp_created {request : PaymentRequest} (h : s.lookUp request = .inr (p, s')) :
    Created s request p s' := by
  unfold lookUp at h
  split at h
  case isTrue => cases h
  case isFalse hamount =>
  split at h
  case isTrue => cases h
  case isFalse hkey =>
  split at h
  case h_1 => cases h
  case h_2 =>
    dsimp only at h
    split at h
    · cases h
    · split at h <;> cases h
  case h_3 hmerchant hfresh =>
    cases h
    exact .intro (not_le.mp hamount) hkey hmerchant hfresh

/-- A new refund, with its amount held. -/
inductive Held (s : PaymentService) (amount : Money) :
    Ref → Ref → PaymentService → Prop where
  | intro {paymentId : Nat} {p : Ref} {left : Money} (idempotencyKey reason : String)
      (hamount : 0 < amount.units)
      (hpayment : s.payments.get? paymentId = some p)
      (hfresh : s.refundKeys.get? (paymentId, idempotencyKey) = none)
      (hstatus : (s.heap.read p).status ∈ refundable)
      (hleft : (s.heap.read p).refundable s.refundHeap = .ok left)
      (hlt : left.lt amount = .ok false) :
      Held s amount p s.refundHeap.next { s with
        ids := s.ids + 1
        heap := s.heap.write p
          { s.heap.read p with refunds := (s.heap.read p).refunds ++ [s.refundHeap.next] }
        refundHeap := (s.refundHeap.alloc
          ⟨s.ids, p, idempotencyKey, amount, reason, .pending, none⟩).2
        refundKeys := s.refundKeys.set (paymentId, idempotencyKey) s.refundHeap.next }

theorem holdRefund_held {paymentId : Nat} {amount : Money} {idempotencyKey reason : String}
    (h : s.holdRefund paymentId amount idempotencyKey reason = .inr (p, r, s')) :
    Held s amount p r s' := by
  unfold holdRefund at h
  split at h
  case isTrue => cases h
  case isFalse hamount =>
  split at h
  case h_1 => cases h
  case h_2 hpayment =>
  dsimp only at h
  split at h
  case h_1 => split at h <;> cases h
  case h_2 hfresh =>
  split at h
  case isTrue => cases h
  case isFalse hstatus =>
  split at h
  case h_1 => cases h
  case h_2 hleft =>
  split at h
  case h_1 => cases h
  case h_2 => cases h
  case h_3 hlt =>
    cases h
    exact .intro idempotencyKey reason (not_le.mp hamount) hpayment hfresh
      (not_not.mp hstatus) hleft hlt

/-- What `settle` does with the outcome of a task. -/
def Settled (s : PaymentService) (outcome : Except GatewayError GatewayResult) :
    Task → PaymentService → Prop
  | .charge p => ChargeSettled s p outcome
  | .refund p r => RefundSettled s p r outcome

/-- What `reconcile` sends again. -/
inductive Outstanding (s : PaymentService) : Task → Prop where
  | charge {p : Ref} (hp : p ∈ s.payments.values) (hstatus : (s.heap.read p).status = .unknown) :
      Outstanding s (.charge p)
  | refund {p r : Ref} (hp : p ∈ s.payments.values) (hr : r ∈ (s.heap.read p).refunds) :
      Outstanding s (.refund p r)

theorem outstanding_of_mem {task : Task} (h : task ∈ s.unknownPayments.map Task.charge ++
      s.pendingRefunds.map fun x => Task.refund x.1 x.2) : s.Outstanding task := by
  rcases mem_append.mp h with h | h
  · obtain ⟨p, hp, rfl⟩ := mem_map.mp h
    rw [unknownPayments, mem_filter, decide_eq_true_eq] at hp
    exact .charge hp.1 hp.2
  · obtain ⟨⟨p, r⟩, hpr, rfl⟩ := mem_map.mp h
    rw [pendingRefunds, mem_flatMap] at hpr
    obtain ⟨q, hq, hmem⟩ := hpr
    obtain ⟨r', hr', heq⟩ := mem_map.mp hmem
    cases heq
    exact .refund hq (mem_of_mem_filter hr')

end PaymentService

/-! ## The steps of the machine -/

namespace PaymentSystem

variable {s s' : PaymentSystem} {c : Nat} {call : Call}

/-- What processing a task moves. -/
def taskEntry (s : PaymentSystem) : Task → MoneyKind × Money
  | .charge p => (.charge, (s.service.heap.read p).amount)
  | .refund _ r => (.refund, (s.service.refundHeap.read r).amount)

theorem callGateway_called (s : PaymentSystem) (task : Task) :
    (s.gateway.Called (s.taskKey task) (s.taskEntry task)
      (s.gateway.handling (s.taskKey task) (s.taskMoves task))
      (s.callGateway task).1 (s.callGateway task).2) := by
  cases task with
  | charge => exact s.gateway.charge_called _ _ _
  | refund p => exact s.gateway.refund_called _ ((s.service.heap.read p).gatewayRef.getD "") _

/-- The attempt of a call will fail, with another one to come and a wait that raises. -/
def Overflows (s : PaymentSystem) (call : Call) (attempt : Nat) : Prop :=
  (s.callGateway call.task).1.toOption = none ∧ attempt + 1 ≠ s.service.retry.maxAttempts ∧
    1024 ≤ attempt

/-- A step, with the event it leaves and the state after it. -/
inductive Moved (s : PaymentSystem) : PaymentStep → PaymentEvent → PaymentSystem → Prop where
  | inject (faults : List Fault) :
      Moved s (.inject faults) .silent { s with gateway := s.gateway.inject faults }
  | payAnswered {c : Nat} {request : PaymentRequest} {outcome : Except PaymentError Ref}
      (hlookUp : s.service.lookUp request = .inl outcome) :
      Moved s (.pay c request) (.paid c request outcome) s
  | payCreated {c : Nat} {request : PaymentRequest} {p : Ref} {service : PaymentService}
      (hcall : s.calls.get? c = none) (hcreated : s.service.Created request p service) :
      Moved s (.pay c request) .silent
        { s with service, calls := s.calls.set c ⟨.pay request p, .risk, .charge p, []⟩ }
  | refundAnswered {c paymentId : Nat} {amount : Money} {idempotencyKey reason : String}
      (outcome : Except PaymentError Ref) :
      Moved s (.refund c paymentId amount idempotencyKey reason) (.refunded c outcome) s
  | refundHeld {c paymentId : Nat} {amount : Money} {idempotencyKey reason : String} {p r : Ref}
      {service : PaymentService} (hcall : s.calls.get? c = none)
      (hheld : s.service.Held amount p r service) :
      Moved s (.refund c paymentId amount idempotencyKey reason) .silent
        { s with service, calls := s.calls.set c ⟨.refund r, .sending 0, .refund p r, []⟩ }
  | reconciledNone {c : Nat} (unknown : List Ref) :
      Moved s (.reconcile c) (.reconciled c unknown) s
  | reconcileStarted {c : Nat} {task : Task} {rest : List Task} (unknown : List Ref)
      (hcall : s.calls.get? c = none)
      (htasks : ∀ t ∈ task :: rest, s.service.Outstanding t) :
      Moved s (.reconcile c) .silent
        { s with calls := s.calls.set c ⟨.reconcile unknown, .sending 0, task, rest⟩ }
  | riskAllowed {c : Nat} {call : Call} (hcall : s.calls.get? c = some call)
      (hphase : call.phase = .risk) :
      Moved s (.risk c none) .silent
        { s with calls := s.calls.set c { call with phase := .sending 0 } }
  | riskRejected {c : Nat} {call : Call} {p : Ref} {reason : String} {service : PaymentService}
      (hcall : s.calls.get? c = some call) (hphase : call.phase = .risk)
      (htask : call.task = .charge p) (hfinished : s.service.Finished p .failed service) :
      Moved s (.risk c (some reason)) (call.method.returned c)
        { s with service, calls := s.calls.erase c }
  | sent {c attempt : Nat} {call : Call} {handling : Handling}
      {outcome : Except GatewayError GatewayResult} {gateway : SimulatedGateway} {phase : Phase}
      (hcall : s.calls.get? c = some call) (hphase : call.phase = .sending attempt)
      (hcalled : s.gateway.Called (s.taskKey call.task) (s.taskEntry call.task) handling outcome
        gateway)
      (hnext : phase = .settling outcome ∨ phase = .raising ∧ s.Overflows call attempt ∨
        ∃ n, phase = .sending n) :
      Moved s (.send c) (.sent call.task handling)
        { s with gateway, calls := s.calls.set c { call with phase } }
  | raised {c : Nat} {call : Call} (hcall : s.calls.get? c = some call)
      (hphase : call.phase = .raising ∨ ∃ n, call.phase = .sending n) :
      Moved s (.interrupt c) (.raised c) { s with calls := s.calls.erase c }
  | settledLast {c : Nat} {call : Call} {outcome : Except GatewayError GatewayResult}
      {service : PaymentService} (hcall : s.calls.get? c = some call)
      (hphase : call.phase = .settling outcome)
      (hsettled : s.service.Settled outcome call.task service) :
      Moved s (.settle c) (call.method.returned c) { s with service, calls := s.calls.erase c }
  | settledNext {c : Nat} {call : Call} {outcome : Except GatewayError GatewayResult}
      {task : Task} {rest : List Task} {service : PaymentService}
      (hcall : s.calls.get? c = some call) (hphase : call.phase = .settling outcome)
      (hrest : call.rest = task :: rest) (hsettled : s.service.Settled outcome call.task service) :
      Moved s (.settle c) .silent
        { s with service, calls := s.calls.set c { call with phase := .sending 0, task, rest } }

theorem pay_moved (hcall : s.calls.get? c = none) (request : PaymentRequest) :
    Moved s (.pay c request) (s.pay c request).1 (s.pay c request).2 := by
  rw [pay]
  cases hlookUp : s.service.lookUp request with
  | inl => exact .payAnswered hlookUp
  | inr => exact .payCreated hcall (PaymentService.lookUp_created hlookUp)

theorem refund_moved (hcall : s.calls.get? c = none) (paymentId : Nat) (amount : Money)
    (idempotencyKey reason : String) : Moved s (.refund c paymentId amount idempotencyKey reason)
      (s.refund c paymentId amount idempotencyKey reason).1
      (s.refund c paymentId amount idempotencyKey reason).2 := by
  rw [refund]
  cases hheld : s.service.holdRefund paymentId amount idempotencyKey reason with
  | inl outcome => exact .refundAnswered outcome
  | inr => exact .refundHeld hcall (PaymentService.holdRefund_held hheld)

theorem reconcile_moved (hcall : s.calls.get? c = none) :
    Moved s (.reconcile c) (s.reconcile c).1 (s.reconcile c).2 := by
  simp only [reconcile]
  split
  · exact .reconciledNone _
  case h_2 htasks =>
    exact .reconcileStarted _ hcall fun t ht => PaymentService.outstanding_of_mem (htasks ▸ ht)

theorem afterAttempt_eq (retry : RetryPolicy) (attempt : Nat)
    (outcome : Except GatewayError GatewayResult) :
    retry.afterAttempt attempt outcome = .settling outcome ∨
      retry.afterAttempt attempt outcome = .raising ∧ outcome.toOption = none ∧
        attempt + 1 ≠ retry.maxAttempts ∧ 1024 ≤ attempt ∨
      ∃ n, retry.afterAttempt attempt outcome = .sending n := by
  cases outcome with
  | ok => exact .inl rfl
  | error =>
    rw [RetryPolicy.afterAttempt]
    split
    case isTrue => exact .inl rfl
    case isFalse hne =>
    split
    case h_1 hnone => exact .inr (.inl ⟨rfl, rfl, hne, retry.delay_eq_none_iff.mp hnone⟩)
    case h_2 => exact .inr (.inr ⟨_, rfl⟩)

section

variable (hcall : s.calls.get? c = some call)

include hcall

theorem send_moved {attempt : Nat} (hphase : call.phase = .sending attempt) :
    Moved s (.send c) (s.send c call attempt).1 (s.send c call attempt).2 := by
  exact .sent hcall hphase (s.callGateway_called call.task) (afterAttempt_eq _ _ _)

variable {outcome : Except GatewayError GatewayResult} {r : PaymentEvent × PaymentSystem}

theorem next_moved {service : PaymentService} (hphase : call.phase = .settling outcome)
    (hsettled : s.service.Settled outcome call.task service) :
    Moved s (.settle c) ({ s with service }.next c call).1 ({ s with service }.next c call).2 := by
  rw [next]
  cases hrest : call.rest with
  | nil => exact .settledLast hcall hphase hsettled
  | cons => exact .settledNext hcall hphase hrest hsettled

theorem settle_moved
    (hphase : call.phase = .settling outcome) (h : s.settle c call outcome = .ok r) :
    Moved s (.settle c) r.1 r.2 := by
  have hsettled : ∃ service, s.service.Settled outcome call.task service ∧
      r = { s with service }.next c call := by
    rw [settle] at h
    cases htask : call.task with
    | charge p =>
      rw [htask] at h
      dsimp only at h
      cases hsettle : s.service.settleCharge p outcome with
      | error => rw [hsettle] at h; cases h
      | ok service =>
        rw [hsettle] at h
        cases h
        exact ⟨service, PaymentService.settleCharge_settled hsettle, rfl⟩
    | refund p r =>
      rw [htask] at h
      dsimp only at h
      cases hsettle : s.service.settleRefund p r outcome with
      | error => rw [hsettle] at h; cases h
      | ok service =>
        rw [hsettle] at h
        cases h
        exact ⟨service, PaymentService.settleRefund_settled hsettle, rfl⟩
  obtain ⟨service, hsettled, rfl⟩ := hsettled
  exact next_moved hcall hphase hsettled

theorem risk_moved {p : Ref} {reason : Option String} (hphase : call.phase = .risk)
    (htask : call.task = .charge p) (h : s.risk c call p reason = .ok r) :
    Moved s (.risk c reason) r.1 r.2 := by
  cases reason with
  | none =>
    cases h
    exact .riskAllowed hcall hphase
  | some reason =>
    simp only [risk] at h
    cases hfinish : s.service.finishCharge p .failed (some ("risk: " ++ reason)) with
    | error => rw [hfinish] at h; cases h
    | ok =>
      rw [hfinish] at h
      cases h
      exact .riskRejected hcall hphase htask (PaymentService.finishCharge_finished hfinish)

end

/-- A step that is taken is one of `Moved`, guards included. -/
theorem step_moved {a : PaymentStep} {e : PaymentEvent} (h : s.step a = .ok (e, s')) :
    Moved s a e s' := by
  cases a with
  | inject faults =>
    cases h
    exact .inject faults
  | pay _ request =>
    rw [step] at h
    split at h
    case h_1 hcall =>
      have hmoved := pay_moved hcall request
      rwa [Except.ok.inj h] at hmoved
    case h_2 => cases h
  | refund _ paymentId amount idempotencyKey reason =>
    rw [step] at h
    split at h
    case h_1 hcall =>
      have hmoved := refund_moved hcall paymentId amount idempotencyKey reason
      rwa [Except.ok.inj h] at hmoved
    case h_2 => cases h
  | reconcile =>
    rw [step] at h
    split at h
    case h_1 hcall =>
      have hmoved := reconcile_moved hcall
      rwa [Except.ok.inj h] at hmoved
    case h_2 => cases h
  | risk =>
    rw [step] at h
    split at h
    case h_1 hcall => exact risk_moved hcall rfl rfl h
    case h_2 => cases h
  | send =>
    rw [step] at h
    split at h
    case h_1 hcall =>
      have hmoved := send_moved hcall rfl
      rwa [Except.ok.inj h] at hmoved
    case h_2 => cases h
  | interrupt =>
    rw [step] at h
    split at h
    case h_1 hcall => cases h; exact .raised hcall (.inl rfl)
    case h_2 hcall => cases h; exact .raised hcall (.inr ⟨_, rfl⟩)
    case h_3 => cases h
  | settle =>
    rw [step] at h
    split at h
    case h_1 hcall => exact settle_moved hcall rfl h
    case h_2 => cases h

end PaymentSystem

end InterviewPrep.Payments
