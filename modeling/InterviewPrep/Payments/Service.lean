/-
  Money, payments and refunds (payment_processing.py).  An amount that `Money` accepts is a whole
  number of minor units of its currency, and that number is what is kept of it.  Payments and
  refunds are objects behind references, shared by the service's tables.

  `SimulatedGateway`: charges and refunds with scripted faults, deduplicated on the key they come
  with.  `Handling` says what became of a call, and `call_spec` reads it off the state before it.

  `PaymentService` over the simulated gateway, as a machine whose steps are the sections between
  lock boundaries and the single calls of the gateway.  `pay` looks its key up and creates the
  payment (`pay`), asks the risk rules (`risk`), calls the gateway until an attempt has a result
  or the attempts are used up (`send`), unless a wait in between raises (`interrupt`), and writes
  the outcome (`settle`).  `refund` and `reconcile` go on with the same steps.  Calls are told apart
  by a number; faults may be injected at any time.
-/
import InterviewPrep.Lib.Binary64
import InterviewPrep.Lib.Dict
import InterviewPrep.Lib.Links
import InterviewPrep.Lib.Run
import Mathlib.Data.Rat.Floor

namespace InterviewPrep.Payments

open Lib List

/-! ## Errors -/

inductive Currency where
  | usd
  | eur
  | inr
  | jpy
deriving DecidableEq

def Currency.code : Currency → String
  | usd => "USD"
  | eur => "EUR"
  | inr => "INR"
  | jpy => "JPY"

/-- The amount in minor units. -/
structure Money where
  units : Int
  currency : Currency
deriving DecidableEq

/-- The exceptions of the service, with their messages; `refundExceeds` gives the two amounts. -/
inductive PaymentError where
  | validation (message : String)
  | idempotencyConflict (message : String)
  | requestInProgress (key : String)
  | illegalTransition (message : String)
  | refund (message : String)
  | refundExceeds (amount refundable : Money)
  | notFound (message : String)
deriving DecidableEq

/-! ## Money -/

namespace Money

def zero (currency : Currency) : Money := ⟨0, currency⟩

/-- `_same` -/
def same (a b : Money) : Except PaymentError Unit :=
  if a.currency = b.currency then .ok ()
  else .error (.validation ("currency mismatch: " ++ a.currency.code ++ " vs " ++ b.currency.code))

def add (a b : Money) : Except PaymentError Money :=
  (a.same b).map fun _ => ⟨a.units + b.units, a.currency⟩

def sub (a b : Money) : Except PaymentError Money :=
  (a.same b).map fun _ => ⟨a.units - b.units, a.currency⟩

def lt (a b : Money) : Except PaymentError Bool :=
  (a.same b).map fun _ => a.units < b.units

/-- `basisPoints` of the amount, half up to the minor unit. -/
def fee (a : Money) (basisPoints : Int) : Money :=
  let exact := a.units * basisPoints
  ⟨exact.sign * ((2 * exact.natAbs + 10000) / 20000 : Nat), a.currency⟩

end Money

/-- `_sum` -/
def sumMoney (currency : Currency) (amounts : List Money) : Except PaymentError Money :=
  amounts.foldlM Money.add (Money.zero currency)

variable {currency : Currency}

theorem foldlM_add (amounts : List Money)
    (h : ∀ a ∈ amounts, a.currency = currency) (total : Int) :
    amounts.foldlM Money.add ⟨total, currency⟩ =
      .ok ⟨total + (amounts.map Money.units).sum, currency⟩ := by
  induction amounts generalizing total with
  | nil =>
    rw [map_nil, sum_nil, add_zero]
    rfl
  | cons a _ ih =>
    have hadd : Money.add ⟨total, currency⟩ a = .ok ⟨total + a.units, currency⟩ := by
      rw [Money.add, Money.same, if_pos (h a mem_cons_self).symm]
      rfl
    rw [foldlM_cons, hadd, map_cons, sum_cons, ← add_assoc]
    exact ih (fun b hb => h b (mem_cons_of_mem a hb)) _

theorem sumMoney_ok {amounts : List Money} (h : ∀ a ∈ amounts, a.currency = currency) :
    sumMoney currency amounts = .ok ⟨(amounts.map Money.units).sum, currency⟩ := by
  rw [sumMoney, Money.zero, foldlM_add amounts h, zero_add]

/-! ## Payments -/

inductive PaymentStatus where
  | processing
  | succeeded
  | failed
  | unknown
  | partiallyRefunded
  | refunded
deriving DecidableEq

def PaymentStatus.value : PaymentStatus → String
  | processing => "processing"
  | succeeded => "succeeded"
  | failed => "failed"
  | unknown => "unknown"
  | partiallyRefunded => "partially_refunded"
  | refunded => "refunded"

/-- `ALLOWED_TRANSITIONS` -/
def allowedTransitions : PaymentStatus → List PaymentStatus
  | .processing => [.succeeded, .failed, .unknown]
  | .unknown => [.succeeded, .failed]
  | .succeeded => [.partiallyRefunded, .refunded]
  | .partiallyRefunded => [.partiallyRefunded, .refunded]
  | .failed => []
  | .refunded => []

/-- `REFUNDABLE` -/
def refundable : List PaymentStatus := [.succeeded, .partiallyRefunded]

inductive RefundStatus where
  | pending
  | succeeded
  | failed
deriving DecidableEq

structure Merchant where
  merchantId : String
  name : String
  feeBps : Int

/-- All that makes two requests the same. -/
structure PaymentRequest where
  idempotencyKey : String
  merchantId : String
  customerId : String
  amount : Money
  paymentToken : String
deriving DecidableEq

/-- `refundId` is the number `n` of the id `re_n`; `payment` is the payment's object. -/
structure Refund where
  refundId : Nat
  payment : Ref
  idempotencyKey : String
  amount : Money
  reason : String
  status : RefundStatus
  gatewayRef : Option String

/-- `paymentId` is the number `n` of the id `pay_n`. -/
structure Payment where
  paymentId : Nat
  request : PaymentRequest
  status : PaymentStatus
  gatewayRef : Option String
  failureReason : Option String
  fee : Option Money
  refunds : List Ref
  history : List PaymentStatus

namespace Payment

def new (paymentId : Nat) (request : PaymentRequest) : Payment :=
  ⟨paymentId, request, .processing, none, none, none, [], [.processing]⟩

def amount (p : Payment) : Money := p.request.amount

def refundAmounts (p : Payment) (refunds : Memory Refund) (status : RefundStatus) : List Money :=
  ((p.refunds.map refunds.read).filter fun r => r.status = status).map Refund.amount

def refunded (p : Payment) (refunds : Memory Refund) : Except PaymentError Money :=
  sumMoney p.amount.currency (p.refundAmounts refunds .succeeded)

def heldForRefunds (p : Payment) (refunds : Memory Refund) : Except PaymentError Money :=
  sumMoney p.amount.currency (p.refundAmounts refunds .pending)

def refundable (p : Payment) (refunds : Memory Refund) : Except PaymentError Money :=
  if p.status ∉ Payments.refundable then .ok (Money.zero p.amount.currency)
  else do
    let refunded ← p.refunded refunds
    let rest ← p.amount.sub refunded
    let held ← p.heldForRefunds refunds
    rest.sub held

def transition (p : Payment) (target : PaymentStatus) : Except PaymentError Payment :=
  if target ∉ allowedTransitions p.status then
    .error (.illegalTransition
      ("pay_" ++ toString p.paymentId ++ ": " ++ p.status.value ++ " -> " ++ target.value))
  else .ok { p with status := target, history := p.history ++ [target] }

theorem transition_ok {p p' : Payment} {target : PaymentStatus} (h : p.transition target = .ok p') :
    target ∈ allowedTransitions p.status ∧
      p' = { p with status := target, history := p.history ++ [target] } := by
  rw [transition] at h
  split at h
  case isTrue => cases h
  case isFalse hmem =>
    cases h
    exact ⟨not_not.mp hmem, rfl⟩

end Payment

/-! ## The gateway -/

inductive GatewayDecision where
  | approved
  | declined

structure GatewayResult where
  decision : GatewayDecision
  reference : String
  reason : String

/-- `GatewayUnavailableError` and `GatewayTimeoutError`, with their messages. -/
inductive GatewayError where
  | unavailable (message : String)
  | timeout (message : String)

def GatewayError.message : GatewayError → String
  | unavailable message | timeout message => message

/-- A scripted fault; a string that is none of the three has no effect. -/
inductive Fault where
  | unavailable
  | timeoutBefore
  | timeoutAfter
  | other
deriving DecidableEq

inductive MoneyKind where
  | charge
  | refund
deriving DecidableEq

structure SimulatedGateway where
  results : Dict String GatewayResult
  faults : List Fault
  /-- the next number of `_refs` -/
  refs : Nat
  /-- what actually hit the card network -/
  moneyMoved : List (MoneyKind × Money)

namespace SimulatedGateway

def new : SimulatedGateway := ⟨Dict.empty, [], 1, []⟩

variable (g : SimulatedGateway)

def inject (faults : List Fault) : SimulatedGateway := { g with faults := g.faults ++ faults }

/-- `decide` of `charge` -/
def decideCharge (amount : Money) (paymentToken : String) : GatewayResult × SimulatedGateway :=
  if paymentToken.startsWith "tok_decline" then
    (⟨.declined, "ch_" ++ toString g.refs, "card_declined"⟩, { g with refs := g.refs + 1 })
  else
    (⟨.approved, "ch_" ++ toString g.refs, ""⟩,
      { g with refs := g.refs + 1, moneyMoved := g.moneyMoved ++ [(.charge, amount)] })

/-- `decide` of `refund` -/
def decideRefund (amount : Money) : GatewayResult × SimulatedGateway :=
  (⟨.approved, "re_" ++ toString g.refs, ""⟩,
    { g with refs := g.refs + 1, moneyMoved := g.moneyMoved ++ [(.refund, amount)] })

/-- The next fault, taken off the script. -/
def popFault : Option Fault × SimulatedGateway :=
  match g.faults with
  | [] => (none, g)
  | fault :: faults => (some fault, { g with faults })

/-- `_call` -/
def call (key : String) (decide : SimulatedGateway → GatewayResult × SimulatedGateway) :
    Except GatewayError GatewayResult × SimulatedGateway :=
  let (fault, g) := g.popFault
  if fault = some .unavailable then (.error (.unavailable "connection refused"), g)
  else if fault = some .timeoutBefore then (.error (.timeout "read timeout"), g)
  else
    let (result, g) := match g.results.get? key with
      | some result => (result, g)
      | none =>
        let (result, g) := decide g
        (result, { g with results := g.results.set key result })
    if fault = some .timeoutAfter then
      (.error (.timeout "read timeout (charge went through)"), g)
    else (.ok result, g)

def charge (idempotencyKey : String) (amount : Money) (paymentToken : String) :
    Except GatewayError GatewayResult × SimulatedGateway :=
  g.call ("charge:" ++ idempotencyKey) fun g => g.decideCharge amount paymentToken

def refund (idempotencyKey : String) (_chargeReference : String) (amount : Money) :
    Except GatewayError GatewayResult × SimulatedGateway :=
  g.call ("refund:" ++ idempotencyKey) fun g => g.decideRefund amount

end SimulatedGateway

/-! ## What became of a call -/

/-- A call was not processed, was processed, or was answered with the result of an earlier call. -/
inductive Handling where
  | unprocessed
  | processed (moved : Bool)
  | remembered
deriving DecidableEq

namespace SimulatedGateway

variable (g : SimulatedGateway)

/-- What becomes of the next call, with `key`; `moves` says if processing it moves money. -/
def handling (key : String) (moves : Bool) : Handling :=
  if g.faults.head? = some .unavailable ∨ g.faults.head? = some .timeoutBefore then .unprocessed
  else if g.results.get? key = none then .processed moves
  else .remembered

/-- The outcome and the gateway of a call that is handled as `handling` says. -/
inductive Called (g : SimulatedGateway) (key : String) (entry : MoneyKind × Money) :
    Handling → Except GatewayError GatewayResult → SimulatedGateway → Prop where
  | unprocessed (e : GatewayError) :
      Called g key entry .unprocessed (.error e) { g with faults := g.faults.tail }
  | processed {outcome : Except GatewayError GatewayResult} {moved : Bool} (result : GatewayResult)
      (hnone : g.results.get? key = none) (hmoved : result.decision = .approved ↔ moved = true)
      (hout : ∀ r, outcome = .ok r → r = result) :
      Called g key entry (.processed moved) outcome
        { results := g.results.set key result
          faults := g.faults.tail
          refs := g.refs + 1
          moneyMoved := g.moneyMoved ++ if moved then [entry] else [] }
  | remembered {outcome : Except GatewayError GatewayResult} (result : GatewayResult)
      (hsome : g.results.get? key = some result) (hout : ∀ r, outcome = .ok r → r = result) :
      Called g key entry .remembered outcome { g with faults := g.faults.tail }

theorem popFault_eq : g.popFault = (g.faults.head?, { g with faults := g.faults.tail }) := by
  obtain ⟨results, faults, refs, moneyMoved⟩ := g
  cases faults <;> rfl

theorem call_called {key : String} {decide : SimulatedGateway → GatewayResult × SimulatedGateway}
    {entry : MoneyKind × Money} {moves : Bool}
    (hdecide : ∀ g : SimulatedGateway, ((decide g).1.decision = .approved ↔ moves = true) ∧
      (decide g).2 = { g with
        refs := g.refs + 1, moneyMoved := g.moneyMoved ++ if moves then [entry] else [] }) :
    Called g key entry (g.handling key moves) (g.call key decide).1 (g.call key decide).2 := by
  rw [call, popFault_eq]
  simp only [handling]
  by_cases hu : g.faults.head? = some .unavailable
  · rw [if_pos hu, if_pos (.inl hu)]
    exact .unprocessed _
  by_cases hb : g.faults.head? = some .timeoutBefore
  · rw [if_neg hu, if_pos hb, if_pos (.inr hb)]
    exact .unprocessed _
  rw [if_neg hu, if_neg hb, if_neg (not_or.mpr ⟨hu, hb⟩)]
  cases hres : g.results.get? key with
  | none =>
    obtain ⟨hdec, hnext⟩ := hdecide { g with faults := g.faults.tail }
    simp only [if_true]
    rw [hnext]
    split
    · exact .processed _ hres hdec nofun
    · exact .processed _ hres hdec fun r h => by cases h; rfl
  | some result =>
    simp only [reduceCtorEq, if_false]
    split
    · exact .remembered result hres nofun
    · exact .remembered result hres fun r h => by cases h; rfl

theorem charge_called (idempotencyKey : String) (amount : Money) (paymentToken : String) :
    Called g ("charge:" ++ idempotencyKey) (.charge, amount)
      (g.handling ("charge:" ++ idempotencyKey) (!paymentToken.startsWith "tok_decline"))
      (g.charge idempotencyKey amount paymentToken).1
      (g.charge idempotencyKey amount paymentToken).2 := by
  refine g.call_called fun g => ?_
  rw [decideCharge]
  split
  case isTrue h => simp [h]
  case isFalse h => simp [Bool.eq_false_iff.mpr h]

theorem refund_called (idempotencyKey chargeReference : String) (amount : Money) :
    Called g ("refund:" ++ idempotencyKey) (.refund, amount)
      (g.handling ("refund:" ++ idempotencyKey) true)
      (g.refund idempotencyKey chargeReference amount).1
      (g.refund idempotencyKey chargeReference amount).2 :=
  g.call_called fun g => by simp [decideRefund]

end SimulatedGateway

/-! ## The outbox -/

/-- What an event is about, by the number in its id. -/
inductive Aggregate where
  | payment (id : Nat)
  | refund (id : Nat)
deriving DecidableEq

inductive PayloadValue where
  | text (s : String)
  | money (m : Money)
  | paymentId (id : Nat)

structure OutboxEvent where
  eventId : Nat
  type : String
  aggregate : Aggregate
  payload : List (String × PayloadValue)

structure Outbox where
  pending : Dict Nat OutboxEvent
  /-- the next number of `_ids` -/
  ids : Nat

def Outbox.new : Outbox := ⟨Dict.empty, 1⟩

def Outbox.append (o : Outbox) (type : String) (aggregate : Aggregate)
    (payload : List (String × PayloadValue)) : Outbox :=
  ⟨o.pending.set o.ids ⟨o.ids, type, aggregate, payload⟩, o.ids + 1⟩

/-! ## The service -/

/-- The floats are the rationals they stand for. -/
structure RetryPolicy where
  maxAttempts : Nat
  baseDelay : ℚ
  maxDelay : ℚ
  maxAttempts_pos : 1 ≤ maxAttempts

/-- The bound of the wait after a failed attempt; none when it raises `OverflowError`. -/
def RetryPolicy.delay (retry : RetryPolicy) (attempt : Nat) : Option ℚ :=
  Binary64.cappedBackoff retry.baseDelay retry.maxDelay (Binary64.ofRat (2 ^ attempt))

theorem RetryPolicy.delay_eq_none_iff (retry : RetryPolicy) {attempt : Nat} :
    retry.delay attempt = none ↔ 1024 ≤ attempt :=
  Binary64.cappedBackoff_eq_none_iff.trans Binary64.ofRat_two_pow_eq_none_iff

structure PaymentService where
  retry : RetryPolicy
  merchants : Dict String Merchant
  payments : Dict Nat Ref
  /-- (merchant_id, key) -> payment -/
  byKey : Dict (String × String) Ref
  /-- (payment_id, key) -> refund -/
  refundKeys : Dict (Nat × String) Ref
  /-- the next number of `_ids` -/
  ids : Nat
  outbox : Outbox
  heap : Memory Payment
  refundHeap : Memory Refund

/-- An exception that is not one of a method's documented ones. -/
inductive Uncaught where
  | payment (e : PaymentError)
  | keyError

namespace PaymentService

/-- A service with its merchants added. -/
def new (retry : RetryPolicy) (merchants : Dict String Merchant) : PaymentService where
  retry := retry
  merchants := merchants
  payments := Dict.empty
  byKey := Dict.empty
  refundKeys := Dict.empty
  ids := 1
  outbox := .new
  heap := Memory.init (.new 0 ⟨"", "", "", .zero .usd, ""⟩)
  refundHeap := Memory.init ⟨0, 0, "", .zero .usd, "", .failed, none⟩

variable (s : PaymentService)

/-- `_finish_charge` -/
def finishCharge (p : Ref) (target : PaymentStatus) (reason : Option String) :
    Except Uncaught PaymentService :=
  match (s.heap.read p).transition target with
  | .error e => .error (.payment e)
  | .ok payment =>
    .ok { s with
      heap := s.heap.write p { payment with failureReason := reason }
      outbox := s.outbox.append ("payment." ++ target.value) (.payment payment.paymentId)
        [("amount", .money payment.amount), ("reason", .text (reason.getD ""))] }

/-- `_attempt_charge`, once the gateway has been called. -/
def settleCharge (p : Ref) (outcome : Except GatewayError GatewayResult) :
    Except Uncaught PaymentService :=
  let payment := s.heap.read p
  match outcome with
  | .error e =>
    if payment.status = .processing then s.finishCharge p .unknown (some e.message) else .ok s
  | .ok result =>
    -- someone else already resolved it
    if payment.status ∉ [PaymentStatus.processing, .unknown] then .ok s
    else
      match result.decision with
      | .approved =>
        match s.merchants.get? payment.request.merchantId with
        | none => .error .keyError
        | some merchant =>
          { s with heap := s.heap.write p { payment with
              gatewayRef := some result.reference
              fee := some (payment.amount.fee merchant.feeBps) } }.finishCharge p .succeeded none
      | .declined =>
        { s with heap := s.heap.write p { payment with
            gatewayRef := some result.reference } }.finishCharge p .failed (some result.reason)

/-- `_attempt_refund`, once the gateway has been called. -/
def settleRefund (p r : Ref) (outcome : Except GatewayError GatewayResult) :
    Except Uncaught PaymentService :=
  let payment := s.heap.read p
  let refund := s.refundHeap.read r
  match outcome with
  -- stays pending with the amount held
  | .error _ => .ok s
  | .ok result =>
    if refund.status ≠ .pending then .ok s
    else
      match result.decision with
      | .approved =>
        let refundHeap := s.refundHeap.write r
          { refund with gatewayRef := some result.reference, status := .succeeded }
        match payment.refunded refundHeap with
        | .error e => .error (.payment e)
        | .ok refunded =>
          let fully := refunded = payment.amount
          match payment.transition (if fully then .refunded else .partiallyRefunded) with
          | .error e => .error (.payment e)
          | .ok payment =>
            .ok { s with
              heap := s.heap.write p payment
              refundHeap
              outbox := s.outbox.append "refund.succeeded" (.refund refund.refundId)
                [("payment_id", .paymentId payment.paymentId),
                  ("amount", .money refund.amount)] }
      | .declined =>
        .ok { s with
          refundHeap := s.refundHeap.write r
            { refund with gatewayRef := some result.reference, status := .failed }
          outbox := s.outbox.append "refund.failed" (.refund refund.refundId)
            [("payment_id", .paymentId payment.paymentId), ("reason", .text result.reason)] }

/-- The section of `pay` that looks the key up: an outcome, or the new payment. -/
def lookUp (request : PaymentRequest) : Except PaymentError Ref ⊕ (Ref × PaymentService) :=
  if request.amount.units ≤ 0 then .inl (.error (.validation "amount must be positive"))
  else if request.idempotencyKey = "" then
    .inl (.error (.validation "idempotency_key is required"))
  else
    match s.merchants.get? request.merchantId,
      s.byKey.get? (request.merchantId, request.idempotencyKey) with
    | none, _ => .inl (.error (.notFound ("merchant " ++ request.merchantId)))
    | some _, some p =>
      let existing := s.heap.read p
      if existing.request ≠ request then
        .inl (.error (.idempotencyConflict
          ("key " ++ request.idempotencyKey ++ " reused with a different request")))
      else if existing.status = .processing then
        .inl (.error (.requestInProgress request.idempotencyKey))
      else .inl (.ok p)
    | some _, none =>
      let (p, heap) := s.heap.alloc (.new s.ids request)
      .inr (p, { s with
        payments := s.payments.set s.ids p
        byKey := s.byKey.set (request.merchantId, request.idempotencyKey) p
        ids := s.ids + 1
        heap })

/-- `refund` before the gateway is called: an outcome, or the payment and the new refund, held. -/
def holdRefund (paymentId : Nat) (amount : Money) (idempotencyKey reason : String) :
    Except PaymentError Ref ⊕ (Ref × Ref × PaymentService) :=
  if amount.units ≤ 0 then .inl (.error (.validation "refund amount must be positive"))
  else
    match s.payments.get? paymentId with
    | none => .inl (.error (.notFound ("pay_" ++ toString paymentId)))
    | some p =>
      let payment := s.heap.read p
      match s.refundKeys.get? (paymentId, idempotencyKey) with
      | some r =>
        if (s.refundHeap.read r).amount ≠ amount then
          .inl (.error (.idempotencyConflict
            ("refund key " ++ idempotencyKey ++ " reused with a different amount")))
        else .inl (.ok r)
      | none =>
        if payment.status ∉ refundable then
          .inl (.error (.refund ("pay_" ++ toString paymentId ++ " is " ++ payment.status.value ++
            "; only settled charges can be refunded")))
        else
          match payment.refundable s.refundHeap with
          | .error e => .inl (.error e)
          | .ok left =>
            match left.lt amount with
            | .error e => .inl (.error e)
            | .ok true => .inl (.error (.refundExceeds amount left))
            | .ok false =>
              let (r, refundHeap) := s.refundHeap.alloc
                ⟨s.ids, p, idempotencyKey, amount, reason, .pending, none⟩
              .inr (p, r, { s with
                ids := s.ids + 1
                heap := s.heap.write p { payment with refunds := payment.refunds ++ [r] }
                refundHeap
                refundKeys := s.refundKeys.set (paymentId, idempotencyKey) r })

/-- The payments that `reconcile` finds unknown. -/
def unknownPayments : List Ref :=
  s.payments.values.filter fun p => (s.heap.read p).status = .unknown

/-- The refunds that `reconcile` finds pending, with their payments. -/
def pendingRefunds : List (Ref × Ref) :=
  s.payments.values.flatMap fun p =>
    ((s.heap.read p).refunds.filter fun r => (s.refundHeap.read r).status = .pending).map
      fun r => (p, r)

end PaymentService

/-! ## The machine -/

/-- `_attempt_charge` of a payment, or `_attempt_refund` of a payment and its refund. -/
inductive Task where
  | charge (payment : Ref)
  | refund (payment refund : Ref)
deriving DecidableEq

/-- Where a call is in its task. -/
inductive Phase where
  /-- before the risk rules -/
  | risk
  /-- before an attempt of `RetryPolicy.run`, in the wait when it is not the first -/
  | sending (attempt : Nat)
  /-- the bound of the wait raises -/
  | raising
  /-- before the lock of the payment, with what the gateway returned or raised -/
  | settling (outcome : Except GatewayError GatewayResult)

def Phase.attempt? : Phase → Option Nat
  | .sending attempt => some attempt
  | .risk | .raising | .settling _ => none

/-- `RetryPolicy.run` after an attempt. -/
def RetryPolicy.afterAttempt (retry : RetryPolicy) (attempt : Nat) :
    Except GatewayError GatewayResult → Phase
  | .ok result => .settling (.ok result)
  | .error e =>
    if attempt + 1 = retry.maxAttempts then .settling (.error e)
    else
      match retry.delay attempt with
      | none => .raising
      | some _ => .sending (attempt + 1)

/-- The method a call is of, with what it returns. -/
inductive Method where
  | pay (request : PaymentRequest) (payment : Ref)
  | refund (refund : Ref)
  | reconcile (unknown : List Ref)

/-- A call that has not returned: its task, and the tasks after it. -/
structure Call where
  method : Method
  phase : Phase
  task : Task
  rest : List Task

structure PaymentSystem where
  gateway : SimulatedGateway
  service : PaymentService
  calls : Dict Nat Call

inductive PaymentStep where
  | inject (faults : List Fault)
  | pay (call : Nat) (request : PaymentRequest)
  /-- `reason` is the first reason a rule gives -/
  | risk (call : Nat) (reason : Option String)
  | refund (call : Nat) (paymentId : Nat) (amount : Money) (idempotencyKey reason : String)
  | reconcile (call : Nat)
  | send (call : Nat)
  /-- an exception leaves the wait: its bound's or the sleeper's -/
  | interrupt (call : Nat)
  | settle (call : Nat)

inductive PaymentEvent where
  | silent
  | paid (call : Nat) (request : PaymentRequest) (outcome : Except PaymentError Ref)
  | refunded (call : Nat) (outcome : Except PaymentError Ref)
  | reconciled (call : Nat) (unknown : List Ref)
  /-- the call, whatever its method, ends in an exception that no method documents -/
  | raised (call : Nat)
  | sent (task : Task) (handling : Handling)
deriving DecidableEq

/-- Why a step is not taken: it is not its turn, or a section raises what no method documents. -/
inductive NoStep where
  | notEnabled
  | raised (e : Uncaught)

/-- What a call returns. -/
def Method.returned (c : Nat) : Method → PaymentEvent
  | .pay request payment => .paid c request (.ok payment)
  | .refund r => .refunded c (.ok r)
  | .reconcile unknown => .reconciled c unknown

namespace PaymentSystem

def new (retry : RetryPolicy) (merchants : Dict String Merchant) : PaymentSystem :=
  ⟨.new, .new retry merchants, Dict.empty⟩

variable (s : PaymentSystem)

/-- The key a task sends to the gateway, and if processing it moves money. -/
def taskKey : Task → String
  | .charge p => "charge:" ++ (s.service.heap.read p).request.idempotencyKey
  | .refund _ r => "refund:" ++ (s.service.refundHeap.read r).idempotencyKey

def taskMoves : Task → Bool
  | .charge p => !(s.service.heap.read p).request.paymentToken.startsWith "tok_decline"
  | .refund _ _ => true

def callGateway : Task → Except GatewayError GatewayResult × SimulatedGateway
  | .charge p =>
    let req := (s.service.heap.read p).request
    s.gateway.charge req.idempotencyKey req.amount req.paymentToken
  | .refund p r =>
    let refund := s.service.refundHeap.read r
    s.gateway.refund refund.idempotencyKey ((s.service.heap.read p).gatewayRef.getD "")
      refund.amount

/-- The next task of a call, or its return. -/
def next (c : Nat) (call : Call) : PaymentEvent × PaymentSystem :=
  match call.rest with
  | [] => (call.method.returned c, { s with calls := s.calls.erase c })
  | task :: rest =>
    (.silent, { s with calls := s.calls.set c { call with phase := .sending 0, task, rest } })

def pay (c : Nat) (request : PaymentRequest) : PaymentEvent × PaymentSystem :=
  match s.service.lookUp request with
  | .inl outcome => (.paid c request outcome, s)
  | .inr (p, service) =>
    (.silent, { s with
      service, calls := s.calls.set c ⟨.pay request p, .risk, .charge p, []⟩ })

def refund (c paymentId : Nat) (amount : Money) (idempotencyKey reason : String) :
    PaymentEvent × PaymentSystem :=
  match s.service.holdRefund paymentId amount idempotencyKey reason with
  | .inl outcome => (.refunded c outcome, s)
  | .inr (p, r, service) =>
    (.silent, { s with service, calls := s.calls.set c ⟨.refund r, .sending 0, .refund p r, []⟩ })

def reconcile (c : Nat) : PaymentEvent × PaymentSystem :=
  let unknown := s.service.unknownPayments
  let tasks := unknown.map Task.charge ++ s.service.pendingRefunds.map fun x => .refund x.1 x.2
  match tasks with
  | [] => (.reconciled c unknown, s)
  | task :: rest =>
    (.silent, { s with calls := s.calls.set c ⟨.reconcile unknown, .sending 0, task, rest⟩ })

/-- One attempt of `RetryPolicy.run`. -/
def send (c : Nat) (call : Call) (attempt : Nat) : PaymentEvent × PaymentSystem :=
  let (outcome, gateway) := s.callGateway call.task
  let phase := s.service.retry.afterAttempt attempt outcome
  (.sent call.task (s.gateway.handling (s.taskKey call.task) (s.taskMoves call.task)),
    { s with gateway, calls := s.calls.set c { call with phase } })

/-- The section under the payment's lock, after the gateway. -/
def settle (c : Nat) (call : Call) (outcome : Except GatewayError GatewayResult) :
    Except NoStep (PaymentEvent × PaymentSystem) :=
  let settled := match call.task with
    | .charge p => s.service.settleCharge p outcome
    | .refund p r => s.service.settleRefund p r outcome
  match settled with
  | .error e => .error (.raised e)
  | .ok service => .ok ({ s with service }.next c call)

/-- The risk rules, under the payment's lock. -/
def risk (c : Nat) (call : Call) (p : Ref) (reason : Option String) :
    Except NoStep (PaymentEvent × PaymentSystem) :=
  match reason with
  | none => .ok (.silent, { s with calls := s.calls.set c { call with phase := .sending 0 } })
  | some reason =>
    match s.service.finishCharge p .failed (some ("risk: " ++ reason)) with
    | .error e => .error (.raised e)
    | .ok service =>
      .ok (call.method.returned c, { s with service, calls := s.calls.erase c })

def step (s : PaymentSystem) : PaymentStep → Except NoStep (PaymentEvent × PaymentSystem)
  | .inject faults => .ok (.silent, { s with gateway := s.gateway.inject faults })
  | .pay c request =>
    match s.calls.get? c with
    | none => .ok (s.pay c request)
    | some _ => .error .notEnabled
  | .refund c paymentId amount idempotencyKey reason =>
    match s.calls.get? c with
    | none => .ok (s.refund c paymentId amount idempotencyKey reason)
    | some _ => .error .notEnabled
  | .reconcile c =>
    match s.calls.get? c with
    | none => .ok (s.reconcile c)
    | some _ => .error .notEnabled
  | .risk c reason =>
    match s.calls.get? c with
    | some ⟨method, .risk, .charge p, rest⟩ => s.risk c ⟨method, .risk, .charge p, rest⟩ p reason
    | _ => .error .notEnabled
  | .send c =>
    match s.calls.get? c with
    | some ⟨method, .sending attempt, task, rest⟩ =>
      .ok (s.send c ⟨method, .sending attempt, task, rest⟩ attempt)
    | _ => .error .notEnabled
  | .interrupt c =>
    match s.calls.get? c with
    | some ⟨_, .raising, _, _⟩ | some ⟨_, .sending (_ + 1), _, _⟩ =>
      .ok (.raised c, { s with calls := s.calls.erase c })
    | _ => .error .notEnabled
  | .settle c =>
    match s.calls.get? c with
    | some ⟨method, .settling outcome, task, rest⟩ =>
      s.settle c ⟨method, .settling outcome, task, rest⟩ outcome
    | _ => .error .notEnabled

end PaymentSystem

end InterviewPrep.Payments
