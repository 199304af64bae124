/-
  What holds of every reachable state of the payment system: the tables agree with the
  payments, every history follows ALLOWED_TRANSITIONS, what was refunded and what is held
  for refunds stays within the amount (`PaymentOk`), and every call works on payments that
  can still take its outcome (`SystemOk`).
-/
import InterviewPrep.Payments.Steps
import Mathlib.Algebra.Order.BigOperators.Group.List

namespace InterviewPrep.Payments

open Lib Dict List Memory

/-! ## A payment's history -/

/-- A path of ALLOWED_TRANSITIONS from the first status to `status`. -/
structure HistoryOf (history : List PaymentStatus) (status : PaymentStatus) : Prop where
  head : history.head? = some .processing
  last : history.getLast? = some status
  chain : history.IsChain fun a b => b ∈ allowedTransitions a

theorem HistoryOf.moved {history : List PaymentStatus} {status target : PaymentStatus}
    (h : HistoryOf history status) (htarget : target ∈ allowedTransitions status) :
    HistoryOf (history ++ [target]) target := by
  refine ⟨?_, getLast?_concat, ?_⟩
  · have hne : history ≠ [] := by
      rintro rfl
      cases h.head
    rw [head?_append_of_ne_nil _ hne, h.head]
  · refine isChain_append.mpr ⟨h.chain, isChain_singleton target, ?_⟩
    intro a ha b hb
    rw [h.last, Option.mem_some_iff] at ha
    rw [head?_cons, Option.mem_some_iff] at hb
    rwa [← ha, ← hb]

/-! ## The amounts of a payment's refunds -/

/-- The units of the refunds of `rs` with a status. -/
def refundUnits (refunds : Memory Refund) (rs : List Ref) (status : RefundStatus) : Int :=
  (rs.map fun r =>
    if (refunds.read r).status = status then (refunds.read r).amount.units else 0).sum

theorem refundUnits_cons (refunds : Memory Refund) (r : Ref) (rs : List Ref)
    (status : RefundStatus) :
    refundUnits refunds (r :: rs) status =
      (if (refunds.read r).status = status then (refunds.read r).amount.units else 0) +
        refundUnits refunds rs status := by
  rw [refundUnits, map_cons, sum_cons, ← refundUnits]

theorem refundUnits_append (refunds : Memory Refund) (rs rs' : List Ref) (status : RefundStatus) :
    refundUnits refunds (rs ++ rs') status =
      refundUnits refunds rs status + refundUnits refunds rs' status := by
  rw [refundUnits, map_append, sum_append, ← refundUnits, ← refundUnits]

theorem refundUnits_congr {refunds refunds' : Memory Refund} {rs : List Ref}
    (h : ∀ r ∈ rs, refunds'.read r = refunds.read r) (status : RefundStatus) :
    refundUnits refunds' rs status = refundUnits refunds rs status := by
  rw [refundUnits, map_congr_left fun r hr => by rw [h r hr], ← refundUnits]

theorem refundUnits_write {refunds : Memory Refund} {rs : List Ref} (hn : rs.Nodup) {r : Ref}
    (hr : r ∈ rs) (refund : Refund) (status : RefundStatus) :
    refundUnits (refunds.write r refund) rs status =
      refundUnits refunds rs status -
        (if (refunds.read r).status = status then (refunds.read r).amount.units else 0) +
        (if refund.status = status then refund.amount.units else 0) := by
  induction rs with
  | nil => cases hr
  | cons q rs ih =>
    obtain ⟨hq, hn⟩ := nodup_cons.mp hn
    rw [refundUnits_cons, refundUnits_cons]
    rcases mem_cons.mp hr with rfl | hr
    · have hcongr : ∀ q ∈ rs, (refunds.write r refund).read q = refunds.read q := by
        intro q' hq'
        exact read_write_of_ne _ _ fun h => hq (h ▸ hq')
      rw [read_write_self, refundUnits_congr hcongr]
      omega
    · have hne : q ≠ r := fun h => hq (h ▸ hr)
      rw [read_write_of_ne _ _ hne, ih hn hr]
      omega

theorem refundAmounts_units (p : Payment) (refunds : Memory Refund) (status : RefundStatus) :
    ((p.refundAmounts refunds status).map Money.units).sum =
    refundUnits refunds p.refunds status := by
  rw [Payment.refundAmounts]
  induction p.refunds with
  | nil => rfl
  | cons r _ ih =>
    rw [refundUnits_cons, ← ih, map_cons, filter_cons]
    by_cases h : (refunds.read r).status = status <;> simp [h]

/-! ## One payment -/

/-- What holds of the payment behind `p`. -/
structure PaymentOk (refunds : Memory Refund) (p : Ref) (payment : Payment) : Prop where
  path : HistoryOf payment.history payment.status
  owned : ∀ r ∈ payment.refunds, r < refunds.next ∧ (refunds.read r).payment = p ∧
    (refunds.read r).amount.currency = payment.amount.currency ∧ 0 < (refunds.read r).amount.units
  nodup : payment.refunds.Nodup
  /-- what was refunded and what is held is within the amount -/
  total : refundUnits refunds payment.refunds .succeeded +
    refundUnits refunds payment.refunds .pending ≤ payment.amount.units
  charged : payment.refunds ≠ [] →
    payment.status ∈ [PaymentStatus.succeeded, .partiallyRefunded, .refunded]
  full : payment.status = .refunded →
    refundUnits refunds payment.refunds .succeeded = payment.amount.units

namespace PaymentOk

variable {refunds refunds' : Memory Refund} {p r : Ref} {payment : Payment}

section

variable (h : PaymentOk refunds p payment)

include h

variable {status : RefundStatus} {payment' : Payment} {reference : String}

theorem amount_currency {m : Money}
    (hm : m ∈ payment.refundAmounts refunds status) : m.currency = payment.amount.currency := by
  obtain ⟨refund, hrefund, rfl⟩ := List.mem_map.mp hm
  obtain ⟨r, hr, rfl⟩ := List.mem_map.mp (mem_of_mem_filter hrefund)
  exact (h.owned r hr).2.2.1

theorem refunded_eq : payment.refunded refunds =
      .ok ⟨refundUnits refunds payment.refunds .succeeded, payment.amount.currency⟩ := by
  rw [Payment.refunded, sumMoney_ok fun m hm => h.amount_currency hm, refundAmounts_units]

theorem heldForRefunds_eq : payment.heldForRefunds refunds =
      .ok ⟨refundUnits refunds payment.refunds .pending, payment.amount.currency⟩ := by
  rw [Payment.heldForRefunds, sumMoney_ok fun m hm => h.amount_currency hm, refundAmounts_units]

theorem refundable_eq (hstatus : payment.status ∈ refundable) : payment.refundable refunds =
      .ok ⟨payment.amount.units - refundUnits refunds payment.refunds .succeeded -
        refundUnits refunds payment.refunds .pending, payment.amount.currency⟩ := by
  rw [Payment.refundable, if_neg (not_not.mpr hstatus), h.refunded_eq, h.heldForRefunds_eq]
  simp [bind, Except.bind, Money.sub, Money.same, Except.map]

theorem congr (hnext : refunds.next ≤ refunds'.next)
    (hread : ∀ r ∈ payment.refunds, refunds'.read r = refunds.read r) :
    PaymentOk refunds' p payment where
  path := h.path
  owned r hr := by
    rw [hread r hr]
    have howned := h.owned r hr
    exact ⟨Nat.lt_of_lt_of_le howned.1 hnext, howned.2⟩
  nodup := h.nodup
  total := by
    rw [refundUnits_congr hread, refundUnits_congr hread]
    exact h.total
  charged := h.charged
  full hstatus := by
    rw [refundUnits_congr hread]
    exact h.full hstatus

theorem status_of_pending (hr : r ∈ payment.refunds)
    (hpending : (refunds.read r).status = .pending) :
    payment.status ∈ [PaymentStatus.succeeded, .partiallyRefunded] := by
  have hne : payment.refunds ≠ [] := ne_nil_of_mem hr
  have hpos : 0 < refundUnits refunds payment.refunds .pending := by
    have hle : (refunds.read r).amount.units ≤ refundUnits refunds payment.refunds .pending := by
      refine single_le_sum (fun x hx => ?_) _ (List.mem_map.mpr ⟨r, hr, if_pos hpending⟩)
      obtain ⟨q, hq, rfl⟩ := List.mem_map.mp hx
      have hq' := (h.owned q hq).2.2.2
      split <;> omega
    have hunits := (h.owned r hr).2.2.2
    omega
  have htotal := h.total
  have hfull := h.full
  have hcharged := h.charged hne
  simp only [mem_cons, not_mem_nil, or_false] at hcharged ⊢
  rcases hcharged with hs | hs | hs
  · exact .inl hs
  · exact .inr hs
  · have hunits := hfull hs
    omega

theorem finished {target : PaymentStatus}
    (htarget : target ∈ PaymentService.chargeStatuses) (hmoved : MovedTo payment target payment') :
    PaymentOk refunds p payment' := by
  have hamount : payment'.amount = payment.amount := congrArg PaymentRequest.amount hmoved.request
  have hnone : payment.refunds = [] := by
    by_contra hne
    have hcharged := h.charged hne
    have hallowed := hmoved.allowed
    simp only [PaymentService.chargeStatuses, mem_cons, not_mem_nil, or_false] at htarget hcharged
    rcases hcharged with hs | hs | hs <;> rw [hs] at hallowed <;>
      rcases htarget with rfl | rfl | rfl <;> simp [allowedTransitions] at hallowed
  refine ⟨?_, ?_, ?_, ?_, ?_, ?_⟩
  · rw [hmoved.history, hmoved.status]
    exact h.path.moved hmoved.allowed
  · rw [hmoved.refunds, hamount]
    exact h.owned
  · rw [hmoved.refunds]
    exact h.nodup
  · rw [hmoved.refunds, hamount]
    exact h.total
  · intro hne
    rw [hmoved.refunds] at hne
    exact absurd hnone hne
  · intro hrefunded
    rw [hmoved.status] at hrefunded
    subst hrefunded
    exact absurd htarget (by decide)

theorem owned_write :
    ∀ q ∈ payment.refunds,
      q < (refunds.write r (Refund.settled (refunds.read r) status reference)).next ∧
      ((refunds.write r (Refund.settled (refunds.read r) status reference)).read q).payment = p ∧
      ((refunds.write r
        (Refund.settled (refunds.read r) status reference)).read q).amount.currency =
        payment.amount.currency ∧
      0 < ((refunds.write r
        (Refund.settled (refunds.read r) status reference)).read q).amount.units := by
  intro q hq
  rw [next_write, read_write]
  split
  case isTrue heq =>
    subst heq
    exact h.owned q hq
  case isFalse => exact h.owned q hq

theorem declined (hr : r ∈ payment.refunds)
    (hpending : (refunds.read r).status = .pending) (reference : String) :
    PaymentOk (refunds.write r (Refund.settled (refunds.read r) .failed reference)) p payment := by
  have hpos := (h.owned r hr).2.2.2
  have htotal := h.total
  have hstatus := h.status_of_pending hr hpending
  refine ⟨h.path, h.owned_write, h.nodup, ?_, h.charged, ?_⟩
  · rw [refundUnits_write h.nodup hr, refundUnits_write h.nodup hr, hpending]
    simp only [Refund.settled, reduceCtorEq, if_false, if_true]
    omega
  · intro hrefunded
    rw [hrefunded] at hstatus
    simp at hstatus

theorem approved (hr : r ∈ payment.refunds)
    (hpending : (refunds.read r).status = .pending) {total : Money}
    (htotal : payment.refunded
      (refunds.write r (Refund.settled (refunds.read r) .succeeded reference)) = .ok total)
    (hmoved : MovedTo payment
      (if total = payment.amount then .refunded else .partiallyRefunded) payment') :
    PaymentOk (refunds.write r (Refund.settled (refunds.read r) .succeeded reference)) p
      payment' := by
  have hamount : payment'.amount = payment.amount := congrArg PaymentRequest.amount hmoved.request
  have hunits : ∀ m ∈ payment.refundAmounts
      (refunds.write r (Refund.settled (refunds.read r) .succeeded reference)) .succeeded,
      m.currency = payment.amount.currency := by
    intro m hm
    obtain ⟨refund, hrefund, rfl⟩ := List.mem_map.mp hm
    obtain ⟨q, hq, rfl⟩ := List.mem_map.mp (mem_of_mem_filter hrefund)
    exact (h.owned_write q hq).2.2.1
  rw [Payment.refunded, sumMoney_ok hunits, refundAmounts_units] at htotal
  cases htotal
  have hbound := h.total
  refine ⟨?_, ?_, ?_, ?_, ?_, ?_⟩
  · rw [hmoved.history, hmoved.status]
    exact h.path.moved hmoved.allowed
  · rw [hmoved.refunds, hamount]
    exact h.owned_write
  · rw [hmoved.refunds]
    exact h.nodup
  · rw [hmoved.refunds, hamount, refundUnits_write h.nodup hr,
      refundUnits_write h.nodup hr, hpending]
    simp only [Refund.settled, reduceCtorEq, if_false, if_true]
    omega
  · intro hne
    rw [hmoved.status]
    split <;> simp
  · intro hrefunded
    rw [hmoved.status] at hrefunded
    rw [hmoved.refunds, hamount]
    split at hrefunded
    case isTrue heq => exact congrArg Money.units heq
    case isFalse => cases hrefunded

theorem held (hstatus : payment.status ∈ refundable)
    {amount left : Money} (hamount : 0 < amount.units)
    (hleft : payment.refundable refunds = .ok left) (hlt : left.lt amount = .ok false)
    {refund : Refund} (hpayment : refund.payment = p) (hunits : refund.amount = amount)
    (hpending : refund.status = .pending) : PaymentOk (refunds.alloc refund).2 p
      { payment with refunds := payment.refunds ++ [refunds.next] } := by
  rw [h.refundable_eq hstatus] at hleft
  cases hleft
  rw [Money.lt, Money.same] at hlt
  split at hlt
  case isFalse => cases hlt
  case isTrue hcurrency =>
  simp only [Except.map, Except.ok.injEq, decide_eq_false_iff_not, not_lt] at hlt
  have hold : ∀ r ∈ payment.refunds, (refunds.alloc refund).2.read r = refunds.read r := by
    intro r hr
    exact read_alloc_of_ne _ _ (Nat.ne_of_lt (h.owned r hr).1)
  have hchargedStatus : payment.status ∈ [PaymentStatus.succeeded, .partiallyRefunded,
      .refunded] := by
    simp only [refundable, mem_cons, not_mem_nil, or_false] at hstatus ⊢
    tauto
  refine ⟨h.path, ?_, ?_, ?_, fun _ => hchargedStatus, ?_⟩
  · intro r hr
    rcases mem_append.mp hr with hr | hr
    · obtain ⟨hlt, howned⟩ := h.owned r hr
      rw [hold r hr, next_alloc]
      exact ⟨Nat.lt_succ_of_lt hlt, howned⟩
    · rw [mem_singleton] at hr
      subst hr
      rw [read_alloc_self, next_alloc, hunits]
      exact ⟨Nat.lt_succ_self _, hpayment, hcurrency.symm, hamount⟩
  · refine nodup_append.mpr ⟨h.nodup, nodup_singleton _, ?_⟩
    rintro r hr q hq rfl
    rw [mem_singleton] at hq
    exact Nat.ne_of_lt (h.owned r hr).1 hq
  · rw [refundUnits_append, refundUnits_append, refundUnits_congr hold, refundUnits_congr hold,
      refundUnits_cons, refundUnits_cons, read_alloc_self, hpending, hunits]
    simp only [reduceCtorEq, if_false, if_true, refundUnits, map_nil, sum_nil]
    simp only [refundUnits] at hlt
    have hamt : Payment.amount { payment with refunds := payment.refunds ++ [refunds.next] } =
        payment.amount := rfl
    rw [hamt]
    omega
  · intro hrefunded
    have hs : payment.status = .refunded := hrefunded
    rw [hs] at hstatus
    simp [refundable] at hstatus

end

end PaymentOk

/-! ## The service -/

namespace PaymentService

variable {s s' : PaymentService} {p r q : Ref} {task : Task}
  {outcome : Except GatewayError GatewayResult}

/-- What holds of the service's tables and payments. -/
structure ServiceOk (s : PaymentService) : Prop where
  bound : ∀ n p, s.payments.get? n = some p →
    p < s.heap.next ∧ (s.heap.read p).paymentId = n ∧ n < s.ids
  registered : ∀ p < s.heap.next, s.payments.get? (s.heap.read p).paymentId = some p
  /-- a key has one payment -/
  byKey : ∀ k p, s.byKey.get? k = some p → p < s.heap.next ∧
    k = ((s.heap.read p).request.merchantId, (s.heap.read p).request.idempotencyKey)
  keyed : ∀ p < s.heap.next, s.byKey.get?
    ((s.heap.read p).request.merchantId, (s.heap.read p).request.idempotencyKey) = some p
  valid : ∀ p < s.heap.next, 0 < (s.heap.read p).request.amount.units ∧
    (s.heap.read p).request.idempotencyKey ≠ "" ∧
    s.merchants.get? (s.heap.read p).request.merchantId ≠ none
  payment : ∀ p < s.heap.next, PaymentOk s.refundHeap p (s.heap.read p)

/-- A task on a payment that is there, and on a refund of it. -/
def TaskOk (s : PaymentService) : Task → Prop
  | .charge p => p < s.heap.next
  | .refund p r => p < s.heap.next ∧ r ∈ (s.heap.read p).refunds

/-- What no step changes: the payments and refunds there are, and what they are for. -/
structure Keeps (s s' : PaymentService) : Prop where
  merchants : s'.merchants = s.merchants
  next_le : s.heap.next ≤ s'.heap.next
  paymentId : ∀ p < s.heap.next, (s'.heap.read p).paymentId = (s.heap.read p).paymentId
  request : ∀ p < s.heap.next, (s'.heap.read p).request = (s.heap.read p).request
  refunds : ∀ p < s.heap.next, ∀ r ∈ (s.heap.read p).refunds, r ∈ (s'.heap.read p).refunds
  refundNext_le : s.refundHeap.next ≤ s'.refundHeap.next
  refundKey : ∀ r < s.refundHeap.next,
    (s'.refundHeap.read r).idempotencyKey = (s.refundHeap.read r).idempotencyKey
  refundAmount : ∀ r < s.refundHeap.next,
    (s'.refundHeap.read r).amount = (s.refundHeap.read r).amount

theorem Keeps.refl (s : PaymentService) : Keeps s s :=
  ⟨rfl, Nat.le_refl _, fun _ _ => rfl, fun _ _ => rfl, fun _ _ _ h => h, Nat.le_refl _,
    fun _ _ => rfl, fun _ _ => rfl⟩

theorem Keeps.taskOk (h : Keeps s s') (htask : s.TaskOk task) : s'.TaskOk task := by
  cases task with
  | charge => exact Nat.lt_of_lt_of_le htask h.next_le
  | refund p r => exact ⟨Nat.lt_of_lt_of_le htask.1 h.next_le, h.refunds p htask.1 r htask.2⟩

theorem ServiceOk.owner (h : s.ServiceOk) (hp : p < s.heap.next) (hq : q < s.heap.next)
    (hr : r ∈ (s.heap.read p).refunds) (hr' : r ∈ (s.heap.read q).refunds) : p = q := by
  have hpr := ((h.payment p hp).owned r hr).2.1
  have hqr := ((h.payment q hq).owned r hr').2.1
  exact hpr.symm.trans hqr

theorem ServiceOk.paymentId_inj (h : s.ServiceOk) (hp : p < s.heap.next) (hq : q < s.heap.next)
    (heq : (s.heap.read p).paymentId = (s.heap.read q).paymentId) : p = q := by
  have hrp := h.registered p hp
  rw [heq, h.registered q hq] at hrp
  exact (Option.some.inj hrp).symm

variable {heap : Memory Payment}

theorem ServiceOk.update (h : s.ServiceOk) {refundHeap : Memory Refund}
    {refundKeys : Dict (Nat × String) Ref} {outbox : Outbox} {ids : Nat} (hids : s.ids ≤ ids)
    (hnext : heap.next = s.heap.next)
    (hid : ∀ q, (heap.read q).paymentId = (s.heap.read q).paymentId)
    (hrequest : ∀ q, (heap.read q).request = (s.heap.read q).request)
    (hpayment : ∀ q < s.heap.next, PaymentOk refundHeap q (heap.read q)) :
    ServiceOk { s with heap, refundHeap, refundKeys, outbox, ids } where
  bound n p hp := by
    obtain ⟨hlt, hpn, hn⟩ := h.bound n p hp
    exact ⟨by rwa [hnext], (hid p).trans hpn, Nat.lt_of_lt_of_le hn hids⟩
  registered p hp := by
    rw [hnext] at hp
    rw [hid]
    exact h.registered p hp
  byKey k p hp := by
    rw [hnext, hrequest]
    exact h.byKey k p hp
  keyed p hp := by
    rw [hnext] at hp
    rw [hrequest]
    exact h.keyed p hp
  valid p hp := by
    rw [hnext] at hp
    rw [hrequest]
    exact h.valid p hp
  payment p hp := by
    rw [hnext] at hp
    exact hpayment p hp

theorem read_write_field {α : Type} {payment' : Payment} (f : Payment → α)
    (hf : f payment' = f (heap.read p)) (q : Ref) :
    f ((heap.write p payment').read q) = f (heap.read q) := by
  rw [read_write]
  split
  case isTrue heq => rw [heq, hf]
  case isFalse => rfl

section Finished

variable {target : PaymentStatus}

theorem Finished.keeps (h : Finished s p target s') : Keeps s s' := by
  obtain ⟨payload, hmoved⟩ := h
  refine ⟨rfl, Nat.le_refl _, fun q _ => read_write_field _ hmoved.paymentId q,
    fun q _ => read_write_field _ hmoved.request q, fun q _ r hr => ?_, Nat.le_refl _,
    fun _ _ => rfl, fun _ _ => rfl⟩
  rw [← read_write_field Payment.refunds hmoved.refunds q] at hr
  exact hr

theorem Finished.serviceOk (h : Finished s p target s') (hs : s.ServiceOk)
    (hp : p < s.heap.next) (htarget : target ∈ chargeStatuses) : s'.ServiceOk := by
  obtain ⟨payload, hmoved⟩ := h
  refine hs.update (Nat.le_refl _) rfl (read_write_field _ hmoved.paymentId)
    (read_write_field _ hmoved.request) fun q hq => ?_
  rw [read_write]
  split
  case isTrue heq =>
    subst heq
    exact (hs.payment q hq).finished htarget hmoved
  case isFalse => exact hs.payment q hq

theorem Finished.status_of_ne (h : Finished s p target s') (hne : q ≠ p) :
    (s'.heap.read q).status = (s.heap.read q).status := by
  obtain ⟨payload, hmoved⟩ := h
  exact congrArg Payment.status (read_write_of_ne _ _ hne)

end Finished

theorem ServiceOk.write_other (h : s.ServiceOk) (hp : p < s.heap.next)
    (hr : r ∈ (s.heap.read p).refunds) (refund : Refund) (hq : q < s.heap.next) (hne : q ≠ p) :
    PaymentOk (s.refundHeap.write r refund) q (s.heap.read q) := by
  refine (h.payment q hq).congr (Nat.le_refl _) fun r' hr' => ?_
  refine read_write_of_ne _ _ ?_
  rintro rfl
  exact hne (h.owner hq hp hr' hr)

theorem read_settled_field {α : Type} {refunds : Memory Refund} {status : RefundStatus}
    {reference : String} (f : Refund → α)
    (hf : f (Refund.settled (refunds.read r) status reference) = f (refunds.read r)) (q : Ref) :
    f ((refunds.write r (Refund.settled (refunds.read r) status reference)).read q) =
      f (refunds.read q) := by
  rw [read_write]
  split
  case isTrue heq => rw [heq, hf]
  case isFalse => rfl

section RefundSettled

variable {outcome : Except GatewayError GatewayResult}

theorem RefundSettled.keeps (h : RefundSettled s p r outcome s') : Keeps s s' := by
  cases h with
  | resolved => exact .refl s
  | approved _ _ _ _ _ hmoved =>
    refine ⟨rfl, Nat.le_refl _, fun q _ => read_write_field _ hmoved.paymentId q,
      fun q _ => read_write_field _ hmoved.request q, fun q _ r' hr => ?_, Nat.le_refl _,
      fun q _ => read_settled_field _ rfl q, fun q _ => read_settled_field _ rfl q⟩
    rw [← read_write_field Payment.refunds hmoved.refunds q] at hr
    exact hr
  | declined =>
    exact ⟨rfl, Nat.le_refl _, fun _ _ => rfl, fun _ _ => rfl, fun _ _ _ h => h, Nat.le_refl _,
      fun q _ => read_settled_field _ rfl q, fun q _ => read_settled_field _ rfl q⟩

theorem RefundSettled.serviceOk (h : RefundSettled s p r outcome s') (hs : s.ServiceOk)
    (hp : p < s.heap.next) (hr : r ∈ (s.heap.read p).refunds) : s'.ServiceOk := by
  cases h with
  | resolved => exact hs
  | approved _ _ _ hpending htotal hmoved =>
    refine hs.update (Nat.le_refl _) rfl (read_write_field _ hmoved.paymentId)
      (read_write_field _ hmoved.request) fun q hq => ?_
    rw [read_write]
    split
    case isTrue heq =>
      subst heq
      exact (hs.payment q hq).approved hr hpending htotal hmoved
    case isFalse hne => exact hs.write_other hp hr _ hq hne
  | declined reference _ hpending =>
    refine hs.update (Nat.le_refl _) rfl (fun _ => rfl) (fun _ => rfl) fun q hq => ?_
    by_cases heq : q = p
    · subst heq
      exact (hs.payment q hq).declined hr hpending reference
    · exact hs.write_other hp hr _ hq heq

theorem RefundSettled.processing (h : RefundSettled s p r outcome s') (hs : s.ServiceOk)
    (hp : p < s.heap.next) (hr : r ∈ (s.heap.read p).refunds)
    (hq : (s.heap.read q).status = .processing) : (s'.heap.read q).status = .processing := by
  cases h with
  | resolved => exact hq
  | declined => exact hq
  | approved =>
    have hne : q ≠ p := by
      rintro rfl
      have hcharged := (hs.payment q hp).charged (ne_nil_of_mem hr)
      rw [hq] at hcharged
      simp at hcharged
    exact (congrArg Payment.status (read_write_of_ne _ _ hne)).trans hq

end RefundSettled

theorem ChargeSettled.keeps (h : ChargeSettled s p outcome s') : Keeps s s' := by
  cases h with
  | resolved => exact .refl s
  | finished _ _ h => exact h.keeps

theorem Settled.keeps (h : Settled s outcome task s') : Keeps s s' := by
  cases task with
  | charge => exact ChargeSettled.keeps h
  | refund => exact RefundSettled.keeps h

theorem Settled.serviceOk (h : Settled s outcome task s') (hs : s.ServiceOk) (htask : s.TaskOk task)
    : s'.ServiceOk := by
  cases task with
  | charge =>
    cases h with
    | resolved => exact hs
    | finished htarget _ h => exact h.serviceOk hs htask htarget
  | refund => exact RefundSettled.serviceOk h hs htask.1 htask.2

theorem Settled.processing (h : Settled s outcome task s') (hs : s.ServiceOk)
    (htask : s.TaskOk task) (hne : task ≠ .charge q) (hq : (s.heap.read q).status = .processing) :
    (s'.heap.read q).status = .processing := by
  cases task with
  | charge p =>
    cases h with
    | resolved => exact hq
    | finished _ _ h =>
      have hqp : q ≠ p := fun heq => hne (congrArg Task.charge heq.symm)
      exact (h.status_of_ne hqp).trans hq
  | refund => exact RefundSettled.processing h hs htask.1 htask.2 hq

section Created

variable {request : PaymentRequest}

section

variable (h : Created s request p s')

include h

theorem Created.ref_eq : p = s.heap.next := by
  cases h
  rfl

theorem Created.read_old (hq : q < s.heap.next) : s'.heap.read q = s.heap.read q := by
  cases h
  exact read_alloc_of_ne _ _ (Nat.ne_of_lt hq)

theorem Created.read_new : s'.heap.read p = .new s.ids request := by
  cases h
  exact read_alloc_self _ _

theorem Created.next_eq : s'.heap.next = s.heap.next + 1 := by
  cases h
  rfl

theorem Created.keeps : Keeps s s' := by
  have hold := fun q (hq : q < s.heap.next) => h.read_old hq
  cases h
  exact ⟨rfl, Nat.le_succ _, fun q hq => congrArg Payment.paymentId (hold q hq),
    fun q hq => congrArg Payment.request (hold q hq),
    fun q hq r hr => by rwa [hold q hq], Nat.le_refl _, fun _ _ => rfl, fun _ _ => rfl⟩

end

theorem new_paymentOk (refunds : Memory Refund) (p : Ref) {n : Nat}
    (hamount : 0 < request.amount.units) : PaymentOk refunds p (.new n request) :=
  ⟨⟨rfl, rfl, isChain_singleton _⟩, nofun, nodup_nil,
    Int.le_of_lt hamount, (fun h => absurd rfl h), nofun⟩

theorem Created.serviceOk (h : Created s request p s') (hs : s.ServiceOk) : s'.ServiceOk := by
  have hold := fun q (hq : q < s.heap.next) => h.read_old hq
  have hnew := h.read_new
  obtain ⟨hamount, hkey, hmerchant, hfresh⟩ := h
  have hcases : ∀ q < s.heap.next + 1, q < s.heap.next ∨ q = s.heap.next :=
    fun q hq => Nat.lt_or_eq_of_le (Nat.le_of_lt_succ hq)
  refine ⟨fun n q hq => ?_, fun q hq => ?_, fun k q hq => ?_, fun q hq => ?_, fun q hq => ?_,
    fun q hq => ?_⟩
  · rcases get?_set_some hq with ⟨rfl, rfl⟩ | ⟨-, hq⟩
    · exact ⟨Nat.lt_succ_self _, congrArg Payment.paymentId hnew, Nat.lt_succ_self _⟩
    · obtain ⟨hlt, hid, hn⟩ := hs.bound n q hq
      exact ⟨Nat.lt_succ_of_lt hlt, (congrArg Payment.paymentId (hold q hlt)).trans hid,
        Nat.lt_succ_of_lt hn⟩
  · rcases hcases q hq with hlt | rfl
    · have hreg := hs.registered q hlt
      have hn := (hs.bound _ q hreg).2.2
      rw [hold q hlt, get?_set_of_ne _ _ (Nat.ne_of_lt hn)]
      exact hreg
    · rw [hnew]
      exact get?_set_self _ _ _
  · rcases get?_set_some hq with ⟨rfl, rfl⟩ | ⟨-, hq⟩
    · rw [hnew]
      exact ⟨Nat.lt_succ_self _, rfl⟩
    · obtain ⟨hlt, hk⟩ := hs.byKey k q hq
      rw [hold q hlt]
      exact ⟨Nat.lt_succ_of_lt hlt, hk⟩
  · rcases hcases q hq with hlt | rfl
    · have hkeyed := hs.keyed q hlt
      rw [hold q hlt, get?_set_of_ne]
      · exact hkeyed
      · intro heq
        rw [heq, hfresh] at hkeyed
        cases hkeyed
    · rw [hnew]
      exact get?_set_self _ _ _
  · rcases hcases q hq with hlt | rfl
    · rw [hold q hlt]
      exact hs.valid q hlt
    · rw [hnew]
      exact ⟨hamount, hkey, fun h => by cases hmerchant.symm.trans h⟩
  · rcases hcases q hq with hlt | rfl
    · rw [hold q hlt]
      exact hs.payment q hlt
    · rw [hnew]
      exact new_paymentOk _ _ hamount

end Created

section Held

variable {amount : Money}

section

variable (h : Held s amount p r s')

include h

theorem Held.keeps : Keeps s s' := by
  cases h
  refine ⟨rfl, Nat.le_refl _, fun q _ => read_write_field Payment.paymentId (by rfl) q,
    fun q _ => read_write_field Payment.request (by rfl) q, fun q _ r hr => ?_, Nat.le_succ _,
    fun q hq => congrArg Refund.idempotencyKey (read_alloc_of_ne _ _ (Nat.ne_of_lt hq)),
    fun q hq => congrArg Refund.amount (read_alloc_of_ne _ _ (Nat.ne_of_lt hq))⟩
  rw [read_write]
  split
  case isTrue heq =>
    rw [heq] at hr
    exact mem_append_left _ hr
  case isFalse => exact hr

theorem Held.status_eq (q : Ref) : (s'.heap.read q).status = (s.heap.read q).status := by
  cases h
  exact read_write_field Payment.status (by rfl) q

theorem Held.taskOk (hs : s.ServiceOk) : s'.TaskOk (.refund p r) := by
  obtain ⟨idempotencyKey, reason, hamount, hpayment, -, -, -, -⟩ := h
  refine ⟨(hs.bound _ _ hpayment).1, ?_⟩
  rw [read_write_self]
  exact mem_append_right _ (mem_singleton_self _)

theorem Held.serviceOk (hs : s.ServiceOk) : s'.ServiceOk := by
  obtain ⟨idempotencyKey, reason, hamount, hpayment, hfresh, hstatus, hleft, hlt⟩ := h
  have hp := (hs.bound _ _ hpayment).1
  refine hs.update (Nat.le_succ _) rfl (read_write_field Payment.paymentId (by rfl))
    (read_write_field Payment.request (by rfl)) fun q hq => ?_
  rw [read_write]
  split
  case isTrue heq =>
    subst heq
    exact (hs.payment q hq).held hstatus hamount hleft hlt rfl rfl rfl
  case isFalse =>
    refine (hs.payment q hq).congr (Nat.le_succ _) fun r' hr' => ?_
    exact read_alloc_of_ne _ _ (Nat.ne_of_lt ((hs.payment q hq).owned r' hr').1)

end

end Held

end PaymentService

end InterviewPrep.Payments
