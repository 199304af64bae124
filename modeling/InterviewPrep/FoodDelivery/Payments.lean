/-
  What the orders have paid.  A request is asked for by one call or one order (`asking`),
  so it has one order at most.  The gateway has one charge for every string that a request
  was charged under, of the amount of the first that was; so every order has its own
  charge exactly when no two requests give one string (`run_paid`).
-/
import InterviewPrep.FoodDelivery.Charges

namespace InterviewPrep.FoodDelivery

open Lib Dict Function Option

/-! ## The gateway -/

namespace PaymentGateway

variable {g g' : PaymentGateway} {customerId key : String} {amount total : Int} {paymentId : Nat}

theorem charge_eq_ok (h : g.charge customerId amount key = .ok (paymentId, g')) :
    (g.byKey.get? key = some paymentId ∧ g' = g) ∨
      (g.byKey.get? key = none ∧ paymentId = g.next ∧ g' = { g with
        byKey := g.byKey.set key g.next
        charges := g.charges.set g.next amount
        next := g.next + 1 }) := by
  rw [charge] at h
  split at h
  · cases h
  split at h
  next hkey =>
    cases h
    exact .inl ⟨hkey, rfl⟩
  next hkey =>
    cases h
    exact .inr ⟨hkey, rfl, rfl⟩

theorem refund_eq (g : PaymentGateway) (paymentId : Nat) (amount : Int) :
    (g.refund paymentId amount).byKey = g.byKey ∧
      (g.refund paymentId amount).charges = g.charges ∧
      (g.refund paymentId amount).next = g.next := by
  rw [refund]
  split <;> exact ⟨rfl, rfl, rfl⟩

theorem get?_refund (g : PaymentGateway) (paymentId : Nat) (amount : Int) (id : Nat) :
    (g.refund paymentId amount).refunds.get? id =
      if id = paymentId then some ((g.refunds.get? paymentId).getD amount)
      else g.refunds.get? id := by
  rw [refund]
  split
  next hx =>
    rw [hx]
    split
    next heq => rw [heq, hx]; rfl
    · rfl
  next hnone =>
    rw [hnone]
    exact get?_set _ _ _ _

end PaymentGateway

open OrderService (chargeKey)

/-- What was charged: the request, the amount and the payment. -/
abbrev Paid := Request × Int × Nat

/-- The charges of a gateway: one for every string that a request was charged under, of the amount
    of one of these requests. -/
structure Booked {ω : Type*} (g : PaymentGateway) (paid : ω → Option Paid) : Prop where
  key : ∀ r total paymentId, Held paid (r, total, paymentId) →
    g.byKey.get? (chargeKey r) = some paymentId
  first : ∀ k paymentId, g.byKey.get? k = some paymentId →
    ∃ r total, Held paid (r, total, paymentId) ∧ chargeKey r = k ∧
      g.charges.get? paymentId = some total
  apart : ∀ k k' paymentId, g.byKey.get? k = some paymentId → g.byKey.get? k' = some paymentId →
    k = k'
  next : ∀ k paymentId, g.byKey.get? k = some paymentId → paymentId < g.next
  charged : ∀ paymentId amount, g.charges.get? paymentId = some amount →
    ∃ k, g.byKey.get? k = some paymentId

section

variable {ω : Type*} {g g' : PaymentGateway} {paid paid' : ω → Option Paid} {r : Request}
  {total : Int} {paymentId : Nat}

theorem Booked.congr (h : Booked g paid) (hheld : ∀ x, Held paid' x ↔ Held paid x)
    (hkey : g'.byKey = g.byKey) (hcharges : g'.charges = g.charges) (hnext : g'.next = g.next) :
    Booked g' paid' where
  key := by
    intro r total paymentId hr
    rw [hkey]
    exact h.key r total paymentId ((hheld _).mp hr)
  first := by
    intro k paymentId hk
    rw [hkey] at hk
    obtain ⟨r, total, hr, hkeyed, hcharge⟩ := h.first k paymentId hk
    exact ⟨r, total, (hheld _).mpr hr, hkeyed, by rw [hcharges, hcharge]⟩
  apart := by rw [hkey]; exact h.apart
  next := by rw [hkey, hnext]; exact h.next
  charged := by rw [hkey, hcharges]; exact h.charged

theorem Booked.charge [DecidableEq ω] (h : Booked g paid) {w : ω} (hw : paid w = none)
    (hcharge : g.charge r.1 total (chargeKey r) = .ok (paymentId, g')) :
    Booked g' (Function.update paid w (some (r, total, paymentId))) := by
  have htake : ∀ x, Held (Function.update paid w (some (r, total, paymentId))) x ↔
      x = (r, total, paymentId) ∨ Held paid x := fun x => held_take hw
  obtain ⟨hkey, rfl⟩ | ⟨hkey, rfl, rfl⟩ := PaymentGateway.charge_eq_ok hcharge
  · -- the gateway has a charge under the string: it may be of another request
    refine ⟨fun r' total' paymentId' hr => ?_, fun k paymentId' hk => ?_, h.apart,
      h.next, h.charged⟩
    · obtain heq | hr := (htake _).mp hr
      · cases heq
        exact hkey
      · exact h.key r' total' paymentId' hr
    · obtain ⟨r', total', hr, hrest⟩ := h.first k paymentId' hk
      exact ⟨r', total', (htake _).mpr (.inr hr), hrest⟩
  have hfresh : ∀ k, g.byKey.get? k ≠ some g.next :=
    fun k hk => Nat.lt_irrefl _ (h.next k g.next hk)
  refine ⟨?_, ?_, ?_, ?_, ?_⟩
  · intro r' total' paymentId' hr
    obtain heq | hr := (htake _).mp hr
    · cases heq
      exact get?_set_self _ _ _
    · have hold := h.key r' total' paymentId' hr
      rw [get?_set_of_ne _ _ fun heq => ?_, hold]
      rw [heq, hkey] at hold
      cases hold
  · intro k paymentId' hk
    obtain ⟨rfl, rfl⟩ | ⟨-, hk⟩ := get?_set_some hk
    · exact ⟨r, total, (htake _).mpr (.inl rfl), rfl, get?_set_self _ _ _⟩
    · obtain ⟨r', total', hr, hkeyed, hamount⟩ := h.first k paymentId' hk
      refine ⟨r', total', (htake _).mpr (.inr hr), hkeyed, ?_⟩
      rw [get?_set_of_ne _ _ (Nat.ne_of_lt (h.next k paymentId' hk)), hamount]
  · intro k k' paymentId' hk hk'
    obtain ⟨rfl, rfl⟩ | ⟨-, hk⟩ := get?_set_some hk
    · obtain ⟨rfl, -⟩ | ⟨-, hk'⟩ := get?_set_some hk'
      · rfl
      · exact absurd hk' (hfresh k')
    · obtain ⟨rfl, rfl⟩ | ⟨-, hk'⟩ := get?_set_some hk'
      · exact absurd hk (hfresh k)
      · exact h.apart k k' paymentId' hk hk'
  · intro k paymentId' hk
    show paymentId' < g.next + 1
    obtain ⟨-, rfl⟩ | ⟨-, hk⟩ := get?_set_some hk
    · exact Nat.lt_succ_self _
    · have := h.next k paymentId' hk
      omega
  · intro paymentId' amount hamount
    obtain ⟨rfl, -⟩ | ⟨-, hamount⟩ := get?_set_some hamount
    · exact ⟨chargeKey r, get?_set_self _ _ _⟩
    · obtain ⟨k, hk⟩ := h.charged paymentId' amount hamount
      refine ⟨k, ?_⟩
      rw [get?_set_of_ne _ _ fun heq => ?_, hk]
      rw [heq, hkey] at hk
      cases hk

theorem Booked.own_request (h : Booked g paid)
    (hkeys : ∀ r x r' x', Held paid (r, x) → Held paid (r', x') →
      chargeKey r = chargeKey r' → r = r')
    {r' : Request} {total' : Int} (hr : Held paid (r, total, paymentId))
    (hr' : Held paid (r', total', paymentId)) : r = r' :=
  hkeys r _ r' _ hr hr' (h.apart _ _ _ (h.key r total paymentId hr) (h.key r' total' paymentId hr'))

theorem Booked.own_amount (h : Booked g paid)
    (hex : ∀ r x x', Held paid (r, x) → Held paid (r, x') → x = x')
    (hkeys : ∀ r x r' x', Held paid (r, x) → Held paid (r', x') →
      chargeKey r = chargeKey r' → r = r')
    (hr : Held paid (r, total, paymentId)) : g.charges.get? paymentId = some total := by
  obtain ⟨r0, total0, hr0, hkey, hamount⟩ := h.first _ _ (h.key r total paymentId hr)
  have hsame := hkeys r0 _ r _ hr0 hr hkey
  subst hsame
  have heq := hex r0 _ _ hr0 hr
  cases heq
  exact hamount

end

/-! ## Who asks, and who has paid -/

def Part.request : Part → Option Request
  | .owner request => some request
  | .payer request _ _ => some request
  | .refunder _ => none

def Part.paid : Part → Option Paid
  | .payer request total paymentId => some (request, total, paymentId)
  | _ => none

def Account.paid (a : Account) : Int × Nat := (a.total, a.paymentId)

namespace OrderService

variable {s s' : OrderService} {t orderId : Nat} {c next : Option Call} {r : Request} {a : Account}

/-- The request that each thread and each order is for. -/
def asking (s : OrderService) : Owner → Option Request
  | .thread t => (s.partAt t).bind Part.request
  | .order orderId => s.requests.get? orderId

/-- What each thread and each order has been charged. -/
def paid (s : OrderService) : Owner → Option Paid
  | .thread t => (s.partAt t).bind Part.paid
  | .order orderId => (s.requests.get? orderId).bind fun r =>
    (s.accountOf orderId).map fun a => (r, a.paid)

theorem Paying.partAt (h : Paying s s' t next) (t' : Nat) :
    s'.partAt t' = if t' = t then partOf next else s.partAt t' := by
  rw [OrderService.partAt, h.calls, Dict.get?_put]
  split <;> rfl

theorem Paying.asking_thread (h : Paying s s' t next) (hrequests : s'.requests = s.requests) :
    s'.asking = Function.update s.asking (.thread t) ((partOf next).bind Part.request) := by
  funext w
  cases w with
  | thread =>
    rw [asking, h.partAt, apply_ite (Option.bind · Part.request)]
    simp only [update_apply, Owner.thread.injEq]
    rfl
  | order =>
    rw [asking, hrequests, update_of_ne (by rintro ⟨⟩)]
    rfl

theorem Paying.paid_thread (h : Paying s s' t next) (hrequests : s'.requests = s.requests)
    (haccounts : ∀ id, (s'.accountOf id).map Account.paid = (s.accountOf id).map Account.paid) :
    s'.paid = Function.update s.paid (.thread t) ((partOf next).bind Part.paid) := by
  funext w
  cases w with
  | thread =>
    rw [paid, h.partAt, apply_ite (Option.bind · Part.paid)]
    simp only [update_apply, Owner.thread.injEq]
    rfl
  | order =>
    rw [paid, hrequests, update_of_ne (by rintro ⟨⟩), paid]
    have hmap : ∀ (o : Option Account) (r : Request),
        o.map (fun a => (r, a.paid)) = (o.map Account.paid).map (r, ·) := by
      intro o r
      cases o <;> rfl
    simp only [hmap, haccounts]

theorem Paying.stored (h : Paying s s' t next) {request : Request} {total : Int} {paymentId : Nat}
    (hc : s.partAt t = some (.payer request total paymentId)) (hnext : partOf next = none)
    (haccounts : ∀ orderId, s'.accountOf orderId =
      if orderId = s.nextOrder then some ⟨request.1, total, paymentId, false⟩
      else s.accountOf orderId)
    (hrequests : s'.requests = s.requests.set s.nextOrder request) :
    s'.asking = passOn s.asking (.thread t) (.order s.nextOrder) ∧
      s'.paid = passOn s.paid (.thread t) (.order s.nextOrder) := by
  have hasking : s.asking (.thread t) = some request := by rw [asking, hc]; rfl
  have hpaid : s.paid (.thread t) = some (request, total, paymentId) := by rw [paid, hc]; rfl
  constructor
  · funext w
    rw [passOn, hasking]
    cases w with
    | thread =>
      rw [asking, h.partAt, hnext, update_of_ne (by rintro ⟨⟩)]
      simp only [update_apply, Owner.thread.injEq]
      split <;> rfl
    | order id =>
      rw [asking, hrequests, get?_set]
      by_cases hid : id = s.nextOrder
      · subst hid
        rw [if_pos rfl, update_self]
      · rw [if_neg hid, update_of_ne fun heq => hid (Owner.order.inj heq),
          update_of_ne (by rintro ⟨⟩)]
        rfl
  funext w
  rw [passOn, hpaid]
  cases w with
  | thread =>
    rw [paid, h.partAt, hnext, update_of_ne (by rintro ⟨⟩)]
    simp only [update_apply, Owner.thread.injEq]
    split <;> rfl
  | order id =>
    rw [paid, hrequests, get?_set, haccounts]
    by_cases hid : id = s.nextOrder
    · subst hid
      rw [if_pos rfl, if_pos rfl, update_self]
      rfl
    · rw [if_neg hid, if_neg hid, update_of_ne fun heq => hid (Owner.order.inj heq),
        update_of_ne (by rintro ⟨⟩)]
      rfl

/-! ## The invariant -/

structure Refunds (s : OrderService) : Prop where
  refunding : ∀ t orderId, s.partAt t = some (.refunder orderId) →
    ∃ a, s.accountOf orderId = some a ∧ a.refunded = true
  refunds : ∀ paymentId amount, s.gateway.refunds.get? paymentId = some amount →
    ∃ orderId a, s.accountOf orderId = some a ∧ a.paymentId = paymentId ∧ a.total = amount ∧
      a.refunded = true
  refunded : ∀ orderId a, s.accountOf orderId = some a → a.refunded = true →
    (∃ amount, s.gateway.refunds.get? a.paymentId = some amount) ∨
      ∃ t, s.partAt t = some (.refunder orderId)

/-- What holds of the requests, the charges and the refunds in every state. -/
structure Accounted (s : OrderService) : Prop where
  known : s.Known
  exclusive : Exclusive s.asking
  claimed : ∀ r, Held s.asking r →
    ∃ id slot, s.idem.get? r = some id ∧ s.slots.get? id = some slot
  booked : Booked s.gateway s.paid
  /-- The orders and their requests. -/
  requests : ∀ orderId a, s.accountOf orderId = some a →
    ∃ r, s.requests.get? orderId = some r ∧ a.customerId = r.1
  accounts : ∀ orderId r, s.requests.get? orderId = some r → ∃ a, s.accountOf orderId = some a
  refunds : s.Refunds

theorem asking_of_paid {w : Owner} {x : Int × Nat} (h : s.paid w = some (r, x)) :
    s.asking w = some r := by
  cases w with
  | thread =>
    obtain ⟨part, hpart, h⟩ := bind_eq_some_iff.mp h
    rw [asking, hpart]
    cases part <;> cases h
    rfl
  | order =>
    obtain ⟨r', hr, h⟩ := bind_eq_some_iff.mp h
    obtain ⟨a, -, h⟩ := map_eq_some_iff.mp h
    cases h
    exact hr

section

variable (h : s.Accounted)

include h

theorem Accounted.paid_exclusive : Exclusive s.paid :=
  fun w w' x hw hw' => h.exclusive w w' x.1 (asking_of_paid hw) (asking_of_paid hw')

theorem Accounted.paid_once {x x' : Int × Nat} (hx : Held s.paid (r, x))
    (hx' : Held s.paid (r, x')) : x = x' := by
  obtain ⟨w, hw⟩ := hx
  obtain ⟨w', hw'⟩ := hx'
  have hsame := h.exclusive w w' r (asking_of_paid hw) (asking_of_paid hw')
  subst hsame
  rw [hw] at hw'
  cases hw'
  rfl

theorem Accounted.request_fresh : s.requests.get? s.nextOrder = none := by
  cases hr : s.requests.get? s.nextOrder with
  | none => rfl
  | some r =>
    obtain ⟨a, ha⟩ := h.accounts s.nextOrder r hr
    rw [accountOf, h.known.fresh] at ha
    cases ha

theorem Accounted.keeps_claimed (hpaying : Paying s s' t next)
    (hidem : s'.idem = s.idem) (hr : Held s.asking r) :
    ∃ id slot, s'.idem.get? r = some id ∧ s'.slots.get? id = some slot := by
  obtain ⟨id, slot, hid, hslot⟩ := h.claimed r hr
  obtain ⟨slot', hslot'⟩ := hpaying.slots id slot hslot
  exact ⟨id, slot', by rw [hidem, hid], hslot'⟩

theorem Accounted.asking_step (hpaying : Paying s s' t next) :
    Exclusive s'.asking ∧ ∀ r, Held s'.asking r →
      ∃ id slot, s'.idem.get? r = some id ∧ s'.slots.get? id = some slot := by
  obtain ⟨c, hcall⟩ : ∃ c, s.calls.get? t = c := ⟨_, rfl⟩
  have hpart : s.partAt t = partOf c := by rw [OrderService.partAt, hcall]
  have hthread : s.asking (.thread t) = (partOf c).bind Part.request := by rw [asking, hpart]
  -- the request of the thread does not change
  have hsame : ∀ (hrequests : s'.requests = s.requests) (hidem : s'.idem = s.idem),
      (partOf next).bind Part.request = (partOf c).bind Part.request →
      Exclusive s'.asking ∧ ∀ r, Held s'.asking r →
        ∃ id slot, s'.idem.get? r = some id ∧ s'.slots.get? id = some slot := by
    intro hrequests hidem heq
    have hasking := hpaying.asking_thread hrequests
    rw [heq, ← hthread, update_eq_self] at hasking
    rw [hasking]
    exact ⟨h.exclusive, fun r hr => h.keeps_claimed hpaying hidem hr⟩
  have hpayment := hcall ▸ hpaying.payment
  cases hpayment with
  | quiet hpart _ _ hrequests => exact hsame hrequests ‹_› (by rw [hpart])
  | @opened _ request hfree hnext hidem hslot _ hrequests =>
    have hasking := hpaying.asking_thread hrequests
    rw [hnext] at hasking
    have hnew : ¬ Held s.asking request := by
      intro hheld
      obtain ⟨id, slot, hid, hslot⟩ := h.claimed request hheld
      rw [hfree id hid] at hslot
      cases hslot
    rw [hasking]
    refine ⟨h.exclusive.take hnew, fun r hr => ?_⟩
    rw [hidem]
    obtain rfl | hr := (held_take hthread).mp hr
    · obtain ⟨slot, hslot⟩ := hslot
      exact ⟨s.nextSlot, slot, get?_set_self _ _ _, hslot⟩
    · obtain ⟨id, slot, hid, hslot⟩ := h.claimed r hr
      obtain ⟨slot', hslot'⟩ := hpaying.slots id slot hslot
      have hne : r ≠ request := fun heq => hnew (by rw [← heq]; exact hr)
      exact ⟨id, slot', by rw [get?_set_of_ne _ _ hne, hid], hslot'⟩
  | charged hc _ hnext hidem _ hrequests =>
    exact hsame hrequests hidem (by rw [hc, hnext]; rfl)
  | @stored _ _ request _ _ hc hnext hidem haccounts hrequests =>
    obtain ⟨hasking, -⟩ := hpaying.stored (hpart.trans hc) hnext haccounts hrequests
    have hw : s.asking (.thread t) = some request := by rw [hthread, hc]; rfl
    rw [hasking]
    refine ⟨h.exclusive.pass hw, fun r hr => ?_⟩
    have hw' : s.asking (.order s.nextOrder) = none := h.request_fresh
    rw [h.exclusive.held_pass hw hw'] at hr
    exact h.keeps_claimed hpaying hidem hr
  | @dropped _ _ request hc hnext hidem _ hrequests =>
    have hasking := hpaying.asking_thread hrequests
    rw [hnext] at hasking
    have hw : s.asking (.thread t) = some request := by rw [hthread, hc]; rfl
    rw [hasking]
    refine ⟨h.exclusive.drop, fun r hr => ?_⟩
    obtain ⟨hr, hne⟩ := (h.exclusive.held_drop hw).mp hr
    obtain ⟨id, slot, hid, hslot⟩ := h.claimed r hr
    obtain ⟨slot', hslot'⟩ := hpaying.slots id slot hslot
    exact ⟨id, slot', by rw [hidem, get?_erase_of_ne _ hne, hid], hslot'⟩
  | moved _ _ hnext hidem _ hrequests =>
    refine hsame hrequests hidem ?_
    rw [hnext]
    split <;> rfl
  | refunded hc _ hidem _ hrequests =>
    exact hsame hrequests hidem (by rw [hc]; rfl)

/-- One step keeps each charge of the gateway with the one request that paid it. -/
theorem Accounted.booked_step (hpaying : Paying s s' t next) : Booked s'.gateway s'.paid := by
  obtain ⟨c, hcall⟩ : ∃ c, s.calls.get? t = c := ⟨_, rfl⟩
  have hpart : s.partAt t = partOf c := by rw [OrderService.partAt, hcall]
  have hthread : s.paid (.thread t) = (partOf c).bind Part.paid := by rw [paid, hpart]
  -- what is charged does not change
  have hsame : ∀ (hrequests : s'.requests = s.requests)
      (haccounts : ∀ id, (s'.accountOf id).map Account.paid = (s.accountOf id).map Account.paid),
      (partOf next).bind Part.paid = (partOf c).bind Part.paid → s'.paid = s.paid := by
    intro hrequests haccounts heq
    rw [hpaying.paid_thread hrequests haccounts, heq, ← hthread, update_eq_self]
  have hpayment := hcall ▸ hpaying.payment
  cases hpayment with
  | quiet hpart _ haccounts hrequests hgateway =>
    rw [hsame hrequests (fun id => by rw [haccounts]) (by rw [hpart]), hgateway]
    exact h.booked
  | opened _ hnext _ _ haccounts hrequests hgateway =>
    rw [hsame hrequests (fun id => by rw [haccounts]) (by rw [hnext]; rfl), hgateway]
    exact h.booked
  | charged hc hcharge hnext _ haccounts hrequests =>
    rw [hpaying.paid_thread hrequests fun id => by rw [haccounts], hnext]
    exact h.booked.charge (by rw [hthread, hc]; rfl) hcharge
  | @stored _ _ request total paymentId hc hnext _ haccounts hrequests hgateway =>
    obtain ⟨-, hpaid⟩ := hpaying.stored (hpart.trans hc) hnext haccounts hrequests
    have hw : s.paid (.thread t) = some (request, total, paymentId) := by rw [hthread, hc]; rfl
    have hw' : s.paid (.order s.nextOrder) = none := by rw [paid, h.request_fresh]; rfl
    rw [hpaid, hgateway]
    exact h.booked.congr (fun x => h.paid_exclusive.held_pass hw hw') rfl rfl rfl
  | dropped hc hnext _ haccounts hrequests hgateway =>
    rw [hsame hrequests (fun id => by rw [haccounts]) (by rw [hc, hnext]; rfl), hgateway]
    exact h.booked
  | @moved _ _ _ _ ha _ hnext _ haccounts hrequests hgateway =>
    have hkept : s'.paid = s.paid := by
      refine hsame hrequests (fun id' => ?_) ?_
      · rw [haccounts]
        split
        next heq =>
          rw [heq, ha]
          rfl
        · rfl
      · rw [hnext]
        split <;> rfl
    rw [hkept, hgateway]
    exact h.booked
  | @refunded _ id a hc _ _ haccounts hrequests hgateway =>
    obtain ⟨hkey, hcharges, hnext⟩ := s.gateway.refund_eq a.paymentId a.total
    rw [hsame hrequests (fun id => by rw [haccounts]) (by rw [hc]; rfl), hgateway]
    exact h.booked.congr (fun x => Iff.rfl) hkey hcharges hnext

theorem Accounted.requests_step (hpaying : Paying s s' t next) :
    (∀ orderId a, s'.accountOf orderId = some a →
      ∃ r, s'.requests.get? orderId = some r ∧ a.customerId = r.1) ∧
    ∀ orderId r, s'.requests.get? orderId = some r → ∃ a, s'.accountOf orderId = some a := by
  have hkept : ∀ (haccounts : ∀ id, s'.accountOf id = s.accountOf id)
      (hrequests : s'.requests = s.requests), (∀ orderId a, s'.accountOf orderId = some a →
        ∃ r, s'.requests.get? orderId = some r ∧ a.customerId = r.1) ∧
      ∀ orderId r, s'.requests.get? orderId = some r → ∃ a, s'.accountOf orderId = some a := by
    intro haccounts hrequests
    simp only [haccounts, hrequests]
    exact ⟨h.requests, h.accounts⟩
  obtain ⟨c, hcall⟩ : ∃ c, s.calls.get? t = c := ⟨_, rfl⟩
  have hpayment := hcall ▸ hpaying.payment
  cases hpayment with
  | quiet _ _ haccounts hrequests | opened _ _ _ _ haccounts hrequests
  | charged _ _ _ _ haccounts hrequests | dropped _ _ _ haccounts hrequests
  | refunded _ _ _ haccounts hrequests => exact hkept haccounts hrequests
  | stored _ _ _ haccounts hrequests =>
    constructor
    · intro id a ha
      rw [haccounts] at ha
      rw [hrequests, get?_set]
      split at ha
      next heq =>
        cases ha
        exact ⟨_, if_pos heq, rfl⟩
      next hne =>
        rw [if_neg hne]
        exact h.requests id a ha
    · intro id r hr
      rw [hrequests] at hr
      rw [haccounts]
      obtain ⟨heq, -⟩ | ⟨hne, hr⟩ := get?_set_some hr
      · exact ⟨_, if_pos heq⟩
      · rw [if_neg hne]
        exact h.accounts id r hr
  | moved ha _ _ _ haccounts hrequests =>
    constructor
    · intro id a' ha'
      rw [haccounts] at ha'
      rw [hrequests]
      split at ha'
      next heq =>
        cases ha'
        obtain ⟨r, hr, hcustomer⟩ := h.requests _ _ ha
        exact ⟨r, heq ▸ hr, hcustomer⟩
      · exact h.requests id a' ha'
    · intro id r hr
      rw [haccounts]
      split
      · exact ⟨_, rfl⟩
      · exact h.accounts id r (hrequests ▸ hr)

end

theorem Refunds.kept (h : s.Refunds) (hpaying : Paying s s' t next)
    (haccounts : ∀ id, s'.accountOf id = s.accountOf id)
    (hrefunds : s'.gateway.refunds = s.gateway.refunds)
    (hpart : ∀ id, partOf next = some (.refunder id) ↔ s.partAt t = some (.refunder id)) :
    s'.Refunds := by
  have hparts : ∀ t' id, s'.partAt t' = some (.refunder id) ↔
      s.partAt t' = some (.refunder id) := by
    intro t' id
    rw [hpaying.partAt]
    split
    next heq => rw [heq, hpart]
    · exact Iff.rfl
  refine ⟨?_, ?_, ?_⟩
  · simp only [hparts, haccounts]
    exact h.refunding
  · simp only [hrefunds, haccounts]
    exact h.refunds
  · simp only [hrefunds, hparts, haccounts]
    exact h.refunded

theorem Refunds.written (h : s.Refunds) (hpaying : Paying s s' t next)
    (hpart : ∀ id, s.partAt t ≠ some (.refunder id))
    (hopen : ∀ b, s.accountOf orderId = some b → b.refunded = false)
    (haccounts : ∀ id, s'.accountOf id = if id = orderId then some a else s.accountOf id)
    (hnext : partOf next = if a.refunded then some (.refunder orderId) else none)
    (hgateway : s'.gateway = s.gateway) : s'.Refunds := by
  -- an account that is refunded before is another one, and stays as it is
  have hother : ∀ id b, s.accountOf id = some b → b.refunded = true →
      s'.accountOf id = some b := by
    intro id b hb hrefunded
    have hne : id ≠ orderId := by
      rintro rfl
      rw [hopen b hb] at hrefunded
      cases hrefunded
    rw [haccounts, if_neg hne, hb]
  refine ⟨fun t' id hpart => ?_, fun paymentId amount hamount => ?_, fun id b hb hrefunded => ?_⟩
  · rw [hpaying.partAt] at hpart
    split at hpart
    · rw [hnext] at hpart
      split at hpart
      next htrue =>
        cases hpart
        exact ⟨_, by rw [haccounts, if_pos rfl], htrue⟩
      · cases hpart
    · obtain ⟨b, hb, hrefunded⟩ := h.refunding t' id hpart
      exact ⟨b, hother id b hb hrefunded, hrefunded⟩
  · rw [hgateway] at hamount
    obtain ⟨id, b, hb, hpayment, htotal, hrefunded⟩ := h.refunds paymentId amount hamount
    exact ⟨id, b, hother id b hb hrefunded, hpayment, htotal, hrefunded⟩
  rw [haccounts] at hb
  split at hb
  next heq =>
    cases hb
    refine .inr ⟨t, ?_⟩
    rw [hpaying.partAt, if_pos rfl, hnext, heq]
    exact if_pos hrefunded
  rw [hgateway]
  obtain hdone | ⟨t', ht'⟩ := h.refunded id b hb hrefunded
  · exact .inl hdone
  · refine .inr ⟨t', ?_⟩
    rw [hpaying.partAt, if_neg ?_, ht']
    rintro rfl
    exact hpart id ht'

theorem Refunds.refund (h : s.Refunds) (hpaying : Paying s s' t none)
    (hpart : s.partAt t = some (.refunder orderId)) (ha : s.accountOf orderId = some a)
    (haccounts : ∀ id, s'.accountOf id = s.accountOf id)
    (hgateway : s'.gateway = s.gateway.refund a.paymentId a.total) : s'.Refunds := by
  have hrefunded : a.refunded = true := by
    obtain ⟨b, hb, hrefunded⟩ := h.refunding t orderId hpart
    rw [ha] at hb
    cases hb
    exact hrefunded
  refine ⟨fun t' id hpart => ?_, fun paymentId amount hamount => ?_, fun id b hb hb' => ?_⟩
  · rw [hpaying.partAt] at hpart
    split at hpart
    · cases hpart
    · rw [haccounts]
      exact h.refunding t' id hpart
  · rw [hgateway, PaymentGateway.get?_refund] at hamount
    simp only [haccounts]
    split at hamount
    next heq =>
      cases hold : s.gateway.refunds.get? a.paymentId with
      | none =>
        rw [hold] at hamount
        cases hamount
        exact ⟨orderId, a, ha, heq.symm, rfl, hrefunded⟩
      | some =>
        rw [hold] at hamount
        cases hamount
        exact h.refunds paymentId _ (heq ▸ hold)
    · exact h.refunds paymentId amount hamount
  rw [haccounts] at hb
  rw [hgateway, PaymentGateway.get?_refund]
  split
  · exact .inl ⟨_, rfl⟩
  next hne =>
  obtain hdone | ⟨t', ht'⟩ := h.refunded id b hb hb'
  · exact .inl hdone
  refine .inr ⟨t', ?_⟩
  rw [hpaying.partAt, if_neg ?_, ht']
  rintro rfl
  rw [hpart] at ht'
  cases ht'
  rw [ha] at hb
  cases hb
  exact hne rfl

theorem charge_refunds {g g' : PaymentGateway} {customerId key : String} {amount : Int}
    {paymentId : Nat} (h : g.charge customerId amount key = .ok (paymentId, g')) :
    g'.refunds = g.refunds := by
  obtain ⟨-, rfl⟩ | ⟨-, -, rfl⟩ := PaymentGateway.charge_eq_ok h <;> rfl

theorem Accounted.refunds_step (h : s.Accounted) (hpaying : Paying s s' t next) : s'.Refunds := by
  obtain ⟨c, hcall⟩ : ∃ c, s.calls.get? t = c := ⟨_, rfl⟩
  have hpart : s.partAt t = partOf c := by rw [OrderService.partAt, hcall]
  have hpayment := hcall ▸ hpaying.payment
  cases hpayment with
  | quiet hsame _ haccounts _ hgateway =>
    exact h.refunds.kept hpaying haccounts (by rw [hgateway]) fun id => by rw [hsame, hpart]
  | opened _ hnext _ _ haccounts _ hgateway =>
    refine h.refunds.kept hpaying haccounts (by rw [hgateway]) fun id => ?_
    rw [hnext, hpart]
    exact ⟨by rintro ⟨⟩, by rintro ⟨⟩⟩
  | charged hc hcharge hnext _ haccounts =>
    refine h.refunds.kept hpaying haccounts (charge_refunds hcharge) fun id => ?_
    rw [hnext, hpart, hc]
    exact ⟨by rintro ⟨⟩, by rintro ⟨⟩⟩
  | stored hc hnext _ haccounts _ hgateway =>
    refine h.refunds.written hpaying (fun id => ?_) (fun b hb => ?_) haccounts hnext hgateway
    · rw [hpart, hc]
      rintro ⟨⟩
    · rw [OrderService.accountOf, h.known.fresh] at hb
      cases hb
  | dropped hc hnext _ haccounts _ hgateway =>
    refine h.refunds.kept hpaying haccounts (by rw [hgateway]) fun id => ?_
    rw [hnext, hpart, hc]
    exact ⟨by rintro ⟨⟩, by rintro ⟨⟩⟩
  | moved ha hopen hnext _ haccounts _ hgateway =>
    refine h.refunds.written hpaying (fun id => ?_) (fun b hb => ?_) haccounts hnext hgateway
    · rw [hpart]
      rintro ⟨⟩
    · rw [ha] at hb
      cases hb
      exact hopen
  | refunded hc ha _ haccounts _ hgateway =>
    exact h.refunds.refund hpaying (hpart.trans hc) ha haccounts hgateway

theorem Accounted.act (h : s.Accounted) (op : Op) : (s.act op).2.Accounted := by
  obtain ⟨_, _, hturn⟩ := h.known.turn op
  have hrefunds : s.RefundsKnown := by
    intro t orderId hpart
    obtain ⟨a, ha, -⟩ := h.refunds.refunding t orderId hpart
    exact ⟨a, ha⟩
  obtain ⟨_, _, hpaying⟩ := paying_act h.known hrefunds op
  obtain ⟨hexclusive, hclaimed⟩ := h.asking_step hpaying
  obtain ⟨hrequests, haccounts⟩ := h.requests_step hpaying
  exact ⟨h.known.step hturn, hexclusive, hclaimed, h.booked_step hpaying, hrequests, haccounts,
    h.refunds_step hpaying⟩

/-! ## Every run -/

theorem new_accounted {partnerIds failCustomers : List String} {maxOrders : Int} :
    (new partnerIds maxOrders failCustomers).Accounted := by
  have hasking : (new partnerIds maxOrders failCustomers).asking = fun _ => none := by
    funext w
    cases w <;> rfl
  have hpaid : (new partnerIds maxOrders failCustomers).paid = fun _ => none := by
    funext w
    cases w <;> rfl
  refine ⟨new_known, hasking ▸ exclusive_none, fun r hr => ?_, ?_, by rintro _ _ ⟨⟩,
    by rintro _ _ ⟨⟩, ⟨by rintro _ _ ⟨⟩, by rintro _ _ ⟨⟩, by rintro _ _ ⟨⟩⟩⟩
  · rw [hasking] at hr
    exact absurd hr not_held_none
  · rw [hpaid]
    refine ⟨fun r total paymentId hr =>
      absurd hr not_held_none, by rintro _ _ ⟨⟩, by rintro _ _ _ ⟨⟩,
      by rintro _ _ ⟨⟩, by rintro _ _ ⟨⟩⟩

/-- The requests that have been charged, in calls and in orders, give different strings. -/
def KeysApart (s : OrderService) : Prop :=
  ∀ r x r' x', Held s.paid (r, x) → Held s.paid (r', x') → chargeKey r = chargeKey r' → r = r'

/-- The orders are paid by different charges, each of the total of its order. -/
def PaidApart (s : OrderService) : Prop :=
  (∀ id id' o o', s.orders.get? id = some o → s.orders.get? id' = some o' →
    o.paymentId = o'.paymentId → id = id') ∧
  ∀ id o, s.orders.get? id = some o → s.gateway.charges.get? o.paymentId = some o.total

/-- Every charge is of an order, and is refunded exactly when the order is over
    and not delivered. -/
def RefundedRight (s : OrderService) : Prop :=
  (∀ paymentId amount, s.gateway.charges.get? paymentId = some amount →
    ∃ id o, s.orders.get? id = some o ∧ o.paymentId = paymentId) ∧
  ∀ id o, s.orders.get? id = some o →
    ((s.gateway.refunds.get? o.paymentId).isSome ↔ o.status = .cancelled ∨ o.status = .rejected)

theorem Accounted.paid_order (h : s.Accounted) {o : Order} (ho : s.orders.get? orderId = some o) :
    ∃ r, s.requests.get? orderId = some r ∧ o.customerId = r.1 ∧
      s.paid (.order orderId) = some (r, o.total, o.paymentId) := by
  have ha : s.accountOf orderId = some o.account := by rw [accountOf, ho]; rfl
  obtain ⟨r, hr, hcustomer⟩ := h.requests orderId _ ha
  refine ⟨r, hr, hcustomer, ?_⟩
  rw [paid, hr, bind_some, ha]
  rfl

theorem Accounted.paidApart (h : s.Accounted) (hkeys : s.KeysApart) : s.PaidApart := by
  constructor
  · intro id id' o o' ho ho' hpayment
    obtain ⟨r, -, -, hpaid⟩ := h.paid_order ho
    obtain ⟨r', -, -, hpaid'⟩ := h.paid_order ho'
    rw [← hpayment] at hpaid'
    have hsame := h.booked.own_request hkeys ⟨_, hpaid⟩ ⟨_, hpaid'⟩
    subst hsame
    exact Owner.order.inj (h.exclusive _ _ r (asking_of_paid hpaid) (asking_of_paid hpaid'))
  · intro id o ho
    obtain ⟨r, -, -, hpaid⟩ := h.paid_order ho
    exact h.booked.own_amount (fun _ _ _ => h.paid_once) hkeys ⟨_, hpaid⟩

theorem isRefunded_iff {status : OrderStatus} :
    status.isRefunded = true ↔ status = .cancelled ∨ status = .rejected := by
  cases status <;> decide

theorem Accounted.refundedRight (h : s.Accounted) (hidle : s.calls = Dict.empty)
    (hapart : s.PaidApart) : s.RefundedRight := by
  have hpart : ∀ t, s.partAt t = none := by
    intro t
    rw [partAt, hidle]
    rfl
  constructor
  · intro paymentId amount hamount
    obtain ⟨k, hk⟩ := h.booked.charged paymentId amount hamount
    obtain ⟨r, total, ⟨w, hw⟩, -⟩ := h.booked.first k paymentId hk
    cases w with
    | thread =>
      rw [paid, hpart] at hw
      cases hw
    | order id =>
      obtain ⟨r', -, hw⟩ := bind_eq_some_iff.mp hw
      obtain ⟨a, ha, hw⟩ := map_eq_some_iff.mp hw
      obtain ⟨o, ho, rfl⟩ := map_eq_some_iff.mp ha
      cases hw
      exact ⟨id, o, ho, rfl⟩
  intro id o ho
  rw [← isRefunded_iff, isSome_iff_exists]
  constructor
  · rintro ⟨amount, hamount⟩
    obtain ⟨id', a, ha, hpayment, -, hrefunded⟩ := h.refunds.refunds _ _ hamount
    obtain ⟨o', ho', rfl⟩ := map_eq_some_iff.mp ha
    have hid := hapart.1 id' id o' o ho' ho hpayment
    subst hid
    rw [ho] at ho'
    cases ho'
    exact hrefunded
  · intro hrefunded
    have ha : s.accountOf id = some o.account := by rw [accountOf, ho]; rfl
    obtain hdone | ⟨t, ht⟩ := h.refunds.refunded id _ ha hrefunded
    · exact hdone
    · rw [hpart] at ht
      cases ht

theorem keysApart_idle (hidle : s.calls = Dict.empty)
    (hkeys : ∀ id id' r r', s.requests.get? id = some r → s.requests.get? id' = some r' →
      chargeKey r = chargeKey r' → r = r') : s.KeysApart := by
  have horder : ∀ r x, Held s.paid (r, x) → ∃ id, s.requests.get? id = some r := by
    rintro r x ⟨w, hw⟩
    cases w with
    | thread =>
      rw [paid, partAt, hidle] at hw
      cases hw
    | order id => exact ⟨id, asking_of_paid hw⟩
  intro r x r' x' hr hr'
  obtain ⟨id, hid⟩ := horder r x hr
  obtain ⟨id', hid'⟩ := horder r' x' hr'
  exact hkeys id id' r r' hid hid'

theorem Accounted.same_charge (h : s.Accounted) {id id' : Nat} {o o' : Order} {r' : Request}
    (ho : s.orders.get? id = some o) (ho' : s.orders.get? id' = some o')
    (hr : s.requests.get? id = some r) (hr' : s.requests.get? id' = some r')
    (hkey : chargeKey r = chargeKey r') : o.paymentId = o'.paymentId := by
  obtain ⟨_, hrequest, -, hpaid⟩ := h.paid_order ho
  obtain ⟨_, hrequest', -, hpaid'⟩ := h.paid_order ho'
  rw [hr] at hrequest
  cases hrequest
  rw [hr'] at hrequest'
  cases hrequest'
  have hcharge := h.booked.key r _ _ ⟨_, hpaid⟩
  rw [hkey, h.booked.key r' _ _ ⟨_, hpaid'⟩] at hcharge
  exact (some.inj hcharge).symm

/-- After any sections of any calls: a customer and a key have one order at most; where the requests
    charged give different strings, orders are paid by different charges of their totals; and
    between the calls charges and refunds are right exactly when the requests of the orders give
    different strings. -/
theorem run_paid (partnerIds failCustomers : List String) (maxOrders : Int) (ops : List Op) :
    ∃ answers s, runSteps OrderService.step (new partnerIds maxOrders failCustomers) ops =
        .ok (answers, s) ∧ (∀ id o, s.orders.get? id = some o →
        ∃ r, s.requests.get? id = some r ∧ o.customerId = r.1) ∧
      (∀ id id' r, s.requests.get? id = some r → s.requests.get? id' = some r → id = id') ∧
      (s.KeysApart → s.PaidApart) ∧ (s.calls = Dict.empty → ((s.PaidApart ∧ s.RefundedRight) ↔
        ∀ id id' r r', s.requests.get? id = some r → s.requests.get? id' = some r' →
          chargeKey r = chargeKey r' → r = r')) := by
  have hnew : (new partnerIds maxOrders failCustomers).Accounted := new_accounted
  have hact : ∀ (s : OrderService) (op : Op), s.Accounted → (s.act op).2.Accounted :=
    fun s op h => h.act op
  obtain ⟨answers, s, hrun, h⟩ := runSteps_total step_eq_act hact hnew ops
  refine ⟨answers, s, hrun, fun id o ho => ?_, fun id id' r hr hr' => ?_, h.paidApart, fun hidle =>
    ⟨?_, ?_⟩⟩
  · obtain ⟨r, hr, hcustomer, -⟩ := h.paid_order ho
    exact ⟨r, hr, hcustomer⟩
  · exact Owner.order.inj (h.exclusive (.order id) (.order id') r hr hr')
  · rintro ⟨hapart, -⟩ id id' r r' hr hr' hkey
    obtain ⟨a, ha⟩ := h.accounts id r hr
    obtain ⟨a', ha'⟩ := h.accounts id' r' hr'
    obtain ⟨o, ho, -⟩ := map_eq_some_iff.mp ha
    obtain ⟨o', ho', -⟩ := map_eq_some_iff.mp ha'
    have hid := hapart.1 id id' o o' ho ho' (h.same_charge ho ho' hr hr' hkey)
    subst hid
    rw [hr] at hr'
    exact some.inj hr'
  · intro hkeys
    have hapart := h.paidApart (keysApart_idle hidle hkeys)
    exact ⟨hapart, h.refundedRight hidle hapart⟩

/-- Two customers, with keys that give one string. -/
def twoCustomers : List Op :=
  [.placeOrder 0 ("a", "b:c") ⟨"R", [("I", 1)], none⟩, .price 0 (.ok 100), .go 0, .go 0, .go 0,
    .placeOrder 0 ("a:b", "c") ⟨"R", [("I", 2)], none⟩, .price 0 (.ok 200), .go 0, .go 0, .go 0]

/-- Their orders have one charge, and it is of the first total. -/
theorem run_charged_once :
    ∃ answers s o o', runSteps OrderService.step (new [] 1 []) twoCustomers = .ok (answers, s) ∧
      s.calls = Dict.empty ∧ s.orders.get? 1 = some o ∧ s.orders.get? 2 = some o' ∧
      o.paymentId = o'.paymentId ∧ s.gateway.charges.get? o'.paymentId = some 100 ∧
      o'.total = 200 := by
  obtain ⟨⟨answers, s⟩, hrun, hobserve⟩ := exists_ok_of_observe
    (x := runSteps OrderService.step (new [] 1 []) twoCustomers)
    (f := fun r => (r.2.calls.items, (r.2.orders.get? 1).map Order.paymentId,
      (r.2.orders.get? 2).map fun o => (o.paymentId, o.total), r.2.gateway.charges.get? 1))
    (b := ([], some 1, some (1, 200), some 100)) (by decide +kernel)
  obtain ⟨hcalls, hobserve⟩ := Prod.mk.inj hobserve
  obtain ⟨ho, hobserve⟩ := Prod.mk.inj hobserve
  obtain ⟨ho', hcharge⟩ := Prod.mk.inj hobserve
  obtain ⟨o, ho, hpayment⟩ := map_eq_some_iff.mp ho
  obtain ⟨o', ho', heq⟩ := map_eq_some_iff.mp ho'
  obtain ⟨hpayment', htotal⟩ := Prod.mk.inj heq
  refine ⟨answers, s, o, o', hrun, Dict.ext hcalls, ho, ho', ?_, ?_, htotal⟩
  · rw [hpayment, hpayment']
  · rw [hpayment', hcharge]

end OrderService

end InterviewPrep.FoodDelivery
