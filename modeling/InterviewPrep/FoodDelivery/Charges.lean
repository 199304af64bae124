/-
  What one section of a call does to the slots, the orders' accounts and the gateway (`Payment`).
  A call has a part in it while it owns a slot, while it has charged an order that is not stored
  yet, and while it has a charge to refund.
-/
import InterviewPrep.FoodDelivery.Agreement

namespace InterviewPrep.FoodDelivery

open Lib Dict Option

/-! ## Parts -/

/-- The part of a call in the payments. -/
inductive Part where
  /-- The call owns the slot of a request that is not charged. -/
  | owner (request : Request)
  /-- The call has charged the request, and is to store the order. -/
  | payer (request : Request) (total : Int) (paymentId : Nat)
  /-- The call is to refund the charge of the order. -/
  | refunder (orderId : Nat)

def Call.part : Call → Option Part
  | .pricing _ request _ => some (.owner request)
  | .charging _ request _ _ => some (.owner request)
  | .dropping _ request _ => some (.owner request)
  | .storing _ request _ total paymentId => some (.payer request total paymentId)
  | .releasing orderId _ true => some (.refunder orderId)
  | .refunding orderId => some (.refunder orderId)
  | _ => none

def partOf (c : Option Call) : Option Part := c.bind Call.part

@[simp] theorem partOf_none : partOf none = none := rfl

@[simp] theorem partOf_some (c : Call) : partOf (some c) = c.part := rfl

/-- What the payments depend on of an order. -/
structure Account where
  customerId : String
  total : Int
  paymentId : Nat
  refunded : Bool

def Order.account (o : Order) : Account :=
  ⟨o.customerId, o.total, o.paymentId, o.status.isRefunded⟩

/-! ## The effect of a section -/

namespace OrderService

def partAt (s : OrderService) (t : Nat) : Option Part := partOf (s.calls.get? t)

def accountOf (s : OrderService) (orderId : Nat) : Option Account :=
  (s.orders.get? orderId).map Order.account

/-- What a section does to the payments, its call being `c` before it and `next` after. -/
inductive Payment (s s' : OrderService) : Option Call → Option Call → Prop
  | quiet {c next : Option Call} (hpart : partOf next = partOf c) (hidem : s'.idem = s.idem)
      (haccounts : ∀ orderId, s'.accountOf orderId = s.accountOf orderId)
      (hrequests : s'.requests = s.requests) (hgateway : s'.gateway = s.gateway) :
      Payment s s' c next
  | opened {next : Option Call} {request : Request}
      (hfree : ∀ id, s.idem.get? request = some id → s.slots.get? id = none)
      (hnext : partOf next = some (.owner request))
      (hidem : s'.idem = s.idem.set request s.nextSlot)
      (hslot : ∃ slot, s'.slots.get? s.nextSlot = some slot)
      (haccounts : ∀ orderId, s'.accountOf orderId = s.accountOf orderId)
      (hrequests : s'.requests = s.requests) (hgateway : s'.gateway = s.gateway) :
      Payment s s' none next
  | charged {c next : Option Call} {request : Request} {total : Int} {paymentId : Nat}
      (hc : partOf c = some (.owner request))
      (hcharge : s.gateway.charge request.1 total (chargeKey request) =
        .ok (paymentId, s'.gateway))
      (hnext : partOf next = some (.payer request total paymentId)) (hidem : s'.idem = s.idem)
      (haccounts : ∀ orderId, s'.accountOf orderId = s.accountOf orderId)
      (hrequests : s'.requests = s.requests) : Payment s s' c next
  | stored {c next : Option Call} {request : Request} {total : Int} {paymentId : Nat}
      (hc : partOf c = some (.payer request total paymentId)) (hnext : partOf next = none)
      (hidem : s'.idem = s.idem)
      (haccounts : ∀ orderId, s'.accountOf orderId =
        if orderId = s.nextOrder then some ⟨request.1, total, paymentId, false⟩
        else s.accountOf orderId)
      (hrequests : s'.requests = s.requests.set s.nextOrder request)
      (hgateway : s'.gateway = s.gateway) : Payment s s' c next
  | dropped {c next : Option Call} {request : Request} (hc : partOf c = some (.owner request))
      (hnext : partOf next = none) (hidem : s'.idem = s.idem.erase request)
      (haccounts : ∀ orderId, s'.accountOf orderId = s.accountOf orderId)
      (hrequests : s'.requests = s.requests) (hgateway : s'.gateway = s.gateway) :
      Payment s s' c next
  | moved {next : Option Call} {orderId : Nat} {a : Account} {refunded : Bool}
      (ha : s.accountOf orderId = some a) (hopen : a.refunded = false)
      (hnext : partOf next = if refunded then some (.refunder orderId) else none)
      (hidem : s'.idem = s.idem)
      (haccounts : ∀ id, s'.accountOf id =
        if id = orderId then some { a with refunded := refunded } else s.accountOf id)
      (hrequests : s'.requests = s.requests) (hgateway : s'.gateway = s.gateway) :
      Payment s s' none next
  | refunded {c : Option Call} {orderId : Nat} {a : Account}
      (hc : partOf c = some (.refunder orderId)) (ha : s.accountOf orderId = some a)
      (hidem : s'.idem = s.idem)
      (haccounts : ∀ id, s'.accountOf id = s.accountOf id) (hrequests : s'.requests = s.requests)
      (hgateway : s'.gateway = s.gateway.refund a.paymentId a.total) : Payment s s' c none

/-- A section of the call of the thread `t`, in the payments. -/
structure Paying (s s' : OrderService) (t : Nat) (next : Option Call) : Prop where
  calls : s'.calls = s.calls.put t next
  slots : ∀ id slot, s.slots.get? id = some slot → ∃ slot', s'.slots.get? id = some slot'
  payment : Payment s s' (s.calls.get? t) next

/-- The calls that are to refund a charge know its order. -/
def RefundsKnown (s : OrderService) : Prop :=
  ∀ t orderId, s.partAt t = some (.refunder orderId) → ∃ a, s.accountOf orderId = some a

variable {s s' : OrderService} {t orderId : Nat} {c next : Option Call} {call : Call}

theorem Paying.quiet (hcall : s.calls.get? t = c) (hpart : partOf next = partOf c)
    (hcalls : s'.calls = s.calls.put t next)
    (hslots : ∀ id slot, s.slots.get? id = some slot → ∃ slot', s'.slots.get? id = some slot')
    (hidem : s'.idem = s.idem) (haccounts : ∀ orderId, s'.accountOf orderId = s.accountOf orderId)
    (hrequests : s'.requests = s.requests) (hgateway : s'.gateway = s.gateway) :
    Paying s s' t next :=
  ⟨hcalls, hslots, .quiet (by rw [hcall, hpart]) hidem haccounts hrequests hgateway⟩

theorem Paying.same (s : OrderService) (t : Nat) : Paying s s t (s.calls.get? t) :=
  .quiet rfl rfl (put_self rfl).symm (fun _ slot h => ⟨slot, h⟩) rfl (fun _ => rfl) rfl rfl

theorem Paying.resume (hcall : s.calls.get? t = c) (hpart : partOf next = partOf c) :
    Paying s (s.resume t next) t next :=
  .quiet hcall hpart rfl (fun _ slot h => ⟨slot, h⟩) rfl (fun _ => rfl) rfl rfl

theorem Paying.slot {id : Nat} {slot : IdempotencySlot} (hcall : s.calls.get? t = c)
    (hpart : partOf next = partOf c) :
    Paying s (OrderService.resume { s with slots := s.slots.set id slot } t next) t next :=
  .quiet hcall hpart rfl (fun _ _ h => get?_set_isSome h) rfl (fun _ => rfl) rfl rfl

theorem paying_placeOrder (hcall : s.calls.get? t = none) (request : Request) (body : Body) :
    ∃ next, Paying s (s.placeOrder t request body).2 t next := by
  have hsame : ∃ next, Paying s s t next := ⟨_, .same s t⟩
  rw [OrderService.placeOrder]
  split
  · exact hsame
  split
  next hfree =>
    refine ⟨some (.pricing s.nextSlot request body), rfl, fun _ _ h => get?_set_isSome h, ?_⟩
    rw [hcall]
    refine .opened (fun id hid => ?_) rfl rfl ⟨_, get?_set_self _ _ _⟩
      (fun _ => rfl) rfl rfl
    rw [hid] at hfree
    exact map_eq_none_iff.mp hfree
  · split
    · exact hsame
    · exact ⟨_, .resume hcall rfl⟩

theorem accountOf_set {o : Order} {id : Nat} (horders : s'.orders = s.orders.set orderId o) :
    s'.accountOf id = if id = orderId then some o.account else s.accountOf id := by
  rw [accountOf, horders, get?_set]
  split <;> rfl

theorem isRefunded_of_open {status : OrderStatus} (h : status.isTerminal = false) :
    status.isRefunded = false := by
  cases status <;> first | rfl | cases h

theorem paying_move (hcall : s.calls.get? t = none) (orderId : Nat) (status : OrderStatus)
    (actor : Actor) (actorId : Option String) {goesOn : Option String → Option Call}
    (hgoesOn : ∀ released, partOf (goesOn released) =
      if status.isRefunded then some (.refunder orderId) else none) :
    ∃ next, Paying s (s.move t orderId status actor actorId goesOn).2 t next := by
  have hsame : ∃ next, Paying s s t next := ⟨_, .same s t⟩
  rw [OrderService.move]
  split
  · exact hsame
  next ord hord =>
  split
  · exact hsame
  next released _ htrans =>
  obtain ⟨⟨allowed, hallowed, -⟩, -, -, rfl⟩ := Order.transition_eq_ok htrans
  refine ⟨goesOn released, rfl, fun _ slot h => ⟨slot, h⟩, ?_⟩
  rw [hcall]
  refine .moved (a := ord.account) ?_ (isRefunded_of_open (not_terminal_of_transitions hallowed))
    (hgoesOn released) rfl (fun id => accountOf_set (o := ord.moved status actor) rfl) rfl rfl
  rw [accountOf, hord]
  rfl

theorem paying_goDispatch (hcall : s.calls.get? t = some call) :
    ∃ next, Paying s (s.goDispatch t call).2 t next := by
  have hsame : ∃ next, Paying s s t next := ⟨_, .same s t⟩
  cases call with
  | readPartner orderId | readStatus orderId =>
    rw [OrderService.goDispatch]
    split
    · exact ⟨_, .resume hcall rfl⟩
    · split <;> exact ⟨_, .resume hcall rfl⟩
  | claiming orderId _ candidates =>
    cases candidates with
    | nil => exact ⟨_, .resume hcall rfl⟩
    | cons partnerId =>
      rw [OrderService.goDispatch]
      split
      · exact ⟨_, .resume hcall rfl⟩
      split
      · exact ⟨_, .resume hcall rfl⟩
      · exact ⟨some (.attaching orderId partnerId), .quiet hcall rfl rfl
          (fun _ slot h => ⟨slot, h⟩) rfl (fun _ => rfl) rfl rfl⟩
  | attaching =>
    rw [OrderService.goDispatch]
    split
    · exact ⟨_, .resume hcall rfl⟩
    next hord =>
    split
    next hattach =>
      obtain ⟨-, -, rfl⟩ := Order.attachPartner_eq_true hattach
      refine ⟨none, .quiet hcall rfl rfl (fun _ slot h => ⟨slot, h⟩) rfl (fun id => ?_) rfl rfl⟩
      rw [accountOf_set rfl]
      split
      next heq =>
        rw [heq, accountOf, hord]
        rfl
      · rfl
    · exact ⟨_, .resume hcall rfl⟩
  | givingBack =>
    rw [OrderService.goDispatch]
    split
    · exact ⟨_, .resume hcall rfl⟩
    · exact ⟨none, .quiet hcall rfl rfl (fun _ slot h => ⟨slot, h⟩) rfl (fun _ => rfl) rfl rfl⟩
  | _ => exact hsame

theorem paying_goMoved (hknown : s.Known) (hrefunds : s.RefundsKnown)
    (hcall : s.calls.get? t = some call) : ∃ next, Paying s (s.goMoved t call).2 t next := by
  have hsame : ∃ next, Paying s s t next := ⟨_, .same s t⟩
  have hrole : s.roleAt t = call.role := by rw [roleAt, hcall, roleOf_some]
  cases call with
  | marking =>
    rw [OrderService.goMoved]
    split
    · exact ⟨_, .resume hcall rfl⟩
    · exact ⟨none, .quiet hcall rfl rfl (fun _ slot h => ⟨slot, h⟩) rfl (fun _ => rfl) rfl rfl⟩
  | releasing orderId _ refund =>
    obtain ⟨-, p, hp⟩ := hknown.roles t _ _ _ hrole
    rw [OrderService.goMoved, hp]
    refine ⟨if refund then some (.refunding orderId) else none, .quiet hcall ?_ rfl
      (fun _ slot h => ⟨slot, h⟩) rfl (fun _ => rfl) rfl rfl⟩
    cases refund <;> rfl
  | refunding orderId =>
    obtain ⟨a, ha⟩ := hrefunds t orderId (by rw [partAt, hcall]; rfl)
    obtain ⟨o, ho, rfl⟩ := map_eq_some_iff.mp ha
    rw [OrderService.goMoved, ho]
    refine ⟨none, rfl, fun _ slot h => ⟨slot, h⟩, ?_⟩
    rw [hcall]
    exact .refunded rfl ha rfl (fun _ => rfl) rfl rfl
  | _ => exact hsame

theorem paying_goPlace (hcall : s.calls.get? t = some call) :
    ∃ next, Paying s (s.goPlace t call).2 t next := by
  have hsame : ∃ next, Paying s s t next := ⟨_, .same s t⟩
  cases call with
  | charging slot request body total =>
    rw [OrderService.goPlace]
    split
    · exact ⟨_, .resume hcall rfl⟩
    next paymentId _ hcharge =>
      refine ⟨some (.storing slot request body total paymentId), rfl, fun _ slot h => ⟨slot, h⟩, ?_⟩
      rw [hcall]
      exact .charged rfl hcharge rfl rfl (fun _ => rfl) rfl
  | storing slot request body total paymentId =>
    refine ⟨some (.storedOrder slot s.nextOrder), rfl, fun _ slot h => ⟨slot, h⟩, ?_⟩
    rw [hcall]
    exact .stored rfl rfl rfl (fun id => accountOf_set
      (o := Order.new s.nextOrder request.1 body.restaurantId total paymentId) rfl) rfl rfl
  | storedOrder slot orderId | failing slot thrown =>
    rw [OrderService.goPlace]
    split
    · exact hsame
    · exact ⟨none, .slot hcall rfl⟩
  | dropping slot _ thrown =>
    rw [OrderService.goPlace]
    split
    · exact hsame
    · refine ⟨some (.failing slot thrown), rfl, fun _ _ h => get?_set_isSome h, ?_⟩
      rw [hcall]
      exact .dropped rfl rfl rfl (fun _ => rfl) rfl rfl
  | waiting =>
    rw [OrderService.goPlace]
    split
    · exact hsame
    split
    · exact hsame
    split <;> exact ⟨none, .resume hcall rfl⟩
  | _ => exact hsame

theorem paying_start {first : Answer × OrderService}
    (hfirst : s.calls.get? t = none → ∃ next, Paying s first.2 t next) :
    ∃ next, Paying s (s.start t first).2 t next := by
  rw [OrderService.start]
  split
  · exact ⟨_, .same s t⟩
  next hcall =>
  rw [Bool.not_eq_true, isSome_eq_false_iff, isNone_iff_eq_none] at hcall
  exact hfirst hcall

theorem partOf_undo (orderId : Nat) (released : Option String) :
    partOf (undo orderId released) = some (.refunder orderId) := by
  cases released <;> rfl

theorem paying_act (hknown : s.Known) (hrefunds : s.RefundsKnown) (op : Op) :
    ∃ t next, Paying s (s.act op).2 t next := by
  cases op with
  | placeOrder t request body =>
    exact ⟨t, paying_start fun hcall => paying_placeOrder hcall request body⟩
  | price t outcome =>
    refine ⟨t, ?_⟩
    rw [act]
    split
    next hcall => cases outcome <;> exact ⟨_, .resume hcall rfl⟩
    · exact ⟨_, .same s t⟩
  | accept t orderId | startPreparing t orderId | markReady t orderId
  | pickUp t orderId partnerId | deliver t orderId partnerId =>
    exact ⟨t, paying_start fun hcall => paying_move hcall orderId _ _ _ fun _ => rfl⟩
  | reject t orderId =>
    exact ⟨t, paying_start fun hcall => paying_move hcall orderId _ _ _ (partOf_undo orderId)⟩
  | cancel t orderId =>
    exact ⟨t, paying_start fun hcall => paying_move hcall orderId _ _ _ (partOf_undo orderId)⟩
  | dispatch t => exact ⟨t, paying_start fun hcall => ⟨_, .resume hcall rfl⟩⟩
  | rank t =>
    refine ⟨t, ?_⟩
    rw [act]
    split
    next hcall => split <;> exact ⟨_, .resume hcall rfl⟩
    · exact ⟨_, .same s t⟩
  | setOnline =>
    rw [act]
    split
    · exact ⟨0, _, .same s 0⟩
    · exact ⟨0, s.calls.get? 0, .quiet rfl rfl (put_self rfl).symm (fun _ slot h => ⟨slot, h⟩)
        rfl (fun _ => rfl) rfl rfl⟩
  | go t =>
    refine ⟨t, ?_⟩
    rw [act]
    split
    · exact ⟨_, .same s t⟩
    next call hcall =>
    have hdispatch := paying_goDispatch hcall
    have hmoved := paying_goMoved hknown hrefunds hcall
    have hplace := paying_goPlace hcall
    cases call with
    | readPartner | readStatus | claiming | attaching | givingBack => exact hdispatch
    | marking | releasing | refunding => exact hmoved
    | _ => exact hplace

end OrderService

end InterviewPrep.FoodDelivery
