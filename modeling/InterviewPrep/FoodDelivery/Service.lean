/-
  An order with its state machine, and a delivery partner with the orders that it has claimed.
  Each method that takes a lock in the source is one function here.  `events` and `attachments`
  are the history of an order: the events of its transitions, and the partners attached to it.

  The order service over any number of threads: a call is a list of sections, each under one lock
  or reading one field, and a step is one section of one call.  `calls` has what is left of each
  call.

  The strategy is any function: what it ranks is a part of the step that asks it, and so is the
  pricing.  `requests` has the customer and the key that each order was placed for.
-/
import InterviewPrep.Lib.Dict
import InterviewPrep.Lib.Run

namespace InterviewPrep.FoodDelivery

open Lib

/-! ## The state machine -/

inductive OrderStatus where
  | placed
  | accepted
  | preparing
  | ready
  | pickedUp
  | delivered
  | cancelled
  | rejected
  deriving DecidableEq

namespace OrderStatus

def isTerminal : OrderStatus → Bool
  | delivered => true
  | cancelled => true
  | rejected => true
  | _ => false

/-- The states in which a partner may be attached: `DISPATCHABLE`. -/
def dispatchable : OrderStatus → Bool
  | accepted => true
  | preparing => true
  | ready => true
  | _ => false

/-- The order is over and not delivered: its charge is refunded. -/
def isRefunded : OrderStatus → Bool
  | cancelled => true
  | rejected => true
  | _ => false

end OrderStatus

inductive Actor where
  | customer
  | restaurant
  | partner
  | system
  deriving DecidableEq

/-- `TRANSITIONS`: who may move an order from one state to another. -/
def transitions : OrderStatus → OrderStatus → Option (List Actor)
  | .placed, .accepted => some [.restaurant]
  | .placed, .rejected => some [.restaurant, .system]
  | .accepted, .preparing => some [.restaurant]
  | .preparing, .ready => some [.restaurant]
  | .ready, .pickedUp => some [.partner]
  | .pickedUp, .delivered => some [.partner]
  | .placed, .cancelled => some [.customer, .system]
  | .accepted, .cancelled => some [.customer, .restaurant, .system]
  | .preparing, .cancelled => some [.restaurant, .system]
  | .ready, .cancelled => some [.restaurant, .system]
  | .pickedUp, .cancelled => some [.system]
  | _, _ => none

/-- What the methods raise. -/
inductive Thrown where
  | cartEmpty
  | idempotencyConflict (key : String)
  /-- The restaurant is closed, an item is missing, or the coupon is not valid. -/
  | notPriced (text : String)
  | paymentFailed (customerId : String)
  | invalidTransition (orderId : Nat) (old new : OrderStatus)
  | notAuthorized (actor : Actor) (orderId : Nat) (old new : OrderStatus)
  | notAssigned (partnerId : Option String) (orderId : Nat)
  | orderNotFound (orderId : Nat)
  | unknownPartner (partnerId : String)
  | noError
  deriving DecidableEq

structure OrderEvent where
  orderId : Nat
  seq : Nat
  oldStatus : Option OrderStatus
  newStatus : OrderStatus
  actor : Actor
  customerId : String
  restaurantId : String
  partnerId : Option String

structure Order where
  orderId : Nat
  customerId : String
  restaurantId : String
  total : Int
  paymentId : Nat
  status : OrderStatus
  partnerId : Option String
  seq : Nat
  history : List (OrderStatus × Actor)
  events : List OrderEvent
  attachments : List String

namespace Order

/-- A new order, with its `placed_event`. -/
def new (orderId : Nat) (customerId restaurantId : String) (total : Int)
    (paymentId : Nat) : Order :=
  { orderId := orderId
    customerId := customerId
    restaurantId := restaurantId
    total := total
    paymentId := paymentId
    status := .placed
    partnerId := none
    seq := 0
    history := [(.placed, .customer)]
    events := [⟨orderId, 0, none, .placed, .customer, customerId, restaurantId, none⟩]
    attachments := [] }

variable (o : Order)

/-- The checks of a transition. -/
def check (new : OrderStatus) (actor : Actor) (actorId : Option String) : Except Thrown Unit :=
  match transitions o.status new with
  | none => .error (.invalidTransition o.orderId o.status new)
  | some allowed =>
    if actor ∉ allowed then .error (.notAuthorized actor o.orderId o.status new)
    else if actor = .partner ∧ actorId ≠ o.partnerId then .error (.notAssigned actorId o.orderId)
    else .ok ()

/-- The partner that a transition releases. -/
def released (new : OrderStatus) : Option String :=
  if new.isTerminal ∧ new ≠ .delivered then o.partnerId else none

/-- The order after a transition that is allowed. -/
def moved (new : OrderStatus) (actor : Actor) : Order :=
  let partnerId := if new.isTerminal ∧ new ≠ .delivered then none else o.partnerId
  { o with
    partnerId := partnerId
    status := new
    seq := o.seq + 1
    history := o.history ++ [(new, actor)]
    events := o.events ++ [⟨o.orderId, o.seq + 1, some o.status, new, actor, o.customerId,
      o.restaurantId, if (o.released new).isNone then partnerId else o.released new⟩] }

/-- The partner to be released, and the order after the transition. -/
def transition (new : OrderStatus) (actor : Actor) (actorId : Option String) :
    Except Thrown (Option String × Order) :=
  match o.check new actor actorId with
  | .error thrown => .error thrown
  | .ok () => .ok (o.released new, o.moved new actor)

/-- `false` if the order cannot be dispatched, or has a partner. -/
def attachPartner (partnerId : String) : Bool × Order :=
  if !o.status.dispatchable ∨ o.partnerId ≠ none then (false, o)
  else (true, { o with
    partnerId := some partnerId, attachments := o.attachments ++ [partnerId] })

end Order

/-! ## Partners -/

structure DeliveryPartner where
  online : Bool
  /-- The restaurant of every active order. -/
  active : Dict Nat String
  pickedUp : Bool

namespace DeliveryPartner

variable (p : DeliveryPartner)

/-- A claim is refused. -/
def refuses (orderId : Nat) (restaurantId : String) (maxOrders : Int) : Bool :=
  !p.online || (p.active.get? orderId).isSome ||
    (p.active.items ≠ [] && ((p.active.size : Int) ≥ maxOrders || p.pickedUp ||
      p.active.values.any fun r => r ≠ restaurantId))

/-- The partner with one more active order, unless the claim is refused. -/
def tryClaim (orderId : Nat) (restaurantId : String) (maxOrders : Int) : Option DeliveryPartner :=
  if p.refuses orderId restaurantId maxOrders then none
  else some { p with active := p.active.set orderId restaurantId }

def markPickedUp (orderId : Nat) : DeliveryPartner :=
  if (p.active.get? orderId).isSome then { p with pickedUp := true } else p

def release (orderId : Nat) : DeliveryPartner :=
  let active := p.active.erase orderId
  { p with
    active := active
    pickedUp := if active.items = [] then false else p.pickedUp }

end DeliveryPartner

/-! ## Payments -/

/-- `FakePaymentGateway`, with payment ids as numbers. -/
structure PaymentGateway where
  fail : List String
  byKey : Dict String Nat
  charges : Dict Nat Int
  refunds : Dict Nat Int
  next : Nat

namespace PaymentGateway

variable (g : PaymentGateway)

def charge (customerId : String) (amount : Int) (idempotencyKey : String) :
    Except Thrown (Nat × PaymentGateway) :=
  if customerId ∈ g.fail then .error (.paymentFailed customerId)
  else
    match g.byKey.get? idempotencyKey with
    | some pid => .ok (pid, g)
    | none => .ok (g.next, { g with
        byKey := g.byKey.set idempotencyKey g.next
        charges := g.charges.set g.next amount
        next := g.next + 1 })

def refund (paymentId : Nat) (amount : Int) : PaymentGateway :=
  match g.refunds.get? paymentId with
  | some _ => g
  | none => { g with refunds := g.refunds.set paymentId amount }

end PaymentGateway

/-! ## Calls -/

/-- What a request to place an order says: the fingerprint of the cart. -/
structure Body where
  restaurantId : String
  quantities : List (String × Int)
  coupon : Option String
  deriving DecidableEq

structure IdempotencySlot where
  fingerprint : Body
  done : Bool
  order : Option Nat
  error : Option Thrown

/-- The customer and the idempotency key of a request. -/
abbrev Request := String × String

/-- What is left of a call. -/
inductive Call where
  /-- `place_order`: the cart is to be priced, charged and stored. -/
  | pricing (slot : Nat) (request : Request) (body : Body)
  | charging (slot : Nat) (request : Request) (body : Body) (total : Int)
  | storing (slot : Nat) (request : Request) (body : Body) (total : Int) (paymentId : Nat)
  | storedOrder (slot : Nat) (orderId : Nat)
  /-- `place_order` has failed: the slot is to be dropped, and the waiting calls woken. -/
  | dropping (slot : Nat) (request : Request) (thrown : Thrown)
  | failing (slot : Nat) (thrown : Thrown)
  /-- `place_order` waits for another call with its key. -/
  | waiting (slot : Nat)
  /-- `dispatch`: the partner and the status of the order are to be read. -/
  | readPartner (orderId : Nat)
  | readStatus (orderId : Nat)
  | ranking (orderId : Nat)
  | claiming (orderId : Nat) (restaurantId : String) (candidates : List String)
  | attaching (orderId : Nat) (partnerId : String)
  | givingBack (orderId : Nat) (partnerId : String)
  | marking (orderId : Nat) (partnerId : String)
  /-- The order has ended, its partner is to be released; then the charge refunded. -/
  | releasing (orderId : Nat) (partnerId : String) (refund : Bool)
  | refunding (orderId : Nat)
  deriving DecidableEq

inductive Op where
  | placeOrder (thread : Nat) (request : Request) (body : Body)
  /-- The pricing of a cart: its total, or why there is none. -/
  | price (thread : Nat) (outcome : Except String Int)
  | accept (thread orderId : Nat)
  | reject (thread orderId : Nat) (actor : Actor)
  | startPreparing (thread orderId : Nat)
  | markReady (thread orderId : Nat)
  | pickUp (thread orderId : Nat) (partnerId : String)
  | deliver (thread orderId : Nat) (partnerId : String)
  | cancel (thread orderId : Nat) (actor : Actor)
  | dispatch (thread orderId : Nat)
  /-- The strategy ranks the partners. -/
  | rank (thread : Nat) (candidates : List String)
  | setOnline (partnerId : String) (online : Bool)
  /-- The next section of the call of a thread. -/
  | go (thread : Nat)

inductive Answer where
  /-- The call goes on. -/
  | going
  | done
  | order (orderId : Nat)
  | partner (partnerId : Option String)
  | threw (thrown : Thrown)
  /-- The step is not one that can be taken now. -/
  | disabled

/-! ## The service -/

structure OrderService where
  orders : Dict Nat Order
  partners : Dict String DeliveryPartner
  /-- `max_orders_per_partner` of the strategy. -/
  maxOrders : Int
  gateway : PaymentGateway
  idem : Dict Request Nat
  slots : Dict Nat IdempotencySlot
  nextSlot : Nat
  nextOrder : Nat
  calls : Dict Nat Call
  requests : Dict Nat Request

namespace OrderService

/-- A service with its partners, all of them online and idle. -/
def new (partnerIds : List String) (maxOrders : Int) (failCustomers : List String) : OrderService :=
  { orders := Dict.empty
    partners := Dict.ofList (partnerIds.map fun id => (id, ⟨true, Dict.empty, false⟩))
    maxOrders := maxOrders
    gateway := ⟨failCustomers, Dict.empty, Dict.empty, Dict.empty, 1⟩
    idem := Dict.empty
    slots := Dict.empty
    nextSlot := 0
    nextOrder := 1
    calls := Dict.empty
    requests := Dict.empty }

variable (s : OrderService)

/-- The call of a thread goes on, or ends. -/
def resume (thread : Nat) (next : Option Call) : OrderService :=
  { s with calls := s.calls.put thread next }

/-- The string that the gateway dedups a request on. -/
def chargeKey (request : Request) : String := request.1 ++ ":" ++ request.2

/-- The first section of `place_order`, and the check of the fingerprint. -/
def placeOrder (thread : Nat) (request : Request) (body : Body) : Answer × OrderService :=
  if body.quantities = [] then (.threw .cartEmpty, s)
  else
    match (s.idem.get? request).bind fun id => (s.slots.get? id).map (id, ·) with
    | none =>
      (.going, { s with
        idem := s.idem.set request s.nextSlot
        slots := s.slots.set s.nextSlot ⟨body, false, none, none⟩
        nextSlot := s.nextSlot + 1
        calls := s.calls.set thread (.pricing s.nextSlot request body) })
    | some (id, slot) =>
      if slot.fingerprint ≠ body then (.threw (.idempotencyConflict request.2), s)
      else (.going, s.resume thread (some (.waiting id)))

/-- A transition of an order, and how its call goes on. -/
def move (thread orderId : Nat) (new : OrderStatus) (actor : Actor) (actorId : Option String)
    (next : Option String → Option Call) : Answer × OrderService :=
  match s.orders.get? orderId with
  | none => (.threw (.orderNotFound orderId), s)
  | some o =>
    match o.transition new actor actorId with
    | .error thrown => (.threw thrown, s)
    | .ok (released, o') =>
      (if (next released).isSome then .going else .done,
        OrderService.resume { s with orders := s.orders.set orderId o' } thread (next released))

/-- After a cancellation or a rejection: release the partner, refund the charge. -/
def undo (orderId : Nat) (released : Option String) : Option Call :=
  match released with
  | none => some (.refunding orderId)
  | some partnerId => some (.releasing orderId partnerId true)

/-- A partner is changed under its lock. -/
def setPartner (partnerId : String) (p : DeliveryPartner) : OrderService :=
  { s with partners := s.partners.set partnerId p }

/-- The next section of a call of `dispatch`. -/
def goDispatch (thread : Nat) : Call → Answer × OrderService
  | .readPartner orderId =>
    match s.orders.get? orderId with
    | none => (.threw (.orderNotFound orderId), s.resume thread none)
    | some o =>
      if o.partnerId ≠ none then (.partner none, s.resume thread none)
      else (.going, s.resume thread (some (.readStatus orderId)))
  | .readStatus orderId =>
    match s.orders.get? orderId with
    | none => (.threw (.orderNotFound orderId), s.resume thread none)
    | some o =>
      if !o.status.dispatchable then (.partner none, s.resume thread none)
      else (.going, s.resume thread (some (.ranking orderId)))
  | .claiming _ _ [] => (.partner none, s.resume thread none)
  | .claiming orderId restaurantId (partnerId :: rest) =>
    match s.partners.get? partnerId with
    | none => (.threw (.unknownPartner partnerId), s.resume thread none)
    | some p =>
      match p.tryClaim orderId restaurantId s.maxOrders with
      | none => (.going, s.resume thread (some (.claiming orderId restaurantId rest)))
      | some p' =>
        (.going, (s.setPartner partnerId p').resume thread
          (some (.attaching orderId partnerId)))
  | .attaching orderId partnerId =>
    match s.orders.get? orderId with
    | none => (.threw (.orderNotFound orderId), s.resume thread none)
    | some o =>
      match o.attachPartner partnerId with
      | (true, o') =>
        (.partner (some partnerId),
          OrderService.resume { s with orders := s.orders.set orderId o' } thread none)
      | (false, _) => (.going, s.resume thread (some (.givingBack orderId partnerId)))
  | .givingBack orderId partnerId =>
    match s.partners.get? partnerId with
    | none => (.threw (.unknownPartner partnerId), s.resume thread none)
    | some p => (.partner none, (s.setPartner partnerId (p.release orderId)).resume thread none)
  | _ => (.disabled, s)

/-- The next section of a call that has moved an order. -/
def goMoved (thread : Nat) : Call → Answer × OrderService
  | .marking orderId partnerId =>
    match s.partners.get? partnerId with
    | none => (.threw (.unknownPartner partnerId), s.resume thread none)
    | some p => (.done, (s.setPartner partnerId (p.markPickedUp orderId)).resume thread none)
  | .releasing orderId partnerId refund =>
    match s.partners.get? partnerId with
    | none => (.threw (.unknownPartner partnerId), s.resume thread none)
    | some p =>
      (if refund then .going else .done, (s.setPartner partnerId (p.release orderId)).resume thread
        (if refund then some (.refunding orderId) else none))
  | .refunding orderId =>
    match s.orders.get? orderId with
    | none => (.threw (.orderNotFound orderId), s.resume thread none)
    | some o =>
      (.done, OrderService.resume
        { s with gateway := s.gateway.refund o.paymentId o.total } thread none)
  | _ => (.disabled, s)

/-- The next section of a call of `place_order`. -/
def goPlace (thread : Nat) : Call → Answer × OrderService
  | .charging slot request body total =>
    match s.gateway.charge request.1 total (chargeKey request) with
    | .error thrown => (.going, s.resume thread (some (.dropping slot request thrown)))
    | .ok (paymentId, gateway) =>
      (.going, OrderService.resume { s with gateway := gateway } thread
        (some (.storing slot request body total paymentId)))
  | .storing slot request body total paymentId =>
    (.going, OrderService.resume { s with
      orders := s.orders.set s.nextOrder
        (Order.new s.nextOrder request.1 body.restaurantId total paymentId)
      requests := s.requests.set s.nextOrder request
      nextOrder := s.nextOrder + 1 } thread (some (.storedOrder slot s.nextOrder)))
  | .storedOrder slot orderId =>
    match s.slots.get? slot with
    | none => (.disabled, s)
    | some v =>
      (.order orderId, OrderService.resume { s with
        slots := s.slots.set slot { v with order := some orderId, done := true } } thread none)
  | .dropping slot request thrown =>
    match s.slots.get? slot with
    | none => (.disabled, s)
    | some v =>
      (.going, OrderService.resume { s with
        slots := s.slots.set slot { v with error := some thrown }
        idem := s.idem.erase request } thread (some (.failing slot thrown)))
  | .failing slot thrown =>
    match s.slots.get? slot with
    | none => (.disabled, s)
    | some v =>
      (.threw thrown, OrderService.resume { s with
        slots := s.slots.set slot { v with done := true } } thread none)
  | .waiting slot =>
    match s.slots.get? slot with
    | none => (.disabled, s)
    | some v =>
      if !v.done then (.disabled, s)
      else
        match v.order with
        | some orderId => (.order orderId, s.resume thread none)
        | none => (.threw (v.error.getD .noError), s.resume thread none)
  | _ => (.disabled, s)

/-- The next section of any call. -/
def go (thread : Nat) (call : Call) : Answer × OrderService :=
  match call with
  | .readPartner _ | .readStatus _ | .claiming _ _ _ | .attaching _ _ | .givingBack _ _ =>
    s.goDispatch thread call
  | .marking _ _ | .releasing _ _ _ | .refunding _ => s.goMoved thread call
  | .charging _ _ _ _ | .storing _ _ _ _ _ | .storedOrder _ _ | .dropping _ _ _ | .failing _ _
  | .waiting _ => s.goPlace thread call
  | .pricing _ _ _ | .ranking _ => (.disabled, s)

/-- A call starts on a thread that is within none. -/
def start (thread : Nat) (first : Answer × OrderService) : Answer × OrderService :=
  if (s.calls.get? thread).isSome then (.disabled, s) else first

def act : Op → Answer × OrderService
  | .placeOrder thread request body => s.start thread (s.placeOrder thread request body)
  | .price thread outcome =>
    match s.calls.get? thread with
    | some (.pricing slot request body) =>
      (.going, s.resume thread (some (match outcome with
        | .error text => .dropping slot request (.notPriced text)
        | .ok total => .charging slot request body total)))
    | _ => (.disabled, s)
  | .accept thread orderId =>
    s.start thread (s.move thread orderId .accepted .restaurant none
      fun _ => some (.readPartner orderId))
  | .reject thread orderId actor =>
    s.start thread (s.move thread orderId .rejected actor none (undo orderId))
  | .startPreparing thread orderId =>
    s.start thread (s.move thread orderId .preparing .restaurant none fun _ => none)
  | .markReady thread orderId =>
    s.start thread (s.move thread orderId .ready .restaurant none fun _ => none)
  | .pickUp thread orderId partnerId =>
    s.start thread (s.move thread orderId .pickedUp .partner (some partnerId)
      fun _ => some (.marking orderId partnerId))
  | .deliver thread orderId partnerId =>
    s.start thread (s.move thread orderId .delivered .partner (some partnerId)
      fun _ => some (.releasing orderId partnerId false))
  | .cancel thread orderId actor =>
    s.start thread (s.move thread orderId .cancelled actor none (undo orderId))
  | .dispatch thread orderId =>
    s.start thread (.going, s.resume thread (some (.readPartner orderId)))
  | .rank thread candidates =>
    match s.calls.get? thread with
    | some (.ranking orderId) =>
      match s.orders.get? orderId with
      | none => (.threw (.orderNotFound orderId), s.resume thread none)
      | some o =>
        (.going, s.resume thread (some (.claiming orderId o.restaurantId candidates)))
    | _ => (.disabled, s)
  | .setOnline partnerId online =>
    match s.partners.get? partnerId with
    | none => (.threw (.unknownPartner partnerId), s)
    | some p => (.done, s.setPartner partnerId { p with online := online })
  | .go thread =>
    match s.calls.get? thread with
    | none => (.disabled, s)
    | some call => s.go thread call

def step (s : OrderService) (op : Op) : Except Empty (Answer × OrderService) := .ok (s.act op)

end OrderService

end InterviewPrep.FoodDelivery
