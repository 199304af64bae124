/-
  What one section of a call does to the orders, the partners and the calls (`Effect`).
  `Known.turn` is the one place where the calls are unfolded; what is proved of the orders
  and the partners in every state is proved of the effects.
-/
import InterviewPrep.FoodDelivery.Service

namespace InterviewPrep.FoodDelivery

open Lib Dict Option

/-! ## Calls with an order and a partner -/

/-- Why a call is about an order and a partner. -/
inductive Role where
  /-- A dispatch has claimed the partner for the order. -/
  | dispatching
  /-- The order has ended, the partner is not released yet. -/
  | leaving
  /-- The order has been picked up, the partner is not marked yet. -/
  | marking
  deriving DecidableEq

def Call.role : Call → Option (Role × Nat × String)
  | .attaching orderId partnerId => some (.dispatching, orderId, partnerId)
  | .givingBack orderId partnerId => some (.dispatching, orderId, partnerId)
  | .releasing orderId partnerId _ => some (.leaving, orderId, partnerId)
  | .marking orderId partnerId => some (.marking, orderId, partnerId)
  | _ => none

/-- The role of a thread, which may be within no call. -/
def roleOf (c : Option Call) : Option (Role × Nat × String) := c.bind Call.role

@[simp] theorem roleOf_none : roleOf none = none := rfl

@[simp] theorem roleOf_some (c : Call) : roleOf (some c) = c.role := rfl

/-! ## Orders -/

namespace Order

variable {o o' : Order} {new : OrderStatus} {actor : Actor} {actorId released : Option String}
  {partnerId : String}

theorem transition_eq_ok (h : o.transition new actor actorId = .ok (released, o')) :
    (∃ allowed, transitions o.status new = some allowed ∧ actor ∈ allowed) ∧
      (actor = .partner → actorId = o.partnerId) ∧
      released = o.released new ∧ o' = o.moved new actor := by
  rw [transition] at h
  cases hcheck : o.check new actor actorId with
  | error =>
    rw [hcheck] at h
    cases h
  | ok =>
  rw [hcheck] at h
  obtain ⟨hreleased, hmoved⟩ := Prod.mk.inj (Except.ok.inj h)
  rw [check] at hcheck
  cases hallowed : transitions o.status new with
  | none =>
    rw [hallowed] at hcheck
    cases hcheck
  | some allowed =>
  rw [hallowed] at hcheck
  dsimp only at hcheck
  split at hcheck
  · cases hcheck
  next hactor =>
  split at hcheck
  · cases hcheck
  next hpartner =>
  rw [not_and, not_not] at hpartner
  exact ⟨⟨allowed, rfl, not_not.mp hactor⟩, hpartner, hreleased.symm, hmoved.symm⟩

theorem attachPartner_eq_true (h : o.attachPartner partnerId = (true, o')) :
    o.status.dispatchable = true ∧ o.partnerId = none ∧
      o' = { o with partnerId := some partnerId, attachments := o.attachments ++ [partnerId] } := by
  rw [attachPartner] at h
  split at h
  · cases h
  next hattach =>
  simp only [not_or, Bool.not_eq_true', Bool.not_eq_false, not_not] at hattach
  exact ⟨hattach.1, hattach.2, (Prod.mk.inj h).2.symm⟩

/-- What is left of the call that has moved an order. -/
def after (o : Order) (orderId : Nat) (new : OrderStatus) : Option (Role × Nat × String) :=
  if new = .pickedUp then o.partnerId.map (.marking, orderId, ·)
  else if new.isTerminal then o.partnerId.map (.leaving, orderId, ·)
  else none

end Order

theorem not_terminal_of_dispatchable {status : OrderStatus} (h : status.dispatchable = true) :
    status.isTerminal = false := by
  cases status <;> first | rfl | cases h

theorem not_terminal_of_transitions {old new : OrderStatus} {allowed : List Actor}
    (h : transitions old new = some allowed) : old.isTerminal = false := by
  cases old <;> first | rfl | (cases new <;> cases h)

/-! ## Partners -/

namespace DeliveryPartner

variable {p p' : DeliveryPartner} {orderId : Nat} {restaurantId : String} {maxOrders : Int}

theorem tryClaim_eq_some (h : p.tryClaim orderId restaurantId maxOrders = some p') :
    p.active.get? orderId = none ∧
      (p.active.items ≠ [] → (p.active.size : Int) < maxOrders ∧ p.pickedUp = false ∧
        ∀ r ∈ p.active.values, r = restaurantId) ∧
      p' = { p with active := p.active.set orderId restaurantId } := by
  rw [tryClaim] at h
  split at h
  · cases h
  next hrefuses =>
  rw [refuses, Bool.not_eq_true, Bool.or_eq_false_iff, Bool.or_eq_false_iff] at hrefuses
  obtain ⟨⟨-, hnew⟩, hbatch⟩ := hrefuses
  rw [isSome_eq_false_iff, isNone_iff_eq_none] at hnew
  refine ⟨hnew, fun hactive => ?_, (some.inj h).symm⟩
  rw [Bool.and_eq_false_iff] at hbatch
  obtain hempty | hbatch := hbatch
  · exact absurd hactive (of_decide_eq_false hempty)
  rw [Bool.or_eq_false_iff, Bool.or_eq_false_iff, List.any_eq_false] at hbatch
  obtain ⟨⟨hsize, hpicked⟩, hsame⟩ := hbatch
  refine ⟨Int.not_le.mp (of_decide_eq_false hsize), hpicked, fun r hr => ?_⟩
  have := hsame r hr
  simpa using this

theorem markPickedUp_active : (p.markPickedUp orderId).active = p.active := by
  rw [markPickedUp]
  split <;> rfl

theorem markPickedUp_pickedUp :
    (p.markPickedUp orderId).pickedUp = ((p.active.get? orderId).isSome || p.pickedUp) := by
  rw [markPickedUp]
  split
  next h => rw [h]; rfl
  next h => rw [Bool.not_eq_true] at h; rw [h]; rfl

end DeliveryPartner

/-! ## The effect of a section -/

namespace OrderService

/-- The part of a thread. -/
def roleAt (s : OrderService) (t : Nat) : Option (Role × Nat × String) := roleOf (s.calls.get? t)

/-- What a section does to the orders and the partners, its call being `c` before it and `next`
    after. -/
inductive Effect (s s' : OrderService) : Option Call → Option Call → Prop
  | quiet {c next : Option Call} (horders : s'.orders = s.orders)
      (hpartners : s'.partners = s.partners) (hrole : roleOf next = roleOf c) : Effect s s' c next
  | placed {c next : Option Call} {ord : Order} (hc : roleOf c = none) (hnext : roleOf next = none)
      (hord : ∃ customerId restaurantId total paymentId,
        ord = Order.new s.nextOrder customerId restaurantId total paymentId)
      (hnextOrder : s'.nextOrder = s.nextOrder + 1)
      (horders : s'.orders = s.orders.set s.nextOrder ord) (hpartners : s'.partners = s.partners) :
      Effect s s' c next
  | moved {next : Option Call} {orderId : Nat} {ord : Order} {new : OrderStatus} {actor : Actor}
      {allowed : List Actor} (hord : s.orders.get? orderId = some ord)
      (hallowed : transitions ord.status new = some allowed) (hactor : actor ∈ allowed)
      (hnext : roleOf next = ord.after orderId new)
      (horders : s'.orders = s.orders.set orderId (ord.moved new actor))
      (hpartners : s'.partners = s.partners) : Effect s s' none next
  | claimed {orderId : Nat} {restaurantId partnerId : String} {rest : List String}
      {p p' : DeliveryPartner} (hp : s.partners.get? partnerId = some p)
      (hclaim : p.tryClaim orderId restaurantId s.maxOrders = some p')
      (horders : s'.orders = s.orders) (hpartners : s'.partners = s.partners.set partnerId p') :
      Effect s s' (some (.claiming orderId restaurantId (partnerId :: rest)))
        (some (.attaching orderId partnerId))
  | attached {orderId : Nat} {partnerId : String} {ord : Order}
      (hord : s.orders.get? orderId = some ord) (hstatus : ord.status.dispatchable = true)
      (hnone : ord.partnerId = none)
      (horders : s'.orders = s.orders.set orderId { ord with
        partnerId := some partnerId, attachments := ord.attachments ++ [partnerId] })
      (hpartners : s'.partners = s.partners) :
      Effect s s' (some (.attaching orderId partnerId)) none
  | freed {c : Call} {next : Option Call} {role : Role} {orderId : Nat} {partnerId : String}
      {p : DeliveryPartner} (hrole : c.role = some (role, orderId, partnerId))
      (hmark : role ≠ .marking) (hp : s.partners.get? partnerId = some p)
      (hnext : roleOf next = none) (horders : s'.orders = s.orders)
      (hpartners : s'.partners = s.partners.set partnerId (p.release orderId)) :
      Effect s s' (some c) next
  | marked {orderId : Nat} {partnerId : String} {p : DeliveryPartner}
      (hp : s.partners.get? partnerId = some p) (horders : s'.orders = s.orders)
      (hpartners : s'.partners = s.partners.set partnerId (p.markPickedUp orderId)) :
      Effect s s' (some (.marking orderId partnerId)) none
  | switched {c : Option Call} {partnerId : String} {p : DeliveryPartner} {online : Bool}
      (hp : s.partners.get? partnerId = some p) (horders : s'.orders = s.orders)
      (hpartners : s'.partners = s.partners.set partnerId { p with online := online }) :
      Effect s s' c c

/-- A section of the call of the thread `t`. -/
structure Turn (s s' : OrderService) (t : Nat) (next : Option Call) : Prop where
  calls : s'.calls = s.calls.put t next
  maxOrders : s'.maxOrders = s.maxOrders
  nextOrder : s.nextOrder ≤ s'.nextOrder
  claiming : ∀ orderId restaurantId candidates,
    next = some (.claiming orderId restaurantId candidates) →
      ∃ ord, s.orders.get? orderId = some ord ∧ ord.restaurantId = restaurantId
  effect : Effect s s' (s.calls.get? t) next

/-- The orders and the partners that the calls and the orders speak of are there. -/
structure Known (s : OrderService) : Prop where
  orders : ∀ orderId ord, s.orders.get? orderId = some ord →
    orderId < s.nextOrder ∧ ∀ partnerId, ord.partnerId = some partnerId →
      ∃ p, s.partners.get? partnerId = some p
  claiming : ∀ t orderId restaurantId candidates,
    s.calls.get? t = some (.claiming orderId restaurantId candidates) →
      ∃ ord, s.orders.get? orderId = some ord ∧ ord.restaurantId = restaurantId
  roles : ∀ t role orderId partnerId, s.roleAt t = some (role, orderId, partnerId) →
    (∃ ord, s.orders.get? orderId = some ord) ∧ ∃ p, s.partners.get? partnerId = some p

variable {s s' : OrderService} {t orderId : Nat} {c next : Option Call} {call : Call} {ord : Order}
  {partnerId : String}

theorem Turn.quiet (hcall : s.calls.get? t = c) (hrole : roleOf next = roleOf c)
    (hclaiming : ∀ orderId restaurantId candidates,
      next = some (.claiming orderId restaurantId candidates) →
        ∃ ord, s.orders.get? orderId = some ord ∧ ord.restaurantId = restaurantId)
    (horders : s'.orders = s.orders) (hpartners : s'.partners = s.partners)
    (hcalls : s'.calls = s.calls.put t next) (hmax : s'.maxOrders = s.maxOrders)
    (hnextOrder : s'.nextOrder = s.nextOrder) : Turn s s' t next :=
  ⟨hcalls, hmax, Nat.le_of_eq hnextOrder.symm, hclaiming,
    .quiet horders hpartners (by rw [hcall, hrole])⟩

theorem Known.same (h : s.Known) (t : Nat) : Turn s s t (s.calls.get? t) :=
  .quiet rfl rfl (h.claiming t) rfl rfl (put_self rfl).symm rfl rfl

theorem Turn.resume (hcall : s.calls.get? t = c) (hrole : roleOf next = roleOf c)
    (hclaiming : ∀ orderId restaurantId candidates,
      next ≠ some (.claiming orderId restaurantId candidates)) :
    Turn s (s.resume t next) t next :=
  .quiet hcall hrole (fun _ _ _ hnext => absurd hnext (hclaiming _ _ _)) rfl rfl rfl rfl rfl

theorem Known.placeOrder (h : s.Known) (hcall : s.calls.get? t = none) (request : Request)
    (body : Body) : ∃ next, Turn s (s.placeOrder t request body).2 t next := by
  have hsame : ∃ next, Turn s s t next := ⟨_, h.same t⟩
  rw [OrderService.placeOrder]
  split
  · exact hsame
  split
  · exact ⟨some (.pricing s.nextSlot request body),
      .quiet hcall rfl (by rintro _ _ _ ⟨⟩) rfl rfl rfl
      rfl rfl⟩
  · split
    · exact hsame
    · exact ⟨_, .resume hcall rfl (by rintro _ _ _ ⟨⟩)⟩

theorem Known.move (h : s.Known) (hcall : s.calls.get? t = none) (orderId : Nat)
    (new : OrderStatus) (actor : Actor) (actorId : Option String)
    {goesOn : Option String → Option Call}
    (hgoesOn : ∀ ord : Order, (actor = .partner → actorId = ord.partnerId) →
      roleOf (goesOn (ord.released new)) = ord.after orderId new)
    (hclaiming : ∀ released orderId restaurantId candidates,
      goesOn released ≠ some (.claiming orderId restaurantId candidates)) :
    ∃ next, Turn s (s.move t orderId new actor actorId goesOn).2 t next := by
  have hsame : ∃ next, Turn s s t next := ⟨_, h.same t⟩
  rw [OrderService.move]
  split
  · exact hsame
  next ord hord =>
  split
  · exact hsame
  next released _ htrans =>
  obtain ⟨⟨allowed, hallowed, hactor⟩, hpartner, rfl, rfl⟩ := Order.transition_eq_ok htrans
  refine ⟨goesOn (ord.released new), rfl, rfl, Nat.le_refl _, ?_, ?_⟩
  · exact fun _ _ _ hnext => absurd hnext (hclaiming _ _ _ _)
  · rw [hcall]
    exact .moved hord hallowed hactor (hgoesOn ord hpartner) rfl rfl

theorem Known.goDispatch (h : s.Known) (hcall : s.calls.get? t = some call) :
    ∃ next, Turn s (s.goDispatch t call).2 t next := by
  have hsame : ∃ next, Turn s s t next := ⟨_, h.same t⟩
  have hrole : s.roleAt t = call.role := by rw [roleAt, hcall, roleOf_some]
  cases call with
  | readPartner orderId | readStatus orderId =>
    rw [OrderService.goDispatch]
    split
    · exact ⟨_, .resume hcall rfl (by rintro _ _ _ ⟨⟩)⟩
    · split <;> exact ⟨_, .resume hcall rfl (by rintro _ _ _ ⟨⟩)⟩
  | claiming orderId restaurantId candidates =>
    have horder := h.claiming t orderId restaurantId candidates hcall
    cases candidates with
    | nil => exact ⟨_, .resume hcall rfl (by rintro _ _ _ ⟨⟩)⟩
    | cons partnerId rest =>
    rw [OrderService.goDispatch]
    split
    · exact ⟨_, .resume hcall rfl (by rintro _ _ _ ⟨⟩)⟩
    next hp =>
    split
    · refine ⟨some (.claiming orderId restaurantId rest), .quiet hcall rfl ?_ rfl rfl rfl rfl rfl⟩
      rintro _ _ _ ⟨⟩
      exact horder
    next hclaim =>
    refine ⟨some (.attaching orderId partnerId), rfl, rfl, Nat.le_refl _, ?_, ?_⟩
    · rintro _ _ _ ⟨⟩
    · rw [hcall]
      exact .claimed hp hclaim rfl rfl
  | attaching =>
    obtain ⟨⟨ord, hord⟩, -⟩ := h.roles t _ _ _ hrole
    rw [OrderService.goDispatch, hord]
    dsimp only
    split
    next hattach =>
      obtain ⟨hstatus, hnone, rfl⟩ := Order.attachPartner_eq_true hattach
      refine ⟨none, rfl, rfl, Nat.le_refl _, ?_, ?_⟩
      · rintro _ _ _ ⟨⟩
      · rw [hcall]
        exact .attached hord hstatus hnone rfl rfl
    · exact ⟨_, .resume hcall rfl (by rintro _ _ _ ⟨⟩)⟩
  | givingBack =>
    obtain ⟨-, p, hp⟩ := h.roles t _ _ _ hrole
    rw [OrderService.goDispatch, hp]
    refine ⟨none, rfl, rfl, Nat.le_refl _, ?_, ?_⟩
    · rintro _ _ _ ⟨⟩
    · rw [hcall]
      exact .freed rfl (by decide) hp rfl rfl rfl
  | _ => exact hsame

theorem Known.goMoved (h : s.Known) (hcall : s.calls.get? t = some call) :
    ∃ next, Turn s (s.goMoved t call).2 t next := by
  have hsame : ∃ next, Turn s s t next := ⟨_, h.same t⟩
  have hrole : s.roleAt t = call.role := by rw [roleAt, hcall, roleOf_some]
  cases call with
  | marking =>
    obtain ⟨-, p, hp⟩ := h.roles t _ _ _ hrole
    rw [OrderService.goMoved, hp]
    refine ⟨none, rfl, rfl, Nat.le_refl _, ?_, ?_⟩
    · rintro _ _ _ ⟨⟩
    · rw [hcall]
      exact .marked hp rfl rfl
  | releasing orderId _ refund =>
    obtain ⟨-, p, hp⟩ := h.roles t _ _ _ hrole
    rw [OrderService.goMoved, hp]
    refine ⟨if refund then some (.refunding orderId) else none, rfl, rfl, Nat.le_refl _, ?_, ?_⟩
    · intro _ _ _ hnext
      cases refund <;> cases hnext
    · rw [hcall]
      refine .freed rfl (by decide) hp ?_ rfl rfl
      cases refund <;> rfl
  | refunding =>
    rw [OrderService.goMoved]
    split
    · exact ⟨_, .resume hcall rfl (by rintro _ _ _ ⟨⟩)⟩
    · exact ⟨none, .quiet hcall rfl (by rintro _ _ _ ⟨⟩) rfl rfl rfl rfl rfl⟩
  | _ => exact hsame

theorem Known.goPlace (h : s.Known) (hcall : s.calls.get? t = some call) :
    ∃ next, Turn s (s.goPlace t call).2 t next := by
  have hsame : ∃ next, Turn s s t next := ⟨_, h.same t⟩
  cases call with
  | charging slot request body total =>
    rw [OrderService.goPlace]
    split
    · exact ⟨_, .resume hcall rfl (by rintro _ _ _ ⟨⟩)⟩
    next paymentId _ _ =>
      exact ⟨some (.storing slot request body total paymentId), .quiet hcall rfl
        (by rintro _ _ _ ⟨⟩) rfl rfl rfl rfl rfl⟩
  | storing slot =>
    refine ⟨some (.storedOrder slot s.nextOrder), rfl, rfl, Nat.le_succ _, ?_, ?_⟩
    · rintro _ _ _ ⟨⟩
    · rw [hcall]
      exact .placed rfl rfl ⟨_, _, _, _, rfl⟩ rfl rfl rfl
  | storedOrder slot orderId | failing slot thrown =>
    rw [OrderService.goPlace]
    split
    · exact hsame
    · exact ⟨none, .quiet hcall rfl (by rintro _ _ _ ⟨⟩) rfl rfl rfl rfl rfl⟩
  | dropping slot _ thrown =>
    rw [OrderService.goPlace]
    split
    · exact hsame
    · exact ⟨some (.failing slot thrown), .quiet hcall rfl (by rintro _ _ _ ⟨⟩) rfl rfl rfl rfl rfl⟩
  | waiting =>
    rw [OrderService.goPlace]
    split
    · exact hsame
    split
    · exact hsame
    split <;> exact ⟨none, .resume hcall rfl (by rintro _ _ _ ⟨⟩)⟩
  | _ => exact hsame

theorem Known.go (h : s.Known) (hcall : s.calls.get? t = some call) :
    ∃ next, Turn s (s.go t call).2 t next := by
  have hdispatch := h.goDispatch hcall
  have hmoved := h.goMoved hcall
  have hplace := h.goPlace hcall
  cases call with
  | readPartner | readStatus | claiming | attaching | givingBack => exact hdispatch
  | marking | releasing | refunding => exact hmoved
  | pricing => exact hplace
  | ranking => exact hplace
  | _ => exact hplace

theorem Known.start (h : s.Known) {first : Answer × OrderService}
    (hfirst : s.calls.get? t = none → ∃ next, Turn s first.2 t next) :
    ∃ next, Turn s (s.start t first).2 t next := by
  rw [OrderService.start]
  split
  · exact ⟨_, h.same t⟩
  next hcall =>
  rw [Bool.not_eq_true, isSome_eq_false_iff, isNone_iff_eq_none] at hcall
  exact hfirst hcall

theorem roleOf_undo {new : OrderStatus} (h : new.isRefunded = true) :
    roleOf (undo orderId (ord.released new)) = ord.after orderId new := by
  have hreleased : ord.released new = ord.partnerId := by
    cases new <;> first | rfl | cases h
  have hafter : ord.after orderId new = ord.partnerId.map (.leaving, orderId, ·) := by
    cases new <;> first | rfl | cases h
  rw [hreleased, hafter]
  cases ord.partnerId <;> rfl

theorem undo_ne_claiming (released : Option String) (orderId orderId' : Nat) (restaurantId : String)
    (candidates : List String) :
    undo orderId released ≠ some (.claiming orderId' restaurantId candidates) := by
  cases released <;> rintro ⟨⟩

theorem Known.turn (h : s.Known) (op : Op) : ∃ t next, Turn s (s.act op).2 t next := by
  cases op with
  | placeOrder t request body => exact ⟨t, h.start fun hcall => h.placeOrder hcall request body⟩
  | price t outcome =>
    refine ⟨t, ?_⟩
    rw [act]
    split
    next hcall =>
      cases outcome <;> exact ⟨_, .resume hcall rfl (by rintro _ _ _ ⟨⟩)⟩
    · exact ⟨_, h.same t⟩
  | accept t orderId | startPreparing t orderId | markReady t orderId =>
    exact ⟨t, h.start fun hcall => h.move hcall orderId _ _ _ (fun _ _ => rfl)
      (by rintro _ _ _ _ ⟨⟩)⟩
  | reject t orderId actor | cancel t orderId actor =>
    exact ⟨t, h.start fun hcall => h.move hcall orderId _ _ _ (fun _ _ => roleOf_undo rfl)
      fun _ => undo_ne_claiming _ _⟩
  | pickUp t orderId =>
    refine ⟨t, h.start fun hcall => h.move hcall orderId _ _ _ (fun (ord : Order) hpartner => ?_)
      (by rintro _ _ _ _ ⟨⟩)⟩
    rw [Order.after, if_pos rfl, ← hpartner rfl]
    rfl
  | deliver t orderId =>
    refine ⟨t, h.start fun hcall => h.move hcall orderId _ _ _ (fun (ord : Order) hpartner => ?_)
      (by rintro _ _ _ _ ⟨⟩)⟩
    rw [Order.after, if_neg (by decide), if_pos (by decide), ← hpartner rfl]
    rfl
  | dispatch t =>
    exact ⟨t, h.start fun hcall => ⟨_, .resume hcall rfl (by rintro _ _ _ ⟨⟩)⟩⟩
  | rank t candidates =>
    refine ⟨t, ?_⟩
    rw [act]
    split
    next orderId hcall =>
      split
      · exact ⟨_, .resume hcall rfl (by rintro _ _ _ ⟨⟩)⟩
      next ord hord =>
        refine ⟨some (.claiming orderId ord.restaurantId candidates),
          .quiet hcall rfl ?_ rfl rfl rfl
          rfl rfl⟩
        rintro _ _ _ ⟨⟩
        exact ⟨ord, hord, rfl⟩
    · exact ⟨_, h.same t⟩
  | setOnline =>
    rw [act]
    split
    · exact ⟨0, _, h.same 0⟩
    next hp =>
      exact ⟨0, s.calls.get? 0, (put_self rfl).symm, rfl, Nat.le_refl _, h.claiming 0,
        .switched hp rfl rfl⟩
  | go t =>
    refine ⟨t, ?_⟩
    rw [act]
    split
    · exact ⟨_, h.same t⟩
    next hcall => exact h.go hcall

/-! ## Every run -/

theorem Turn.roleAt (h : Turn s s' t next) (t' : Nat) :
    s'.roleAt t' = if t' = t then roleOf next else s.roleAt t' := by
  rw [OrderService.roleAt, h.calls, Dict.get?_put]
  split <;> rfl

theorem Known.order (h : s.Known) (heffect : Effect s s' c next)
    (hord : s.orders.get? orderId = some ord) :
    ∃ ord', s'.orders.get? orderId = some ord' ∧ ord'.restaurantId = ord.restaurantId := by
  cases heffect with
  | quiet horders | claimed _ _ horders | freed _ _ _ _ horders | marked _ horders
  | switched _ horders => exact ⟨ord, by rw [horders, hord], rfl⟩
  | placed _ _ _ _ horders =>
    have hne : orderId ≠ s.nextOrder := Nat.ne_of_lt (h.orders orderId ord hord).1
    exact ⟨ord, by rw [horders, get?_set_of_ne _ _ hne, hord], rfl⟩
  | @moved _ _ _ _ _ _ hord' _ _ _ horders =>
    rw [horders, get?_set]
    split
    next heq =>
      rw [heq, hord'] at hord
      cases hord
      exact ⟨_, rfl, rfl⟩
    · exact ⟨ord, hord, rfl⟩
  | attached hord' _ _ horders =>
    rw [horders, get?_set]
    split
    next heq =>
      rw [heq, hord'] at hord
      cases hord
      exact ⟨_, rfl, rfl⟩
    · exact ⟨ord, hord, rfl⟩

theorem get?_set_isSome {κ ν : Type*} [DecidableEq κ] {d : Dict κ ν} {k k' : κ} {v w : ν}
    (h : d.get? k' = some w) : ∃ w', (d.set k v).get? k' = some w' := by
  rw [get?_set]
  split
  · exact ⟨v, rfl⟩
  · exact ⟨w, h⟩

variable {p : DeliveryPartner}

theorem Effect.partners (heffect : Effect s s' c next)
    (hp : s.partners.get? partnerId = some p) : ∃ p', s'.partners.get? partnerId = some p' := by
  cases heffect with
  | quiet _ hpartners | placed _ _ _ _ _ hpartners | moved _ _ _ _ _ hpartners
  | attached _ _ _ _ hpartners => exact ⟨p, by rw [hpartners, hp]⟩
  | claimed _ _ _ hpartners | freed _ _ _ _ _ hpartners | marked _ _ hpartners
  | switched _ _ hpartners => rw [hpartners]; exact get?_set_isSome hp

/-- Where an order comes from that is there after a section. -/
inductive OrderEffect (s s' : OrderService) (c : Option Call) (orderId : Nat) : Order → Prop
  | kept {ord : Order} (hord : s.orders.get? orderId = some ord) : OrderEffect s s' c orderId ord
  | placed (customerId restaurantId : String) (total : Int) (paymentId : Nat)
      (hid : orderId = s.nextOrder)
      (hnextOrder : s'.nextOrder = s.nextOrder + 1) :
      OrderEffect s s' c orderId (Order.new orderId customerId restaurantId total paymentId)
  | moved {ord : Order} {new : OrderStatus} {actor : Actor} {allowed : List Actor}
      (hord : s.orders.get? orderId = some ord)
      (hallowed : transitions ord.status new = some allowed) (hactor : actor ∈ allowed) :
      OrderEffect s s' c orderId (ord.moved new actor)
  | attached {ord : Order} {partnerId : String} (hc : c = some (.attaching orderId partnerId))
      (hord : s.orders.get? orderId = some ord) (hstatus : ord.status.dispatchable = true)
      (hnone : ord.partnerId = none) :
      OrderEffect s s' c orderId { ord with
        partnerId := some partnerId, attachments := ord.attachments ++ [partnerId] }

theorem Effect.order (heffect : Effect s s' c next) (hord : s'.orders.get? orderId = some ord) :
    OrderEffect s s' c orderId ord := by
  cases heffect with
  | quiet horders | claimed _ _ horders | freed _ _ _ _ horders | marked _ horders
  | switched _ horders => exact .kept (horders ▸ hord)
  | placed _ _ hnew hnextOrder horders =>
    rw [horders] at hord
    obtain ⟨rfl, rfl⟩ | ⟨-, hord⟩ := get?_set_some hord
    · obtain ⟨customerId, restaurantId, total, paymentId, rfl⟩ := hnew
      exact .placed customerId restaurantId total paymentId rfl hnextOrder
    · exact .kept hord
  | moved hord' hallowed hactor _ horders =>
    rw [horders] at hord
    obtain ⟨rfl, rfl⟩ | ⟨-, hord⟩ := get?_set_some hord
    · exact .moved hord' hallowed hactor
    · exact .kept hord
  | attached hord' hstatus hnone horders =>
    rw [horders] at hord
    obtain ⟨rfl, rfl⟩ | ⟨-, hord⟩ := get?_set_some hord
    · exact .attached rfl hord' hstatus hnone
    · exact .kept hord

/-- Where a partner comes from that is there after a section. -/
inductive PartnerEffect (s : OrderService) (c next : Option Call) (partnerId : String) :
    DeliveryPartner → Prop
  | kept {p : DeliveryPartner} (hp : s.partners.get? partnerId = some p) :
      PartnerEffect s c next partnerId p
  | claimed {p p' : DeliveryPartner} {orderId : Nat} {restaurantId : String} {rest : List String}
      (hc : c = some (.claiming orderId restaurantId (partnerId :: rest)))
      (hnext : next = some (.attaching orderId partnerId))
      (hp : s.partners.get? partnerId = some p)
      (hclaim : p.tryClaim orderId restaurantId s.maxOrders = some p') :
      PartnerEffect s c next partnerId p'
  | freed {p : DeliveryPartner} {role : Role} {orderId : Nat}
      (hc : roleOf c = some (role, orderId, partnerId)) (hmark : role ≠ .marking)
      (hnext : roleOf next = none) (hp : s.partners.get? partnerId = some p) :
      PartnerEffect s c next partnerId (p.release orderId)
  | marked {p : DeliveryPartner} {orderId : Nat} (hc : c = some (.marking orderId partnerId))
      (hnext : next = none) (hp : s.partners.get? partnerId = some p) :
      PartnerEffect s c next partnerId (p.markPickedUp orderId)
  | switched {p : DeliveryPartner} {online : Bool} (hp : s.partners.get? partnerId = some p) :
      PartnerEffect s c next partnerId { p with online := online }

theorem Effect.partner (heffect : Effect s s' c next)
    (hp : s'.partners.get? partnerId = some p) : PartnerEffect s c next partnerId p := by
  cases heffect with
  | quiet _ hpartners | placed _ _ _ _ _ hpartners | moved _ _ _ _ _ hpartners
  | attached _ _ _ _ hpartners => exact .kept (hpartners ▸ hp)
  | claimed hp' hclaim _ hpartners =>
    rw [hpartners] at hp
    obtain ⟨rfl, rfl⟩ | ⟨-, hp⟩ := get?_set_some hp
    · exact .claimed rfl rfl hp' hclaim
    · exact .kept hp
  | freed hrole hmark hp' hnext _ hpartners =>
    rw [hpartners] at hp
    obtain ⟨rfl, rfl⟩ | ⟨-, hp⟩ := get?_set_some hp
    · exact .freed hrole hmark hnext hp'
    · exact .kept hp
  | marked hp' _ hpartners =>
    rw [hpartners] at hp
    obtain ⟨rfl, rfl⟩ | ⟨-, hp⟩ := get?_set_some hp
    · exact .marked rfl rfl hp'
    · exact .kept hp
  | switched hp' _ hpartners =>
    rw [hpartners] at hp
    obtain ⟨rfl, rfl⟩ | ⟨-, hp⟩ := get?_set_some hp
    · exact .switched hp'
    · exact .kept hp

theorem Known.partnerOf (h : s.Known) (hcall : s.calls.get? t = c) (heffect : Effect s s' c next)
    (hord : s'.orders.get? orderId = some ord) (hpartner : ord.partnerId = some partnerId) :
    ∃ p, s.partners.get? partnerId = some p := by
  cases heffect.order hord with
  | kept hord => exact (h.orders orderId ord hord).2 partnerId hpartner
  | placed => cases hpartner
  | @moved ord _ _ _ hbefore =>
    refine (h.orders orderId ord hbefore).2 partnerId ?_
    rw [Order.moved] at hpartner
    dsimp only at hpartner
    split at hpartner
    · cases hpartner
    · exact hpartner
  | attached hc =>
    cases hpartner
    exact (h.roles t .dispatching orderId partnerId (by rw [roleAt, hcall, hc]; rfl)).2

theorem Known.takes (h : s.Known) (hcall : s.calls.get? t = c) (heffect : Effect s s' c next)
    {role : Role} (hrole : roleOf next = some (role, orderId, partnerId)) :
    (∃ ord, s.orders.get? orderId = some ord) ∧ ∃ p, s.partners.get? partnerId = some p := by
  cases heffect with
  | quiet _ _ hsame =>
    exact h.roles t role orderId partnerId (by rw [roleAt, hcall, ← hsame, hrole])
  | placed _ hnext => rw [hnext] at hrole; cases hrole
  | @moved _ movedId ord _ _ _ hord _ _ hnext =>
    have hafter : orderId = movedId ∧ ord.partnerId = some partnerId := by
      rw [hnext, Order.after] at hrole
      split at hrole
      · obtain ⟨p, hp, heq⟩ := map_eq_some_iff.mp hrole
        cases heq
        exact ⟨rfl, hp⟩
      split at hrole
      · obtain ⟨p, hp, heq⟩ := map_eq_some_iff.mp hrole
        cases heq
        exact ⟨rfl, hp⟩
      · cases hrole
    obtain ⟨rfl, hpartner⟩ := hafter
    exact ⟨⟨ord, hord⟩, (h.orders orderId ord hord).2 partnerId hpartner⟩
  | claimed hp =>
    cases hrole
    obtain ⟨ord, hord, -⟩ := h.claiming t _ _ _ hcall
    exact ⟨⟨ord, hord⟩, ⟨_, hp⟩⟩
  | attached => cases hrole
  | freed _ _ _ hnext => rw [hnext] at hrole; cases hrole
  | marked => cases hrole
  | switched => exact h.roles t role orderId partnerId (by rw [roleAt, hcall, hrole])

theorem Known.step (h : s.Known) (hturn : Turn s s' t next) : s'.Known where
  orders := by
    intro orderId ord hord
    obtain ⟨c, hcall⟩ : ∃ c, s.calls.get? t = c := ⟨_, rfl⟩
    have heffect := hcall ▸ hturn.effect
    refine ⟨?_, fun partnerId hpartner => ?_⟩
    · have hmono := hturn.nextOrder
      cases heffect.order hord with
      | kept hord => exact Nat.lt_of_lt_of_le (h.orders orderId ord hord).1 hmono
      | placed => omega
      | moved hbefore | attached _ hbefore =>
        exact Nat.lt_of_lt_of_le (h.orders orderId _ hbefore).1 hmono
    · obtain ⟨p, hp⟩ := h.partnerOf hcall heffect hord hpartner
      exact heffect.partners hp
  claiming := by
    intro t' orderId restaurantId candidates hcall
    rw [hturn.calls, Dict.get?_put] at hcall
    have hbefore : ∃ ord, s.orders.get? orderId = some ord ∧ ord.restaurantId = restaurantId := by
      split at hcall
      · exact hturn.claiming orderId restaurantId candidates hcall
      · exact h.claiming t' orderId restaurantId candidates hcall
    obtain ⟨ord, hord, rfl⟩ := hbefore
    exact h.order hturn.effect hord
  roles := by
    intro t' role orderId partnerId hrole
    rw [hturn.roleAt] at hrole
    have hbefore : (∃ ord, s.orders.get? orderId = some ord) ∧
        ∃ p, s.partners.get? partnerId = some p := by
      split at hrole
      · exact h.takes rfl hturn.effect hrole
      · exact h.roles t' role orderId partnerId hrole
    obtain ⟨⟨ord, hord⟩, p, hp⟩ := hbefore
    obtain ⟨ord', hord', -⟩ := h.order hturn.effect hord
    exact ⟨⟨ord', hord'⟩, hturn.effect.partners hp⟩

end OrderService

end InterviewPrep.FoodDelivery
