/-
  The orders and the partners agree in every state (`Agreed`): a partner has an order in
  its active set exactly while the order is attached to it, or one call holds the pair.
  An order that is not attached yet or not any more is held by its call alone, so each
  section takes a free pair, passes one on, or drops one.
-/
import InterviewPrep.FoodDelivery.Assignments
import InterviewPrep.Lib.Holdings
import Mathlib.Data.List.Chain

namespace InterviewPrep.FoodDelivery

open Lib DeliveryPartner Dict Function List Option

/-! ## Who holds a pair of an order and a partner -/

/-- The partner of an order that has not ended. -/
def Order.carrier (o : Order) : Option String := if o.status.isTerminal then none else o.partnerId

inductive Owner where
  | thread (t : Nat)
  | order (orderId : Nat)
  deriving DecidableEq

/-- The pair that a role keeps in the active set. -/
def claimOf (role : Option (Role × Nat × String)) : Option (Nat × String) :=
  role.bind fun r => if r.1 = .marking then none else some r.2

namespace OrderService

variable {s s' : OrderService} {t orderId : Nat} {c next : Option Call} {partnerId : String}
  {ord o : Order} {target : OrderStatus} {actor : Actor} {p : DeliveryPartner} {d : Dict Nat String}

/-- The pair that each thread and each order holds. -/
def holding (s : OrderService) : Owner → Option (Nat × String)
  | .thread t => claimOf (s.roleAt t)
  | .order orderId => (s.orders.get? orderId).bind fun o => o.carrier.map (orderId, ·)

theorem holding_order (hord : s.orders.get? orderId = some ord) :
    s.holding (.order orderId) = ord.carrier.map (orderId, ·) := by
  rw [holding, hord]
  rfl

theorem Turn.holding_thread (h : Turn s s' t next) (horders : s'.orders = s.orders) :
    s'.holding = Function.update s.holding (.thread t) (claimOf (roleOf next)) := by
  funext w
  cases w with
  | thread =>
    rw [holding, h.roleAt, apply_ite claimOf]
    simp only [update_apply, Owner.thread.injEq]
    rfl
  | order =>
    rw [holding, horders, update_of_ne (by rintro ⟨⟩)]
    rfl

theorem Turn.holding_order (h : Turn s s' t next) (horders : s'.orders = s.orders.set orderId ord) :
    s'.holding = Function.update (Function.update s.holding (.thread t) (claimOf (roleOf next)))
      (.order orderId) (ord.carrier.map (orderId, ·)) := by
  funext w
  cases w with
  | thread =>
    rw [holding, h.roleAt, update_of_ne (by rintro ⟨⟩), apply_ite claimOf]
    simp only [update_apply, Owner.thread.injEq]
    rfl
  | order id =>
    rw [holding, horders, get?_set]
    by_cases hid : id = orderId
    · subst hid
      rw [if_pos rfl, update_self]
      rfl
    · rw [if_neg hid, update_of_ne fun heq => hid (Owner.order.inj heq),
        update_of_ne (by rintro ⟨⟩)]
      rfl

/-- What a section does to the pairs: it leaves them, or a pair is passed on, taken or dropped. -/
inductive Handover (s s' : OrderService) (t : Nat) : Prop
  | same (hholding : s'.holding = s.holding)
      (hactive : ∀ partnerId p', s'.partners.get? partnerId = some p' →
        ∃ p, s.partners.get? partnerId = some p ∧ p'.active = p.active)
  | passed {w w' : Owner} {k : Nat × String} (hw : s.holding w = some k)
      (hw' : s.holding w' = none) (hholding : s'.holding = passOn s.holding w w')
      (hpartners : s'.partners = s.partners)
  | taken {orderId : Nat} {restaurantId partnerId : String} {p p' : DeliveryPartner}
      (hnone : s.holding (.thread t) = none)
      (hholding : s'.holding = Function.update s.holding (.thread t) (some (orderId, partnerId)))
      (hp : s.partners.get? partnerId = some p)
      (hclaim : p.tryClaim orderId restaurantId s.maxOrders = some p')
      (hpartners : s'.partners = s.partners.set partnerId p')
  | dropped {orderId : Nat} {partnerId : String} {p : DeliveryPartner}
      (hw : s.holding (.thread t) = some (orderId, partnerId))
      (hholding : s'.holding = Function.update s.holding (.thread t) none)
      (hp : s.partners.get? partnerId = some p)
      (hpartners : s'.partners = s.partners.set partnerId (p.release orderId))

theorem active_of_partners (h : s'.partners = s.partners) (partnerId : String)
    (p' : DeliveryPartner) (hp : s'.partners.get? partnerId = some p') :
    ∃ p, s.partners.get? partnerId = some p ∧ p'.active = p.active :=
  ⟨p', h ▸ hp, rfl⟩

theorem active_of_set {p'' : DeliveryPartner} (h : s'.partners = s.partners.set partnerId p'')
    (hp : s.partners.get? partnerId = some p) (hactive : p''.active = p.active)
    (partnerId' : String) (p' : DeliveryPartner) (hp' : s'.partners.get? partnerId' = some p') :
    ∃ p, s.partners.get? partnerId' = some p ∧ p'.active = p.active := by
  rw [h] at hp'
  obtain ⟨rfl, rfl⟩ | ⟨-, hp'⟩ := get?_set_some hp'
  · exact ⟨p, hp, hactive⟩
  · exact ⟨p', hp', rfl⟩

theorem Turn.holding_same (h : Turn s s' t next) (horders : s'.orders = s.orders)
    (hrole : claimOf (roleOf next) = claimOf (s.roleAt t)) : s'.holding = s.holding := by
  rw [h.holding_thread horders, hrole]
  exact update_eq_self _ _

variable {active : Dict Nat String} {allowed : List Actor}

theorem Turn.handover_moved (h : Turn s s' t next) (hrole : s.roleAt t = none)
    (hord : s.orders.get? orderId = some ord)
    (hallowed : transitions ord.status target = some allowed)
    (hnext : roleOf next = ord.after orderId target)
    (horders : s'.orders = s.orders.set orderId (ord.moved target actor))
    (hpartners : s'.partners = s.partners) : Handover s s' t := by
  have hcarrier : ord.carrier = ord.partnerId := by
    rw [Order.carrier, not_terminal_of_transitions hallowed, if_neg Bool.false_ne_true]
  have hthread : s.holding (.thread t) = none := by
    rw [holding, hrole]
    rfl
  have hbefore := s.holding_order hord
  rw [hcarrier] at hbefore
  have hafter := h.holding_order horders
  rw [hnext] at hafter
  cases hterminal : target.isTerminal with
  | false =>
    refine .same ?_ (active_of_partners hpartners)
    have hclaim : claimOf (ord.after orderId target) = none := by
      rw [Order.after, hterminal, if_neg Bool.false_ne_true]
      split
      · cases ord.partnerId <;> rfl
      · rfl
    have hmoved : (ord.moved target actor).carrier = ord.partnerId := by
      rw [Order.carrier, Order.moved]
      simp only [hterminal, Bool.false_eq_true, false_and, if_false]
    rw [hafter, hclaim, hmoved, ← hthread, update_eq_self, ← hbefore,
      update_eq_self]
  | true =>
  have hmoved : (ord.moved target actor).carrier = none := by
    rw [Order.carrier]
    exact if_pos hterminal
  have hclaim : claimOf (ord.after orderId target) = ord.partnerId.map (orderId, ·) := by
    have hne : target ≠ .pickedUp := by
      rintro rfl
      cases hterminal
    rw [Order.after, if_neg hne, if_pos hterminal]
    cases ord.partnerId <;> rfl
  rw [hclaim, hmoved, map_none] at hafter
  cases hpartner : ord.partnerId with
  | none =>
    rw [hpartner, map_none] at hbefore hafter
    refine .same ?_ (active_of_partners hpartners)
    rw [hafter, ← hthread, update_eq_self, hthread, ← hbefore,
      update_eq_self]
  | some =>
    rw [hpartner] at hbefore hafter
    refine .passed hbefore hthread ?_ hpartners
    rw [hafter, passOn, hbefore, update_comm (by rintro ⟨⟩)]

theorem Turn.handover_attached (h : Turn s s' t none)
    (hrole : s.roleAt t = some (.dispatching, orderId, partnerId))
    (hord : s.orders.get? orderId = some ord) (hstatus : ord.status.dispatchable = true)
    (hnone : ord.partnerId = none) (horders : s'.orders = s.orders.set orderId { ord with
      partnerId := some partnerId, attachments := ord.attachments ++ [partnerId] })
    (hpartners : s'.partners = s.partners) : Handover s s' t := by
  have hthread : s.holding (.thread t) = some (orderId, partnerId) := by
    rw [holding, hrole]
    rfl
  have hbefore : s.holding (.order orderId) = none := by
    rw [s.holding_order hord, Order.carrier, hnone, ite_self]
    rfl
  have hterminal := not_terminal_of_dispatchable hstatus
  have hcarrier : ({ ord with
      partnerId := some partnerId
      attachments := ord.attachments ++ [partnerId] } : Order).carrier = some partnerId := by
    rw [Order.carrier]
    exact if_neg (by rw [hterminal]; exact Bool.false_ne_true)
  refine .passed hthread hbefore ?_ hpartners
  rw [h.holding_order horders, hcarrier, passOn, hthread]
  rfl

theorem Known.fresh (h : s.Known) : s.orders.get? s.nextOrder = none := by
  cases hord : s.orders.get? s.nextOrder with
  | none => rfl
  | some ord => exact absurd (h.orders _ ord hord).1 (Nat.lt_irrefl _)

theorem Known.handover (hknown : s.Known) (h : Turn s s' t next) : Handover s s' t := by
  obtain ⟨c, hcall⟩ : ∃ c, s.calls.get? t = c := ⟨_, rfl⟩
  have hrole : s.roleAt t = roleOf c := by rw [OrderService.roleAt, hcall]
  have heffect := hcall ▸ h.effect
  cases heffect with
  | quiet horders hpartners hsame =>
    exact .same (h.holding_same horders (by rw [hsame, hrole])) (active_of_partners hpartners)
  | @placed _ _ ord hc hnext hord _ horders hpartners =>
    refine .same ?_ (active_of_partners hpartners)
    have hcarrier : ord.carrier = none := by
      obtain ⟨_, _, _, _, rfl⟩ := hord
      rfl
    have hthread : s.holding (.thread t) = none := by
      rw [holding, hrole, hc]
      rfl
    have hbefore : s.holding (.order s.nextOrder) = none := by
      rw [holding, hknown.fresh]
      rfl
    have hclaim : claimOf (roleOf next) = none := by rw [hnext]; rfl
    rw [h.holding_order horders, hcarrier, hclaim, ← hthread, update_eq_self,
      map_none, ← hbefore, update_eq_self]
  | moved hord hallowed _ hnext horders hpartners =>
    exact h.handover_moved hrole hord hallowed hnext horders hpartners
  | claimed hp hclaim horders hpartners =>
    refine .taken ?_ (h.holding_thread horders) hp hclaim hpartners
    rw [holding, hrole]
    rfl
  | attached hord hstatus hnone horders hpartners =>
    exact h.handover_attached hrole hord hstatus hnone horders hpartners
  | @freed _ _ _ _ _ _ hc hmark hp hnext horders hpartners =>
    refine .dropped ?_ ?_ hp hpartners
    · rw [holding, hrole, roleOf_some, hc]
      exact if_neg hmark
    · rw [h.holding_thread horders, hnext]
      rfl
  | marked hp horders hpartners =>
    exact .same (h.holding_same horders (by rw [hrole]; rfl))
      (active_of_set hpartners hp markPickedUp_active)
  | switched hp horders hpartners =>
    exact .same (h.holding_same horders (by rw [hrole])) (active_of_set hpartners hp rfl)

/-! ## The two sides agree -/

/-- Every pair has one holder, and the active sets have the pairs that are held. -/
structure Agreed (s : OrderService) : Prop where
  known : s.Known
  exclusive : Exclusive s.holding
  member : ∀ partnerId p, s.partners.get? partnerId = some p →
    ∀ orderId, (p.active.get? orderId).isSome ↔ Held s.holding (orderId, partnerId)

theorem isSome_get?_set {k k' : Nat} {v : String} :
    ((d.set k v).get? k').isSome ↔ k' = k ∨ (d.get? k').isSome := by
  rw [get?_set]
  split
  next heq => simp [heq]
  next hne => simp [hne]

theorem isSome_get?_erase {k k' : Nat} :
    ((d.erase k).get? k').isSome ↔ (d.get? k').isSome ∧ k' ≠ k := by
  rw [get?_erase]
  split
  next heq => simp [heq]
  next hne => simp [hne]

theorem Agreed.step (h : s.Agreed) (hturn : Turn s s' t next) : s'.Agreed := by
  have hknown := h.known.step hturn
  cases h.known.handover hturn with
  | same hholding hactive =>
    refine ⟨hknown, hholding ▸ h.exclusive, fun partnerId p' hp' orderId => ?_⟩
    obtain ⟨p, hp, heq⟩ := hactive partnerId p' hp'
    rw [heq, hholding]
    exact h.member partnerId p hp orderId
  | passed hw hw' hholding hpartners =>
    refine ⟨hknown, hholding ▸ h.exclusive.pass hw, fun partnerId p hp orderId => ?_⟩
    rw [hholding, h.exclusive.held_pass hw hw']
    exact h.member partnerId p (hpartners ▸ hp) orderId
  | @taken orderId _ partnerId p _ hnone hholding hp hclaim hpartners =>
    obtain ⟨hnew, -, rfl⟩ := tryClaim_eq_some hclaim
    have hfree : ¬ Held s.holding (orderId, partnerId) := by
      rw [← h.member partnerId p hp orderId, hnew]
      exact Bool.false_ne_true
    refine ⟨hknown, hholding ▸ h.exclusive.take hfree, fun partnerId' q hq orderId' => ?_⟩
    rw [hholding, held_take hnone, Prod.mk.injEq]
    rw [hpartners] at hq
    obtain ⟨rfl, rfl⟩ | ⟨hne, hq⟩ := get?_set_some hq
    · rw [isSome_get?_set, h.member partnerId' p hp orderId', and_iff_left rfl]
    · rw [h.member partnerId' q hq orderId', or_iff_right fun heq => hne heq.2]
  | @dropped _ _ p hw hholding hp hpartners =>
    refine ⟨hknown, hholding ▸ h.exclusive.drop, fun partnerId' q hq orderId' => ?_⟩
    rw [hholding, h.exclusive.held_drop hw, ne_eq, Prod.mk.injEq]
    rw [hpartners] at hq
    obtain ⟨rfl, rfl⟩ | ⟨hne, hq⟩ := get?_set_some hq
    · rw [DeliveryPartner.release]
      rw [isSome_get?_erase, h.member partnerId' p hp orderId', and_iff_left rfl]
    · rw [h.member partnerId' q hq orderId', and_iff_left fun heq => hne heq.2]

/-! ## What an order has recorded -/

/-- Who moved an order where is allowed to. -/
def Allowed (x y : OrderStatus × Actor) : Prop :=
  ∃ allowed, transitions x.1 y.1 = some allowed ∧ y.2 ∈ allowed

/-- A history starts with the order placed, and every next entry is an allowed transition. -/
structure IsPath (history : List (OrderStatus × Actor)) : Prop where
  head : history.head? = some (.placed, .customer)
  chain : history.IsChain Allowed

/-- An order at one identifier: its history is a path that its events number from zero; it is
    attached to one partner at most, until it has ended. -/
structure Lawful (o : Order) : Prop where
  path : IsPath o.history
  last : ∃ actor, o.history.getLast? = some (o.status, actor)
  events : o.events.map (fun e => (e.newStatus, e.actor)) = o.history
  numbered : o.events.map OrderEvent.seq = List.range (o.seq + 1)
  attached : (o.attachments = [] ∧ o.partnerId = none) ∨
    ∃ partnerId, o.attachments = [partnerId] ∧
      (o.partnerId = some partnerId ∨ o.partnerId = none ∧ o.status.isTerminal = true)

theorem lawful_new (orderId : Nat) (customerId restaurantId : String) (total : Int)
    (paymentId : Nat) : Lawful (Order.new orderId customerId restaurantId total paymentId) where
  path := ⟨rfl, .singleton _⟩
  last := ⟨.customer, rfl⟩
  events := rfl
  numbered := rfl
  attached := .inl ⟨rfl, rfl⟩

theorem Lawful.moved (h : Lawful o)
    (hallowed : transitions o.status target = some allowed) (hactor : actor ∈ allowed) :
    Lawful (o.moved target actor) where
  path := by
    refine ⟨?_, ?_⟩
    · show (o.history ++ [(target, actor)]).head? = _
      rw [head?_append, h.path.head]
      rfl
    show (o.history ++ [(target, actor)]).IsChain Allowed
    rw [isChain_append]
    refine ⟨h.path.chain, .singleton _, fun x hx y hy => ?_⟩
    obtain ⟨actor', hlast⟩ := h.last
    rw [hlast] at hx
    cases hx
    cases hy
    exact ⟨allowed, hallowed, hactor⟩
  last := by
    refine ⟨actor, ?_⟩
    show (o.history ++ [(target, actor)]).getLast? = _
    rw [getLast?_append]
    rfl
  events := by
    show (o.events ++ _).map _ = o.history ++ [(target, actor)]
    rw [map_append, h.events]
    rfl
  numbered := by
    show (o.events ++ _).map _ = List.range (o.seq + 1 + 1)
    rw [map_append, h.numbered]
    exact range_succ.symm
  attached := by
    have hopen := not_terminal_of_transitions hallowed
    rw [Order.moved]
    obtain ⟨hattachments, hnone⟩ | ⟨partnerId, hattachments, hpartner⟩ := h.attached
    · exact .inl ⟨hattachments, by rw [hnone, ite_self]⟩
    have hpartner : o.partnerId = some partnerId := by
      obtain hpartner | ⟨-, hterminal⟩ := hpartner
      · exact hpartner
      · rw [hopen] at hterminal
        cases hterminal
    refine .inr ⟨partnerId, hattachments, ?_⟩
    split
    next hterminal => exact .inr ⟨rfl, hterminal.1⟩
    · exact .inl hpartner

theorem Lawful.attach (h : Lawful o) (hstatus : o.status.dispatchable = true)
    (hnone : o.partnerId = none) (partnerId : String) : Lawful { o with
      partnerId := some partnerId, attachments := o.attachments ++ [partnerId] } where
  path := h.path
  last := h.last
  events := h.events
  numbered := h.numbered
  attached := by
    obtain ⟨hattachments, -⟩ | ⟨p, -, hpartner⟩ := h.attached
    · exact .inr ⟨partnerId, by rw [hattachments]; rfl, .inl rfl⟩
    · obtain hpartner | ⟨-, hterminal⟩ := hpartner
      · rw [hnone] at hpartner
        cases hpartner
      · rw [not_terminal_of_dispatchable hstatus] at hterminal
        cases hterminal

theorem Lawful.records (h : Lawful o) : o.attachments.length ≤ 1 ∧
      (∀ partnerId, o.partnerId = some partnerId → partnerId ∈ o.attachments) ∧
      IsPath o.history ∧ o.events.map (fun e => (e.newStatus, e.actor)) = o.history ∧
      o.events.map OrderEvent.seq = List.range o.events.length := by
  have hlength : o.events.length = o.seq + 1 := by
    have := congrArg List.length h.numbered
    rwa [length_map, length_range] at this
  refine ⟨?_, fun partnerId hpartner => ?_, h.path, h.events, hlength ▸ h.numbered⟩
  · obtain ⟨hattachments, -⟩ | ⟨p, hattachments, -⟩ := h.attached <;> rw [hattachments]
    · exact Nat.zero_le 1
    · exact Nat.le_refl 1
  obtain ⟨-, hnone⟩ | ⟨p, hattachments, hcarried | ⟨hnone, -⟩⟩ := h.attached
  · rw [hnone] at hpartner
    cases hpartner
  · rw [hcarried] at hpartner
    cases hpartner
    rw [hattachments]
    exact mem_singleton_self _
  · rw [hnone] at hpartner
    cases hpartner

/-- A status changes only along the table. -/
theorem lawful_step (h : ∀ orderId o, s.orders.get? orderId = some o → Lawful o)
    (hturn : Turn s s' t next) (orderId : Nat) (o : Order)
    (ho : s'.orders.get? orderId = some o) : Lawful o := by
  cases hturn.effect.order ho with
  | kept ho => exact h orderId o ho
  | placed => exact lawful_new _ _ _ _ _
  | moved hbefore hallowed hactor => exact (h orderId _ hbefore).moved hallowed hactor
  | attached _ hbefore hstatus hnone => exact (h orderId _ hbefore).attach hstatus hnone _

/-! ## Batches -/

/-- The active set of a partner: orders of one restaurant, as many as the strategy
    allows, or one. -/
structure Batch (s : OrderService) (active : Dict Nat String) : Prop where
  size : (active.size : Int) ≤ max 1 s.maxOrders
  one : ∀ r ∈ active.values, ∀ r' ∈ active.values, r = r'
  orders : ∀ orderId r, active.get? orderId = some r →
    ∃ ord, s.orders.get? orderId = some ord ∧ ord.restaurantId = r

theorem mem_values {r : String} : r ∈ d.values ↔ ∃ k, d.get? k = some r := by
  rw [Dict.values, List.mem_map]
  constructor
  · rintro ⟨x, hx, rfl⟩
    exact ⟨x.1, mem_items_iff.mp hx⟩
  · rintro ⟨k, hk⟩
    exact ⟨(k, r), Dict.mem_items.mpr hk, rfl⟩

theorem Batch.restaurant (h : Batch s active) {x y : Nat}
    (hx : x ∈ active.keys) (hy : y ∈ active.keys) :
    ∃ o o', s.orders.get? x = some o ∧ s.orders.get? y = some o' ∧
      o.restaurantId = o'.restaurantId := by
  obtain ⟨r, hr⟩ := Dict.mem_keys.mp hx
  obtain ⟨r', hr'⟩ := Dict.mem_keys.mp hy
  obtain ⟨o, ho, rfl⟩ := h.orders x r hr
  obtain ⟨o', ho', rfl⟩ := h.orders y r' hr'
  exact ⟨o, o', ho, ho', h.one _ (mem_values.mpr ⟨x, hr⟩) _ (mem_values.mpr ⟨y, hr'⟩)⟩

theorem Batch.claim {p' : DeliveryPartner} {restaurantId : String} (h : Batch s p.active)
    (hclaim : p.tryClaim orderId restaurantId s.maxOrders = some p')
    (hord : ∃ ord, s.orders.get? orderId = some ord ∧ ord.restaurantId = restaurantId) :
    Batch s p'.active := by
  obtain ⟨hnew, hroom, rfl⟩ := tryClaim_eq_some hclaim
  have hitems := set_items_of_get?_none restaurantId hnew
  have hvalues : ∀ r ∈ (p.active.set orderId restaurantId).values, r = restaurantId := by
    intro r hr
    rw [Dict.values, hitems, map_append, mem_append] at hr
    obtain hr | hr := hr
    · have hne : p.active.items ≠ [] := by
        intro hempty
        rw [hempty] at hr
        cases hr
      exact (hroom hne).2.2 r hr
    · exact mem_singleton.mp hr
  refine ⟨?_, fun r hr r' hr' => (hvalues r hr).trans (hvalues r' hr').symm, ?_⟩
  · show ((p.active.set orderId restaurantId).items.length : Int) ≤ _
    rw [hitems, length_append, length_singleton]
    by_cases hempty : p.active.items = []
    · rw [hempty, length_nil]
      omega
    · have := (hroom hempty).1
      rw [Dict.size] at this
      omega
  · intro orderId' r hr
    obtain ⟨rfl, rfl⟩ | ⟨-, hr⟩ := get?_set_some hr
    · exact hord
    · exact h.orders orderId' r hr

theorem Batch.release (h : Batch s p.active) (orderId : Nat) :
    Batch s (p.release orderId).active where
  size := by
    have hle : (p.active.erase orderId).size ≤ p.active.size := by
      rw [Dict.size, Dict.size, items_erase]
      exact length_filter_le _ _
    have := h.size
    show ((p.active.erase orderId).size : Int) ≤ _
    omega
  one := by
    intro r hr r' hr'
    obtain ⟨k, hk⟩ := mem_values.mp hr
    obtain ⟨k', hk'⟩ := mem_values.mp hr'
    exact h.one r (mem_values.mpr ⟨k, (get?_erase_some hk).2⟩) r'
      (mem_values.mpr ⟨k', (get?_erase_some hk').2⟩)
  orders := fun orderId' r hr => h.orders orderId' r (get?_erase_some hr).2

theorem Batch.later (h : Batch s active) (hknown : s.Known)
    (hturn : Turn s s' t next) : Batch s' active where
  size := by rw [hturn.maxOrders]; exact h.size
  one := h.one
  orders := by
    intro orderId r hr
    obtain ⟨ord, hord, rfl⟩ := h.orders orderId r hr
    exact hknown.order hturn.effect hord

theorem batch_step (h : ∀ partnerId p, s.partners.get? partnerId = some p → Batch s p.active)
    (hknown : s.Known) (hturn : Turn s s' t next) (partnerId : String) (p : DeliveryPartner)
    (hp : s'.partners.get? partnerId = some p) : Batch s' p.active := by
  refine Batch.later ?_ hknown hturn
  cases hturn.effect.partner hp with
  | kept hp => exact h partnerId p hp
  | claimed hc _ hp' hclaim =>
    exact (h partnerId _ hp').claim hclaim (hknown.claiming t _ _ _ hc)
  | freed _ _ _ hp' => exact (h partnerId _ hp').release _
  | marked _ _ hp' =>
    rw [markPickedUp_active]
    exact h partnerId _ hp'
  | switched hp' =>
    have hbatch := h partnerId _ hp'
    exact hbatch

/-! ## Every run -/

variable {partnerIds failCustomers : List String} {maxOrders : Int}

theorem new_partner (hp : (new partnerIds maxOrders failCustomers).partners.get? partnerId = some p)
    : p = ⟨true, Dict.empty, false⟩ := by
  obtain ⟨id, -, heq⟩ := List.mem_map.mp (mem_of_get?_ofList hp)
  exact (Prod.mk.inj heq).2.symm

theorem new_known : (new partnerIds maxOrders failCustomers).Known where
  orders := by rintro _ _ ⟨⟩
  claiming := by rintro _ _ _ _ ⟨⟩
  roles := by rintro _ _ _ _ ⟨⟩

theorem new_agreed : (new partnerIds maxOrders failCustomers).Agreed := by
  have hholding : (new partnerIds maxOrders failCustomers).holding = fun _ => none := by
    funext w
    cases w <;> rfl
  refine ⟨new_known, hholding ▸ exclusive_none, fun partnerId p hp orderId => ?_⟩
  rw [new_partner hp, hholding, iff_false_right not_held_none]
  exact Bool.false_ne_true

/-- What holds of the orders and the partners in every state. -/
structure Consistent (s : OrderService) : Prop where
  agreed : s.Agreed
  lawful : ∀ orderId o, s.orders.get? orderId = some o → Lawful o
  batches : ∀ partnerId p, s.partners.get? partnerId = some p → Batch s p.active

theorem new_consistent : (new partnerIds maxOrders failCustomers).Consistent where
  agreed := new_agreed
  lawful := by rintro _ _ ⟨⟩
  batches := by
    intro partnerId p hp
    rw [new_partner hp]
    refine ⟨?_, by rintro _ ⟨⟩, by rintro _ _ ⟨⟩⟩
    show (0 : Int) ≤ max 1 maxOrders
    omega

theorem Consistent.turn (h : s.Consistent) (hturn : Turn s s' t next) : s'.Consistent where
  agreed := h.agreed.step hturn
  lawful := lawful_step h.lawful hturn
  batches := batch_step h.batches h.agreed.known hturn

theorem step_eq_act (s : OrderService) (op : Op) : s.step op = .ok (s.act op) := rfl

theorem Consistent.idle (h : s.Consistent) (hidle : s.calls = Dict.empty)
    (ho : s.orders.get? orderId = some o) :
    (o.status.isTerminal = false → ∀ partnerId, o.partnerId = some partnerId ↔
      ∃ p, s.partners.get? partnerId = some p ∧ (p.active.get? orderId).isSome) ∧
    (o.status.isTerminal = true → ∀ partnerId p, s.partners.get? partnerId = some p →
      p.active.get? orderId = none) := by
  have hheld : ∀ partnerId, Held s.holding (orderId, partnerId) ↔ o.carrier = some partnerId := by
    intro partnerId
    have horder := s.holding_order ho
    constructor
    · rintro ⟨w, hw⟩
      cases w with
      | thread =>
        rw [holding, OrderService.roleAt, hidle] at hw
        cases hw
      | order id =>
      have hid : id = orderId := by
        rw [holding] at hw
        obtain ⟨o', -, hw⟩ := bind_eq_some_iff.mp hw
        obtain ⟨_, -, hw⟩ := map_eq_some_iff.mp hw
        exact (Prod.mk.inj hw).1
      subst hid
      rw [horder] at hw
      obtain ⟨_, hcarrier, hw⟩ := map_eq_some_iff.mp hw
      cases hw
      exact hcarrier
    · intro hcarrier
      refine ⟨.order orderId, ?_⟩
      rw [horder, hcarrier]
      rfl
  constructor
  · intro hopen partnerId
    have hcarrier : o.carrier = o.partnerId := by
      rw [Order.carrier, hopen, if_neg Bool.false_ne_true]
    rw [hcarrier] at hheld
    constructor
    · intro hpartner
      obtain ⟨p, hp⟩ := (h.agreed.known.orders orderId o ho).2 partnerId hpartner
      exact ⟨p, hp, (h.agreed.member partnerId p hp orderId).mpr ((hheld partnerId).mpr hpartner)⟩
    · rintro ⟨p, hp, hactive⟩
      exact (hheld partnerId).mp ((h.agreed.member partnerId p hp orderId).mp hactive)
  · intro hterminal partnerId p hp
    have hcarrier : o.carrier = none := if_pos hterminal
    rw [← not_isSome_iff_eq_none, h.agreed.member partnerId p hp, hheld, hcarrier]
    rintro ⟨⟩

/-- After any sections of any calls: an order has been attached to one partner at most and its
    history is a path; a partner has orders of one restaurant, as many as the strategy allows or
    one; and between the calls the two sides agree. -/
theorem run_agreed (partnerIds failCustomers : List String) (maxOrders : Int) (ops : List Op) :
    ∃ answers s, runSteps OrderService.step (new partnerIds maxOrders failCustomers) ops =
        .ok (answers, s) ∧ (∀ orderId o, s.orders.get? orderId = some o →
        o.attachments.length ≤ 1 ∧ (∀ partnerId, o.partnerId = some partnerId →
          partnerId ∈ o.attachments) ∧ IsPath o.history ∧
        o.events.map (fun e => (e.newStatus, e.actor)) = o.history ∧
        o.events.map OrderEvent.seq = List.range o.events.length) ∧
      (∀ partnerId p, s.partners.get? partnerId = some p →
        (p.active.size : Int) ≤ max 1 maxOrders ∧
        ∀ x ∈ p.active.keys, ∀ y ∈ p.active.keys, ∃ o o', s.orders.get? x = some o ∧
          s.orders.get? y = some o' ∧ o.restaurantId = o'.restaurantId) ∧
      (s.calls = Dict.empty → ∀ orderId o, s.orders.get? orderId = some o →
        (o.status.isTerminal = false → ∀ partnerId, o.partnerId = some partnerId ↔
          ∃ p, s.partners.get? partnerId = some p ∧ (p.active.get? orderId).isSome) ∧
        (o.status.isTerminal = true → ∀ partnerId p, s.partners.get? partnerId = some p →
          p.active.get? orderId = none)) := by
  have hact : ∀ (s : OrderService) (op : Op), s.Consistent ∧ s.maxOrders = maxOrders →
      (s.act op).2.Consistent ∧ (s.act op).2.maxOrders = maxOrders := by
    rintro s op ⟨h, hmax⟩
    obtain ⟨t, next, hturn⟩ := h.agreed.known.turn op
    exact ⟨h.turn hturn, hturn.maxOrders.trans hmax⟩
  obtain ⟨answers, s, hrun, h, hmax⟩ := runSteps_total step_eq_act hact
    ⟨new_consistent, rfl⟩ ops
  refine ⟨answers, s, hrun, fun orderId o ho => (h.lawful orderId o ho).records,
    fun partnerId p hp => ⟨?_, ?_⟩, fun hidle orderId o ho => h.idle hidle ho⟩
  · rw [← hmax]
    exact (h.batches partnerId p hp).size
  · exact fun x hx y hy => (h.batches partnerId p hp).restaurant hx hy

/-- The calls that place an order, accept it and assign it to the partner `"P"`. -/
def assigned : List Op :=
  [.placeOrder 0 ("A", "k") ⟨"R", [("I", 1)], none⟩, .price 0 (.ok 100), .go 0, .go 0, .go 0,
    .accept 0 1, .go 0, .go 0, .rank 0 ["P"], .go 0, .go 0]

/-- A strategy that allows no orders: an idle partner takes one all the same. -/
theorem run_overfull :
    ∃ answers s p, runSteps OrderService.step (new ["P"] 0 []) assigned = .ok (answers, s) ∧
      s.partners.get? "P" = some p ∧ ¬ (p.active.size : Int) ≤ s.maxOrders := by
  obtain ⟨⟨answers, s⟩, hrun, hobserve⟩ := exists_ok_of_observe
    (x := runSteps OrderService.step (new ["P"] 0 []) assigned)
    (f := fun r => ((r.2.partners.get? "P").map fun p => p.active.size, r.2.maxOrders))
    (b := (some 1, 0)) (by decide +kernel)
  obtain ⟨hp, hmax⟩ := Prod.mk.inj hobserve
  obtain ⟨p, hp, hsize⟩ := map_eq_some_iff.mp hp
  refine ⟨answers, s, p, hrun, hp, ?_⟩
  rw [hsize, hmax]
  decide

end OrderService

end InterviewPrep.FoodDelivery
