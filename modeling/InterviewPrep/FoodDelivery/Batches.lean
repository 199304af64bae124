/-
  When the batch of a partner is closed: an order is picked up under its own lock, and the
  partner is marked in a later section.  A partner whose active set has an order that is
  picked up is marked, unless the call that picked it up has still to mark it, or the order
  is there only for a dispatch that has not attached it (`Marked`).
-/
import InterviewPrep.FoodDelivery.Agreement

namespace InterviewPrep.FoodDelivery

open Lib DeliveryPartner Dict Option

namespace OrderService

variable {s s' : OrderService} {t orderId : Nat} {c next : Option Call} {partnerId : String}
  {ord : Order} {p : DeliveryPartner}

theorem terminal_stays (hknown : s.Known) (hturn : Turn s s' t next)
    (hord : s.orders.get? orderId = some ord) (hterminal : ord.status.isTerminal = true) :
    ∃ ord', s'.orders.get? orderId = some ord' ∧ ord'.status.isTerminal = true := by
  obtain ⟨ord', hord', -⟩ := hknown.order hturn.effect hord
  refine ⟨ord', hord', ?_⟩
  cases hturn.effect.order hord' with
  | kept hkept =>
    rw [hord] at hkept
    cases hkept
    exact hterminal
  | placed =>
    have hlt := (hknown.orders orderId ord hord).1
    omega
  | moved hbefore hallowed =>
    rw [hord] at hbefore
    cases hbefore
    rw [not_terminal_of_transitions hallowed] at hterminal
    cases hterminal
  | attached _ hbefore =>
    rw [hord] at hbefore
    cases hbefore
    exact hterminal

/-- A thread with the order picked up and the partner still to be marked. -/
def Marking (s : OrderService) (orderId : Nat) (partnerId : String) : Prop :=
  ∃ t, s.roleAt t = some (.marking, orderId, partnerId)

structure Marked (s : OrderService) : Prop where
  /-- A partner that a call is to release has an order that has ended. -/
  leaving : ∀ t orderId partnerId, s.roleAt t = some (.leaving, orderId, partnerId) →
    ∃ ord, s.orders.get? orderId = some ord ∧ ord.status.isTerminal = true
  /-- The partner of an order that is picked up is marked, or about to be. -/
  marked : ∀ orderId ord partnerId p, s.orders.get? orderId = some ord →
    ord.status = .pickedUp → ord.partnerId = some partnerId →
      s.partners.get? partnerId = some p → p.pickedUp = true ∨ s.Marking orderId partnerId

theorem Marked.leaving_step (h : s.Marked) (hknown : s.Known) (hturn : Turn s s' t next) (t' : Nat)
    (orderId : Nat) (partnerId : String)
    (hrole : s'.roleAt t' = some (.leaving, orderId, partnerId)) :
    ∃ ord, s'.orders.get? orderId = some ord ∧ ord.status.isTerminal = true := by
  have hbefore : ∀ t0, s.roleAt t0 = some (.leaving, orderId, partnerId) →
      ∃ ord, s'.orders.get? orderId = some ord ∧ ord.status.isTerminal = true := by
    intro t0 hrole
    obtain ⟨ord, hord, hterminal⟩ := h.leaving t0 orderId partnerId hrole
    exact terminal_stays hknown hturn hord hterminal
  rw [hturn.roleAt] at hrole
  split at hrole
  case isFalse => exact hbefore t' hrole
  obtain ⟨c, hcall⟩ : ∃ c, s.calls.get? t = c := ⟨_, rfl⟩
  have heffect := hcall ▸ hturn.effect
  cases heffect with
  | quiet _ _ hsame => exact hbefore t (by rw [OrderService.roleAt, hcall, ← hsame, hrole])
  | placed _ hnext => rw [hnext] at hrole; cases hrole
  | @moved _ _ _ _ _ _ _ _ _ hnext horders =>
    rw [hnext, Order.after] at hrole
    split at hrole
    · obtain ⟨_, -, heq⟩ := map_eq_some_iff.mp hrole
      cases heq
    split at hrole
    next hterminal =>
      obtain ⟨_, -, heq⟩ := map_eq_some_iff.mp hrole
      cases heq
      exact ⟨_, by rw [horders, get?_set_self], hterminal⟩
    · cases hrole
  | claimed => cases hrole
  | attached => cases hrole
  | freed _ _ _ hnext => rw [hnext] at hrole; cases hrole
  | marked => cases hrole
  | switched => exact hbefore t (by rw [OrderService.roleAt, hcall, hrole])

variable {p' : DeliveryPartner}

theorem Marked.kept (h : s.Marked) (hord : s.orders.get? orderId = some ord)
    (hstatus : ord.status = .pickedUp) (hpartner : ord.partnerId = some partnerId)
    (hp : ∃ p, s.partners.get? partnerId = some p ∧ (p.pickedUp = true → p'.pickedUp = true))
    (hmarking : s.Marking orderId partnerId → s'.Marking orderId partnerId) :
    p'.pickedUp = true ∨ s'.Marking orderId partnerId := by
  obtain ⟨p, hp, hkeep⟩ := hp
  obtain hmarked | hsoon := h.marked orderId ord partnerId p hord hstatus hpartner hp
  · exact .inl (hkeep hmarked)
  · exact .inr (hmarking hsoon)

theorem Turn.marking (hturn : Turn s s' t next)
    (hrole : s.roleAt t = some (.marking, orderId, partnerId) →
      roleOf next = some (.marking, orderId, partnerId)) (h : s.Marking orderId partnerId) :
    s'.Marking orderId partnerId := by
  obtain ⟨t', ht'⟩ := h
  refine ⟨t', ?_⟩
  rw [hturn.roleAt]
  split
  next heq => exact hrole (heq ▸ ht')
  · exact ht'

theorem Agreed.released (h : s'.Agreed) {freedId : Nat} (hord : s'.orders.get? orderId = some ord)
    (hstatus : ord.status = .pickedUp) (hpartner : ord.partnerId = some partnerId)
    (hp : s'.partners.get? partnerId = some (p.release freedId)) :
    (p.release freedId).pickedUp = p.pickedUp := by
  have hheld : Held s'.holding (orderId, partnerId) := by
    refine ⟨.order orderId, ?_⟩
    rw [s'.holding_order hord, Order.carrier, hstatus, hpartner]
    rfl
  have hactive := (h.member partnerId _ hp orderId).mpr hheld
  rw [DeliveryPartner.release]
  apply if_neg
  intro hempty
  have hnone : (p.release freedId).active = Dict.empty := Dict.ext hempty
  rw [hnone] at hactive
  cases hactive

theorem Marked.step (h : s.Marked) (hagreed : s.Agreed) (hturn : Turn s s' t next) :
    s'.Marked := by
  refine ⟨h.leaving_step hagreed.known hturn,
    fun orderId ord partnerId p' hord hstatus hpartner hp' =>
    ?_⟩
  have hagreed' := hagreed.step hturn
  obtain ⟨c, hcall⟩ : ∃ c, s.calls.get? t = c := ⟨_, rfl⟩
  have hrole : s.roleAt t = roleOf c := by rw [OrderService.roleAt, hcall]
  have hfree : roleOf c = none → s.Marking orderId partnerId → s'.Marking orderId partnerId :=
    fun hnone => hturn.marking fun hmarking => by
      rw [hrole, hnone] at hmarking
      cases hmarking
  have heffect := hcall ▸ hturn.effect
  cases heffect with
  | quiet horders hpartners hsame =>
    exact h.kept (horders ▸ hord) hstatus hpartner ⟨p', hpartners ▸ hp', id⟩
      (hturn.marking fun hmarking => by rw [hsame, ← hrole, hmarking])
  | placed hc _ hnew _ horders hpartners =>
    rw [horders] at hord
    obtain ⟨-, rfl⟩ | ⟨-, hord⟩ := get?_set_some hord
    · obtain ⟨_, _, _, _, rfl⟩ := hnew
      cases hstatus
    · exact h.kept hord hstatus hpartner ⟨p', hpartners ▸ hp', id⟩ (hfree hc)
  | @moved _ _ ord0 status _ _ _ _ _ hnext horders hpartners =>
    rw [horders] at hord
    obtain ⟨rfl, rfl⟩ | ⟨-, hord⟩ := get?_set_some hord
    · -- the call that has picked the order up is the one that will mark the partner
      have hstatus : status = .pickedUp := hstatus
      subst hstatus
      have hpartner : ord0.partnerId = some partnerId := hpartner
      refine .inr ⟨t, ?_⟩
      rw [hturn.roleAt, if_pos rfl, hnext, Order.after, if_pos rfl, hpartner]
      rfl
    · exact h.kept hord hstatus hpartner ⟨p', hpartners ▸ hp', id⟩ (hfree rfl)
  | claimed hp hclaim horders hpartners =>
    refine h.kept (horders ▸ hord) hstatus hpartner ?_ (hfree rfl)
    rw [hpartners] at hp'
    obtain ⟨rfl, rfl⟩ | ⟨-, hp'⟩ := get?_set_some hp'
    · obtain ⟨-, -, rfl⟩ := tryClaim_eq_some hclaim
      exact ⟨_, hp, id⟩
    · exact ⟨p', hp', id⟩
  | attached _ hdispatchable _ horders hpartners =>
    rw [horders] at hord
    obtain ⟨rfl, rfl⟩ | ⟨-, hord⟩ := get?_set_some hord
    · have hstatus := hstatus
      dsimp only at hstatus
      rw [hstatus] at hdispatchable
      cases hdispatchable
    · refine h.kept hord hstatus hpartner ⟨p', hpartners ▸ hp', id⟩
        (hturn.marking fun hmarking => ?_)
      rw [hrole] at hmarking
      cases hmarking
  | @freed _ _ _ _ _ p hc hmark hp _ horders hpartners =>
    refine h.kept (horders ▸ hord) hstatus hpartner ?_ (hturn.marking fun hmarking => ?_)
    · have hset := hp'
      rw [hpartners] at hset
      obtain ⟨rfl, rfl⟩ | ⟨-, hset⟩ := get?_set_some hset
      · exact ⟨p, hp, fun hmarked => by rw [hagreed'.released hord hstatus hpartner hp', hmarked]⟩
      · exact ⟨p', hset, id⟩
    · rw [hrole, roleOf_some, hc] at hmarking
      cases hmarking
      exact absurd rfl hmark
  | @marked markedId _ p hp horders hpartners =>
    rw [hpartners] at hp'
    have hactive : ∀ q, s.partners.get? partnerId = some q → (q.active.get? orderId).isSome := by
      intro q hq
      rw [hagreed.member partnerId q hq]
      refine ⟨.order orderId, ?_⟩
      rw [s.holding_order (horders ▸ hord), Order.carrier, hstatus, hpartner]
      rfl
    obtain ⟨rfl, rfl⟩ | ⟨hne, hp'⟩ := get?_set_some hp'
    · by_cases hid : markedId = orderId
      · subst hid
        left
        rw [markPickedUp_pickedUp, hactive p hp]
        rfl
      · refine h.kept (horders ▸ hord) hstatus hpartner ⟨p, hp, fun hmarked => ?_⟩
          (hturn.marking fun hmarking => ?_)
        · rw [markPickedUp_pickedUp, hmarked, Bool.or_true]
        · rw [hrole] at hmarking
          cases hmarking
          exact absurd rfl hid
    · refine h.kept (horders ▸ hord) hstatus hpartner ⟨p', hp', id⟩
        (hturn.marking fun hmarking => ?_)
      rw [hrole] at hmarking
      cases hmarking
      exact absurd rfl hne
  | switched hp horders hpartners =>
    refine h.kept (horders ▸ hord) hstatus hpartner ?_
      (hturn.marking fun hmarking => by rw [← hrole, hmarking])
    rw [hpartners] at hp'
    obtain ⟨rfl, rfl⟩ | ⟨-, hp'⟩ := get?_set_some hp'
    · exact ⟨_, hp, id⟩
    · exact ⟨p', hp', id⟩

/-! ## Claims -/

/-- The order is on its way to the customer. -/
def Out (s : OrderService) (orderId : Nat) : Prop :=
  ∃ ord, s.orders.get? orderId = some ord ∧ ord.status = .pickedUp

/-- A dispatch has claimed the partner for the order, and has not attached it nor given it back. -/
def Dispatching (s : OrderService) (orderId : Nat) (partnerId : String) : Prop :=
  ∃ t, s.roleAt t = some (.dispatching, orderId, partnerId)

theorem Agreed.out (h : s.Agreed) (hmarked : s.Marked) (hp : s.partners.get? partnerId = some p)
    (hactive : orderId ∈ p.active.keys) (hout : s.Out orderId) :
    p.pickedUp = true ∨ s.Marking orderId partnerId ∨ s.Dispatching orderId partnerId := by
  obtain ⟨ord, hord, hstatus⟩ := hout
  obtain ⟨r, hr⟩ := mem_keys.mp hactive
  obtain ⟨w, hw⟩ := (h.member partnerId p hp orderId).mp (by rw [hr]; rfl)
  cases w with
  | order =>
    obtain ⟨ord', hord', hw⟩ := bind_eq_some_iff.mp hw
    obtain ⟨_, hcarrier, hw⟩ := map_eq_some_iff.mp hw
    cases hw
    rw [hord] at hord'
    cases hord'
    rw [Order.carrier, hstatus] at hcarrier
    obtain hmark | hsoon := hmarked.marked orderId ord partnerId p hord hstatus hcarrier hp
    · exact .inl hmark
    · exact .inr (.inl hsoon)
  | thread t =>
  obtain ⟨⟨role, pair⟩, hrole, hw⟩ := bind_eq_some_iff.mp hw
  dsimp only at hw
  split at hw
  · cases hw
  next hne =>
  cases hw
  cases role with
  | dispatching => exact .inr (.inr ⟨t, hrole⟩)
  | leaving =>
    obtain ⟨ord', hord', hterminal⟩ := hmarked.leaving t orderId partnerId hrole
    rw [hord] at hord'
    cases hord'
    rw [hstatus] at hterminal
    cases hterminal
  | marking => exact absurd rfl hne

theorem Effect.claim (heffect : Effect s s' c next)
    (hp : s.partners.get? partnerId = some p) (hp' : s'.partners.get? partnerId = some p')
    (hbefore : orderId ∉ p.active.keys) (hafter : orderId ∈ p'.active.keys) :
    p.active.items ≠ [] → p.pickedUp = false := by
  have hnew : p'.active ≠ p.active := fun heq => hbefore (heq ▸ hafter)
  cases heffect.partner hp' with
  | kept hkept =>
    rw [hp] at hkept
    cases hkept
    exact absurd rfl hnew
  | claimed _ _ hclaimed hclaim =>
    rw [hp] at hclaimed
    cases hclaimed
    exact fun hactive => ((tryClaim_eq_some hclaim).2.1 hactive).2.1
  | @freed _ _ _ _ _ _ hfreed =>
    rw [hp] at hfreed
    cases hfreed
    exact absurd (mem_keys_erase.mp hafter).2 hbefore
  | marked _ _ hmarked =>
    rw [hp] at hmarked
    cases hmarked
    exact absurd markPickedUp_active hnew
  | switched hswitched =>
    rw [hp] at hswitched
    cases hswitched
    exact absurd rfl hnew

theorem new_marked {partnerIds failCustomers : List String} {maxOrders : Int} :
    (new partnerIds maxOrders failCustomers).Marked where
  leaving := by rintro _ _ _ ⟨⟩
  marked := by rintro _ _ _ _ ⟨⟩

/-- When a partner gains a further order, none of its active orders is picked up exactly when none
    that is picked up has its partner still to be marked, or is there for a dispatch under way. -/
theorem run_closed (partnerIds failCustomers : List String) (maxOrders : Int) (ops : List Op) :
    ∃ answers s, runSteps OrderService.step (new partnerIds maxOrders failCustomers) ops =
        .ok (answers, s) ∧ ∀ op partnerId p p' orderId, s.partners.get? partnerId = some p →
        (s.act op).2.partners.get? partnerId = some p' → orderId ∉ p.active.keys →
        orderId ∈ p'.active.keys →
        ((∀ x ∈ p.active.keys, ¬ s.Out x) ↔ ∀ x ∈ p.active.keys, s.Out x →
          ¬ s.Marking x partnerId ∧ ¬ s.Dispatching x partnerId) := by
  have hact : ∀ (s : OrderService) (op : Op), s.Agreed ∧ s.Marked →
      (s.act op).2.Agreed ∧ (s.act op).2.Marked := by
    rintro s op ⟨hagreed, hmarked⟩
    obtain ⟨t, next, hturn⟩ := hagreed.known.turn op
    exact ⟨hagreed.step hturn, hmarked.step hagreed hturn⟩
  obtain ⟨answers, s, hrun, hagreed, hmarked⟩ :=
    runSteps_total step_eq_act hact ⟨new_agreed, new_marked⟩ ops
  refine ⟨answers, s, hrun, fun op partnerId p p' orderId hp hp' hbefore hafter => ?_⟩
  obtain ⟨t, next, hturn⟩ := hagreed.known.turn op
  have hclaim := hturn.effect.claim hp hp' hbefore hafter
  constructor
  · exact fun hnone x hx hout => absurd hout (hnone x hx)
  intro hsettled x hx hout
  have hactive : p.active.items ≠ [] := by
    intro hempty
    rw [Dict.keys, hempty] at hx
    cases hx
  obtain hmark | hmarking | hdispatching := hagreed.out hmarked hp hx hout
  · rw [hclaim hactive] at hmark
    cases hmark
  · exact (hsettled x hx hout).1 hmarking
  · exact (hsettled x hx hout).2 hdispatching

/-- The order 1 is picked up, its partner not marked yet, and a dispatch of 2 claims the partner. -/
def pickedUp : List Op :=
  assigned ++ [.startPreparing 0 1, .markReady 0 1,
    .placeOrder 1 ("B", "k") ⟨"R", [("I", 1)], none⟩, .price 1 (.ok 100), .go 1, .go 1, .go 1,
    .accept 1 2, .go 1, .go 1, .rank 1 ["P"], .pickUp 0 1 "P"]

/-- A partner with an order on its way gains another one. -/
theorem run_reopened :
    ∃ answers s p p', runSteps OrderService.step (new ["P"] 2 []) pickedUp = .ok (answers, s) ∧
      s.partners.get? "P" = some p ∧ (s.act (.go 1)).2.partners.get? "P" = some p' ∧
      2 ∉ p.active.keys ∧ 2 ∈ p'.active.keys ∧ 1 ∈ p.active.keys ∧ s.Out 1 := by
  obtain ⟨⟨answers, s⟩, hrun, hobserve⟩ := exists_ok_of_observe
    (x := runSteps OrderService.step (new ["P"] 2 []) pickedUp)
    (f := fun r => ((r.2.partners.get? "P").map fun p => p.active.keys,
      ((r.2.act (.go 1)).2.partners.get? "P").map fun p => p.active.keys,
      (r.2.orders.get? 1).map Order.status))
    (b := (some [1], some [1, 2], some .pickedUp)) (by decide +kernel)
  obtain ⟨hp, hobserve⟩ := Prod.mk.inj hobserve
  obtain ⟨hp', hord⟩ := Prod.mk.inj hobserve
  obtain ⟨p, hp, hkeys⟩ := map_eq_some_iff.mp hp
  obtain ⟨p', hp', hkeys'⟩ := map_eq_some_iff.mp hp'
  obtain ⟨ord, hord, hstatus⟩ := map_eq_some_iff.mp hord
  refine ⟨answers, s, p, p', hrun, hp, hp', ?_, ?_, ?_, ord, hord, hstatus⟩
  · rw [hkeys]
    decide
  · rw [hkeys']
    decide
  · rw [hkeys]
    decide

end OrderService

end InterviewPrep.FoodDelivery
