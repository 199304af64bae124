/-
  What the order book is for, without its data structures: a market holds each side as one list of
  orders in price-time priority (best price first, then the smaller order id).  A taker walks the
  contra list while it has quantity left and the next price crosses (`sweep`), at each maker's
  price.  `Market.apply` answers every command with the same report as the book
  (`Refinement.apply_refines`); the properties of runs are proved here and carried over.

  `LevelRep` ties a `PriceLevel` to the orders of its price, `SideRep` ties a `BookSide` to the
  whole list: the level of price `p` holds exactly the orders of that price, in list order, and
  the heap has an entry for every level.  Stale heap entries are allowed; `bestLevel_rep` is where
  they are cleaned up.

  Memory frames are stated on the objects: a write that leaves the orders of a side (of a price)
  alone leaves its representation alone.
-/
import InterviewPrep.OrderMatching.OrderBook

namespace InterviewPrep.OrderMatching

open List

/-- The price of a resting order. -/
def Order.tick (o : Order) : Int := o.price.getD 0

@[simp] theorem Order.filledBy_tick (o : Order) (q : Int) : (o.filledBy q).tick = o.tick := rfl

/-- Price-time priority on one side. -/
def Order.Before (side : Side) (a b : Order) : Prop :=
  side.key a.tick < side.key b.tick ∨ a.tick = b.tick ∧ a.orderId < b.orderId

instance (side : Side) : DecidableRel (Order.Before side) := fun _ _ =>
  inferInstanceAs (Decidable (_ ∨ _))

def Order.accepts (taker : Order) (price : Int) : Bool :=
  match taker.orderType with
  | .market => true
  | .limit =>
    match taker.side with
    | .buy => price ≤ taker.tick
    | .sell => price ≥ taker.tick

@[simp] theorem Order.filledBy_accepts (o : Order) (q : Int) :
    (o.filledBy q).accepts = o.accepts := rfl

/-- What is left of a maker that was filled: nothing, once nothing remains. -/
def Order.residue (o : Order) : List Order := if o.remaining = 0 then [] else [o]

/-- The trade of `qty` between the taker and the maker. -/
def tradeOf (seq : Int) (tradeId : Nat) (taker maker : Order) (qty : Int) : Trade :=
  { seq, tradeId, price := maker.tick, quantity := qty, makerOrderId := maker.orderId,
    takerOrderId := taker.orderId, takerSide := taker.side }

/-- The outcome of a sweep: the trades, the taker, and what is left of the makers. -/
structure Sweep where
  trades : List Trade
  taker : Order
  makers : List Order

/-- Walk the makers in priority order while the taker has quantity left and the price crosses. -/
def sweep (seq : Int) : Nat → Order → List Order → Sweep
  | _, taker, [] => ⟨[], taker, []⟩
  | tradeId, taker, maker :: makers =>
    if 0 < taker.remaining ∧ taker.accepts maker.tick then
      let qty := min taker.remaining maker.remaining
      let after := sweep seq (tradeId + 1) (taker.filledBy qty) makers
      { trades := tradeOf seq tradeId taker maker qty :: after.trades
        taker := after.taker
        makers := (maker.filledBy qty).residue ++ after.makers }
    else
      ⟨[], taker, maker :: makers⟩

/-- The quantity resting at prices the taker accepts. -/
def available (taker : Order) (makers : List Order) : Int :=
  ((makers.filter fun o => taker.accepts o.tick).map Order.remaining).sum

/-! ## The market -/

structure Market where
  bids : List Order
  asks : List Order
  tradeIds : Nat

namespace Market

def init : Market := ⟨[], [], 1⟩

def ownSide (mk : Market) : Side → List Order
  | .buy => mk.bids
  | .sell => mk.asks

def setSide (mk : Market) (side : Side) (orders : List Order) : Market :=
  match side with
  | .buy => { mk with bids := orders }
  | .sell => { mk with asks := orders }

/-- Every resting order. -/
def orders (mk : Market) : List Order := mk.bids ++ mk.asks

@[simp] theorem ownSide_setSide (mk : Market) (s : Side) (L : List Order) :
    (mk.setSide s L).ownSide s = L := by
  cases s <;> rfl

theorem ownSide_setSide_of_ne (mk : Market) {s t : Side} (L : List Order) (h : t ≠ s) :
    (mk.setSide s L).ownSide t = mk.ownSide t := by
  cases s <;> cases t <;> first | rfl | exact absurd rfl h

@[simp] theorem tradeIds_setSide (mk : Market) (s : Side) (L : List Order) :
    (mk.setSide s L).tradeIds = mk.tradeIds := by
  cases s <;> rfl

theorem mem_orders {mk : Market} {o : Order} : o ∈ mk.orders ↔ ∃ s, o ∈ mk.ownSide s := by
  rw [orders, mem_append]
  constructor
  · rintro (h | h)
    · exact ⟨.buy, h⟩
    · exact ⟨.sell, h⟩
  · rintro ⟨s, h⟩
    cases s
    · exact Or.inl h
    · exact Or.inr h

/-- A taker sweeps the contra side. -/
def take (mk : Market) (seq : Int) (taker : Order) : Sweep :=
  sweep seq mk.tradeIds taker (mk.ownSide taker.side.opposite)

def afterSweep (mk : Market) (contra : Side) (s : Sweep) : Market :=
  { mk.setSide contra s.makers with tradeIds := mk.tradeIds + s.trades.length }

@[simp] theorem ownSide_afterSweep (mk : Market) (c : Side) (s : Sweep) :
    (mk.afterSweep c s).ownSide c = s.makers := by
  cases c <;> rfl

/-- The order joins its own side. -/
def rest (mk : Market) (o : Order) : Market :=
  mk.setSide o.side ((mk.ownSide o.side).orderedInsert (Order.Before o.side) o)

/-- A valid order that the fill-or-kill check lets through. -/
def matchAndRest (mk : Market) (seq : Int) (order : Order) (events : List Event) :
    ExecutionReport × Market :=
  let s := mk.take seq order
  let mk := mk.afterSweep order.side.opposite s
  let events := events ++ s.trades.map .trade
  if 0 < s.taker.remaining then
    if order.orderType = .limit ∧ order.tif = .gtc then
      (OrderBook.report seq s.taker (events ++
        [.orderRested seq order.orderId order.side order.tick s.taker.remaining]),
       mk.rest s.taker)
    else
      (OrderBook.report seq { s.taker with status := .cancelled } (events ++
        [.orderCancelled seq order.orderId s.taker.remaining
          "unfilled remainder of IOC/market order"]), mk)
  else
    (OrderBook.report seq s.taker events, mk)

def newOrder (mk : Market) (seq : Int) (cmd : NewOrder) : ExecutionReport × Market :=
  match OrderBook.validate cmd with
  | some reason =>
    ({ seq, orderId := seq, status := .rejected, filledQuantity := 0,
       remainingQuantity := cmd.quantity, events := [.orderRejected seq seq reason] }, mk)
  | none =>
    let order := Order.init seq cmd
    if cmd.tif = .fok ∧ available order (mk.ownSide cmd.side.opposite) < cmd.quantity then
      (OrderBook.report seq { order with status := .cancelled }
        [.orderAccepted seq seq,
         .orderCancelled seq seq cmd.quantity "FOK: insufficient liquidity"], mk)
    else
      mk.matchAndRest seq order [.orderAccepted seq seq]

/-- The resting order with this id. -/
def find? (mk : Market) (orderId : Int) : Option Order :=
  mk.orders.find? fun o => o.orderId = orderId

def cancel (mk : Market) (seq : Int) (cmd : CancelOrder) : ExecutionReport × Market :=
  match mk.find? cmd.orderId with
  | none =>
    ({ seq, orderId := cmd.orderId, status := .rejected, filledQuantity := 0,
       remainingQuantity := 0,
       events := [.orderRejected seq cmd.orderId "cancel rejected: order not live"] }, mk)
  | some o =>
    (OrderBook.report seq { o with status := .cancelled }
      [.orderCancelled seq o.orderId o.remaining "cancelled by client"],
     mk.setSide o.side ((mk.ownSide o.side).filter fun x => x.orderId ≠ o.orderId))

def apply (mk : Market) (seq : Int) : Command → ExecutionReport × Market
  | .newOrder cmd => mk.newOrder seq cmd
  | .cancelOrder cmd => mk.cancel seq cmd

end Market

open Lib

def atPrice (p : Int) (orders : List Order) : List Order :=
  orders.filter fun o => o.price = some p

/-- An order that may rest on side `s`. -/
structure Resting (s : Side) (o : Order) : Prop where
  side : o.side = s
  orderType : o.orderType = .limit
  price : o.price = some o.tick
  tick_pos : 0 < o.tick
  remaining_pos : 0 < o.remaining
  remaining_le : o.remaining ≤ o.quantity

variable {s : Side} {p : Int} {L : List Order} {o : Order}

theorem Side.key_inj {q : Int} : s.key p = s.key q ↔ p = q := by
  cases s <;> simp [Side.key]

theorem Side.natAbs_key (hp : 0 < p) : ((s.key p).natAbs : Int) = p := by
  cases s <;> simp only [Side.key] <;> omega

/-! ## Lists in priority order -/

theorem mem_atPrice : o ∈ atPrice p L ↔ o ∈ L ∧ o.price = some p := by
  simp [atPrice]

theorem atPrice_cons_of_eq (L : List Order) (h : o.price = some p) :
    atPrice p (o :: L) = o :: atPrice p L :=
  filter_cons_of_pos (by simpa using h)

theorem atPrice_cons_of_ne (L : List Order) (h : o.price ≠ some p) :
    atPrice p (o :: L) = atPrice p L :=
  filter_cons_of_neg (by simpa using h)

theorem atPrice_append (p : Int) (L M : List Order) :
    atPrice p (L ++ M) = atPrice p L ++ atPrice p M :=
  filter_append ..

theorem atPrice_eq_self (h : ∀ o ∈ L, o.price = some p) : atPrice p L = L :=
  filter_eq_self.mpr fun o ho => by simpa using h o ho

theorem atPrice_eq_nil (h : ∀ o ∈ L, o.price ≠ some p) : atPrice p L = [] :=
  filter_eq_nil_iff.mpr fun o ho => by simpa using h o ho

/-- The list is in priority order and its orders may rest on the side. -/
structure Ranked (s : Side) (L : List Order) : Prop where
  sorted : L.Pairwise (Order.Before s)
  resting : ∀ o ∈ L, Resting s o

theorem Order.Before.trans {a b c : Order} (hab : a.Before s b) (hbc : b.Before s c) :
    a.Before s c := by
  rcases hab with h | ⟨h, hi⟩ <;> rcases hbc with h' | ⟨h', hi'⟩
  · exact Or.inl (h.trans h')
  · exact Or.inl (h' ▸ h)
  · exact Or.inl (h ▸ h')
  · exact Or.inr ⟨h.trans h', hi.trans hi'⟩

theorem Order.Before.key_le {a b : Order} (h : a.Before s b) : s.key a.tick ≤ s.key b.tick := by
  rcases h with h | ⟨h, -⟩
  · exact h.le
  · rw [h]

theorem Resting.price_eq (h : Resting s o) : o.price = some p ↔ o.tick = p := by
  rw [h.price, Option.some.injEq]

namespace Ranked

variable {s : Side} {o : Order} {L : List Order}

theorem nil (s : Side) : Ranked s [] := ⟨List.Pairwise.nil, by simp⟩

theorem sublist {M : List Order} (h : Ranked s L) (hM : M.Sublist L) : Ranked s M :=
  ⟨h.sorted.sublist hM, fun o ho => h.resting o (hM.subset ho)⟩

theorem tail (h : Ranked s (o :: L)) : Ranked s L := h.sublist (sublist_cons_self o L)

theorem head_key_le (h : Ranked s (o :: L)) : ∀ x ∈ o :: L, s.key o.tick ≤ s.key x.tick := by
  intro x hx
  rcases mem_cons.mp hx with rfl | hx
  · exact le_refl _
  · exact ((pairwise_cons.mp h.sorted).1 x hx).key_le

theorem eq_atPrice_append (h : Ranked s L) (hmin : ∀ x ∈ L, s.key p ≤ s.key x.tick) :
    L = atPrice p L ++ L.filter fun x => x.price ≠ some p := by
  induction L with
  | nil => rfl
  | cons x L ih =>
    have hx := h.resting x (mem_cons_self ..)
    by_cases hxp : x.price = some p
    · have hrest := ih h.tail fun y hy => hmin y (mem_cons_of_mem _ hy)
      rw [atPrice_cons_of_eq L hxp, List.filter_cons_of_neg (by simpa using hxp),
        cons_append, ← hrest]
    -- every order from `x` on is strictly behind `p`
    have hne : x.tick ≠ p := fun e => hxp (hx.price_eq.mpr e)
    have hlt : s.key p < s.key x.tick :=
      lt_of_le_of_ne (hmin x (mem_cons_self ..)) fun e => hne (Side.key_inj.mp e).symm
    have hall : ∀ y ∈ x :: L, y.price ≠ some p := by
      intro y hy hyp
      have hyt := (h.resting y hy).price_eq.mp hyp
      exact absurd (lt_of_lt_of_le hlt (h.head_key_le y hy)) (by rw [hyt]; exact lt_irrefl _)
    rw [atPrice_eq_nil hall, nil_append]
    exact (List.filter_eq_self.mpr fun y hy => by simpa using hall y hy).symm

theorem eq_flatMap_atPrice {ps : List Int} (h : Ranked s L)
    (hps : ps.Pairwise fun p q => s.key p < s.key q) (hcov : ∀ x ∈ L, x.tick ∈ ps) :
    L = ps.flatMap fun p => atPrice p L := by
  induction ps generalizing L with
  | nil =>
    cases L with
    | nil => rfl
    | cons x => exact absurd (hcov x (mem_cons_self ..)) (by simp)
  | cons p ps ih =>
    obtain ⟨hp, hps⟩ := pairwise_cons.mp hps
    have hmin : ∀ x ∈ L, s.key p ≤ s.key x.tick := by
      intro x hx
      rcases mem_cons.mp (hcov x hx) with he | he
      · rw [he]
      · exact (hp _ he).le
    have hsplit := h.eq_atPrice_append hmin
    let R := L.filter fun x => x.price ≠ some p
    have hR : R = ps.flatMap fun q => atPrice q R := by
      refine ih (h.sublist filter_sublist) hps fun x hx => ?_
      obtain ⟨hx, hne⟩ := mem_filter.mp hx
      rcases mem_cons.mp (hcov x hx) with he | he
      · exact absurd ((h.resting x hx).price_eq.mpr he) (by simpa using hne)
      · exact he
    have hq : ∀ q ∈ ps, atPrice q R = atPrice q L := by
      intro q hq
      have hqp : q ≠ p := fun e => absurd (hp q hq) (by rw [e]; exact lt_irrefl _)
      rw [atPrice, atPrice, List.filter_filter]
      refine filter_congr fun x _ => ?_
      by_cases hx : x.price = some q <;> simp [hx, hqp]
    calc L = atPrice p L ++ R := hsplit
      _ = atPrice p L ++ ps.flatMap fun q => atPrice q R := by rw [← hR]
      _ = atPrice p L ++ ps.flatMap fun q => atPrice q L := by
          rw [flatMap_congr hq]
      _ = (p :: ps).flatMap fun q => atPrice q L := by rw [flatMap_cons]

end Ranked

/-! ## An order that rests -/

section OrderedInsert

variable {s : Side} {o : Order} {L : List Order}

theorem atPrice_orderedInsert_of_ne {q : Int} (hq : o.price ≠ some q) :
    atPrice q (L.orderedInsert (Order.Before s) o) = atPrice q L := by
  induction L with
  | nil => exact atPrice_eq_nil (by simpa using hq)
  | cons x _ ih =>
    by_cases hox : o.Before s x
    · rw [orderedInsert_cons, if_pos hox, atPrice_cons_of_ne _ hq]
    · rw [orderedInsert_cons, if_neg hox]
      by_cases hx : x.price = some q
      · rw [atPrice_cons_of_eq _ hx, atPrice_cons_of_eq _ hx, ih]
      · rw [atPrice_cons_of_ne _ hx, atPrice_cons_of_ne _ hx, ih]

theorem Order.Before.of_not {x : Order} (hid : x.orderId < o.orderId) (h : ¬ o.Before s x) :
    x.Before s o := by
  simp only [Order.Before, not_or, not_lt] at h
  rcases lt_or_eq_of_le h.1 with hlt | heq
  · exact Or.inl hlt
  · exact Or.inr ⟨Side.key_inj.mp heq, hid⟩

theorem atPrice_orderedInsert_self (hL : Ranked s L) (ho : Resting s o)
    (hid : ∀ x ∈ L, x.orderId < o.orderId) :
    atPrice o.tick (L.orderedInsert (Order.Before s) o) = atPrice o.tick L ++ [o] := by
  induction L with
  | nil => exact atPrice_cons_of_eq [] ho.price
  | cons x L ih =>
    have hrest := ih hL.tail fun y hy => hid y (mem_cons_of_mem _ hy)
    by_cases hox : o.Before s x
    · have hlt : s.key o.tick < s.key x.tick := by
        rcases hox with h | ⟨-, h⟩
        · exact h
        · exact absurd h (not_lt.mpr (hid x (mem_cons_self ..)).le)
      have hnone : atPrice o.tick (x :: L) = [] := by
        refine atPrice_eq_nil fun y hy hyp => ?_
        have hyt := (hL.resting y hy).price_eq.mp hyp
        exact absurd (lt_of_lt_of_le hlt (hL.head_key_le y hy)) (by rw [hyt]; exact lt_irrefl _)
      rw [orderedInsert_cons, if_pos hox, atPrice_cons_of_eq _ ho.price, hnone,
        nil_append]
    · rw [orderedInsert_cons, if_neg hox]
      by_cases hx : x.price = some o.tick
      · rw [atPrice_cons_of_eq _ hx, atPrice_cons_of_eq _ hx, hrest, cons_append]
      · rw [atPrice_cons_of_ne _ hx, atPrice_cons_of_ne _ hx, hrest]

theorem Ranked.orderedInsert (hL : Ranked s L) (ho : Resting s o)
    (hid : ∀ x ∈ L, x.orderId < o.orderId) : Ranked s (L.orderedInsert (Order.Before s) o) := by
  refine ⟨?_, fun x hx => ?_⟩
  · induction L with
    | nil => exact pairwise_singleton ..
    | cons x _ ih =>
      obtain ⟨hxL, hsorted⟩ := pairwise_cons.mp hL.sorted
      rw [orderedInsert_cons]
      split
      · next hox =>
          refine pairwise_cons.mpr ⟨fun y hy => ?_, hL.sorted⟩
          rcases mem_cons.mp hy with rfl | hy
          · exact hox
          · exact hox.trans (hxL y hy)
      · next hox =>
          refine pairwise_cons.mpr ⟨fun y hy => ?_,
            ih hL.tail fun y hy => hid y (mem_cons_of_mem _ hy)⟩
          rcases (mem_orderedInsert _).mp hy with rfl | hy
          · exact Order.Before.of_not (hid x (mem_cons_self ..)) hox
          · exact hxL y hy
  · rcases (mem_orderedInsert _).mp hx with rfl | hx
    · exact ho
    · exact hL.resting x hx

end OrderedInsert

/-! ## One level -/

/-- The level holds the orders `Q` of price `p`, each under its id. -/
structure LevelRep (mem : Memory Order) (level : PriceLevel) (p : Int) (Q : List Order) :
    Prop where
  price : level.price = p
  orders : level.orders.items.map (fun x => (x.1, mem.read x.2)) =
    Q.map (fun o => (o.orderId, o))
  total : level.totalQuantity = (Q.map Order.remaining).sum

namespace LevelRep

variable {mem mem' : Memory Order} {level : PriceLevel} {p i : Int} {o : Order} {Q : List Order}
  {r : Ref}

theorem init (mem : Memory Order) (p : Int) : LevelRep mem (PriceLevel.init p) p [] :=
  ⟨rfl, rfl, rfl⟩

section

variable (h : LevelRep mem level p Q)

include h

theorem keys : level.orders.keys = Q.map Order.orderId := by
  have := congrArg (map Prod.fst) h.orders
  simpa [Dict.keys, map_map, Function.comp_def] using this

theorem len : level.len = Q.length := by
  have := congrArg length h.keys
  simpa [Dict.keys, PriceLevel.len, Dict.size] using this

theorem mem_of_item (hr : level.orders.get? i = some r) :
    mem.read r ∈ Q ∧ (mem.read r).orderId = i := by
  have hm : (i, mem.read r) ∈ Q.map (fun o => (o.orderId, o)) := by
    rw [← h.orders]
    exact mem_map_of_mem (Dict.mem_items.mpr hr)
  obtain ⟨o, ho, he⟩ := mem_map.mp hm
  rw [Prod.mk.injEq] at he
  exact ⟨he.2 ▸ ho, he.2 ▸ he.1⟩

theorem ref_unique {j : Int} (hi : level.orders.get? i = some r)
    (hj : level.orders.get? j = some r) : i = j :=
  (h.mem_of_item hi).2.symm.trans (h.mem_of_item hj).2

theorem item_of_mem (ho : o ∈ Q) :
    ∃ r, level.orders.get? o.orderId = some r ∧ mem.read r = o := by
  have hm : (o.orderId, o) ∈ level.orders.items.map (fun x => (x.1, mem.read x.2)) := by
    rw [h.orders]
    exact mem_map.mpr ⟨o, ho, rfl⟩
  obtain ⟨x, hx, he⟩ := mem_map.mp hm
  rw [Prod.mk.injEq] at he
  exact ⟨x.2, he.1 ▸ Dict.mem_items_iff.mp hx, he.2⟩

theorem frame (hf : ∀ i r, level.orders.get? i = some r → mem'.read r = mem.read r) :
    LevelRep mem' level p Q := by
  refine ⟨h.price, ?_, h.total⟩
  rw [← h.orders]
  refine map_congr_left fun x hx => ?_
  rw [hf x.1 x.2 (Dict.mem_items_iff.mp hx)]

theorem append (hnew : (mem.read r).orderId ∉ Q.map Order.orderId) :
    LevelRep mem (level.append mem r) p (Q ++ [mem.read r]) := by
  refine ⟨h.price, ?_, ?_⟩
  · have hnone : level.orders.get? (mem.read r).orderId = none := by
      rw [Dict.get?_eq_none, h.keys]
      exact hnew
    simp only [PriceLevel.append, Dict.set_items_of_get?_none _ hnone, map_append, h.orders,
      map_cons, map_nil]
  · simp only [PriceLevel.append, h.total, map_append, sum_append, map_cons,
      map_nil, sum_singleton]

theorem remove (hr : level.orders.get? i = some r) :
    ∃ level', level.remove mem i = .ok level' ∧ level'.orders = level.orders.erase i ∧
      LevelRep mem level' p (Q.filter fun o => o.orderId ≠ i) := by
  refine ⟨{ level with
    orders := level.orders.erase i
    totalQuantity := level.totalQuantity - (mem.read r).remaining },
    by rw [PriceLevel.remove, hr], rfl, h.price, ?_, ?_⟩
  · have hf := congrArg (List.filter fun x : Int × Order => x.1 ≠ i) h.orders
    simpa [filter_map, Function.comp_def, Dict.items_erase] using hf
  have hperm : (level.orders.items.map fun x => (mem.read x.2).remaining).Perm
      ((mem.read r).remaining ::
        (level.orders.erase i).items.map fun x => (mem.read x.2).remaining) :=
    (Dict.items_perm_of_get? hr).map _
  have hQ : (Q.map Order.remaining) = level.orders.items.map fun x => (mem.read x.2).remaining := by
    have := congrArg (map fun x : Int × Order => x.2.remaining) h.orders
    simpa [map_map, Function.comp_def] using this.symm
  have hQ' : ((Q.filter fun o => o.orderId ≠ i).map Order.remaining) =
      (level.orders.erase i).items.map fun x => (mem.read x.2).remaining := by
    have := congrArg (fun l => (filter (fun x : Int × Order => x.1 ≠ i) l).map
      fun x : Int × Order => x.2.remaining) h.orders
    simpa [filter_map, Function.comp_def, Dict.items_erase] using this.symm
  have hsum := hperm.sum_eq
  rw [sum_cons, ← hQ, ← hQ'] at hsum
  simp only [h.total, hsum]
  omega

end

theorem head (h : LevelRep mem level p (o :: Q)) :
    ∃ r xs, level.orders.items = (o.orderId, r) :: xs ∧ mem.read r = o ∧ level.head = .ok r := by
  have ho := h.orders
  cases hi : level.orders.items with
  | nil => rw [hi] at ho; cases ho
  | cons x xs =>
    rw [hi] at ho
    simp only [map_cons, cons.injEq, Prod.mk.injEq] at ho
    refine ⟨x.2, xs, by rw [← ho.1.1], ho.1.2, ?_⟩
    simp only [PriceLevel.head, Dict.values, hi, map_cons]

theorem fillHead (h : LevelRep mem level p (o :: Q)) {qty : Int} (h0 : 0 < qty)
    (hq : qty ≤ o.remaining) :
    ∃ r level', level.orders.get? o.orderId = some r ∧ mem.read r = o ∧ level.head = .ok r ∧
      level.fillHead mem qty = .ok (r, level', mem.write r (o.filledBy qty)) ∧
      level'.orders = (if o.remaining - qty = 0 then level.orders.erase o.orderId
        else level.orders) ∧
      LevelRep (mem.write r (o.filledBy qty)) level' p ((o.filledBy qty).residue ++ Q) := by
  obtain ⟨r, xs, hitems, hread, hhead⟩ := h.head
  have hget : level.orders.get? o.orderId = some r := by
    rw [← Dict.mem_items, hitems]
    exact mem_cons_self ..
  have hne : ∀ x ∈ xs, x.2 ≠ r := by
    intro x hx hxr
    have hx' : level.orders.get? x.1 = some r := by
      rw [← hxr, ← Dict.mem_items_iff, hitems]
      exact mem_cons_of_mem _ hx
    have hn := level.orders.nodup
    rw [hitems, map_cons, nodup_cons] at hn
    exact hn.1 (mem_map.mpr ⟨x, hx, h.ref_unique hx' hget⟩)
  have horders := h.orders
  rw [hitems] at horders
  simp only [map_cons, cons.injEq] at horders
  have hrest : xs.map (fun x => (x.1, (mem.write r (o.filledBy qty)).read x.2)) =
      Q.map (fun o => (o.orderId, o)) := by
    rw [← horders.2]
    exact map_congr_left fun x hx => by rw [Memory.read_write_of_ne _ _ (hne x hx)]
  have hfill : (mem.read r).fill qty = .ok (o.filledBy qty) := by
    rw [hread]
    exact Order.fill_eq_ok h0 hq
  have htotal : level.totalQuantity - qty = o.remaining - qty + (Q.map Order.remaining).sum := by
    rw [h.total, map_cons, sum_cons]
    omega
  have hrun : level.fillHead mem qty = if (o.filledBy qty).remaining = 0 then
        .ok (r, { level with totalQuantity := level.totalQuantity - qty,
                             orders := level.orders.dropFirst }, mem.write r (o.filledBy qty))
      else
        .ok (r, { level with totalQuantity := level.totalQuantity - qty },
          mem.write r (o.filledBy qty)) := by
    simp only [PriceLevel.fillHead, hhead, hfill, bind, Except.bind, pure, Except.pure]
  by_cases hz : (o.filledBy qty).remaining = 0
  · rw [if_pos hz] at hrun
    refine ⟨r, _, hget, hread, hhead, hrun, ?_, ?_⟩
    · rw [if_pos (by simpa using hz)]
      exact Dict.dropFirst_eq_erase hitems
    · rw [Order.residue, if_pos hz, nil_append]
      refine ⟨h.price, ?_, ?_⟩
      · simp only [Dict.dropFirst, hitems, tail_cons, hrest]
      · simp only [Order.filledBy_remaining] at hz
        simp only [htotal, hz, zero_add]
  · rw [if_neg hz] at hrun
    refine ⟨r, _, hget, hread, hhead, hrun, by rw [if_neg (by simpa using hz)], ?_⟩
    rw [Order.residue, if_neg hz, singleton_append]
    refine ⟨h.price, ?_, ?_⟩
    · simp only [hitems, map_cons, hrest, Memory.read_write_self, Order.filledBy_orderId]
    · simp only [htotal, map_cons, sum_cons, Order.filledBy_remaining]

end LevelRep

/-! ## The heap of prices -/

/-- The heap has one entry for each price of `inHeap`, all levels included. -/
structure HeapRep (s : Side) (levels : Dict Int PriceLevel) (heap : List Int)
    (inHeap : Finset Int) : Prop where
  isHeap : IsHeap heap
  nodup : heap.Nodup
  entry : ∀ k ∈ heap, ∃ p ∈ inHeap, 0 < p ∧ k = s.key p
  mem_heap : ∀ p ∈ inHeap, s.key p ∈ heap
  covers : ∀ p level, levels.get? p = some level → p ∈ inHeap

namespace HeapRep

variable {s : Side} {levels levels' : Dict Int PriceLevel} {heap : List Int} {inHeap : Finset Int}

theorem mono (h : HeapRep s levels heap inHeap)
    (hl : ∀ p level, levels'.get? p = some level → p ∈ inHeap) : HeapRep s levels' heap inHeap :=
  ⟨h.isHeap, h.nodup, h.entry, h.mem_heap, hl⟩

theorem pop {k : Int} (h : HeapRep s levels (k :: heap) inHeap) (hk : k = s.key p)
    (hp : levels.get? p = none) : HeapRep s levels heap (inHeap.erase p) := by
  obtain ⟨hnot, hnodup⟩ := nodup_cons.mp h.nodup
  refine ⟨h.isHeap.tail, hnodup, ?_, ?_, ?_⟩
  · intro k' hk'
    obtain ⟨q, hq, hpos, rfl⟩ := h.entry k' (mem_cons_of_mem _ hk')
    refine ⟨q, Finset.mem_erase.mpr ⟨?_, hq⟩, hpos, rfl⟩
    rintro rfl
    exact hnot (hk ▸ hk')
  · intro q hq
    obtain ⟨hne, hq⟩ := Finset.mem_erase.mp hq
    rcases mem_cons.mp (h.mem_heap q hq) with he | he
    · exact absurd (Side.key_inj.mp (he.trans hk)) hne
    · exact he
  · intro q level hq
    refine Finset.mem_erase.mpr ⟨?_, h.covers q level hq⟩
    exact ne_of_eq_none hq hp

theorem bestLevelLoop (h : HeapRep s levels heap inHeap) :
    ∃ best heap' inHeap', BookSide.bestLevelLoop levels heap inHeap = (best, heap', inHeap') ∧
      HeapRep s levels heap' inHeap' ∧
      match best with
      | none => ∀ p, levels.get? p = none
      | some level => ∃ p, levels.get? p = some level ∧
          ∀ q level', levels.get? q = some level' → s.key p ≤ s.key q := by
  induction heap generalizing inHeap with
  | nil =>
    refine ⟨none, [], inHeap, rfl, h, fun p => ?_⟩
    cases hp : levels.get? p with
    | none => rfl
    | some level => exact absurd (h.mem_heap p (h.covers p level hp)) (by simp)
  | cons k heap ih =>
    obtain ⟨p, hp, hpos, hk⟩ := h.entry k (mem_cons_self ..)
    have habs : (k.natAbs : Int) = p := by rw [hk, Side.natAbs_key hpos]
    cases hl : levels.get? p with
    | none =>
      obtain ⟨best, heap', inHeap', hrun, hrep, hbest⟩ := ih (h.pop hk hl)
      refine ⟨best, heap', inHeap', ?_, hrep, hbest⟩
      simp only [BookSide.bestLevelLoop, habs, hl]
      exact hrun
    | some level =>
      refine ⟨some level, k :: heap, inHeap, ?_, h, p, hl, ?_⟩
      · simp only [BookSide.bestLevelLoop, habs, hl]
      · intro q level' hq
        rw [← hk]
        rcases mem_cons.mp (h.mem_heap q (h.covers q level' hq)) with he | he
        · exact le_of_eq he.symm
        · exact rel_of_pairwise_cons h.isHeap he

theorem push (h : HeapRep s levels heap inHeap) (hp : 0 < p) (hnew : p ∉ inHeap)
    (hl : ∀ q level, levels'.get? q = some level → q = p ∨ q ∈ inHeap) :
    HeapRep s levels' (heappush heap (s.key p)) (insert p inHeap) := by
  refine ⟨isHeap_heappush h.isHeap _, ?_, ?_, ?_, ?_⟩
  · rw [(heappush_perm heap _).nodup_iff, nodup_cons]
    refine ⟨fun hmem => ?_, h.nodup⟩
    obtain ⟨q, hq, -, he⟩ := h.entry _ hmem
    exact hnew (Side.key_inj.mp he ▸ hq)
  · intro k hk
    rcases mem_heappush.mp hk with rfl | hk
    · exact ⟨p, Finset.mem_insert_self .., hp, rfl⟩
    · obtain ⟨q, hq, hpos, rfl⟩ := h.entry k hk
      exact ⟨q, Finset.mem_insert_of_mem hq, hpos, rfl⟩
  · intro q hq
    rw [mem_heappush]
    rcases Finset.mem_insert.mp hq with rfl | hq
    · exact Or.inl rfl
    · exact Or.inr (h.mem_heap q hq)
  · intro q level hq
    rw [Finset.mem_insert]
    exact hl q level hq

end HeapRep

/-! ## One side -/

/-- What `_levels.get(p)` may be when `Q` are the orders at price `p`. -/
def LevelAt (mem : Memory Order) (p : Int) (Q : List Order) : Option PriceLevel → Prop
  | none => Q = []
  | some level => LevelRep mem level p Q ∧ Q ≠ []

/-- The side represents the list `L` of its orders in priority order. -/
structure SideRep (mem : Memory Order) (b : BookSide) (s : Side) (L : List Order) : Prop where
  side : b.side = s
  level : ∀ p, LevelAt mem p (atPrice p L) (b.levels.get? p)
  heap : HeapRep s b.levels b.heap b.inHeap

namespace SideRep

variable {mem mem' : Memory Order} {b b' : BookSide} {s : Side} {L L' : List Order} {p : Int}

theorem init (mem : Memory Order) (s : Side) : SideRep mem (BookSide.init s) s [] :=
  ⟨rfl, fun _ => rfl, List.Pairwise.nil, nodup_nil, by simp [BookSide.init],
    by simp [BookSide.init], by simp [BookSide.init]⟩

section

variable (h : SideRep mem b s L)

include h

variable {level : PriceLevel}

theorem levelRep (hp : b.levels.get? p = some level) : LevelRep mem level p (atPrice p L) := by
  have := h.level p
  rw [hp] at this
  exact this.1

theorem atPrice_ne_nil (hp : b.levels.get? p = some level) : atPrice p L ≠ [] := by
  have := h.level p
  rw [hp] at this
  exact this.2

theorem exists_level (ho : o ∈ L) (hp : o.price = some p) :
    ∃ level, b.levels.get? p = some level := by
  cases hl : b.levels.get? p with
  | some level => exact ⟨level, rfl⟩
  | none =>
    have := h.level p
    rw [hl] at this
    have hmem : o ∈ atPrice p L := mem_atPrice.mpr ⟨ho, hp⟩
    rw [show atPrice p L = [] from this] at hmem
    cases hmem

theorem update (hside : b'.side = b.side)
    (hlevels : ∀ q, q ≠ p → b'.levels.get? q = b.levels.get? q)
    (hL : ∀ q, q ≠ p → atPrice q L' = atPrice q L)
    (hframe : ∀ q level, q ≠ p → b.levels.get? q = some level →
      ∀ i r, level.orders.get? i = some r → mem'.read r = mem.read r)
    (hp : LevelAt mem' p (atPrice p L') (b'.levels.get? p))
    (hheap : HeapRep s b'.levels b'.heap b'.inHeap) : SideRep mem' b' s L' := by
  refine ⟨hside.trans h.side, fun q => ?_, hheap⟩
  by_cases hq : q = p
  · rw [hq]
    exact hp
  rw [hlevels q hq, hL q hq]
  cases hl : b.levels.get? q with
  | none =>
    have := h.level q
    rw [hl] at this
    exact this
  | some level => exact ⟨(h.levelRep hl).frame (hframe q level hq hl), h.atPrice_ne_nil hl⟩

theorem frame (hf : ∀ q level i r, b.levels.get? q = some level → level.orders.get? i = some r →
      mem'.read r = mem.read r) : SideRep mem' b s L := by
  refine ⟨h.side, fun q => ?_, h.heap⟩
  cases hl : b.levels.get? q with
  | none =>
    have := h.level q
    rw [hl] at this
    exact this
  | some level => exact ⟨(h.levelRep hl).frame fun i r hr => hf q level i r hl hr,
      h.atPrice_ne_nil hl⟩

end

/-! ## best_level -/

theorem bestLevel_nil (h : SideRep mem b s []) :
    ∃ b', b.bestLevel = (none, b') ∧ b'.levels = b.levels ∧ SideRep mem b' s [] := by
  obtain ⟨best, heap', inHeap', hrun, hrep, hbest⟩ := h.heap.bestLevelLoop
  cases best with
  | some =>
    obtain ⟨p, hp, -⟩ := hbest
    exact absurd rfl (h.atPrice_ne_nil hp)
  | none =>
    exact ⟨{ b with heap := heap', inHeap := inHeap' }, by simp only [BookSide.bestLevel, hrun],
      rfl, h.side, h.level, hrep⟩

theorem bestLevel_cons (h : SideRep mem b s (o :: L)) (hL : Ranked s (o :: L)) :
    ∃ level b', b.bestLevel = (some level, b') ∧ b'.levels = b.levels ∧
      b.levels.get? o.tick = some level ∧ SideRep mem b' s (o :: L) := by
  have ho := hL.resting o (mem_cons_self ..)
  obtain ⟨best, heap', inHeap', hrun, hrep, hbest⟩ := h.heap.bestLevelLoop
  obtain ⟨level0, hl0⟩ := h.exists_level (mem_cons_self ..) ho.price
  cases best with
  | none => rw [hbest o.tick] at hl0; cases hl0
  | some level =>
  obtain ⟨p, hp, hmin⟩ := hbest
  have hle : s.key p ≤ s.key o.tick := hmin _ _ hl0
  have hge : s.key o.tick ≤ s.key p := by
    obtain ⟨x, hx⟩ := exists_mem_of_ne_nil _ (h.atPrice_ne_nil hp)
    obtain ⟨hx, hxp⟩ := mem_atPrice.mp hx
    have hxt : x.tick = p := by simp [Order.tick, hxp]
    rcases mem_cons.mp hx with rfl | hx
    · rw [hxt]
    · exact hxt ▸ hL.head_key_le x (mem_cons_of_mem _ hx)
  have hpo : p = o.tick := Side.key_inj.mp (le_antisymm hle hge)
  exact ⟨level, { b with heap := heap', inHeap := inHeap' },
    by simp only [BookSide.bestLevel, hrun], rfl, hpo ▸ hp, h.side, h.level, hrep⟩

theorem bestPrice (h : SideRep mem b s L) (hL : Ranked s L) :
    b.bestPrice.1 = L.head?.map Order.tick := by
  cases L with
  | nil =>
    obtain ⟨b', hbest, -⟩ := h.bestLevel_nil
    simp only [BookSide.bestPrice, hbest, head?_nil, Option.map_none]
  | cons =>
    obtain ⟨level, b', hbest, -, hl, -⟩ := h.bestLevel_cons hL
    have hrep := h.levelRep hl
    have hlen : level.len ≠ 0 := by
      rw [hrep.len]
      exact fun e => h.atPrice_ne_nil hl (length_eq_zero_iff.mp e)
    simp only [BookSide.bestPrice, hbest, hlen, ne_eq, not_false_eq_true, if_true, hrep.price,
      head?_cons, Option.map_some]

end SideRep

end InterviewPrep.OrderMatching
