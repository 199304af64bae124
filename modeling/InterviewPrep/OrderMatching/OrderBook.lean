/-
  The data of the order matching engine (order_matching_engine.py): commands, events, execution
  reports and the mutable `Order`.  Prices are integer ticks, quantities and sequence numbers are
  integers, and nothing here assumes that they are positive.  Python exceptions are `PyError`s.

  The `Order` objects live in a `Memory`: a level's OrderedDict and the book's `_live` dict hold
  references to the same object.  A `PriceLevel` is owned by its side's `_levels` dict, so it is a
  value; a caller that mutates the level it got from `best_level` stores it back with `putLevel`.

  `OrderBook`: the deterministic state machine that matches one symbol's commands.  A command
  either returns its report and the next book, or raises.  On a reachable book the only exception
  is the TypeError of `apply`, which is raised before the book is touched
  (`Refinement.apply_refines`), so an exception carries no book.  The two loops of `_match` take a
  bound; the taker's quantity is always enough.
-/
import InterviewPrep.Lib.Dict
import InterviewPrep.Lib.Heaps
import InterviewPrep.Lib.Links
import Mathlib.Data.Finset.Basic
import Mathlib.Data.Rat.Floor

namespace InterviewPrep.OrderMatching

/-! ## Enums and value objects -/

inductive Side where
  | buy
  | sell
deriving DecidableEq

def Side.opposite : Side → Side
  | .buy => .sell
  | .sell => .buy

@[simp] theorem Side.opposite_opposite (s : Side) : s.opposite.opposite = s := by
  cases s <;> rfl

theorem Side.opposite_ne (s : Side) : s.opposite ≠ s := by
  cases s <;> simp [opposite]

inductive OrderType where
  | limit
  | market
deriving DecidableEq

inductive TimeInForce where
  | gtc
  | ioc
  | fok
deriving DecidableEq

inductive OrderStatus where
  | new
  | partiallyFilled
  | filled
  | cancelled
  | rejected

/-- The exceptions of the engine. `diverges` stands for a loop that does not end
    within its bound. -/
inductive PyError where
  | assertionError
  | keyError (key : Int)
  | stopIteration
  | typeError (message : String)
  | runtimeError (message : String)
  | diverges

/-- `Instrument`; `__post_init__` refuses a tick size that is not positive. -/
structure Instrument where
  symbol : String
  tickSize : Rat
  tickSize_pos : 0 < tickSize

/-! ## Commands -/

structure NewOrder where
  clientId : String
  side : Side
  quantity : Int
  orderType : OrderType := .limit
  /-- ticks; `none` for market orders -/
  price : Option Int := none
  tif : TimeInForce := .gtc
deriving DecidableEq

structure CancelOrder where
  orderId : Int
deriving DecidableEq

inductive Command where
  | newOrder (cmd : NewOrder)
  | cancelOrder (cmd : CancelOrder)
deriving DecidableEq

/-- What `submit` can be handed: a command or any other object (known by its `repr`). -/
inductive Submission where
  | command (cmd : Command)
  | other (repr : String)
deriving DecidableEq

/-! ## Events -/

structure Trade where
  seq : Int
  tradeId : Nat
  /-- ticks; the resting (maker) order's price -/
  price : Int
  quantity : Int
  makerOrderId : Int
  takerOrderId : Int
  takerSide : Side

inductive Event where
  | orderAccepted (seq orderId : Int)
  | trade (t : Trade)
  | orderRested (seq orderId : Int) (side : Side) (price quantity : Int)
  | orderCancelled (seq orderId cancelledQuantity : Int) (reason : String)
  | orderRejected (seq orderId : Int) (reason : String)

structure ExecutionReport where
  seq : Int
  orderId : Int
  status : OrderStatus
  filledQuantity : Int
  remainingQuantity : Int
  events : List Event

/-- The trades among the events. -/
def Event.trades (events : List Event) : List Trade :=
  events.filterMap fun
    | .trade t => some t
    | _ => none

@[simp] theorem Event.trades_append (events events' : List Event) :
    Event.trades (events ++ events') = Event.trades events ++ Event.trades events' :=
  List.filterMap_append ..

@[simp] theorem Event.trades_map_trade (ts : List Trade) : Event.trades (ts.map .trade) = ts := by
  rw [Event.trades, List.filterMap_map]
  exact List.filterMap_some

def ExecutionReport.trades (r : ExecutionReport) : List Trade := Event.trades r.events

/-! ## Order -/

structure Order where
  /-- the sequence number of the NewOrder command -/
  orderId : Int
  clientId : String
  side : Side
  orderType : OrderType
  tif : TimeInForce
  quantity : Int
  price : Option Int
  remaining : Int
  status : OrderStatus

namespace Order

/-- The constructor: nothing is filled yet. -/
def init (orderId : Int) (cmd : NewOrder) : Order :=
  { orderId, clientId := cmd.clientId, side := cmd.side, orderType := cmd.orderType,
    tif := cmd.tif, quantity := cmd.quantity, price := cmd.price,
    remaining := cmd.quantity, status := .new }

def filled (o : Order) : Int := o.quantity - o.remaining

/-- `fill` after its assertion. -/
def filledBy (o : Order) (qty : Int) : Order :=
  { o with
    remaining := o.remaining - qty
    status := if o.remaining - qty = 0 then .filled else .partiallyFilled }

def fill (o : Order) (qty : Int) : Except PyError Order :=
  if 0 < qty ∧ qty ≤ o.remaining then .ok (o.filledBy qty) else .error .assertionError

/-- The order object no container holds. -/
def blank : Order := init 0 { clientId := "", side := .buy, quantity := 0 }

theorem fill_eq_ok {o : Order} {qty : Int} (h : 0 < qty) (h' : qty ≤ o.remaining) :
    o.fill qty = .ok (o.filledBy qty) :=
  if_pos ⟨h, h'⟩

@[simp] theorem filledBy_orderId (o : Order) (q : Int) : (o.filledBy q).orderId = o.orderId := rfl
@[simp] theorem filledBy_side (o : Order) (q : Int) : (o.filledBy q).side = o.side := rfl
@[simp] theorem filledBy_price (o : Order) (q : Int) : (o.filledBy q).price = o.price := rfl
@[simp] theorem filledBy_quantity (o : Order) (q : Int) :
    (o.filledBy q).quantity = o.quantity := rfl
@[simp] theorem filledBy_orderType (o : Order) (q : Int) :
    (o.filledBy q).orderType = o.orderType := rfl
@[simp] theorem filledBy_tif (o : Order) (q : Int) : (o.filledBy q).tif = o.tif := rfl
@[simp] theorem filledBy_remaining (o : Order) (q : Int) :
    (o.filledBy q).remaining = o.remaining - q := rfl

end Order

open Lib

/-! ## PriceLevel -/

/-- All resting orders at one price, first come first. -/
structure PriceLevel where
  price : Int
  orders : Dict Int Ref
  totalQuantity : Int

namespace PriceLevel

def init (price : Int) : PriceLevel := ⟨price, Dict.empty, 0⟩

def append (level : PriceLevel) (mem : Memory Order) (order : Ref) : PriceLevel :=
  { level with
    orders := level.orders.set (mem.read order).orderId order
    totalQuantity := level.totalQuantity + (mem.read order).remaining }

/-- `next(iter(self._orders.values()))`. -/
def head (level : PriceLevel) : Except PyError Ref :=
  match level.orders.values with
  | [] => .error .stopIteration
  | order :: _ => .ok order

def fillHead (level : PriceLevel) (mem : Memory Order) (qty : Int) :
    Except PyError (Ref × PriceLevel × Memory Order) := do
  let order ← level.head
  let filled ← (mem.read order).fill qty
  let mem := mem.write order filled
  let level := { level with totalQuantity := level.totalQuantity - qty }
  if filled.remaining = 0 then
    return (order, { level with orders := level.orders.dropFirst }, mem)
  else
    return (order, level, mem)

def remove (level : PriceLevel) (mem : Memory Order) (orderId : Int) :
    Except PyError PriceLevel :=
  match level.orders.get? orderId with
  | none => .error (.keyError orderId)
  | some order =>
    .ok { level with
          orders := level.orders.erase orderId
          totalQuantity := level.totalQuantity - (mem.read order).remaining }

/-- `__len__`; a level is falsy when it is 0. -/
def len (level : PriceLevel) : Nat := level.orders.size

end PriceLevel

/-! ## BookSide -/

/-- One side of the book: levels by price, and a lazily cleaned heap of keys (the prices in
    `inHeap`). -/
structure BookSide where
  side : Side
  levels : Dict Int PriceLevel
  heap : List Int
  inHeap : Finset Int

/-- `_key`: the priority of a price; bids are taken highest first. -/
def Side.key (side : Side) (price : Int) : Int :=
  match side with
  | .buy => -price
  | .sell => price

namespace BookSide

def init (side : Side) : BookSide := ⟨side, Dict.empty, [], ∅⟩

/-- The loop of `best_level`: stale heap entries are popped off the top. -/
def bestLevelLoop (levels : Dict Int PriceLevel) :
    List Int → Finset Int → Option PriceLevel × List Int × Finset Int
  | [], inHeap => (none, [], inHeap)
  | k :: heap, inHeap =>
    let price : Int := k.natAbs
    match levels.get? price with
    | some level => (some level, k :: heap, inHeap)
    | none => bestLevelLoop levels heap (inHeap.erase price)

def bestLevel (b : BookSide) : Option PriceLevel × BookSide :=
  let (level, heap, inHeap) := bestLevelLoop b.levels b.heap b.inHeap
  (level, { b with heap, inHeap })

def bestPrice (b : BookSide) : Option Int × BookSide :=
  match b.bestLevel with
  | (none, b) => (none, b)
  | (some level, b) => (if level.len ≠ 0 then some level.price else none, b)

/-- Store a level back that was mutated through a reference into `_levels`. -/
def putLevel (b : BookSide) (level : PriceLevel) : BookSide :=
  { b with levels := b.levels.set level.price level }

/-- The level of `price`, created (with a heap entry) when it does not exist. -/
def levelFor (b : BookSide) (price : Int) : PriceLevel × BookSide :=
  match b.levels.get? price with
  | some level => (level, b)
  | none =>
    let level := PriceLevel.init price
    if price ∈ b.inHeap then
      (level, b.putLevel level)
    else
      (level, { b.putLevel level with
                heap := heappush b.heap (b.side.key price)
                inHeap := insert price b.inHeap })

def add (b : BookSide) (mem : Memory Order) (order : Ref) : Except PyError BookSide :=
  match (mem.read order).price with
  | none => .error .assertionError
  | some price =>
    let (level, b) := b.levelFor price
    .ok (b.putLevel (level.append mem order))

def dropLevelIfEmpty (b : BookSide) (level : PriceLevel) : Except PyError BookSide :=
  if level.len = 0 then
    match b.levels.get? level.price with
    | none => .error (.keyError level.price)
    | some _ => .ok { b with levels := b.levels.erase level.price }
  else
    .ok b

def remove (b : BookSide) (mem : Memory Order) (order : Ref) : Except PyError BookSide :=
  match (mem.read order).price with
  | none => .error .assertionError
  | some price =>
    match b.levels.get? price with
    | none => .error (.keyError price)
    | some level => do
        let level ← level.remove mem (mem.read order).orderId
        if level.len = 0 then
          return { b with levels := b.levels.erase price }
        else
          return b.putLevel level

/-- `levels()`: best first. -/
def levelsBestFirst (b : BookSide) : List PriceLevel :=
  (b.levels.keys.insertionSort (fun p q => b.side.key p ≤ b.side.key q)).filterMap b.levels.get?

def depth (b : BookSide) : List (Int × Int) :=
  b.levelsBestFirst.map fun level => (level.price, level.totalQuantity)

end BookSide

structure OrderBook where
  instrument : Instrument
  bids : BookSide
  asks : BookSide
  /-- resting orders by id, for cancel -/
  live : Dict Int Ref
  /-- the next trade id -/
  tradeIds : Nat
  /-- the `Order` objects -/
  mem : Memory Order

namespace OrderBook

def init (instrument : Instrument) : OrderBook :=
  { instrument, bids := .init .buy, asks := .init .sell, live := Dict.empty, tradeIds := 1,
    mem := .init Order.blank }

def ownSide (book : OrderBook) : Side → BookSide
  | .buy => book.bids
  | .sell => book.asks

def setSide (book : OrderBook) (side : Side) (b : BookSide) : OrderBook :=
  match side with
  | .buy => { book with bids := b }
  | .sell => { book with asks := b }

def bestBid (book : OrderBook) : Option Int × OrderBook :=
  let (price, b) := book.bids.bestPrice
  (price, { book with bids := b })

def bestAsk (book : OrderBook) : Option Int × OrderBook :=
  let (price, b) := book.asks.bestPrice
  (price, { book with asks := b })

/-- `snapshot()`: the depth of bids and asks, best first. -/
def snapshot (book : OrderBook) : List (Int × Int) × List (Int × Int) :=
  (book.bids.depth, book.asks.depth)

/-! ## New order -/

def validate (cmd : NewOrder) : Option String :=
  if cmd.quantity ≤ 0 then
    some "quantity must be positive"
  else if cmd.orderType = .limit ∧ (cmd.price = none ∨ cmd.price.getD 0 ≤ 0) then
    some "limit order needs a positive price"
  else if cmd.orderType = .market ∧ cmd.price ≠ none then
    some "market order must not carry a price"
  else if cmd.orderType = .market ∧ cmd.tif = .gtc then
    some "market order cannot be GTC (it would rest with no price)"
  else
    none

def crosses (taker : Order) (contraPrice : Int) : Except PyError Bool :=
  match taker.orderType with
  | .market => .ok true
  | .limit =>
    match taker.price with
    | none => .error .assertionError
    | some price =>
      match taker.side with
      | .buy => .ok (contraPrice ≤ price)
      | .sell => .ok (contraPrice ≥ price)

/-- `del self._live[maker.order_id]` once the maker is filled. -/
def dropFilled (book : OrderBook) (maker : Ref) : Except PyError OrderBook :=
  let order := book.mem.read maker
  if order.remaining = 0 then
    match book.live.get? order.orderId with
    | none => .error (.keyError order.orderId)
    | some _ => .ok { book with live := book.live.erase order.orderId }
  else
    .ok book

/-- The inner loop of `_match`: fill the orders of one level, first come first. -/
def fillLevel (seq : Int) : Nat → OrderBook → PriceLevel → Order → List Event →
    Except PyError (OrderBook × PriceLevel × Order × List Event)
  | 0, book, level, taker, events =>
    if 0 < taker.remaining ∧ level.len ≠ 0 then .error .diverges
    else .ok (book, level, taker, events)
  | fuel + 1, book, level, taker, events =>
    if 0 < taker.remaining ∧ level.len ≠ 0 then do
      let head ← level.head
      let qty := min taker.remaining (book.mem.read head).remaining
      let (maker, level, mem) ← level.fillHead book.mem qty
      let taker ← taker.fill qty
      let book ← dropFilled { book with mem } maker
      let trade : Trade :=
        { seq, tradeId := book.tradeIds, price := level.price, quantity := qty,
          makerOrderId := (book.mem.read maker).orderId, takerOrderId := taker.orderId,
          takerSide := taker.side }
      fillLevel seq fuel { book with tradeIds := book.tradeIds + 1 } level taker
        (events ++ [.trade trade])
    else
      .ok (book, level, taker, events)

/-- The outer loop of `_match`: the contra side's levels, best first, while they cross. -/
def matchLoop (seq : Int) : Nat → OrderBook → Order → List Event →
    Except PyError (OrderBook × Order × List Event)
  | 0, book, taker, events =>
    if 0 < taker.remaining then .error .diverges else .ok (book, taker, events)
  | fuel + 1, book, taker, events =>
    if 0 < taker.remaining then
      let contra := taker.side.opposite
      match (book.ownSide contra).bestLevel with
      | (none, b) => .ok (book.setSide contra b, taker, events)
      | (some level, b) => do
          let book := book.setSide contra b
          if ← crosses taker level.price then
            let (book, level, taker, events) ←
              fillLevel seq taker.remaining.toNat book level taker events
            let b ← ((book.ownSide contra).putLevel level).dropLevelIfEmpty level
            matchLoop seq fuel (book.setSide contra b) taker events
          else
            return (book, taker, events)
    else
      .ok (book, taker, events)

def match_ (book : OrderBook) (seq : Int) (taker : Order) (events : List Event) :
    Except PyError (OrderBook × Order × List Event) :=
  matchLoop seq (taker.remaining.toNat + 1) book taker events

/-- The loop of `_can_fill_completely`. -/
def canFillLoop (taker : Order) : List PriceLevel → Int → Except PyError Bool
  | [], _ => .ok false
  | level :: levels, available => do
      if ← crosses taker level.price then
        let available := available + level.totalQuantity
        if available ≥ taker.quantity then
          return true
        else
          canFillLoop taker levels available
      else
        return false

def canFillCompletely (book : OrderBook) (taker : Order) : Except PyError Bool :=
  canFillLoop taker (book.ownSide taker.side.opposite).levelsBestFirst 0

def report (seq : Int) (order : Order) (events : List Event) : ExecutionReport :=
  { seq, orderId := order.orderId, status := order.status, filledQuantity := order.filled,
    remainingQuantity := order.remaining, events }

/-- The order rests: it joins its own side and `_live`. -/
def rest (book : OrderBook) (order : Order) : Except PyError OrderBook := do
  let (r, mem) := book.mem.alloc order
  let b ← (book.ownSide order.side).add mem r
  return { book.setSide order.side b with live := book.live.set order.orderId r, mem }

/-- `_new_order` after validation and the FOK check. -/
def matchAndRest (book : OrderBook) (seq : Int) (order : Order) (events : List Event) :
    Except PyError (ExecutionReport × OrderBook) := do
  let (book, order, events) ← book.match_ seq order events
  if 0 < order.remaining then
    if order.orderType = .limit ∧ order.tif = .gtc then
      let book ← book.rest order
      -- `add` has asserted that the order has a price
      let rested := .orderRested seq order.orderId order.side (order.price.getD 0) order.remaining
      return (report seq order (events ++ [rested]), book)
    else
      let cancelled := .orderCancelled seq order.orderId order.remaining
        "unfilled remainder of IOC/market order"
      return (report seq { order with status := .cancelled } (events ++ [cancelled]), book)
  else
    return (report seq order events, book)

def newOrder (book : OrderBook) (seq : Int) (cmd : NewOrder) :
    Except PyError (ExecutionReport × OrderBook) :=
  match validate cmd with
  | some reason =>
    .ok ({ seq, orderId := seq, status := .rejected, filledQuantity := 0,
           remainingQuantity := cmd.quantity, events := [.orderRejected seq seq reason] }, book)
  | none => do
      let order := Order.init seq cmd
      let events : List Event := [.orderAccepted seq order.orderId]
      let killed ← if order.tif = .fok then Bool.not <$> book.canFillCompletely order
          else pure false
      if killed then
        let cancelled := .orderCancelled seq order.orderId order.remaining
          "FOK: insufficient liquidity"
        return (report seq { order with status := .cancelled } (events ++ [cancelled]), book)
      else
        book.matchAndRest seq order events

/-! ## Cancel -/

def cancel (book : OrderBook) (seq : Int) (cmd : CancelOrder) :
    Except PyError (ExecutionReport × OrderBook) :=
  match book.live.get? cmd.orderId with
  | none =>
    .ok ({ seq, orderId := cmd.orderId, status := .rejected, filledQuantity := 0,
           remainingQuantity := 0,
           events := [.orderRejected seq cmd.orderId "cancel rejected: order not live"] }, book)
  | some r => do
      let side := (book.mem.read r).side
      let b ← (book.ownSide side).remove book.mem r
      let order := { book.mem.read r with status := .cancelled }
      let book := { book.setSide side b with
                    live := book.live.erase cmd.orderId, mem := book.mem.write r order }
      let event := .orderCancelled seq order.orderId order.remaining "cancelled by client"
      return (report seq order [event], book)

def apply (book : OrderBook) (seq : Int) : Submission → Except PyError (ExecutionReport × OrderBook)
  | .command (.newOrder cmd) => book.newOrder seq cmd
  | .command (.cancelOrder cmd) => book.cancel seq cmd
  | .other repr => .error (.typeError ("unknown command " ++ repr))

end OrderBook

end InterviewPrep.OrderMatching
