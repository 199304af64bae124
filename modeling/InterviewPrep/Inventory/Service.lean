/-
  Products, warehouses, the stock of a product at a warehouse, reservations, the ledger and
  the two strategies of the inventory service (inventory_management.py).  Quantities are
  whole numbers; times and the demand of a day are floating-point numbers, rounded as the source
  rounds them.

  `InventoryService` (inventory_management.py), one operation after the other.  An operation
  that raises keeps what it has changed.  The readings of the clock are an arbitrary
  sequence: each reading takes the next one.
-/
import InterviewPrep.Lib.Binary64
import InterviewPrep.Lib.Dict
import Mathlib.Data.List.Sort

namespace InterviewPrep.Inventory

open Lib

/-- A sku and a warehouse id. -/
abbrev ItemKey := String × String

/-- `RSV-{n}`, `PO-{n}` and the ids of movements, drawn from one counter. -/
abbrev Id := Nat

/-! ## Errors -/

inductive InventoryError where
  /-- `ValueError` -/
  | value (message : String)
  | duplicateSku (sku : String)
  | duplicateWarehouse (warehouseId : String)
  | notFound (what : String)
  | insufficientStock (sku : String) (requested available : Int)
  | invalidState (message : String)
  | reservationExpired (reservation : Id)
  | idempotencyConflict (message : String)
  /-- no demand per day over no days -/
  | zeroDivision
  /-- `OverflowError`: a float is out of range -/
  | overflow

/-- `InsufficientStockError` or `IdempotencyConflictError` -/
def InventoryError.refusesStock : InventoryError → Bool
  | .insufficientStock .. | .idempotencyConflict _ => true
  | _ => false

/-! ## Value objects -/

structure Product where
  sku : String
  name : String
  unitPrice : ℚ
  reorderLevel : Int := 10
  reorderQuantity : Int := 50

structure Warehouse where
  warehouseId : String
  name : String
  /-- lower is preferred -/
  priority : Int := 0

inductive MovementType where
  | receive
  | ship
  | transferOut
  | transferIn
  | adjust
deriving DecidableEq

/-- Ledger entry: a physical change to `on_hand`. -/
structure Movement where
  movementId : Id
  sku : String
  warehouseId : String
  type : MovementType
  delta : Int
  onHandAfter : Int
  reference : String
  time : ℚ

def Movement.key (m : Movement) : ItemKey := (m.sku, m.warehouseId)

structure ReservationLine where
  sku : String
  warehouseId : String
  quantity : Int
deriving DecidableEq

def ReservationLine.key (line : ReservationLine) : ItemKey := (line.sku, line.warehouseId)

/-- What an allocation strategy sees of an item. -/
structure StockView where
  warehouseId : String
  priority : Int
  available : Int

/-! ## Stock of one product at one warehouse -/

structure InventoryItem where
  product : Product
  warehouse : Warehouse
  onHand : Int := 0
  reserved : Int := 0

namespace InventoryItem

variable (item : InventoryItem)

def available : Int := item.onHand - item.reserved

def receive (qty : Int) : InventoryItem := { item with onHand := item.onHand + qty }

def correct (delta : Int) : Except InventoryError InventoryItem :=
  if item.onHand + delta < item.reserved then
    .error (.invalidState "correction would drop on_hand below reserved")
  else .ok { item with onHand := item.onHand + delta }

def reserve (qty : Int) : Except InventoryError InventoryItem :=
  if item.available < qty then .error (.insufficientStock item.product.sku qty item.available)
  else .ok { item with reserved := item.reserved + qty }

def release (qty : Int) : Except InventoryError InventoryItem :=
  if item.reserved < qty then .error (.invalidState "releasing more than is reserved")
  else .ok { item with reserved := item.reserved - qty }

/-- Units that were reserved physically leave. -/
def shipReserved (qty : Int) : Except InventoryError InventoryItem :=
  if item.reserved < qty then .error (.invalidState "shipping more than is reserved")
  else .ok { item with reserved := item.reserved - qty, onHand := item.onHand - qty }

/-- Take unreserved units. -/
def removeAvailable (qty : Int) : Except InventoryError InventoryItem :=
  if item.available < qty then .error (.insufficientStock item.product.sku qty item.available)
  else .ok { item with onHand := item.onHand - qty }

end InventoryItem

/-! ## Reservations and purchase orders -/

inductive ReservationStatus where
  | active
  | committed
  | released
  | expired
deriving DecidableEq

def ReservationStatus.value : ReservationStatus → String
  | .active => "active"
  | .committed => "committed"
  | .released => "released"
  | .expired => "expired"

structure Reservation where
  reservationId : Id
  orderId : String
  lines : List ReservationLine
  expiresAt : ℚ
  status : ReservationStatus := .active

/-- Lines collapsed back to `{sku: qty}`. -/
def Reservation.requested (r : Reservation) : Dict String Int :=
  r.lines.foldl (fun out line => out.set line.sku ((out.get? line.sku).getD 0 + line.quantity))
    Dict.empty

inductive POStatus where
  | «open»
  | received
  | cancelled
deriving DecidableEq

def POStatus.value : POStatus → String
  | .open => "open"
  | .received => "received"
  | .cancelled => "cancelled"

structure PurchaseOrder where
  poId : Id
  sku : String
  warehouseId : String
  quantity : Int
  status : POStatus := .open

/-! ## Allocation strategies -/

inductive AllocationStrategy where
  | greedySplit
  | singleWarehouseFirst

/-- `(s.priority, s.warehouse_id)` in order -/
def preferred (a b : StockView) : Prop :=
  a.priority < b.priority ∨ a.priority = b.priority ∧ a.warehouseId ≤ b.warehouseId

instance : DecidableRel preferred := fun a b =>
  inferInstanceAs (Decidable (a.priority < b.priority ∨ _ ∧ a.warehouseId ≤ b.warehouseId))

/-- Fill from the first warehouse, spilling over to the next. -/
def fillGreedily (remaining : Int) (plan : List (String × Int)) :
    List StockView → Option (List (String × Int))
  | [] => none
  | s :: stock =>
    let take := min remaining s.available
    let plan := if 0 < take then plan ++ [(s.warehouseId, take)] else plan
    let remaining := if 0 < take then remaining - take else remaining
    if remaining = 0 then some plan else fillGreedily remaining plan stock

/-- `(warehouse_id, qty)` for each warehouse that takes part. -/
def AllocationStrategy.allocate (strategy : AllocationStrategy) (qty : Int)
    (stock : List StockView) : Option (List (String × Int)) :=
  let stock := stock.insertionSort preferred
  match strategy with
  | .greedySplit => fillGreedily qty [] stock
  | .singleWarehouseFirst =>
    match stock.find? fun s => qty ≤ s.available with
    | some s => some [(s.warehouseId, qty)]
    | none => fillGreedily qty [] stock

/-! ## Reorder policies -/

structure ReorderContext where
  product : Product
  warehouseId : String
  /-- available and on order -/
  position : Int
  /-- units shipped in a day -/
  avgDailyDemand : ℚ

inductive ReorderPolicy where
  | fixed
  | demandBased (leadTimeDays safetyDays coverDays : Int)

/-- `math.ceil(avg * days)`; none when it raises `OverflowError`. -/
def ceilDemand (avg : ℚ) (days : Int) : Option Int :=
  (Binary64.ofRat days).bind fun days => (Binary64.ofRat (avg * days)).map Int.ceil

/-- The quotient of 31 units in 30 days is rounded up, and so is its product with 30. -/
example : (Binary64.ofRat (31 / 30)).bind (ceilDemand · 30) = some 32 := by decide +kernel

/-- Units to order now; none when it raises `OverflowError`. -/
def ReorderPolicy.reorderQuantity (policy : ReorderPolicy) (ctx : ReorderContext) : Option Int :=
  match policy with
  | .fixed =>
    some (if ctx.position ≤ ctx.product.reorderLevel then ctx.product.reorderQuantity else 0)
  | .demandBased lead safety cover =>
    (ceilDemand ctx.avgDailyDemand (lead + safety)).bind fun demand =>
      if max ctx.product.reorderLevel demand < ctx.position then some 0
      else (ceilDemand ctx.avgDailyDemand cover).map fun target =>
        max ctx.product.reorderQuantity (target - ctx.position)

structure InventoryConfig where
  allocation : AllocationStrategy := .singleWarehouseFirst
  reorderPolicy : ReorderPolicy := .fixed
  reservationTtl : ℚ := 900
  demandLookbackDays : Int := 30
  clock : Nat → ℚ

structure InventoryService where
  config : InventoryConfig
  /-- how often the clock was read -/
  readings : Nat
  products : Dict String Product
  warehouses : Dict String Warehouse
  items : Dict ItemKey InventoryItem
  reservations : Dict Id Reservation
  byOrder : Dict String Id
  inFlightOrders : List String
  purchaseOrders : Dict Id PurchaseOrder
  ledger : List Movement
  nextId : Id

namespace InventoryService

def new (config : InventoryConfig) : InventoryService :=
  ⟨config, 0, Dict.empty, Dict.empty, Dict.empty, Dict.empty, Dict.empty, [], Dict.empty, [], 1⟩

/-- An operation, which may raise. -/
abbrev Op := EStateM InventoryError InventoryService

/-! ## Internals -/

def readClock : Op ℚ :=
  modifyGet fun s => (s.config.clock s.readings, { s with readings := s.readings + 1 })

def drawId : Op Id := modifyGet fun s => (s.nextId, { s with nextId := s.nextId + 1 })

def liftExcept {α : Type} : Except InventoryError α → Op α
  | .ok a => pure a
  | .error e => throw e

/-- `_require_positive` -/
def requirePositive (qty : Int) : Op Unit :=
  if qty ≤ 0 then throw (.value "quantity must be a positive int") else pure ()

/-- `_get_item` -/
def getItem (key : ItemKey) : Op InventoryItem := do
  let s ← get
  match s.items.get? key with
  | none => throw (.notFound "no stock record")
  | some item => pure item

/-- `_get_or_create_item` -/
def getOrCreateItem (key : ItemKey) : Op Unit := do
  let s ← get
  match s.products.get? key.1, s.warehouses.get? key.2 with
  | some product, some warehouse =>
    if (s.items.get? key).isNone then
      modify fun s => { s with items := s.items.set key { product, warehouse } }
    else pure ()
  | _, _ => throw (.notFound "unknown sku or warehouse")

/-- A method of an item that changes it. -/
def changeItem (key : ItemKey) (change : InventoryItem → Except InventoryError InventoryItem) :
    Op Unit := do
  let item ← getItem key
  let item ← liftExcept (change item)
  modify fun s => { s with items := s.items.set key item }

/-- `_record` -/
def record (key : ItemKey) (type : MovementType) (delta : Int) (reference : String) : Op Unit := do
  let movementId ← drawId
  let item ← getItem key
  let time ← readClock
  modify fun s => { s with
    ledger := s.ledger ++
      [⟨movementId, key.1, key.2, type, delta, item.onHand, reference, time⟩] }

/-- `_items_for_skus` -/
def itemsForSkus (skus : List String) : Op (List InventoryItem) := do
  let s ← get
  if skus.any fun sku => (s.products.get? sku).isNone then throw (.notFound "unknown sku(s)")
  else pure ((s.items.items.filter fun entry => entry.1.1 ∈ skus).map Prod.snd)

/-- `_get_reservation` -/
def getReservation (id : Id) : Op Reservation := do
  let s ← get
  match s.reservations.get? id with
  | none => throw (.notFound "reservation")
  | some r => pure r

def setStatus (r : Reservation) (status : ReservationStatus) : Op Unit :=
  modify fun s => { s with
    reservations := s.reservations.set r.reservationId { r with status } }

/-- The lines as the keys of a `dict`. -/
def distinct : List ReservationLine → List ReservationLine
  | [] => []
  | line :: lines => line :: (distinct lines).filter fun l => l ≠ line

/-! ## Catalog -/

def addProduct (product : Product) : Op Unit := do
  if product.unitPrice < 0 then throw (.value "unit_price must be >= 0")
  else do
    let s ← get
    if (s.products.get? product.sku).isSome then throw (.duplicateSku product.sku)
    else modify fun s => { s with products := s.products.set product.sku product }

def addWarehouse (warehouse : Warehouse) : Op Unit := do
  let s ← get
  if (s.warehouses.get? warehouse.warehouseId).isSome then
    throw (.duplicateWarehouse warehouse.warehouseId)
  else modify fun s => { s with warehouses := s.warehouses.set warehouse.warehouseId warehouse }

/-! ## Stock in and out -/

def receiveStock (sku warehouseId : String) (qty : Int) (reference : String) : Op Unit := do
  requirePositive qty
  getOrCreateItem (sku, warehouseId)
  changeItem (sku, warehouseId) fun item => .ok (item.receive qty)
  record (sku, warehouseId) .receive qty reference

/-- Set `on_hand` to what was counted; the delta. -/
def adjustStock (sku warehouseId : String) (countedOnHand : Int) (reason : String) : Op Int := do
  if countedOnHand < 0 then throw (.value "counted_on_hand must be >= 0")
  else do
    let item ← getItem (sku, warehouseId)
    if countedOnHand < item.reserved then
      throw (.insufficientStock sku item.reserved countedOnHand)
    else do
      let delta := countedOnHand - item.onHand
      if delta ≠ 0 then do
        changeItem (sku, warehouseId) fun item => item.correct delta
        record (sku, warehouseId) .adjust delta reason
        pure delta
      else pure delta

/-- Move available units. -/
def transferStock (sku fromWh toWh : String) (qty : Int) : Op Unit := do
  requirePositive qty
  if fromWh = toWh then throw (.value "source and destination are the same warehouse")
  else do
    let _ ← getItem (sku, fromWh)
    getOrCreateItem (sku, toWh)
    changeItem (sku, fromWh) fun item => item.removeAvailable qty
    changeItem (sku, toWh) fun item => .ok (item.receive qty)
    let reference := "transfer " ++ fromWh ++ "->" ++ toWh
    record (sku, fromWh) .transferOut (-qty) reference
    record (sku, toWh) .transferIn qty reference

/-! ## Reservations -/

/-- `_plan`, the lines of one sku. -/
def planLine (allocation : AllocationStrategy) (items : List InventoryItem) (sku : String)
    (qty : Int) : Except InventoryError (List ReservationLine) :=
  let views := (items.filter fun i => i.product.sku = sku).map fun i =>
    (⟨i.warehouse.warehouseId, i.warehouse.priority, i.available⟩ : StockView)
  match allocation.allocate qty views with
  | none => .error (.insufficientStock sku qty (views.map StockView.available).sum)
  | some plan => .ok (plan.map fun entry => ⟨sku, entry.1, entry.2⟩)

/-- `_plan`, the wanted quantities in the order of their skus. -/
def planLines (allocation : AllocationStrategy) (items : List InventoryItem) :
    List (String × Int) → Except InventoryError (List ReservationLine)
  | [] => .ok []
  | (sku, qty) :: wanted =>
    match planLine allocation items sku qty with
    | .error e => .error e
    | .ok lines =>
      match planLines allocation items wanted with
      | .error e => .error e
      | .ok rest => .ok (lines ++ rest)

/-- `_plan` -/
def plan (allocation : AllocationStrategy) (items : List InventoryItem) (wanted : Dict String Int) :
    Except InventoryError (List ReservationLine) :=
  planLines allocation items (wanted.items.insertionSort fun a b => a.1 ≤ b.1)

/-- The two dictionaries are equal, whatever their orders. -/
def sameQuantities (d d' : Dict String Int) : Bool :=
  d.size = d'.size ∧ ∀ entry ∈ d.items, d'.get? entry.1 = some entry.2

/-- `reserve`, from the items on. -/
def reserveItems (orderId : String) (wanted : Dict String Int) : Op Reservation := do
  let items ← itemsForSkus wanted.keys
  let s ← get
  let lines ← liftExcept (plan s.config.allocation items wanted)
  lines.forM fun line => changeItem line.key fun item => item.reserve line.quantity
  let reservationId ← drawId
  let now ← readClock
  let r : Reservation :=
    { reservationId, orderId, lines
      expiresAt := Binary64.round (now + s.config.reservationTtl) }
  modify fun s => { s with
    reservations := s.reservations.set reservationId r
    byOrder := s.byOrder.set orderId reservationId }
  pure r

/-- `try: … finally:` the order is not in flight any longer. -/
def landing {α : Type} (orderId : String) (x : Op α) : Op α := fun s =>
  match x s with
  | .ok a t => .ok a { t with inFlightOrders := t.inFlightOrders.erase orderId }
  | .error e t => .error e { t with inFlightOrders := t.inFlightOrders.erase orderId }

def reserve (orderId : String) (request : Dict String Int) : Op Reservation := do
  if request.items = [] then throw (.value "empty request")
  else do
    request.values.forM requirePositive
    let s ← get
    match (s.byOrder.get? orderId).bind s.reservations.get? with
    | some existing =>
      if sameQuantities existing.requested request then pure existing
      else throw (.idempotencyConflict "already reserved with different lines")
    | none =>
      if orderId ∈ s.inFlightOrders then throw (.idempotencyConflict "already being reserved")
      else do
        modify fun s => { s with inFlightOrders := orderId :: s.inFlightOrders }
        landing orderId (reserveItems orderId request)

/-- `_release_locked` -/
def releaseLocked (r : Reservation) (final : ReservationStatus) : Op Unit := do
  (distinct r.lines).forM fun line => do
    let _ ← getItem line.key
    pure ()
  (distinct r.lines).forM fun line => changeItem line.key fun item => item.release line.quantity
  setStatus r final

/-- `commit`, of an active reservation. -/
def ship (r : Reservation) (reference : String) : Op Unit := do
  (distinct r.lines).forM fun line => do
    let _ ← getItem line.key
    pure ()
  (distinct r.lines).forM fun line => do
    changeItem line.key fun item => item.shipReserved line.quantity
    record line.key .ship (-line.quantity) (if reference = "" then r.orderId else reference)
  setStatus r .committed

def commit (id : Id) (reference : String) : Op Unit := do
  let r ← getReservation id
  match r.status with
  | .committed => pure ()
  | .expired => throw (.reservationExpired id)
  | .released => throw (.invalidState r.status.value)
  | .active => do
      let now ← readClock
      if r.expiresAt ≤ now then do
        releaseLocked r .expired
        throw (.reservationExpired id)
      else ship r reference

def release (id : Id) : Op Unit := do
  let r ← getReservation id
  match r.status with
  | .released | .expired => pure ()
  | .committed => throw (.invalidState "already committed; use a return flow")
  | .active => releaseLocked r .released

/-- `expire_reservations`, of one candidate. -/
def expireOne (id : Id) : Op Unit := do
  let r ← getReservation id
  if r.status = .active then releaseLocked r .expired else pure ()

def expireReservations : Op Unit := do
  let now ← readClock
  let s ← get
  let candidates := (s.reservations.items.filter fun entry =>
    entry.2.status = .active ∧ entry.2.expiresAt ≤ now).map Prod.fst
  candidates.forM expireOne

/-! ## Replenishment -/

/-- Units of an item shipped in a day, over the days before `now`. -/
def dailyDemand (s : InventoryService) (now : ℚ) (key : ItemKey) : Except InventoryError ℚ :=
  match Binary64.ofRat (s.config.demandLookbackDays * 86400) with
  | none => .error .overflow
  | some span =>
    let since := Binary64.round (now - span)
    let shipped := ((s.ledger.filter fun m =>
      m.type = .ship ∧ m.key = key ∧ since ≤ m.time).map fun m => -m.delta).sum
    if s.config.demandLookbackDays = 0 then .error .zeroDivision
    else
      match Binary64.ofRat (shipped / s.config.demandLookbackDays) with
      | none => .error .overflow
      | some avg => .ok avg

/-- `_avg_daily_demand` -/
def avgDailyDemand (key : ItemKey) : Op ℚ := do
  let now ← readClock
  let s ← get
  liftExcept (s.dailyDemand now key)

/-- `check_reorder`, of one item. -/
def reorderItem (key : ItemKey) : Op Unit := do
  let item ← getItem key
  let s ← get
  let onOrder := ((s.purchaseOrders.values.filter fun po =>
    po.status = .open ∧ (po.sku, po.warehouseId) = key).map PurchaseOrder.quantity).sum
  let avg ← avgDailyDemand key
  match s.config.reorderPolicy.reorderQuantity
    ⟨item.product, key.2, item.available + onOrder, avg⟩ with
  | none => throw .overflow
  | some qty =>
    if 0 < qty then do
      let poId ← drawId
      modify fun s => { s with
        purchaseOrders := s.purchaseOrders.set poId
          { poId, sku := key.1, warehouseId := key.2, quantity := qty } }
    else pure ()

/-- `a.key <= b.key` -/
def keyLe (a b : ItemKey) : Prop := a.1 < b.1 ∨ a.1 = b.1 ∧ a.2 ≤ b.2

instance : DecidableRel keyLe := fun a b =>
  inferInstanceAs (Decidable (a.1 < b.1 ∨ a.1 = b.1 ∧ a.2 ≤ b.2))

def checkReorder : Op Unit := do
  let s ← get
  (s.items.keys.insertionSort keyLe).forM reorderItem

/-- The open purchase order of this id gets another status. -/
def closePurchaseOrder (poId : Id) (status : POStatus) : Op PurchaseOrder := do
  let s ← get
  match s.purchaseOrders.get? poId with
  | none => throw (.notFound "purchase order")
  | some po =>
    if po.status ≠ .open then throw (.invalidState po.status.value)
    else do
      modify fun s => { s with purchaseOrders := s.purchaseOrders.set poId { po with status } }
      pure po

def receivePurchaseOrder (poId : Id) : Op Unit := do
  let po ← closePurchaseOrder poId .received
  receiveStock po.sku po.warehouseId po.quantity ("PO-" ++ toString poId)

def cancelPurchaseOrder (poId : Id) : Op Unit := do
  let _ ← closePurchaseOrder poId .cancelled
  pure ()

end InventoryService

/-! ## Sequences of operations -/

inductive InventoryOp where
  | addProduct (product : Product)
  | addWarehouse (warehouse : Warehouse)
  | receiveStock (sku warehouseId : String) (qty : Int) (reference : String)
  | adjustStock (sku warehouseId : String) (countedOnHand : Int) (reason : String)
  | transferStock (sku fromWh toWh : String) (qty : Int)
  | reserve (orderId : String) (request : Dict String Int)
  | commit (id : Id) (reference : String)
  | release (id : Id)
  | expireReservations
  | checkReorder
  | receivePurchaseOrder (poId : Id)
  | cancelPurchaseOrder (poId : Id)

namespace InventoryService

def perform : InventoryOp → Op Unit
  | .addProduct product => addProduct product
  | .addWarehouse warehouse => addWarehouse warehouse
  | .receiveStock sku warehouseId qty reference => receiveStock sku warehouseId qty reference
  | .adjustStock sku warehouseId counted reason => do
      let _ ← adjustStock sku warehouseId counted reason
      pure ()
  | .transferStock sku fromWh toWh qty => transferStock sku fromWh toWh qty
  | .reserve orderId request => do
      let _ ← reserve orderId request
      pure ()
  | .commit id reference => commit id reference
  | .release id => release id
  | .expireReservations => expireReservations
  | .checkReorder => checkReorder
  | .receivePurchaseOrder poId => receivePurchaseOrder poId
  | .cancelPurchaseOrder poId => cancelPurchaseOrder poId

/-- The service after an operation, whether it returned or raised. -/
def after (s : InventoryService) (op : InventoryOp) : InventoryService :=
  match perform op s with
  | .ok _ t | .error _ t => t

def run (s : InventoryService) (ops : List InventoryOp) : InventoryService := ops.foldl after s

end InventoryService

end InterviewPrep.Inventory
