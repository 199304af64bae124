/-
  What a plan of the shipped strategies is like (`plan_ok`): each of its lines is for an item
  of its own and takes some of what is available there.

  The books of the inventory (`Books`): what is reserved of an item is what active
  reservations promise, and what is on hand is what the ledger says, up to what an operation
  in the middle of its work has not written down yet.
-/
import InterviewPrep.Inventory.Service
import InterviewPrep.Lib.Run
import InterviewPrep.Lib.Totals
import Mathlib.Algebra.Order.BigOperators.Group.List

namespace InterviewPrep.Inventory

open Lib Dict List

/-! ## One line -/

/-- The entry takes units that are available at its warehouse. -/
def TakesFrom (stock : List StockView) (entry : String × Int) : Prop :=
  0 < entry.2 ∧ ∃ s ∈ stock, s.warehouseId = entry.1 ∧ entry.2 ≤ s.available

variable {stock : List StockView}

theorem fillGreedily_ok {remaining : Int} {plan out : List (String × Int)}
    (h : fillGreedily remaining plan stock = some out) : ∃ taken, out = plan ++ taken ∧
      (taken.map Prod.fst).Sublist (stock.map StockView.warehouseId) ∧
      ∀ entry ∈ taken, TakesFrom stock entry := by
  induction stock generalizing remaining plan with
  | nil => cases h
  | cons s stock ih =>
    have htail : ∀ entry, TakesFrom stock entry → TakesFrom (s :: stock) entry := by
      rintro entry ⟨hpos, t, ht, hid, hle⟩
      exact ⟨hpos, t, mem_cons_of_mem _ ht, hid, hle⟩
    by_cases htake : 0 < min remaining s.available
    · have hhead : TakesFrom (s :: stock) (s.warehouseId, min remaining s.available) :=
        ⟨htake, s, mem_cons_self, rfl, min_le_right _ _⟩
      simp only [fillGreedily, if_pos htake] at h
      split at h
      · cases h
        refine ⟨[(s.warehouseId, min remaining s.available)], rfl, ?_, ?_⟩
        · simp
        · intro entry hentry
          rw [mem_singleton.mp hentry]
          exact hhead
      obtain ⟨taken, rfl, hsub, htaken⟩ := ih h
      refine ⟨(s.warehouseId, min remaining s.available) :: taken, by simp, ?_, ?_⟩
      · exact hsub.cons_cons _
      · intro entry hentry
        rcases mem_cons.mp hentry with rfl | hentry
        · exact hhead
        · exact htail entry (htaken entry hentry)
    · simp only [fillGreedily, if_neg htake] at h
      split at h
      · cases h
        exact ⟨[], (append_nil _).symm, nil_sublist _, by simp⟩
      · obtain ⟨taken, rfl, hsub, htaken⟩ := ih h
        exact ⟨taken, rfl, hsub.cons _, fun entry hentry => htail entry (htaken entry hentry)⟩

theorem allocate_ok {strategy : AllocationStrategy} {qty : Int}
    {out : List (String × Int)} (hqty : 0 < qty)
    (hn : (stock.map StockView.warehouseId).Nodup) (h : strategy.allocate qty stock = some out) :
    (out.map Prod.fst).Nodup ∧ ∀ entry ∈ out, TakesFrom stock entry := by
  have hperm := perm_insertionSort preferred stock
  have hn' : ((stock.insertionSort preferred).map StockView.warehouseId).Nodup :=
    ((hperm.map _).nodup_iff).mpr hn
  have hsorted : ∀ entry, TakesFrom (stock.insertionSort preferred) entry →
      TakesFrom stock entry := by
    rintro entry ⟨hpos, s, hs, hid, hle⟩
    exact ⟨hpos, s, hperm.mem_iff.mp hs, hid, hle⟩
  have hgreedy : fillGreedily qty [] (stock.insertionSort preferred) = some out →
      (out.map Prod.fst).Nodup ∧ ∀ entry ∈ out, TakesFrom stock entry := by
    intro hfill
    obtain ⟨taken, rfl, hsub, htaken⟩ := fillGreedily_ok hfill
    exact ⟨hn'.sublist hsub, fun entry hentry => hsorted entry (htaken entry hentry)⟩
  unfold AllocationStrategy.allocate at h
  cases strategy with
  | greedySplit => exact hgreedy h
  | singleWarehouseFirst =>
  dsimp only at h
  split at h
  · next s hfind =>
      cases h
      refine ⟨by simp, ?_⟩
      intro entry hentry
      rw [mem_singleton.mp hentry]
      have hs := mem_of_find?_eq_some hfind
      have hle := find?_some hfind
      exact ⟨hqty, s, hperm.mem_iff.mp hs, rfl, of_decide_eq_true hle⟩
  · exact hgreedy h

/-! ## All lines -/

namespace InventoryService

/-- The line takes units that are available at one of the items. -/
def Backed (items : List InventoryItem) (line : ReservationLine) : Prop :=
  0 < line.quantity ∧ ∃ item ∈ items, item.product.sku = line.sku ∧
    item.warehouse.warehouseId = line.warehouseId ∧ line.quantity ≤ item.available

variable {allocation : AllocationStrategy} {items : List InventoryItem}
  {lines : List ReservationLine}

theorem planLine_ok {sku : String} {qty : Int} (hqty : 0 < qty)
    (hn : (items.map fun i => (i.product.sku, i.warehouse.warehouseId)).Nodup)
    (h : planLine allocation items sku qty = .ok lines) :
    (∀ line ∈ lines, line.sku = sku) ∧ (lines.map ReservationLine.key).Nodup ∧
      ∀ line ∈ lines, Backed items line := by
  unfold planLine at h
  dsimp only at h
  split at h
  · cases h
  · next out hout =>
      cases h
      have hwarehouses : ((items.filter fun i => i.product.sku = sku).map
          fun i => i.warehouse.warehouseId).Nodup := by
        have hsub : ((items.filter fun i => i.product.sku = sku).map
            fun i => (i.product.sku, i.warehouse.warehouseId)).Nodup :=
          hn.sublist (List.Sublist.map _ filter_sublist)
        have hpair : ((items.filter fun i => i.product.sku = sku).map
            fun i => (i.product.sku, i.warehouse.warehouseId)) =
            ((items.filter fun i => i.product.sku = sku).map
              fun i => i.warehouse.warehouseId).map fun id => (sku, id) := by
          rw [map_map]
          apply map_congr_left
          intro i hi
          simp [of_decide_eq_true (mem_filter.mp hi).2]
        rw [hpair] at hsub
        exact hsub.of_map _
      obtain ⟨hnodup, htakes⟩ :=
        allocate_ok hqty (by simpa [Function.comp_def] using hwarehouses) hout
      refine ⟨?_, ?_, ?_⟩
      · intro line hline
        obtain ⟨entry, -, rfl⟩ := mem_map.mp hline
        rfl
      · rw [map_map]
        have hkeys : (out.map (ReservationLine.key ∘ fun entry => ⟨sku, entry.1, entry.2⟩)) =
            (out.map Prod.fst).map fun id => (sku, id) := by
          rw [map_map]
          rfl
        rw [hkeys]
        exact hnodup.map fun a b hab => (Prod.mk.inj hab).2
      · intro line hline
        obtain ⟨entry, hentry, rfl⟩ := mem_map.mp hline
        obtain ⟨hpos, view, hview, hid, hle⟩ := htakes entry hentry
        obtain ⟨item, hitem, rfl⟩ := mem_map.mp hview
        obtain ⟨hitem, hsku⟩ := mem_filter.mp hitem
        exact ⟨hpos, item, hitem, of_decide_eq_true hsku, hid, hle⟩

theorem planLines_ok {wanted : List (String × Int)} (hqty : ∀ entry ∈ wanted, 0 < entry.2)
    (hskus : (wanted.map Prod.fst).Nodup)
    (hn : (items.map fun i => (i.product.sku, i.warehouse.warehouseId)).Nodup)
    (h : planLines allocation items wanted = .ok lines) :
    (∀ line ∈ lines, line.sku ∈ wanted.map Prod.fst) ∧ (lines.map ReservationLine.key).Nodup ∧
      ∀ line ∈ lines, Backed items line := by
  induction wanted generalizing lines with
  | nil =>
    cases h
    simp
  | cons entry _ ih =>
    obtain ⟨sku, qty⟩ := entry
    rw [map_cons, nodup_cons] at hskus
    simp only [planLines] at h
    split at h
    · cases h
    · next hfirst =>
        split at h
        · cases h
        · next hrest =>
            cases h
            obtain ⟨hsku, hfirstKeys, hfirstBacked⟩ :=
              planLine_ok (hqty _ mem_cons_self) hn hfirst
            obtain ⟨hsku', hrestKeys, hrestBacked⟩ :=
              ih (fun e he => hqty e (mem_cons_of_mem _ he)) hskus.2 hrest
            refine ⟨?_, ?_, ?_⟩
            · intro line hline
              rcases mem_append.mp hline with hline | hline
              · rw [hsku line hline]
                exact mem_cons_self
              · exact mem_cons_of_mem _ (hsku' line hline)
            · rw [map_append, nodup_append]
              refine ⟨hfirstKeys, hrestKeys, ?_⟩
              -- the lines of two skus are for two items
              intro key hkey key' hkey' heq
              obtain ⟨line, hline, rfl⟩ := mem_map.mp hkey
              obtain ⟨line', hline', rfl⟩ := mem_map.mp hkey'
              have hsame : line.sku = line'.sku := (Prod.mk.inj heq).1
              apply hskus.1
              rw [← hsku line hline, hsame]
              exact hsku' line' hline'
            · intro line hline
              rcases mem_append.mp hline with hline | hline
              · exact hfirstBacked line hline
              · exact hrestBacked line hline

theorem plan_ok {wanted : Dict String Int} (hqty : ∀ qty ∈ wanted.values, 0 < qty)
    (hn : (items.map fun i => (i.product.sku, i.warehouse.warehouseId)).Nodup)
    (h : plan allocation items wanted = .ok lines) :
    (lines.map ReservationLine.key).Nodup ∧ ∀ line ∈ lines, Backed items line := by
  have hperm := perm_insertionSort (fun a b : String × Int => a.1 ≤ b.1) wanted.items
  have hlines := planLines_ok (fun entry hentry => ?_) (((hperm.map _).nodup_iff).mpr wanted.nodup)
    hn h
  · exact hlines.2
  · exact hqty entry.2 (mem_map_of_mem (hperm.mem_iff.mp hentry))

end InventoryService

/-! ## Accounts -/

def ReservationLine.posting (line : ReservationLine) : ItemKey × Int := (line.key, line.quantity)

def Movement.posting (m : Movement) : ItemKey × Int := (m.key, m.delta)

/-- The units of an item that the reservation holds. -/
def Reservation.promises (r : Reservation) (key : ItemKey) : Int :=
  if r.status = .active then effect (r.lines.map ReservationLine.posting) key else 0

/-- Each entry has the running sum of its item. -/
def Running (ledger : List Movement) : Prop :=
  ∀ pre m post, ledger = pre ++ m :: post →
    m.onHandAfter = effect ((pre ++ [m]).map Movement.posting) m.key

theorem Running.concat {ledger : List Movement} {m : Movement} (h : Running ledger)
    (hm : m.onHandAfter = effect ((ledger ++ [m]).map Movement.posting) m.key) :
    Running (ledger ++ [m]) := by
  intro pre m' post heq
  rcases eq_nil_or_concat post with rfl | ⟨post, x, rfl⟩
  · obtain ⟨rfl, hlast⟩ := append_inj' heq rfl
    cases hlast
    exact hm
  · have heq' : ledger ++ [m] = (pre ++ m' :: post) ++ [x] := by
      rw [heq]
      simp
    obtain ⟨rfl, -⟩ := append_inj' heq' rfl
    exact h pre m' post rfl

theorem effect_concat (ps : List (ItemKey × Int)) (p : ItemKey × Int) (key : ItemKey) :
    effect (ps ++ [p]) key = effect ps key + if key = p.1 then p.2 else 0 := by
  rw [effect_append, effect_cons, effect_nil, add_zero]
  by_cases h : p.1 = key
  · rw [if_pos h, if_pos h.symm]
  · rw [if_neg h, if_neg (Ne.symm h)]

theorem effect_nonneg {ps : List (ItemKey × Int)} (h : ∀ p ∈ ps, 0 ≤ p.2) (key : ItemKey) :
    0 ≤ effect ps key := by
  apply sum_nonneg
  intro x hx
  obtain ⟨p, hp, rfl⟩ := mem_map.mp hx
  have := h p hp
  split <;> omega

namespace InventoryService

/-- What is on hand of an item; nothing when there is no such item. -/
def onHandOf (s : InventoryService) (key : ItemKey) : Int :=
  (s.items.get? key).elim 0 InventoryItem.onHand

def reservedOf (s : InventoryService) (key : ItemKey) : Int :=
  (s.items.get? key).elim 0 InventoryItem.reserved

/-- The lines of the active reservations on an item. -/
def promised (s : InventoryService) (key : ItemKey) : Int :=
  s.reservations.total fun r => r.promises key

/-- The ledger deltas of an item. -/
def moved (s : InventoryService) (key : ItemKey) : Int :=
  effect (s.ledger.map Movement.posting) key

/-! ## The books -/

/-- `extra` is reserved beyond what is promised, and `owed` is on hand beyond the ledger. -/
structure Books (s : InventoryService) (extra owed : ItemKey → Int) : Prop where
  reserved : ∀ key, s.reservedOf key = s.promised key + extra key
  onHand : ∀ key, s.onHandOf key = s.moved key + owed key
  bounds : ∀ key, 0 ≤ s.reservedOf key ∧ s.reservedOf key ≤ s.onHandOf key
  running : Running s.ledger
  lines : ∀ id r, s.reservations.get? id = some r → r.reservationId = id ∧ id < s.nextId ∧
    (r.lines.map ReservationLine.key).Nodup ∧ ∀ line ∈ r.lines, 0 < line.quantity
  itemKey : ∀ key item, s.items.get? key = some item →
    (item.product.sku, item.warehouse.warehouseId) = key
  products : ∀ sku product, s.products.get? sku = some product → product.sku = sku
  warehouses : ∀ id warehouse, s.warehouses.get? id = some warehouse → warehouse.warehouseId = id

/-- The books between two operations. -/
abbrev Agree (s : InventoryService) : Prop := Books s (fun _ => 0) (fun _ => 0)

variable {s t : InventoryService} {extra owed extra' owed' : ItemKey → Int} {key : ItemKey}
  {item : InventoryItem}

theorem new_agree (config : InventoryConfig) : Agree (new config) where
  reserved _ := rfl
  onHand _ := rfl
  bounds _ := ⟨le_refl 0, le_refl 0⟩
  running pre m post h := by
    have hnil : ([] : List Movement) = pre ++ m :: post := h
    simp at hnil
  lines _ _ h := by cases h
  itemKey _ _ h := by cases h
  products _ _ h := by cases h
  warehouses _ _ h := by cases h

/-- Neither stock nor reservations nor the catalog change. -/
structure Quiet (s t : InventoryService) : Prop where
  items : t.items = s.items
  reservations : t.reservations = s.reservations
  ledger : t.ledger = s.ledger
  products : t.products = s.products
  warehouses : t.warehouses = s.warehouses
  nextId : s.nextId ≤ t.nextId

theorem Books.quiet (h : Books s extra owed) (hq : Quiet s t) : Books t extra owed := by
  constructor
  · intro key
    rw [reservedOf, hq.items, promised, hq.reservations]
    exact h.reserved key
  · intro key
    rw [onHandOf, hq.items, moved, hq.ledger]
    exact h.onHand key
  · intro key
    rw [reservedOf, onHandOf, hq.items]
    exact h.bounds key
  · rw [hq.ledger]
    exact h.running
  · intro id r hr
    rw [hq.reservations] at hr
    obtain ⟨hid, hlt, hlines⟩ := h.lines id r hr
    exact ⟨hid, Nat.lt_of_lt_of_le hlt hq.nextId, hlines⟩
  · rw [hq.items]
    exact h.itemKey
  · rw [hq.products]
    exact h.products
  · rw [hq.warehouses]
    exact h.warehouses

/-! ## Items -/

theorem onHandOf_some (h : s.items.get? key = some item) : s.onHandOf key = item.onHand := by
  rw [onHandOf, h]
  rfl

theorem reservedOf_some (h : s.items.get? key = some item) : s.reservedOf key = item.reserved := by
  rw [reservedOf, h]
  rfl

theorem onHandOf_set (s : InventoryService) (key k : ItemKey) (item : InventoryItem) :
    onHandOf { s with items := s.items.set key item } k =
      if k = key then item.onHand else s.onHandOf k := by
  rw [onHandOf, get?_set]
  split <;> rfl

theorem reservedOf_set (s : InventoryService) (key k : ItemKey) (item : InventoryItem) :
    reservedOf { s with items := s.items.set key item } k =
      if k = key then item.reserved else s.reservedOf k := by
  rw [reservedOf, get?_set]
  split <;> rfl

theorem Books.set (h : Books s extra owed)
    (hkey : (item.product.sku, item.warehouse.warehouseId) = key)
    (hbounds : 0 ≤ item.reserved ∧ item.reserved ≤ item.onHand)
    (hextra : ∀ k, extra' k = extra k + if k = key then item.reserved - s.reservedOf key else 0)
    (howed : ∀ k, owed' k = owed k + if k = key then item.onHand - s.onHandOf key else 0) :
    Books { s with items := s.items.set key item } extra' owed' := by
  constructor
  · intro k
    have hold := h.reserved k
    rw [reservedOf_set, hextra k]
    show _ = s.promised k + _
    by_cases hk : k = key
    · subst hk
      simp only [if_true]
      omega
    · simp only [if_neg hk]
      omega
  · intro k
    have hold := h.onHand k
    rw [onHandOf_set, howed k]
    show _ = s.moved k + _
    by_cases hk : k = key
    · subst hk
      simp only [if_true]
      omega
    · simp only [if_neg hk]
      omega
  · intro k
    rw [reservedOf_set, onHandOf_set]
    by_cases hk : k = key
    · rw [if_pos hk, if_pos hk]
      exact hbounds
    · rw [if_neg hk, if_neg hk]
      exact h.bounds k
  · exact h.running
  · exact h.lines
  · intro k i hi
    rcases get?_set_some hi with ⟨rfl, rfl⟩ | ⟨-, hi⟩
    · exact hkey
    · exact h.itemKey k i hi
  · exact h.products
  · exact h.warehouses

theorem Books.change (h : Books s extra owed) (hget : s.items.get? key = some item)
    (item' : InventoryItem) (hproduct : item'.product = item.product)
    (hwarehouse : item'.warehouse = item.warehouse)
    (hbounds : 0 ≤ item'.reserved ∧ item'.reserved ≤ item'.onHand)
    (hextra : ∀ k, extra' k = extra k + if k = key then item'.reserved - item.reserved else 0)
    (howed : ∀ k, owed' k = owed k + if k = key then item'.onHand - item.onHand else 0) :
    Books { s with items := s.items.set key item' } extra' owed' := by
  apply h.set _ hbounds
  · rw [reservedOf_some hget]
    exact hextra
  · rw [onHandOf_some hget]
    exact howed
  · rw [hproduct, hwarehouse]
    exact h.itemKey key item hget

theorem Books.enter (h : Books s extra owed) {m : Movement}
    (hafter : m.onHandAfter = s.onHandOf m.key) (hdelta : owed m.key = m.delta)
    (howed : ∀ k, owed' k = owed k - if k = m.key then m.delta else 0) :
    Books { s with ledger := s.ledger ++ [m] } extra owed' := by
  have hmoved : ∀ k, moved { s with ledger := s.ledger ++ [m] } k =
      s.moved k + if k = m.key then m.delta else 0 := by
    intro k
    rw [moved, map_append]
    exact effect_concat _ _ _
  constructor
  · exact h.reserved
  · intro k
    have hold := h.onHand k
    rw [hmoved, howed k]
    show s.onHandOf k = _
    omega
  · exact h.bounds
  · apply h.running.concat
    rw [hafter, map_append]
    refine Eq.trans ?_ (effect_concat _ _ _).symm
    have hold := h.onHand m.key
    rw [hdelta] at hold
    simp only [Movement.posting, if_true]
    exact hold
  · exact h.lines
  · exact h.itemKey
  · exact h.products
  · exact h.warehouses

/-! ## Reservations -/

theorem Books.book (h : Books s extra owed) (r : Reservation) (hactive : r.status = .active)
    (hnew : s.reservations.get? r.reservationId = none) (hid : r.reservationId < s.nextId)
    (hn : (r.lines.map ReservationLine.key).Nodup) (hpos : ∀ line ∈ r.lines, 0 < line.quantity)
    (hextra : ∀ k, extra k = extra' k + effect (r.lines.map ReservationLine.posting) k) :
    Books { s with reservations := s.reservations.set r.reservationId r } extra' owed := by
  constructor
  · intro k
    have hold := h.reserved k
    have htotal : promised { s with reservations := s.reservations.set r.reservationId r } k =
        r.promises k + s.promised k := total_set_of_none hnew r _
    have hpromises : r.promises k = effect (r.lines.map ReservationLine.posting) k := if_pos hactive
    have hk := hextra k
    rw [htotal, hpromises]
    show s.reservedOf k = _
    omega
  · exact h.onHand
  · exact h.bounds
  · exact h.running
  · intro id r' hr'
    rcases get?_set_some hr' with ⟨rfl, rfl⟩ | ⟨-, hr'⟩
    · exact ⟨rfl, hid, hn, hpos⟩
    · exact h.lines id r' hr'
  · exact h.itemKey
  · exact h.products
  · exact h.warehouses

theorem Books.settle (h : Books s extra owed) {id : Id} {r : Reservation}
    {final : ReservationStatus}
    (hget : s.reservations.get? id = some r) (hactive : r.status = .active)
    (hfinal : final ≠ .active)
    (hextra : ∀ k, extra' k = extra k + effect (r.lines.map ReservationLine.posting) k) :
    Books { s with reservations := s.reservations.set r.reservationId { r with status := final } }
      extra' owed := by
  obtain ⟨rfl, hlt, hlines⟩ := h.lines id r hget
  constructor
  · intro k
    have hold := h.reserved k
    have htotal : r.promises k + promised { s with
        reservations := s.reservations.set r.reservationId { r with status := final } } k =
        Reservation.promises { r with status := final } k + s.promised k :=
      total_set_of_get? hget { r with status := final } fun r => r.promises k
    have hbefore : r.promises k = effect (r.lines.map ReservationLine.posting) k := if_pos hactive
    have hafter : Reservation.promises { r with status := final } k = 0 := if_neg hfinal
    rw [hbefore, hafter] at htotal
    rw [hextra k]
    show s.reservedOf k = _
    omega
  · exact h.onHand
  · exact h.bounds
  · exact h.running
  · intro id r' hr'
    rcases get?_set_some hr' with ⟨rfl, rfl⟩ | ⟨-, hr'⟩
    · exact ⟨rfl, hlt, hlines⟩
    · exact h.lines id r' hr'
  · exact h.itemKey
  · exact h.products
  · exact h.warehouses

theorem Books.reserved_ge (h : Books s extra owed) {id : Id} {r : Reservation}
    {line : ReservationLine}
    (hget : s.reservations.get? id = some r) (hactive : r.status = .active) (hline : line ∈ r.lines)
    (hextra : extra line.key = 0) : line.quantity ≤ s.reservedOf line.key := by
  have hpromises : ∀ id' r', s.reservations.get? id' = some r' → 0 ≤ r'.promises line.key := by
    intro id' r' hr'
    rw [Reservation.promises]
    split
    · apply effect_nonneg
      intro p hp
      obtain ⟨l, hl, rfl⟩ := mem_map.mp hp
      exact ((h.lines id' r' hr').2.2.2 l hl).le
    · exact le_refl 0
  have hmine : r.promises line.key = line.quantity := by
    rw [Reservation.promises, if_pos hactive]
    have hn : ((r.lines.map ReservationLine.posting).map Prod.fst).Nodup := by
      rw [map_map]
      exact (h.lines id r hget).2.2.1
    exact effect_of_mem hn (mem_map_of_mem hline)
  have hothers : 0 ≤ (s.reservations.erase id).total fun r => r.promises line.key := by
    apply sum_nonneg
    intro x hx
    obtain ⟨r', hr', rfl⟩ := mem_map.mp hx
    obtain ⟨entry, hentry, rfl⟩ := mem_map.mp hr'
    exact hpromises entry.1 entry.2 (get?_erase_some (mem_items_iff.mp hentry)).2
  have hold := h.reserved line.key
  have htotal : s.promised line.key = r.promises line.key +
      (s.reservations.erase id).total fun r => r.promises line.key := total_erase hget _
  omega

end InventoryService

end InterviewPrep.Inventory
