/-
  `check_reorder` counts what is on order, so a second call should order nothing.  It does so
  exactly where the orders of the first one lift every item over its reorder point (`Lifted`): an
  order of a fixed quantity may leave the position where the next call orders again.
-/
import InterviewPrep.Inventory.Agreement

namespace InterviewPrep.Inventory

open Lib Dict List Option

/-! ## The policies -/

/-- An item is reordered at this position and below. -/
def ReorderPolicy.reorderPoint (policy : ReorderPolicy) (ctx : ReorderContext) : Option Int :=
  match policy with
  | .fixed => some ctx.product.reorderLevel
  | .demandBased lead safety _ =>
    (ceilDemand ctx.avgDailyDemand (lead + safety)).map (max ctx.product.reorderLevel)

/-- The position after an order. -/
def ReorderPolicy.orderUpTo (policy : ReorderPolicy) (ctx : ReorderContext) : Option Int :=
  match policy with
  | .fixed => some (ctx.position + ctx.product.reorderQuantity)
  | .demandBased _ _ cover =>
    (ceilDemand ctx.avgDailyDemand cover).map (max (ctx.position + ctx.product.reorderQuantity))

/-- The position is above the reorder point, or an order lifts it there. -/
def ReorderPolicy.Lifted (policy : ReorderPolicy) (ctx : ReorderContext) : Prop :=
  ∀ point upTo, policy.reorderPoint ctx = some point → policy.orderUpTo ctx = some upTo →
    ctx.position ≤ point → point < upTo

theorem ReorderPolicy.reorderQuantity_eq (policy : ReorderPolicy) (ctx : ReorderContext) :
    policy.reorderQuantity ctx = (policy.reorderPoint ctx).bind fun point =>
      if ctx.position ≤ point then (policy.orderUpTo ctx).map (· - ctx.position) else some 0 := by
  cases policy with
  | fixed =>
    simp only [reorderQuantity, reorderPoint, orderUpTo, bind_some, Option.map_some,
      add_sub_cancel_left]
    exact apply_ite some _ _ _
  | demandBased lead safety cover =>
    have hup : ∀ target, max (ctx.position + ctx.product.reorderQuantity) target - ctx.position =
        max ctx.product.reorderQuantity (target - ctx.position) := fun target => by omega
    simp only [reorderQuantity, reorderPoint, orderUpTo, Option.bind_map, Option.map_map,
      Function.comp_def, ← not_le, ite_not, hup]

/-- An order lifts the position by the product's quantity at least, and asking again in another
    position is asking whether it is still at or below the point. -/
theorem ReorderPolicy.orderUpTo_position (policy : ReorderPolicy) {ctx : ReorderContext}
    {upTo : Int} (h : policy.orderUpTo ctx = some upTo) :
    ctx.position + ctx.product.reorderQuantity ≤ upTo ∧ ∀ position, ∃ upTo',
      policy.orderUpTo { ctx with position } = some upTo' ∧
        position + ctx.product.reorderQuantity ≤ upTo' := by
  cases policy with
  | fixed =>
    cases h
    exact ⟨le_rfl, fun position => ⟨_, rfl, le_rfl⟩⟩
  | demandBased _ _ cover =>
    obtain ⟨target, htarget, rfl⟩ := Option.map_eq_some_iff.mp h
    exact ⟨le_max_left _ _, fun position =>
      ⟨_, Option.map_eq_some_iff.mpr ⟨target, htarget, rfl⟩, le_max_left _ _⟩⟩

/-- After what was ordered the policy answers again. -/
theorem ReorderPolicy.again (policy : ReorderPolicy) (ctx : ReorderContext) {qty : Int}
    (hpos : 0 < ctx.product.reorderQuantity) (h : policy.reorderQuantity ctx = some qty) :
    ∃ qty', policy.reorderQuantity { ctx with position := ctx.position + max 0 qty } = some qty' ∧
      (qty' ≤ 0 ↔ policy.Lifted ctx) := by
  rw [reorderQuantity_eq, bind_eq_some_iff] at h
  obtain ⟨point, hpoint, h⟩ := h
  have hpoint' : ∀ position, policy.reorderPoint { ctx with position } = some point := by
    intro position
    rw [← hpoint]
    cases policy <;> rfl
  rw [Lifted, reorderQuantity_eq, hpoint', bind_some]
  split at h
  next hle =>
    obtain ⟨upTo, hupTo, rfl⟩ := Option.map_eq_some_iff.mp h
    obtain ⟨hlift, hagain⟩ := policy.orderUpTo_position hupTo
    obtain ⟨upTo', hupTo', hlift'⟩ := hagain (ctx.position + max 0 (upTo - ctx.position))
    have hiff : (∀ point' upTo'', policy.reorderPoint ctx = some point' →
        policy.orderUpTo ctx = some upTo'' → ctx.position ≤ point' → point' < upTo'') ↔
        point < upTo :=
      ⟨fun h => h point upTo hpoint hupTo hle, fun h point' upTo'' hp hu _ => by
        rw [hpoint] at hp
        rw [hupTo] at hu
        cases hp
        cases hu
        exact h⟩
    rw [hiff, hupTo']
    dsimp only at hlift' ⊢
    split
    next => exact ⟨upTo' - (ctx.position + max 0 (upTo - ctx.position)), rfl, by omega⟩
    next => exact ⟨0, rfl, by omega⟩
  next hle =>
    cases h
    rw [max_self, add_zero, if_neg hle]
    refine ⟨0, rfl, iff_of_true le_rfl fun point' _ hp _ hle' => ?_⟩
    rw [hpoint] at hp
    cases hp
    exact absurd hle' hle

namespace InventoryService

variable {s t : InventoryService} {key : ItemKey} {item : InventoryItem} {α β : Type}

/-! ## Purchase orders have ids of their own -/

def Fresh (s : InventoryService) : Prop := ∀ id ∈ s.purchaseOrders.keys, id < s.nextId

/-- The operation keeps the ids of purchase orders behind the counter, also if it raises. -/
def Keeps (x : Op α) : Prop := ∀ s, Fresh s → Ends x (fun _ => Fresh) (fun _ => Fresh) s

theorem Keeps.bind {x : Op α} {f : α → Op β} (hx : Keeps x) (hf : ∀ a, Keeps (f a)) :
    Keeps (x >>= f) :=
  fun s hs => ends_bind.mpr ((hx s hs).mono (fun a t ht => hf a t ht) fun _ _ hE => hE)

theorem keeps_pure (a : α) : Keeps (pure a) := fun _ hs => hs

theorem keeps_throw (e : InventoryError) : Keeps (throw e : Op α) := fun _ hs => hs

theorem keeps_get : Keeps (get : Op InventoryService) := fun _ hs => hs

theorem keeps_modify {g : InventoryService → InventoryService} (h : ∀ s, Fresh s → Fresh (g s)) :
    Keeps (modify g) := h

theorem Keeps.ite {p : Prop} [Decidable p] {x y : Op α} (hx : Keeps x) (hy : Keeps y) :
    Keeps (if p then x else y) :=
  fun s hs => ends_ite.mpr ⟨fun _ => hx s hs, fun _ => hy s hs⟩

theorem Keeps.forM {g : α → Op Unit} (hg : ∀ a, Keeps (g a)) (xs : List α) : Keeps (xs.forM g) :=
  fun _ hs => Ends.forM (fun _ => Fresh) hs fun _ a _ t _ ht => hg a t ht

theorem readClock_keeps : Keeps readClock := fun _ hs => hs

theorem liftExcept_keeps (x : Except InventoryError α) : Keeps (liftExcept x) := by
  cases x with
  | ok a => exact keeps_pure a
  | error e => exact keeps_throw e

theorem drawId_keeps : Keeps drawId := fun _ hs id hid => Nat.lt_succ_of_lt (hs id hid)

theorem landing_keeps {x : Op α} (orderId : String) (hx : Keeps x) : Keeps (landing orderId x) :=
  fun s hs => landing_ends (hx s hs) (fun _ _ ht => ht) fun _ _ ht => ht

theorem Fresh.ordered (h : Fresh s) (key : ItemKey) (qty : Int) : Fresh (s.ordered key qty) := by
  intro id hid
  rcases mem_keys_set.mp hid with rfl | hid
  · exact Nat.lt_succ_self _
  · exact Nat.lt_succ_of_lt (h id hid)

theorem reorderItem_keeps (key : ItemKey) : Keeps (reorderItem key) := by
  intro s hs
  have hread : Fresh s.read := hs
  exact reorderItem_spec (fun _ _ _ => hs) (fun _ _ _ _ _ => hread) (fun _ _ _ _ _ => hread)
    fun _ qty _ _ _ => hread.ordered key qty

theorem closePurchaseOrder_keeps (poId : Id) (status : POStatus) :
    Keeps (closePurchaseOrder poId status) := by
  intro s hs
  rw [closePurchaseOrder, ends_bind, ends_get]
  split
  · exact hs
  · next hpo =>
      rw [ends_ite]
      refine ⟨fun _ => hs, fun _ id hid => hs id ?_⟩
      rwa [keys_set_of_get? _ hpo] at hid

theorem perform_keeps (op : InventoryOp) : Keeps (perform op) := by
  cases op
  -- the rules follow the program
  all_goals repeat' first
    | with_reducible first
      | apply Keeps.bind | apply Keeps.ite | apply Keeps.forM | exact keeps_pure _
      | exact keeps_throw _ | exact keeps_get | exact readClock_keeps | exact drawId_keeps
      | exact liftExcept_keeps _ | apply landing_keeps | exact reorderItem_keeps _
      | exact closePurchaseOrder_keeps _ _ | refine keeps_modify ?_
    | simp only [perform, addProduct, addWarehouse, receiveStock, adjustStock, transferStock,
        reserve, reserveItems, commit, release, expireReservations, expireOne, checkReorder,
        receivePurchaseOrder, cancelPurchaseOrder, itemsForSkus, releaseLocked, ship, setStatus,
        changeItem, getOrCreateItem, record, getItem, getReservation, requirePositive]
    | split
    | exact fun _ hs => hs
    | intro _

/-- Every run leaves the numbers not given out unused. -/
theorem run_fresh (config : InventoryConfig) (ops : List InventoryOp) :
    Fresh (run (new config) ops) := by
  have hgen : ∀ (ops : List InventoryOp) (s : InventoryService), Fresh s → Fresh (run s ops) := by
    intro ops
    induction ops with
    | nil => exact fun s hs => hs
    | cons op _ ih =>
      intro s hs
      refine ih (after s op) ?_
      have hends := perform_keeps op s hs
      unfold Ends at hends
      unfold after
      split at hends <;> simp [*]
  exact hgen ops _ nofun

/-! ## One pass over the items -/

/-- What is ordered of an item. -/
def placed (s : InventoryService) (key : ItemKey) : Int :=
  (s.items.get? key).elim 0 fun item => max 0 ((s.quantity key item).getD 0)

/-- The item's position is above the reorder point, or an order lifts it there. -/
def Lifted (s : InventoryService) (key : ItemKey) (item : InventoryItem) : Prop :=
  ∀ avg, s.demand key = some avg → s.config.reorderPolicy.Lifted (s.reorderContext key item avg)

/-- The clock stands still. -/
def Frozen (s : InventoryService) : Prop :=
  ∀ n, s.readings ≤ n → s.config.clock n = s.config.clock s.readings

/-- The items of these keys have been looked at, and nothing else happened. -/
structure Reordered (s : InventoryService) (keys : List ItemKey) (t : InventoryService) : Prop where
  config : t.config = s.config
  items : t.items = s.items
  ledger : t.ledger = s.ledger
  readings : s.readings ≤ t.readings
  fresh : Fresh t
  /-- nothing has raised -/
  asked : ∀ key ∈ keys, ∀ item, s.items.get? key = some item → s.quantity key item ≠ none
  onOrder : ∀ key, t.onOrder key = s.onOrder key + if key ∈ keys then s.placed key else 0
  unchanged : (∀ key ∈ keys, s.placed key = 0) → t.purchaseOrders = s.purchaseOrders

variable {keys : List ItemKey}

theorem Reordered.demand (h : Reordered s keys t) (hclock : Frozen s)
    (key : ItemKey) : t.demand key = s.demand key := by
  rw [InventoryService.demand, InventoryService.demand, dailyDemand, dailyDemand, h.config,
    h.ledger, hclock _ h.readings]

theorem onOrder_ordered (h : Fresh s) (key : ItemKey) (qty : Int) (k : ItemKey) :
    (s.ordered key qty).onOrder k = s.onOrder k + if k = key then qty else 0 := by
  have hnone : s.purchaseOrders.get? s.nextId = none :=
    get?_eq_none.mpr fun hid => Nat.lt_irrefl _ (h _ hid)
  rw [onOrder, onOrder, ordered, Dict.values, set_items_of_get?_none _ hnone, map_append,
    filter_append, map_append, sum_append]
  by_cases hk : k = key
  · simp [hk, Dict.values]
  · have hkey : (key.1, key.2) ≠ k := Ne.symm hk
    simp [hk, hkey, Dict.values]

theorem Reordered.step (h : Reordered s keys t) (hclock : Frozen s)
    (hkey : key ∉ keys) : Ends (reorderItem key) (fun _ u => Reordered s (keys ++ [key]) u)
      (fun _ _ => ∀ item, s.items.get? key = some item → s.quantity key item = none) t := by
  have hmem : ∀ k, k ∈ keys ++ [key] ↔ k ∈ keys ∨ k = key := by simp
  have hread : Reordered s keys t.read := { h with readings := Nat.le_succ_of_le h.readings }
  have hquantity : ∀ item, t.quantity key item = s.quantity key item := by
    have honOrder : t.onOrder key = s.onOrder key := by rw [h.onOrder, if_neg hkey, add_zero]
    intro item
    rw [quantity, quantity, h.demand hclock, h.config]
    unfold reorderContext
    rw [honOrder]
  have hasked : ∀ item qty, t.items.get? key = some item → t.quantity key item = some qty →
      s.placed key = max 0 qty ∧ ∀ k ∈ keys ++ [key], ∀ item, s.items.get? k = some item →
        s.quantity k item ≠ none := by
    intro item qty hitem hqty
    rw [hquantity] at hqty
    rw [h.items] at hitem
    refine ⟨by rw [placed, hitem, elim_some, hqty, getD_some], fun k hk item' hitem' => ?_⟩
    rcases (hmem k).mp hk with hk | rfl
    · exact h.asked k hk item' hitem'
    · rw [hitem] at hitem'
      cases hitem'
      simp [hqty]
  refine reorderItem_spec ?_ ?_ ?_ ?_
  · intro hnone _ _ item hitem
    rw [← h.items, hnone] at hitem
    cases hitem
  · intro item hitem hnone _ _ item' hitem'
    rw [← h.items, hitem] at hitem'
    cases hitem'
    exact (hquantity item).symm.trans hnone
  · intro item qty hitem hqty hle
    obtain ⟨hplaced, hasked⟩ := hasked item qty hitem hqty
    rw [max_eq_left (Int.not_lt.mp hle)] at hplaced
    refine { hread with
      asked := hasked
      onOrder := fun k => (hread.onOrder k).trans ?_
      unchanged := fun hall => h.unchanged fun k hk => hall k (mem_append_left _ hk) }
    by_cases hk : k = key
    · subst hk
      simp [hkey, hplaced]
    · simp [hmem, hk]
  · intro item qty hitem hqty hpos
    obtain ⟨hplaced, hasked⟩ := hasked item qty hitem hqty
    rw [max_eq_right hpos.le] at hplaced
    refine ⟨h.config, h.items, h.ledger, hread.readings, hread.fresh.ordered key qty, hasked,
      fun k => (onOrder_ordered hread.fresh key qty k).trans ?_, fun hall => ?_⟩
    · rw [hread.onOrder, add_assoc]
      by_cases hk : k = key
      · subst hk
        simp [hkey, hplaced]
      · simp [hmem, hk]
    · exact absurd (hplaced.symm.trans (hall key (by simp))) hpos.ne'

theorem checkReorder_reordered (hfresh : Fresh s) (hclock : Frozen s) :
    Ends checkReorder (fun _ t => Reordered s (s.items.keys.insertionSort keyLe) t)
      (fun _ _ => ∃ key ∈ s.items.keys.insertionSort keyLe, ∀ item,
        s.items.get? key = some item → s.quantity key item = none) s := by
  have hperm := perm_insertionSort keyLe s.items.keys
  rw [checkReorder, ends_bind, ends_get]
  refine Ends.forM (Reordered s)
    ⟨rfl, rfl, rfl, le_rfl, hfresh, fun _ h => absurd h not_mem_nil, by simp, fun _ => rfl⟩
    fun pre key post t hkeys h => ?_
  have hnodup := (hperm.nodup_iff.mpr s.items.keys_nodup)
  rw [hkeys, nodup_append] at hnodup
  refine (h.step hclock fun hin => hnodup.2.2 _ hin _ mem_cons_self rfl).mono (fun _ _ h => h) ?_
  exact fun _ _ hraised => ⟨key, by rw [hkeys]; simp, hraised⟩

theorem Reordered.frozen (h : Reordered s keys t) (hclock : Frozen s) : Frozen t := by
  intro n hn
  rw [h.config, hclock n (h.readings.trans hn), hclock _ h.readings]

/-- The policy answers about an item again, and orders nothing where the first order lifted it. -/
theorem Reordered.again (h : Reordered s keys t) (hclock : Frozen s)
    (hkey : key ∈ keys) (hitem : s.items.get? key = some item)
    (hqty : 0 < item.product.reorderQuantity) :
    t.quantity key item ≠ none ∧ (t.placed key = 0 ↔ s.Lifted key item) := by
  obtain ⟨qty, hquantity⟩ := Option.ne_none_iff_exists'.mp (h.asked key hkey item hitem)
  obtain ⟨avg, hdemand, hpolicy⟩ := bind_eq_some_iff.mp hquantity
  obtain ⟨qty', hpolicy', hiff⟩ := ReorderPolicy.again _ (s.reorderContext key item avg)
    hqty hpolicy
  have hctx : t.reorderContext key item avg = { s.reorderContext key item avg with
      position := (s.reorderContext key item avg).position + max 0 qty } := by
    rw [reorderContext, h.onOrder, if_pos hkey, placed, hitem, elim_some, hquantity, getD_some,
      ← add_assoc]
    rfl
  have hquantity' : t.quantity key item = some qty' := by
    rw [quantity, h.demand hclock, hdemand, bind_some, h.config, hctx, hpolicy']
  refine ⟨by simp [hquantity'], ?_⟩
  rw [placed, h.items, hitem, elim_some, hquantity', getD_some, max_eq_left_iff, hiff]
  exact ⟨fun hlifted avg' havg => by rw [hdemand] at havg; cases havg; exact hlifted,
    fun hlifted => hlifted avg hdemand⟩

/-- A second call places no order exactly where the first one has lifted every item over its
    reorder point. -/
theorem checkReorder_settles_iff (config : InventoryConfig) (ops : List InventoryOp)
    (hclock : Frozen (run (new config) ops))
    (hproducts : ∀ key item, (run (new config) ops).items.get? key = some item →
      0 < item.product.reorderQuantity)
    (hfirst : checkReorder (run (new config) ops) = .ok () t) :
    ∃ u, checkReorder t = .ok () u ∧ (u.purchaseOrders = t.purchaseOrders ↔
      ∀ key item, (run (new config) ops).items.get? key = some item →
        (run (new config) ops).Lifted key item) := by
  have h := ends_ok (checkReorder_reordered (run_fresh config ops) hclock) hfirst
  generalize run (new config) ops = s at *
  have hsecond := checkReorder_reordered h.fresh (h.frozen hclock)
  have hperm := perm_insertionSort keyLe s.items.keys
  rw [h.items] at hsecond
  cases hu : checkReorder t with
  | error =>
    obtain ⟨key, hkey, hraised⟩ := ends_error hsecond hu
    obtain ⟨item, hitem⟩ := mem_keys.mp (hperm.mem_iff.mp hkey)
    exact absurd (hraised item hitem)
      (h.again hclock hkey hitem (hproducts key item hitem)).1
  | ok _ u =>
    have h' := ends_ok hsecond hu
    refine ⟨u, rfl, fun heq key item hitem => ?_, fun hall => h'.unchanged fun key hkey => ?_⟩
    · have hkey := hperm.mem_iff.mpr (mem_keys.mpr ⟨item, hitem⟩)
      rw [← (h.again hclock hkey hitem (hproducts key item hitem)).2]
      have honOrder := h'.onOrder key
      rw [if_pos hkey, show u.onOrder key = t.onOrder key by rw [onOrder, onOrder, heq]] at honOrder
      omega
    · obtain ⟨item, hitem⟩ := mem_keys.mp (hperm.mem_iff.mp hkey)
      exact (h.again hclock hkey hitem (hproducts key item hitem)).2.mpr (hall key item hitem)

/-- One unit of a product that is reordered at ten, in this quantity. -/
def oneUnit (reorderQuantity : Int) : List InventoryOp :=
  [.addProduct { sku := "s", name := "", unitPrice := 1, reorderQuantity },
    .addWarehouse { warehouseId := "w", name := "" }, .receiveStock "s" "w" 1 ""]

/-- How many purchase orders there are after a call that returns, and after a second one. -/
def orderedTwice (s : InventoryService) : Option (Nat × Nat) :=
  match checkReorder s with
  | .error .. => none
  | .ok _ t =>
    match checkReorder t with
    | .error .. => none
    | .ok _ u => some (t.purchaseOrders.size, u.purchaseOrders.size)

theorem orderedTwice_eq_some {p : Nat × Nat} (h : orderedTwice s = some p) :
    ∃ t u, checkReorder s = .ok () t ∧ checkReorder t = .ok () u ∧
      (t.purchaseOrders.size, u.purchaseOrders.size) = p := by
  rw [orderedTwice] at h
  cases ht : checkReorder s with
  | error => rw [ht] at h; cases h
  | ok _ t =>
  rw [ht] at h
  dsimp only at h
  cases hu : checkReorder t with
  | error => rw [hu] at h; cases h
  | ok _ u =>
  rw [hu] at h
  exact ⟨t, u, rfl, hu, some.inj h⟩

theorem checkReorder_settles_oneUnit :
    ∃ t u, checkReorder (run (new { clock := fun _ => 0 }) (oneUnit 50)) = .ok () t ∧
      checkReorder t = .ok () u ∧ u.purchaseOrders = t.purchaseOrders ∧
      t.purchaseOrders.size = 1 := by
  obtain ⟨t, u, ht, -, hsizes⟩ := orderedTwice_eq_some
    (s := run (new { clock := fun _ => 0 }) (oneUnit 50)) (p := (1, 1)) (by decide +kernel)
  have hone : ∀ key item, (run (new { clock := fun _ => 0 }) (oneUnit 50)).items.get? key =
      some item → item.product.reorderQuantity = 50 ∧ item.product.reorderLevel = 10 ∧
        0 ≤ item.available ∧ (run (new { clock := fun _ => 0 }) (oneUnit 50)).onOrder key = 0 := by
    intro key item hitem
    cases mem_singleton.mp (mem_items.mpr hitem)
    exact ⟨rfl, rfl, by decide, rfl⟩
  obtain ⟨v, hv, hiff⟩ := checkReorder_settles_iff { clock := fun _ => 0 } (oneUnit 50)
    (fun _ _ => rfl) (fun key item hitem => by rw [(hone key item hitem).1]; decide) ht
  refine ⟨t, v, ht, hv, hiff.mpr fun key item hitem => ?_, (Prod.mk.inj hsizes).1⟩
  obtain ⟨hquantity, hlevel, havailable, honOrder⟩ := hone key item hitem
  rintro _ _ _ _ ⟨⟩ ⟨⟩ _
  dsimp only [reorderContext]
  omega

/-- Five units are ordered, and then five more. -/
theorem checkReorder_ordersAgain :
    ∃ t u, checkReorder (run (new { clock := fun _ => 0 }) (oneUnit 5)) = .ok () t ∧
      checkReorder t = .ok () u ∧ t.purchaseOrders.size = 1 ∧ u.purchaseOrders.size = 2 := by
  obtain ⟨t, u, ht, hu, hsizes⟩ := orderedTwice_eq_some
    (s := run (new { clock := fun _ => 0 }) (oneUnit 5)) (p := (1, 2)) (by decide +kernel)
  exact ⟨t, u, ht, hu, Prod.mk.inj hsizes⟩

end InventoryService

end InterviewPrep.Inventory
