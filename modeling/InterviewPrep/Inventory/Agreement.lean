/-
  Stock, reservations and ledger agree after every sequence of operations, also of ones that
  raise, and an operation that refuses stock changes nothing (`run_agree`).
-/
import InterviewPrep.Inventory.Books

namespace InterviewPrep.Inventory

open Lib Dict List Option

namespace InventoryService

variable {s t : InventoryService} {extra owed extra' owed' : ItemKey → Int}
  {E : InventoryError → InventoryService → Prop} {Q : Unit → InventoryService → Prop}
  {key : ItemKey} {item : InventoryItem} {id : Id} {r : Reservation}

/-! ## Failures -/

/-- No item changes, but for empty ones that are new, and nothing is recorded. -/
structure Unchanged (s t : InventoryService) : Prop where
  items : ∀ key item, s.items.get? key = some item → t.items.get? key = some item
  onHand : ∀ key, t.onHandOf key = s.onHandOf key
  reserved : ∀ key, t.reservedOf key = s.reservedOf key
  ledger : t.ledger = s.ledger

/-- How an operation may fail. -/
def Failed (s : InventoryService) (e : InventoryError) (t : InventoryService) : Prop :=
  Agree t ∧ (e.refusesStock = true → Unchanged s t)

/-- A failure that has nothing to do with stock. -/
def Calm (e : InventoryError) (t : InventoryService) : Prop := Agree t ∧ e.refusesStock = false

theorem Calm.failed {e : InventoryError} (h : Calm e t) : Failed s e t := by
  refine ⟨h.1, fun hrefuses => ?_⟩
  rw [h.2] at hrefuses
  cases hrefuses

theorem Quiet.unchanged (h : Quiet s t) : Unchanged s t where
  items key item hget := by rw [h.items, hget]
  onHand key := by rw [onHandOf, h.items, onHandOf]
  reserved key := by rw [reservedOf, h.items, reservedOf]
  ledger := h.ledger

theorem Quiet.refl (s : InventoryService) : Quiet s s := ⟨rfl, rfl, rfl, rfl, rfl, Nat.le_refl _⟩

theorem ends_calm {α : Type} {x : Op α} {Q : α → InventoryService → Prop}
    (h : Ends x Q Calm s) : Ends x Q (Failed s) s :=
  h.mono (fun _ _ hQ => hQ) fun _ _ hE => hE.failed

/-! ## Internals -/

theorem readClock_ends {Q : ℚ → InventoryService → Prop}
    (h : Q (s.config.clock s.readings) { s with readings := s.readings + 1 }) :
    Ends readClock Q E s := h

theorem drawId_ends {Q : Id → InventoryService → Prop}
    (h : Q s.nextId { s with nextId := s.nextId + 1 }) : Ends drawId Q E s := h

theorem requirePositive_ends {qty : Int} (hQ : 0 < qty → Q () s)
    (hE : ∀ message, E (.value message) s) : Ends (requirePositive qty) Q E s := by
  rw [requirePositive, ends_ite]
  exact ⟨fun _ => hE _, fun h => hQ (by omega)⟩

theorem getItem_ends {Q : InventoryItem → InventoryService → Prop}
    (hQ : ∀ item, s.items.get? key = some item → Q item s)
    (hE : s.items.get? key = none → ∀ what, E (.notFound what) s) : Ends (getItem key) Q E s := by
  rw [getItem, ends_bind, ends_get]
  split
  · next hnone => exact hE hnone _
  · next item hget => exact hQ item hget

theorem changeItem_ends {change : InventoryItem → Except InventoryError InventoryItem}
    (hget : s.items.get? key = some item)
    (hok : ∀ item', change item = .ok item' → Q () { s with items := s.items.set key item' })
    (herror : ∀ e, change item = .error e → E e s) : Ends (changeItem key change) Q E s := by
  rw [changeItem, ends_bind]
  apply getItem_ends
  · intro i hi
    cases hget.symm.trans hi
    rw [ends_bind]
    cases hchange : change item with
    | error e => exact herror e hchange
    | ok item' => exact hok item' hchange
  · intro hnone
    rw [hget] at hnone
    cases hnone

theorem record_ends {type : MovementType} {delta : Int} {reference : String}
    {E : InventoryError → InventoryService → Prop} (hget : s.items.get? key = some item)
    (hQ : ∀ m, m.key = key → m.delta = delta → m.onHandAfter = item.onHand → Q () { s with
        nextId := s.nextId + 1, readings := s.readings + 1, ledger := s.ledger ++ [m] }) :
    Ends (record key type delta reference) Q E s := by
  rw [record, ends_bind]
  apply drawId_ends
  rw [ends_bind]
  apply getItem_ends
  · intro i hi
    cases hget.symm.trans hi
    rw [ends_bind]
    exact hQ ⟨s.nextId, key.1, key.2, type, delta, item.onHand, reference,
      s.config.clock s.readings⟩ rfl rfl rfl
  · intro hnone
    rw [hget] at hnone
    cases hnone

theorem Books.recordItem (h : Books s extra owed) {type : MovementType} {delta : Int}
    {reference : String} (hget : s.items.get? key = some item) (hdelta : owed key = delta)
    (owed' : ItemKey → Int) (howed : ∀ k, owed' k = owed k - if k = key then delta else 0) :
    Ends (record key type delta reference)
      (fun _ t => Books t extra owed' ∧ t.items = s.items ∧ t.reservations = s.reservations)
      E s := by
  apply record_ends hget
  intro m hkey hm hafter
  have hbooks := h.enter (m := m) (by rw [hafter, hkey, onHandOf_some hget])
    (by rw [hkey, hm, hdelta]) (by rw [hkey, hm]; exact howed)
  exact ⟨hbooks.quiet ⟨rfl, rfl, rfl, rfl, rfl, Nat.le_succ _⟩, rfl, rfl⟩

theorem getOrCreateItem_ends (h : Agree s) (key : ItemKey) : Ends (getOrCreateItem key)
      (fun _ t => Agree t ∧ Unchanged s t ∧ t.reservations = s.reservations ∧
        ∃ item, t.items.get? key = some item) Calm s := by
  rw [getOrCreateItem, ends_bind, ends_get]
  split
  · next product warehouse hproduct hwarehouse =>
      rw [ends_ite]
      constructor
      · intro hnone
        have hnone := isNone_iff_eq_none.mp hnone
        have hzero : s.reservedOf key = 0 ∧ s.onHandOf key = 0 := by
          rw [reservedOf, onHandOf, hnone]
          exact ⟨rfl, rfl⟩
        have hkey : (product.sku, warehouse.warehouseId) = key :=
          Prod.ext (h.products _ _ hproduct) (h.warehouses _ _ hwarehouse)
        refine ⟨h.set hkey ⟨le_refl 0, le_refl 0⟩ ?_ ?_, ⟨?_, ?_, ?_, rfl⟩, rfl,
          ⟨_, get?_set_self _ _ _⟩⟩
        · intro k
          simp [hzero.1]
        · intro k
          simp [hzero.2]
        · intro k item hk
          have hne : k ≠ key := ne_of_eq_none hk hnone
          exact (get?_set_of_ne _ _ hne).trans hk
        · intro k
          rw [onHandOf_set]
          split
          · next hk => rw [hk, hzero.2]
          · rfl
        · intro k
          rw [reservedOf_set]
          split
          · next hk => rw [hk, hzero.1]
          · rfl
      · intro hsome
        obtain ⟨item, hget⟩ := ne_none_iff_exists'.mp fun hnone =>
          hsome (isNone_iff_eq_none.mpr hnone)
        exact ⟨h, (Quiet.refl s).unchanged, rfl, item, hget⟩
  · exact ⟨h, rfl⟩

/-! ## Stock in and out -/

theorem receiveStock_ends (h : Agree s) (sku warehouseId : String) (qty : Int)
    (reference : String) :
    Ends (receiveStock sku warehouseId qty reference) (fun _ t => Agree t) Calm s := by
  rw [receiveStock, ends_bind]
  apply requirePositive_ends
  · intro hqty
    rw [ends_bind]
    apply (getOrCreateItem_ends h (sku, warehouseId)).mono
    · rintro _ t ⟨ht, -, -, item, hget⟩
      rw [ends_bind]
      apply changeItem_ends hget
      · intro item' hok
        cases hok
        have hb := ht.bounds (sku, warehouseId)
        rw [reservedOf_some hget, onHandOf_some hget] at hb
        have hbooks : Books { t with items := t.items.set (sku, warehouseId) (item.receive qty) }
            (fun _ => 0) (fun k => if k = (sku, warehouseId) then qty else 0) := by
          apply ht.change hget (item.receive qty) rfl rfl
          · simp only [InventoryItem.receive]
            omega
          · intro k
            simp [InventoryItem.receive]
          · intro k
            simp [InventoryItem.receive]
        apply (hbooks.recordItem (get?_set_self _ _ _) (if_pos rfl) (fun _ => 0) _).mono
        · exact fun _ u hu => hu.1
        · exact fun _ _ hE => hE
        · intro k
          omega
      · intro e herror
        cases herror
    · exact fun _ _ hE => hE
  · exact fun message => ⟨h, rfl⟩

theorem adjustStock_ends (h : Agree s) (sku warehouseId : String) (counted : Int)
    (reason : String) :
    Ends (adjustStock sku warehouseId counted reason) (fun _ t => Agree t) (Failed s) s := by
  rw [adjustStock, ends_ite]
  constructor
  · exact fun _ => Calm.failed ⟨h, rfl⟩
  intro _
  rw [ends_bind]
  apply getItem_ends
  · intro item hget
    rw [ends_ite]
    constructor
    · exact fun _ => ⟨h, fun _ => (Quiet.refl s).unchanged⟩
    intro hcounted
    rw [ends_ite]
    constructor
    · intro _
      rw [ends_bind]
      have hb := h.bounds (sku, warehouseId)
      rw [reservedOf_some hget, onHandOf_some hget] at hb
      apply changeItem_ends hget
      · intro item' hok
        unfold InventoryItem.correct at hok
        split at hok
        · cases hok
        cases hok
        rw [ends_bind]
        let counts := { item with onHand := item.onHand + (counted - item.onHand) }
        have hbooks : Books { s with items := s.items.set (sku, warehouseId) counts }
            (fun _ => 0)
            (fun k => if k = (sku, warehouseId) then counted - item.onHand else 0) := by
          apply h.change hget counts rfl rfl
          · dsimp only [counts]
            omega
          · intro k
            simp [counts]
          · intro k
            simp [counts]
        apply (hbooks.recordItem (get?_set_self _ _ _) (if_pos rfl) (fun _ => 0) _).mono
        · exact fun _ u hu => hu.1
        · exact fun _ _ hE => hE
        · intro k
          omega
      · intro e herror
        -- the correction leaves what is reserved
        unfold InventoryItem.correct at herror
        split at herror
        · omega
        · cases herror
    · exact fun _ => h
  · exact fun _ what => Calm.failed ⟨h, rfl⟩

theorem transferStock_ends (h : Agree s) (sku fromWh toWh : String) (qty : Int) :
    Ends (transferStock sku fromWh toWh qty) (fun _ t => Agree t) (Failed s) s := by
  rw [transferStock, ends_bind]
  apply requirePositive_ends
  · intro hqty
    rw [ends_ite]
    constructor
    · exact fun _ => Calm.failed ⟨h, rfl⟩
    intro hne
    have hkeys : (sku, toWh) ≠ (sku, fromWh) := fun heq => hne (Prod.mk.inj heq).2.symm
    rw [ends_bind]
    apply getItem_ends
    · intro source hsource
      rw [ends_bind]
      apply (getOrCreateItem_ends h (sku, toWh)).mono
      · rintro _ t ⟨ht, hsame, -, target, htarget⟩
        have hsource' := hsame.items _ source hsource
        have hb := ht.bounds (sku, fromWh)
        rw [reservedOf_some hsource', onHandOf_some hsource'] at hb
        have hb' := ht.bounds (sku, toWh)
        rw [reservedOf_some htarget, onHandOf_some htarget] at hb'
        rw [ends_bind]
        apply changeItem_ends hsource'
        · intro item' hok
          unfold InventoryItem.removeAvailable at hok
          split at hok
          · cases hok
          · next havailable =>
              cases hok
              simp only [InventoryItem.available] at havailable
              let left := { source with onHand := source.onHand - qty }
              have hleft : Books { t with items := t.items.set (sku, fromWh) left } (fun _ => 0)
                  (fun k => if k = (sku, fromWh) then -qty else 0) := by
                apply ht.change hsource' left rfl rfl
                · dsimp only [left]
                  omega
                · intro k
                  simp [left]
                · intro k
                  simp [left]
              have htarget' : (t.items.set (sku, fromWh) left).get? (sku, toWh) = some target :=
                (get?_set_of_ne _ _ hkeys).trans htarget
              rw [ends_bind]
              apply changeItem_ends htarget'
              · intro item' hok
                cases hok
                let items := (t.items.set (sku, fromWh) left).set (sku, toWh) (target.receive qty)
                have hboth : Books { t with items } (fun _ => 0)
                    (fun k => (if k = (sku, fromWh) then -qty else 0) +
                      if k = (sku, toWh) then qty else 0) := by
                  apply hleft.change htarget' (target.receive qty) rfl rfl
                  · simp only [InventoryItem.receive]
                    omega
                  · intro k
                    simp [InventoryItem.receive]
                  · intro k
                    simp [InventoryItem.receive]
                have hfrom : items.get? (sku, fromWh) = some left :=
                  (get?_set_of_ne _ _ hkeys.symm).trans (get?_set_self _ _ _)
                have hto : items.get? (sku, toWh) = some (target.receive qty) :=
                  get?_set_self _ _ _
                rw [ends_bind]
                apply (hboth.recordItem hfrom (by simp [hkeys.symm])
                  (fun k => if k = (sku, toWh) then qty else 0) _).mono
                · rintro _ u ⟨hu, hitems, -⟩
                  have hto' : u.items.get? (sku, toWh) = some (target.receive qty) := by
                    rw [hitems]
                    exact hto
                  apply (hu.recordItem hto' (if_pos rfl) (fun _ => 0) _).mono
                  · exact fun _ v hv => hv.1
                  · exact fun _ _ hE => hE
                  · intro k
                    omega
                · exact fun _ _ hE => hE
                · intro k
                  omega
              · intro e herror
                cases herror
        · intro e _
          exact ⟨ht, fun _ => hsame⟩
      · exact fun e t hE => hE.failed
    · exact fun _ what => Calm.failed ⟨h, rfl⟩
  · exact fun message => Calm.failed ⟨h, rfl⟩

/-! ## Reservations -/

variable {lines : List ReservationLine} {line : ReservationLine}

theorem distinct_of_nodup (h : lines.Nodup) : distinct lines = lines := by
  induction lines with
  | nil => rfl
  | cons _ _ ih =>
    obtain ⟨hline, hn⟩ := nodup_cons.mp h
    rw [distinct, ih hn, filter_eq_self.mpr]
    intro l hl
    apply decide_eq_true
    rintro rfl
    exact hline hl

theorem getItems_ends (lines : List ReservationLine) (hQ : Q () s)
    (hE : ∀ what, E (.notFound what) s) :
    Ends (lines.forM fun line => do let _ ← getItem line.key; pure ()) Q E s := by
  apply (Ends.forM (fun _ t => t = s) rfl _).mono
  · rintro ⟨⟩ t rfl
    exact hQ
  · exact fun _ _ hE => hE
  · rintro pre line post t - rfl
    rw [ends_bind]
    exact getItem_ends (fun _ _ => rfl) fun _ => hE

theorem Books.takeLine {pre post : List ReservationLine}
    (h : Books s (fun k => -effect (pre.map ReservationLine.posting) k) owed)
    (hget : s.reservations.get? id = some r) (hactive : r.status = .active)
    (hlines : r.lines = pre ++ line :: post) :
    (∃ item, s.items.get? line.key = some item ∧ line.quantity ≤ item.reserved ∧
      item.reserved ≤ item.onHand) ∧
    ∀ k, -effect ((pre ++ [line]).map ReservationLine.posting) k =
      -effect (pre.map ReservationLine.posting) k + if k = line.key then -line.quantity else 0 := by
  obtain ⟨-, -, hn, hpos⟩ := h.lines id r hget
  have hmem : line ∈ r.lines := by
    rw [hlines]
    simp
  have hbefore : effect (pre.map ReservationLine.posting) line.key = 0 := by
    apply effect_of_not_mem
    rw [List.map_map]
    rw [hlines, map_append, map_cons, nodup_append] at hn
    intro hin
    exact hn.2.2 _ hin _ mem_cons_self rfl
  have hge := h.reserved_ge hget hactive hmem (by rw [hbefore, neg_zero])
  have hbounds := h.bounds line.key
  constructor
  · cases hitem : s.items.get? line.key with
    | none =>
      have := hpos line hmem
      rw [reservedOf, hitem] at hge
      simp only [Option.elim] at hge
      omega
    | some item =>
      rw [reservedOf_some hitem] at hge hbounds
      rw [onHandOf_some hitem] at hbounds
      exact ⟨item, rfl, hge, hbounds.2⟩
  · intro k
    rw [map_append, map_singleton, effect_concat, ReservationLine.posting]
    split <;> omega

theorem releaseLocked_ends (h : Agree s) {final : ReservationStatus}
    (hget : s.reservations.get? id = some r) (hactive : r.status = .active)
    (hfinal : final ≠ .active) : Ends (releaseLocked r final) (fun _ t => Agree t) Calm s := by
  have hn : r.lines.Nodup := (h.lines id r hget).2.2.1.of_map _
  rw [releaseLocked, distinct_of_nodup hn, ends_bind]
  apply getItems_ends
  · rw [ends_bind]
    apply (Ends.forM (fun pre t => Books t (fun k => -effect (pre.map ReservationLine.posting) k)
      (fun _ => 0) ∧ t.reservations = s.reservations) ⟨h, rfl⟩ _).mono
    · rintro _ t ⟨ht, hsame⟩
      rw [setStatus, ends_modify]
      apply ht.settle (hsame ▸ hget) hactive hfinal
      intro k
      omega
    · exact fun _ _ hE => hE
    rintro pre line post t hlines ⟨ht, hsame⟩
    obtain ⟨⟨item, hitem, hge, hle⟩, hextra⟩ := ht.takeLine (hsame ▸ hget) hactive hlines
    apply changeItem_ends hitem
    · intro item' hok
      unfold InventoryItem.release at hok
      split at hok
      · cases hok
      cases hok
      refine ⟨ht.change hitem { item with reserved := item.reserved - line.quantity } rfl rfl
        ⟨?_, ?_⟩ ?_ ?_, hsame⟩
      · dsimp only
        omega
      · have := (ht.lines id r (hsame ▸ hget)).2.2.2 line (by rw [hlines]; simp)
        dsimp only
        omega
      · intro k
        rw [hextra k]
        dsimp only
        split <;> omega
      · intro k
        simp
    · intro e herror
      unfold InventoryItem.release at herror
      split at herror
      · omega
      · cases herror
  · exact fun what => ⟨h, rfl⟩

theorem ship_ends (h : Agree s) (reference : String) (hget : s.reservations.get? id = some r)
    (hactive : r.status = .active) : Ends (ship r reference) (fun _ t => Agree t) Calm s := by
  have hn : r.lines.Nodup := (h.lines id r hget).2.2.1.of_map _
  rw [ship, distinct_of_nodup hn, ends_bind]
  apply getItems_ends
  · rw [ends_bind]
    apply (Ends.forM (fun pre t => Books t (fun k => -effect (pre.map ReservationLine.posting) k)
      (fun _ => 0) ∧ t.reservations = s.reservations) ⟨h, rfl⟩ _).mono
    · rintro _ t ⟨ht, hsame⟩
      rw [setStatus, ends_modify]
      apply ht.settle (hsame ▸ hget) hactive (by decide)
      intro k
      omega
    · exact fun _ _ hE => hE
    rintro pre line post t hlines ⟨ht, hsame⟩
    obtain ⟨⟨item, hitem, hge, hle⟩, hextra⟩ := ht.takeLine (hsame ▸ hget) hactive hlines
    rw [ends_bind]
    apply changeItem_ends hitem
    · intro item' hok
      unfold InventoryItem.shipReserved at hok
      split at hok
      · cases hok
      cases hok
      let left := { item with
        reserved := item.reserved - line.quantity, onHand := item.onHand - line.quantity }
      have hleft : Books { t with items := t.items.set line.key left }
          (fun k => -effect ((pre ++ [line]).map ReservationLine.posting) k)
          (fun k => if k = line.key then -line.quantity else 0) := by
        apply ht.change hitem left rfl rfl
        · dsimp only [left]
          omega
        · intro k
          rw [hextra k]
          dsimp only [left]
          split <;> omega
        · intro k
          dsimp only [left]
          split <;> omega
      apply (hleft.recordItem (get?_set_self _ _ _) (if_pos rfl) (fun _ => 0) _).mono
      · rintro _ u ⟨hu, -, hres⟩
        exact ⟨hu, hres.trans hsame⟩
      · exact fun _ _ hE => hE
      · intro k
        omega
    · intro e herror
      unfold InventoryItem.shipReserved at herror
      split at herror
      · omega
      · cases herror
  · exact fun what => ⟨h, rfl⟩

theorem getReservation_ends {Q : Reservation → InventoryService → Prop}
    (hQ : ∀ r, s.reservations.get? id = some r → Q r s) (hE : ∀ what, E (.notFound what) s) :
    Ends (getReservation id) Q E s := by
  rw [getReservation, ends_bind, ends_get]
  split
  · exact hE _
  · next r hget => exact hQ r hget

theorem commit_ends (h : Agree s) (id : Id) (reference : String) :
    Ends (commit id reference) (fun _ t => Agree t) Calm s := by
  rw [commit, ends_bind]
  apply getReservation_ends
  · intro r hget
    split
    · exact h
    · exact ⟨h, rfl⟩
    · exact ⟨h, rfl⟩
    · next hactive =>
        have hread : Agree { s with readings := s.readings + 1 } :=
          h.quiet ⟨rfl, rfl, rfl, rfl, rfl, Nat.le_refl _⟩
        rw [ends_bind]
        apply readClock_ends
        rw [ends_ite]
        constructor
        · intro _
          rw [ends_bind]
          apply (releaseLocked_ends hread (by exact hget) hactive (by decide)).mono
          · exact fun _ t ht => ⟨ht, rfl⟩
          · exact fun _ _ hE => hE
        · exact fun _ => ship_ends hread reference hget hactive
  · exact fun what => ⟨h, rfl⟩

theorem release_ends (h : Agree s) (id : Id) : Ends (release id) (fun _ t => Agree t) Calm s := by
  rw [release, ends_bind]
  apply getReservation_ends
  · intro r hget
    split
    · exact h
    · exact h
    · exact ⟨h, rfl⟩
    · next hactive => exact releaseLocked_ends h hget hactive (by decide)
  · exact fun what => ⟨h, rfl⟩

theorem expireReservations_ends (h : Agree s) :
    Ends expireReservations (fun _ t => Agree t) Calm s := by
  have hread : Agree { s with readings := s.readings + 1 } :=
    h.quiet ⟨rfl, rfl, rfl, rfl, rfl, Nat.le_refl _⟩
  rw [expireReservations, ends_bind]
  apply readClock_ends
  rw [ends_bind, ends_get]
  apply Ends.forM (fun _ t => Agree t) hread
  intro pre id post t _ ht
  rw [expireOne, ends_bind]
  apply getReservation_ends
  · intro r hget
    rw [ends_ite]
    exact ⟨fun hactive => releaseLocked_ends ht hget hactive (by decide), fun _ => ht⟩
  · exact fun what => ⟨ht, rfl⟩

theorem Books.backed (h : Agree s) {skus : List String}
    (hline : Backed ((s.items.items.filter fun entry => entry.1.1 ∈ skus).map Prod.snd) line) :
    0 < line.quantity ∧
      ∃ item, s.items.get? line.key = some item ∧ line.quantity ≤ item.available := by
  obtain ⟨hpos, item, hitem, hsku, hid, hle⟩ := hline
  obtain ⟨entry, hentry, rfl⟩ := List.mem_map.mp hitem
  have hget := mem_items_iff.mp (mem_of_mem_filter hentry)
  have hkey : line.key = entry.1 := by
    rw [ReservationLine.key, ← hsku, ← hid]
    exact h.itemKey entry.1 entry.2 hget
  exact ⟨hpos, entry.2, hkey ▸ hget, hle⟩

theorem items_nodup (h : Agree s) (skus : List String) :
    (((s.items.items.filter fun entry => entry.1.1 ∈ skus).map Prod.snd).map
      fun i => (i.product.sku, i.warehouse.warehouseId)).Nodup := by
  have hkeys : ((s.items.items.filter fun entry => entry.1.1 ∈ skus).map Prod.snd).map
      (fun i => (i.product.sku, i.warehouse.warehouseId)) =
      (s.items.items.filter fun entry => entry.1.1 ∈ skus).map Prod.fst := by
    rw [List.map_map]
    apply map_congr_left
    intro entry hentry
    exact h.itemKey entry.1 entry.2 (mem_items_iff.mp (mem_of_mem_filter hentry))
  rw [hkeys]
  exact s.items.nodup.sublist (List.Sublist.map _ filter_sublist)

theorem reserveLines_ends (h : Agree s) (hn : (lines.map ReservationLine.key).Nodup)
    (hbacked : ∀ line ∈ lines, 0 < line.quantity ∧
      ∃ item, s.items.get? line.key = some item ∧ line.quantity ≤ item.available) :
    Ends (lines.forM fun line => changeItem line.key fun item => item.reserve line.quantity)
      (fun _ t => Books t (fun k => effect (lines.map ReservationLine.posting) k) (fun _ => 0) ∧
        t.reservations = s.reservations ∧ t.nextId = s.nextId) E s := by
  apply (Ends.forM (fun pre t => Books t (fun k => effect (pre.map ReservationLine.posting) k)
    (fun _ => 0) ∧ (t.reservations = s.reservations ∧ t.nextId = s.nextId) ∧
      ∀ key, key ∉ pre.map ReservationLine.key → t.items.get? key = s.items.get? key)
    ⟨h, ⟨rfl, rfl⟩, fun _ _ => rfl⟩ _).mono
  · exact fun _ t ht => ⟨ht.1, ht.2.1⟩
  · exact fun _ _ hE => hE
  rintro pre line post t hlines ⟨ht, hsame, hitems⟩
  obtain ⟨hpos, item, hget, hle⟩ := hbacked line (by rw [hlines]; simp)
  have hfresh : line.key ∉ pre.map ReservationLine.key := by
    rw [hlines, map_append, map_cons, nodup_append] at hn
    exact fun hin => hn.2.2 _ hin _ mem_cons_self rfl
  have hitem := (hitems line.key hfresh).trans hget
  have hb := ht.bounds line.key
  rw [reservedOf_some hitem, onHandOf_some hitem] at hb
  simp only [InventoryItem.available] at hle
  apply changeItem_ends hitem
  · intro item' hok
    unfold InventoryItem.reserve at hok
    split at hok
    · cases hok
    cases hok
    refine ⟨ht.change hitem { item with reserved := item.reserved + line.quantity } rfl rfl
      ⟨?_, ?_⟩ ?_ ?_, hsame, ?_⟩
    · dsimp only
      omega
    · dsimp only
      omega
    · intro k
      rw [map_append, map_singleton, effect_concat, ReservationLine.posting]
      dsimp only
      split <;> omega
    · intro k
      simp
    · intro key hkey
      rw [map_append, map_singleton, mem_append, mem_singleton, not_or] at hkey
      exact (get?_set_of_ne _ _ hkey.2).trans (hitems key hkey.1)
  · intro e herror
    unfold InventoryItem.reserve at herror
    split at herror
    · next hlt =>
        simp only [InventoryItem.available] at hlt
        omega
    · cases herror

theorem reserveItems_ends (h : Agree s) (orderId : String) {wanted : Dict String Int}
    (hqty : ∀ qty ∈ wanted.values, 0 < qty) :
    Ends (reserveItems orderId wanted) (fun _ t => Agree t) (Failed s) s := by
  rw [reserveItems, ends_bind, itemsForSkus, ends_bind, ends_get, ends_ite]
  constructor
  · exact fun _ => Calm.failed ⟨h, rfl⟩
  intro _
  rw [ends_pure, ends_bind, ends_get, ends_bind]
  cases hplan : plan s.config.allocation
      ((s.items.items.filter fun entry => entry.1.1 ∈ wanted.keys).map Prod.snd) wanted with
  | error e =>
    refine ⟨h, fun _ => (Quiet.refl s).unchanged⟩
  | ok lines =>
    obtain ⟨hn, hbacked⟩ := plan_ok hqty (items_nodup h wanted.keys) hplan
    have hbacked' := fun line hline => Books.backed h (hbacked line hline)
    rw [liftExcept, ends_pure, ends_bind]
    apply (reserveLines_ends h hn hbacked').mono
    · rintro _ t ⟨ht, hres, hid⟩
      rw [ends_bind]
      apply drawId_ends
      rw [ends_bind]
      apply readClock_ends
      rw [ends_bind, ends_modify, ends_pure]
      have hnew : t.reservations.get? t.nextId = none := by
        rw [hres, hid]
        apply eq_none_iff_forall_ne_some.mpr
        intro r hr
        exact Nat.lt_irrefl _ (h.lines _ r hr).2.1
      have hdrawn : Books { t with nextId := t.nextId + 1, readings := t.readings + 1 }
          (fun k => effect (lines.map ReservationLine.posting) k) (fun _ => 0) :=
        ht.quiet ⟨rfl, rfl, rfl, rfl, rfl, Nat.le_succ _⟩
      let r : Reservation :=
        { reservationId := t.nextId, orderId, lines
          expiresAt := Binary64.round (t.config.clock t.readings + s.config.reservationTtl) }
      have hbooked : Agree { t with
          nextId := t.nextId + 1, readings := t.readings + 1
          reservations := t.reservations.set t.nextId r } :=
        hdrawn.book r rfl hnew (Nat.lt_succ_self _) hn
          (fun line hline => (hbacked' line hline).1) fun k => (zero_add _).symm
      exact hbooked.quiet ⟨rfl, rfl, rfl, rfl, rfl, Nat.le_refl _⟩
    · exact fun _ _ hE => hE

theorem landing_ends {α : Type} {x : Op α} {orderId : String} {Q Q' : α → InventoryService → Prop}
    {E' : InventoryError → InventoryService → Prop} (h : Ends x Q E s)
    (hQ : ∀ a t, Q a t → Q' a { t with inFlightOrders := t.inFlightOrders.erase orderId })
    (hE : ∀ e t, E e t → E' e { t with inFlightOrders := t.inFlightOrders.erase orderId }) :
    Ends (landing orderId x) Q' E' s := by
  unfold Ends landing at *
  cases hx : x s with
  | ok a t =>
    rw [hx] at h
    exact hQ a t h
  | error e t =>
    rw [hx] at h
    exact hE e t h

theorem reserve_ends (h : Agree s) (orderId : String) (request : Dict String Int) :
    Ends (reserve orderId request) (fun _ t => Agree t) (Failed s) s := by
  have hrefused : ∀ e, Failed s e s := fun e => ⟨h, fun _ => (Quiet.refl s).unchanged⟩
  rw [reserve, ends_ite]
  constructor
  · exact fun _ => hrefused _
  intro _
  rw [ends_bind]
  apply (Ends.forM (fun pre t => t = s ∧ ∀ qty ∈ pre, 0 < qty) ⟨rfl, by simp⟩ _).mono
  · rintro ⟨⟩ t ⟨rfl, hqty⟩
    rw [ends_bind, ends_get]
    split
    · rw [ends_ite]
      exact ⟨fun _ => h, fun _ => hrefused _⟩
    rw [ends_ite]
    constructor
    · exact fun _ => hrefused _
    intro _
    rw [ends_bind, ends_modify]
    have hflight : Agree { t with inFlightOrders := orderId :: t.inFlightOrders } :=
      h.quiet ⟨rfl, rfl, rfl, rfl, rfl, Nat.le_refl _⟩
    apply landing_ends (reserveItems_ends hflight orderId hqty)
    · exact fun _ u hu => Books.quiet hu ⟨rfl, rfl, rfl, rfl, rfl, Nat.le_refl _⟩
    · rintro e u ⟨hu, hsame⟩
      refine ⟨Books.quiet hu ⟨rfl, rfl, rfl, rfl, rfl, Nat.le_refl _⟩, fun he => ?_⟩
      have := hsame he
      exact ⟨this.items, this.onHand, this.reserved, this.ledger⟩
  · exact fun _ _ hE => hE
  · rintro pre qty post t - ⟨rfl, hpre⟩
    apply requirePositive_ends
    · intro hqty
      refine ⟨rfl, fun q hq => ?_⟩
      rcases mem_append.mp hq with hq | hq
      · exact hpre q hq
      · rw [mem_singleton.mp hq]
        exact hqty
    · exact fun _ => hrefused _

/-! ## Catalog and replenishment -/

theorem addProduct_ends (h : Agree s) (product : Product) :
    Ends (addProduct product) (fun _ t => Agree t) Calm s := by
  rw [addProduct, ends_ite]
  constructor
  · exact fun _ => ⟨h, rfl⟩
  intro _
  rw [ends_bind, ends_get, ends_ite]
  constructor
  · exact fun _ => ⟨h, rfl⟩
  intro _
  rw [ends_modify]
  refine ⟨h.reserved, h.onHand, h.bounds, h.running, h.lines, h.itemKey, ?_, h.warehouses⟩
  intro sku p hp
  rcases get?_set_some hp with ⟨rfl, rfl⟩ | ⟨-, hp⟩
  · rfl
  · exact h.products sku p hp

theorem addWarehouse_ends (h : Agree s) (warehouse : Warehouse) :
    Ends (addWarehouse warehouse) (fun _ t => Agree t) Calm s := by
  rw [addWarehouse, ends_bind, ends_get, ends_ite]
  constructor
  · exact fun _ => ⟨h, rfl⟩
  intro _
  rw [ends_modify]
  refine ⟨h.reserved, h.onHand, h.bounds, h.running, h.lines, h.itemKey, h.products, ?_⟩
  intro id w hw
  rcases get?_set_some hw with ⟨rfl, rfl⟩ | ⟨-, hw⟩
  · rfl
  · exact h.warehouses id w hw

/-! ### Reordering -/

def onOrder (s : InventoryService) (key : ItemKey) : Int :=
  ((s.purchaseOrders.values.filter fun po =>
    po.status = .open ∧ (po.sku, po.warehouseId) = key).map PurchaseOrder.quantity).sum

/-- What `_avg_daily_demand` gives, unless it raises. -/
def demand (s : InventoryService) (key : ItemKey) : Option ℚ :=
  (s.dailyDemand (s.config.clock s.readings) key).toOption

/-- What the policy is asked about an item. -/
def reorderContext (s : InventoryService) (key : ItemKey) (item : InventoryItem) (avg : ℚ) :
    ReorderContext := ⟨item.product, key.2, item.available + s.onOrder key, avg⟩

/-- What the policy says about an item, unless it raises. -/
def quantity (s : InventoryService) (key : ItemKey) (item : InventoryItem) : Option Int :=
  (s.demand key).bind fun avg =>
    s.config.reorderPolicy.reorderQuantity (s.reorderContext key item avg)

/-- The clock is read once more. -/
def read (s : InventoryService) : InventoryService := { s with readings := s.readings + 1 }

/-- A purchase order is placed. -/
def ordered (s : InventoryService) (key : ItemKey) (qty : Int) : InventoryService :=
  { s with
    nextId := s.nextId + 1
    purchaseOrders := s.purchaseOrders.set s.nextId
      { poId := s.nextId, sku := key.1, warehouseId := key.2, quantity := qty } }

theorem dailyDemand_error {now : ℚ} {e : InventoryError} (h : s.dailyDemand now key = .error e) :
    e.refusesStock = false := by
  unfold dailyDemand at h
  split at h
  next =>
    cases h
    rfl
  dsimp only at h
  repeat' split at h
  all_goals cases h
  all_goals rfl

/-- The ends of `reorderItem`. -/
theorem reorderItem_spec {Q : Unit → InventoryService → Prop}
    (hnone : s.items.get? key = none → ∀ e, e.refusesStock = false → E e s)
    (hraise : ∀ item, s.items.get? key = some item → s.quantity key item = none →
      ∀ e, e.refusesStock = false → E e s.read)
    (hquiet : ∀ item qty, s.items.get? key = some item → s.quantity key item = some qty →
      ¬ 0 < qty → Q () s.read)
    (horder : ∀ item qty, s.items.get? key = some item → s.quantity key item = some qty →
      0 < qty → Q () (s.read.ordered key qty)) : Ends (reorderItem key) Q E s := by
  rw [reorderItem, ends_bind]
  refine getItem_ends (fun item hitem => ?_) fun hget _ => hnone hget _ rfl
  rw [ends_bind, ends_get, ends_bind, avgDailyDemand, ends_bind]
  apply readClock_ends
  rw [ends_bind, ends_get]
  show Ends (liftExcept (s.dailyDemand (s.config.clock s.readings) key)) _ _ _
  cases hdemand : s.dailyDemand (s.config.clock s.readings) key with
  | error =>
    exact hraise item hitem (by rw [quantity, demand, hdemand]; rfl) _ (dailyDemand_error hdemand)
  | ok avg =>
  have hquantity : s.quantity key item =
      s.config.reorderPolicy.reorderQuantity (s.reorderContext key item avg) := by
    rw [quantity, demand, hdemand]
    rfl
  rw [liftExcept, ends_pure]
  split
  next h => exact hraise item hitem (hquantity.trans h) _ rfl
  next qty h =>
    rw [ends_ite]
    exact ⟨horder item qty hitem (hquantity.trans h), hquiet item qty hitem (hquantity.trans h)⟩

theorem reorderItem_ends (h : Agree s) (key : ItemKey) :
    Ends (reorderItem key) (fun _ t => Agree t) Calm s := by
  have hread : Agree s.read := h.quiet ⟨rfl, rfl, rfl, rfl, rfl, Nat.le_refl _⟩
  exact reorderItem_spec (fun _ _ he => ⟨h, he⟩) (fun _ _ _ _ he => ⟨hread, he⟩)
    (fun _ _ _ _ _ => hread) fun _ _ _ _ _ => hread.quiet ⟨rfl, rfl, rfl, rfl, rfl, Nat.le_succ _⟩

theorem checkReorder_ends (h : Agree s) : Ends checkReorder (fun _ t => Agree t) Calm s := by
  rw [checkReorder, ends_bind, ends_get]
  apply Ends.forM (fun _ t => Agree t) h
  intro pre key post t _ ht
  exact reorderItem_ends ht key

theorem closePurchaseOrder_ends (h : Agree s) (poId : Id) (status : POStatus) :
    Ends (closePurchaseOrder poId status) (fun _ t => Agree t) Calm s := by
  rw [closePurchaseOrder, ends_bind, ends_get]
  split
  · exact ⟨h, rfl⟩
  · rw [ends_ite]
    constructor
    · exact fun _ => ⟨h, rfl⟩
    · intro _
      rw [ends_bind, ends_modify, ends_pure]
      exact h.quiet ⟨rfl, rfl, rfl, rfl, rfl, Nat.le_refl _⟩

/-! ## Sequences of operations -/

theorem perform_ends (h : Agree s) (op : InventoryOp) :
    Ends (perform op) (fun _ t => Agree t) (Failed s) s := by
  cases op with
  | addProduct product => exact ends_calm (addProduct_ends h product)
  | addWarehouse warehouse => exact ends_calm (addWarehouse_ends h warehouse)
  | receiveStock sku warehouseId qty reference =>
    exact ends_calm (receiveStock_ends h sku warehouseId qty reference)
  | adjustStock sku warehouseId counted reason =>
    rw [perform, ends_bind]
    exact (adjustStock_ends h sku warehouseId counted reason).mono (fun _ _ ht => ht)
      fun _ _ hE => hE
  | transferStock sku fromWh toWh qty => exact transferStock_ends h sku fromWh toWh qty
  | reserve orderId request =>
    rw [perform, ends_bind]
    exact (reserve_ends h orderId request).mono (fun _ _ ht => ht) fun _ _ hE => hE
  | commit id reference => exact ends_calm (commit_ends h id reference)
  | release id => exact ends_calm (release_ends h id)
  | expireReservations => exact ends_calm (expireReservations_ends h)
  | checkReorder => exact ends_calm (checkReorder_ends h)
  | receivePurchaseOrder poId =>
    apply ends_calm
    rw [perform, receivePurchaseOrder, ends_bind]
    exact (closePurchaseOrder_ends h poId .received).mono
      (fun po _ ht => receiveStock_ends ht po.sku po.warehouseId po.quantity _) fun _ _ hE => hE
  | cancelPurchaseOrder poId =>
    apply ends_calm
    rw [perform, cancelPurchaseOrder, ends_bind]
    exact (closePurchaseOrder_ends h poId .cancelled).mono (fun _ _ ht => ht) fun _ _ hE => hE

theorem after_agree (h : Agree s) (op : InventoryOp) : Agree (after s op) := by
  have hends := perform_ends h op
  unfold after
  rw [Ends] at hends
  cases hop : perform op s with
  | ok =>
    rw [hop] at hends
    exact hends
  | error =>
    rw [hop] at hends
    exact hends.1

/-- The stock agrees with its ledger after every run. -/
theorem run_books (config : InventoryConfig) (ops : List InventoryOp) :
    Agree (run (new config) ops) := by
  have hgen : ∀ (ops : List InventoryOp) (s : InventoryService), Agree s → Agree (run s ops) := by
    intro ops
    induction ops with
    | nil => exact fun s h => h
    | cons op _ ih => exact fun s h => ih (after s op) (after_agree h op)
  exact hgen ops _ (new_agree config)

/-- Stock, reservations and ledger agree, and an operation that refuses stock changes nothing. -/
structure StockAgrees (s : InventoryService) : Prop where
  bounds : ∀ key, 0 ≤ s.reservedOf key ∧ s.reservedOf key ≤ s.onHandOf key
  reserved : ∀ key, s.reservedOf key = s.promised key
  onHand : ∀ key, s.onHandOf key = s.moved key
  running : ∀ pre m post, s.ledger = pre ++ m :: post →
    m.onHandAfter = effect ((pre ++ [m]).map Movement.posting) m.key
  refused : ∀ op e t, perform op s = .error e t → e.refusesStock = true → Unchanged s t

/-- After every sequence of operations, whether they return or raise. -/
theorem run_agrees (config : InventoryConfig) (ops : List InventoryOp) :
    StockAgrees (run (new config) ops) := by
  have h := run_books config ops
  constructor
  · exact h.bounds
  · intro key
    rw [h.reserved key, add_zero]
  · intro key
    rw [h.onHand key, add_zero]
  · exact h.running
  · intro op e t herror hrefuses
    exact (ends_error (perform_ends h op) herror).2 hrefuses

end InventoryService

end InterviewPrep.Inventory
