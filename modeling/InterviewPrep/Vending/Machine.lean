/-
  Cash: the denominations, counters of pieces, and the bounded coin change of `make_change`.  A
  `Counter` is read as the count of every denomination, 0 for a missing key: no function of the
  machine tells the two apart.

  The vending machine: slots, cash box, escrow, and the states that allow a customer's actions.
  Every call is one atomic step; whether the product drops, and whether an authorization is
  declined, is a part of it.
-/
import InterviewPrep.Lib.Dict
import Mathlib.Algebra.BigOperators.Ring.Finset
import Mathlib.Tactic.Ring

namespace InterviewPrep.Vending

open Lib List

/-! ## Pieces -/

inductive Denomination where
  | nickel
  | dime
  | quarter
  | dollarCoin
  | oneNote
  | fiveNote
  deriving DecidableEq

namespace Denomination

instance : Fintype Denomination where
  elems := {nickel, dime, quarter, dollarCoin, oneNote, fiveNote}
  complete d := by cases d <;> decide

def cents : Denomination → Int
  | nickel => 5
  | dime => 10
  | quarter => 25
  | dollarCoin => 100
  | oneNote => 100
  | fiveNote => 500

end Denomination

/-- A counter of pieces. -/
abbrev Pieces := Denomination → Int

namespace Pieces

/-- `k` pieces of a denomination. -/
def of (d : Denomination) (k : Int) : Pieces := fun e => if e = d then k else 0

/-- The value in cents: `_sum`. -/
def total (p : Pieces) : Int := ∑ d, d.cents * p d

/-- The number of pieces. -/
def size (p : Pieces) : Int := ∑ d, p d

@[simp] theorem total_zero : total 0 = 0 := by simp [total]

theorem total_add (p q : Pieces) : total (p + q) = total p + total q := by
  simp only [total, Pi.add_apply, mul_add, Finset.sum_add_distrib]

theorem total_of (d : Denomination) (k : Int) : total (of d k) = k * d.cents := by
  rw [total, Finset.sum_eq_single d]
  · rw [of, if_pos rfl, mul_comm]
  · intro e _ hne
    rw [of, if_neg hne, mul_zero]
  · exact fun hd => absurd (Finset.mem_univ d) hd

end Pieces

/-! ## Change -/

/-- The coins, the larger values first: the order `make_change` takes them in. -/
def coins : List Denomination := [.dollarCoin, .quarter, .dime, .nickel]

/-- The inner loop: `used` and `k`, `k + 1`, … more coins, `left` of them at most. -/
def addCoins (amount : Int) (d : Denomination) (reached : Int) (used : Pieces) :
    Nat → Int → Dict Int Pieces → Dict Int Pieces
  | 0, _, layer => layer
  | left + 1, k, layer =>
    let total := reached + k * d.cents
    if total > amount then layer
    else
      let cand := used + Pieces.of d k
      match layer.get? total with
      | none => addCoins amount d reached used left (k + 1) (layer.set total cand)
      | some prev =>
        if cand.size < prev.size then
          addCoins amount d reached used left (k + 1) (layer.set total cand)
        else addCoins amount d reached used left (k + 1) layer

/-- The amounts that can be reached with one more denomination. -/
def addDenomination (amount : Int) (available : Pieces) (best : Dict Int Pieces)
    (d : Denomination) : Dict Int Pieces :=
  best.items.foldl (fun layer x => addCoins amount d x.1 x.2 (available d).toNat 1 layer) best

/-- Coins that sum to the amount, with at most the available ones of each. -/
def makeChange (amount : Int) (available : Pieces) : Option Pieces :=
  if amount = 0 then some 0
  else (coins.foldl (addDenomination amount available) (Dict.empty.set 0 0)).get? amount

/-- Coins that are available, of the denominations in `ds`, and their value. -/
structure Change (available : Pieces) (ds : List Denomination) (amount : Int) (p : Pieces) :
    Prop where
  total : p.total = amount
  nonneg : ∀ d, 0 ≤ p d
  available : ∀ d, p d ≠ 0 → d ∈ ds ∧ p d ≤ available d

/-- Everything in the table is change. -/
def Reached (available : Pieces) (ds : List Denomination) (best : Dict Int Pieces) : Prop :=
  ∀ amount p, best.get? amount = some p → Change available ds amount p

variable {available p : Pieces} {ds : List Denomination} {d : Denomination} {amount : Int}

variable {reached limit : Int}

theorem Change.more {k : Int} {used : Pieces} (h : Change available ds reached used)
    (hd : d ∉ ds) (hk : 0 ≤ k) (havailable : k ≤ available d) :
    Change available (ds ++ [d]) (reached + k * d.cents) (used + Pieces.of d k) := by
  have hnone : used d = 0 := by
    by_contra hne
    exact hd (h.available d hne).1
  refine ⟨?_, fun e => ?_, fun e hne => ?_⟩
  · rw [Pieces.total_add, Pieces.total_of, h.total]
  · have := h.nonneg e
    rw [Pi.add_apply, Pieces.of]
    split <;> omega
  rw [Pi.add_apply, Pieces.of] at hne ⊢
  split at hne
  next heq =>
    rw [heq, hnone, if_pos rfl, zero_add]
    exact ⟨mem_append_right _ (List.mem_singleton_self d), havailable⟩
  next hed =>
    rw [if_neg hed, add_zero]
    rw [add_zero] at hne
    exact ⟨mem_append_left _ (h.available e hne).1, (h.available e hne).2⟩

theorem Change.weaken (h : Change available ds amount p) (d : Denomination) :
    Change available (ds ++ [d]) amount p :=
  ⟨h.total, h.nonneg, fun e hne =>
    ⟨mem_append_left _ (h.available e hne).1, (h.available e hne).2⟩⟩

theorem reached_set {layer : Dict Int Pieces}
    (h : Reached available ds layer) (hp : Change available ds amount p) :
    Reached available ds (layer.set amount p) := by
  intro amount' p' hget
  rcases Dict.get?_set_some hget with ⟨rfl, rfl⟩ | ⟨-, hget⟩
  · exact hp
  · exact h amount' p' hget

theorem addCoins_reached {used : Pieces}
    (hused : Change available ds reached used) (hd : d ∉ ds) (left : Nat) (k : Int)
    (layer : Dict Int Pieces) (hk : 0 ≤ k) (hleft : k + left ≤ available d + 1)
    (hlayer : Reached available (ds ++ [d]) layer) :
    Reached available (ds ++ [d]) (addCoins limit d reached used left k layer) := by
  induction left generalizing k layer with
  | zero => exact hlayer
  | succ _ ih =>
    have hset : Reached available (ds ++ [d])
        (layer.set (reached + k * d.cents) (used + Pieces.of d k)) :=
      reached_set hlayer (hused.more hd hk (by omega))
    rw [addCoins]
    split
    · exact hlayer
    · split
      · exact ih (k + 1) _ (by omega) (by omega) hset
      · dsimp only
        split
        · exact ih (k + 1) _ (by omega) (by omega) hset
        · exact ih (k + 1) _ (by omega) (by omega) hlayer

theorem addDenomination_reached {best : Dict Int Pieces}
    (h : Reached available ds best) (hd : d ∉ ds) :
    Reached available (ds ++ [d]) (addDenomination limit available best d) := by
  have hloop : ∀ (items : List (Int × Pieces)) (layer : Dict Int Pieces),
      (∀ x ∈ items, Change available ds x.1 x.2) → Reached available (ds ++ [d]) layer →
      Reached available (ds ++ [d]) (items.foldl
        (fun layer x => addCoins limit d x.1 x.2 (available d).toNat 1 layer) layer) := by
    intro items
    induction items with
    | nil => exact fun layer _ hlayer => hlayer
    | cons x _ ih =>
      intro layer hitems hlayer
      refine ih _ (fun y hy => hitems y (List.mem_cons_of_mem _ hy)) ?_
      cases hcount : (available d).toNat with
      | zero => exact hlayer
      | succ =>
        exact addCoins_reached (hitems x List.mem_cons_self) hd _ 1 layer (by omega) (by omega)
          hlayer
  apply hloop
  · exact fun x hx => h x.1 x.2 (Dict.mem_items.mp hx)
  · exact fun amount p hget => (h amount p hget).weaken d

theorem makeChange_change (h : makeChange amount available = some p) :
    Change available coins amount p := by
  rw [makeChange] at h
  split at h
  next hzero =>
    cases h
    rw [hzero]
    exact ⟨Pieces.total_zero, fun d => le_rfl, fun d hne => absurd rfl hne⟩
  next =>
  have hempty : Reached available [] ((Dict.empty : Dict Int Pieces).set 0 0) := by
    intro amount p hget
    rcases Dict.get?_set_some hget with ⟨rfl, rfl⟩ | ⟨-, hget⟩
    · exact ⟨Pieces.total_zero, fun d => le_rfl, fun d hne => absurd rfl hne⟩
    · cases hget
  have hloop : ∀ (more done : List Denomination) (best : Dict Int Pieces),
      (done ++ more).Nodup → Reached available done best →
      Reached available (done ++ more) (more.foldl (addDenomination amount available) best) := by
    intro more
    induction more with
    | nil =>
      intro done best _ hbest
      rw [append_nil]
      exact hbest
    | cons d _ ih =>
      intro done best hnodup hbest
      rw [append_cons] at hnodup ⊢
      refine ih _ _ hnodup (addDenomination_reached hbest ?_)
      have hdone := (nodup_append.mp hnodup).1
      exact fun hmem => (nodup_append.mp hdone).2.2 d hmem d
        (List.mem_singleton_self d) rfl
  exact hloop coins [] _ (by decide) hempty amount p h

/-! ## Values -/

structure Product where
  sku : String
  name : String
  priceCents : Int
  positive : 0 < priceCents

structure Slot where
  code : String
  product : Product
  quantity : Int
  capacity : Int

inductive MachineState where
  | idle
  | awaitingPayment
  | outOfService
  deriving DecidableEq

def MachineState.name : MachineState → String
  | idle => "IDLE"
  | awaitingPayment => "AWAITING_PAYMENT"
  | outOfService => "OUT_OF_SERVICE"

inductive Thrown where
  | invalidState (text : String)
  | unknownSlot (code : String)
  | soldOut (name code : String)
  /-- The change that cannot be made, the piece that is returned, and the balance. -/
  | changeUnavailable (change : Int) (piece : Denomination) (balance : Int)
  | paymentDeclined (token : String)
  /-- The product did not drop; the pieces that went back to the customer. -/
  | dispenseFailed (name : String) (returned : Pieces)
  | cardDispenseFailed (name : String)
  /-- A `ValueError` of the arguments. -/
  | badValue (text : String)
  /-- The `ValueError` of `CashBox.withdraw`. -/
  | cashBoxShort
  /-- An authorization that is not held. -/
  | keyError (authId : Nat)
  /-- No slot is selected. -/
  | noSelection

/-- The product did not drop. -/
def Thrown.isFailedDrop : Thrown → Bool
  | dispenseFailed _ _ => true
  | cardDispenseFailed _ => true
  | _ => false

inductive PaymentMethod where
  | cash
  | card

structure Receipt where
  slotCode : String
  product : Product
  method : PaymentMethod
  paidCents : Int
  change : Pieces

/-- What a call returns. -/
inductive Value where
  | product (p : Product)
  | receipt (r : Receipt)
  | pieces (p : Pieces)
  | quantity (n : Int)
  | none

/-! ## The gateway and the cash box -/

/-- `FakeGateway`, with authorizations as numbers. -/
structure Gateway where
  next : Nat
  holds : Dict Nat Int
  captured : Dict Nat Int
  voided : Dict Nat Int

namespace Gateway

def authorize (g : Gateway) (token : String) (amountCents : Int) (declined : Bool) :
    Except Thrown (Nat × Gateway) :=
  if declined then .error (.paymentDeclined token)
  else .ok (g.next + 1,
    { g with next := g.next + 1, holds := g.holds.set (g.next + 1) amountCents })

def capture (g : Gateway) (authId : Nat) : Except Thrown Gateway :=
  match g.holds.get? authId with
  | none => .error (.keyError authId)
  | some amount => .ok { g with
      holds := g.holds.erase authId, captured := g.captured.set authId amount }

def void (g : Gateway) (authId : Nat) : Except Thrown Gateway :=
  match g.holds.get? authId with
  | none => .error (.keyError authId)
  | some amount => .ok { g with
      holds := g.holds.erase authId, voided := g.voided.set authId amount }

end Gateway

/-- `CashBox.withdraw` -/
def withdraw (cash pieces : Pieces) : Except Thrown Pieces :=
  if ∃ d, pieces d ≠ 0 ∧ cash d < pieces d then .error .cashBoxShort else .ok (cash - pieces)

/-! ## The machine -/

structure VendingMachine where
  slots : Dict String Slot
  cash : Pieces
  escrow : Pieces
  gateway : Gateway
  state : MachineState
  /-- The code of the selected slot. -/
  selected : Option String

/-- A call. -/
inductive Op where
  | select (code : String)
  | insert (piece : Denomination) (drops : Bool)
  | payByCard (token : String) (declined drops : Bool)
  | purchaseWithCard (code token : String) (declined drops : Bool)
  | cancel
  | addSlot (code : String) (product : Product) (quantity capacity : Int)
  | restock (code : String) (qty : Int)
  | loadChange (pieces : Pieces)
  | collectCash (keepFloat : Pieces)
  | enterMaintenance
  | exitMaintenance

namespace VendingMachine

/-- An idle machine without slots. -/
def new (changeFloat : Pieces) : VendingMachine :=
  ⟨Dict.empty, changeFloat, 0, ⟨0, Dict.empty, Dict.empty, Dict.empty⟩, .idle, none⟩

variable (m : VendingMachine)

def refundAndReset : Pieces × VendingMachine :=
  (m.escrow, { m with escrow := 0, selected := none, state := .idle })

/-- The product is taken out of its slot, and the machine is idle. -/
def sold (slot : Slot) : VendingMachine :=
  { m with
    slots := m.slots.set slot.code { slot with quantity := slot.quantity - 1 }
    selected := none
    state := .idle }

def vendCash (slot : Slot) (change : Pieces) (drops : Bool) :
    Except Thrown Receipt × VendingMachine :=
  if !drops then
    (.error (.dispenseFailed slot.product.name m.refundAndReset.1), m.refundAndReset.2)
  else
    -- the escrow goes into the cash box, and the change comes out of it
    match withdraw (m.cash + m.escrow) change with
    | .error thrown => (.error thrown, { m with cash := m.cash + m.escrow })
    | .ok cash =>
      (.ok ⟨slot.code, slot.product, .cash, m.escrow.total, change⟩,
        { m.sold slot with cash := cash, escrow := 0 })

def vendCard (slot : Slot) (token : String) (declined drops : Bool) :
    Except Thrown Receipt × VendingMachine :=
  match m.gateway.authorize token slot.product.priceCents declined with
  | .error thrown => (.error thrown, m)
  | .ok (authId, gateway) =>
    if !drops then
      match gateway.void authId with
      | .error thrown => (.error thrown, { m with gateway := gateway })
      | .ok gateway =>
        (.error (.cardDispenseFailed slot.product.name),
          { m.refundAndReset.2 with gateway := gateway })
    else
      match gateway.capture authId with
      | .error thrown =>
        (.error thrown, { m with
          gateway := gateway
          slots := m.slots.set slot.code { slot with quantity := slot.quantity - 1 } })
      | .ok gateway =>
        (.ok ⟨slot.code, slot.product, .card, slot.product.priceCents, 0⟩,
          { m.sold slot with gateway := gateway })

def invalid (action : String) : Thrown := .invalidState (action ++ " in " ++ m.state.name)

def select (code : String) : Except Thrown Product × VendingMachine :=
  match m.state with
  | .idle =>
    match m.slots.get? code with
    | none => (.error (.unknownSlot code), m)
    | some slot =>
      if slot.quantity = 0 then (.error (.soldOut slot.product.name code), m)
      else (.ok slot.product, { m with selected := some code, state := .awaitingPayment })
  | .awaitingPayment | .outOfService => (.error (m.invalid "can't select"), m)

def selectedSlot : Option Slot := m.selected.bind m.slots.get?

/-- A receipt once enough money is in, else none. -/
def insert (piece : Denomination) (drops : Bool) :
    Except Thrown (Option Receipt) × VendingMachine :=
  match m.state with
  | .awaitingPayment =>
    match m.selectedSlot with
    | none => (.error .noSelection, m)
    | some slot =>
      let price := slot.product.priceCents
      let balance := m.escrow.total + piece.cents
      let paidIn := { m with escrow := m.escrow + Pieces.of piece 1 }
      if balance < price then (.ok none, paidIn)
      else
        -- this piece completes the payment: only if there is change for it
        match makeChange (balance - price) (m.cash + m.escrow + Pieces.of piece 1) with
        | none => (.error (.changeUnavailable (balance - price) piece m.escrow.total), m)
        | some change =>
          match paidIn.vendCash slot change drops with
          | (.error thrown, m') => (.error thrown, m')
          | (.ok receipt, m') => (.ok (some receipt), m')
  | .idle | .outOfService => (.error (m.invalid "can't insert money"), m)

def payByCard (token : String) (declined drops : Bool) : Except Thrown Receipt × VendingMachine :=
  match m.state with
  | .awaitingPayment =>
    if m.escrow ≠ 0 then
      (.error (.invalidState "cash already inserted; finish with cash or cancel"), m)
    else
      match m.selectedSlot with
      | none => (.error .noSelection, m)
      | some slot => m.vendCard slot token declined drops
  | .idle | .outOfService => (.error (m.invalid "can't pay"), m)

def cancel : Except Thrown Pieces × VendingMachine :=
  match m.state with
  | .awaitingPayment => (.ok m.refundAndReset.1, m.refundAndReset.2)
  | .idle | .outOfService => (.error (m.invalid "nothing to cancel"), m)

def purchaseWithCard (code token : String) (declined drops : Bool) :
    Except Thrown Receipt × VendingMachine :=
  match m.select code with
  | (.error thrown, m₁) => (.error thrown, m₁)
  | (.ok _, m₁) =>
    match m₁.payByCard token declined drops with
    | (.error (.paymentDeclined token), m₂) =>
      (.error (.paymentDeclined token), m₂.refundAndReset.2)
    | (answer, m₂) => (answer, m₂)

def addSlot (code : String) (product : Product) (quantity capacity : Int) :
    Except Thrown VendingMachine :=
  if (m.slots.get? code).isSome then .error (.badValue ("slot " ++ code ++ " already exists"))
  else if ¬ (0 ≤ quantity ∧ quantity ≤ capacity) then
    .error (.badValue ("slot " ++ code ++ ": quantity must be in 0.." ++ toString capacity))
  else .ok { m with slots := m.slots.set code ⟨code, product, quantity, capacity⟩ }

def restock (code : String) (qty : Int) : Except Thrown (Int × VendingMachine) :=
  match m.slots.get? code with
  | none => .error (.unknownSlot code)
  | some slot =>
    if qty ≤ 0 ∨ slot.quantity + qty > slot.capacity then
      .error (.badValue ("slot " ++ code ++ ": can add 1.." ++
        toString (slot.capacity - slot.quantity)))
    else .ok (slot.quantity + qty, { m with
      slots := m.slots.set code { slot with quantity := slot.quantity + qty } })

/-- What `collectCash` takes: the surplus over the float. -/
def surplus (keepFloat : Pieces) : Pieces := fun d =>
  if m.cash d ≠ 0 ∧ m.cash d > keepFloat d then m.cash d - keepFloat d else 0

def collectCash (keepFloat : Pieces) : Except Thrown (Pieces × VendingMachine) :=
  match withdraw m.cash (m.surplus keepFloat) with
  | .error thrown => .error thrown
  | .ok cash => .ok (m.surplus keepFloat, { m with cash := cash })

def enterMaintenance : Pieces × VendingMachine :=
  if m.state = .awaitingPayment then
    (m.refundAndReset.1, { m.refundAndReset.2 with state := .outOfService })
  else (0, { m with state := .outOfService })

def exitMaintenance : Except Thrown VendingMachine :=
  if m.state ≠ .outOfService then .error (.invalidState "not in maintenance")
  else .ok { m with state := .idle }

/-- The answer to a call, and the machine after it. -/
def act : Op → Except Thrown Value × VendingMachine
  | .select code => ((m.select code).1.map .product, (m.select code).2)
  | .insert piece drops =>
    ((m.insert piece drops).1.map fun r => r.elim .none .receipt, (m.insert piece drops).2)
  | .payByCard token declined drops =>
    ((m.payByCard token declined drops).1.map .receipt, (m.payByCard token declined drops).2)
  | .purchaseWithCard code token declined drops =>
    ((m.purchaseWithCard code token declined drops).1.map .receipt,
      (m.purchaseWithCard code token declined drops).2)
  | .cancel => (m.cancel.1.map .pieces, m.cancel.2)
  | .addSlot code product quantity capacity =>
    match m.addSlot code product quantity capacity with
    | .error thrown => (.error thrown, m)
    | .ok m' => (.ok .none, m')
  | .restock code qty =>
    match m.restock code qty with
    | .error thrown => (.error thrown, m)
    | .ok (n, m') => (.ok (.quantity n), m')
  | .loadChange pieces => (.ok .none, { m with cash := m.cash + pieces })
  | .collectCash keepFloat =>
    match m.collectCash keepFloat with
    | .error thrown => (.error thrown, m)
    | .ok (taken, m') => (.ok (.pieces taken), m')
  | .enterMaintenance => (.ok (.pieces m.enterMaintenance.1), m.enterMaintenance.2)
  | .exitMaintenance =>
    match m.exitMaintenance with
    | .error thrown => (.error thrown, m)
    | .ok m' => (.ok .none, m')

def step (m : VendingMachine) (op : Op) : Except Empty (Except Thrown Value × VendingMachine) :=
  .ok (m.act op)

end VendingMachine

end InterviewPrep.Vending
