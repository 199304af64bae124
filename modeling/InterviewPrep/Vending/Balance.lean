/-
  What a call can do to a machine that is in order: it is rejected and changes nothing, or
  it has one of a few effects (`Effect`).  `Ok.effect` is the one place where the calls are
  unfolded; what is proved of every call is proved of the effects.

  Where the money and the products are after any calls: the cash box and the escrow hold
  what was put into them less what came out (`run_balanced`), a receipt is given for one
  unit that was paid for, and what is not sold is given back.
-/
import InterviewPrep.Lib.Run
import InterviewPrep.Vending.Machine
import Mathlib.Tactic.Abel

namespace InterviewPrep.Vending

open Lib Dict List Option

namespace VendingMachine

variable {m m' : VendingMachine} {op : Op} {answer : Except Thrown Value} {slot : Slot}

/-- Between two calls: only an open transaction has pieces in escrow and a slot, and none a hold. -/
structure Ok (m : VendingMachine) : Prop where
  slots : ∀ code slot, m.slots.get? code = some slot →
    slot.code = code ∧ 0 ≤ slot.quantity ∧ slot.quantity ≤ slot.capacity
  awaiting : m.state = .awaitingPayment → ∃ slot, m.selectedSlot = some slot ∧ 0 < slot.quantity
  closed : m.state ≠ .awaitingPayment → m.escrow = 0 ∧ m.selected = none
  holds : m.gateway.holds = Dict.empty
  captured : ∀ id, m.gateway.next < id → m.gateway.captured.get? id = none

/-- The slot that a card payment is for: the selected one, or the one asked of an idle machine. -/
inductive PaysFor (m : VendingMachine) (slot : Slot) : Op → Prop
  | pay {token : String} {declined drops : Bool} (hstate : m.state = .awaitingPayment)
      (hescrow : m.escrow = 0) (hslot : m.selectedSlot = some slot) :
      PaysFor m slot (.payByCard token declined drops)
  | purchase {token : String} {declined drops : Bool} (hstate : m.state = .idle)
      (hslot : m.slots.get? slot.code = some slot) (hstock : slot.quantity ≠ 0) :
      PaysFor m slot (.purchaseWithCard slot.code token declined drops)

/-- What a call does. -/
inductive Effect (m : VendingMachine) : Op → Except Thrown Value → VendingMachine → Prop
  | rejected {op : Op} {thrown : Thrown} (hdrop : thrown.isFailedDrop = false)
      (hcash : thrown = .cashBoxShort → ∃ keepFloat, op = .collectCash keepFloat) :
      Effect m op (.error thrown) m
  | selected {code : String} {slot : Slot} (hstate : m.state = .idle)
      (hslot : m.slots.get? code = some slot) (hstock : slot.quantity ≠ 0) :
      Effect m (.select code) (.ok (.product slot.product))
        { m with selected := some code, state := .awaitingPayment }
  | paidIn {piece : Denomination} {drops : Bool} (hstate : m.state = .awaitingPayment) :
      Effect m (.insert piece drops) (.ok .none) { m with escrow := m.escrow + Pieces.of piece 1 }
  | soldForCash {piece : Denomination} {drops : Bool} {slot : Slot} {change : Pieces}
      (hstate : m.state = .awaitingPayment) (hslot : m.selectedSlot = some slot)
      (hchange : change.total =
        (m.escrow + Pieces.of piece 1).total - slot.product.priceCents) :
      Effect m (.insert piece drops)
        (.ok (.receipt ⟨slot.code, slot.product, .cash, (m.escrow + Pieces.of piece 1).total,
          change⟩))
        { m.sold slot with cash := m.cash + (m.escrow + Pieces.of piece 1) - change, escrow := 0 }
  | failedForCash {piece : Denomination} {drops : Bool} {slot : Slot}
      (hstate : m.state = .awaitingPayment) :
      Effect m (.insert piece drops)
        (.error (.dispenseFailed slot.product.name (m.escrow + Pieces.of piece 1)))
        { m with escrow := 0, selected := none, state := .idle }
  | soldByCard {op : Op} {slot : Slot} (hop : PaysFor m slot op) :
      Effect m op
        (.ok (.receipt ⟨slot.code, slot.product, .card, slot.product.priceCents, 0⟩))
        { m.sold slot with gateway := { m.gateway with
            next := m.gateway.next + 1
            captured := m.gateway.captured.set (m.gateway.next + 1) slot.product.priceCents } }
  | failedByCard {op : Op} {slot : Slot} (hop : PaysFor m slot op) :
      Effect m op (.error (.cardDispenseFailed slot.product.name))
        { m with
          escrow := 0
          selected := none
          state := .idle
          gateway := { m.gateway with
            next := m.gateway.next + 1
            voided := m.gateway.voided.set (m.gateway.next + 1) slot.product.priceCents } }
  | cancelled (hstate : m.state = .awaitingPayment) :
      Effect m .cancel (.ok (.pieces m.escrow))
        { m with escrow := 0, selected := none, state := .idle }
  | slotAdded {code : String} {product : Product} {quantity capacity : Int}
      (hnew : m.slots.get? code = none) (hquantity : 0 ≤ quantity ∧ quantity ≤ capacity) :
      Effect m (.addSlot code product quantity capacity) (.ok .none)
        { m with slots := m.slots.set code ⟨code, product, quantity, capacity⟩ }
  | restocked {code : String} {slot : Slot} {qty : Int} (hslot : m.slots.get? code = some slot)
      (hqty : 0 < qty ∧ slot.quantity + qty ≤ slot.capacity) :
      Effect m (.restock code qty) (.ok (.quantity (slot.quantity + qty)))
        { m with slots := m.slots.set code { slot with quantity := slot.quantity + qty } }
  | loaded {pieces : Pieces} :
      Effect m (.loadChange pieces) (.ok .none) { m with cash := m.cash + pieces }
  | collected {keepFloat : Pieces} :
      Effect m (.collectCash keepFloat) (.ok (.pieces (m.surplus keepFloat)))
        { m with cash := m.cash - m.surplus keepFloat }
  | offline :
      Effect m .enterMaintenance (.ok (.pieces m.escrow))
        { m with escrow := 0, selected := none, state := .outOfService }
  | online (hstate : m.state = .outOfService) :
      Effect m .exitMaintenance (.ok .none) { m with state := .idle }

/-! ## The parts of a call -/

theorem Ok.selected (h : m.Ok) (hslot : m.selectedSlot = some slot) :
    m.selected = some slot.code ∧ m.slots.get? slot.code = some slot := by
  rw [selectedSlot, bind_eq_some_iff] at hslot
  obtain ⟨code, hcode, hget⟩ := hslot
  rw [(h.slots code slot hget).1]
  exact ⟨hcode, hget⟩

theorem withdraw_eq_ok {cash pieces : Pieces} (h : ∀ d, pieces d ≠ 0 → pieces d ≤ cash d) :
    withdraw cash pieces = .ok (cash - pieces) := by
  rw [withdraw, if_neg]
  rintro ⟨d, hne, hlt⟩
  have := h d hne
  omega

theorem vendCash_eq {change : Pieces} {amount : Int}
    (hchange : Change (m.cash + m.escrow) coins amount change) (drops : Bool) :
    m.vendCash slot change drops =
      if drops then
        (.ok ⟨slot.code, slot.product, .cash, m.escrow.total, change⟩,
          { m.sold slot with cash := m.cash + m.escrow - change, escrow := 0 })
      else
        (.error (.dispenseFailed slot.product.name m.escrow),
          { m with escrow := 0, selected := none, state := .idle }) := by
  rw [vendCash, withdraw_eq_ok fun d hne => (hchange.available d hne).2]
  cases drops <;> rfl

theorem erase_authorized (id : Nat) (amount : Int) :
    ((Dict.empty : Dict Nat Int).set id amount).erase id = Dict.empty :=
  erase_set_of_get?_none rfl

theorem Ok.vendCard (h : m.Ok) (slot : Slot) (token : String) (declined drops : Bool) :
    m.vendCard slot token declined drops =
      if declined then (.error (.paymentDeclined token), m)
      else if drops then
        (.ok ⟨slot.code, slot.product, .card, slot.product.priceCents, 0⟩,
          { m.sold slot with gateway := { m.gateway with
              next := m.gateway.next + 1
              captured := m.gateway.captured.set (m.gateway.next + 1) slot.product.priceCents } })
      else
        (.error (.cardDispenseFailed slot.product.name),
          { m with
            escrow := 0
            selected := none
            state := .idle
            gateway := { m.gateway with
              next := m.gateway.next + 1
              voided := m.gateway.voided.set (m.gateway.next + 1) slot.product.priceCents } }) := by
  rw [VendingMachine.vendCard, Gateway.authorize]
  cases declined with
  | true => rfl
  | false =>
    simp only [Bool.false_eq_true, ↓reduceIte]
    cases drops with
    | true =>
      simp only [Bool.not_true, Bool.false_eq_true, ↓reduceIte, Gateway.capture,
        get?_set_self, h.holds, erase_authorized]
    | false =>
      simp only [Bool.not_false, Bool.false_eq_true, ↓reduceIte, Gateway.void,
        get?_set_self, h.holds, erase_authorized, refundAndReset]

/-! ## The calls -/

theorem select_effect (m : VendingMachine) (code : String) :
    Effect m (.select code) (m.act (.select code)).1 (m.act (.select code)).2 := by
  rw [act, VendingMachine.select]
  split
  next hstate =>
    split
    · exact .rejected rfl nofun
    next hslot =>
      split
      · exact .rejected rfl nofun
      next hstock => exact .selected hstate hslot hstock
  · exact .rejected rfl nofun
  · exact .rejected rfl nofun

theorem Ok.insert (h : m.Ok) (piece : Denomination) (drops : Bool) :
    Effect m (.insert piece drops) (m.act (.insert piece drops)).1
      (m.act (.insert piece drops)).2 := by
  rw [act, VendingMachine.insert]
  split
  next hstate =>
    obtain ⟨slot, hslot, -⟩ := h.awaiting hstate
    rw [hslot]
    dsimp only
    split
    · exact .paidIn hstate
    next =>
    split
    · exact .rejected rfl nofun
    next hmake =>
    have hchange := makeChange_change hmake
    rw [add_assoc] at hchange
    rw [vendCash_eq (m := { m with escrow := m.escrow + Pieces.of piece 1 }) hchange]
    cases drops with
    | true =>
      refine .soldForCash hstate hslot ?_
      rw [hchange.total, Pieces.total_add, Pieces.total_of, one_mul]
    | false => exact .failedForCash hstate
  · exact .rejected rfl nofun
  · exact .rejected rfl nofun

theorem Ok.vendCard_effect (h : m.Ok) {token : String} {declined drops : Bool}
    (hop : PaysFor m slot op) :
    Effect m op ((m.vendCard slot token declined drops).1.map .receipt)
      (m.vendCard slot token declined drops).2 := by
  rw [h.vendCard]
  split
  · exact .rejected rfl nofun
  · split
    · exact .soldByCard hop
    · exact .failedByCard hop

theorem Ok.payByCard (h : m.Ok) (token : String) (declined drops : Bool) :
    Effect m (.payByCard token declined drops) (m.act (.payByCard token declined drops)).1
      (m.act (.payByCard token declined drops)).2 := by
  rw [act, VendingMachine.payByCard]
  split
  next hstate =>
    split
    · exact .rejected rfl nofun
    next hescrow =>
      obtain ⟨slot, hslot, -⟩ := h.awaiting hstate
      rw [hslot]
      exact h.vendCard_effect (.pay hstate (not_not.mp hescrow) hslot)
  · exact .rejected rfl nofun
  · exact .rejected rfl nofun

theorem Ok.purchasing (h : m.Ok) {code : String}
    (hslot : m.slots.get? code = some slot) (hstock : slot.quantity ≠ 0) :
    Ok { m with selected := some code, state := .awaitingPayment } := by
  refine ⟨h.slots, fun _ => ⟨slot, ?_, ?_⟩, fun hne => absurd rfl hne, h.holds, h.captured⟩
  · rw [selectedSlot]
    exact hslot
  · have := (h.slots code slot hslot).2.1
    omega

theorem Ok.purchaseWithCard (h : m.Ok) (code token : String) (declined drops : Bool) :
    Effect m (.purchaseWithCard code token declined drops)
      (m.act (.purchaseWithCard code token declined drops)).1
      (m.act (.purchaseWithCard code token declined drops)).2 := by
  rw [act, VendingMachine.purchaseWithCard, VendingMachine.select]
  cases hstate : m.state with
  | awaitingPayment | outOfService => exact .rejected rfl nofun
  | idle =>
  cases hslot : m.slots.get? code with
  | none => exact .rejected rfl nofun
  | some slot =>
  dsimp only
  by_cases hstock : slot.quantity = 0
  · rw [if_pos hstock]
    exact .rejected rfl nofun
  rw [if_neg hstock]
  have h1 := h.purchasing hslot hstock
  have hescrow : m.escrow = 0 := (h.closed (by rw [hstate]; decide)).1
  have hselected : m.selected = none := (h.closed (by rw [hstate]; decide)).2
  have hcode : slot.code = code := (h.slots code slot hslot).1
  have hop : PaysFor m slot (.purchaseWithCard code token declined drops) := by
    rw [← hcode]
    exact .purchase hstate (by rw [hcode]; exact hslot) hstock
  unfold VendingMachine.payByCard
  dsimp only
  rw [if_neg (not_not.mpr hescrow), selectedSlot]
  rw [bind_some, hslot]
  dsimp only
  rw [h1.vendCard]
  cases declined with
  | true =>
    -- the selection is undone
    have hsame : (refundAndReset { m with
        selected := some code, state := .awaitingPayment }).2 = m := by
      obtain ⟨slots, cash, escrow, gateway, state, selected⟩ := m
      cases hescrow
      cases hselected
      cases hstate
      rfl
    show Effect m _ _ (refundAndReset { m with
        selected := some code, state := .awaitingPayment }).2
    rw [hsame]
    exact .rejected rfl nofun
  | false =>
    cases drops with
    | true => exact .soldByCard hop
    | false => exact .failedByCard hop

theorem Ok.effect (h : m.Ok) (op : Op) : Effect m op (m.act op).1 (m.act op).2 := by
  cases op with
  | select code => exact m.select_effect code
  | insert piece drops => exact h.insert piece drops
  | payByCard token declined drops => exact h.payByCard token declined drops
  | purchaseWithCard code token declined drops => exact h.purchaseWithCard code token declined drops
  | cancel =>
    rw [act, VendingMachine.cancel]
    split
    next hstate => exact .cancelled hstate
    · exact .rejected rfl nofun
    · exact .rejected rfl nofun
  | addSlot code _ quantity capacity =>
    rw [act, VendingMachine.addSlot]
    by_cases hnew : (m.slots.get? code).isSome
    · rw [if_pos hnew]
      exact .rejected rfl nofun
    · rw [if_neg hnew]
      by_cases hquantity : 0 ≤ quantity ∧ quantity ≤ capacity
      · rw [if_neg (not_not.mpr hquantity)]
        exact .slotAdded (not_isSome_iff_eq_none.mp hnew) hquantity
      · rw [if_pos hquantity]
        exact .rejected rfl nofun
  | restock code qty =>
    rw [act, VendingMachine.restock]
    cases hslot : m.slots.get? code with
    | none => exact .rejected rfl nofun
    | some slot =>
      dsimp only
      by_cases hqty : qty ≤ 0 ∨ slot.quantity + qty > slot.capacity
      · rw [if_pos hqty]
        exact .rejected rfl nofun
      · rw [if_neg hqty]
        exact .restocked hslot (by omega)
  | loadChange => exact .loaded
  | collectCash keepFloat =>
    rw [act, VendingMachine.collectCash, withdraw]
    by_cases hshort : ∃ d, m.surplus keepFloat d ≠ 0 ∧ m.cash d < m.surplus keepFloat d
    · rw [if_pos hshort]
      exact .rejected rfl fun _ => ⟨keepFloat, rfl⟩
    · rw [if_neg hshort]
      exact .collected
  | enterMaintenance =>
    rw [act, VendingMachine.enterMaintenance]
    by_cases hstate : m.state = .awaitingPayment
    · rw [if_pos hstate]
      exact .offline
    rw [if_neg hstate]
    obtain ⟨hescrow, hselected⟩ := h.closed hstate
    have hoffline := Effect.offline (m := m)
    rw [hescrow] at hoffline
    obtain ⟨slots, cash, escrow, gateway, state, selected⟩ := m
    cases hescrow
    cases hselected
    exact hoffline
  | exitMaintenance =>
    rw [act, VendingMachine.exitMaintenance]
    by_cases hstate : m.state = .outOfService
    · rw [if_neg (not_not.mpr hstate)]
      exact .online hstate
    · rw [if_pos hstate]
      exact .rejected rfl nofun

/-! ## The machine stays in order -/

theorem Ok.sold (h : m.Ok) (hslot : m.slots.get? slot.code = some slot) (hstock : 0 < slot.quantity)
    (cash : Pieces) (gateway : Gateway) (hholds : gateway.holds = Dict.empty)
    (hcaptured : ∀ id, gateway.next < id → gateway.captured.get? id = none) :
    Ok { m.sold slot with cash := cash, escrow := 0, gateway := gateway } := by
  refine ⟨?_, fun hstate => (by cases hstate), fun _ => ⟨rfl, rfl⟩, hholds, hcaptured⟩
  intro code slot' hget
  rcases get?_set_some hget with ⟨rfl, rfl⟩ | ⟨-, hget⟩
  · have := h.slots _ _ hslot
    exact ⟨this.1, by dsimp only; omega⟩
  · exact h.slots code slot' hget

theorem Ok.paysFor (h : m.Ok) (hop : PaysFor m slot op) :
    m.slots.get? slot.code = some slot ∧ 0 < slot.quantity ∧ m.escrow = 0 := by
  cases hop with
  | pay hstate hescrow hslot =>
    obtain ⟨slot', hslot', hstock⟩ := h.awaiting hstate
    rw [hslot] at hslot'
    cases hslot'
    exact ⟨(h.selected hslot).2, hstock, hescrow⟩
  | purchase hstate hslot =>
    refine ⟨hslot, ?_, (h.closed (by rw [hstate]; decide)).1⟩
    have := (h.slots _ _ hslot).2.1
    omega

theorem Ok.captured_set (h : m.Ok) (amount : Int) (id : Nat) (hid : m.gateway.next + 1 < id) :
    (m.gateway.captured.set (m.gateway.next + 1) amount).get? id = none := by
  rw [get?_set_of_ne _ _ (by omega)]
  exact h.captured id (by omega)

theorem Ok.effect_ok (h : m.Ok) (heffect : Effect m op answer m') : m'.Ok := by
  cases heffect with
  | rejected => exact h
  | selected _ hslot hstock => exact h.purchasing hslot hstock
  | paidIn hstate => exact ⟨h.slots, h.awaiting, fun hne => absurd hstate hne, h.holds, h.captured⟩
  | soldForCash hstate hslot =>
    obtain ⟨slot', hslot', hstock⟩ := h.awaiting hstate
    rw [hslot] at hslot'
    cases hslot'
    exact h.sold (h.selected hslot).2 hstock _ m.gateway h.holds h.captured
  | failedForCash hstate | cancelled hstate | offline =>
    exact ⟨h.slots, fun hne => (by cases hne), fun _ => ⟨rfl, rfl⟩, h.holds, h.captured⟩
  | @soldByCard _ slot hop =>
    obtain ⟨hslot, hstock, hescrow⟩ := h.paysFor hop
    have hsold := h.sold hslot hstock m.cash { m.gateway with
      next := m.gateway.next + 1
      captured := m.gateway.captured.set (m.gateway.next + 1) slot.product.priceCents } h.holds
        (h.captured_set _)
    rw [← hescrow] at hsold
    exact hsold
  | failedByCard =>
    exact ⟨h.slots, fun hne => (by cases hne), fun _ => ⟨rfl, rfl⟩, h.holds, fun id hid =>
      h.captured id (Nat.lt_of_succ_lt hid)⟩
  | @slotAdded code product quantity capacity hnew hquantity =>
    refine ⟨?_, fun hstate => ?_, h.closed, h.holds, h.captured⟩
    · intro code' slot' hget
      rcases get?_set_some hget with ⟨rfl, rfl⟩ | ⟨-, hget⟩
      · exact ⟨rfl, hquantity⟩
      · exact h.slots code' slot' hget
    obtain ⟨slot', hslot', hstock⟩ := h.awaiting hstate
    obtain ⟨hselected, hget⟩ := h.selected hslot'
    refine ⟨slot', ?_, hstock⟩
    show m.selected.bind (m.slots.set code ⟨code, product, quantity, capacity⟩).get? = some slot'
    rw [hselected, bind_some, get?_set_of_ne]
    · exact hget
    · intro heq
      rw [heq, hnew] at hget
      cases hget
  | @restocked code slot qty hslot =>
    refine ⟨?_, fun hstate => ?_, h.closed, h.holds, h.captured⟩
    · intro code' slot' hget
      rcases get?_set_some hget with ⟨rfl, rfl⟩ | ⟨-, hget⟩
      · have := h.slots _ _ hslot
        exact ⟨this.1, by dsimp only; omega⟩
      · exact h.slots code' slot' hget
    obtain ⟨slot', hslot', hstock⟩ := h.awaiting hstate
    obtain ⟨hselected, hget⟩ := h.selected hslot'
    show ∃ s, m.selected.bind
      (m.slots.set code { slot with quantity := slot.quantity + qty }).get? = some s ∧ _
    rw [hselected, bind_some, get?_set]
    split
    next heq =>
      rw [heq, hslot] at hget
      cases hget
      refine ⟨_, rfl, ?_⟩
      dsimp only
      omega
    next => exact ⟨slot', hget, hstock⟩
  | loaded | collected => exact ⟨h.slots, h.awaiting, h.closed, h.holds, h.captured⟩
  | online hstate =>
    exact ⟨h.slots, fun hne => (by cases hne), fun _ => h.closed (by rw [hstate]; decide), h.holds,
      h.captured⟩

theorem new_ok (changeFloat : Pieces) : (new changeFloat).Ok :=
  ⟨fun code slot hget => (by cases hget), fun hstate => (by cases hstate), fun _ => ⟨rfl, rfl⟩, rfl,
    fun _ _ => rfl⟩

end VendingMachine

/-! ## What moves in a call -/

/-- The pieces that a call takes in from the customer. -/
def accepted : Op → Except Thrown Value → Pieces
  | .insert piece _, .ok _ => Pieces.of piece 1
  | .insert piece _, .error (.dispenseFailed _ _) => Pieces.of piece 1
  | _, _ => 0

/-- The pieces that a call gives back. -/
def returned : Op → Except Thrown Value → Pieces
  | .cancel, .ok (.pieces p) => p
  | .enterMaintenance, .ok (.pieces p) => p
  | .insert _ _, .error (.dispenseFailed _ p) => p
  | _, _ => 0

/-- The change that a call pays. -/
def changePaid : Op → Except Thrown Value → Pieces
  | .insert _ _, .ok (.receipt r) => r.change
  | _, _ => 0

/-- What an operator loads. -/
def loaded : Op → Except Thrown Value → Pieces
  | .loadChange pieces, .ok _ => pieces
  | _, _ => 0

/-- What an operator collects. -/
def collected : Op → Except Thrown Value → Pieces
  | .collectCash _, .ok (.pieces p) => p
  | _, _ => 0

def moved (op : Op) (answer : Except Thrown Value) : Pieces :=
  loaded op answer + accepted op answer - returned op answer - changePaid op answer -
    collected op answer

/-- The pieces inserted in the open transaction, from those before a call. -/
def insertedAfter (before : Pieces) : Op → Except Thrown Value → Pieces
  | .insert piece _, .ok .none => before + Pieces.of piece 1
  | .insert _ _, .ok (.receipt _) => 0
  | .insert _ _, .error (.dispenseFailed _ _) => 0
  | .cancel, .ok _ => 0
  | .enterMaintenance, .ok _ => 0
  | _, _ => before

namespace VendingMachine

variable {m m' : VendingMachine} {op : Op} {answer : Except Thrown Value} {slot : Slot}

theorem moved_rejected {thrown : Thrown} (hdrop : thrown.isFailedDrop = false) :
    moved op (.error thrown) = 0 := by
  cases thrown with
  | dispenseFailed | cardDispenseFailed => cases hdrop
  | _ => cases op <;> simp [moved, loaded, accepted, returned, changePaid, collected]

theorem insertedAfter_rejected {thrown : Thrown} (hdrop : thrown.isFailedDrop = false)
    (before : Pieces) : insertedAfter before op (.error thrown) = before := by
  cases thrown with
  | dispenseFailed | cardDispenseFailed => cases hdrop
  | _ => cases op <;> rfl

/-- A payment by card moves no cash. -/
theorem moved_card (hop : PaysFor m slot op) (answer : Except Thrown Value) :
    moved op answer = 0 ∧ ∀ before, insertedAfter before op answer = before := by
  cases hop <;> exact ⟨by simp [moved, loaded, accepted, returned, changePaid, collected],
    fun before => rfl⟩

theorem Ok.conserves (h : m.Ok) (heffect : Effect m op answer m') :
    m'.cash + m'.escrow = m.cash + m.escrow + moved op answer := by
  cases heffect with
  | rejected hdrop => rw [moved_rejected hdrop, add_zero]
  | soldByCard hop => rw [(moved_card hop _).1, add_zero]; rfl
  | failedByCard hop =>
    rw [(moved_card hop _).1, (h.paysFor hop).2.2]
    exact (add_zero _).symm
  | selected hstate hslot hstock | slotAdded hnew hquantity | restocked hslot hqty
  | online =>
    simp [moved, loaded, accepted, returned, changePaid, collected]
  | paidIn =>
    simp [moved, loaded, accepted, returned, changePaid, collected, add_assoc]
  | soldForCash hstate hslot hchange | failedForCash hstate | cancelled hstate | offline =>
    simp only [moved, loaded, accepted, returned, changePaid, collected]
    abel
  | loaded =>
    simp only [moved, Vending.loaded, accepted, returned, changePaid, Vending.collected]
    abel
  | collected =>
    simp only [moved, Vending.loaded, accepted, returned, changePaid, Vending.collected]
    abel

theorem Ok.inserted (h : m.Ok) (heffect : Effect m op answer m') :
    m'.escrow = insertedAfter m.escrow op answer := by
  cases heffect with
  | rejected hdrop => rw [insertedAfter_rejected hdrop]
  | soldByCard hop => rw [(moved_card hop _).2]; rfl
  | failedByCard hop => rw [(moved_card hop _).2, (h.paysFor hop).2.2]
  | selected | paidIn | soldForCash | failedForCash | cancelled | slotAdded | restocked | loaded
  | collected | offline | online => rfl

/-! ## What a call is right about -/

/-- A receipt is for one unit of the slot that was asked for, at its price. -/
structure SoldRight (m : VendingMachine) (op : Op) (r : Receipt) (m' : VendingMachine)
    (slot : Slot) : Prop where
  asked : m.selected = some r.slotCode ∨
    ∃ token declined drops, op = .purchaseWithCard r.slotCode token declined drops
  get : m.slots.get? r.slotCode = some slot
  product : r.product = slot.product
  stock : 0 < slot.quantity
  oneUnit : m'.slots = m.slots.set r.slotCode { slot with quantity := slot.quantity - 1 }
  cash : r.method = .cash → m'.gateway = m.gateway ∧
    r.paidCents = (m.escrow + accepted op (.ok (.receipt r))).total ∧
    r.paidCents - r.change.total = slot.product.priceCents
  card : r.method = .card → r.change = 0 ∧ ∃ id, m.gateway.captured.get? id = none ∧
    m'.gateway.captured = m.gateway.captured.set id slot.product.priceCents

structure Right (m : VendingMachine) (op : Op) (answer : Except Thrown Value)
    (m' : VendingMachine) : Prop where
  sold : ∀ r, answer = .ok (.receipt r) → ∃ slot, SoldRight m op r m' slot
  /-- Without a receipt no unit leaves a slot, and nothing is captured. -/
  kept : (∀ r, answer ≠ .ok (.receipt r)) → m'.gateway.captured = m.gateway.captured ∧
    ∀ code slot, m.slots.get? code = some slot →
      ∃ slot', m'.slots.get? code = some slot' ∧ slot.quantity ≤ slot'.quantity
  rejected : ∀ thrown, answer = .error thrown → thrown.isFailedDrop = false → m' = m
  /-- What was inserted is given back. -/
  returned : op = .cancel ∨ op = .enterMaintenance → ∀ p, answer = .ok (.pieces p) → p = m.escrow
  failedDrop : ∀ name p, answer = .error (.dispenseFailed name p) →
    ∃ piece drops, op = .insert piece drops ∧ p = m.escrow + Pieces.of piece 1
  cardFailed : ∀ name, answer = .error (.cardDispenseFailed name) → m.escrow = 0
  withdraw : answer = .error .cashBoxShort → ∃ keepFloat, op = .collectCash keepFloat

theorem kept_slots (hslots : m'.slots = m.slots) : ∀ code slot, m.slots.get? code = some slot →
    ∃ slot', m'.slots.get? code = some slot' ∧ slot.quantity ≤ slot'.quantity :=
  fun code slot hget => ⟨slot, by rw [hslots]; exact hget, le_rfl⟩

theorem Right.of_value {value : Value} (hreceipt : ∀ r, value ≠ .receipt r)
    (hcaptured : m'.gateway.captured = m.gateway.captured)
    (hkept : ∀ code slot, m.slots.get? code = some slot →
      ∃ slot', m'.slots.get? code = some slot' ∧ slot.quantity ≤ slot'.quantity)
    (hreturned : op = .cancel ∨ op = .enterMaintenance → ∀ p, value = .pieces p → p = m.escrow) :
    Right m op (.ok value) m' := by
  refine ⟨?_, fun _ => ⟨hcaptured, hkept⟩, ?_, ?_, ?_, ?_, ?_⟩
  · intro r heq
    exact absurd (Except.ok.inj heq) (hreceipt r)
  · intro thrown heq
    cases heq
  · exact fun hop p heq => hreturned hop p (Except.ok.inj heq)
  · intro name p heq
    cases heq
  · intro name heq
    cases heq
  · intro heq
    cases heq

theorem Right.of_receipt {r : Receipt} (slot : Slot) (h : SoldRight m op r m' slot) :
    Right m op (.ok (.receipt r)) m' := by
  refine ⟨?_, fun hno => absurd rfl (hno r), ?_, ?_, ?_, ?_, ?_⟩
  · rintro r' heq
    cases heq
    exact ⟨slot, h⟩
  · intro thrown heq
    cases heq
  · intro _ p heq
    cases heq
  · intro name p heq
    cases heq
  · intro name heq
    cases heq
  · intro heq
    cases heq

theorem Ok.right (h : m.Ok) (heffect : Effect m op answer m') : Right m op answer m' := by
  cases heffect with
  | rejected hdrop hcash =>
    refine ⟨?_, fun _ => ⟨rfl, kept_slots rfl⟩, fun _ _ _ => rfl, ?_, ?_, ?_, ?_⟩
    · intro r heq
      cases heq
    · intro _ p heq
      cases heq
    · intro name p heq
      cases heq
      cases hdrop
    · intro name heq
      cases heq
      cases hdrop
    · exact fun heq => hcash (Except.error.inj heq)
  | selected hstate hslot hstock | paidIn hstate | loaded | online hstate =>
    exact .of_value nofun rfl (kept_slots rfl) nofun
  | @soldForCash _ _ slot _ hstate hslot =>
    obtain ⟨slot', hslot', hstock⟩ := h.awaiting hstate
    rw [hslot] at hslot'
    cases hslot'
    obtain ⟨hselected, hget⟩ := h.selected hslot
    refine .of_receipt slot ⟨Or.inl hselected, hget, rfl, hstock, rfl, ?_, ?_⟩
    · refine fun _ => ⟨rfl, rfl, ?_⟩
      dsimp only
      omega
    · intro heq
      cases heq
  | @failedForCash piece drops =>
    refine ⟨?_, fun _ => ⟨rfl, kept_slots rfl⟩, ?_, ?_, ?_, ?_, ?_⟩
    · intro r heq
      cases heq
    · intro thrown heq hdrop
      cases heq
      cases hdrop
    · intro _ p heq
      cases heq
    · intro name p heq
      cases heq
      exact ⟨piece, drops, rfl, rfl⟩
    · intro name heq
      cases heq
    · intro heq
      cases heq
  | @soldByCard _ slot hop =>
    obtain ⟨hget, hstock, -⟩ := h.paysFor hop
    refine .of_receipt slot ⟨?_, hget, rfl, hstock, rfl, ?_, ?_⟩
    · cases hop with
      | pay _ _ hslot => exact Or.inl (h.selected hslot).1
      | purchase => exact Or.inr ⟨_, _, _, rfl⟩
    · intro heq
      cases heq
    · exact fun _ => ⟨rfl, m.gateway.next + 1, h.captured _ (Nat.lt_succ_self _), rfl⟩
  | failedByCard hop =>
    refine ⟨?_, fun _ => ⟨rfl, kept_slots rfl⟩, ?_, ?_, ?_, fun _ _ => (h.paysFor hop).2.2, ?_⟩
    · intro r heq
      cases heq
    · intro thrown heq hdrop
      cases heq
      cases hdrop
    · intro _ p heq
      cases heq
    · intro name p heq
      cases heq
    · intro heq
      cases heq
  | cancelled hstate | offline =>
    exact .of_value nofun rfl (kept_slots rfl)
      fun _ p heq => (Value.pieces.inj heq).symm
  | @slotAdded _ _ _ _ hnew =>
    refine .of_value nofun rfl ?_ nofun
    intro code' slot hget
    refine ⟨slot, ?_, le_rfl⟩
    rw [get?_set_of_ne]
    · exact hget
    · exact ne_of_eq_none hget hnew
  | @restocked _ _ _ hslot =>
    refine .of_value nofun rfl ?_ nofun
    intro code' slot' hget
    rw [get?_set]
    split
    next heq =>
      rw [heq, hslot] at hget
      cases hget
      exact ⟨_, rfl, by dsimp only; omega⟩
    next => exact ⟨slot', hget, le_rfl⟩
  | collected =>
    refine .of_value nofun rfl (kept_slots rfl) ?_
    rintro (heq | heq) <;> cases heq

/-! ## Runs -/

theorem Ok.run (h : m.Ok) (ops : List Op) :
    ∃ answers m', runSteps VendingMachine.step m ops = .ok (answers, m') ∧ m'.Ok ∧
      m'.cash + m'.escrow =
        m.cash + m.escrow + ((ops.zip answers).map fun x => moved x.1 x.2).sum ∧
      m'.escrow = (ops.zip answers).foldl (fun p x => insertedAfter p x.1 x.2) m.escrow := by
  induction ops generalizing m with
  | nil => exact ⟨[], m, rfl, h, (add_zero _).symm, rfl⟩
  | cons op _ ih =>
    have heffect := h.effect op
    obtain ⟨answers, m', hrun, h', hmoved, hinserted⟩ := ih (h.effect_ok heffect)
    refine ⟨(m.act op).1 :: answers, m', runSteps_cons_ok rfl hrun, h', ?_, ?_⟩
    · rw [hmoved, h.conserves heffect, zip_cons_cons, map_cons, sum_cons,
        add_assoc _ (moved op (m.act op).1)]
    · rw [hinserted, zip_cons_cons, foldl_cons, ← h.inserted heffect]

/-- After any calls: the cash box and the escrow hold the float and what was moved, the
    escrow what was inserted in the open transaction, no authorization is held, and every
    next call does right. -/
theorem run_balanced (changeFloat : Pieces) (ops : List Op) :
    ∃ answers m', runSteps VendingMachine.step (new changeFloat) ops = .ok (answers, m') ∧
      m'.cash + m'.escrow = changeFloat + ((ops.zip answers).map fun x => moved x.1 x.2).sum ∧
      m'.escrow = (ops.zip answers).foldl (fun p x => insertedAfter p x.1 x.2) 0 ∧
      m'.gateway.holds = Dict.empty ∧ ∀ op, Right m' op (m'.act op).1 (m'.act op).2 := by
  obtain ⟨answers, m', hrun, h, hmoved, hinserted⟩ := (new_ok changeFloat).run ops
  refine ⟨answers, m', hrun, ?_, hinserted, h.holds, fun op => h.right (h.effect op)⟩
  rw [hmoved]
  show changeFloat + 0 + _ = _
  rw [add_zero]

/-- No slot is overfull, and a selected one is in stock. -/
theorem run_ok (changeFloat : Pieces) (ops : List Op) :
    ∃ answers m', runSteps step (new changeFloat) ops = .ok (answers, m') ∧ m'.Ok := by
  obtain ⟨_, m', hrun, h, -⟩ := (new_ok changeFloat).run ops
  exact ⟨_, m', hrun, h⟩

end VendingMachine

end InterviewPrep.Vending
