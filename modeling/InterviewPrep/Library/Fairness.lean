/-
  Reservations are served first come, first served.  While somebody waits for a title, no
  copy of it is on the shelf, and who holds a copy has reserved it before all that wait
  (`Queued`); so each loan and each hold is fair, unless a copy is added to a title that
  somebody waits for (`run_served`).
-/
import InterviewPrep.Library.Service

namespace InterviewPrep.Library

open Lib Dict List

/-- Everybody else who is still waiting has reserved later. -/
def Served.Fair (e : Served) : Prop :=
  ∀ r ∈ e.waiting, r.memberId ≠ e.memberId → ∃ k, e.number = some k ∧ k < r.number

namespace LibraryService

variable {c : Config} {s s' : LibraryService} {isbn barcode : String} {item : BookItem}
  {memberId : Nat} {member : Member} {r : Reservation}

/-- The barcodes of a title are those of its items. -/
structure Shelved (items : Dict String BookItem) (itemsByIsbn : Dict String (List String)) :
    Prop where
  listed : ∀ b item, items.get? b = some item → ∃ bs, itemsByIsbn.get? item.isbn = some bs ∧ b ∈ bs
  titled : ∀ isbn bs, itemsByIsbn.get? isbn = some bs →
    ∀ b ∈ bs, ∃ item, items.get? b = some item ∧ item.isbn = isbn

/-- The queues are in the order of the reservations, and who waits finds no copy on the shelf. -/
structure Queued (s : LibraryService) : Prop where
  shelved : Shelved s.items s.itemsByIsbn
  shelf : ∀ b item, s.items.get? b = some item → s.waiting item.isbn ≠ [] → item.status ≠ .available
  sorted : ∀ isbn, (s.waiting isbn).Pairwise fun r r' => r.number < r'.number
  below : ∀ isbn, ∀ r ∈ s.waiting isbn, r.number < s.reservations
  holds : ∀ b hold, s.holds.get? b = some hold → hold.number < s.reservations ∧
    ∀ item, s.items.get? b = some item → ∀ r ∈ s.waiting item.isbn, hold.number < r.number
  fair : ∀ e ∈ s.served, e.Fair

theorem waiting_set (q : List Reservation) (isbn' : String) :
    ((s.waitlist.set isbn q).get? isbn').getD [] = if isbn' = isbn then q else s.waiting isbn' := by
  rw [get?_set]
  split <;> rfl

theorem Shelved.set {items : Dict String BookItem} {itemsByIsbn : Dict String (List String)}
    (h : Shelved items itemsByIsbn) (hitem : items.get? barcode = some item) (status : ItemStatus) :
    Shelved (items.set barcode { item with status := status }) itemsByIsbn := by
  constructor
  · intro b item' hb
    obtain ⟨rfl, rfl⟩ | ⟨-, hb⟩ := get?_set_some hb
    · exact h.listed b item hitem
    · exact h.listed b item' hb
  intro isbn bs hbs b hb
  obtain ⟨item', hitem', hisbn⟩ := h.titled isbn bs hbs b hb
  rw [get?_set]
  by_cases hbarcode : b = barcode
  · rw [if_pos hbarcode]
    rw [hbarcode, hitem] at hitem'
    cases hitem'
    exact ⟨_, rfl, hisbn⟩
  · rw [if_neg hbarcode]
    exact ⟨item', hitem', hisbn⟩

theorem Queued.eraseHold (h : Queued s) (b : String) : Queued { s with holds := s.holds.erase b } :=
  ⟨h.shelved, h.shelf, h.sorted, h.below,
    fun b' hold hhold => h.holds b' hold (get?_erase_some hhold).2, h.fair⟩

theorem Queued.release (h : Queued s) (hitem : s.items.get? barcode = some item) :
    Queued (s.release barcode item) := by
  rw [LibraryService.release]
  split
  · next r rest hwaiting =>
    have hsorted := h.sorted item.isbn
    rw [hwaiting] at hsorted
    obtain ⟨hfirst, hrest⟩ := pairwise_cons.mp hsorted
    have hsub : ∀ isbn, ∀ r' ∈ ((s.waitlist.set item.isbn rest).get? isbn).getD [],
        r' ∈ s.waiting isbn := by
      intro isbn r' hr'
      rw [waiting_set] at hr'
      split at hr'
      · next hisbn =>
        rw [hisbn, hwaiting]
        exact mem_cons_of_mem r hr'
      · exact hr'
    refine ⟨h.shelved.set hitem .onHold, fun b item' hb hne => ?_, fun isbn => ?_,
      fun isbn r' hr' => h.below isbn r' (hsub isbn r' hr'), fun b hold hhold => ?_, fun e he => ?_⟩
    · obtain ⟨-, rfl⟩ | ⟨-, hb⟩ := get?_set_some hb
      · rintro ⟨⟩
      · apply h.shelf b item' hb
        obtain ⟨r', hr'⟩ := exists_mem_of_ne_nil _ hne
        exact ne_nil_of_mem (hsub _ r' hr')
    · show (((s.waitlist.set item.isbn rest).get? isbn).getD []).Pairwise _
      rw [waiting_set]
      split
      · exact hrest
      · exact h.sorted isbn
    · obtain ⟨rfl, rfl⟩ | ⟨hb, hhold⟩ := get?_set_some hhold
      · refine ⟨h.below item.isbn r (by rw [hwaiting]; exact mem_cons_self),
          fun item' hitem' r' hr' => ?_⟩
        obtain ⟨-, rfl⟩ | ⟨hne, -⟩ := get?_set_some hitem'
        · change r' ∈ ((s.waitlist.set item.isbn rest).get? item.isbn).getD [] at hr'
          rw [waiting_set, if_pos rfl] at hr'
          exact hfirst r' hr'
        · exact absurd rfl hne
      · obtain ⟨hlt, hbefore⟩ := h.holds b hold hhold
        refine ⟨hlt, fun item' hitem' r' hr' => ?_⟩
        obtain ⟨heq, -⟩ | ⟨-, hitem'⟩ := get?_set_some hitem'
        · exact absurd heq hb
        · exact hbefore item' hitem' r' (hsub _ r' hr')
    · obtain rfl | he := mem_cons.mp he
      · exact fun r' hr' _ => ⟨r.number, rfl, hfirst r' hr'⟩
      · exact h.fair e he
  · next hwaiting =>
    refine ⟨h.shelved.set hitem .available, fun b item' hb hne => ?_, h.sorted, h.below,
      fun b hold hhold => ?_, h.fair⟩
    · obtain ⟨-, rfl⟩ | ⟨-, hb⟩ := get?_set_some hb
      · exact absurd hwaiting hne
      · exact h.shelf b item' hb hne
    · obtain ⟨hlt, hbefore⟩ := h.holds b hold hhold
      refine ⟨hlt, fun item' hitem' => ?_⟩
      obtain ⟨rfl, rfl⟩ | ⟨-, hitem'⟩ := get?_set_some hitem'
      · exact hbefore item hitem
      · exact hbefore item' hitem'

theorem Queued.expireHold (h : Queued s) (isbn : String) (e : String × Hold) :
    Queued (expireHold isbn s e) := by
  rw [LibraryService.expireHold]
  split
  · exact h
  · next hitem =>
    split
    · exact (h.eraseHold e.1).release hitem
    · exact h

theorem Queued.expireHolds (h : Queued s) (isbn : String) : Queued (s.expireHolds isbn) := by
  rw [LibraryService.expireHolds]
  generalize s.holds.items = es
  induction es generalizing s with
  | nil => exact h
  | cons e _ ih => exact ih (h.expireHold isbn e)

/-! ## Loans -/

theorem Queued.shrink (h : Queued s) {waitlist : Dict String (List Reservation)}
    (hsub : ∀ isbn, ((waitlist.get? isbn).getD []).Sublist (s.waiting isbn)) :
    Queued { s with waitlist := waitlist } := by
  refine ⟨h.shelved, fun b item hb hne => ?_, fun isbn => (h.sorted isbn).sublist (hsub isbn),
    fun isbn r hr => h.below isbn r ((hsub isbn).subset hr), fun b hold hhold => ?_, h.fair⟩
  · apply h.shelf b item hb
    intro hnil
    have hnone := hsub item.isbn
    rw [hnil] at hnone
    exact hne (sublist_nil.mp hnone)
  · obtain ⟨hlt, hbefore⟩ := h.holds b hold hhold
    exact ⟨hlt, fun item hitem r hr => hbefore item hitem r ((hsub _).subset hr)⟩

theorem Queued.setStatus (h : Queued s) (hitem : s.items.get? barcode = some item)
    (status : ItemStatus) (hstatus : status ≠ .available) :
    Queued { s with items := s.items.set barcode { item with status := status } } := by
  refine ⟨h.shelved.set hitem status, fun b item' hb hne => ?_, h.sorted, h.below,
    fun b hold hhold => ?_, h.fair⟩
  · obtain ⟨-, rfl⟩ | ⟨-, hb⟩ := get?_set_some hb
    · exact hstatus
    · exact h.shelf b item' hb hne
  · obtain ⟨hlt, hbefore⟩ := h.holds b hold hhold
    refine ⟨hlt, fun item' hitem' => ?_⟩
    obtain ⟨rfl, rfl⟩ | ⟨-, hitem'⟩ := get?_set_some hitem'
    · exact hbefore item hitem
    · exact hbefore item' hitem'

theorem of_heldItemFor (hheld : s.heldItemFor memberId isbn = some barcode) :
    ∃ hold item, s.holds.get? barcode = some hold ∧ hold.memberId = memberId ∧
      s.items.get? barcode = some item ∧ item.isbn = isbn := by
  obtain ⟨⟨b, hold⟩, hfind, rfl⟩ := Option.map_eq_some_iff.mp hheld
  have hhold := Dict.mem_items.mp (mem_of_find?_eq_some hfind)
  have hmatch := find?_some hfind
  dsimp only at hmatch
  rw [Bool.and_eq_true, decide_eq_true_eq] at hmatch
  obtain ⟨item, hitem, hisbn⟩ := (Option.any_eq_true _ _).mp hmatch.2
  exact ⟨hold, item, hhold, hmatch.1, hitem, of_decide_eq_true hisbn⟩

theorem isAvailable_iff : s.isAvailable barcode = true ↔
    ∃ item, s.items.get? barcode = some item ∧ item.status = .available := by
  simp only [isAvailable, Option.any_eq_true, decide_eq_true_eq]

theorem of_itemsFor {bs : List String} (h : Queued s) (hitems : s.itemsFor isbn = .ok bs) :
    (∀ b ∈ bs, ∃ item, s.items.get? b = some item ∧ item.isbn = isbn) ∧
      ∀ b item, s.items.get? b = some item → item.isbn = isbn → b ∈ bs := by
  rw [itemsFor] at hitems
  split at hitems
  · cases hitems
  cases hitems
  constructor
  · cases hbs : s.itemsByIsbn.get? isbn with
    | none => rintro b ⟨⟩
    | some bs => exact h.shelved.titled isbn bs hbs
  · rintro b item hitem rfl
    obtain ⟨bs, hbs, hmem⟩ := h.shelved.listed b item hitem
    rw [hbs]
    exact hmem

theorem of_firstAvailable (h : Queued s) (hfirst : s.firstAvailable isbn = .ok (some barcode)) :
    ∃ item, s.items.get? barcode = some item ∧ item.isbn = isbn ∧ item.status = .available := by
  rw [firstAvailable] at hfirst
  cases hitems : s.itemsFor isbn with
  | error =>
    rw [hitems] at hfirst
    cases hfirst
  | ok bs =>
    rw [hitems] at hfirst
    have hfind : bs.find? s.isAvailable = some barcode := Except.ok.inj hfirst
    obtain ⟨item, hitem, hisbn⟩ := (of_itemsFor h hitems).1 barcode (mem_of_find?_eq_some hfind)
    obtain ⟨item', hitem', hstatus⟩ := isAvailable_iff.mp (find?_some hfind)
    rw [hitem] at hitem'
    cases hitem'
    exact ⟨item, hitem, hisbn, hstatus⟩

theorem lend_sublist (memberId : Nat) (isbn isbn' : String) :
    (((if (s.waiting isbn).any fun r => r.memberId = memberId then
      s.waitlist.set isbn ((s.waiting isbn).eraseP fun r => r.memberId = memberId)
      else s.waitlist).get? isbn').getD []).Sublist (s.waiting isbn') := by
  split
  · rw [waiting_set]
    split
    · next hisbn =>
      rw [hisbn]
      exact eraseP_sublist
    · exact List.Sublist.refl _
  · exact List.Sublist.refl _

theorem Queued.lend (h : Queued s) (hitem : s.items.get? barcode = some item)
    (hfair : (∃ hold, s.heldItemFor memberId isbn = some barcode ∧
      s.holds.get? barcode = some hold ∧
      ∀ r ∈ s.waiting isbn, hold.number < r.number) ∨ s.waiting isbn = []) (member : Member) :
    Queued (s.lend memberId member isbn barcode) := by
  have hsub := fun isbn' => lend_sublist (s := s) memberId isbn isbn'
  have hlent := ((h.eraseHold barcode).shrink hsub).setStatus hitem .onLoan (by rintro ⟨⟩)
  rw [LibraryService.lend, hitem]
  refine ⟨hlent.shelved, hlent.shelf, hlent.sorted, hlent.below, hlent.holds, fun e he => ?_⟩
  obtain rfl | he := mem_cons.mp he
  · intro r hr _
    have hr := (hsub isbn).subset hr
    obtain ⟨hold, hheld, hhold, hbefore⟩ | hnil := hfair
    · refine ⟨hold.number, ?_, hbefore r hr⟩
      rw [hheld]
      dsimp only
      rw [hhold, Option.map_some]
    · rw [hnil] at hr
      cases hr
  · exact h.fair e he

theorem Queued.borrow (h : Queued s) (memberId : Nat) (isbn : String) :
    Queued (s.borrow c memberId isbn).2 := by
  have hexpired := h.expireHolds isbn
  rw [LibraryService.borrow]
  split
  · exact h
  · next member _ =>
    split
    · exact h
    dsimp only
    split
    · next hheld =>
      obtain ⟨hold, item, hhold, -, hitem, rfl⟩ := of_heldItemFor hheld
      exact hexpired.lend hitem
        (.inl ⟨hold, hheld, hhold, (hexpired.holds _ hold hhold).2 item hitem⟩)
        member
    split
    · exact hexpired
    · exact hexpired
    · next barcode hfirst =>
      obtain ⟨item, hitem, rfl, hstatus⟩ := of_firstAvailable hexpired hfirst
      apply hexpired.lend hitem (.inr ?_) member
      by_contra hne
      exact hexpired.shelf barcode item hitem hne hstatus

theorem Queued.endLoan (h : Queued s) (barcode : String) (id : Nat) (loan : Loan) (member : Member)
    (fine : ℚ) : Queued (s.endLoan barcode id loan member fine) :=
  ⟨h.shelved, h.shelf, h.sorted, h.below, h.holds, h.fair⟩

theorem Queued.returnItem (h : Queued s) (barcode : String) :
    Queued (s.returnItem c barcode).2 := by
  rw [LibraryService.returnItem]
  split
  · exact h
  · next item id loan _ =>
    split
    · exact h
    · next member _ =>
      have hexpired := (h.endLoan barcode id loan member
        (c.calculateFine (loan.daysOverdue s.today) member.memberType)).expireHolds item.isbn
      dsimp only
      split
      · exact hexpired
      · next hitem => exact hexpired.release hitem

theorem Queued.renew (h : Queued s) (barcode : String) : Queued (s.renew barcode).2 := by
  rw [LibraryService.renew]
  split
  · exact h
  split
  · exact h
  · split_ifs
    · exact h
    · exact h
    · exact h
    · exact ⟨h.shelved, h.shelf, h.sorted, h.below, h.holds, h.fair⟩

theorem Queued.reportLost (h : Queued s) (barcode : String) (cost : ℚ) :
    Queued (s.reportLost barcode cost).2 := by
  rw [LibraryService.reportLost]
  split
  · exact h
  · next item id loan hactive =>
    split
    · exact h
    · next member _ =>
      have hitem : s.items.get? barcode = some item := by
        rw [activeLoan] at hactive
        split at hactive
        · cases hactive
        · next hitem =>
          split at hactive
          · cases hactive
          · obtain ⟨rfl, -⟩ := Prod.mk.inj (Except.ok.inj hactive)
            exact hitem
      exact (h.endLoan barcode id loan member cost).setStatus hitem .lost (by rintro ⟨⟩)

/-! ## Reservations -/

theorem Queued.join (h : Queued s)
    (hnone : ∀ b item, s.items.get? b = some item → item.isbn = isbn → item.status ≠ .available)
    (memberId : Nat) : Queued { s with
      waitlist := s.waitlist.set isbn (s.waiting isbn ++ [⟨memberId, s.reservations⟩])
      reservations := s.reservations + 1 } := by
  have hmem : ∀ isbn', ∀ r ∈ ((s.waitlist.set isbn
      (s.waiting isbn ++ [⟨memberId, s.reservations⟩])).get? isbn').getD [],
      r ∈ s.waiting isbn' ∨ r.number = s.reservations := by
    intro isbn' r hr
    rw [waiting_set] at hr
    split at hr
    · next hisbn =>
      rw [hisbn]
      obtain hr | hr := mem_append.mp hr
      · exact .inl hr
      · rw [mem_singleton.mp hr]
        exact .inr rfl
    · exact .inl hr
  refine ⟨h.shelved, fun b item hb hne => ?_, fun isbn' => ?_, fun isbn' r hr => ?_,
    fun b hold hhold => ?_, h.fair⟩
  · change ((s.waitlist.set isbn _).get? item.isbn).getD [] ≠ [] at hne
    rw [waiting_set] at hne
    split at hne
    · next hisbn => exact hnone b item hb hisbn
    · exact h.shelf b item hb hne
  · show (((s.waitlist.set isbn _).get? isbn').getD []).Pairwise _
    rw [waiting_set]
    split
    · refine pairwise_append.mpr ⟨h.sorted isbn, pairwise_singleton _ _, ?_⟩
      intro r hr r' hr'
      rw [mem_singleton.mp hr']
      exact h.below isbn r hr
    · exact h.sorted isbn'
  · obtain hr | hr := hmem isbn' r hr
    · exact Nat.lt_succ_of_lt (h.below isbn' r hr)
    · rw [hr]
      exact Nat.lt_succ_self _
  · obtain ⟨hlt, hbefore⟩ := h.holds b hold hhold
    refine ⟨Nat.lt_succ_of_lt hlt, fun item hitem r hr => ?_⟩
    obtain hr | hr := hmem item.isbn r hr
    · exact hbefore item hitem r hr
    · rw [hr]
      exact hlt

theorem Queued.reserve (h : Queued s) (memberId : Nat) (isbn : String) :
    Queued (s.reserve memberId isbn).2 := by
  have hexpired := h.expireHolds isbn
  rw [LibraryService.reserve]
  split
  · exact h
  dsimp only
  split
  · exact hexpired
  · next hitems =>
    split_ifs with hshelf
    · exact hexpired
    · exact hexpired
    · exact hexpired
    · apply hexpired.join
      intro b item hitem hisbn hstatus
      apply hshelf
      exact List.any_eq_true.mpr ⟨b, (of_itemsFor hexpired hitems).2 b item hitem hisbn,
        isAvailable_iff.mpr ⟨item, hitem, hstatus⟩⟩

theorem Queued.cancelReservation (h : Queued s) (memberId : Nat) (isbn : String) :
    Queued (s.cancelReservation memberId isbn).2 := by
  rw [LibraryService.cancelReservation]
  split
  · apply h.shrink
    intro isbn'
    rw [waiting_set]
    split
    · next hisbn =>
      rw [hisbn]
      exact eraseP_sublist
    · exact List.Sublist.refl _
  · split
    · exact h
    · next barcode _ =>
      split
      · exact h
      · next hitem => exact (h.eraseHold barcode).release hitem

theorem Queued.availableCopies (h : Queued s) (isbn : String) :
    Queued (s.availableCopies isbn).2 := by
  rw [LibraryService.availableCopies]
  split
  · exact h.expireHolds isbn
  · exact h.expireHolds isbn

theorem Queued.payFine (h : Queued s) (memberId : Nat) (amount : ℚ) :
    Queued (s.payFine memberId amount).2 := by
  rw [LibraryService.payFine]
  split
  · exact h
  · split
    · exact h
    · exact ⟨h.shelved, h.shelf, h.sorted, h.below, h.holds, h.fair⟩

/-! ## The catalog -/

theorem Queued.addBook (h : Queued s) (book : Book) : Queued (s.addBook book) := by
  refine ⟨⟨fun b item hb => ?_, fun isbn bs hbs => ?_⟩, h.shelf, h.sorted, h.below, h.holds, h.fair⟩
  · obtain ⟨bs, hbs, hmem⟩ := h.shelved.listed b item hb
    show ∃ bs, (s.itemsByIsbn.set book.isbn _).get? item.isbn = some bs ∧ b ∈ bs
    rw [get?_set]
    split
    · next hisbn =>
      rw [← hisbn, hbs]
      exact ⟨bs, rfl, hmem⟩
    · exact ⟨bs, hbs, hmem⟩
  · obtain ⟨rfl, rfl⟩ | ⟨-, hbs⟩ := get?_set_some hbs
    · cases hold : s.itemsByIsbn.get? book.isbn with
      | none => rintro b ⟨⟩
      | some bs => exact h.shelved.titled book.isbn bs hold
    · exact h.shelved.titled isbn bs hbs

theorem Queued.addItem (h : Queued s) (hwaiting : s.waiting isbn = []) (barcode rack : String) :
    Queued (s.addItem barcode isbn rack).2 := by
  rw [LibraryService.addItem]
  split
  · exact h
  split
  · exact h
  · next hnew =>
    have hnone : s.items.get? barcode = none := by simpa using hnew
    refine ⟨⟨fun b item hb => ?_, fun isbn' bs hbs b hb => ?_⟩, fun b item hb hne => ?_, h.sorted,
      h.below, fun b hold hhold => ?_, h.fair⟩
    · show ∃ bs, (s.itemsByIsbn.set isbn _).get? item.isbn = some bs ∧ b ∈ bs
      rw [get?_set]
      obtain ⟨rfl, rfl⟩ | ⟨-, hb⟩ := get?_set_some hb
      · rw [if_pos rfl]
        exact ⟨_, rfl, mem_append_right _ (mem_singleton.mpr rfl)⟩
      · obtain ⟨bs, hbs, hmem⟩ := h.shelved.listed b item hb
        split
        · next hisbn =>
          rw [← hisbn, hbs]
          exact ⟨_, rfl, mem_append_left _ hmem⟩
        · exact ⟨bs, hbs, hmem⟩
    · show ∃ item, (s.items.set barcode _).get? b = some item ∧ item.isbn = isbn'
      have hold : ∀ isbn' bs, s.itemsByIsbn.get? isbn' = some bs → b ∈ bs →
          ∃ item, (s.items.set barcode ⟨isbn, rack, .available⟩).get? b = some item ∧
            item.isbn = isbn' := by
        intro isbn' bs hbs hb
        obtain ⟨item, hitem, hisbn⟩ := h.shelved.titled isbn' bs hbs b hb
        have hne : b ≠ barcode := ne_of_eq_none hitem hnone
        rw [get?_set_of_ne _ _ hne]
        exact ⟨item, hitem, hisbn⟩
      obtain ⟨rfl, rfl⟩ | ⟨-, hbs⟩ := get?_set_some hbs
      · obtain hb | hb := mem_append.mp hb
        · cases hget : s.itemsByIsbn.get? isbn' with
          | none =>
            rw [hget] at hb
            cases hb
          | some bs =>
            rw [hget] at hb
            exact hold isbn' bs hget hb
        · rw [mem_singleton.mp hb, get?_set_self]
          exact ⟨_, rfl, rfl⟩
      · exact hold isbn' bs hbs hb
    · obtain ⟨-, rfl⟩ | ⟨-, hb⟩ := get?_set_some hb
      · exact absurd hwaiting hne
      · exact h.shelf b item hb hne
    · obtain ⟨hlt, hbefore⟩ := h.holds b hold hhold
      refine ⟨hlt, fun item hitem r hr => ?_⟩
      obtain ⟨-, rfl⟩ | ⟨-, hitem⟩ := get?_set_some hitem
      · change r ∈ s.waiting isbn at hr
        rw [hwaiting] at hr
        cases hr
      · exact hbefore item hitem r hr

/-! ## Runs -/

/-- A copy that is added is of a title that nobody waits for. -/
def unawaited (s : LibraryService) : Op → Bool
  | .addItem _ isbn _ => (s.waiting isbn).isEmpty
  | .advance _ | .addBook _ | .registerMember _ _ | .availableCopies _ | .borrow _ _ | .returnItem _
  | .renew _ | .reportLost _ _ | .reserve _ _ | .cancelReservation _ _ | .holdFor _ _
  | .payFine _ _ => true

theorem Queued.act (h : Queued s) (op : Op) (hop : s.unawaited op = true) :
    Queued (s.act c op).2 := by
  cases op with
  | advance => exact ⟨h.shelved, h.shelf, h.sorted, h.below, h.holds, h.fair⟩
  | addBook book => exact h.addBook book
  | addItem barcode _ rack => exact h.addItem (List.isEmpty_iff.mp hop) barcode rack
  | registerMember =>
    exact ⟨h.shelved, h.shelf, h.sorted, h.below, h.holds, h.fair⟩
  | availableCopies isbn => exact h.availableCopies isbn
  | borrow memberId isbn => exact h.borrow memberId isbn
  | returnItem barcode => exact h.returnItem barcode
  | renew barcode => exact h.renew barcode
  | reportLost barcode cost => exact h.reportLost barcode cost
  | reserve memberId isbn => exact h.reserve memberId isbn
  | cancelReservation memberId isbn => exact h.cancelReservation memberId isbn
  | holdFor _ isbn => exact h.expireHolds isbn
  | payFine memberId amount => exact h.payFine memberId amount

theorem new_queued (today : Int) : Queued (new today) :=
  ⟨⟨by rintro _ _ ⟨⟩, by rintro _ _ ⟨⟩⟩, by rintro _ _ ⟨⟩, fun _ => List.Pairwise.nil,
    by rintro _ _ ⟨⟩, by rintro _ _ ⟨⟩, by rintro _ ⟨⟩⟩

/-- Whoever borrows a copy or is given a hold has reserved it before everybody who still waits, as
    long as no copy is added to a title that somebody waits for. -/
theorem run_served (today : Int) {ops : List Op} {answers : List Answer}
    (hops : Guarded (fun s op => s.unawaited op = true) (step c) (new today) ops)
    (hrun : runSteps (step c) (new today) ops = .ok (answers, s)) : ∀ e ∈ s.served, e.Fair := by
  have h : Queued s := by
    refine runSteps_keeps (fun _ _ s => Queued s) ?_ (new_queued today) hops hrun
    rintro - - s op o s' - h hop hstep
    rw [step_eq_act] at hstep
    obtain ⟨-, rfl⟩ := Prod.mk.inj (Except.ok.inj hstep)
    exact h.act op hop
  exact h.fair

/-- A library without fines. -/
def freeLibrary : Config :=
  { calculateFine := fun _ _ => 0
    fineBlock := 10 }

/-- Three members and one copy of a title: the first has borrowed it, the second waits for it. -/
def oneCopy : List Op :=
  [.addBook ⟨"gof", "Design Patterns", "Gamma", "Programming", 1994⟩, .addItem "b1" "gof" "A-1",
    .registerMember "Alice" .student, .registerMember "Bob" .faculty,
    .registerMember "Carol" .publicMember, .borrow 1 "gof", .reserve 2 "gof"]

/-- Both that wait are given a hold in turn, the first one's expires. -/
theorem run_served_expiry : ∃ answers s, runSteps (step freeLibrary) (new 0)
      (oneCopy ++ [.reserve 3 "gof", .returnItem "b1", .advance 4, .holdFor 3 "gof",
        .borrow 3 "gof"]) = .ok (answers, s) ∧ s.served.length = 4 ∧ ∀ e ∈ s.served, e.Fair := by
  refine exists_run_of_observe
    (f := fun r : List Answer × LibraryService => r.2.served.length) (b := 4) (by decide +kernel)
    fun answers s hrun hserved => ?_
  exact ⟨hserved, run_served 0 (by decide +kernel) hrun⟩

/-- A copy is added while the second member waits, and the third one borrows it. -/
theorem run_queueJumped : ∃ answers s, runSteps (step freeLibrary) (new 0)
      (oneCopy ++ [.addItem "b2" "gof" "A-2", .borrow 3 "gof"]) = .ok (answers, s) ∧
    s.served.head? = some ⟨"gof", 3, none, [⟨2, 0⟩]⟩ ∧
    ¬ (⟨"gof", 3, none, [⟨2, 0⟩]⟩ : Served).Fair := by
  refine exists_run_of_observe (f := fun r : List Answer × LibraryService => r.2.served.head?)
    (b := some ⟨"gof", 3, none, [⟨2, 0⟩]⟩) (by decide +kernel) fun answers s hrun hserved => ?_
  refine ⟨hserved, fun hfair => ?_⟩
  obtain ⟨k, hk, -⟩ := hfair ⟨2, 0⟩ (mem_singleton.mpr rfl) (by decide)
  cases hk

end LibraryService

end InterviewPrep.Library
