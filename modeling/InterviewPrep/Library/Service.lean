/-
  `LibraryService` and its `Catalog`.  A member's id is its number, a date the number of its
  day, and the fine rule a parameter.  The reservations are numbered, and `served` is the
  history of the loans and holds, each with those who were waiting then.
-/
import InterviewPrep.Lib.Dict
import InterviewPrep.Lib.Run
import Mathlib.Algebra.Order.Ring.Unbundled.Rat

namespace InterviewPrep.Library

open Lib

/-! ## Records -/

inductive ItemStatus where
  | available
  | onLoan
  | onHold
  | lost
  deriving DecidableEq

inductive MemberType where
  | student
  | faculty
  | publicMember
  | premium

structure MembershipPolicy where
  maxBooks : Nat
  loanDays : Int
  maxRenewals : Nat

/-- `POLICIES`. -/
def MemberType.policy : MemberType → MembershipPolicy
  | .student => ⟨5, 14, 2⟩
  | .faculty => ⟨10, 30, 2⟩
  | .publicMember => ⟨3, 7, 2⟩
  | .premium => ⟨8, 21, 2⟩

structure Book where
  isbn : String
  title : String
  author : String
  category : String
  year : Int

structure BookItem where
  isbn : String
  rack : String
  status : ItemStatus

structure Loan where
  barcode : String
  isbn : String
  memberId : Nat
  borrowedOn : Int
  dueOn : Int
  renewals : Nat
  returnedOn : Option Int
  fine : ℚ

def Loan.daysOverdue (loan : Loan) (day : Int) : Int := max 0 (day - loan.dueOn)

structure Reservation where
  memberId : Nat
  number : Nat
  deriving DecidableEq

/-- A copy that is set aside for a reservation. -/
structure Hold where
  memberId : Nat
  expiresOn : Int
  number : Nat

structure Member where
  name : String
  memberType : MemberType
  /-- The loan of each barcode. -/
  activeLoans : Dict String Nat
  fineDue : ℚ

/-- A member has borrowed a copy or been given a hold, while others were waiting. -/
structure Served where
  isbn : String
  memberId : Nat
  /-- The reservation of the member, if there was one. -/
  number : Option Nat
  waiting : List Reservation
  deriving DecidableEq

inductive LibraryError where
  | unknownIsbn (isbn : String)
  | unknownBarcode (barcode : String)
  | duplicateBarcode (barcode : String)
  | unknownMember (memberId : Nat)
  | notOnLoan (barcode : String)
  | booksLimit (maxBooks : Nat)
  | unpaidFines (amount : ℚ)
  | hasOverdue
  | noCopy (isbn : String)
  | overdueLoans
  | renewalLimit
  | othersWaiting
  | onShelf
  | alreadyReserved
  | alreadyHas
  | noReservation
  | badPayment (fineDue : ℚ)

inductive Answer where
  | done
  | member (id : Nat)
  | loan (id : Nat)
  | copies (n : Nat)
  | position (n : Nat)
  | hold (hold : Option Hold)
  | due (amount : ℚ)
  | raised (e : LibraryError)

inductive Op where
  | advance (days : Nat)
  | addBook (book : Book)
  | addItem (barcode isbn rack : String)
  | registerMember (name : String) (memberType : MemberType)
  | availableCopies (isbn : String)
  | borrow (memberId : Nat) (isbn : String)
  | returnItem (barcode : String)
  | renew (barcode : String)
  | reportLost (barcode : String) (replacementCost : ℚ)
  | reserve (memberId : Nat) (isbn : String)
  | cancelReservation (memberId : Nat) (isbn : String)
  | holdFor (memberId : Nat) (isbn : String)
  | payFine (memberId : Nat) (amount : ℚ)

/-- What a service is built with. -/
structure Config where
  calculateFine : Int → MemberType → ℚ
  fineBlock : ℚ

structure LibraryService where
  today : Int
  books : Dict String Book
  items : Dict String BookItem
  itemsByIsbn : Dict String (List String)
  nextId : Nat
  members : Dict Nat Member
  loans : Dict Nat Loan
  active : Dict String Nat
  waitlist : Dict String (List Reservation)
  holds : Dict String Hold
  reservations : Nat
  served : List Served

namespace LibraryService

def new (today : Int) : LibraryService :=
  { today := today
    books := Dict.empty
    items := Dict.empty
    itemsByIsbn := Dict.empty
    nextId := 1
    members := Dict.empty
    loans := Dict.empty
    active := Dict.empty
    waitlist := Dict.empty
    holds := Dict.empty
    reservations := 0
    served := [] }

def holdDays : Int := 3

variable (c : Config) (s : LibraryService)

/-- The queue of a title. -/
def waiting (isbn : String) : List Reservation := (s.waitlist.get? isbn).getD []

/-! ## Copies -/

/-- `Catalog.items_for`: the barcodes of a title. -/
def itemsFor (isbn : String) : Except LibraryError (List String) :=
  match s.books.get? isbn with
  | none => .error (.unknownIsbn isbn)
  | some _ => .ok ((s.itemsByIsbn.get? isbn).getD [])

def isAvailable (barcode : String) : Bool :=
  (s.items.get? barcode).any fun item => item.status = .available

/-- `_first_available`. -/
def firstAvailable (isbn : String) : Except LibraryError (Option String) :=
  (s.itemsFor isbn).map fun barcodes => barcodes.find? s.isAvailable

/-- `_held_item_for`. -/
def heldItemFor (memberId : Nat) (isbn : String) : Option String :=
  (s.holds.items.find? fun e => e.2.memberId = memberId &&
    (s.items.get? e.1).any fun item => item.isbn = isbn).map Prod.fst

/-- `_release`: a copy is held for the first member that waits, else put on the shelf. -/
def release (barcode : String) (item : BookItem) : LibraryService :=
  match s.waiting item.isbn with
  | r :: rest =>
    { s with
      waitlist := s.waitlist.set item.isbn rest
      items := s.items.set barcode { item with status := .onHold }
      holds := s.holds.set barcode ⟨r.memberId, s.today + holdDays, r.number⟩
      served := ⟨item.isbn, r.memberId, some r.number, rest⟩ :: s.served }
  | [] => { s with items := s.items.set barcode { item with status := .available } }

/-- One hold of `_expire_holds`. -/
def expireHold (isbn : String) (s : LibraryService) (e : String × Hold) : LibraryService :=
  match s.items.get? e.1 with
  -- Every hold is of an item.
  | none => s
  | some item =>
    if item.isbn = isbn ∧ e.2.expiresOn < s.today then
      { s with holds := s.holds.erase e.1 }.release e.1 item
    else s

/-- `_expire_holds`. -/
def expireHolds (isbn : String) : LibraryService := s.holds.items.foldl (expireHold isbn) s

/-! ## Loans -/

/-- `_active_loan`, and the item. -/
def activeLoan (barcode : String) : Except LibraryError (BookItem × Nat × Loan) :=
  match s.items.get? barcode with
  | none => .error (.unknownBarcode barcode)
  | some item =>
    match (s.active.get? barcode).bind fun id => (s.loans.get? id).map fun loan => (id, loan) with
    | none => .error (.notOnLoan barcode)
    | some (id, loan) => .ok (item, id, loan)

/-- `_check_can_borrow`. -/
def checkCanBorrow (member : Member) : Option LibraryError :=
  if member.memberType.policy.maxBooks ≤ member.activeLoans.size then
    some (.booksLimit member.memberType.policy.maxBooks)
  else if c.fineBlock ≤ member.fineDue then some (.unpaidFines member.fineDue)
  else if member.activeLoans.values.any fun id =>
      (s.loans.get? id).any fun loan => decide (loan.daysOverdue s.today ≠ 0) then some .hasOverdue
  else none

/-- A copy is lent to a member, whose hold or place in the queue ends. -/
def lend (memberId : Nat) (member : Member) (isbn barcode : String) : LibraryService :=
  let number := match s.heldItemFor memberId isbn with
    | some held => (s.holds.get? held).map Hold.number
    | none => ((s.waiting isbn).find? fun r => r.memberId = memberId).map Reservation.number
  let waitlist := if (s.waiting isbn).any fun r => r.memberId = memberId then
      s.waitlist.set isbn ((s.waiting isbn).eraseP fun r => r.memberId = memberId)
    else s.waitlist
  { s with
    holds := s.holds.erase barcode
    waitlist := waitlist
    nextId := s.nextId + 1
    loans := s.loans.set s.nextId
      ⟨barcode, isbn, memberId, s.today, s.today + member.memberType.policy.loanDays, 0, none, 0⟩
    items := match s.items.get? barcode with
      | some item => s.items.set barcode { item with status := .onLoan }
      | none => s.items
    members := s.members.set memberId
      { member with activeLoans := member.activeLoans.set barcode s.nextId }
    active := s.active.set barcode s.nextId
    served := ⟨isbn, memberId, number, (waitlist.get? isbn).getD []⟩ :: s.served }

def borrow (memberId : Nat) (isbn : String) : Answer × LibraryService :=
  match s.members.get? memberId with
  | none => (.raised (.unknownMember memberId), s)
  | some member =>
  match s.checkCanBorrow c member with
  | some e => (.raised e, s)
  | none =>
  let s := s.expireHolds isbn
  match s.heldItemFor memberId isbn with
  | some barcode => (.loan s.nextId, s.lend memberId member isbn barcode)
  | none =>
    match s.firstAvailable isbn with
    | .error e => (.raised e, s)
    | .ok none => (.raised (.noCopy isbn), s)
    | .ok (some barcode) => (.loan s.nextId, s.lend memberId member isbn barcode)

def endLoan (barcode : String) (id : Nat) (loan : Loan) (member : Member) (fine : ℚ) :
    LibraryService :=
  { s with
    loans := s.loans.set id { loan with returnedOn := some s.today, fine := fine }
    members := s.members.set loan.memberId
      { member with
        fineDue := member.fineDue + fine
        activeLoans := member.activeLoans.erase barcode }
    active := s.active.erase barcode }

def returnItem (barcode : String) : Answer × LibraryService :=
  match s.activeLoan barcode with
  | .error e => (.raised e, s)
  | .ok (item, id, loan) =>
  match s.members.get? loan.memberId with
  | none => (.raised (.unknownMember loan.memberId), s)
  | some member =>
    let fine := c.calculateFine (loan.daysOverdue s.today) member.memberType
    let s := (s.endLoan barcode id loan member fine).expireHolds item.isbn
    match s.items.get? barcode with
    | none => (.raised (.unknownBarcode barcode), s)
    | some item => (.loan id, s.release barcode item)

def renew (barcode : String) : Answer × LibraryService :=
  match s.activeLoan barcode with
  | .error e => (.raised e, s)
  | .ok (_, id, loan) =>
  match s.members.get? loan.memberId with
  | none => (.raised (.unknownMember loan.memberId), s)
  | some member =>
    if 0 < loan.daysOverdue s.today then (.raised .overdueLoans, s)
    else if member.memberType.policy.maxRenewals ≤ loan.renewals then (.raised .renewalLimit, s)
    else if s.waiting loan.isbn ≠ [] then (.raised .othersWaiting, s)
    else
      (.loan id,
        { s with
          loans := s.loans.set id
            { loan with
              renewals := loan.renewals + 1
              dueOn := s.today + member.memberType.policy.loanDays } })

def reportLost (barcode : String) (replacementCost : ℚ) : Answer × LibraryService :=
  match s.activeLoan barcode with
  | .error e => (.raised e, s)
  | .ok (item, id, loan) =>
  match s.members.get? loan.memberId with
  | none => (.raised (.unknownMember loan.memberId), s)
  | some member =>
    (.loan id,
      { s.endLoan barcode id loan member replacementCost with
        items := s.items.set barcode { item with status := .lost } })

/-! ## Reservations -/

def reserve (memberId : Nat) (isbn : String) : Answer × LibraryService :=
  match s.members.get? memberId with
  | none => (.raised (.unknownMember memberId), s)
  | some member =>
  let s := s.expireHolds isbn
  match s.itemsFor isbn with
  | .error e => (.raised e, s)
  | .ok barcodes =>
    if barcodes.any s.isAvailable then (.raised .onShelf, s)
    else if (s.waiting isbn).any (fun r => r.memberId = memberId) ∨
        (s.heldItemFor memberId isbn).isSome then
      -- `setdefault` has made a queue by now; an empty one is as none.
      (.raised .alreadyReserved, s)
    else if member.activeLoans.values.any fun id =>
        (s.loans.get? id).any fun loan => loan.isbn = isbn then (.raised .alreadyHas, s)
    else
      (.position ((s.waiting isbn).length + 1),
        { s with
          waitlist := s.waitlist.set isbn (s.waiting isbn ++ [⟨memberId, s.reservations⟩])
          reservations := s.reservations + 1 })

def cancelReservation (memberId : Nat) (isbn : String) : Answer × LibraryService :=
  if (s.waiting isbn).any fun r => r.memberId = memberId then
    (.done,
      { s with
        waitlist := s.waitlist.set isbn
          ((s.waiting isbn).eraseP fun r => r.memberId = memberId) })
  else
    match s.heldItemFor memberId isbn with
    | none => (.raised .noReservation, s)
    | some barcode =>
      match s.items.get? barcode with
      | none => (.raised (.unknownBarcode barcode), s)
      | some item =>
        (.done, { s with holds := s.holds.erase barcode }.release barcode item)

def holdFor (memberId : Nat) (isbn : String) : Answer × LibraryService :=
  let s := s.expireHolds isbn
  (.hold ((s.heldItemFor memberId isbn).bind s.holds.get?), s)

def availableCopies (isbn : String) : Answer × LibraryService :=
  let s := s.expireHolds isbn
  match s.itemsFor isbn with
  | .error e => (.raised e, s)
  | .ok barcodes => (.copies (barcodes.countP s.isAvailable), s)

/-! ## Steps -/

def payFine (memberId : Nat) (amount : ℚ) : Answer × LibraryService :=
  match s.members.get? memberId with
  | none => (.raised (.unknownMember memberId), s)
  | some member =>
    if amount ≤ 0 ∨ member.fineDue < amount then (.raised (.badPayment member.fineDue), s)
    else
      (.due (member.fineDue - amount),
        { s with
          members := s.members.set memberId { member with fineDue := member.fineDue - amount } })

def addBook (book : Book) : LibraryService :=
  { s with
    books := s.books.set book.isbn book
    itemsByIsbn := s.itemsByIsbn.set book.isbn ((s.itemsByIsbn.get? book.isbn).getD []) }

def addItem (barcode isbn rack : String) : Answer × LibraryService :=
  match s.books.get? isbn with
  | none => (.raised (.unknownIsbn isbn), s)
  | some _ =>
    if (s.items.get? barcode).isSome then (.raised (.duplicateBarcode barcode), s)
    else
      (.done,
        { s with
          items := s.items.set barcode ⟨isbn, rack, .available⟩
          itemsByIsbn := s.itemsByIsbn.set isbn ((s.itemsByIsbn.get? isbn).getD [] ++ [barcode]) })

def act : Op → Answer × LibraryService
  | .advance days => (.done, { s with today := s.today + days })
  | .addBook book => (.done, s.addBook book)
  | .addItem barcode isbn rack => s.addItem barcode isbn rack
  | .registerMember name memberType =>
    (.member s.nextId,
      { s with
        nextId := s.nextId + 1
        members := s.members.set s.nextId ⟨name, memberType, Dict.empty, 0⟩ })
  | .availableCopies isbn => s.availableCopies isbn
  | .borrow memberId isbn => s.borrow c memberId isbn
  | .returnItem barcode => s.returnItem c barcode
  | .renew barcode => s.renew barcode
  | .reportLost barcode replacementCost => s.reportLost barcode replacementCost
  | .reserve memberId isbn => s.reserve memberId isbn
  | .cancelReservation memberId isbn => s.cancelReservation memberId isbn
  | .holdFor memberId isbn => s.holdFor memberId isbn
  | .payFine memberId amount => s.payFine memberId amount

def step (s : LibraryService) (op : Op) : Except Empty (Answer × LibraryService) :=
  .ok (s.act c op)

theorem step_eq_act (s : LibraryService) (op : Op) : s.step c op = .ok (s.act c op) := rfl

end LibraryService

end InterviewPrep.Library
