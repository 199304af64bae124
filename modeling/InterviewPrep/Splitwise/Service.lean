/-
  The settlement strategies: the greedy matching of the largest debtor with the
  largest creditor, and the exact one, a bitmask dynamic program over the people
  with a non-zero balance that falls back on another strategy.

  The facade `SplitwiseService` (splitwise_expense.py).  Every public method runs
  under one lock, so an operation is one step: it returns or raises in a new
  state (`ServiceM`), and a failed step leaves whatever it had changed.
-/
import InterviewPrep.Lib.Bitmask
import InterviewPrep.Lib.Heaps
import InterviewPrep.Lib.Run
import InterviewPrep.Splitwise.Ledger
import Mathlib.Data.String.Basic

namespace InterviewPrep.Splitwise

open Lib

structure Transfer where
  debtor : String
  creditor : String
  amount : Decimal

/-- `SettlementStrategy.settle`. -/
abbrev Settle : Type := Dict String Decimal → Except PyError (List Transfer)

/-! ## Greedy settlement -/

/-- A heap entry: cents (negative) and user. -/
abbrev Entry : Type := Int ×ₗ String

/-- The loop of `GreedySettlement.settle`, in at most `fuel` rounds, each of which shortens the
    heaps. -/
def greedyLoop : Nat → List Entry → List Entry → Except PyError (List Transfer)
  | _, [], _ => .ok []
  | _, _ :: _, [] => .ok []
  | 0, _ :: _, _ :: _ => .error .diverges
  | fuel + 1, debt :: debtors, credit :: creditors =>
    let (owed, debtor) := ofLex debt
    let (due, creditor) := ofLex credit
    let cents := min (-owed) (-due)
    let debtors :=
      if owed + cents ≠ 0 then heappush debtors (toLex (owed + cents, debtor)) else debtors
    let creditors :=
      if due + cents ≠ 0 then heappush creditors (toLex (due + cents, creditor)) else creditors
    do
      let transfers ← greedyLoop fuel debtors creditors
      return ⟨debtor, creditor, fromCents cents⟩ :: transfers

def greedySettle : Settle := fun balances =>
  let debtors := balances.items.filterMap fun x =>
    if x.2.toRat < 0 then some (toLex (toCents x.2, x.1)) else none
  let creditors := balances.items.filterMap fun x =>
    if 0 < x.2.toRat then some (toLex (-toCents x.2, x.1)) else none
  if (debtors.map fun e => (ofLex e).1).sum + (creditors.map fun e => -(ofLex e).1).sum ≠ 0 then
    .error (.valueError "balances must sum to zero")
  else greedyLoop (debtors.length + creditors.length) (heapify debtors) (heapify creditors)

/-! ## Optimal settlement -/

/-- The tables of the dynamic program, indexed by sets of people. -/
structure Tables where
  subsetSum : Array Int
  /-- largest number of zero-sum subgroups within the set -/
  best : Array Nat

/-- The value of one table entry for each person of the set, without that person. -/
def bestWithout (best : Array Nat) (n mask : Nat) : List Nat :=
  (bits n mask).map fun i => best.getD (mask ^^^ (1 <<< i)) 0

/-- One round of the loop that fills the tables. -/
def fillMask (n : Nat) (cents : List Int) (t : Tables) (mask : Nat) : Except PyError Tables := do
  let low := lowBit mask
  let subsetSum := t.subsetSum.setIfInBounds mask
    (t.subsetSum.getD (mask &&& (mask - 1)) 0 + cents.getD low 0)
  let some b := (bestWithout t.best n mask).max?
    | throw (.valueError "max() iterable argument is empty")
  let sumsToZero := if subsetSum.getD mask 0 = 0 then 1 else 0
  return { subsetSum, best := t.best.setIfInBounds mask (b + sumsToZero) }

def fillTables (n : Nat) (cents : List Int) : Except PyError Tables :=
  let full := 1 <<< n - 1
  (List.range' 1 full).foldlM (fillMask n cents)
    ⟨Array.replicate (full + 1) 0, Array.replicate (full + 1) 0⟩

/-- Walk the tables back from `mask`; each round takes one person out of the set. -/
def walkBack (n : Nat) (t : Tables) : Nat → Nat → Except PyError (List Nat)
  | fuel, mask =>
    if mask = 0 then .ok []
    else match fuel with
      | 0 => .error .diverges
      | fuel + 1 =>
        let target : Int :=
          (t.best.getD mask 0 : Int) - (if t.subsetSum.getD mask 0 = 0 then 1 else 0)
        match (List.range n).find? fun i =>
            mask.testBit i && decide ((t.best.getD (mask ^^^ (1 <<< i)) 0 : Int) = target) with
        | none => .error .stopIteration
        | some i => do
            let order ← walkBack n t fuel (mask ^^^ (1 <<< i))
            return i :: order

/-- Settle the subgroups that the order runs through, cut where the rest sums to zero. -/
def settleSubgroups (fallback : Settle) (people : List String) (balances : Dict String Decimal)
    (t : Tables) : List Nat → Nat → Dict String Decimal → Except PyError (List Transfer)
  | [], _, _ => .ok []
  | i :: order, mask, subgroup => do
      -- the people are keys of the balances
      let uid := people.getD i ""
      let subgroup := subgroup.set uid ((balances.get? uid).getD (money 0))
      let mask := mask ^^^ (1 <<< i)
      if mask = 0 ∨ t.subsetSum.getD mask 0 = 0 then
        let transfers ← fallback subgroup
        return transfers ++ (← settleSubgroups fallback people balances t order mask Dict.empty)
      else settleSubgroups fallback people balances t order mask subgroup

def optimalSettle (maxPeople : Int) (fallback : Settle) : Settle := fun balances => do
  let people := ((balances.items.filter fun x => x.2.toRat ≠ 0).map Prod.fst).insertionSort (· ≤ ·)
  let n := people.length
  if n > maxPeople then fallback balances
  else
    let cents := people.map fun uid => toCents ((balances.get? uid).getD (money 0))
    if cents.sum ≠ 0 then throw (.valueError "balances must sum to zero")
    let t ← fillTables n cents
    let order ← walkBack n t n (1 <<< n - 1)
    settleSubgroups fallback people balances t order (1 <<< n - 1) Dict.empty

/-! ## Strategies -/

/-- The strategies of the module; `OptimalSettlement()` is `optimal 12 greedy`. -/
inductive SettlementStrategy where
  | greedy
  | optimal (maxPeople : Int) (fallback : SettlementStrategy)

def SettlementStrategy.settle : SettlementStrategy → Settle
  | .greedy => greedySettle
  | .optimal maxPeople fallback => optimalSettle maxPeople fallback.settle

/-- `SplitwiseService`; `nextId` is the next value of the id counter. -/
structure SplitwiseService where
  nextId : Nat
  users : Dict String User
  groups : Dict String Group
  expenses : Dict String Expense
  payments : List Payment
  /-- expenses outside any group -/
  personal : BalanceSheet
  settlement : SettlementStrategy

/-- A method of the service: its result or exception, and the state it leaves. -/
abbrev ServiceM : Type → Type := EStateM PyError SplitwiseService

namespace SplitwiseService

def new (settlement : SettlementStrategy) : SplitwiseService :=
  ⟨1, Dict.empty, Dict.empty, Dict.empty, [], .new, settlement⟩

/-- A computation outside the state. -/
def lift {α : Type} : Except PyError α → ServiceM α
  | .ok a => pure a
  | .error e => throw e

def nextIdFor (idPrefix : String) : ServiceM String :=
  modifyGet fun s => (idPrefix ++ toString s.nextId, { s with nextId := s.nextId + 1 })

/-! ## Helpers (called with the lock held) -/

def requireUser (userId : String) : ServiceM User := do
  let some user := (← get).users.get? userId
    | throw (.notFoundError s!"user {userId} not found")
  return user

def requireGroup (groupId : String) : ServiceM Group := do
  let some group := (← get).groups.get? groupId
    | throw (.notFoundError s!"group {groupId} not found")
  return group

/-- `for uid in user_ids: self._require_user(uid)`. -/
def requireUsers : List String → ServiceM Unit
  | [] => return ()
  | uid :: userIds => do
      let _ ← requireUser uid
      requireUsers userIds

/-- `str(userIds)` for a list of user ids. -/
def listText (userIds : List String) : String :=
  "[" ++ String.intercalate ", " (userIds.map fun uid => "'" ++ uid ++ "'") ++ "]"

/-- The ledger of an entry: of a group (by its id), or the personal one. -/
def ledgerFor (groupId : Option String) (userIds : List String) : ServiceM (Option String) := do
  requireUsers userIds
  match groupId with
  | none => return none
  | some gid => do
      let group ← requireGroup gid
      let outsiders := userIds.filter fun uid => !group.isMember uid
      if outsiders ≠ [] then
        throw (.splitwiseError s!"not members of {group.name}: {listText outsiders}")
      return some gid

/-- Change the ledger object that `ledgerFor` has returned. -/
def modifyLedger (ledger : Option String) (f : BalanceSheet → BalanceSheet)
    (s : SplitwiseService) : SplitwiseService :=
  match ledger with
  | none => { s with personal := f s.personal }
  | some gid =>
    match s.groups.get? gid with
    | none => s
    | some g => { s with groups := s.groups.set gid { g with ledger := f g.ledger } }

/-! ## Users and groups -/

def addUser (name email : String) : ServiceM User := do
  let user : User := ⟨← nextIdFor "U", name, email⟩
  modify fun s => { s with users := s.users.set user.userId user }
  return user

def createGroup (name : String) (memberIds : List String) : ServiceM Group := do
  requireUsers memberIds
  let group := Group.new (← nextIdFor "G") name
  let group := memberIds.foldl Group.addMember group
  modify fun s => { s with groups := s.groups.set group.groupId group }
  return group

def addMember (groupId userId : String) : ServiceM Unit := do
  let _ ← requireUser userId
  let group ← requireGroup groupId
  modify fun s => { s with groups := s.groups.set groupId (group.addMember userId) }

def removeMember (groupId userId : String) : ServiceM Unit := do
  let group ← requireGroup groupId
  let group ← lift (group.removeMember userId)
  modify fun s => { s with groups := s.groups.set groupId group }

/-! ## Expenses and payments -/

/-- The arguments of `add_expense`. -/
structure ExpenseArgs where
  description : String
  amount : MoneyLike
  paidBy : String
  participantIds : List String
  splitType : SplitType := .equal
  values : Option (List MoneyLike) := none
  groupId : Option String := none
  category : ExpenseCategory := .other

def addExpense (a : ExpenseArgs) : ServiceM Expense := do
  let total ← lift (toMoney a.amount)
  if total.toRat ≤ 0 then
    throw (.invalidSplitError "amount must be positive")
  if a.participantIds = [] then
    throw (.invalidSplitError "need at least one participant")
  if ¬ a.participantIds.Nodup then
    throw (.invalidSplitError "duplicate participant")
  let ledger ← ledgerFor a.groupId (a.paidBy :: a.participantIds)
  let shares ← lift (splitStrategy a.splitType total a.participantIds a.values)
  let expenseId ← nextIdFor "E"
  let expense ← lift (Expense.create expenseId a.description total a.paidBy a.splitType shares
    a.category a.groupId)
  modify fun s => { s with expenses := s.expenses.set expense.expenseId expense }
  modify (modifyLedger ledger (·.applyExpense expense 1))
  return expense

/-- Reverse an expense's ledger effect. -/
def deleteExpense (expenseId : String) : ServiceM Unit := do
  let some expense := (← get).expenses.get? expenseId
    | throw (.notFoundError s!"expense {expenseId} not found")
  modify fun s => { s with expenses := s.expenses.erase expenseId }
  -- a group id that is `None` or empty is false
  match expense.groupId.filter (· ≠ "") with
  | none => modify (modifyLedger none (·.applyExpense expense (-1)))
  | some gid => do
      if ((← get).groups.get? gid).isNone then
        throw (.keyError gid)
      modify (modifyLedger (some gid) (·.applyExpense expense (-1)))

def recordPayment (fromUser toUser : String) (amount : MoneyLike) (groupId : Option String) :
    ServiceM Payment := do
  let value ← lift (toMoney amount)
  if value.toRat ≤ 0 then
    throw (.invalidSplitError "payment must be positive")
  if fromUser = toUser then
    throw (.invalidSplitError "cannot pay yourself")
  let ledger ← ledgerFor groupId [fromUser, toUser]
  let payment : Payment := ⟨← nextIdFor "P", fromUser, toUser, value, groupId⟩
  modify fun s => { s with payments := s.payments ++ [payment] }
  modify (modifyLedger ledger (·.applyPayment payment))
  return payment

/-! ## Queries -/

def getGroupBalances (groupId : String) : ServiceM (Dict String Decimal) := do
  return (← requireGroup groupId).ledger.snapshot

def getSettlementPlan (groupId : String) (strategy : Option SettlementStrategy) :
    ServiceM (List Transfer) := do
  let balances ← getGroupBalances groupId
  lift ((strategy.getD (← get).settlement).settle balances)

/-! ## Runs -/

/-- A call of one of the methods that change the service. -/
inductive Op where
  | addUser (name email : String)
  | createGroup (name : String) (memberIds : List String)
  | addMember (groupId userId : String)
  | removeMember (groupId userId : String)
  | addExpense (args : ExpenseArgs)
  | deleteExpense (expenseId : String)
  | recordPayment (fromUser toUser : String) (amount : MoneyLike) (groupId : Option String)

def Op.call : Op → ServiceM Unit
  | .addUser name email => do let _ ← SplitwiseService.addUser name email
  | .createGroup name memberIds => do let _ ← SplitwiseService.createGroup name memberIds
  | .addMember groupId userId => SplitwiseService.addMember groupId userId
  | .removeMember groupId userId => SplitwiseService.removeMember groupId userId
  | .addExpense args => do let _ ← SplitwiseService.addExpense args
  | .deleteExpense expenseId => SplitwiseService.deleteExpense expenseId
  | .recordPayment fromUser toUser amount groupId => do
      let _ ← SplitwiseService.recordPayment fromUser toUser amount groupId

/-- How a call ended. -/
abbrev Outcome : Type := Except PyError Unit

/-- One call: a caller that gets an exception can go on with the state it left. -/
def step (s : SplitwiseService) (op : Op) : Except Empty (Outcome × SplitwiseService) :=
  match op.call s with
  | .ok _ s' => .ok (.ok (), s')
  | .error e s' => .ok (.error e, s')

end SplitwiseService

end InterviewPrep.Splitwise
