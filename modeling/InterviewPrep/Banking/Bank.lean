/-
  Accounts, transactions and cards (atm_banking.py).  Money is a number of cents, a date is
  a number of days.

  `Bank` (atm_banking.py) as a machine.  Any number of calls are under way; a step runs one
  of them up to the next lock that it takes, or through the block under the account locks.
  The clock moves between steps.
-/
import InterviewPrep.Lib.Dict
import InterviewPrep.Lib.Run
import Mathlib.Algebra.Order.Group.Int

namespace InterviewPrep.Banking

open Lib

/-- The number in an id, `TX0001`. -/
abbrev TxId := Nat

/-! ## Transactions -/

inductive TransactionType where
  | withdrawal
  | deposit
  | transferOut
  | transferIn
deriving DecidableEq

inductive TransactionStatus where
  /-- authorized, funds held -/
  | pending
  | completed
  /-- hold released, no money moved -/
  | reversed
deriving DecidableEq

/-- `_TRANSITIONS` -/
def TransactionStatus.transitions : TransactionStatus → List TransactionStatus
  | pending => [completed, reversed]
  | completed => []
  | reversed => []

inductive BankError where
  | value (reason : String)
  | bank (reason : String)
  | notFound (what : String)
  | insufficientFunds (requested available : Int)
  | limitExceeded (limit used : Int)
  | card (reason : String)
  | cardBlocked
  | inFlight (request : String)
  | reused (request : String)
  | invalidTransition (tx : TxId) (source target : TransactionStatus)
deriving DecidableEq

structure Transaction where
  txId : TxId
  requestId : String
  accountNumber : String
  txType : TransactionType
  amount : Int
  status : TransactionStatus
  businessDate : Int
  cardNumber : Option String := none
  counterparty : Option String := none

def Transaction.moveTo (tx : Transaction) (status : TransactionStatus) :
    Except BankError Transaction :=
  if status ∉ tx.status.transitions then .error (.invalidTransition tx.txId tx.status status)
  else .ok { tx with status }

/-! ## Accounts -/

/-- `SavingsAccount`, `CheckingAccount` and `CreditAccount`, each with its limit. -/
inductive AccountKind where
  | savings (minBalance : Int)
  | checking (overdraftLimit : Int)
  | credit (creditLimit : Int)

structure Account where
  customerId : String
  kind : AccountKind
  balance : Int
  /-- authorized, not yet captured -/
  held : Int

namespace Account

variable (account : Account)

/-- The largest amount that may leave the account. -/
def withdrawable : Int :=
  match account.kind with
  | .savings minBalance => max 0 (account.balance - account.held - minBalance)
  | .checking overdraftLimit => max 0 (account.balance - account.held + overdraftLimit)
  | .credit creditLimit => max 0 (creditLimit + account.balance - account.held)

/-- `_require` -/
def require (amount : Int) : Except BankError Unit :=
  if account.withdrawable < amount then .error (.insufficientFunds amount account.withdrawable)
  else .ok ()

/-- `_hold` -/
def hold (amount : Int) : Except BankError Account :=
  match account.require amount with
  | .error e => .error e
  | .ok () => .ok { account with held := account.held + amount }

/-- `_release_hold` -/
def releaseHold (amount : Int) : Account := { account with held := account.held - amount }

/-- `_capture_hold` -/
def captureHold (amount : Int) : Account :=
  { account with held := account.held - amount, balance := account.balance - amount }

/-- `_debit` -/
def debit (amount : Int) : Except BankError Account :=
  match account.require amount with
  | .error e => .error e
  | .ok () => .ok { account with balance := account.balance - amount }

/-- `_credit` -/
def deposit (amount : Int) : Account := { account with balance := account.balance + amount }

/-- What no debit or hold may go below. -/
def floor : Int :=
  match account.kind with
  | .savings minBalance => minBalance
  | .checking overdraftLimit => -overdraftLimit
  | .credit creditLimit => -creditLimit

def free : Int := account.balance - account.held

end Account

variable {account : Account} {amount : Int}

theorem Account.le_withdrawable (h : account.require amount = .ok ()) :
    amount ≤ account.withdrawable := by
  unfold require at h
  split at h
  next => cases h
  next hle => exact Int.not_lt.mp hle

theorem Account.floor_le (hpos : 0 < amount) (h : account.require amount = .ok ()) :
    account.floor ≤ account.free - amount := by
  have hle := le_withdrawable h
  unfold withdrawable at hle
  unfold floor free
  cases hkind : account.kind <;> simp only [hkind] at hle ⊢ <;> omega

variable {account' : Account}

theorem Account.hold_ok (h : account.hold amount = .ok account') :
    account.require amount = .ok () ∧
    account' = { account with held := account.held + amount } := by
  unfold hold at h
  cases hrequire : account.require amount with
  | error =>
    rw [hrequire] at h
    cases h
  | ok =>
    rw [hrequire] at h
    cases h
    exact ⟨rfl, rfl⟩

theorem Account.debit_ok (h : account.debit amount = .ok account') :
    account.require amount = .ok () ∧
      account' = { account with balance := account.balance - amount } := by
  unfold debit at h
  cases hrequire : account.require amount with
  | error =>
    rw [hrequire] at h
    cases h
  | ok =>
    rw [hrequire] at h
    cases h
    exact ⟨rfl, rfl⟩

theorem Transaction.moveTo_ok {tx tx' : Transaction} {status : TransactionStatus}
    (h : tx.moveTo status = .ok tx') : tx.status = .pending ∧ tx' = { tx with status } := by
  unfold moveTo at h
  split at h
  next => cases h
  next hmem =>
    cases h
    refine ⟨?_, rfl⟩
    cases hstatus : tx.status <;> simp [hstatus, TransactionStatus.transitions] at hmem ⊢

/-! ## Cards -/

structure Card where
  customerId : String
  /-- the last day on which it is valid -/
  expiry : Int
  dailyLimit : Int
  blocked : Bool

/-! ## Calls -/

/-- What a request id stands for: the method and its arguments. -/
inductive Operation where
  | withdraw (card account : String) (value : Int)
  | deposit (account : String) (value : Int)
  | transfer (source target : String) (value : Int)
deriving DecidableEq

/-- The transactions that a request recorded. -/
inductive Receipt where
  | single (tx : TxId)
  | legs (out into : TxId)
deriving DecidableEq

/-- An entry of `_requests` -/
inductive RequestState where
  | inFlight
  | done (operation : Operation) (receipt : Receipt)

/-- Where a call that has not ended stands. -/
inductive Call where
  /-- `authorize_withdrawal`, before the card is validated -/
  | validating (request card account : String) (value : Int)
  /-- before the account is looked up and the date is read -/
  | locating (request card account : String) (value : Int)
  /-- before the limits lock, with the date of the reservation -/
  | reserving (request card account : String) (value day : Int)
  /-- before the account lock -/
  | holding (request card account : String) (value day : Int)
  /-- declined, before the limits lock -/
  | releasing (request card account : String) (value day : Int) (error : BankError)
  /-- `deposit`, before the account lock -/
  | crediting (request account : String) (value : Int)
  /-- `transfer`, before the account locks -/
  | moving (request source target : String) (value : Int)
  /-- `_idempotent`, with the result of the run -/
  | settling (request : String) (operation : Operation) (receipt : Receipt)
  /-- `_idempotent`, with what the run raised -/
  | aborting (request : String) (error : BankError)
  /-- `capture`, before the account lock -/
  | capturing (tx : TxId)
  /-- `reverse`, before the account lock -/
  | reversing (tx : TxId)
  /-- reversed, before the limits lock, with what is given back -/
  | returning (tx : TxId) (card : String) (day value : Int)
deriving DecidableEq

/-- What a call returns. -/
inductive Answer where
  | receipt (receipt : Receipt)
  | transaction (tx : TxId)

inductive BankEvent where
  | ticked
  | waiting
  | returned (answer : Answer)
  | failed (error : BankError)

/-- There is no such call. -/
inductive NoStep where
  | notEnabled

/-! ## The bank -/

structure Bank where
  /-- the clock -/
  today : Int
  /-- the next number of `_ids` -/
  ids : Nat
  accounts : Dict String Account
  cards : Dict String Card
  transactions : Dict TxId Transaction
  requests : Dict String RequestState
  /-- (card, day) -> amount -/
  withdrawnToday : Dict (String × Int) Int
  calls : Dict Nat Call

namespace Bank

/-- A bank with its accounts opened and its cards issued. -/
def opened (accounts : Dict String Account) (cards : Dict String Card) (ids : Nat) (today : Int) :
    Bank :=
  ⟨today, ids, accounts.mapValues fun a => { a with held := 0 }, cards, Dict.empty, Dict.empty,
    Dict.empty, Dict.empty⟩

abbrev Result := Except NoStep (BankEvent × Bank)

variable (s : Bank)

/-- The call goes on at `next`. -/
def goOn (call : Nat) (next : Call) : Result :=
  .ok (.waiting, { s with calls := s.calls.set call next })

/-- The call ends. -/
def finish (call : Nat) (event : BankEvent) : Result :=
  .ok (event, { s with calls := s.calls.erase call })

/-- The amount that is withdrawn with a card on a day, so far. -/
def withdrawn (key : String × Int) : Int := (s.withdrawnToday.get? key).getD 0

/-- `_reserve_daily`; without a limit it is infinite. -/
def reserveDaily (key : String × Int) (delta : Int) (limit : Option Int) : Except BankError Bank :=
  let used := s.withdrawn key
  match limit.filter fun limit => 0 < delta ∧ limit < used + delta with
  | some limit => .error (.limitExceeded limit used)
  | none => .ok { s with withdrawnToday := s.withdrawnToday.set key (used + delta) }

/-- `_record` -/
def record (request account : String) (txType : TransactionType) (amount : Int)
    (status : TransactionStatus) (card counterparty : Option String) : Bank :=
  { s with
    ids := s.ids + 1
    transactions := s.transactions.set s.ids
      ⟨s.ids, request, account, txType, amount, status, s.today, card, counterparty⟩ }

def putAccount (number : String) (account : Account) : Bank :=
  { s with accounts := s.accounts.set number account }

/-- `validate_card` -/
def validateCard (card : String) : Except BankError Card :=
  match s.cards.get? card with
  | none => .error (.card "unknown card")
  | some c =>
    if c.blocked then .error .cardBlocked
    else if c.expiry < s.today then .error (.card "card expired")
    else .ok c

/-- `_idempotent` up to the run. -/
def claim (call : Nat) (request : String) (operation : Operation) (next : Call) : Result :=
  match s.requests.get? request with
  | some .inFlight => .ok (.failed (.inFlight request), s)
  | some (.done seen receipt) =>
    if seen ≠ operation then .ok (.failed (.reused request), s)
    else .ok (.returned (.receipt receipt), s)
  | none =>
    .ok (.waiting, { s with
      requests := s.requests.set request .inFlight, calls := s.calls.set call next })

/-- `positive_money`, and what follows. -/
def withPositive (amount : Int) (k : Result) : Result :=
  if amount ≤ 0 then .ok (.failed (.value "amount must be positive"), s) else k

/-! ## Authorizing -/

/-- `run` of `authorize_withdrawal`, the card. -/
def validate (call : Nat) (request card account : String) (value : Int) : Result :=
  match s.validateCard card with
  | .error e => s.goOn call (.aborting request e)
  | .ok _ => s.goOn call (.locating request card account value)

/-- The account, its owner and the date. -/
def locate (call : Nat) (request card account : String) (value : Int) : Result :=
  match s.cards.get? card, s.accounts.get? account with
  | none, _ => .error .notEnabled
  | some _, none => s.goOn call (.aborting request (.notFound account))
  | some c, some a =>
    if a.customerId ≠ c.customerId then
      s.goOn call (.aborting request (.card "card holder does not own this account"))
    else s.goOn call (.reserving request card account value s.today)

/-- The daily limit. -/
def reserve (call : Nat) (request card account : String) (value day : Int) : Result :=
  match s.cards.get? card with
  | none => .error .notEnabled
  | some c =>
    match s.reserveDaily (card, day) value (some c.dailyLimit) with
    | .error e => s.goOn call (.aborting request e)
    | .ok t => t.goOn call (.holding request card account value day)

def holdLocked (call : Nat) (request card account : String) (value day : Int) : Result :=
  match s.accounts.get? account with
  | none => .error .notEnabled
  | some a =>
    match a.hold value with
    | .error e => s.goOn call (.releasing request card account value day e)
    | .ok a =>
      ((s.putAccount account a).record request account .withdrawal value .pending
        (some card) none).goOn call
        (.settling request (.withdraw card account value) (.single s.ids))

/-- The reservation of a declined withdrawal is given back. -/
def release (call : Nat) (request card : String) (value day : Int) (error : BankError) : Result :=
  match s.cards.get? card with
  | none => .error .notEnabled
  | some c =>
    match s.reserveDaily (card, day) (-value) (some c.dailyLimit) with
    | .error e => s.goOn call (.aborting request e)
    | .ok t => t.goOn call (.aborting request error)

/-! ## Capture and reversal -/

/-- `transaction`, and what follows. -/
def lookUp (tx : TxId) (k : Result) : Result :=
  match s.transactions.get? tx with
  | none => .ok (.failed (.notFound "transaction"), s)
  | some _ => k

/-- `capture` under the account lock. -/
def captureLocked (call : Nat) (tx : TxId) : Result :=
  match s.transactions.get? tx with
  | none => .error .notEnabled
  | some t =>
    match s.accounts.get? t.accountNumber with
    | none => s.finish call (.failed (.notFound t.accountNumber))
    | some a =>
      if t.status = .completed then s.finish call (.returned (.transaction tx))
      else
        match t.moveTo .completed with
        | .error e => s.finish call (.failed e)
        | .ok t' =>
          ({ s with transactions := s.transactions.set tx t' }.putAccount t.accountNumber
            (a.captureHold t.amount)).finish call (.returned (.transaction tx))

/-- `reverse` under the account lock. -/
def reverseLocked (call : Nat) (tx : TxId) : Result :=
  match s.transactions.get? tx with
  | none => .error .notEnabled
  | some t =>
    match s.accounts.get? t.accountNumber with
    | none => s.finish call (.failed (.notFound t.accountNumber))
    | some a =>
      if t.status = .reversed then s.finish call (.returned (.transaction tx))
      else
        match t.moveTo .reversed with
        | .error e => s.finish call (.failed e)
        | .ok t' =>
          ({ s with transactions := s.transactions.set tx t' }.putAccount t.accountNumber
            (a.releaseHold t.amount)).goOn call
            (.returning tx (t.cardNumber.getD "") t.businessDate t.amount)

/-- The reservation of a reversed withdrawal is given back, under its business date. -/
def giveBack (call : Nat) (tx : TxId) (card : String) (day value : Int) : Result :=
  match s.reserveDaily (card, day) (-value) none with
  | .error e => s.finish call (.failed e)
  | .ok t => t.finish call (.returned (.transaction tx))

/-! ## Deposits and transfers -/

/-- `run` of `deposit` -/
def credit (call : Nat) (request account : String) (value : Int) : Result :=
  match s.accounts.get? account with
  | none => s.goOn call (.aborting request (.notFound account))
  | some a =>
    ((s.putAccount account (a.deposit value)).record request account .deposit value .completed
      none none).goOn call (.settling request (.deposit account value) (.single s.ids))

/-- `run` of `transfer`; some time passes between its two transactions. -/
def move (call : Nat) (request source target : String) (value : Int) (elapsed : Nat) : Result :=
  match s.accounts.get? source, s.accounts.get? target with
  | none, _ => s.goOn call (.aborting request (.notFound source))
  | some _, none => s.goOn call (.aborting request (.notFound target))
  | some a, some b =>
    match a.debit value with
    | .error e => s.goOn call (.aborting request e)
    | .ok a =>
      let out := ((s.putAccount source a).putAccount target (b.deposit value)).record request
        source .transferOut value .completed none (some target)
      ({ out with today := out.today + elapsed }.record request target .transferIn value
        .completed none (some source)).goOn call
        (.settling request (.transfer source target value) (.legs s.ids (s.ids + 1)))

/-! ## The end of a request -/

/-- `_idempotent`, the result is remembered. -/
def settle (call : Nat) (request : String) (operation : Operation) (receipt : Receipt) : Result :=
  { s with requests := s.requests.set request (.done operation receipt) }.finish call
    (.returned (.receipt receipt))

/-- `_idempotent`, the claim of a failed run is given up. -/
def abort (call : Nat) (request : String) (error : BankError) : Result :=
  { s with requests := s.requests.erase request }.finish call (.failed error)

end Bank

/-! ## The machine -/

inductive BankStep where
  | tick (elapsed : Nat)
  | authorizeWithdrawal (call : Nat) (card account : String) (amount : Int) (request : String)
  | capture (call : Nat) (tx : TxId)
  | reverse (call : Nat) (tx : TxId)
  | deposit (call : Nat) (account : String) (amount : Int) (request : String)
  | transfer (call : Nat) (source target : String) (amount : Int) (request : String)
  /-- a call goes on; `elapsed` passes while it records its second transaction -/
  | resume (call elapsed : Nat)

namespace Bank

variable (s : Bank)

/-- What a call does next. -/
def resume (call elapsed : Nat) : Call → Result
  | .validating request card account value => s.validate call request card account value
  | .locating request card account value => s.locate call request card account value
  | .reserving request card account value day => s.reserve call request card account value day
  | .holding request card account value day => s.holdLocked call request card account value day
  | .releasing request card _ value day error => s.release call request card value day error
  | .crediting request account value => s.credit call request account value
  | .moving request source target value => s.move call request source target value elapsed
  | .settling request operation receipt => s.settle call request operation receipt
  | .aborting request error => s.abort call request error
  | .capturing tx => s.captureLocked call tx
  | .reversing tx => s.reverseLocked call tx
  | .returning tx card day value => s.giveBack call tx card day value

/-- A new call has a new number. -/
def start (call : Nat) (r : Result) : Result :=
  if (s.calls.get? call).isNone then r else .error .notEnabled

def step (s : Bank) : BankStep → Result
  | .tick elapsed => .ok (.ticked, { s with today := s.today + elapsed })
  | .authorizeWithdrawal call card account amount request =>
    s.start call (s.withPositive amount
      (s.claim call request (.withdraw card account amount)
        (.validating request card account amount)))
  | .capture call tx => s.start call (s.lookUp tx (s.goOn call (.capturing tx)))
  | .reverse call tx => s.start call (s.lookUp tx (s.goOn call (.reversing tx)))
  | .deposit call account amount request =>
    s.start call (s.withPositive amount
      (s.claim call request (.deposit account amount) (.crediting request account amount)))
  | .transfer call source target amount request =>
    s.start call (s.withPositive amount
      (if source = target then .ok (.failed (.bank "cannot transfer to the same account"), s)
      else s.claim call request (.transfer source target amount)
        (.moving request source target amount)))
  | .resume call elapsed =>
    match s.calls.get? call with
    | none => .error .notEnabled
    | some c => s.resume call elapsed c

end Bank

end InterviewPrep.Banking
