/-
  Money at the boundary of the expense sharing service (splitwise_expense.py): `MoneyLike` values,
  `to_money`, `to_cents`, `from_cents`.  Money is a `Decimal` quantized to cents in Python's
  default context of 28 digits.  What passes `to_money` is `money c` for a whole number of cents
  `c` of at most 28 digits, and on such values the conversions are exact.

  `allocate`, the largest-remainder method, and the four split strategies with their factory,
  which turn an amount, the participants and the values given per participant into shares.

  Ledger entries (`Expense`, `Payment`) without their creation times, which no operation reads,
  the running `BalanceSheet` and `Group`.
-/
import InterviewPrep.Lib.Decimal
import InterviewPrep.Lib.Dict
import Mathlib.Data.List.Sort
import Mathlib.Data.Prod.Lex
import Mathlib.Data.Rat.Floor

namespace InterviewPrep.Splitwise

open Lib Decimal

/-! ## Exceptions -/

/-- The exceptions the service can raise. -/
inductive PyError where
  | typeError (message : String)
  | valueError (message : String)
  | keyError (key : String)
  | stopIteration
  | overflowError (message : String)
  /-- `decimal.InvalidOperation` -/
  | invalidOperation
  | splitwiseError (message : String)
  | notFoundError (message : String)
  | invalidSplitError (message : String)
  /-- stands for a loop that does not end within its bound -/
  | diverges

/-- The value of an operation of the `decimal` module that may be invalid. -/
def orInvalid {α : Type} : Option α → Except PyError α
  | some a => .ok a
  | none => .error .invalidOperation

/-! ## MoneyLike -/

/-- A `Decimal`, `int` or `str`; a string is known by its `repr` and what `Decimal(...)` reads from
    it. -/
inductive Numeral where
  | decimal (d : Number)
  | int (n : Int)
  | str (repr : String) (read : Option Number)

/-- `Decimal(value)`. -/
def Numeral.toDecimal : Numeral → Except PyError Number
  | .decimal d => .ok d
  | .int n => .ok (.finite (.ofInt n))
  | .str _ read => orInvalid read

def Numeral.repr : Numeral → String
  | .decimal d => s!"Decimal('{d}')"
  | .int n => toString n
  | .str repr _ => repr

/-- What a caller can pass for money, also the floats and bools that the code refuses. -/
inductive MoneyLike where
  | float
  | bool
  | numeral (n : Numeral)

/-- The value unless `isinstance(v, (float, bool))`. -/
def MoneyLike.numeral? : MoneyLike → Option Numeral
  | .numeral n => some n
  | _ => none

/-! ## Conversions -/

/-- The precision of the default context. -/
def prec : Nat := 28

/-- The exponent of `CENT`. -/
def cent : Int := -2

/-- Parse a money amount.  Rejects floats and sub-cent precision. -/
def toMoney (value : MoneyLike) : Except PyError Decimal :=
  match value with
  | .float => .error (.typeError "money must be Decimal, int or str, not float")
  | .bool => .error (.typeError "money must be Decimal, int or str, not bool")
  | .numeral n => do
      match ← n.toDecimal with
      | .finite amount =>
        let quantized ← orInvalid (amount.quantize prec cent)
        if amount.toRat ≠ quantized.toRat then
          throw (.valueError s!"invalid money amount: {n.repr}")
        return quantized
      | _ => throw (.valueError s!"invalid money amount: {n.repr}")

def toCents (amount : Decimal) : Int := (Decimal.mul prec amount (.ofInt 100)).truncate

def fromCents (cents : Int) : Decimal := (Decimal.ofInt cents).scaleb prec (-2)

/-! ## Exact money -/

/-- `c` cents. -/
def money (c : Int) : Decimal := ⟨c, cent⟩

/-- The amount in cents fits the context. -/
def InRange (c : Int) : Prop := c.natAbs < 10 ^ prec

instance (c : Int) : Decidable (InRange c) := inferInstanceAs (Decidable (_ < _))

theorem inRange_zero : InRange 0 := by decide

variable {c : Int}

theorem InRange.neg (h : InRange c) : InRange (-c) := by
  rw [InRange, Int.natAbs_neg]
  exact h

theorem InRange.of_le {a : Int} (h : InRange c) (ha : a.natAbs ≤ c.natAbs) : InRange a :=
  lt_of_le_of_lt ha h

theorem InRange.lt (h : InRange c) : c < 10 ^ prec := by
  rw [InRange] at h
  zify at h
  exact (le_abs_self c).trans_lt h

@[simp] theorem money_coeff (c : Int) : (money c).coeff = c := rfl

theorem toMoney_isMoney {value : MoneyLike} {d : Decimal} (h : toMoney value = .ok d) :
    d = money d.coeff ∧ InRange d.coeff := by
  cases value with
  | float => cases h
  | bool => cases h
  | numeral n =>
  simp only [toMoney, bind, Except.bind] at h
  cases hn : n.toDecimal with
  | error => rw [hn] at h; cases h
  | ok x =>
  rw [hn] at h
  cases x with
  | infinity | nan => cases h
  | finite amount =>
  simp only at h
  cases hq : amount.quantize prec cent with
  | none => rw [hq] at h; cases h
  | some =>
    rw [hq] at h
    simp only [orInvalid] at h
    split at h
    · cases h
    · cases h
      obtain ⟨hexp, hlt⟩ := quantize_some hq
      refine ⟨?_, hlt⟩
      rw [money, ← hexp]

theorem toMoney_money (h : InRange c) :
    toMoney (.numeral (.decimal (.finite (money c)))) = .ok (money c) := by
  have hq : (money c).quantize prec cent = some (money c) := quantize_of_lt h
  simp [toMoney, Numeral.toDecimal, hq, orInvalid, bind, Except.bind, pure, Except.pure]

theorem toCents_money (h : InRange c) : toCents (money c) = c := by
  have hmul : Decimal.mul prec (money c) (.ofInt 100) = Decimal.fix prec ⟨10 ^ 2 * c, -2⟩ := by
    simp only [Decimal.mul, money, Decimal.ofInt, cent]
    congr 2
    ring
  refine truncate_of_toRat ?_
  rw [hmul, toRat_fix_of_mul 2 (-2) h, toRat_mk_mul]
  simp [Decimal.toRat]

theorem fromCents_of_inRange (h : InRange c) : fromCents c = money c := by
  simp only [fromCents, Decimal.scaleb, Decimal.ofInt]
  exact fix_of_lt h

/-! ## Largest remainder -/

/-- `any(w < 0 for w in weights)`. -/
def anyNegative : List Number → Except PyError Bool
  | [] => .ok false
  | w :: weights => do
      if ← orInvalid w.isNegative then return true
      anyNegative weights

/-- `Fraction(w)`. -/
def fraction : Number → Except PyError ℚ
  | .finite d => .ok d.toRat
  | .infinity _ => .error (.overflowError "cannot convert Infinity to integer ratio")
  | .nan => .error (.valueError "cannot convert NaN to integer ratio")

/-- The exact pro-rata amounts. -/
def exactShares (totalCents : Int) (weights : List ℚ) : List ℚ :=
  weights.map fun w => totalCents * w / weights.sum

/-- The positions, largest fractional remainder first, ties broken by position. -/
def byRemainder (exact : List ℚ) : List Nat :=
  let key := fun i => toLex (-Int.fract (exact.getD i 0), i)
  (List.range exact.length).insertionSort (key · ≤ key ·)

/-- Floor the exact amounts and give the leftover cents to the largest remainders. -/
def apportion (totalCents : Int) (weights : List ℚ) : List Int :=
  let exact := exactShares totalCents weights
  let floors := exact.map Int.floor
  let leftover := totalCents - floors.sum
  -- the floors never exceed the total, so the slice `[:leftover]` is a `take`
  ((byRemainder exact).take leftover.toNat).foldl (fun floors i => floors.modify i (· + 1)) floors

/-- Split `totalCents` in proportion to `weights`. -/
def allocate (totalCents : Int) (weights : List Number) : Except PyError (List Int) := do
  if weights = [] then
    throw (.valueError "need at least one participant")
  if ← anyNegative weights then
    throw (.valueError "weights must be non-negative")
  let weights ← weights.mapM fraction
  if weights.sum = 0 then
    throw (.valueError "weights must not all be zero")
  return apportion totalCents weights

/-! ## Split strategies -/

inductive SplitType where
  | equal
  | exact
  | percentage
  | share

/-- One value per participant, parsed and non-negative. -/
def requireValues (participantIds : List String) (values : Option (List MoneyLike)) :
    Except PyError (List Number) := do
  let some values := values
    | throw (.invalidSplitError "need exactly one value per participant")
  if values.length ≠ participantIds.length then
    throw (.invalidSplitError "need exactly one value per participant")
  let some numerals := values.mapM MoneyLike.numeral?
    | throw (.invalidSplitError "split values must be Decimal, int or str, not float")
  let parsed ← numerals.mapM Numeral.toDecimal
  if ← anyNegative parsed then
    throw (.invalidSplitError "split values must be non-negative")
  return parsed

def proportional (amount : Decimal) (participantIds : List String) (weights : List Number) :
    Except PyError (Dict String Decimal) := do
  let cents ← allocate (toCents amount) weights
  return Dict.ofList (participantIds.zip (cents.map fromCents))

/-- `SplitStrategy.calculate_shares`. -/
abbrev CalculateShares : Type :=
  Decimal → List String → Option (List MoneyLike) → Except PyError (Dict String Decimal)

def equalSplit : CalculateShares := fun amount participantIds values => do
  if values.isSome then
    throw (.invalidSplitError "equal split takes no values")
  proportional amount participantIds
    (List.replicate participantIds.length (.finite (.ofInt 1)))

def exactSplit : CalculateShares := fun amount participantIds values => do
  let parsed ← requireValues participantIds values
  let exact ← parsed.mapM fun v => toMoney (.numeral (.decimal v))
  let total := Decimal.sum prec exact
  if total.toRat ≠ amount.toRat then
    throw (.invalidSplitError s!"exact amounts sum to {total}, expected {amount}")
  return Dict.ofList (participantIds.zip exact)

def percentageSplit : CalculateShares := fun amount participantIds values => do
  let percents ← requireValues participantIds values
  let total ← orInvalid (Number.sum prec percents)
  if !total.eqInt 100 then
    throw (.invalidSplitError s!"percentages sum to {total}, expected 100")
  proportional amount participantIds percents

/-- Ratio split, e.g. 2:1:1 for a couple and two singles. -/
def shareSplit : CalculateShares := fun amount participantIds values => do
  let ratios ← requireValues participantIds values
  let total ← orInvalid (Number.sum prec ratios)
  if total.eqInt 0 then
    throw (.invalidSplitError "at least one share must be positive")
  proportional amount participantIds ratios

/-- `SplitStrategyFactory.get`; every split type has a strategy. -/
def splitStrategy : SplitType → CalculateShares
  | .equal => equalSplit
  | .exact => exactSplit
  | .percentage => percentageSplit
  | .share => shareSplit

/-! ## Entries -/

structure User where
  userId : String
  name : String
  email : String

inductive ExpenseCategory where
  | food
  | travel
  | entertainment
  | bills
  | shopping
  | other

/-- `Expense`; `__post_init__` refuses shares that do not sum to the amount. -/
structure Expense where
  expenseId : String
  description : String
  amount : Decimal
  paidBy : String
  splitType : SplitType
  shares : Dict String Decimal
  category : ExpenseCategory
  groupId : Option String
  shares_sum : (Decimal.sum prec shares.values).toRat = amount.toRat

def Expense.create (expenseId description : String) (amount : Decimal) (paidBy : String)
    (splitType : SplitType) (shares : Dict String Decimal) (category : ExpenseCategory)
    (groupId : Option String) : Except PyError Expense :=
  if h : (Decimal.sum prec shares.values).toRat = amount.toRat then
    .ok ⟨expenseId, description, amount, paidBy, splitType, shares, category, groupId, h⟩
  else .error (.invalidSplitError "shares must sum to the expense amount")

/-- A settle-up: `fromUser` hands `toUser` real money outside the app. -/
structure Payment where
  paymentId : String
  fromUser : String
  toUser : String
  amount : Decimal
  groupId : Option String

/-! ## Balance sheet -/

/-- Running net balance per user.  Positive = is owed, negative = owes. -/
structure BalanceSheet where
  net : Dict String Decimal

namespace BalanceSheet

def new : BalanceSheet := ⟨Dict.empty⟩

def balanceOf (b : BalanceSheet) (userId : String) : Decimal :=
  (b.net.get? userId).getD (money 0)

/-- `_add`: an entry that becomes zero is removed. -/
def add (b : BalanceSheet) (userId : String) (delta : Decimal) : BalanceSheet :=
  let value := Decimal.add prec (b.balanceOf userId) delta
  if value.toRat = 0 then ⟨b.net.erase userId⟩ else ⟨b.net.set userId value⟩

def applyExpense (b : BalanceSheet) (expense : Expense) (sign : Int) : BalanceSheet :=
  let b := b.add expense.paidBy (Decimal.mul prec (.ofInt sign) expense.amount)
  expense.shares.items.foldl (fun b x => b.add x.1 (Decimal.mul prec (.ofInt (-sign)) x.2)) b

def applyPayment (b : BalanceSheet) (payment : Payment) : BalanceSheet :=
  (b.add payment.fromUser payment.amount).add payment.toUser (Decimal.neg prec payment.amount)

def snapshot (b : BalanceSheet) : Dict String Decimal := b.net

end BalanceSheet

/-! ## Groups -/

structure Group where
  groupId : String
  name : String
  memberIds : List String
  ledger : BalanceSheet

namespace Group

def new (groupId name : String) : Group := ⟨groupId, name, [], .new⟩

def isMember (g : Group) (userId : String) : Bool := userId ∈ g.memberIds

def addMember (g : Group) (userId : String) : Group :=
  if userId ∈ g.memberIds then g else { g with memberIds := g.memberIds ++ [userId] }

def removeMember (g : Group) (userId : String) : Except PyError Group :=
  if (g.ledger.balanceOf userId).toRat ≠ 0 then
    .error (.splitwiseError "cannot remove a member with a non-zero balance")
  else if userId ∈ g.memberIds then .ok { g with memberIds := g.memberIds.erase userId }
  else .error (.valueError "list.remove(x): x not in list")

end Group

end InterviewPrep.Splitwise
