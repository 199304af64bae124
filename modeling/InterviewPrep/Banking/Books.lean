/-
  What one step of the bank does, once (`step_cases`).  Every invariant of the bank goes
  through the cases of `Stepped`; none of them unfolds the machine again.

  The books of the bank.  In every run what an account holds is the sum of its pending
  withdrawals, and its balance is what its transactions make of the opening balance
  (`Booked`); a request records at most one operation (`Claimed`); and what may leave an
  account never falls below its floor.
-/
import InterviewPrep.Banking.Bank
import InterviewPrep.Lib.Totals

namespace InterviewPrep.Banking

open Lib Account Dict Option

namespace Call

/-- The request that the call has claimed. -/
def request : Call → Option String
  | validating r _ _ _ | locating r _ _ _ | reserving r _ _ _ _ | holding r _ _ _ _
  | releasing r _ _ _ _ _ | crediting r _ _ | moving r _ _ _ | settling r _ _ | aborting r _ =>
    some r
  | capturing _ | reversing _ | returning _ _ _ _ => none

/-- The effect of the request has been taken. -/
def taken : Call → Bool
  | settling _ _ _ => true
  | _ => false

/-- What the call has reserved and not recorded, or is to give back. -/
def pledge : Call → Option ((String × Int) × Int)
  | holding _ card _ value day | releasing _ card _ value day _ | returning _ card day value =>
    some ((card, day), value)
  | _ => none

/-- The amounts of a call are positive, and a transfer has two accounts. -/
def Ok : Call → Prop
  | validating _ _ _ value | locating _ _ _ value | reserving _ _ _ value _
  | holding _ _ _ value _ | releasing _ _ _ value _ _ | crediting _ _ value
  | returning _ _ _ value => 0 < value
  | moving _ source target value => 0 < value ∧ source ≠ target
  | _ => True

end Call

namespace Bank

variable {s s' : Bank} {a : BankStep} {event : BankEvent}

/-- What a step does. -/
inductive Stepped (s : Bank) (a : BankStep) : Bank → Prop
  | same : Stepped s a s
  | ticked (elapsed : Nat) : Stepped s a { s with today := s.today + elapsed }
  | claimed (call : Nat) (next : Call) (request : String) (hnew : s.calls.get? call = none)
      (hrequest : next.request = some request) (hfree : s.requests.get? request = none)
      (huntaken : next.taken = false) (hpledge : next.pledge = none) (hok : next.Ok) :
      Stepped s a { s with
        requests := s.requests.set request .inFlight, calls := s.calls.set call next }
  /-- a new call without a request -/
  | began (call : Nat) (next : Call) (hnew : s.calls.get? call = none)
      (hrequest : next.request = none) (hpledge : next.pledge = none) (hok : next.Ok) :
      Stepped s a { s with calls := s.calls.set call next }
  /-- a call goes on and keeps what it has -/
  | wentOn (call : Nat) (c next : Call) (hcall : s.calls.get? call = some c)
      (hrequest : next.request = c.request) (htaken : next.taken = c.taken)
      (hpledge : next.pledge = c.pledge) (hok : c.Ok → next.Ok) :
      Stepped s a { s with calls := s.calls.set call next }
  /-- a call without a request or a pledge ends -/
  | ended (call : Nat) (c : Call) (hcall : s.calls.get? call = some c) (hrequest : c.request = none)
      (hpledge : c.pledge = none) : Stepped s a { s with calls := s.calls.erase call }
  | reserved (call : Nat) (request card account : String) (value day : Int) (c : Card)
      (hcall : s.calls.get? call = some (.reserving request card account value day))
      (hcard : s.cards.get? card = some c)
      (hlimit : 0 < value → s.withdrawn (card, day) + value ≤ c.dailyLimit) :
      Stepped s a { s with
        withdrawnToday := s.withdrawnToday.set (card, day) (s.withdrawn (card, day) + value)
        calls := s.calls.set call (.holding request card account value day) }
  | held (call : Nat) (request card number : String) (value day : Int) (account : Account)
      (hcall : s.calls.get? call = some (.holding request card number value day))
      (haccount : s.accounts.get? number = some account)
      (hrequire : account.require value = .ok ()) (ha : ∃ elapsed, a = .resume call elapsed) :
      Stepped s a { s with
        ids := s.ids + 1
        accounts := s.accounts.set number { account with held := account.held + value }
        transactions := s.transactions.set s.ids
          ⟨s.ids, request, number, .withdrawal, value, .pending, s.today, some card, none⟩
        calls := s.calls.set call
          (.settling request (.withdraw card number value) (.single s.ids)) }
  /-- a reservation is given back, by a call that goes on or ends -/
  | returned (call : Nat) (c : Call) (next : Option Call) (key : String × Int) (value : Int)
      (hcall : s.calls.get? call = some c) (hpledge : c.pledge = some (key, value))
      (hrequest : next.bind Call.request = c.request) (huntaken : c.taken = false)
      (hnext : ∀ c ∈ next, c.pledge = none ∧ c.taken = false ∧ c.Ok) :
      Stepped s a { s with
        withdrawnToday := s.withdrawnToday.set key (s.withdrawn key + -value)
        calls := s.calls.put call next }
  | captured (call : Nat) (tx : TxId) (t : Transaction) (account : Account)
      (hcall : s.calls.get? call = some (.capturing tx))
      (htx : s.transactions.get? tx = some t) (hpending : t.status = .pending)
      (haccount : s.accounts.get? t.accountNumber = some account) :
      Stepped s a { s with
        accounts := s.accounts.set t.accountNumber (account.captureHold t.amount)
        transactions := s.transactions.set tx { t with status := .completed }
        calls := s.calls.erase call }
  | reversed (call : Nat) (tx : TxId) (t : Transaction) (account : Account)
      (hcall : s.calls.get? call = some (.reversing tx))
      (htx : s.transactions.get? tx = some t) (hpending : t.status = .pending)
      (haccount : s.accounts.get? t.accountNumber = some account) :
      Stepped s a { s with
        accounts := s.accounts.set t.accountNumber (account.releaseHold t.amount)
        transactions := s.transactions.set tx { t with status := .reversed }
        calls := s.calls.set call
          (.returning tx (t.cardNumber.getD "") t.businessDate t.amount) }
  | credited (call : Nat) (request number : String) (value : Int) (account : Account)
      (hcall : s.calls.get? call = some (.crediting request number value))
      (haccount : s.accounts.get? number = some account) :
      Stepped s a { s with
        ids := s.ids + 1
        accounts := s.accounts.set number (account.deposit value)
        transactions := s.transactions.set s.ids
          ⟨s.ids, request, number, .deposit, value, .completed, s.today, none, none⟩
        calls := s.calls.set call (.settling request (.deposit number value) (.single s.ids)) }
  | moved (call elapsed : Nat) (request source target : String) (value : Int)
      (account other : Account)
      (hcall : s.calls.get? call = some (.moving request source target value))
      (haccount : s.accounts.get? source = some account)
      (hother : s.accounts.get? target = some other)
      (hrequire : account.require value = .ok ()) :
      Stepped s a { s with
        today := s.today + elapsed
        ids := s.ids + 1 + 1
        accounts := (s.accounts.set source { account with balance := account.balance - value }).set
          target (other.deposit value)
        transactions := (s.transactions.set s.ids
          ⟨s.ids, request, source, .transferOut, value, .completed, s.today, none,
            some target⟩).set (s.ids + 1)
          ⟨s.ids + 1, request, target, .transferIn, value, .completed, s.today + elapsed, none,
            some source⟩
        calls := s.calls.set call
          (.settling request (.transfer source target value) (.legs s.ids (s.ids + 1))) }
  | settled (call : Nat) (request : String) (operation : Operation) (receipt : Receipt)
      (hcall : s.calls.get? call = some (.settling request operation receipt)) :
      Stepped s a { s with
        requests := s.requests.set request (.done operation receipt), calls := s.calls.erase call }
  | aborted (call : Nat) (request : String) (error : BankError)
      (hcall : s.calls.get? call = some (.aborting request error)) :
      Stepped s a { s with requests := s.requests.erase request, calls := s.calls.erase call }

/-! ## The limits -/

variable {key : String × Int}

theorem reserveDaily_ok {delta : Int} {limit : Option Int} {t : Bank}
    (h : s.reserveDaily key delta limit = .ok t) :
    (0 < delta → ∀ l ∈ limit, s.withdrawn key + delta ≤ l) ∧
      t = { s with withdrawnToday := s.withdrawnToday.set key (s.withdrawn key + delta) } := by
  unfold reserveDaily at h
  dsimp only at h
  split at h
  next => cases h
  next hfilter =>
  cases h
  refine ⟨?_, rfl⟩
  intro hpos l hl
  rw [mem_def] at hl
  subst hl
  simp only [filter_some] at hfilter
  by_contra hlt
  simp [hpos, Int.not_le.mp hlt] at hfilter

theorem reserveDaily_back {value : Int} (hpos : 0 < value) (limit : Option Int) :
    s.reserveDaily key (-value) limit =
      .ok { s with withdrawnToday := s.withdrawnToday.set key (s.withdrawn key + -value) } := by
  have hfilter : (limit.filter fun l => 0 < -value ∧ l < s.withdrawn key + -value) = none := by
    cases limit with
    | none => rfl
    | some =>
      rw [filter_some, if_neg]
      simp only [decide_eq_true_eq, not_and]
      intro hneg
      omega
  unfold reserveDaily
  dsimp only
  rw [hfilter]

/-! ## The steps of a call -/

section

variable {call elapsed : Nat} {request card number source target : String} {value day : Int}
  {tx : TxId} {error : BankError}

variable {c next : Call}

theorem goOn_cases (hcall : s.calls.get? call = some c)
    (h : s.goOn call next = .ok (event, s')) (hrequest : next.request = c.request)
    (htaken : next.taken = c.taken) (hpledge : next.pledge = c.pledge) (hok : c.Ok → next.Ok) :
    Stepped s a s' := by
  cases h
  exact .wentOn call c next hcall hrequest htaken hpledge hok

theorem finish_cases {event' : BankEvent} (hcall : s.calls.get? call = some c)
    (h : s.finish call event' = .ok (event, s')) (hrequest : c.request = none)
    (hpledge : c.pledge = none) : Stepped s a s' := by
  cases h
  exact .ended call c hcall hrequest hpledge

theorem validate_cases (hcall : s.calls.get? call = some (.validating request card number value))
    (h : s.validate call request card number value = .ok (event, s')) : Stepped s a s' := by
  unfold validate at h
  split at h
  next => exact goOn_cases hcall h rfl rfl rfl fun _ => trivial
  next => exact goOn_cases hcall h rfl rfl rfl id

theorem locate_cases (hcall : s.calls.get? call = some (.locating request card number value))
    (h : s.locate call request card number value = .ok (event, s')) : Stepped s a s' := by
  unfold locate at h
  split at h
  next => cases h
  next => exact goOn_cases hcall h rfl rfl rfl fun _ => trivial
  next =>
    split at h
    next => exact goOn_cases hcall h rfl rfl rfl fun _ => trivial
    next => exact goOn_cases hcall h rfl rfl rfl id

theorem reserve_cases (hcall : s.calls.get? call = some (.reserving request card number value day))
    (h : s.reserve call request card number value day = .ok (event, s')) : Stepped s a s' := by
  unfold reserve at h
  split at h
  next => cases h
  next c hcard =>
  split at h
  next => exact goOn_cases hcall h rfl rfl rfl fun _ => trivial
  next hreserve =>
    obtain ⟨hlimit, rfl⟩ := reserveDaily_ok hreserve
    cases h
    exact .reserved call request card number value day c hcall hcard fun hpos => hlimit hpos _ rfl

theorem holdLocked_cases (hcall : s.calls.get? call = some (.holding request card number value day))
    (h : s.holdLocked call request card number value day = .ok (event, s'))
    (ha : a = .resume call elapsed) : Stepped s a s' := by
  unfold holdLocked at h
  split at h
  next => cases h
  next account haccount =>
  split at h
  next => exact goOn_cases hcall h rfl rfl rfl id
  next hhold =>
    obtain ⟨hrequire, rfl⟩ := hold_ok hhold
    cases h
    exact .held call request card number value day account hcall haccount hrequire ⟨elapsed, ha⟩

theorem release_cases (hok : 0 < value)
    (hcall : s.calls.get? call = some (.releasing request card number value day error))
    (h : s.release call request card value day error = .ok (event, s')) : Stepped s a s' := by
  unfold release at h
  split at h
  next => cases h
  next =>
    rw [reserveDaily_back hok] at h
    cases h
    refine .returned call _ (some (.aborting request error)) (card, day) value hcall rfl rfl rfl ?_
    rintro next ⟨⟩
    exact ⟨rfl, rfl, trivial⟩

theorem credit_cases (hcall : s.calls.get? call = some (.crediting request number value))
    (h : s.credit call request number value = .ok (event, s')) : Stepped s a s' := by
  unfold credit at h
  split at h
  next => exact goOn_cases hcall h rfl rfl rfl fun _ => trivial
  next account haccount =>
    cases h
    exact .credited call request number value account hcall haccount

theorem move_cases (hcall : s.calls.get? call = some (.moving request source target value))
    (h : s.move call request source target value elapsed = .ok (event, s')) : Stepped s a s' := by
  unfold move at h
  split at h
  next => exact goOn_cases hcall h rfl rfl rfl fun _ => trivial
  next => exact goOn_cases hcall h rfl rfl rfl fun _ => trivial
  next account other haccount hother =>
  split at h
  next => exact goOn_cases hcall h rfl rfl rfl fun _ => trivial
  next hdebit =>
    obtain ⟨hrequire, rfl⟩ := debit_ok hdebit
    cases h
    exact .moved call elapsed request source target value account other hcall haccount hother
      hrequire

theorem captureLocked_cases (hcall : s.calls.get? call = some (.capturing tx))
    (h : s.captureLocked call tx = .ok (event, s')) : Stepped s a s' := by
  unfold captureLocked at h
  split at h
  next => cases h
  next t htx =>
  split at h
  next => exact finish_cases hcall h rfl rfl
  next account haccount =>
  split at h
  next => exact finish_cases hcall h rfl rfl
  next =>
  split at h
  next => exact finish_cases hcall h rfl rfl
  next hmove =>
    obtain ⟨hpending, rfl⟩ := Transaction.moveTo_ok hmove
    cases h
    exact .captured call tx t account hcall htx hpending haccount

theorem reverseLocked_cases (hcall : s.calls.get? call = some (.reversing tx))
    (h : s.reverseLocked call tx = .ok (event, s')) : Stepped s a s' := by
  unfold reverseLocked at h
  split at h
  next => cases h
  next t htx =>
  split at h
  next => exact finish_cases hcall h rfl rfl
  next account haccount =>
  split at h
  next => exact finish_cases hcall h rfl rfl
  next =>
  split at h
  next => exact finish_cases hcall h rfl rfl
  next hmove =>
    obtain ⟨hpending, rfl⟩ := Transaction.moveTo_ok hmove
    cases h
    exact .reversed call tx t account hcall htx hpending haccount

theorem giveBack_cases (hok : 0 < value)
    (hcall : s.calls.get? call = some (.returning tx card day value))
    (h : s.giveBack call tx card day value = .ok (event, s')) : Stepped s a s' := by
  unfold giveBack at h
  rw [reserveDaily_back hok] at h
  cases h
  exact .returned call _ none (card, day) value hcall rfl rfl rfl (by simp)

theorem claim_cases {operation : Operation} (hnew : s.calls.get? call = none)
    (h : s.claim call request operation next = .ok (event, s'))
    (hrequest : next.request = some request) (huntaken : next.taken = false)
    (hpledge : next.pledge = none) (hok : next.Ok) : Stepped s a s' := by
  unfold claim at h
  split at h
  next =>
    cases h
    exact .same
  next =>
    split at h <;> cases h <;> exact .same
  next hfree =>
    cases h
    exact .claimed call next request hnew hrequest hfree huntaken hpledge hok

end

/-! ## The steps of the bank -/

/-- The amounts of all calls are in order. -/
def CallsOk (s : Bank) : Prop := ∀ call c, s.calls.get? call = some c → c.Ok

theorem resume_cases {call elapsed : Nat} {c : Call} (hok : c.Ok)
    (hcall : s.calls.get? call = some c) (h : s.resume call elapsed c = .ok (event, s'))
    (ha : a = .resume call elapsed) : Stepped s a s' := by
  cases c with
  | validating => exact validate_cases hcall h
  | locating => exact locate_cases hcall h
  | reserving => exact reserve_cases hcall h
  | holding => exact holdLocked_cases hcall h ha
  | releasing => exact release_cases hok hcall h
  | crediting => exact credit_cases hcall h
  | moving => exact move_cases hcall h
  | settling request operation receipt =>
    cases h
    exact .settled call request operation receipt hcall
  | aborting request error =>
    cases h
    exact .aborted call request error hcall
  | capturing => exact captureLocked_cases hcall h
  | reversing => exact reverseLocked_cases hcall h
  | returning => exact giveBack_cases hok hcall h

theorem start_ok {call : Nat} {r : Result} (h : s.start call r = .ok (event, s')) :
    s.calls.get? call = none ∧ r = .ok (event, s') := by
  unfold start at h
  split at h
  next hnew => exact ⟨isNone_iff_eq_none.mp hnew, h⟩
  next => cases h

theorem withPositive_ok {amount : Int} {k : Result}
    (h : s.withPositive amount k = .ok (event, s')) :
    s' = s ∨ 0 < amount ∧ k = .ok (event, s') := by
  unfold withPositive at h
  split at h
  next =>
    cases h
    exact Or.inl rfl
  next => exact Or.inr ⟨by omega, h⟩

theorem lookUp_ok {tx : TxId} {k : Result} (h : s.lookUp tx k = .ok (event, s')) :
    s' = s ∨ k = .ok (event, s') := by
  unfold lookUp at h
  split at h
  next =>
    cases h
    exact Or.inl rfl
  next => exact Or.inr h

/-- A step that is taken is one of those listed, guards included. -/
theorem step_cases (hok : CallsOk s) (h : step s a = .ok (event, s')) : Stepped s a s' := by
  cases a with
  | tick elapsed =>
    cases h
    exact .ticked elapsed
  | authorizeWithdrawal call card account amount request | deposit call account amount request =>
    obtain ⟨hnew, h⟩ := start_ok h
    rcases withPositive_ok h with rfl | ⟨hpos, h⟩
    · exact .same
    · exact claim_cases hnew h rfl rfl rfl hpos
  | capture call tx =>
    obtain ⟨hnew, h⟩ := start_ok h
    rcases lookUp_ok h with rfl | h
    · exact .same
    · cases h
      exact .began call (.capturing tx) hnew rfl rfl trivial
  | reverse call tx =>
    obtain ⟨hnew, h⟩ := start_ok h
    rcases lookUp_ok h with rfl | h
    · exact .same
    · cases h
      exact .began call (.reversing tx) hnew rfl rfl trivial
  | transfer =>
    obtain ⟨hnew, h⟩ := start_ok h
    rcases withPositive_ok h with rfl | ⟨hpos, h⟩
    · exact .same
    · split at h
      next =>
        cases h
        exact .same
      next hne => exact claim_cases hnew h rfl rfl rfl ⟨hpos, hne⟩
  | resume call =>
    simp only [step] at h
    split at h
    next => cases h
    next c hcall => exact resume_cases (hok call c hcall) hcall h rfl

end Bank

/-! ## Sums of transactions -/

/-- What a transaction adds to the sum of one type and status. -/
def Transaction.worth (t : Transaction) (txType : TransactionType) (status : TransactionStatus) :
    Int :=
  if t.txType = txType ∧ t.status = status then t.amount else 0

/-- Its amount is positive, and while it is pending it is a withdrawal by card. -/
structure Transaction.Sound (t : Transaction) : Prop where
  positive : 0 < t.amount
  pending : t.status = .pending → t.txType = .withdrawal ∧ ∃ card, t.cardNumber = some card

/-- What it adds to the sum of an account. -/
def Transaction.counted (number : String) (txType : TransactionType) (status : TransactionStatus)
    (t : Transaction) : Int :=
  if number = t.accountNumber then t.worth txType status else 0

namespace Bank

/-- The sum of the transactions of all accounts. -/
def volume (s : Bank) (txType : TransactionType) (status : TransactionStatus) : Int :=
  s.transactions.total fun t => t.worth txType status

variable {s s' : Bank} {a : BankStep} {event : BankEvent} {tx : TxId} {call k : Nat} {c : Call}
  {t : Transaction} {opening accounts : Dict String Account} {transactions : Dict TxId Transaction}
  {number : String} {account account' : Account}

/-! ## Calls and transactions -/

/-- What holds of the calls and of each transaction. -/
structure WellKept (s : Bank) : Prop where
  calls : CallsOk s
  transactions : ∀ tx t, s.transactions.get? tx = some t → tx < s.ids ∧ t.Sound

theorem WellKept.unrecorded (h : WellKept s) (htx : s.ids ≤ tx) :
    s.transactions.get? tx = none := by
  cases hget : s.transactions.get? tx with
  | none => rfl
  | some t => exact absurd (h.transactions tx t hget).1 (Nat.not_lt.mpr htx)

theorem WellKept.unrecorded_next (h : WellKept s) (t : Transaction) :
    (s.transactions.set s.ids t).get? (s.ids + 1) = none := by
  rw [get?_set_of_ne _ _ (Nat.succ_ne_self s.ids)]
  exact h.unrecorded (Nat.le_succ s.ids)

theorem CallsOk.set (h : CallsOk s) {next : Call} (hok : next.Ok)
    (hk : (s.calls.set call next).get? k = some c) : c.Ok := by
  rw [get?_set] at hk
  split at hk
  next =>
    cases hk
    exact hok
  next => exact h k c hk

theorem CallsOk.erase (h : CallsOk s) (hk : (s.calls.erase call).get? k = some c) :
    c.Ok := h k c (get?_erase_some hk).2

theorem CallsOk.put (h : CallsOk s) {next : Option Call} (hok : ∀ c ∈ next, c.Ok)
    (hk : (s.calls.put call next).get? k = some c) : c.Ok := by
  cases next with
  | none => exact h.erase hk
  | some next => exact h.set (hok next rfl) hk

theorem WellKept.record (h : WellKept s) (ht : t.Sound) :
    ∀ tx t', (s.transactions.set s.ids t).get? tx = some t' → tx < s.ids + 1 ∧ t'.Sound := by
  intro tx t' hget
  rcases get?_set_some hget with ⟨rfl, rfl⟩ | ⟨-, hget⟩
  · exact ⟨Nat.lt_succ_self _, ht⟩
  · exact (h.transactions tx t' hget).imp_left Nat.lt_succ_of_lt

theorem WellKept.decide (h : WellKept s) (htx : s.transactions.get? tx = some t)
    (status : TransactionStatus) (hstatus : status ≠ .pending) :
    ∀ tx' t', (s.transactions.set tx { t with status }).get? tx' = some t' →
      tx' < s.ids ∧ t'.Sound := by
  intro tx' t' hget
  rcases get?_set_some hget with ⟨rfl, rfl⟩ | ⟨-, hget⟩
  · obtain ⟨hfresh, ht⟩ := h.transactions _ t htx
    exact ⟨hfresh, ht.positive, fun hpending => absurd hpending hstatus⟩
  · exact h.transactions tx' t' hget

theorem Stepped.wellKept (hstep : Stepped s a s') (h : WellKept s) : WellKept s' := by
  cases hstep with
  | same => exact h
  | ticked => exact ⟨h.calls, h.transactions⟩
  | claimed call next request hnew hrequest hfree huntaken hpledge hok
  | began _ _ _ _ _ hok => exact ⟨fun k c hk => h.calls.set hok hk, h.transactions⟩
  | wentOn call c _ hcall _ _ _ hok =>
    exact ⟨fun k c hk => h.calls.set (hok (h.calls call _ hcall)) hk, h.transactions⟩
  | ended => exact ⟨fun k c hk => h.calls.erase hk, h.transactions⟩
  | reserved call _ _ _ _ _ c hcall =>
    have hok := h.calls call _ hcall
    exact ⟨fun k c hk => h.calls.set (by exact hok) hk, h.transactions⟩
  | held call request card number value _ _ hcall =>
    exact ⟨fun k c hk => h.calls.set (by exact trivial) hk,
      h.record ⟨h.calls call _ hcall, fun _ => ⟨rfl, card, rfl⟩⟩⟩
  | returned _ c _ _ _ _ _ _ _ hnext =>
    exact ⟨fun k c hk => h.calls.put (fun c hc => (hnext c hc).2.2) hk, h.transactions⟩
  | captured _ _ _ _ _ htx =>
    exact ⟨fun k c hk => h.calls.erase hk, h.decide htx .completed (by decide)⟩
  | reversed _ tx t _ _ htx =>
    have hok := (h.transactions tx t htx).2.positive
    exact ⟨fun k c hk => h.calls.set (by exact hok) hk, h.decide htx .reversed (by decide)⟩
  | credited call request number value _ hcall =>
    exact ⟨fun k c hk => h.calls.set (by exact trivial) hk, h.record ⟨h.calls call _ hcall, nofun⟩⟩
  | moved call elapsed request source target value _ _ hcall =>
    obtain ⟨hpos, -⟩ := h.calls call _ hcall
    have hout : WellKept { s with
        ids := s.ids + 1
        transactions := s.transactions.set s.ids ⟨s.ids, request, source, .transferOut, value,
          .completed, s.today, none, some target⟩ } := ⟨h.calls, h.record ⟨hpos, nofun⟩⟩
    exact ⟨fun k c hk => h.calls.set (by exact trivial) hk, hout.record ⟨hpos, nofun⟩⟩
  | settled | aborted => exact ⟨fun k c hk => h.calls.erase hk, h.transactions⟩

/-! ## Accounts and their transactions -/

/-- The accounts are what the transactions make of the opening balances. -/
structure Booked (opening : Dict String Account) (accounts : Dict String Account)
    (transactions : Dict TxId Transaction) : Prop where
  held : ∀ number account, accounts.get? number = some account →
    account.held = transactions.total (Transaction.counted number .withdrawal .pending)
  balance : ∀ number account, accounts.get? number = some account →
    ∃ first, opening.get? number = some first ∧
      account.balance = first.balance +
        transactions.total (Transaction.counted number .deposit .completed) +
        transactions.total (Transaction.counted number .transferIn .completed) -
        transactions.total (Transaction.counted number .withdrawal .completed) -
        transactions.total (Transaction.counted number .transferOut .completed)

theorem Booked.entry
    {transactions' : Dict TxId Transaction} (h : Booked opening accounts transactions)
    (haccount : accounts.get? number = some account)
    (change : TransactionType → TransactionStatus → Int)
    (hchange : ∀ n txType status, transactions'.total (Transaction.counted n txType status) =
      transactions.total (Transaction.counted n txType status) +
        if n = number then change txType status else 0)
    (hheld : account'.held = account.held + change .withdrawal .pending)
    (hbalance : account'.balance = account.balance + change .deposit .completed +
      change .transferIn .completed - change .withdrawal .completed -
      change .transferOut .completed) :
    Booked opening (accounts.set number account') transactions' := by
  constructor
  · intro n other hn
    rw [get?_set] at hn
    rw [hchange]
    split at hn
    next heq =>
      cases hn
      rw [if_pos heq, hheld, h.held number account haccount, heq]
    next hne => rw [if_neg hne, h.held n other hn, Int.add_zero]
  intro n other hn
  rw [get?_set] at hn
  simp only [hchange]
  split at hn
  next heq =>
    cases hn
    obtain ⟨first, hfirst, hold⟩ := h.balance number account haccount
    refine ⟨first, heq ▸ hfirst, ?_⟩
    simp only [heq, if_true]
    omega
  next hne =>
    obtain ⟨first, hfirst, hold⟩ := h.balance n other hn
    refine ⟨first, hfirst, ?_⟩
    simp only [if_neg hne]
    omega

theorem Booked.record (h : Booked opening accounts transactions)
    (hnew : transactions.get? tx = none) (t : Transaction)
    (haccount : accounts.get? t.accountNumber = some account)
    (hheld : account'.held = account.held + t.worth .withdrawal .pending)
    (hbalance : account'.balance = account.balance + t.worth .deposit .completed +
      t.worth .transferIn .completed - t.worth .withdrawal .completed -
      t.worth .transferOut .completed) :
    Booked opening (accounts.set t.accountNumber account') (transactions.set tx t) := by
  apply h.entry haccount t.worth _ hheld hbalance
  intro n txType status
  rw [total_set_of_none hnew, Transaction.counted, Int.add_comm]

theorem Booked.decide (h : Booked opening accounts transactions)
    (htx : transactions.get? tx = some t) (status : TransactionStatus)
    (haccount : accounts.get? t.accountNumber = some account)
    (hheld : account'.held = account.held +
      (({ t with status } : Transaction).worth .withdrawal .pending -
        t.worth .withdrawal .pending)) (hbalance : account'.balance = account.balance +
      (({ t with status } : Transaction).worth .deposit .completed -
        t.worth .deposit .completed) +
      (({ t with status } : Transaction).worth .transferIn .completed -
        t.worth .transferIn .completed) -
      (({ t with status } : Transaction).worth .withdrawal .completed -
        t.worth .withdrawal .completed) -
      (({ t with status } : Transaction).worth .transferOut .completed -
        t.worth .transferOut .completed)) : Booked opening (accounts.set t.accountNumber account')
      (transactions.set tx { t with status }) := by
  apply h.entry haccount (fun txType status' =>
    ({ t with status } : Transaction).worth txType status' - t.worth txType status') _
    hheld hbalance
  intro n txType status'
  have htotal := total_set_of_get? htx { t with status } (Transaction.counted n txType status')
  simp only [Transaction.counted] at htotal
  split at htotal
  next hn =>
    rw [if_pos hn]
    omega
  next hn =>
    rw [if_neg hn]
    omega

theorem Stepped.booked (hstep : Stepped s a s') (hkept : WellKept s)
    (h : Booked opening s.accounts s.transactions) :
    Booked opening s'.accounts s'.transactions := by
  cases hstep with
  | held _ request card number value _ _ _ haccount =>
    apply h.record (hkept.unrecorded (Nat.le_refl s.ids))
      ⟨s.ids, request, number, .withdrawal, value, .pending, s.today, some card, none⟩ haccount
    · simp [Transaction.worth]
    · simp [Transaction.worth]
  | captured _ tx t _ _ htx hpending haccount =>
    obtain ⟨htype, -⟩ := (hkept.transactions tx t htx).2.pending hpending
    apply h.decide htx .completed haccount
    · simp [Transaction.worth, Account.captureHold, htype, hpending]
      omega
    · simp [Transaction.worth, Account.captureHold, htype, hpending]
  | reversed _ tx t _ _ htx hpending haccount =>
    obtain ⟨htype, -⟩ := (hkept.transactions tx t htx).2.pending hpending
    apply h.decide htx .reversed haccount
    · simp [Transaction.worth, Account.releaseHold, htype, hpending]
      omega
    · simp [Transaction.worth, Account.releaseHold, htype, hpending]
  | credited _ request number value _ _ haccount =>
    apply h.record (hkept.unrecorded (Nat.le_refl s.ids))
      ⟨s.ids, request, number, .deposit, value, .completed, s.today, none, none⟩ haccount
    · simp [Transaction.worth, Account.deposit]
    · simp [Transaction.worth, Account.deposit]
  | moved call elapsed request source target value account _ hcall haccount hother =>
    obtain ⟨-, hne⟩ := hkept.calls call _ hcall
    have hout : Booked opening
        (s.accounts.set source { account with balance := account.balance - value })
        (s.transactions.set s.ids ⟨s.ids, request, source, .transferOut, value, .completed,
          s.today, none, some target⟩) := by
      apply h.record (hkept.unrecorded (Nat.le_refl s.ids))
        ⟨s.ids, request, source, .transferOut, value, .completed, s.today, none, some target⟩
        haccount
      · simp [Transaction.worth]
      · simp [Transaction.worth]
    apply hout.record (hkept.unrecorded_next _) ⟨s.ids + 1, request, target, .transferIn,
      value, .completed,
      s.today + elapsed, none, some source⟩
    · rw [get?_set_of_ne _ _ (Ne.symm hne)]
      exact hother
    · simp [Transaction.worth, Account.deposit]
    · simp [Transaction.worth, Account.deposit]
  | _ => exact h

/-! ## All accounts together -/

/-- The balances of all accounts. -/
def total (s : Bank) : Int := s.accounts.total Account.balance

/-- Transfers aside, the balances change by deposits and by captured withdrawals. -/
def Balanced (opening : Int) (s : Bank) : Prop :=
  s.total = opening + s.volume .deposit .completed - s.volume .withdrawal .completed

theorem total_account (h : accounts.get? number = some account) (account' : Account) :
    (accounts.set number account').total Account.balance =
      accounts.total Account.balance + (account'.balance - account.balance) := by
  have htotal := total_set_of_get? h account' Account.balance
  omega

theorem volume_record (h : transactions.get? tx = none) (t : Transaction) (txType : TransactionType)
    (status : TransactionStatus) :
    ((transactions.set tx t).total fun t => t.worth txType status) =
      (transactions.total fun t => t.worth txType status) + t.worth txType status := by
  rw [total_set_of_none h, Int.add_comm]

theorem volume_decide (h : transactions.get? tx = some t) (t' : Transaction)
    (txType : TransactionType) (status : TransactionStatus) :
    ((transactions.set tx t').total fun t => t.worth txType status) =
      (transactions.total fun t => t.worth txType status) +
        (t'.worth txType status - t.worth txType status) := by
  have htotal := total_set_of_get? h t' fun t => t.worth txType status
  omega

theorem Stepped.balanced {opening : Int} (hstep : Stepped s a s') (hkept : WellKept s)
    (h : Balanced opening s) : Balanced opening s' := by
  have hnew := hkept.unrecorded (Nat.le_refl s.ids)
  unfold Balanced total volume at h ⊢
  cases hstep with
  | held _ _ _ _ _ _ _ _ haccount =>
    rw [total_account haccount, volume_record hnew, volume_record hnew]
    simp [Transaction.worth, h]
  | captured _ tx t _ _ htx hpending haccount =>
    obtain ⟨htype, -⟩ := (hkept.transactions tx t htx).2.pending hpending
    rw [total_account haccount, volume_decide htx, volume_decide htx, h]
    simp [Transaction.worth, htype, hpending, Account.captureHold]
    omega
  | reversed _ tx t _ _ htx hpending haccount =>
    obtain ⟨htype, -⟩ := (hkept.transactions tx t htx).2.pending hpending
    rw [total_account haccount, volume_decide htx, volume_decide htx]
    simp [Transaction.worth, htype, hpending, Account.releaseHold, h]
  | credited _ _ _ _ _ _ haccount =>
    rw [total_account haccount, volume_record hnew, volume_record hnew, h]
    simp [Transaction.worth, Account.deposit]
    omega
  | moved call _ _ source target value account other hcall haccount hother =>
    obtain ⟨-, hne⟩ := hkept.calls call _ hcall
    have hother' : (s.accounts.set source
        { account with balance := account.balance - value }).get? target = some other := by
      rw [get?_set_of_ne _ _ (Ne.symm hne)]
      exact hother
    rw [total_account hother', total_account haccount, volume_record (hkept.unrecorded_next _),
      volume_record (hkept.unrecorded_next _),
      volume_record hnew, volume_record hnew, h]
    simp [Transaction.worth, Account.deposit]
  | _ => exact h

/-! ## Floors -/

theorem Stepped.floor_le (hstep : Stepped s a s') (hkept : WellKept s)
    (h : s.accounts.get? number = some account) (h' : s'.accounts.get? number = some account') :
    account'.kind = account.kind ∧
      (account.free ≤ account'.free ∨ account'.floor ≤ account'.free) := by
  have hset : ∀ {n : String} {old new : Account}, s.accounts.get? n = some old →
      (s.accounts.set n new).get? number = some account' →
        (new.kind = old.kind ∧ (old.free ≤ new.free ∨ new.floor ≤ new.free)) →
          account'.kind = account.kind ∧
            (account.free ≤ account'.free ∨ account'.floor ≤ account'.free) := by
    intro n old new hold hget hnew
    rw [get?_set] at hget
    split at hget
    next heq =>
      subst heq
      cases hget
      cases hold.symm.trans h
      exact hnew
    next =>
      cases hget.symm.trans h
      exact ⟨rfl, Or.inl (Int.le_refl _)⟩
  cases hstep with
  | held call _ _ _ _ _ _ hcall hold hrequire =>
    refine hset hold h' ⟨rfl, Or.inr ?_⟩
    have hfloor := floor_le (hkept.calls call _ hcall) hrequire
    unfold Account.free at hfloor ⊢
    unfold Account.floor at hfloor ⊢
    dsimp only
    omega
  | captured _ _ _ _ _ _ _ hold =>
    refine hset hold h' ⟨rfl, Or.inl ?_⟩
    simp only [Account.free, Account.captureHold]
    omega
  | reversed _ tx t _ _ htx _ hold =>
    refine hset hold h' ⟨rfl, Or.inl ?_⟩
    have hpos := (hkept.transactions tx t htx).2.positive
    simp only [Account.free, Account.releaseHold]
    omega
  | credited call _ _ value _ hcall hold =>
    refine hset hold h' ⟨rfl, Or.inl ?_⟩
    have hpos : 0 < value := hkept.calls call _ hcall
    simp only [Account.free, Account.deposit]
    omega
  | moved call _ _ _ _ _ _ _ hcall hold hother hrequire =>
    obtain ⟨hpos, hne⟩ := hkept.calls call _ hcall
    rw [get?_set] at h'
    split at h'
    next heq =>
      subst heq
      cases h'
      cases hother.symm.trans h
      refine ⟨rfl, Or.inl ?_⟩
      simp only [Account.free, Account.deposit]
      omega
    next =>
    refine hset hold h' ⟨rfl, Or.inr ?_⟩
    have hfloor := floor_le hpos hrequire
    unfold Account.free at hfloor ⊢
    unfold Account.floor at hfloor ⊢
    dsimp only
    omega
  | _ =>
    cases h'.symm.trans h
    exact ⟨rfl, Or.inl (Int.le_refl _)⟩

end Bank

end InterviewPrep.Banking
