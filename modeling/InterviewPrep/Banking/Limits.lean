/-
  A request takes effect at most once: while it is in flight one call has it, and what it recorded
  is known from where that call stands (`Claimed`).  With the books this holds in every run
  (`run_sound`).

  As long as a withdrawal is recorded on the day it was reserved for (`sameDay`), the counter of a
  card and a day is what is recorded there and what calls have reserved or still have to give back
  (`Daily`).  Midnight between the two reads of the clock breaks it (`acrossMidnight`).
-/
import InterviewPrep.Banking.Books
import Mathlib.Algebra.Order.BigOperators.Group.List

namespace InterviewPrep.Banking

open Lib Dict Option

def Transaction.effect (request : String) (types : List TransactionType) (t : Transaction) : Nat :=
  if t.requestId = request ∧ t.txType ∈ types then 1 else 0

namespace Bank

def recorded (s : Bank) (request : String) (types : List TransactionType) : Nat :=
  s.transactions.total (Transaction.effect request types)

/-- How many operations a request recorded; of a transfer this is the leg that goes out. -/
def effects (s : Bank) (request : String) : Nat :=
  s.recorded request [.withdrawal, .deposit, .transferOut]

variable {s s' : Bank} {a : BankStep} {event : BankEvent}

/-! ## Claims -/

/-- A request in flight has one call, which knows whether its effect was taken. -/
structure Claimed (s : Bank) : Prop where
  inFlight : ∀ call c r, s.calls.get? call = some c → c.request = some r →
    s.requests.get? r = some .inFlight
  one : ∀ call call' c c' r, s.calls.get? call = some c → s.calls.get? call' = some c' →
    c.request = some r → c'.request = some r → call = call'
  untaken : ∀ call c r, s.calls.get? call = some c → c.request = some r → c.taken = false →
    s.effects r = 0
  unclaimed : ∀ r, s.requests.get? r = none → s.effects r = 0
  once : ∀ r, s.effects r ≤ 1

section

variable {call : Nat} {c next : Call} {r : String}

theorem Claimed.keep {old : Option Call} (h : Claimed s) (new : Option Call)
    (hcall : s.calls.get? call = old)
    (hcalls : s'.calls = s.calls.put call new) (hrequests : s'.requests = s.requests)
    (heffects : ∀ r, s'.effects r = s.effects r) (hnew : ∀ n ∈ new, ∀ r, n.request = some r →
      ∃ c, old = some c ∧ c.request = some r ∧ (n.taken = false → c.taken = false)) :
    Claimed s' := by
  have hback : ∀ k n, s'.calls.get? k = some n → ∀ r, n.request = some r →
      ∃ c, s.calls.get? k = some c ∧ c.request = some r ∧ (n.taken = false → c.taken = false) := by
    intro k n hk r hr
    rw [hcalls, Dict.get?_put] at hk
    split at hk
    next heq =>
      obtain ⟨c, hold, hc⟩ := hnew n hk r hr
      exact ⟨c, by rw [heq, hcall, hold], hc⟩
    next => exact ⟨n, hk, hr, id⟩
  constructor
  · intro k n r hk hr
    obtain ⟨c, hc, hcr, -⟩ := hback k n hk r hr
    rw [hrequests]
    exact h.inFlight k c r hc hcr
  · intro k k' n n' r hk hk' hr hr'
    obtain ⟨c, hc, hcr, -⟩ := hback k n hk r hr
    obtain ⟨c', hc', hcr', -⟩ := hback k' n' hk' r hr'
    exact h.one k k' c c' r hc hc' hcr hcr'
  · intro k n r hk hr htaken
    obtain ⟨c, hc, hcr, huntaken⟩ := hback k n hk r hr
    rw [heffects]
    exact h.untaken k c r hc hcr (huntaken htaken)
  · intro r hr
    rw [heffects]
    exact h.unclaimed r (hrequests ▸ hr)
  · intro r
    rw [heffects]
    exact h.once r

theorem Claimed.take (h : Claimed s) (hcall : s.calls.get? call = some c)
    (hc : c.request = some r) (huntaken : c.taken = false)
    (hcalls : s'.calls = s.calls.set call next) (hrequests : s'.requests = s.requests)
    (hnext : next.request = some r) (htaken : next.taken = true)
    (heffects : ∀ r', s'.effects r' = s.effects r' + if r' = r then 1 else 0) : Claimed s' := by
  have hback : ∀ k n, s'.calls.get? k = some n →
      (k = call ∧ n = next) ∨ (k ≠ call ∧ s.calls.get? k = some n) := by
    intro k n hk
    rw [hcalls, get?_set] at hk
    split at hk
    next heq => exact Or.inl ⟨heq, (some.inj hk).symm⟩
    next hne => exact Or.inr ⟨hne, hk⟩
  constructor
  · intro k n r' hk hr
    rw [hrequests]
    rcases hback k n hk with ⟨-, rfl⟩ | ⟨-, hk⟩
    · cases hnext.symm.trans hr
      exact h.inFlight call c r hcall hc
    · exact h.inFlight k n r' hk hr
  · intro k k' n n' r' hk hk' hr hr'
    rcases hback k n hk with ⟨rfl, rfl⟩ | ⟨-, hold⟩ <;>
      rcases hback k' n' hk' with ⟨rfl, rfl⟩ | ⟨-, hold'⟩
    · rfl
    · cases hnext.symm.trans hr
      exact h.one k k' c n' r hcall hold' hc hr'
    · cases hnext.symm.trans hr'
      exact h.one k k' n c r hold hcall hr hc
    · exact h.one k k' n n' r' hold hold' hr hr'
  · intro k n r' hk hr hno
    rcases hback k n hk with ⟨-, rfl⟩ | ⟨hne, hk⟩
    · rw [htaken] at hno
      cases hno
    · have hr' : r' ≠ r := by
        rintro rfl
        exact hne (h.one k call n c r' hk hcall hr hc)
      rw [heffects, if_neg hr', h.untaken k n r' hk hr hno]
  · intro r' hr
    have hr' : r' ≠ r := by
      rintro rfl
      rw [hrequests, h.inFlight call c r' hcall hc] at hr
      cases hr
    rw [heffects, if_neg hr', h.unclaimed r' (hrequests ▸ hr)]
  · intro r'
    rw [heffects]
    by_cases hr' : r' = r
    · rw [if_pos hr', hr', h.untaken call c r hcall hc huntaken]
    · rw [if_neg hr']
      exact h.once r'

theorem Claimed.claim (h : Claimed s) (hfree : s.requests.get? r = none)
    (hnext : next.request = some r) :
    Claimed { s with requests := s.requests.set r .inFlight, calls := s.calls.set call next } := by
  have hback : ∀ k n, (s.calls.set call next).get? k = some n →
      (k = call ∧ n = next) ∨ s.calls.get? k = some n := by
    intro k n hk
    rw [get?_set] at hk
    split at hk
    next heq => exact Or.inl ⟨heq, (some.inj hk).symm⟩
    next => exact Or.inr hk
  have hother : ∀ k n r', s.calls.get? k = some n → n.request = some r' → r' ≠ r := by
    rintro k n r' hk hr rfl
    cases hfree.symm.trans (h.inFlight k n r' hk hr)
  constructor
  · intro k n r' hk hr
    rcases hback k n hk with ⟨-, rfl⟩ | hk
    · cases hnext.symm.trans hr
      exact get?_set_self _ _ _
    · show (s.requests.set r .inFlight).get? r' = _
      rw [get?_set_of_ne _ _ (hother k n r' hk hr)]
      exact h.inFlight k n r' hk hr
  · intro k k' n n' r' hk hk' hr hr'
    rcases hback k n hk with ⟨rfl, rfl⟩ | hold <;>
      rcases hback k' n' hk' with ⟨rfl, rfl⟩ | hold'
    · rfl
    · exact absurd (some.inj (hr.symm.trans hnext)) (hother k' n' r' hold' hr')
    · exact absurd (some.inj (hr'.symm.trans hnext)) (hother k n r' hold hr)
    · exact h.one k k' n n' r' hold hold' hr hr'
  · intro k n r' hk hr hno
    rcases hback k n hk with ⟨-, rfl⟩ | hk
    · cases hnext.symm.trans hr
      exact h.unclaimed r hfree
    · exact h.untaken k n r' hk hr hno
  · intro r' hr
    apply h.unclaimed r'
    replace hr : (s.requests.set r .inFlight).get? r' = none := hr
    rw [get?_set] at hr
    split at hr
    next => cases hr
    next => exact hr
  · exact h.once

theorem Claimed.end (h : Claimed s) (hcall : s.calls.get? call = some c)
    (hc : c.request = some r) {requests : Dict String RequestState}
    (hrequests : ∀ r', r' ≠ r → requests.get? r' = s.requests.get? r')
    (hfree : requests.get? r = none → c.taken = false) :
    Claimed { s with requests, calls := s.calls.erase call } := by
  have hother : ∀ k n r', (s.calls.erase call).get? k = some n → n.request = some r' →
      s.calls.get? k = some n ∧ r' ≠ r := by
    intro k n r' hk hr
    obtain ⟨hne, hk⟩ := get?_erase_some hk
    refine ⟨hk, ?_⟩
    rintro rfl
    exact hne (h.one k call n c r' hk hcall hr hc)
  constructor
  · intro k n r' hk hr
    obtain ⟨hk, hne⟩ := hother k n r' hk hr
    exact (hrequests r' hne).trans (h.inFlight k n r' hk hr)
  · intro k k' n n' r' hk hk' hr hr'
    exact h.one k k' n n' r' (hother k n r' hk hr).1 (hother k' n' r' hk' hr').1 hr hr'
  · intro k n r' hk hr hno
    exact h.untaken k n r' (hother k n r' hk hr).1 hr hno
  · intro r' hr
    by_cases hr' : r' = r
    · subst hr'
      exact h.untaken call c r' hcall hc (hfree hr)
    · exact h.unclaimed r' ((hrequests r' hr').symm.trans hr)
  · exact h.once

end

/-! ## Steps -/

variable {transactions : Dict TxId Transaction} {accounts : Dict String Account}
  {cards : Dict String Card} {events : List BankEvent} {steps : List BankStep}

theorem recorded_record {tx : TxId}
    (h : transactions.get? tx = none) (t : Transaction) (request : String)
    (types : List TransactionType) :
    (transactions.set tx t).total (Transaction.effect request types) =
      transactions.total (Transaction.effect request types) + t.effect request types := by
  rw [total_set_of_none h, Nat.add_comm]

theorem recorded_decide {tx : TxId} {t : Transaction}
    (h : transactions.get? tx = some t) (status : TransactionStatus) (request : String)
    (types : List TransactionType) :
    (transactions.set tx { t with status }).total (Transaction.effect request types) =
      transactions.total (Transaction.effect request types) :=
  total_set_same h rfl

theorem Stepped.keepsClaims (hstep : Stepped s a s') (hkept : WellKept s) (h : Claimed s) :
    Claimed s' := by
  have hnew := hkept.unrecorded (Nat.le_refl s.ids)
  cases hstep with
  | same => exact h
  | ticked => exact ⟨h.inFlight, h.one, h.untaken, h.unclaimed, h.once⟩
  | claimed _ _ _ _ hrequest hfree => exact h.claim hfree hrequest
  | began _ next hnone hrequest =>
    apply h.keep (some next) hnone (by rfl) (by rfl) (fun _ => by rfl)
    rintro n ⟨⟩ r hr
    rw [hrequest] at hr
    cases hr
  | wentOn _ c next hcall hrequest htaken =>
    apply h.keep (some next) hcall (by rfl) (by rfl) (fun _ => by rfl)
    rintro n ⟨⟩ r hr
    exact ⟨c, rfl, hrequest ▸ hr, fun hno => htaken ▸ hno⟩
  | ended _ _ hcall => exact h.keep none hcall (by rfl) (by rfl) (fun _ => by rfl) (by simp)
  | reserved _ request card account value day _ hcall =>
    apply h.keep (some (.holding request card account value day)) hcall (by rfl) (by rfl)
      (fun _ => by rfl)
    rintro n ⟨⟩ r hr
    exact ⟨_, rfl, hr, fun _ => rfl⟩
  | held call request card number value day account hcall
  | credited _ _ _ _ _ hcall =>
    apply h.take hcall rfl rfl (by rfl) (by rfl) rfl rfl
    intro r
    show Dict.total _ _ = Dict.total _ _ + _
    rw [recorded_record hnew]
    simp [Transaction.effect, eq_comm]
  | returned _ c next _ _ hcall _ hrequest huntaken =>
    apply h.keep next hcall (by rfl) (by rfl) (fun _ => by rfl)
    rintro n hn r hr
    rw [mem_def] at hn
    subst hn
    exact ⟨c, rfl, hrequest ▸ hr, fun _ => huntaken⟩
  | captured _ _ _ _ hcall htx =>
    exact h.keep none hcall (by rfl) (by rfl)
      (fun r => by exact recorded_decide htx _ r _) (by simp)
  | reversed _ tx t _ hcall htx =>
    apply h.keep (some (.returning tx (t.cardNumber.getD "") t.businessDate t.amount)) hcall
      (by rfl) (by rfl) (fun r => by exact recorded_decide htx _ r _)
    rintro n ⟨⟩ r hr
    cases hr
  | moved _ _ _ _ _ _ _ _ hcall =>
    apply h.take hcall rfl rfl (by rfl) (by rfl) rfl rfl
    intro r
    show Dict.total _ _ = Dict.total _ _ + _
    rw [recorded_record (hkept.unrecorded_next _), recorded_record hnew]
    simp [Transaction.effect, eq_comm]
  | settled _ _ _ _ hcall =>
    apply h.end hcall rfl
    · intro r hr
      exact get?_set_of_ne _ _ hr
    · intro hfree
      rw [get?_set_self] at hfree
      cases hfree
  | aborted _ _ _ hcall =>
    apply h.end hcall rfl
    · intro r hr
      exact get?_erase_of_ne _ hr
    · exact fun _ => rfl

/-- A transfer that went out came in. -/
def Matched (s : Bank) : Prop := ∀ request,
  s.recorded request [.transferIn] = s.recorded request [.transferOut]

theorem Stepped.matched (hstep : Stepped s a s') (hkept : WellKept s) (h : Matched s) :
    Matched s' := by
  have hnew := hkept.unrecorded (Nat.le_refl s.ids)
  intro r
  have hr := h r
  unfold recorded at hr ⊢
  cases hstep with
  | held | credited =>
    rw [recorded_record hnew, recorded_record hnew, hr]
    simp [Transaction.effect]
  | captured call tx t account hcall htx | reversed call tx t account hcall htx =>
    rw [recorded_decide htx, recorded_decide htx, hr]
  | moved =>
    rw [recorded_record (hkept.unrecorded_next _), recorded_record (hkept.unrecorded_next _),
      recorded_record hnew, recorded_record hnew,
      hr]
    simp [Transaction.effect]
  | _ => exact hr

/-! ## Runs -/

/-- What holds of the accounts and requests of a bank that was opened with some accounts. -/
structure Sound (opening : Dict String Account) (s : Bank) : Prop where
  held : ∀ number account, s.accounts.get? number = some account →
    account.held = s.transactions.total (Transaction.counted number .withdrawal .pending)
  balance : ∀ number account, s.accounts.get? number = some account →
    ∃ first, opening.get? number = some first ∧
      account.balance = first.balance +
        s.transactions.total (Transaction.counted number .deposit .completed) +
        s.transactions.total (Transaction.counted number .transferIn .completed) -
        s.transactions.total (Transaction.counted number .withdrawal .completed) -
        s.transactions.total (Transaction.counted number .transferOut .completed)
  /-- no step takes from what is free of an account and leaves less than the floor -/
  floor : ∀ a event s', step s a = .ok (event, s') → ∀ number account account',
    s.accounts.get? number = some account → s'.accounts.get? number = some account' →
      account'.kind = account.kind ∧
        (account.free ≤ account'.free ∨ account'.floor ≤ account'.free)
  /-- the sum of the balances changes by deposits and captures -/
  total : s.total = opening.total Account.balance + s.volume .deposit .completed -
    s.volume .withdrawal .completed
  /-- a request records one operation at most, and the two legs of a transfer together -/
  once : ∀ request, s.effects request ≤ 1 ∧
    s.recorded request [.transferIn] = s.recorded request [.transferOut]

/-- The invariant of the bank. -/
structure Kept (opening : Dict String Account) (s : Bank) : Prop where
  wellKept : WellKept s
  booked : Booked opening s.accounts s.transactions
  balanced : Balanced (opening.total Account.balance) s
  claimed : Claimed s
  matched : Matched s

theorem opened_kept (accounts : Dict String Account) (cards : Dict String Card) (ids : Nat)
    (today : Int) : Kept accounts (opened accounts cards ids today) where
  wellKept := by
    constructor <;> intro _ _ h <;> cases h
  booked := by
    constructor
    · intro number account h
      simp only [opened, get?_mapValues, map_eq_some_iff] at h
      obtain ⟨first, -, rfl⟩ := h
      rfl
    · intro number account h
      simp only [opened, get?_mapValues, map_eq_some_iff] at h
      obtain ⟨first, hfirst, rfl⟩ := h
      exact ⟨first, hfirst, by simp [opened]⟩
  balanced := by
    have htotal : (accounts.mapValues fun a => { a with held := 0 }).total Account.balance =
        accounts.total Account.balance := by
      simp [Dict.total, Dict.values, Dict.mapValues, Function.comp_def]
    simp [Balanced, Bank.total, volume, opened, htotal]
  claimed := by
    refine ⟨?_, ?_, ?_, fun _ _ => rfl, fun _ => Nat.zero_le 1⟩
    · intro _ _ _ h
      cases h
    · intro _ _ _ _ _ h
      cases h
    · intro _ _ _ h
      cases h
  matched _ := rfl

/-- Every run keeps the balances, the counters and the requests agreed with the transactions. -/
theorem run_kept {ids : Nat} {today : Int}
    (hrun : runSteps step (opened accounts cards ids today) steps = .ok (events, s)) :
    Kept accounts s := by
  refine runSteps_keeps (C := fun _ _ => True) (fun _ _ s => Kept accounts s) ?_
    (opened_kept accounts cards ids today) (Guarded.of_forall (fun _ _ => trivial) _ _) hrun
  intro _ _ t a event t' _ h _ hstep
  have hstepped := step_cases h.wellKept.calls hstep
  exact ⟨hstepped.wellKept h.wellKept, hstepped.booked h.wellKept h.booked,
    hstepped.balanced h.wellKept h.balanced, hstepped.keepsClaims h.wellKept h.claimed,
    hstepped.matched h.wellKept h.matched⟩

/-- In every run the accounts agree with the transactions and each request takes effect once at
    most. -/
theorem run_sound {ids : Nat} {today : Int}
    (hrun : runSteps step (opened accounts cards ids today) steps = .ok (events, s)) :
    Sound accounts s := by
  have h := run_kept hrun
  refine ⟨h.booked.held, h.booked.balance, ?_, h.balanced, fun r => ⟨h.claimed.once r, h.matched r⟩⟩
  intro a event s' hstep number account account' hget hget'
  exact (step_cases h.wellKept.calls hstep).floor_le h.wellKept hget hget'

/-- Two accounts of one customer and a card. -/
def sampleAccounts : Dict String Account :=
  Dict.ofList [("AC1", ⟨"ada", .savings 50000, 200000, 0⟩),
    ("AC2", ⟨"ada", .checking 100000, 0, 0⟩)]

def sampleCards : Dict String Card :=
  Dict.ofList [("CARD3", ⟨"ada", 700, 2000000, false⟩)]

/-- A withdrawal is authorized, sent again while in flight, and captured while a
    transfer goes back. -/
def withdrawalAndTransfer : List BankStep :=
  [.authorizeWithdrawal 0 "CARD3" "AC1" 20000 "w", .resume 0 0, .resume 0 0, .resume 0 0,
    .authorizeWithdrawal 1 "CARD3" "AC1" 20000 "w", .transfer 2 "AC2" "AC1" 30000 "t",
    .resume 0 0, .resume 2 1, .capture 3 4, .resume 3 0]

theorem run_sound_withdrawalAndTransfer :
    ∃ events s, runSteps step (opened sampleAccounts sampleCards 4 0) withdrawalAndTransfer =
        .ok (events, s) ∧
      (s.accounts.get? "AC1").map Account.balance = some 210000 ∧ Sound sampleAccounts s := by
  refine exists_run_of_observe
    (f := fun r => (r.2.accounts.get? "AC1").map Account.balance) (b := some 210000)
    (by decide +kernel) fun events s hrun hobserve => ?_
  exact ⟨hobserve, run_sound hrun⟩

end Bank

/-- What a transaction takes from the limit of a card on a day. -/
def Transaction.drawn (key : String × Int) (t : Transaction) : Int :=
  if (t.cardNumber, t.businessDate) = (some key.1, key.2) ∧ t.txType = .withdrawal ∧
      t.status ≠ .reversed then t.amount else 0

/-- What a call has reserved of it and not recorded, or has to give back. -/
def Call.pledged (key : String × Int) (c : Call) : Int :=
  c.pledge.elim 0 fun pledge => if pledge.1 = key then pledge.2 else 0

theorem Call.pledge_pos {c : Call} (h : c.Ok) {key : String × Int} {value : Int}
    (hpledge : c.pledge = some (key, value)) : 0 < value := by
  cases c <;> simp only [pledge, reduceCtorEq, Option.some.injEq, Prod.mk.injEq] at hpledge <;>
    exact hpledge.2 ▸ h

namespace Bank

variable {s s' : Bank} {a : BankStep} {event : BankEvent}

/-- The withdrawals of a card that are recorded under a date and not reversed. -/
def drawn (s : Bank) (key : String × Int) : Int := s.transactions.total (Transaction.drawn key)

def pledged (s : Bank) (key : String × Int) : Int := s.calls.total (Call.pledged key)

/-- A hold that will be placed is recorded on the day that it was reserved for. -/
def sameDay (s : Bank) : BankStep → Bool
  | .resume call _ =>
    match s.calls.get? call with
    | some (.holding _ _ number value day) =>
      !((s.accounts.get? number).any fun account => value ≤ account.withdrawable) ||
        day = s.today
    | _ => true
  | _ => true

/-! ## The counter -/

/-- The counter is what is recorded and what is pledged, and within the limit. -/
structure Daily (s : Bank) : Prop where
  withdrawn_eq : ∀ key, s.withdrawn key = s.drawn key + s.pledged key
  limit : ∀ card c day, s.cards.get? card = some c → s.withdrawn (card, day) ≤ c.dailyLimit

theorem withdrawn_add (s : Bank) (key key' : String × Int) (delta : Int) :
    ((s.withdrawnToday.set key (s.withdrawn key + delta)).get? key').getD 0 =
      s.withdrawn key' + if key = key' then delta else 0 := by
  rw [get?_set]
  split
  next heq =>
    rw [if_pos heq.symm, heq]
    rfl
  next hne =>
    rw [if_neg (Ne.symm hne), Int.add_zero]
    rfl

theorem pledged_put {calls : Dict Nat Call} {call : Nat} {old : Option Call}
    (h : calls.get? call = old) (next : Option Call) (key : String × Int) :
    (calls.put call next).total (Call.pledged key) =
      calls.total (Call.pledged key) + next.elim 0 (Call.pledged key) -
        old.elim 0 (Call.pledged key) := by
  have htotal := total_put h next (Call.pledged key)
  omega

theorem Daily.keep (h : Daily s) {call : Nat} {old : Option Call} (hcall : s.calls.get? call = old)
    (next : Option Call) (hcalls : s'.calls = s.calls.put call next)
    (hpledge : next.bind Call.pledge = old.bind Call.pledge)
    (hcounters : s'.withdrawnToday = s.withdrawnToday) (hcards : s'.cards = s.cards)
    (hdrawn : ∀ key, s'.drawn key = s.drawn key) : Daily s' := by
  have hwithdrawn : ∀ key, s'.withdrawn key = s.withdrawn key := by
    intro key
    rw [withdrawn, withdrawn, hcounters]
  have hsame : ∀ key, next.elim 0 (Call.pledged key) = old.elim 0 (Call.pledged key) := by
    intro key
    have helim : ∀ c : Option Call, c.elim 0 (Call.pledged key) =
        (c.bind Call.pledge).elim 0 fun pledge => if pledge.1 = key then pledge.2 else 0 := by
      rintro (_ | c) <;> rfl
    rw [helim, helim, hpledge]
  constructor
  · intro key
    rw [hwithdrawn, hdrawn, h.withdrawn_eq, pledged, pledged, hcalls, pledged_put hcall, hsame]
    omega
  · intro card c day hcard
    rw [hwithdrawn]
    exact h.limit card c day (hcards ▸ hcard)

theorem drawn_record {transactions : Dict TxId Transaction} {tx : TxId}
    (h : transactions.get? tx = none) (t : Transaction) (key : String × Int) :
    (transactions.set tx t).total (Transaction.drawn key) =
      transactions.total (Transaction.drawn key) + t.drawn key := by
  rw [total_set_of_none h, Int.add_comm]

theorem Stepped.daily (hstep : Stepped s a s') (hkept : WellKept s) (h : Daily s)
    (hday : s.sameDay a = true) : Daily s' := by
  have hnew := hkept.unrecorded (Nat.le_refl s.ids)
  cases hstep with
  | same => exact h
  | ticked => exact ⟨h.withdrawn_eq, h.limit⟩
  | claimed call next request hnone hrequest hfree huntaken hpledge
  | began _ next hnone _ hpledge =>
    exact h.keep hnone (some next) (by rfl) hpledge (by rfl) (by rfl) (fun _ => by rfl)
  | wentOn _ _ next hcall _ _ hpledge =>
    exact h.keep hcall (some next) (by rfl) hpledge (by rfl) (by rfl) (fun _ => by rfl)
  | ended _ _ hcall _ hpledge =>
    exact h.keep hcall none (by rfl) hpledge.symm (by rfl) (by rfl) (fun _ => by rfl)
  | reserved call request card number value day _ hcall hcard hlimit =>
    constructor
    · intro key
      have hpledged := pledged_put hcall (some (.holding request card number value day)) key
      have hold := h.withdrawn_eq key
      show ((s.withdrawnToday.set _ _).get? key).getD 0 = s.drawn key +
        (s.calls.set call _).total (Call.pledged key)
      rw [withdrawn_add, hold]
      unfold pledged
      simp only [Dict.put, Option.elim, Call.pledged, Call.pledge] at hpledged
      omega
    · intro card' c' day' hcard'
      show ((s.withdrawnToday.set _ _).get? (card', day')).getD 0 ≤ c'.dailyLimit
      rw [withdrawn_add]
      split
      next heq =>
        cases heq
        cases hcard.symm.trans hcard'
        exact hlimit (hkept.calls call _ hcall)
      next => exact (Int.add_zero _).le.trans (h.limit card' c' day' hcard')
  | held call request card number value day _ hcall haccount hrequire ha =>
    have htoday : day = s.today := by
      obtain ⟨elapsed, rfl⟩ := ha
      simpa [sameDay, hcall, haccount, Account.le_withdrawable hrequire] using hday
    constructor
    · intro key
      have hpledged := pledged_put hcall
        (some (.settling request (.withdraw card number value) (.single s.ids))) key
      have hold := h.withdrawn_eq key
      show s.withdrawn key = (s.transactions.set _ _).total (Transaction.drawn key) +
        (s.calls.set call _).total (Call.pledged key)
      rw [drawn_record hnew]
      unfold pledged drawn at hold
      simp only [Dict.put, Option.elim, Call.pledged, Call.pledge] at hpledged
      have hdrawn : Transaction.drawn key ⟨s.ids, request, number, .withdrawal, value, .pending,
          s.today, some card, none⟩ = if (card, day) = key then value else 0 := by
        simp [Transaction.drawn, htoday, Prod.ext_iff]
      rw [hdrawn]
      omega
    · exact h.limit
  | returned call c next _ _ hcall hpledge _ _ hnext =>
    have hpos := Call.pledge_pos (hkept.calls call c hcall) hpledge
    constructor
    · intro key'
      have hpledged := pledged_put hcall next key'
      have hold := h.withdrawn_eq key'
      have hzero : next.elim 0 (Call.pledged key') = 0 := by
        cases next with
        | none => rfl
        | some n => simp [Call.pledged, (hnext n rfl).1]
      show ((s.withdrawnToday.set _ _).get? key').getD 0 = s.drawn key' +
        (s.calls.put call _).total (Call.pledged key')
      rw [withdrawn_add, hold]
      unfold pledged
      rw [hzero] at hpledged
      simp only [elim_some, Call.pledged, hpledge] at hpledged
      split at hpledged <;> simp only [*, if_true, if_false] <;> omega
    · intro card' c' day' hcard'
      have hold := h.limit card' c' day' hcard'
      show ((s.withdrawnToday.set _ _).get? (card', day')).getD 0 ≤ c'.dailyLimit
      rw [withdrawn_add]
      split <;> omega
  | captured _ _ _ _ hcall htx hpending =>
    apply h.keep hcall none (by rfl) (by rfl) (by rfl) (by rfl)
    intro key
    exact total_set_same htx (by simp [Transaction.drawn, hpending])
  | reversed call tx t _ hcall htx hpending =>
    obtain ⟨htype, card, hcard⟩ := (hkept.transactions tx t htx).2.pending hpending
    constructor
    · intro key
      have hpledged := pledged_put hcall
        (some (.returning tx (t.cardNumber.getD "") t.businessDate t.amount)) key
      have hold := h.withdrawn_eq key
      have hdrawn := total_set_of_get? htx { t with status := .reversed }
        (Transaction.drawn key)
      show s.withdrawn key = (s.transactions.set tx _).total (Transaction.drawn key) +
        (s.calls.set call _).total (Call.pledged key)
      unfold pledged drawn at hold
      have hvalue : Call.pledged key
          (.returning tx (t.cardNumber.getD "") t.businessDate t.amount) =
          if (card, t.businessDate) = key then t.amount else 0 := by
        simp [Call.pledged, Call.pledge, hcard]
      rw [elim_some, hvalue] at hpledged
      simp only [Dict.put, Option.elim, Call.pledged, Call.pledge] at hpledged
      have hbefore : t.drawn key = if (card, t.businessDate) = key then t.amount else 0 := by
        simp [Transaction.drawn, hcard, htype, hpending, Prod.ext_iff]
      have hafter : ({ t with status := .reversed } : Transaction).drawn key = 0 := by
        simp [Transaction.drawn]
      rw [hbefore, hafter] at hdrawn
      omega
    · exact h.limit
  | credited _ request number value _ hcall =>
    apply h.keep hcall (some (.settling request (.deposit number value) (.single s.ids))) (by rfl)
      (by rfl) (by rfl) (by rfl)
    intro key
    show (s.transactions.set _ _).total _ = _
    rw [drawn_record hnew]
    simp [Transaction.drawn, drawn]
  | moved _ _ request source target value _ _ hcall =>
    apply h.keep hcall (some (.settling request (.transfer source target value)
      (.legs s.ids (s.ids + 1)))) (by rfl) (by rfl) (by rfl) (by rfl)
    intro key
    show (Dict.set _ _ _).total _ = _
    rw [drawn_record (hkept.unrecorded_next _), drawn_record hnew]
    simp [Transaction.drawn, drawn]
  | settled _ _ _ _ hcall =>
    exact h.keep hcall none (by rfl) (by rfl) (by rfl) (by rfl) (fun _ => by rfl)
  | aborted _ _ _ hcall =>
    exact h.keep hcall none (by rfl) (by rfl) (by rfl) (by rfl) (fun _ => by rfl)

/-! ## Runs -/

theorem drawn_nonneg (hkept : WellKept s) (key : String × Int) : 0 ≤ s.drawn key := by
  apply List.sum_nonneg
  intro x hx
  obtain ⟨t, ht, rfl⟩ := List.mem_map.mp hx
  obtain ⟨⟨tx, t'⟩, hmem, rfl⟩ := List.mem_map.mp ht
  have hpos := (hkept.transactions tx t' (Dict.mem_items.mp hmem)).2.positive
  unfold Transaction.drawn
  split
  · exact Int.le_of_lt hpos
  · exact Int.le_refl 0

theorem pledged_nonneg (hkept : WellKept s) (key : String × Int) : 0 ≤ s.pledged key := by
  apply List.sum_nonneg
  intro x hx
  obtain ⟨c, hc, rfl⟩ := List.mem_map.mp hx
  obtain ⟨⟨call, c'⟩, hmem, rfl⟩ := List.mem_map.mp hc
  have hok := hkept.calls call c' (Dict.mem_items.mp hmem)
  cases hpledge : c'.pledge with
  | none => simp [Call.pledged, hpledge]
  | some =>
    have hpos := Call.pledge_pos hok hpledge
    simp only [Call.pledged, hpledge, elim_some]
    split
    · exact Int.le_of_lt hpos
    · exact Int.le_refl 0

/-- No call has reserved anything of a card's day, or has to give it back. -/
def Settled (s : Bank) (key : String × Int) : Prop :=
  ∀ call c, s.calls.get? call = some c → c.pledge.map Prod.fst ≠ some key

theorem pledged_eq_zero {key : String × Int} (h : Settled s key) : s.pledged key = 0 := by
  apply total_zero
  intro c hc
  obtain ⟨⟨call, c'⟩, hmem, rfl⟩ := List.mem_map.mp hc
  have hne := h call c' (Dict.mem_items.mp hmem)
  cases hpledge : c'.pledge with
  | none => simp [Call.pledged, hpledge]
  | some =>
    rw [hpledge, map_some, ne_eq, Option.some.injEq] at hne
    simp [Call.pledged, hpledge, hne]

/-- What the counters are for. -/
structure WithinLimits (s : Bank) : Prop where
  nonneg : ∀ key, 0 ≤ s.withdrawn key
  /-- between calls, the counter is the sum of the withdrawals that are not reversed -/
  agrees : ∀ key, Settled s key → s.withdrawn key = s.drawn key
  limit : ∀ card c day, s.cards.get? card = some c → s.drawn (card, day) ≤ c.dailyLimit

theorem Daily.withinLimits (h : Daily s) (hkept : WellKept s) : WithinLimits s where
  nonneg key := by
    have hdrawn := drawn_nonneg hkept key
    have hpledged := pledged_nonneg hkept key
    rw [h.withdrawn_eq]
    omega
  agrees key hsettled := by rw [h.withdrawn_eq, pledged_eq_zero hsettled, Int.add_zero]
  limit card c day hcard := by
    have hlimit := h.limit card c day hcard
    have hpledged := pledged_nonneg hkept (card, day)
    rw [h.withdrawn_eq] at hlimit
    omega

/-- Daily limits hold in every run that records each withdrawal on the day it was reserved for. -/
theorem run_withinLimits {accounts : Dict String Account} {cards : Dict String Card} {ids : Nat}
    {today : Int} {steps : List BankStep} {events : List BankEvent}
    (hlimits : ∀ card c, cards.get? card = some c → 0 ≤ c.dailyLimit)
    (hdays : Guarded (fun s a => s.sameDay a = true) step (opened accounts cards ids today) steps)
    (hrun : runSteps step (opened accounts cards ids today) steps = .ok (events, s)) :
    WithinLimits s := by
  have h : WellKept s ∧ Daily s := by
    refine runSteps_keeps (fun _ _ s => WellKept s ∧ Daily s) ?_ ?_ hdays hrun
    · intro _ _ t a event t' _ h hday hstep
      have hstepped := step_cases h.1.calls hstep
      exact ⟨hstepped.wellKept h.1, hstepped.daily h.1 h.2 hday⟩
    · refine ⟨(opened_kept accounts cards ids today).wellKept, fun _ => rfl, ?_⟩
      intro card c day hcard
      exact hlimits card c hcard
  exact h.2.withinLimits h.1

/-- A withdrawal within the limit and one beyond it, on two days, and a reversal. -/
def twoDays : List BankStep :=
  [.authorizeWithdrawal 0 "CARD3" "AC1" 20000 "a", .resume 0 0, .resume 0 0, .resume 0 0,
    .resume 0 0, .resume 0 0, .tick 1, .authorizeWithdrawal 1 "CARD3" "AC1" 50000 "b",
    .resume 1 0, .resume 1 0, .resume 1 0, .resume 1 0, .reverse 2 4, .resume 2 0, .resume 2 0]

theorem sampleCards_limit (card : String) (c : Card) (h : sampleCards.get? card = some c) :
    0 ≤ c.dailyLimit := by
  have hmem := Dict.mem_items.mpr h
  have hitems : sampleCards.items = [("CARD3", ⟨"ada", 700, 2000000, false⟩)] := rfl
  rw [hitems, List.mem_singleton] at hmem
  cases hmem
  decide

theorem run_withinLimits_twoDays :
    ∃ events s, runSteps step (opened sampleAccounts sampleCards 4 0) twoDays = .ok (events, s) ∧
      (s.withdrawn ("CARD3", 0), s.withdrawn ("CARD3", 1)) = (0, 50000) ∧ WithinLimits s := by
  refine exists_run_of_observe
    (f := fun r => (r.2.withdrawn ("CARD3", 0), r.2.withdrawn ("CARD3", 1))) (b := (0, 50000))
    (by decide +kernel) fun events s hrun hobserve => ?_
  have hdays : Guarded (fun s a => s.sameDay a = true) step
      (opened sampleAccounts sampleCards 4 0) twoDays := by decide +kernel
  exact ⟨hobserve, run_withinLimits sampleCards_limit hdays hrun⟩

/-- A withdrawal is reserved before midnight, recorded after it, and reversed. -/
def acrossMidnight : List BankStep :=
  [.authorizeWithdrawal 0 "CARD3" "AC1" 20000 "a", .resume 0 0, .resume 0 0, .resume 0 0, .tick 1,
    .resume 0 0, .resume 0 0, .reverse 1 4, .resume 1 0, .resume 1 0]

/-- With no call under way the counter of the first day is off, and that of the second negative. -/
theorem acrossMidnight_not_withinLimits :
    ∃ events s, runSteps step (opened sampleAccounts sampleCards 4 0) acrossMidnight =
        .ok (events, s) ∧ s.calls.items = [] ∧
      (s.withdrawn ("CARD3", 0), s.drawn ("CARD3", 0)) = (20000, 0) ∧
      (s.withdrawn ("CARD3", 1), s.drawn ("CARD3", 1)) = (-20000, 0) ∧ ¬ WithinLimits s := by
  refine exists_run_of_observe
    (f := fun r => (r.2.calls.items, (r.2.withdrawn ("CARD3", 0), r.2.drawn ("CARD3", 0)),
      r.2.withdrawn ("CARD3", 1), r.2.drawn ("CARD3", 1)))
    (b := ([], (20000, 0), -20000, 0)) (by decide +kernel) fun events s hrun hobserve => ?_
  obtain ⟨hcalls, hrest⟩ := Prod.mk.inj hobserve
  obtain ⟨hfirst, hsecond⟩ := Prod.mk.inj hrest
  refine ⟨hcalls, hfirst, hsecond, ?_⟩
  intro h
  have hnonneg := h.nonneg ("CARD3", 1)
  rw [(Prod.mk.inj hsecond).1] at hnonneg
  exact absurd hnonneg (by decide)

end Bank

end InterviewPrep.Banking
