/-
  A charge is refunded at most once (`Paid`), as long as a call whose hold has lapsed finds
  the payment neither refunded nor about to be (`RefundDue`).  Two calls that pay for one
  booking and lapse together break it (`refundedTwice`).
-/
import InterviewPrep.Lib.Totals
import InterviewPrep.MovieBooking.Sold

namespace InterviewPrep.MovieBooking

open Lib Dict Option

namespace Call

def stake : Call → Option (BookingId × PaymentId)
  | confirming booking payment | refunding booking payment | returning booking payment =>
    some (booking, payment)
  | _ => none

def awaits (booking : BookingId) (c : Call) : Nat :=
  if c.charged = some booking then 1 else 0

def repays (payment : PaymentId) (c : Call) : Nat :=
  if c.refunds.map Prod.snd = some payment then 1 else 0

variable {c : Call}

theorem stake_of_unpaid (h : c.Unpaid) : c.stake = none := by
  cases c <;> simp_all [Unpaid, charged, refunds, stake]

theorem awaits_of_stake {booking : BookingId} (h : ∀ payment, c.stake ≠ some (booking, payment)) :
    c.awaits booking = 0 := by
  cases c <;> simp_all [awaits, charged, stake]

theorem repays_of_stake {payment : PaymentId} (h : ∀ booking, c.stake ≠ some (booking, payment)) :
    c.repays payment = 0 := by
  cases c <;> simp_all [repays, refunds, stake]

end Call

namespace BookingService

variable {s s' : BookingService} {event : BookingEvent} {a : BookingStep} {payment : PaymentId}
  {calls : Dict Nat Call} {call : Nat} {old next : Option Call} {booking : BookingId} {b : Booking}

/-! ## The invariant -/

/-- How many calls have charged for a booking and not settled it yet. -/
def awaiting (s : BookingService) (booking : BookingId) : Nat := s.calls.total (Call.awaits booking)

/-- How many calls are about to refund a payment. -/
def refunding (s : BookingService) (payment : PaymentId) : Nat :=
  s.calls.total (Call.repays payment)

/-- The refunds of a payment, made or about to be. -/
def repaid (s : BookingService) (payment : PaymentId) : Nat :=
  s.gateway.refunded payment + s.refunding payment

/-- A booking that was charged is confirmed, or refunded once, or a call sees to it. -/
def Balanced (status : BookingStatus) (repaid awaiting : Nat) : Prop :=
  match status with
  | .confirmed => repaid = 0
  | .pending => repaid = 0 ∧ 1 ≤ awaiting
  | .cancelled | .expired => repaid = 1 ∨ repaid = 0 ∧ 1 ≤ awaiting

structure Paid (s : BookingService) : Prop where
  one : ∀ booking booking' payment, s.gateway.byKey.get? booking = some payment →
    s.gateway.byKey.get? booking' = some payment → booking = booking'
  stake : ∀ call c booking payment, s.calls.get? call = some c → c.stake = some (booking, payment) →
    s.gateway.byKey.get? booking = some payment
  refunds : ∀ payment, s.gateway.refunded payment ≠ 0 →
    ∃ booking, s.gateway.byKey.get? booking = some payment
  confirmed : ∀ booking b, s.bookings.get? booking = some b → b.status = .confirmed →
    ∃ payment, b.paymentId = some payment ∧ s.gateway.byKey.get? booking = some payment
  charged : ∀ booking payment, s.gateway.byKey.get? booking = some payment →
    payment < s.gateway.nextId ∧ ∃ b, s.bookings.get? booking = some b ∧
      Balanced b.status (s.repaid payment) (s.awaiting booking)

/-- A call that is to refund because its hold has lapsed is the only one. -/
def RefundDue (s : BookingService) (a : BookingStep) : Prop :=
  ∀ payment ∈ s.lapses a, s.gateway.refunded payment = 0 ∧ s.refunding payment = 0

instance (s : BookingService) (a : BookingStep) : Decidable (RefundDue s a) :=
  inferInstanceAs (Decidable (∀ payment ∈ s.lapses a, _ ∧ _))

theorem Balanced.mono {status : BookingStatus} {repaid awaiting awaiting' : Nat}
    (h : Balanced status repaid awaiting) (hle : awaiting ≤ awaiting') :
    Balanced status repaid awaiting' := by
  cases status <;> simp only [Balanced] at h ⊢ <;> omega

theorem charge_ok {gateway gateway' : PaymentGateway} {key : BookingId} {amount : Int}
    {declined : Bool} (h : gateway.charge key amount declined = .ok (payment, gateway')) :
    gateway.byKey.get? key = some payment ∧ gateway' = gateway ∨
      gateway.byKey.get? key = none ∧ payment = gateway.nextId ∧ gateway' = { gateway with
          byKey := gateway.byKey.set key gateway.nextId
          charges := gateway.charges ++ [(gateway.nextId, amount)]
          nextId := gateway.nextId + 1 } := by
  unfold PaymentGateway.charge at h
  split at h
  · next hkey =>
      cases h
      exact .inl ⟨hkey, rfl⟩
  · next hkey =>
      split at h
      · cases h
      · cases h
        exact .inr ⟨hkey, rfl, rfl⟩

theorem refunded_refund (gateway : PaymentGateway) (payment q : PaymentId) (amount : Int) :
    (gateway.refund payment amount).refunded q =
      gateway.refunded q + if payment = q then 1 else 0 := by
  simp [PaymentGateway.refunded, PaymentGateway.refund, List.count_cons]

theorem new_paid (shows : Dict String Show) (holdTtl now : Int) : Paid (new shows holdTtl now) where
  one _ _ _ h := by cases h
  stake _ _ _ _ h := by cases h
  refunds _ h := absurd rfl h
  confirmed _ _ h := by cases h
  charged _ _ h := by cases h

/-! ## The calls -/

theorem awaiting_put (hcall : calls.get? call = old) (next : Option Call) (booking : BookingId) :
    old.elim 0 (Call.awaits booking) + (calls.put call next).total (Call.awaits booking) =
      next.elim 0 (Call.awaits booking) + calls.total (Call.awaits booking) :=
  total_put hcall next (Call.awaits booking)

theorem repaying_put (hcall : calls.get? call = old) (next : Option Call) (payment : PaymentId) :
    old.elim 0 (Call.repays payment) + (calls.put call next).total (Call.repays payment) =
      next.elim 0 (Call.repays payment) + calls.total (Call.repays payment) :=
  total_put hcall next (Call.repays payment)

theorem unpaid_elim {o : Option Call} (h : ∀ c ∈ o, c.Unpaid) (booking : BookingId)
    (payment : PaymentId) :
    o.elim 0 (Call.awaits booking) = 0 ∧ o.elim 0 (Call.repays payment) = 0 := by
  cases o with
  | none => exact ⟨rfl, rfl⟩
  | some c =>
    have hstake := Call.stake_of_unpaid (h c rfl)
    exact ⟨Call.awaits_of_stake (by simp [hstake]), Call.repays_of_stake (by simp [hstake])⟩

theorem unpaid_put (hcall : calls.get? call = old) (hold : ∀ c ∈ old, c.Unpaid)
    (hnext : ∀ c ∈ next, c.Unpaid) (booking : BookingId) (payment : PaymentId) :
    (calls.put call next).total (Call.awaits booking) = calls.total (Call.awaits booking) ∧
      (calls.put call next).total (Call.repays payment) = calls.total (Call.repays payment) := by
  have hput := awaiting_put hcall next booking
  have hput' := repaying_put hcall next payment
  have hbefore := unpaid_elim hold booking payment
  have hafter := unpaid_elim hnext booking payment
  omega

theorem refunding_eq_zero
    (h : ∀ call c booking, s.calls.get? call = some c → c.stake ≠ some (booking, payment)) :
    s.refunding payment = 0 := by
  apply total_zero
  intro c hc
  obtain ⟨entry, hentry, rfl⟩ := List.mem_map.mp hc
  apply Call.repays_of_stake
  intro booking
  exact h entry.1 entry.2 booking (mem_items_iff.mp hentry)

theorem Paid.about (h : Paid s) (booking : BookingId)
    (hcall : s.calls.get? call = old) (next : Option Call)
    (hcalls : s'.calls = s.calls.put call next)
    (hold : ∀ c ∈ old, ∀ n payment, c.stake = some (n, payment) → n = booking)
    (hnext : ∀ c ∈ next, ∀ n payment, c.stake = some (n, payment) →
      n = booking ∧ s'.gateway.byKey.get? booking = some payment)
    (hothers : ∀ n, n ≠ booking → s'.bookings.get? n = s.bookings.get? n ∧
      s'.gateway.byKey.get? n = s.gateway.byKey.get? n)
    (hkept : ∀ payment, s.gateway.byKey.get? booking = some payment →
      s'.gateway.byKey.get? booking = some payment)
    (hids : s.gateway.nextId ≤ s'.gateway.nextId)
    (hrefunds : ∀ payment, s'.gateway.byKey.get? booking ≠ some payment →
      s'.gateway.refunded payment = s.gateway.refunded payment)
    (hconfirmed : ∀ b, s'.bookings.get? booking = some b → b.status = .confirmed →
      ∃ payment, b.paymentId = some payment ∧ s'.gateway.byKey.get? booking = some payment)
    (hnew : ∀ payment, s'.gateway.byKey.get? booking = some payment →
      (s.gateway.byKey.get? booking = some payment ∨ payment = s.gateway.nextId) ∧
        payment < s'.gateway.nextId ∧ ∃ b, s'.bookings.get? booking = some b ∧
          Balanced b.status (s'.repaid payment) (s'.awaiting booking)) : Paid s' := by
  have hother : ∀ n payment, n ≠ booking → s'.gateway.byKey.get? n = some payment →
      s.gateway.byKey.get? n = some payment := fun n payment hne hget => (hothers n hne).2 ▸ hget
  have hfresh : ∀ n payment, n ≠ booking → s'.gateway.byKey.get? n = some payment →
      s'.gateway.byKey.get? booking ≠ some payment := by
    intro n payment hne hget hsame
    have hget := hother n payment hne hget
    rcases (hnew payment hsame).1 with hold' | rfl
    · exact hne (h.one n booking payment hget hold')
    · exact Nat.lt_irrefl _ (h.charged n _ hget).1
  constructor
  · intro n m payment hn hm
    by_cases hnb : n = booking
    · subst hnb
      by_cases hmb : m = n
      · exact hmb.symm
      · exact absurd hn (hfresh m payment hmb hm)
    · by_cases hmb : m = booking
      · subst hmb
        exact absurd hm (hfresh n payment hnb hn)
      · exact h.one n m payment (hother n payment hnb hn) (hother m payment hmb hm)
  · intro k c n payment hk hc
    rw [hcalls] at hk
    rcases put_some hk with ⟨-, hsome⟩ | ⟨-, hk⟩
    · obtain ⟨rfl, hget⟩ := hnext c hsome n payment hc
      exact hget
    · have hget := h.stake k c n payment hk hc
      by_cases hnb : n = booking
      · subst hnb
        exact hkept payment hget
      · rw [(hothers n hnb).2]
        exact hget
  · intro payment hne
    by_cases hmine : s'.gateway.byKey.get? booking = some payment
    · exact ⟨booking, hmine⟩
    · rw [hrefunds payment hmine] at hne
      obtain ⟨n, hn⟩ := h.refunds payment hne
      have hnb : n ≠ booking := by
        rintro rfl
        exact hmine (hkept payment hn)
      exact ⟨n, (hothers n hnb).2.trans hn⟩
  · intro n b hn hstatus
    by_cases hnb : n = booking
    · subst hnb
      exact hconfirmed b hn hstatus
    · obtain ⟨payment, hpayment, hget⟩ := h.confirmed n b ((hothers n hnb).1 ▸ hn) hstatus
      exact ⟨payment, hpayment, (hothers n hnb).2.trans hget⟩
  intro n payment hn
  by_cases hnb : n = booking
  · subst hnb
    exact (hnew payment hn).2
  have hnot := hfresh n payment hnb hn
  obtain ⟨hissued, b, hget, hold'⟩ := h.charged n payment (hother n payment hnb hn)
  -- the call neither awaits this booking nor refunds its payment
  have hawait : s'.awaiting n = s.awaiting n := by
    have hput := awaiting_put hcall next n
    have hbefore : old.elim 0 (Call.awaits n) = 0 := by
      cases old with
      | none => rfl
      | some c => exact Call.awaits_of_stake fun p hc => hnb (hold c rfl n p hc)
    have hafter : next.elim 0 (Call.awaits n) = 0 := by
      cases next with
      | none => rfl
      | some c => exact Call.awaits_of_stake fun p hc => hnb (hnext c rfl n p hc).1
    rw [awaiting, awaiting, hcalls]
    omega
  have hrepay : s'.refunding payment = s.refunding payment := by
    have hput := repaying_put hcall next payment
    have hbefore : old.elim 0 (Call.repays payment) = 0 := by
      cases old with
      | none => rfl
      | some c =>
        apply Call.repays_of_stake
        intro m hc
        have hm := hold c rfl m payment hc
        subst hm
        exact hnot (hkept payment (h.stake call c m payment hcall hc))
    have hafter : next.elim 0 (Call.repays payment) = 0 := by
      cases next with
      | none => rfl
      | some c => exact Call.repays_of_stake fun m hc => hnot (hnext c rfl m payment hc).2
    rw [refunding, refunding, hcalls]
    omega
  rw [hawait, repaid, hrefunds payment hnot, hrepay]
  exact ⟨Nat.lt_of_lt_of_le hissued hids, b, (hothers n hnb).1.trans hget, hold'⟩

theorem Paid.same (h : Paid s) (hcall : s.calls.get? call = old) (next : Option Call)
    (hcalls : s'.calls = s.calls.put call next) (hold : ∀ c ∈ old, c.Unpaid)
    (hnext : ∀ c ∈ next, c.Unpaid) (hbookings : s'.bookings = s.bookings)
    (hgateway : s'.gateway = s.gateway) : Paid s' := by
  constructor
  · rw [hgateway]
    exact h.one
  · intro k c n payment hk hc
    rw [hcalls] at hk
    rw [hgateway]
    rcases put_some hk with ⟨-, hsome⟩ | ⟨-, hk⟩
    · rw [Call.stake_of_unpaid (hnext c hsome)] at hc
      cases hc
    · exact h.stake k c n payment hk hc
  · rw [hgateway]
    exact h.refunds
  · rw [hgateway, hbookings]
    exact h.confirmed
  · intro n payment hn
    rw [hgateway] at hn
    have hput := unpaid_put hcall hold hnext n payment
    rw [awaiting, repaid, refunding, hcalls, hgateway, hbookings, hput.1, hput.2]
    exact h.charged n payment hn

theorem Paid.write (h : Paid s) (b' : Booking)
    (hcall : s.calls.get? call = old) (next : Option Call)
    (hcalls : s'.calls = s.calls.put call next)
    (hold : ∀ c ∈ old, ∀ n payment, c.stake = some (n, payment) → n = booking)
    (hnext : ∀ c ∈ next, ∀ n payment, c.stake = some (n, payment) →
      n = booking ∧ s.gateway.byKey.get? booking = some payment)
    (hget : s.bookings.get? booking = some b)
    (hbookings : ∀ n, s'.bookings.get? n = if n = booking then some b' else s.bookings.get? n)
    (hbyKey : s'.gateway.byKey = s.gateway.byKey) (hids : s'.gateway.nextId = s.gateway.nextId)
    (hrefunds : ∀ payment, s.gateway.byKey.get? booking ≠ some payment →
      s'.gateway.refunded payment = s.gateway.refunded payment)
    (hconfirmed : b'.status = .confirmed →
      ∃ payment, b'.paymentId = some payment ∧ s.gateway.byKey.get? booking = some payment)
    (hbalanced : ∀ payment, s.gateway.byKey.get? booking = some payment →
      Balanced b.status (s.repaid payment) (s.awaiting booking) →
      Balanced b'.status (s'.repaid payment) (s'.awaiting booking)) : Paid s' := by
  have hself : s'.bookings.get? booking = some b' := (hbookings booking).trans (if_pos rfl)
  apply h.about booking hcall next hcalls hold
  · rw [hbyKey]
    exact hnext
  · intro n hn
    rw [hbyKey]
    exact ⟨(hbookings n).trans (if_neg hn), rfl⟩
  · rw [hbyKey]
    exact fun payment hp => hp
  · exact Nat.le_of_eq hids.symm
  · rw [hbyKey]
    exact hrefunds
  · intro c hc hstatus
    cases hself.symm.trans hc
    rw [hbyKey]
    exact hconfirmed hstatus
  · intro payment hp
    rw [hbyKey] at hp
    obtain ⟨hissued, c, hc, hold'⟩ := h.charged booking payment hp
    cases hget.symm.trans hc
    exact ⟨.inl hp, hissued.trans_eq hids.symm, b', hself, hbalanced payment hp hold'⟩

/-! ## Steps -/

theorem get?_self (hget : s.bookings.get? booking = some b) (n : BookingId) :
    s.bookings.get? n = if n = booking then some b else s.bookings.get? n := by
  split
  · next heq => rw [heq, hget]
  · rfl

theorem Paid.expire (h : Paid s) {c : Call} (hcall : s.calls.get? call = some c) (hc : c.Unpaid)
    (hnext : ∀ c ∈ next, c.Unpaid) (hget : s.bookings.get? booking = some b) :
    Paid { (s.expireLocked booking b).2 with
      calls := (s.expireLocked booking b).2.calls.put call next } := by
  have hold : ∀ d ∈ some c, d.Unpaid := by
    rintro _ ⟨⟩
    exact hc
  unfold expireLocked
  split
  · exact h.same hcall next rfl hold hnext rfl rfl
  · next hstatus =>
      have hpending : b.status = .pending := by simpa using hstatus
      have hput := unpaid_put hcall hold hnext
      apply h.write { b with status := .expired } hcall next (by rfl) _ _ hget
        (fun n => get?_set _ _ _ _) (by rfl) (by rfl) (fun _ _ => by rfl)
      · intro hconfirmed
        cases hconfirmed
      · intro payment hp hbalanced
        rw [hpending] at hbalanced
        obtain ⟨hrepaid, hawaiting⟩ := hbalanced
        right
        constructor
        · show s.gateway.refunded payment + (s.calls.put call next).total (Call.repays payment) = 0
          rw [(hput booking payment).2]
          exact hrepaid
        · show 1 ≤ (s.calls.put call next).total (Call.awaits booking)
          rw [(hput booking payment).1]
          exact hawaiting
      · rintro _ ⟨⟩ n p hstake
        rw [Call.stake_of_unpaid hc] at hstake
        cases hstake
      · intro d hd n p hstake
        rw [Call.stake_of_unpaid (hnext d hd)] at hstake
        cases hstake

theorem Paid.charge (h : Paid s) {amount : Int} {declined : Bool} {gateway : PaymentGateway}
    (hcall : s.calls.get? call = some (.charging booking)) (hget : s.bookings.get? booking = some b)
    (hcharge : s.gateway.charge booking amount declined = .ok (payment, gateway)) :
    Paid { s with gateway, calls := s.calls.put call (some (.confirming booking payment)) } := by
  have hput := awaiting_put hcall (some (.confirming booking payment)) booking
  have hput' := repaying_put hcall (some (.confirming booking payment))
  simp only [Option.elim, Call.awaits, Call.repays, Call.charged, Call.refunds, if_true,
    map_none, reduceCtorEq, if_false, Nat.zero_add] at hput hput'
  rcases charge_ok hcharge with ⟨hkey, rfl⟩ | ⟨hkey, rfl, rfl⟩
  · apply h.write b hcall (some (.confirming booking payment)) (by rfl) _ _ hget
      (by exact get?_self hget) (by rfl) (by rfl) (fun _ _ => by rfl)
      (h.confirmed booking b hget)
    · intro p hp hbalanced
      show Balanced b.status (s.gateway.refunded p + (s.calls.put call _).total (Call.repays p))
        ((s.calls.put call _).total (Call.awaits booking))
      have hsame : (s.calls.put call (some (.confirming booking payment))).total (Call.repays p) =
          s.refunding p := hput' p
      rw [hsame]
      apply hbalanced.mono
      exact Nat.le_trans (Nat.le_add_left _ 1) (Nat.le_of_eq hput.symm)
    · rintro _ ⟨⟩ n p hstake
      cases hstake
    · rintro _ ⟨⟩ n p hstake
      cases hstake
      exact ⟨rfl, hkey⟩
  have hself : (s.gateway.byKey.set booking s.gateway.nextId).get? booking =
      some s.gateway.nextId := get?_set_self _ _ _
  apply h.about booking hcall (some (.confirming booking s.gateway.nextId)) (by rfl)
  · rintro _ ⟨⟩ n p hstake
    cases hstake
  · rintro _ ⟨⟩ n p hstake
    cases hstake
    exact ⟨rfl, hself⟩
  · intro n hn
    exact ⟨rfl, get?_set_of_ne _ _ hn⟩
  · intro p hp
    rw [hkey] at hp
    cases hp
  · exact Nat.le_succ _
  · intro p _
    rfl
  · intro c hc hstatus
    obtain ⟨p, -, hp⟩ := h.confirmed booking c hc hstatus
    rw [hkey] at hp
    cases hp
  intro p hp
  cases hself.symm.trans hp
  refine ⟨.inr rfl, Nat.lt_succ_self _, b, hget, ?_⟩
  -- no payment has that id yet
  have hrefunded : s.gateway.refunded s.gateway.nextId = 0 := by
    by_contra hne
    obtain ⟨n, hn⟩ := h.refunds _ hne
    exact Nat.lt_irrefl _ (h.charged n _ hn).1
  have hrefunding : s.refunding s.gateway.nextId = 0 := by
    apply refunding_eq_zero
    intro k d n hk hstake
    exact Nat.lt_irrefl _ (h.charged n _ (h.stake k d n _ hk hstake)).1
  have hzero : s.gateway.refunded s.gateway.nextId +
      (s.calls.put call (some (.confirming booking s.gateway.nextId))).total
        (Call.repays s.gateway.nextId) = 0 := by
    rw [hput' s.gateway.nextId, hrefunded, Nat.zero_add]
    exact hrefunding
  have hstatus : b.status ≠ .confirmed := by
    intro hstatus
    obtain ⟨p, -, hp⟩ := h.confirmed booking b hget hstatus
    rw [hkey] at hp
    cases hp
  have hone : 1 ≤ (s.calls.put call (some (.confirming booking s.gateway.nextId))).total
      (Call.awaits booking) := Nat.le_trans (Nat.le_add_right 1 _) (Nat.le_of_eq hput.symm)
  cases hb : b.status with
  | confirmed => exact absurd hb hstatus
  | pending => exact ⟨hzero, hone⟩
  | cancelled | expired => exact .inr ⟨hzero, hone⟩

theorem Paid.settled (h : Paid s) (b' : Booking)
    (hcall : s.calls.get? call = some (.confirming booking payment))
    (hnext : next = none ∨ next = some (.refunding booking payment))
    (hget : s.bookings.get? booking = some b)
    (hbookings : ∀ n, s'.bookings.get? n = if n = booking then some b' else s.bookings.get? n)
    (hcalls : s'.calls = s.calls.put call next) (hgateway : s'.gateway = s.gateway)
    (hconfirmed : b'.status = .confirmed → b' = b ∨ b'.paymentId = some payment)
    (hstatus : next = none ∧ b'.status = .confirmed ∧
      (b.status = .pending ∨ b.status = .confirmed) ∨
      next = some (.refunding booking payment) ∧ (b'.status = .cancelled ∨ b'.status = .expired) ∧
        s.repaid payment = 0) : Paid s' := by
  have hkey := h.stake call _ booking payment hcall rfl
  have hput := awaiting_put hcall next booking
  have hput' := repaying_put hcall next payment
  apply h.write b' hcall next hcalls _ _ hget hbookings (by rw [hgateway]) (by rw [hgateway])
    (fun _ _ => by rw [hgateway])
  · intro hstatus'
    rcases hconfirmed hstatus' with rfl | hpayment
    · exact h.confirmed booking b' hget hstatus'
    · exact ⟨payment, hpayment, hkey⟩
  · intro p hp hbalanced
    cases hkey.symm.trans hp
    rw [repaid, refunding, awaiting, hcalls, hgateway]
    rcases hstatus with ⟨rfl, hafter, hbefore⟩ | ⟨rfl, hafter, hzero⟩
    · have hrepaid : s.gateway.refunded payment + s.refunding payment = 0 := by
        rcases hbefore with hbefore | hbefore <;> rw [hbefore] at hbalanced
        · exact hbalanced.1
        · exact hbalanced
      rw [hafter]
      simp only [Option.elim, Call.repays, Call.refunds, map_none, reduceCtorEq, if_false,
        Nat.zero_add] at hput'
      rw [hput']
      exact hrepaid
    simp only [Option.elim, Call.repays, Call.refunds, map_some, map_none,
      reduceCtorEq, if_true, if_false, Nat.zero_add] at hput'
    have hone : s.gateway.refunded payment +
        (s.calls.put call (some (.refunding booking payment))).total (Call.repays payment) = 1 := by
      rw [hput', Nat.add_left_comm]
      exact congrArg (1 + ·) hzero
    rcases hafter with hafter | hafter <;> rw [hafter] <;> exact .inl hone
  · rintro _ ⟨⟩ n p hstake
    cases hstake
    rfl
  · intro c hc n p hstake
    rcases hnext with rfl | rfl
    · cases hc
    · cases hc
      cases hstake
      exact ⟨rfl, hkey⟩

theorem Paid.cancel (h : Paid s) (hcall : s.calls.get? call = some (.cancelling booking))
    (hget : s.bookings.get? booking = some b) (hcase : b.status = .pending ∧ next = none ∨
      b.status = .confirmed ∧ next = b.paymentId.map (.returning booking))
    (seats : SeatKey → ShowSeat) : Paid { s with
      seats, bookings := s.bookings.set booking { b with status := .cancelled }
      calls := s.calls.put call next } := by
  have hput := awaiting_put hcall next booking
  have hput' := repaying_put hcall next
  apply h.write { b with status := .cancelled } hcall next (by rfl) _ _ hget
    (fun n => get?_set _ _ _ _) (by rfl) (by rfl) (fun _ _ => by rfl)
  · intro hconfirmed
    cases hconfirmed
  · intro payment hp hbalanced
    show (s.gateway.refunded payment + (s.calls.put call next).total (Call.repays payment) = 1 ∨
      s.gateway.refunded payment + (s.calls.put call next).total (Call.repays payment) = 0 ∧
        1 ≤ (s.calls.put call next).total (Call.awaits booking))
    have hrepay := hput' payment
    rcases hcase with ⟨hstatus, rfl⟩ | ⟨hstatus, rfl⟩ <;> rw [hstatus] at hbalanced
    · obtain ⟨hzero, hone⟩ := hbalanced
      right
      simp only [Option.elim, Call.repays, Call.refunds, Call.awaits, Call.charged, map_none,
        reduceCtorEq, if_false, Nat.zero_add] at hrepay hput
      rw [hrepay, hput]
      exact ⟨hzero, hone⟩
    -- the confirmed booking knows its payment
    obtain ⟨q, hq, hkey⟩ := h.confirmed booking b hget hstatus
    cases hp.symm.trans hkey
    left
    rw [hq] at hrepay ⊢
    simp only [Option.elim, Call.repays, Call.refunds, map_some, map_none,
      reduceCtorEq, if_true, if_false, Nat.zero_add] at hrepay
    show s.gateway.refunded payment +
      (s.calls.put call (some (.returning booking payment))).total (Call.repays payment) = 1
    rw [hrepay, Nat.add_left_comm]
    exact congrArg (1 + ·) hbalanced
  · rintro _ ⟨⟩ n p hstake
    cases hstake
  · intro c hc n p hstake
    rcases hcase with ⟨-, rfl⟩ | ⟨hstatus, rfl⟩
    · cases hc
    · obtain ⟨q, hq, rfl⟩ := map_eq_some_iff.mp hc
      cases hstake
      obtain ⟨q, hq', hkey⟩ := h.confirmed booking b hget hstatus
      cases hq.symm.trans hq'
      exact ⟨rfl, hkey⟩

theorem Paid.refund (h : Paid s) {c : Call} (hcall : s.calls.get? call = some c)
    (hrefunds : c.refunds = some (booking, payment)) (amount : Int) :
    Paid { s with gateway := s.gateway.refund payment amount, calls := s.calls.put call none } := by
  have hstake : c.stake = some (booking, payment) := by
    cases c <;> first | exact hrefunds | cases hrefunds
  have hcharged : c.charged = none := by
    cases c <;> first | rfl | cases hrefunds
  have hkey := h.stake call c booking payment hcall hstake
  obtain ⟨-, b, hget, -⟩ := h.charged booking payment hkey
  have hput := awaiting_put hcall none booking
  have hput' := repaying_put hcall none payment
  simp only [Option.elim, Call.awaits, Call.repays, hcharged, hrefunds, map_some,
    reduceCtorEq, if_true, if_false, Nat.zero_add] at hput hput'
  apply h.write b hcall none (by rfl) _ _ hget (by exact get?_self hget) (by rfl) (by rfl) _
    (h.confirmed booking b hget)
  · intro p hp hbalanced
    cases hkey.symm.trans hp
    have hrepaid : (s.gateway.refund payment amount).refunded payment +
        (s.calls.put call none).total (Call.repays payment) = s.repaid payment := by
      rw [refunded_refund, if_pos rfl, Nat.add_assoc]
      exact congrArg (s.gateway.refunded payment + ·) hput'
    have hawait : (s.calls.put call none).total (Call.awaits booking) = s.awaiting booking := hput
    show Balanced b.status ((s.gateway.refund payment amount).refunded payment +
      (s.calls.put call none).total (Call.repays payment))
      ((s.calls.put call none).total (Call.awaits booking))
    rw [hrepaid, hawait]
    exact hbalanced
  · rintro _ ⟨⟩ n p hn
    rw [hstake] at hn
    cases hn
    rfl
  · rintro _ ⟨⟩
  · intro p hp
    rw [refunded_refund, if_neg, Nat.add_zero]
    rintro rfl
    exact hp hkey

theorem Paid.register (h : Paid s) (hs : Sold s) (hcall : s.calls.get? call = some (.registering b))
    : Paid { s with bookings := s.bookings.set b.bookingId b, calls := s.calls.put call none } := by
  have hnone := (hs.draft call _ _ hcall rfl).2
  have hkey : ∀ payment, s.gateway.byKey.get? b.bookingId ≠ some payment := by
    intro payment hp
    obtain ⟨-, c, hc, -⟩ := h.charged _ _ hp
    rw [hnone] at hc
    cases hc
  apply h.about b.bookingId hcall none (by rfl)
  · rintro _ ⟨⟩ n p hstake
    cases hstake
  · rintro _ ⟨⟩
  · intro n hn
    exact ⟨get?_set_of_ne _ _ hn, rfl⟩
  · intro p hp
    exact absurd hp (hkey p)
  · exact Nat.le_refl _
  · intro p _
    rfl
  · intro c hc hstatus
    cases (get?_set_self _ _ _).symm.trans hc
    rw [hs.drafted call b hcall] at hstatus
    cases hstatus
  · intro p hp
    exact absurd hp (hkey p)

theorem Moved.paid (hs : Sold s) (h : Paid s) (hdue : RefundDue s a) (hm : Moved s a event s') :
    Paid s' := by
  cases hm with
  | ticked =>
    exact ⟨h.one, h.stake, h.refunds, h.confirmed, h.charged⟩
  | rejected => exact h
  | drafted _ showId userId seatIds hcall =>
    apply h.same hcall (some (.holding s.nextId showId userId seatIds)) (by rfl) _ _
      (by rfl) (by rfl)
    · rintro _ ⟨⟩
    · rintro _ ⟨⟩
      exact ⟨rfl, rfl⟩
  | held _ b _ hcall =>
    apply h.same hcall (some (.registering b)) (by rfl) _ _ (by rfl) (by rfl)
    · rintro _ ⟨⟩
      exact ⟨rfl, rfl⟩
    · rintro _ ⟨⟩
      exact ⟨rfl, rfl⟩
  | registered _ _ hcall => exact h.register hs hcall
  | wentOn _ _ _ next hcall hold hnext =>
    exact h.same hcall next (by rfl) hold (fun c hc => (hnext c hc).2) (by rfl) (by rfl)
  | expired _ _ c _ _ _ hcall hold hnext hget =>
    exact h.expire hcall hold (fun c hc => (hnext c hc).2) hget
  | charged _ _ _ _ _ _ _ hcall hget hcharge =>
    exact h.charge hcall hget hcharge
  | confirmedBefore _ _ b _ hcall hget hstatus =>
    exact h.settled b hcall (.inl rfl) hget (by exact get?_self hget) (by rfl) (by rfl)
      (fun _ => .inl rfl) (.inl ⟨rfl, hstatus, .inr hstatus⟩)
  | confirmed _ _ b payment hcall hget hours =>
    have hpending : b.status = .pending := (of_decide_eq_true hours).1
    exact h.settled { b with status := .confirmed, paymentId := some payment } hcall
      (.inl rfl) hget (fun n => get?_set _ _ _ _) (by rfl) (by rfl) (fun _ => .inr rfl)
      (.inl ⟨rfl, rfl, .inl hpending⟩)
  | lapsed _ _ b payment hcall hget hstatus hlapses =>
    obtain ⟨hrefunded, hrefunding⟩ := hdue payment hlapses
    have hzero : s.repaid payment = 0 := by
      rw [repaid, hrefunded, hrefunding]
    unfold expireLocked
    split
    · next hpending =>
        apply h.settled b hcall (.inr rfl) hget (by exact get?_self hget) (by rfl) (by rfl)
          (fun _ => .inl rfl) (.inr ⟨rfl, _, hzero⟩)
        cases hb : b.status with
        | pending => exact absurd hb hpending
        | confirmed => exact absurd hb hstatus
        | cancelled => exact .inl rfl
        | expired => exact .inr rfl
    · exact h.settled { b with status := .expired } hcall (.inr rfl) hget
        (fun n => get?_set _ _ _ _) (by rfl) (by rfl)
        nofun (.inr ⟨rfl, .inr rfl, hzero⟩)
  | cancelled _ _ _ _ _ hcall hget hcase => exact h.cancel hcall hget hcase _
  | refunded _ _ _ _ _ amount hcall hrefunds =>
    exact h.refund hcall hrefunds amount

/-! ## Runs -/

/-- What becomes of the charges. -/
structure RefundedOnce (s : BookingService) : Prop where
  atMostOnce : ∀ payment, s.gateway.refunded payment ≤ 1
  confirmed : ∀ booking b payment, s.bookings.get? booking = some b → b.status = .confirmed →
    b.paymentId = some payment ∨ s.gateway.byKey.get? booking = some payment →
    s.gateway.refunded payment = 0
  exactlyOnce : s.calls.items = [] → ∀ booking b payment, s.bookings.get? booking = some b →
    b.status ≠ .confirmed → s.gateway.byKey.get? booking = some payment →
    s.gateway.refunded payment = 1

theorem Paid.refundedOnce (h : Paid s) : RefundedOnce s := by
  have hrefunded : ∀ payment, s.gateway.refunded payment ≤ s.repaid payment :=
    fun payment => Nat.le_add_right _ _
  constructor
  · intro payment
    by_cases hzero : s.gateway.refunded payment = 0
    · omega
    · obtain ⟨booking, hkey⟩ := h.refunds payment hzero
      obtain ⟨-, b, -, hbalanced⟩ := h.charged booking payment hkey
      have hle := hrefunded payment
      cases hb : b.status <;> simp only [hb, Balanced] at hbalanced <;> omega
  · intro booking b payment hget hstatus hpayment
    obtain ⟨q, hq, hkey⟩ := h.confirmed booking b hget hstatus
    have hsame : q = payment := by
      rcases hpayment with hp | hp
      · exact some.inj (hq.symm.trans hp)
      · exact some.inj (hkey.symm.trans hp)
    subst hsame
    obtain ⟨-, c, hget', hbalanced⟩ := h.charged booking q hkey
    cases hget.symm.trans hget'
    rw [hstatus] at hbalanced
    exact Nat.eq_zero_of_le_zero (Nat.le_trans (hrefunded q) (Nat.le_of_eq hbalanced))
  · intro hcalls booking b payment hget hstatus hkey
    obtain ⟨-, c, hget', hbalanced⟩ := h.charged booking payment hkey
    cases hget.symm.trans hget'
    have hempty : ∀ f : Call → Nat, s.calls.total f = 0 := by
      intro f
      rw [Dict.total, Dict.values, hcalls]
      rfl
    rw [repaid, refunding, awaiting, hempty, hempty] at hbalanced
    cases hb : b.status with
    | confirmed => exact absurd hb hstatus
    | _ => simp only [hb, Balanced] at hbalanced; omega

/-- When a lapsed call is always the only one to refund, every charge is refunded exactly once. -/
theorem run_refundedOnce {shows : Dict String Show} {holdTtl now : Int} {as : List BookingStep}
    {trace : List BookingEvent} (hdue : Guarded RefundDue step (new shows holdTtl now) as)
    (hrun : runSteps step (new shows holdTtl now) as = .ok (trace, s)) : RefundedOnce s := by
  have hstep : ∀ (as : List BookingStep) (os : List BookingEvent) t a o t',
      runSteps step (new shows holdTtl now) as = .ok (os, t) → Paid t → RefundDue t a →
        step t a = .ok (o, t') → Paid t' :=
    fun as os t a o t' hrun ht hdue hok => Moved.paid (run_sold_inv hrun) ht hdue (step_moved hok)
  exact (runSteps_keeps (fun _ _ t => Paid t) hstep (new_paid shows holdTtl now) hdue
    hrun).refundedOnce

/-- A hold lapses while its booking is paid for. -/
def lapsedOnce : List BookingStep :=
  [.holdSeats 0 "SH1" "meera" ["A1"], .resume 0 false, .resume 0 false,
    .payAndConfirm 1 1, .resume 1 false, .resume 1 false, .tick 10, .resume 1 false,
    .resume 1 false]

theorem run_refundedOnce_lapsed :
    ∃ trace s, runSteps step (new sampleShows 10 0) lapsedOnce = .ok (trace, s) ∧
      s.gateway.refunds = [(1, 100)] ∧ RefundedOnce s := by
  refine exists_run_of_observe
    (f := fun r => r.2.gateway.refunds) (b := [(1, 100)]) (by decide +kernel)
    fun trace s hrun hobserve => ?_
  have hdue : Guarded RefundDue step (new sampleShows 10 0) lapsedOnce := by decide +kernel
  exact ⟨hobserve, run_refundedOnce hdue hrun⟩

/-- A booking is paid for by two calls, its hold lapses meanwhile, and each gives the money back. -/
def retriedTooLate : List BookingStep :=
  [.holdSeats 0 "SH1" "asha" ["A1"], .resume 0 false, .resume 0 false,
    .payAndConfirm 1 1, .resume 1 false, .payAndConfirm 2 1, .resume 2 false,
    .resume 1 false, .resume 2 false, .tick 10,
    .resume 1 false, .resume 2 false, .resume 1 false, .resume 2 false]

theorem retriedTooLate_refundedTwice :
    ∃ trace s, runSteps step (new sampleShows 10 0) retriedTooLate = .ok (trace, s) ∧
      s.gateway.charges = [(1, 100)] ∧ s.gateway.refunds = [(1, 100), (1, 100)] ∧
      ¬ RefundedOnce s := by
  refine exists_run_of_observe (f := fun r => (r.2.gateway.charges, r.2.gateway.refunds))
    (b := ([(1, 100)], [(1, 100), (1, 100)])) (by decide +kernel) fun trace s hrun hobserve => ?_
  obtain ⟨hcharges, hrefunds⟩ := Prod.mk.inj hobserve
  refine ⟨hcharges, hrefunds, fun h => ?_⟩
  have htwice : s.gateway.refunded 1 = 2 := by
    rw [PaymentGateway.refunded, hrefunds]
    rfl
  have := h.atMostOnce 1
  omega

end BookingService

end InterviewPrep.MovieBooking
