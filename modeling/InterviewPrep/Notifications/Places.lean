/-
  Where a delivery is.  Between two blocks every delivery is in the place its status says
  (`Place.Fits`): an entry in one of the heaps, a worker, or the dead letters.  A block takes
  one delivery off its place (`InHand`), and ends by putting it in another.

  No delivery is lost and none is sent twice, unless an exception leaves `process_next` with a
  delivery (`run_onePlace`).
-/
import InterviewPrep.Notifications.Service
import InterviewPrep.Lib.Totals

namespace InterviewPrep.Notifications

open Lib Dict List Option

/-! ## Places -/

/-- The delivery that a worker has, inside its send or about to record the result. -/
def Call.deliveryId? : Call → Option Nat
  | .sending id | .recordingSent id _ | .recordingFailure id _ _ _ => some id
  | .submitting _ _ | .claiming _ => none

/-- When a call has read the clock. -/
def Call.reading? : Call → Option ℚ
  | .submitting _ now | .claiming now | .recordingFailure _ _ _ now => some now
  | .sending _ | .recordingSent _ _ => none

def Call.holds (id : Nat) (call : Call) : Nat := if call.deliveryId? = some id then 1 else 0

/-- How often a delivery is in each place, and how often it has been handed to its sender. -/
@[ext] structure Place where
  waiting : Nat
  lost : Nat
  working : Nat
  escaped : Nat
  dead : Nat
  handed : Nat

def tally (d : Option Delivery) (st : DeliveryStatus) : Nat :=
  if d.map Delivery.status = some st then 1 else 0

/-- A delivery is once in the place of its status. -/
structure Place.Fits (p : Place) (d : Option Delivery) : Prop where
  queued : p.waiting + p.lost = tally d .queued
  sending : p.working + p.escaped = tally d .sending
  failed : p.dead = tally d .failed
  handed : p.handed = d.elim 0 Delivery.attempts

/-- The entries of the heaps are of deliveries, with their keys. -/
structure Entries (deliveries : Dict Nat Delivery) (ready : List ReadyEntry)
    (delayed : List DelayedEntry) (clock : ℚ) : Prop where
  isReady : ∀ e ∈ ready, ∃ d, deliveries.get? (entryId e) = some d ∧
    (ofLex e).1 = d.priority.value ∧ d.readyAt ≤ clock
  isDelayed : ∀ e ∈ delayed, ∃ d, deliveries.get? (entryId e) = some d ∧ (ofLex e).1 = d.readyAt
  readyHeap : IsHeap ready
  delayedHeap : IsHeap delayed

@[simp] theorem entryId_entry {α : Type} (key : α) (seq id : Nat) :
    entryId (entry key seq id) = id := rfl

theorem tally_some (d : Delivery) (st : DeliveryStatus) :
    tally (some d) st = if d.status = st then 1 else 0 := by
  simp only [tally, map_some, Option.some.injEq]

variable {st : DeliveryStatus} {o : Option Delivery}

theorem tally_of_eq {d : Delivery} (h : d.status = st) : tally (some d) st = 1 := by
  rw [tally_some, if_pos h]

theorem tally_of_ne {d : Delivery} (h : d.status ≠ st) : tally (some d) st = 0 := by
  rw [tally_some, if_neg h]

theorem tally_none (st : DeliveryStatus) : tally none st = 0 := rfl

theorem tally_ne_zero (d : Option Delivery) (st : DeliveryStatus) (h : tally d st ≠ 0) :
    ∃ d', d = some d' ∧ d'.status = st := by
  rw [tally] at h
  have hst : d.map Delivery.status = some st := by
    by_contra hne
    exact h (if_neg hne)
  exact map_eq_some_iff.mp hst

theorem Place.Fits.queued_only {p : Place} (h : p.Fits o) (hplace : 0 < p.waiting) :
    ∃ d, o = some d ∧ d.status = .queued ∧ p = ⟨1, 0, 0, 0, 0, d.attempts⟩ := by
  have hqueued := h.queued
  obtain ⟨d, rfl, hstatus⟩ := tally_ne_zero o .queued (by omega)
  have hsending := h.sending
  have hfailed := h.failed
  rw [tally_of_eq hstatus] at hqueued
  rw [tally_of_ne (by rw [hstatus]; simp)] at hsending hfailed
  refine ⟨d, rfl, hstatus, ?_⟩
  ext
  · show p.waiting = 1
    omega
  · show p.lost = 0
    omega
  · show p.working = 0
    omega
  · show p.escaped = 0
    omega
  · exact hfailed
  · exact h.handed

theorem Place.Fits.sending_only {p : Place} (h : p.Fits o) (hplace : 0 < p.working) :
    ∃ d, o = some d ∧ d.status = .sending ∧ p = ⟨0, 0, 1, 0, 0, d.attempts⟩ := by
  have hsending := h.sending
  obtain ⟨d, rfl, hstatus⟩ := tally_ne_zero o .sending (by omega)
  have hqueued := h.queued
  have hfailed := h.failed
  rw [tally_of_eq hstatus] at hsending
  rw [tally_of_ne (by rw [hstatus]; simp)] at hqueued hfailed
  refine ⟨d, rfl, hstatus, ?_⟩
  ext
  · show p.waiting = 0
    omega
  · show p.lost = 0
    omega
  · show p.working = 1
    omega
  · show p.escaped = 0
    omega
  · exact hfailed
  · exact h.handed

section

variable {deliveries : Dict Nat Delivery} {ready : List ReadyEntry} {delayed : List DelayedEntry}
  {clock clock' : ℚ} {id x : Nat} {d : Delivery}

section

variable (h : Entries deliveries ready delayed clock)

include h

theorem Entries.set
    (hready : id ∉ ready.map entryId) (hdelayed : id ∉ delayed.map entryId) (d : Delivery) :
    Entries (deliveries.set id d) ready delayed clock := by
  refine ⟨fun e he => ?_, fun e he => ?_, h.readyHeap, h.delayedHeap⟩
  · have hne : entryId e ≠ id := fun heq => hready (heq ▸ List.mem_map_of_mem he)
    rw [get?_set_of_ne _ _ hne]
    exact h.isReady e he
  · have hne : entryId e ≠ id := fun heq => hdelayed (heq ▸ List.mem_map_of_mem he)
    rw [get?_set_of_ne _ _ hne]
    exact h.isDelayed e he

theorem Entries.later (hle : clock ≤ clock') : Entries deliveries ready delayed clock' := by
  refine ⟨fun e he => ?_, h.isDelayed, h.readyHeap, h.delayedHeap⟩
  obtain ⟨d, hd, hkey, hready⟩ := h.isReady e he
  exact ⟨d, hd, hkey, hready.trans hle⟩

theorem Entries.pushReady
    (hd : deliveries.get? id = some d) (hready : d.readyAt ≤ clock) (seq : Nat) :
    Entries deliveries (heappush ready (entry d.priority.value seq id)) delayed clock := by
  refine ⟨fun e he => ?_, h.isDelayed, isHeap_heappush h.readyHeap _, h.delayedHeap⟩
  obtain rfl | he := mem_heappush.mp he
  · exact ⟨d, hd, rfl, hready⟩
  · exact h.isReady e he

theorem Entries.pushDelayed (hd : deliveries.get? id = some d) (seq : Nat) :
    Entries deliveries ready (heappush delayed (entry d.readyAt seq id)) clock := by
  refine ⟨h.isReady, fun e he => ?_, h.readyHeap, isHeap_heappush h.delayedHeap _⟩
  obtain rfl | he := mem_heappush.mp he
  · exact ⟨d, hd, rfl⟩
  · exact h.isDelayed e he

end

theorem Entries.popReady {e : ReadyEntry} (h : Entries deliveries (e :: ready) delayed clock) :
    Entries deliveries ready delayed clock :=
  ⟨fun e he => h.isReady e (mem_cons_of_mem _ he), h.isDelayed, h.readyHeap.of_cons, h.delayedHeap⟩

theorem Entries.popDelayed {e : DelayedEntry} (h : Entries deliveries ready (e :: delayed) clock) :
    Entries deliveries ready delayed clock :=
  ⟨h.isReady, fun e he => h.isDelayed e (mem_cons_of_mem _ he), h.readyHeap, h.delayedHeap.of_cons⟩

theorem promoteLoop_spec {now : ℚ} (hnow : now ≤ clock) (delayed : List DelayedEntry) :
    ∀ (ready : List ReadyEntry) (seq : Nat), Entries deliveries ready delayed clock →
      ∃ delayed' ready' seq',
        NotificationService.promoteLoop deliveries now delayed ready seq =
        (delayed', ready', seq') ∧
          Entries deliveries ready' delayed' clock ∧
          (∀ x, (ready'.map entryId).count x + (delayed'.map entryId).count x =
            (ready.map entryId).count x + (delayed.map entryId).count x) ∧
          ∀ e ∈ delayed', now < (ofLex e).1 := by
  induction delayed with
  | nil =>
    intro ready seq h
    exact ⟨[], ready, seq, rfl, h, fun x => rfl, nofun⟩
  | cons e rest ih =>
    intro ready seq h
    rw [NotificationService.promoteLoop]
    by_cases hdue : (ofLex e).1 ≤ now
    · obtain ⟨d, hd, hkey⟩ := h.isDelayed e mem_cons_self
      have hready : d.readyAt ≤ clock := hkey ▸ hdue.trans hnow
      rw [if_pos hdue, hd]
      obtain ⟨delayed', ready', seq', hloop, hentries, hcount, hlate⟩ :=
        ih _ (seq + 1) (h.popDelayed.pushReady hd hready seq)
      refine ⟨delayed', ready', seq', hloop, hentries, fun x => ?_, hlate⟩
      rw [hcount, count_map_heappush, entryId_entry, map_cons, count_cons]
      by_cases hx : x = entryId e
      · rw [if_pos hx, if_pos (by rw [hx]; exact beq_self_eq_true _)]
        omega
      · rw [if_neg hx, if_neg (by simpa using Ne.symm hx)]
        omega
    · rw [if_neg hdue]
      refine ⟨e :: rest, ready, seq, rfl, h, fun x => rfl, fun e' he' => ?_⟩
      obtain rfl | he' := mem_cons.mp he'
      · exact not_le.mp hdue
      · have hle : (ofLex e).1 ≤ (ofLex e').1 :=
          Prod.Lex.monotone_fst e e' (rel_of_pairwise_cons h.delayedHeap he')
        exact (not_le.mp hdue).trans_le hle

end

/-- Another attempt is left to a delivery that is queued. -/
structure Delivery.Within (d : Delivery) (maxAttempts : Int) : Prop where
  le : d.attempts ≤ maxAttempts
  lt : d.status = .queued → d.attempts < maxAttempts

/-- A delivery that is waiting or being sent. -/
def Delivery.Active (d : Delivery) : Prop := d.status = .queued ∨ d.status = .sending

/-- What a delivery is about stays the same. -/
structure Delivery.Same (d d' : Delivery) : Prop where
  userId : d'.userId = d.userId
  channel : d'.channel = d.channel
  address : d'.address = d.address
  priority : d'.priority = d.priority
  category : d'.category = d.category

/-- How the deliveries change: one that has ended stays as it is, and a new one is suppressed unless
    the preferences of its user allow it. -/
structure Evolves (c : Config) (users : Dict String UserPreferences)
    (deliveries deliveries' : Dict Nat Delivery) : Prop where
  kept : ∀ x d, deliveries.get? x = some d →
    ∃ d', deliveries'.get? x = some d' ∧ d.Same d' ∧ (¬ d.Active → d' = d)
  filed : ∀ x d', deliveries.get? x = none → deliveries'.get? x = some d' →
    d'.status = .suppressed ∨
      ∃ prefs, users.get? d'.userId = some prefs ∧ NotificationService.suppression c prefs d' = none

section

variable {c : Config} {users : Dict String UserPreferences} {prefs : UserPreferences} {id : Nat}
  {deliveries deliveries' deliveries'' : Dict Nat Delivery} {d d' d'' : Delivery}

theorem Delivery.Same.trans (h : d.Same d') (h' : d'.Same d'') : d.Same d'' :=
  ⟨h'.userId.trans h.userId, h'.channel.trans h.channel, h'.address.trans h.address,
    h'.priority.trans h.priority, h'.category.trans h.category⟩

theorem suppression_congr (h : d.Same d') :
    NotificationService.suppression c prefs d' = NotificationService.suppression c prefs d := by
  simp only [NotificationService.suppression, h.channel, h.address, h.priority, h.category]

theorem Evolves.refl : Evolves c users deliveries deliveries :=
  ⟨fun x d hd => ⟨d, hd, ⟨rfl, rfl, rfl, rfl, rfl⟩, fun _ => rfl⟩,
    fun x d' hnone hd' => by rw [hnone] at hd'; cases hd'⟩

theorem Evolves.trans (h : Evolves c users deliveries deliveries')
    (h' : Evolves c users deliveries' deliveries'') : Evolves c users deliveries deliveries'' := by
  constructor
  · intro x d hd
    obtain ⟨d', hd', hsame, hended⟩ := h.kept x d hd
    obtain ⟨d'', hd'', hsame', hended'⟩ := h'.kept x d' hd'
    refine ⟨d'', hd'', hsame.trans hsame', fun hactive => ?_⟩
    have heq := hended hactive
    rw [← heq]
    exact hended' (heq ▸ hactive)
  intro x d'' hnone hd''
  cases hd' : deliveries'.get? x with
  | none => exact h'.filed x d'' hd' hd''
  | some d' =>
  obtain ⟨e, he, hsame, hended⟩ := h'.kept x d' hd'
  rw [he] at hd''
  cases hd''
  obtain hsuppressed | ⟨prefs, hprefs, hnone'⟩ := h.filed x d' hnone hd'
  · have hactive : ¬ d'.Active := by
      rw [Delivery.Active, hsuppressed]
      rintro (h | h) <;> cases h
    rw [hended hactive]
    exact .inl hsuppressed
  · exact .inr ⟨prefs, hsame.userId ▸ hprefs, (suppression_congr hsame).trans hnone'⟩

theorem evolves_set (hd : deliveries.get? id = some d) (hactive : d.Active) (hsame : d.Same d') :
    Evolves c users deliveries (deliveries.set id d') := by
  constructor
  · intro x e he
    rw [get?_set]
    by_cases hx : x = id
    · subst hx
      rw [hd] at he
      cases he
      rw [if_pos rfl]
      exact ⟨d', rfl, hsame, fun h => absurd hactive h⟩
    · rw [if_neg hx]
      exact ⟨e, he, ⟨rfl, rfl, rfl, rfl, rfl⟩, fun _ => rfl⟩
  · intro x e hnone he
    obtain ⟨rfl, -⟩ | ⟨-, he⟩ := get?_set_some he
    · rw [hd] at hnone
      cases hnone
    · rw [hnone] at he
      cases he

theorem evolves_new (hnone : deliveries.get? id = none)
    (hd : d.status = .suppressed ∨ ∃ prefs, users.get? d.userId = some prefs ∧
      NotificationService.suppression c prefs d = none) :
    Evolves c users deliveries (deliveries.set id d) := by
  constructor
  · intro x e he
    have hx : x ≠ id := ne_of_eq_none he hnone
    exact ⟨e, by rw [get?_set_of_ne _ _ hx, he], ⟨rfl, rfl, rfl, rfl, rfl⟩, fun _ => rfl⟩
  · intro x e hx he
    obtain ⟨-, rfl⟩ | ⟨-, he⟩ := get?_set_some he
    · exact hd
    · rw [hx] at he
      cases he

end

namespace NotificationService

variable {c : Config} {s s' : NotificationService} {t id x attempts : Nat} {d d' : Delivery}
  {userId : String} {now readyAt : ℚ} {off : Option Nat} {next old : Option Call} {p : Place}

/-! ## The ledger -/

/-- How often a delivery is in each place. -/
def place (s : NotificationService) (id : Nat) : Place :=
  { waiting := (s.ready.map entryId).count id + (s.delayed.map entryId).count id
    lost := s.lost.count id
    working := s.calls.total (Call.holds id)
    escaped := s.escaped.count id
    dead := s.deadLetters.count id
    handed := s.handed.count id }

/-- Calls that read the clock no later than now. -/
def Readings (calls : Dict Nat Call) (clock : ℚ) : Prop :=
  ∀ t call, calls.get? t = some call → ∀ now, call.reading? = some now → now ≤ clock

variable {calls : Dict Nat Call}

theorem Readings.put {clock : ℚ} (h : Readings calls clock)
    (hnext : ∀ call, next = some call → ∀ now, call.reading? = some now → now ≤ clock) (t : Nat) :
    Readings (calls.put t next) clock := by
  intro u call hcall
  rw [Dict.get?_put] at hcall
  by_cases hu : u = t
  · rw [if_pos hu] at hcall
    exact hnext call hcall
  · rw [if_neg hu] at hcall
    exact h u call hcall

/-- Every delivery is in its place, but the one that is off the books. -/
structure Ledger (c : Config) (s : NotificationService) (off : Option Nat) : Prop where
  fits : ∀ x, off ≠ some x → (s.place x).Fits (s.deliveries.get? x)
  entries : Entries s.deliveries s.ready s.delayed s.clock
  known : ∀ x d, off ≠ some x → s.deliveries.get? x = some d →
    ∃ prefs, s.users.get? d.userId = some prefs
  within : 1 ≤ c.maxAttempts → ∀ x d, off ≠ some x → s.deliveries.get? x = some d →
    d.Within c.maxAttempts
  fresh : ∀ x, s.nextDelivery ≤ x → s.deliveries.get? x = none
  readings : Readings s.calls s.clock

/-- A block has taken a delivery off its place. -/
structure InHand (c : Config) (s : NotificationService) (id attempts : Nat) (userId : String) :
    Prop where
  ledger : Ledger c s (some id)
  place : s.place id = ⟨0, 0, 0, 0, 0, attempts⟩
  user : ∃ prefs, s.users.get? userId = some prefs
  numbered : id < s.nextDelivery

theorem Ledger.weaken (h : Ledger c s none) (id : Nat) : Ledger c s (some id) :=
  ⟨fun x _ => h.fits x (by rintro ⟨⟩), h.entries, fun x d _ => h.known x d (by rintro ⟨⟩),
    fun hmax x d _ => h.within hmax x d (by rintro ⟨⟩), h.fresh, h.readings⟩

/-- A block adds `p` to the place of one delivery, and nothing to the others. -/
structure Adds (s s' : NotificationService) (id : Nat) (p : Place) : Prop where
  waiting : ∀ x, (s'.place x).waiting = (s.place x).waiting + if x = id then p.waiting else 0
  lost : ∀ x, (s'.place x).lost = (s.place x).lost + if x = id then p.lost else 0
  working : ∀ x, (s'.place x).working = (s.place x).working + if x = id then p.working else 0
  escaped : ∀ x, (s'.place x).escaped = (s.place x).escaped + if x = id then p.escaped else 0
  dead : ∀ x, (s'.place x).dead = (s.place x).dead + if x = id then p.dead else 0
  handed : ∀ x, (s'.place x).handed = (s.place x).handed + if x = id then p.handed else 0

theorem Adds.others (h : Adds s s' id p) (hx : x ≠ id) : s'.place x = s.place x := by
  ext
  · rw [h.waiting, if_neg hx, Nat.add_zero]
  · rw [h.lost, if_neg hx, Nat.add_zero]
  · rw [h.working, if_neg hx, Nat.add_zero]
  · rw [h.escaped, if_neg hx, Nat.add_zero]
  · rw [h.dead, if_neg hx, Nat.add_zero]
  · rw [h.handed, if_neg hx, Nat.add_zero]

theorem Adds.self (h : Adds s s' id p) (hplace : s.place id = ⟨0, 0, 0, 0, 0, attempts⟩) :
    s'.place id = { p with handed := attempts + p.handed } := by
  ext
  · rw [h.waiting, if_pos rfl, hplace, Nat.zero_add]
  · rw [h.lost, if_pos rfl, hplace, Nat.zero_add]
  · rw [h.working, if_pos rfl, hplace, Nat.zero_add]
  · rw [h.escaped, if_pos rfl, hplace, Nat.zero_add]
  · rw [h.dead, if_pos rfl, hplace, Nat.zero_add]
  · rw [h.handed, if_pos rfl, hplace]

theorem InHand.putBack (h : InHand c s id attempts userId) (huser : d.userId = userId)
    (hdeliveries : s'.deliveries = s.deliveries.set id d) (hadds : Adds s s' id p)
    (hfits : Place.Fits { p with handed := attempts + p.handed } (some d))
    (hentries : Entries s'.deliveries s'.ready s'.delayed s'.clock) (husers : s'.users = s.users)
    (hwithin : 1 ≤ c.maxAttempts → d.Within c.maxAttempts)
    (hnext : s'.nextDelivery = s.nextDelivery) (hreadings : Readings s'.calls s'.clock) :
    Ledger c s' none := by
  refine ⟨fun x _ => ?_, hentries, fun x d' _ hd' => ?_, fun hmax x d' _ hd' => ?_, fun x hx => ?_,
    hreadings⟩
  · rw [hdeliveries, get?_set]
    by_cases hx : x = id
    · rw [if_pos hx, hx, hadds.self h.place]
      exact hfits
    · rw [if_neg hx, hadds.others hx]
      exact h.ledger.fits x fun heq => hx (some.inj heq).symm
  · rw [hdeliveries] at hd'
    rw [husers]
    obtain ⟨-, rfl⟩ | ⟨hx, hd'⟩ := get?_set_some hd'
    · rw [huser]
      exact h.user
    · exact h.ledger.known x d' (fun heq => hx (some.inj heq).symm) hd'
  · rw [hdeliveries] at hd'
    obtain ⟨-, rfl⟩ | ⟨hx, hd'⟩ := get?_set_some hd'
    · exact hwithin hmax
    · exact h.ledger.within hmax x d' (fun heq => hx (some.inj heq).symm) hd'
  · have hlt := h.numbered
    rw [hdeliveries, get?_set_of_ne _ _ (by omega)]
    exact h.ledger.fresh x (hnext ▸ hx)

theorem unchanged {n : Nat} {p : Prop} [Decidable p] : n = n + if p then 0 else 0 := by
  rw [ite_self, Nat.add_zero]

theorem count_id_cons (xs : List Nat) (x : Nat) :
    (id :: xs).count x = xs.count x + if x = id then 1 else 0 := by
  rw [count_cons]
  by_cases hx : x = id
  · rw [if_pos hx, if_pos (by rw [hx]; exact beq_self_eq_true _)]
  · rw [if_neg hx, if_neg (by simpa using Ne.symm hx)]

theorem count_id_concat (xs : List Nat) (x : Nat) :
    (xs ++ [id]).count x = xs.count x + if x = id then 1 else 0 := by
  rw [count_append, count_id_cons, count_nil, Nat.zero_add]

theorem working_put (hold : calls.get? t = old)
    (hnone : ∀ call, old = some call → call.deliveryId? = none) (x : Nat) :
    (calls.put t next).total (Call.holds x) =
      calls.total (Call.holds x) + next.elim 0 (Call.holds x) := by
  have hput := total_put hold next (Call.holds x)
  have hzero : old.elim 0 (Call.holds x) = 0 := by
    cases old with
    | none => rfl
    | some call => exact if_neg (by rw [hnone call rfl]; rintro ⟨⟩)
  omega

theorem InHand.no_entry (h : InHand c s id attempts userId) :
    id ∉ s.ready.map entryId ∧ id ∉ s.delayed.map entryId := by
  have hwaiting : (s.ready.map entryId).count id + (s.delayed.map entryId).count id = 0 :=
    congrArg Place.waiting h.place
  exact ⟨List.count_eq_zero.mp (by omega), List.count_eq_zero.mp (by omega)⟩

theorem InHand.entries_set (h : InHand c s id attempts userId) (d : Delivery) :
    Entries (s.deliveries.set id d) s.ready s.delayed s.clock :=
  h.ledger.entries.set h.no_entry.1 h.no_entry.2 d

/-! ## Where a delivery goes -/

theorem adds_enqueue : Adds s (s.enqueue id d readyAt now) id ⟨1, 0, 0, 0, 0, 0⟩ := by
  refine ⟨fun x => ?_, fun x => unchanged, fun x => unchanged, fun x => unchanged,
    fun x => unchanged, fun x => unchanged⟩
  show ((if _ then _ else _ : List ReadyEntry).map entryId).count x +
    ((if _ then _ else _ : List DelayedEntry).map entryId).count x =
      (s.ready.map entryId).count x + (s.delayed.map entryId).count x + if x = id then 1 else 0
  by_cases hdue : readyAt ≤ now
  · rw [if_pos hdue, if_pos hdue, count_map_heappush, entryId_entry]
    omega
  · rw [if_neg hdue, if_neg hdue, count_map_heappush, entryId_entry]
    omega

section

variable (h : InHand c s id d.attempts d.userId)

include h

theorem InHand.enqueue (readyAt : ℚ) (hnow : now ≤ s.clock)
    (hlt : 1 ≤ c.maxAttempts → d.attempts < c.maxAttempts) :
    Ledger c (s.enqueue id d readyAt now) none := by
  apply h.putBack (d := { d with status := .queued, readyAt := readyAt }) rfl rfl adds_enqueue
  · exact ⟨rfl, rfl, rfl, rfl⟩
  · have hentries := h.entries_set { d with status := .queued, readyAt := readyAt }
    have hget : (s.deliveries.set id { d with status := .queued, readyAt := readyAt }).get? id =
      some { d with status := .queued, readyAt := readyAt } := get?_set_self ..
    show Entries _ (if _ then _ else _) (if _ then _ else _) _
    by_cases hdue : readyAt ≤ now
    · rw [if_pos hdue, if_pos hdue]
      exact hentries.pushReady hget (hdue.trans hnow) s.seq
    · rw [if_neg hdue, if_neg hdue]
      exact hentries.pushDelayed hget s.seq
  · rfl
  · intro hmax
    exact ⟨(hlt hmax).le, fun _ => hlt hmax⟩
  · rfl
  · exact h.ledger.readings

theorem InHand.sending (hcall : s.calls.get? t = some (.claiming now))
    (hlt : 1 ≤ c.maxAttempts → d.attempts < c.maxAttempts) (l : RateLimiter) : Ledger c { s with
      limiter := l
      deliveries := s.deliveries.set id { d with status := .sending, attempts := d.attempts + 1 }
      handed := id :: s.handed
      calls := s.calls.put t (some (.sending id)) } none := by
  apply h.putBack (d := { d with status := .sending, attempts := d.attempts + 1 })
    (p := ⟨0, 0, 1, 0, 0, 1⟩) rfl rfl
  · refine ⟨fun x => unchanged, fun x => unchanged, fun x => ?_, fun x => unchanged,
      fun x => unchanged, count_id_cons s.handed⟩
    show (s.calls.put t (some (.sending id))).total (Call.holds x) = _
    rw [working_put hcall (by rintro _ ⟨⟩; rfl)]
    show _ + (if some id = some x then 1 else 0) = _ + if x = id then 1 else 0
    simp only [Option.some.injEq, eq_comm]
    rfl
  · exact ⟨rfl, rfl, rfl, rfl⟩
  · exact h.entries_set _
  · rfl
  · intro hmax
    refine ⟨?_, nofun⟩
    have := hlt hmax
    show ((d.attempts + 1 : Nat) : Int) ≤ _
    omega
  · rfl
  · apply Readings.put h.ledger.readings
    rintro _ ⟨⟩ now ⟨⟩

theorem InHand.finish (hqueued : d.status ≠ .queued) (hsending : d.status ≠ .sending)
    (hle : 1 ≤ c.maxAttempts → d.attempts ≤ c.maxAttempts) : Ledger c { s with
      deliveries := s.deliveries.set id d
      deadLetters :=
        if d.status = .failed then s.deadLetters ++ [id] else s.deadLetters } none := by
  apply h.putBack (p := ⟨0, 0, 0, 0, if d.status = .failed then 1 else 0, 0⟩) rfl rfl
  · refine ⟨fun x => unchanged, fun x => unchanged, fun x => unchanged, fun x => unchanged,
      fun x => ?_, fun x => unchanged⟩
    show (if d.status = .failed then s.deadLetters ++ [id] else s.deadLetters).count x =
      s.deadLetters.count x + if x = id then if d.status = .failed then 1 else 0 else 0
    by_cases hfailed : d.status = .failed
    · rw [if_pos hfailed, if_pos hfailed, count_id_concat]
    · rw [if_neg hfailed, if_neg hfailed]
      exact unchanged
  · exact ⟨(tally_of_ne hqueued).symm, (tally_of_ne hsending).symm,
      (tally_some d .failed).symm, rfl⟩
  · exact h.entries_set d
  · rfl
  · intro hmax
    exact ⟨hle hmax, fun hst => absurd hst hqueued⟩
  · rfl
  · exact h.ledger.readings

theorem InHand.lose (hget : s.deliveries.get? id = some d)
    (hstatus : d.status = .queued) (hlt : 1 ≤ c.maxAttempts → d.attempts < c.maxAttempts)
    (l : RateLimiter) : Ledger c { s with limiter := l, lost := id :: s.lost } none := by
  refine h.putBack (d := d) (p := ⟨0, 1, 0, 0, 0, 0⟩) rfl (set_eq_self hget).symm
    ?_ ?_ ?_ ?_ ?_ ?_ ?_
  · exact ⟨fun x => unchanged, count_id_cons s.lost, fun x => unchanged, fun x => unchanged,
      fun x => unchanged, fun x => unchanged⟩
  · exact ⟨(tally_of_eq hstatus).symm, (tally_of_ne (by rw [hstatus]; simp)).symm,
      (tally_of_ne (by rw [hstatus]; simp)).symm, rfl⟩
  · exact h.ledger.entries
  · rfl
  · intro hmax
    exact ⟨(hlt hmax).le, fun _ => hlt hmax⟩
  · rfl
  · exact h.ledger.readings

theorem InHand.escape (hstatus : d.status = .sending)
    (hle : 1 ≤ c.maxAttempts → d.attempts ≤ c.maxAttempts) :
    Ledger c { s with deliveries := s.deliveries.set id d, escaped := id :: s.escaped } none := by
  apply h.putBack (p := ⟨0, 0, 0, 1, 0, 0⟩) rfl rfl
  · exact ⟨fun x => unchanged, fun x => unchanged, fun x => unchanged, count_id_cons s.escaped,
      fun x => unchanged, fun x => unchanged⟩
  · exact ⟨(tally_of_ne (by rw [hstatus]; simp)).symm, (tally_of_eq hstatus).symm,
      (tally_of_ne (by rw [hstatus]; simp)).symm, rfl⟩
  · exact h.entries_set d
  · rfl
  · intro hmax
    exact ⟨hle hmax, fun hst => by rw [hstatus] at hst; cases hst⟩
  · rfl
  · exact h.ledger.readings

end

/-! ## How a delivery is taken -/

theorem Ledger.take (h : Ledger c s none) (hadds : Adds s' s id p) (hhanded : p.handed = 0)
    (hget : s.deliveries.get? id = some d) (hplace : s.place id = { p with handed := d.attempts })
    (hentries : Entries s'.deliveries s'.ready s'.delayed s'.clock)
    (hdeliveries : s'.deliveries = s.deliveries) (husers : s'.users = s.users)
    (hnext : s'.nextDelivery = s.nextDelivery) (hreadings : Readings s'.calls s'.clock) :
    InHand c s' id d.attempts d.userId := by
  have hlt : id < s.nextDelivery := by
    by_contra hle
    rw [h.fresh _ (not_lt.mp hle)] at hget
    cases hget
  refine ⟨⟨?_, hentries, ?_, ?_, ?_, hreadings⟩, ?_, ?_, hnext ▸ hlt⟩
  · intro x hx
    rw [← hadds.others fun heq => hx (congrArg some heq.symm), hdeliveries]
    exact h.fits x (by rintro ⟨⟩)
  · rw [hdeliveries, husers]
    exact fun x d _ => h.known x d (by rintro ⟨⟩)
  · rw [hdeliveries]
    exact fun hmax x d _ => h.within hmax x d (by rintro ⟨⟩)
  · rw [hdeliveries, hnext]
    exact h.fresh
  · have hwaiting := hadds.waiting id
    have hlost := hadds.lost id
    have hworking := hadds.working id
    have hescaped := hadds.escaped id
    have hdead := hadds.dead id
    have hhanded' := hadds.handed id
    rw [if_pos rfl, hplace] at hwaiting hlost hworking hescaped hdead hhanded'
    dsimp only at hwaiting hlost hworking hescaped hdead hhanded'
    ext
    · show (s'.place id).waiting = 0
      omega
    · show (s'.place id).lost = 0
      omega
    · show (s'.place id).working = 0
      omega
    · show (s'.place id).escaped = 0
      omega
    · show (s'.place id).dead = 0
      omega
    · show (s'.place id).handed = d.attempts
      omega
  · rw [husers]
    exact h.known id d (by rintro ⟨⟩) hget

theorem Ledger.pop {e : ReadyEntry} {rest : List ReadyEntry} (h : Ledger c s none)
    (hready : s.ready = e :: rest) :
    ∃ d, s.deliveries.get? (entryId e) = some d ∧ d.status = .queued ∧
      InHand c { s with ready := rest } (entryId e) d.attempts d.userId := by
  have hadds : Adds { s with ready := rest } s (entryId e) ⟨1, 0, 0, 0, 0, 0⟩ := by
    refine ⟨fun x => ?_, fun x => unchanged, fun x => unchanged, fun x => unchanged,
      fun x => unchanged, fun x => unchanged⟩
    show (s.ready.map entryId).count x + (s.delayed.map entryId).count x =
      (rest.map entryId).count x + (s.delayed.map entryId).count x + if x = entryId e then 1 else 0
    rw [hready, map_cons, count_id_cons]
    omega
  have hpos : 0 < (s.place (entryId e)).waiting := by
    rw [hadds.waiting, if_pos rfl]
    exact Nat.succ_pos _
  obtain ⟨d, hget, hstatus, hplace⟩ := (h.fits (entryId e) (by rintro ⟨⟩)).queued_only hpos
  have hentries := h.entries
  rw [hready] at hentries
  exact ⟨d, hget, hstatus, h.take hadds rfl hget hplace hentries.popReady rfl rfl rfl h.readings⟩

theorem Ledger.release {call : Call} (h : Ledger c s none) (hcall : s.calls.get? t = some call)
    (hid : call.deliveryId? = some id) :
    ∃ d, s.deliveries.get? id = some d ∧ d.status = .sending ∧
      InHand c (s.resume t none) id d.attempts d.userId := by
  have hadds : Adds (s.resume t none) s id ⟨0, 0, 1, 0, 0, 0⟩ := by
    refine ⟨fun x => unchanged, fun x => unchanged, fun x => ?_, fun x => unchanged,
      fun x => unchanged, fun x => unchanged⟩
    have hput := total_put hcall none (Call.holds x)
    have hold : call.holds x = if x = id then 1 else 0 := by
      simp only [Call.holds, hid, Option.some.injEq, eq_comm]
    simp only [Option.elim] at hput
    show s.calls.total (Call.holds x) = (s.calls.put t none).total (Call.holds x) +
      if x = id then 1 else 0
    omega
  have hpos : 0 < (s.place id).working := by
    rw [hadds.working, if_pos rfl]
    exact Nat.succ_pos _
  obtain ⟨d, hget, hstatus, hplace⟩ := (h.fits id (by rintro ⟨⟩)).sending_only hpos
  exact ⟨d, hget, hstatus, h.take hadds rfl hget hplace h.entries rfl rfl rfl
    (h.readings.put (by rintro _ ⟨⟩) t)⟩

theorem Ledger.number (h : Ledger c s none) (huser : ∃ prefs, s.users.get? userId = some prefs) :
    InHand c { s with nextDelivery := s.nextDelivery + 1 } s.nextDelivery 0 userId := by
  have hnone := h.fresh s.nextDelivery le_rfl
  have hfits := h.fits s.nextDelivery (by rintro ⟨⟩)
  rw [hnone] at hfits
  have hqueued := hfits.queued
  have hsending := hfits.sending
  rw [tally_none] at hqueued hsending
  have hledger := h.weaken s.nextDelivery
  refine ⟨⟨hledger.fits, hledger.entries, hledger.known, hledger.within,
    fun x hx => h.fresh x (Nat.le_of_succ_le hx), hledger.readings⟩, ?_, huser, Nat.lt_succ_self _⟩
  ext
  · show (s.place s.nextDelivery).waiting = 0
    omega
  · show (s.place s.nextDelivery).lost = 0
    omega
  · show (s.place s.nextDelivery).working = 0
    omega
  · show (s.place s.nextDelivery).escaped = 0
    omega
  · exact hfits.failed
  · exact hfits.handed

/-! ## Blocks -/

theorem Ledger.resume (h : Ledger c s none) (hold : s.calls.get? t = old)
    (hnone : ∀ call, old = some call → call.deliveryId? = none)
    (hnext : ∀ call, next = some call →
      call.deliveryId? = none ∧ ∀ now, call.reading? = some now → now ≤ s.clock) :
    Ledger c (s.resume t next) none := by
  have hplace : ∀ x, (s.resume t next).place x = s.place x := by
    intro x
    ext
    · rfl
    · rfl
    · show (s.calls.put t next).total (Call.holds x) = s.calls.total (Call.holds x)
      rw [working_put hold hnone]
      cases next with
      | none => rfl
      | some call =>
        show _ + (if call.deliveryId? = some x then 1 else 0) = _
        rw [(hnext call rfl).1, if_neg (by rintro ⟨⟩), Nat.add_zero]
    all_goals rfl
  refine ⟨fun x hx => ?_, h.entries, h.known, h.within, h.fresh,
    h.readings.put (fun call hcall => (hnext call hcall).2) t⟩
  rw [hplace]
  exact h.fits x hx

theorem Ledger.leave (h : Ledger c s none) (hold : s.calls.get? t = old)
    (hnone : ∀ call, old = some call → call.deliveryId? = none) : Ledger c (s.resume t none) none :=
  h.resume hold hnone (by rintro _ ⟨⟩)

theorem Ledger.promote (h : Ledger c s none) (hnow : now ≤ s.clock) :
    Ledger c (s.promote now) none ∧ ∀ e ∈ (s.promote now).delayed, now < (ofLex e).1 := by
  obtain ⟨delayed, ready, seq, hloop, hentries, hcount, hlate⟩ :=
    promoteLoop_spec hnow s.delayed s.ready s.seq h.entries
  have hpromote : s.promote now = { s with delayed := delayed, ready := ready, seq := seq } := by
    rw [NotificationService.promote, hloop]
  rw [hpromote]
  refine ⟨⟨fun x hx => ?_, hentries, h.known, h.within, h.fresh, h.readings⟩, hlate⟩
  have hplace : NotificationService.place
      { s with delayed := delayed, ready := ready, seq := seq } x =
      s.place x := by
    ext
    · exact hcount x
    all_goals rfl
  rw [hplace]
  exact h.fits x hx

/-- What a block leaves. -/
structure Settled (c : Config) (s s' : NotificationService) : Prop where
  ledger : Ledger c s' none
  evolves : Evolves c s.users s.deliveries s'.deliveries

theorem claim_settled (h : InHand c s id d.attempts d.userId) (hget : s.deliveries.get? id = some d)
    (hstatus : d.status = .queued) (hcall : s.calls.get? t = some (.claiming now))
    (hnow : now ≤ s.clock) (hlt : 1 ≤ c.maxAttempts → d.attempts < c.maxAttempts) :
    Settled c s (s.claim t id d now).2 := by
  rw [claim]
  split
  next l _ =>
    have hledger : Ledger c { s with limiter := l, lost := id :: s.lost } none :=
      h.lose hget hstatus hlt l
    exact ⟨hledger.leave hcall (by rintro _ ⟨⟩; rfl), .refl⟩
  next wait l _ =>
  split
  · have hhand : InHand c { s with limiter := l } id d.attempts d.userId :=
      ⟨⟨h.ledger.fits, h.ledger.entries, h.ledger.known, h.ledger.within, h.ledger.fresh,
        h.ledger.readings⟩, h.place, h.user, h.numbered⟩
    have hledger := hhand.enqueue (now + wait) hnow hlt
    exact ⟨hledger.leave hcall (by rintro _ ⟨⟩; rfl),
      evolves_set hget (.inl hstatus) ⟨rfl, rfl, rfl, rfl, rfl⟩⟩
  · exact ⟨h.sending hcall hlt l, evolves_set hget (.inl hstatus) ⟨rfl, rfl, rfl, rfl, rfl⟩⟩

theorem processLocked_settled (h : Ledger c s none)
    (hcall : s.calls.get? t = some (.claiming now)) :
    Settled c s (s.processLocked t now).2 := by
  have hnow : now ≤ s.clock := h.readings t _ hcall now rfl
  have hpromote := (h.promote hnow).1
  rw [processLocked]
  dsimp only
  split
  next => exact ⟨hpromote.leave hcall (by rintro _ ⟨⟩; rfl), .refl⟩
  next hready =>
  obtain ⟨d, hget, hstatus, hhand⟩ := hpromote.pop hready
  have hlt : 1 ≤ c.maxAttempts → d.attempts < c.maxAttempts :=
    fun hmax => (hpromote.within hmax _ d (by rintro ⟨⟩) hget).lt hstatus
  obtain ⟨prefs, hprefs⟩ := hhand.user
  rw [hget]
  dsimp only
  rw [hprefs]
  dsimp only
  split
  next allowed _ =>
    have hledger := hhand.enqueue allowed hnow hlt
    exact ⟨hledger.leave hcall (by rintro _ ⟨⟩; rfl),
      evolves_set hget (.inl hstatus) ⟨rfl, rfl, rfl, rfl, rfl⟩⟩
  next =>
    have hsettled := claim_settled hhand hget hstatus hcall hnow hlt
    exact ⟨hsettled.ledger, hsettled.evolves⟩

theorem recordSent_settled {providerId : String} (h : Ledger c s none)
    (hcall : s.calls.get? t = some (.recordingSent id providerId)) :
    Settled c s (s.recordSent t id providerId).2 := by
  obtain ⟨d, hget, hstatus, hhand⟩ := h.release hcall rfl
  have hle : 1 ≤ c.maxAttempts → d.attempts ≤ c.maxAttempts :=
    fun hmax => (h.within hmax id d (by rintro ⟨⟩) hget).le
  rw [recordSent, hget]
  have hledger := InHand.finish
    (d := { d with status := .sent, providerMessageId := some providerId })
    hhand (by rintro ⟨⟩) (by rintro ⟨⟩) hle
  exact ⟨hledger, evolves_set hget (.inr hstatus) ⟨rfl, rfl, rfl, rfl, rfl⟩⟩

theorem afterFailure_settled {text : String} {retryable : Bool} (h : Ledger c s none)
    (hcall : s.calls.get? t = some (.recordingFailure id text retryable now)) (delay : Option ℚ) :
    Settled c s (s.afterFailure c t id text retryable now delay).2 := by
  obtain ⟨d, hget, hstatus, hhand⟩ := h.release hcall rfl
  have hnow : now ≤ s.clock := h.readings t _ hcall now rfl
  have hle : 1 ≤ c.maxAttempts → d.attempts ≤ c.maxAttempts :=
    fun hmax => (h.within hmax id d (by rintro ⟨⟩) hget).le
  rw [afterFailure, hget]
  dsimp only
  split
  next hretry =>
    cases delay with
    | none =>
      have hledger := InHand.escape (d := { d with lastError := some (.raised text) }) hhand
        hstatus hle
      exact ⟨hledger, evolves_set hget (.inr hstatus) ⟨rfl, rfl, rfl, rfl, rfl⟩⟩
    | some delay =>
      have hledger := InHand.enqueue (d := { d with lastError := some (.raised text) })
        hhand (now + delay) hnow fun _ => hretry.2
      exact ⟨hledger, evolves_set hget (.inr hstatus) ⟨rfl, rfl, rfl, rfl, rfl⟩⟩
  next =>
    have hledger := InHand.finish
      (d := { d with lastError := some (.raised text), status := .failed })
      hhand (by rintro ⟨⟩) (by rintro ⟨⟩) hle
    exact ⟨hledger, evolves_set hget (.inr hstatus) ⟨rfl, rfl, rfl, rfl, rfl⟩⟩

theorem Settled.trans {s'' : NotificationService} (h : Settled c s s') (h' : Settled c s' s'')
    (husers : s'.users = s.users) : Settled c s s'' :=
  ⟨h'.ledger, h.evolves.trans (husers ▸ h'.evolves)⟩

section

variable {prefs : UserPreferences} {duplicate : Bool} {request : NotificationRequest}
  {notificationId : Nat}

theorem users_file : (s.file c prefs now duplicate d).users = s.users := by
  rw [file]
  split <;> rfl

theorem clock_file : (s.file c prefs now duplicate d).clock = s.clock := by
  rw [file]
  split <;> rfl

theorem calls_file : (s.file c prefs now duplicate d).calls = s.calls := by
  rw [file]
  split <;> rfl

theorem file_settled (h : Ledger c s none) (hprefs : s.users.get? d.userId = some prefs)
    (hattempts : d.attempts = 0) (hnow : now ≤ s.clock) :
    Settled c s (s.file c prefs now duplicate d) := by
  have hhand := h.number ⟨prefs, hprefs⟩
  rw [← hattempts] at hhand
  have hnone : s.deliveries.get? s.nextDelivery = none := h.fresh _ le_rfl
  rw [file]
  split
  next reason _ =>
    have hledger := InHand.finish
      (d := { d with status := .suppressed, lastError := some reason })
      hhand (by rintro ⟨⟩) (by rintro ⟨⟩) fun hmax => by
        show (d.attempts : Int) ≤ _
        omega
    exact ⟨hledger, evolves_new hnone (.inl rfl)⟩
  next hreason =>
  have hallowed : suppression c prefs d = none := by
    cases duplicate with
    | false => exact hreason
    | true => cases hreason
  have hledger := hhand.enqueue d.readyAt hnow fun hmax => by omega
  exact ⟨hledger, evolves_new hnone (.inr ⟨prefs, hprefs, hallowed⟩)⟩

theorem fanOut_frame (bodies : List (Channel × String)) : ∀ s : NotificationService,
    (fanOut c prefs request notificationId now duplicate bodies s).2.users = s.users ∧
    (fanOut c prefs request notificationId now duplicate bodies s).2.clock = s.clock ∧
    (fanOut c prefs request notificationId now duplicate bodies s).2.calls = s.calls := by
  induction bodies with
  | nil => exact fun s => ⟨rfl, rfl, rfl⟩
  | cons b _ ih =>
    intro s
    obtain ⟨husers, hclock, hcalls⟩ := ih (s.file c prefs now duplicate
      (deliveryOf prefs request notificationId now b.1 b.2))
    exact ⟨husers.trans users_file, hclock.trans clock_file, hcalls.trans calls_file⟩

theorem fanOut_settled (notificationId : Nat) (duplicate : Bool)
    (bodies : List (Channel × String)) :
    ∀ s : NotificationService,
    Ledger c s none → s.users.get? request.userId = some prefs → now ≤ s.clock →
      Settled c s (fanOut c prefs request notificationId now duplicate bodies s).2 := by
  induction bodies with
  | nil => exact fun s h _ _ => ⟨h, .refl⟩
  | cons b _ ih =>
    intro s h hprefs hnow
    have hfile : Settled c s (s.file c prefs now duplicate
        (deliveryOf prefs request notificationId now b.1 b.2)) := file_settled h hprefs rfl hnow
    exact hfile.trans (ih _ hfile.ledger (by rw [users_file, hprefs])
      (by rw [clock_file]; exact hnow))
      users_file

theorem submitLocked_frame : (s.submitLocked c request now).2.users = s.users ∧
    (s.submitLocked c request now).2.clock = s.clock ∧
    (s.submitLocked c request now).2.calls = s.calls := by
  rw [submitLocked]
  split
  · exact ⟨rfl, rfl, rfl⟩
  · split
    · exact ⟨rfl, rfl, rfl⟩
    · split
      · exact ⟨rfl, rfl, rfl⟩
      · exact ⟨rfl, rfl, rfl⟩
      · exact fanOut_frame _ _

theorem submitLocked_settled (h : Ledger c s none) (request : NotificationRequest)
    (hnow : now ≤ s.clock) : Settled c s (s.submitLocked c request now).2 := by
  have hsame : Ledger c (s.expire c now) none :=
    ⟨h.fits, h.entries, h.known, h.within, h.fresh, h.readings⟩
  rw [submitLocked]
  split
  · exact ⟨hsame, .refl⟩
  split
  · exact ⟨hsame, .refl⟩
  · next hprefs =>
    split
    · exact ⟨hsame, .refl⟩
    · exact ⟨hsame, .refl⟩
    · next bodies _ =>
      let numbered : NotificationService := { s.expire c now with
        nextNotification := s.nextNotification + 1
        recentContent := ((s.expire c now).recentContent.erase (contentKey request)).set
          (contentKey request) now }
      have hnumbered : Ledger c numbered none :=
        ⟨h.fits, h.entries, h.known, h.within, h.fresh, h.readings⟩
      have hsettled := fanOut_settled s.nextNotification
        ((s.expire c now).recentContent.get? (contentKey request)).isSome bodies numbered
          hnumbered hprefs hnow
      have hledger := hsettled.ledger
      exact ⟨⟨hledger.fits, hledger.entries, hledger.known, hledger.within, hledger.fresh,
        hledger.readings⟩, hsettled.evolves⟩

end

/-! ## Steps -/

theorem Ledger.passOn {call call' : Call} (h : Ledger c s none) (hcall : s.calls.get? t = some call)
    (hsame : call'.deliveryId? = call.deliveryId?)
    (hreading : ∀ now, call'.reading? = some now → now ≤ s.clock) :
    Ledger c (s.resume t (some call')) none := by
  have hplace : ∀ x, (s.resume t (some call')).place x = s.place x := by
    intro x
    ext
    · rfl
    · rfl
    · have hput := total_put hcall (some call') (Call.holds x)
      have hholds : call'.holds x = call.holds x := by rw [Call.holds, hsame, Call.holds]
      simp only [Option.elim] at hput
      show (s.calls.put t (some call')).total (Call.holds x) = s.calls.total (Call.holds x)
      omega
    all_goals rfl
  refine ⟨fun x hx => ?_, h.entries, h.known, h.within, h.fresh,
    h.readings.put (by rintro _ ⟨⟩; exact hreading) t⟩
  rw [hplace]
  exact h.fits x hx

theorem answer_settled (h : Ledger c s none) (hcall : s.calls.get? t = some (.sending id))
    (outcome : Outcome) : Settled c s (s.answer t id outcome).2 := by
  cases outcome with
  | sent => exact ⟨h.passOn hcall rfl (by rintro _ ⟨⟩), .refl⟩
  | transientError | permanentError =>
    exact ⟨h.passOn hcall rfl (by rintro _ ⟨⟩; exact le_rfl), .refl⟩
  | otherError =>
    obtain ⟨d, hget, hstatus, hhand⟩ := h.release hcall rfl
    have hle : 1 ≤ c.maxAttempts → d.attempts ≤ c.maxAttempts :=
      fun hmax => (h.within hmax id d (by rintro ⟨⟩) hget).le
    have hledger := hhand.escape hstatus hle
    rw [show (s.resume t none).deliveries = s.deliveries from rfl, set_eq_self hget] at hledger
    exact ⟨hledger, .refl⟩

theorem act_settled (h : Ledger c s none) (op : Op) : Settled c s (s.act c op).2 := by
  cases op with
  | advance seconds =>
    rw [act]
    split
    · exact ⟨h, .refl⟩
    · next =>
      have hle : s.clock ≤ s.clock + seconds := by linarith
      exact ⟨⟨h.fits, h.entries.later hle, h.known, h.within, h.fresh,
        fun t call hcall now hnow => (h.readings t call hcall now hnow).trans hle⟩, .refl⟩
  | upsertUser prefs =>
    refine ⟨⟨h.fits, h.entries, fun x d hx hd => ?_, h.within, h.fresh, h.readings⟩, .refl⟩
    obtain ⟨old, hold⟩ := h.known x d hx hd
    show ∃ p, (s.users.set prefs.userId prefs).get? d.userId = some p
    rw [get?_set]
    split
    · exact ⟨prefs, rfl⟩
    · exact ⟨old, hold⟩
  | submit =>
    rw [act]
    split
    · exact ⟨h, .refl⟩
    · next hcall =>
      split
      · exact ⟨h, .refl⟩
      · refine ⟨h.resume rfl (fun call hold => absurd (by rw [hold]; rfl) hcall) ?_, .refl⟩
        rintro _ ⟨⟩
        exact ⟨rfl, by rintro _ ⟨⟩; exact le_rfl⟩
  | processNext =>
    rw [act]
    split
    · exact ⟨h, .refl⟩
    · next hcall =>
      refine ⟨h.resume rfl (fun call hold => absurd (by rw [hold]; rfl) hcall) ?_, .refl⟩
      rintro _ ⟨⟩
      exact ⟨rfl, by rintro _ ⟨⟩; exact le_rfl⟩
  | go t delay =>
    obtain ⟨o, hcall⟩ : ∃ o, s.calls.get? t = o := ⟨_, rfl⟩
    rw [act, hcall]
    cases o with
    | none => exact ⟨h, .refl⟩
    | some call =>
    cases call with
    | submitting request now =>
      have hsettled := submitLocked_settled h request (h.readings t _ hcall now rfl)
      have hcall' : (s.submitLocked c request now).2.calls.get? t =
          some (.submitting request now) := by rw [submitLocked_frame.2.2, hcall]
      exact ⟨hsettled.ledger.leave hcall' (by rintro _ ⟨⟩; rfl), hsettled.evolves⟩
    | claiming => exact processLocked_settled h hcall
    | sending => exact ⟨h, .refl⟩
    | recordingSent => exact recordSent_settled h hcall
    | recordingFailure => exact afterFailure_settled h hcall delay
  | sender _ outcome =>
    rw [act]
    split
    · next hcall => exact answer_settled h hcall outcome
    · exact ⟨h, .refl⟩
  | hasReady => exact ⟨(h.promote le_rfl).1, .refl⟩

theorem ledger_new (c : Config) (start : ℚ) : Ledger c (new c start) none := by
  refine ⟨fun x _ => ⟨rfl, rfl, rfl, rfl⟩, ⟨?_, ?_, .nil, .nil⟩, ?_, ?_, fun x _ => rfl, ?_⟩
  · rintro e ⟨⟩
  · rintro e ⟨⟩
  · rintro x d - ⟨⟩
  · rintro hmax x d - ⟨⟩
  · rintro t call ⟨⟩

theorem run_ended (h : Ledger c s none) (hget : s.deliveries.get? id = some d) (hended : ¬ d.Active)
    {ops : List Op} {os : List Answer} (hrun : runSteps (step c) s ops = .ok (os, s')) :
    s'.deliveries.get? id = some d ∧ (s'.place id).handed = (s.place id).handed := by
  have hkeep : ∀ s op, Ledger c s none ∧ s.deliveries.get? id = some d →
      Ledger c (act c s op).2 none ∧ (act c s op).2.deliveries.get? id = some d := by
    rintro s op ⟨h, hget⟩
    have hsettled := act_settled h op
    obtain ⟨d', hget', -, hsame⟩ := hsettled.evolves.kept id d hget
    rw [hsame hended] at hget'
    exact ⟨hsettled.ledger, hget'⟩
  obtain ⟨os', t, hrun', hledger, hget'⟩ := runSteps_total (step_eq_act c) hkeep ⟨h, hget⟩ ops
  rw [hrun] at hrun'
  cases hrun'
  refine ⟨hget', ?_⟩
  rw [(hledger.fits id (by rintro ⟨⟩)).handed, (h.fits id (by rintro ⟨⟩)).handed, hget', hget]

end NotificationService

end InterviewPrep.Notifications
