/-
  The relays of the outbox (payment_processing.py): a call sorts what is pending under the
  lock, and then publishes it outside, one event after the other, and removes each under the
  lock once it is published.

  The ids that have been published are always `1 .. k` for some `k` (`Relaying`): what a call
  has still to publish, however stale it is, leaves out no newer id below its last.
-/
import InterviewPrep.Payments.Service
import Mathlib.Data.List.Sort

namespace InterviewPrep.Payments

open Lib Dict List

/-- `sorted(self._pending.values(), key=lambda e: e.event_id)` -/
def Outbox.batch (o : Outbox) : List OutboxEvent :=
  o.pending.values.insertionSort fun e e' => e.eventId ≤ e'.eventId

/-- `self._pending.pop(event.event_id, None)` -/
def Outbox.pop (o : Outbox) (e : OutboxEvent) : Outbox :=
  { o with pending := o.pending.erase e.eventId }

/-- A call of `relay`: the events left of its batch; whether the first has been published, and is to
    be removed; and how many it has sent. -/
structure Relay where
  rest : List OutboxEvent
  published : Bool
  sent : Nat

/-- The loop goes on, or the call returns. -/
def Relay.next (sent : Nat) : List OutboxEvent → Option Relay
  | [] => none
  | e :: rest => some ⟨e :: rest, false, sent⟩

structure OutboxSystem where
  outbox : Outbox
  relays : Dict Nat Relay

def OutboxSystem.new : OutboxSystem := ⟨Outbox.new, Dict.empty⟩

inductive OutboxStep where
  | append (type : String) (aggregate : Aggregate) (payload : List (String × PayloadValue))
  /-- `relay` takes its batch -/
  | relay (call : Nat)
  /-- `publish(event)` returns, or raises -/
  | publish (call : Nat) (ok : Bool)
  | remove (call : Nat)

inductive OutboxAnswer where
  | appended (e : OutboxEvent)
  | relaying (batch : List OutboxEvent)
  | published (e : OutboxEvent)
  /-- the call has returned after a failure -/
  | failed (sent : Nat)
  | removed (e : OutboxEvent)

/-- The call is not at such a step. -/
inductive OutboxError where
  | notEnabled

def OutboxSystem.step (s : OutboxSystem) :
    OutboxStep → Except OutboxError (OutboxAnswer × OutboxSystem)
  | .append type aggregate payload =>
    .ok (.appended ⟨s.outbox.ids, type, aggregate, payload⟩,
      { s with outbox := s.outbox.append type aggregate payload })
  | .relay call =>
    match s.relays.get? call with
    | some _ => .error .notEnabled
    | none => .ok (.relaying s.outbox.batch,
        { s with relays := s.relays.put call (Relay.next 0 s.outbox.batch) })
  | .publish call ok =>
    match s.relays.get? call with
    | some ⟨e :: rest, false, sent⟩ =>
      if ok then
        .ok (.published e, { s with relays := s.relays.put call (some ⟨e :: rest, true, sent⟩) })
      else .ok (.failed sent, { s with relays := s.relays.put call none })
    | _ => .error .notEnabled
  | .remove call =>
    match s.relays.get? call with
    | some ⟨e :: rest, true, sent⟩ =>
      .ok (.removed e, ⟨s.outbox.pop e, s.relays.put call (Relay.next (sent + 1) rest)⟩)
    | _ => .error .notEnabled

/-! ## What a run has appended and published -/

def OutboxAnswer.appended? : OutboxAnswer → Option OutboxEvent
  | .appended e => some e
  | _ => none

def OutboxAnswer.published? : OutboxAnswer → Option OutboxEvent
  | .published e => some e
  | _ => none

abbrev eventIds (events : List OutboxEvent) : List Nat := events.map OutboxEvent.eventId

/-- An event that is published for the first time comes right after all the older ones. -/
def FirstsInOrder (published : List OutboxEvent) : Prop :=
  ∀ front e back, published = front ++ e :: back → e.eventId ∉ eventIds front →
    ∀ n, n ∈ eventIds front ↔ 1 ≤ n ∧ n < e.eventId

/-- What a call has left of its batch: every id not published is in it, or newer than all of it. -/
structure RelayOk (k : Nat) (appended : List OutboxEvent) (r : Relay) : Prop where
  known : ∀ e ∈ r.rest, e ∈ appended
  sorted : r.rest.Pairwise fun e e' => e.eventId ≤ e'.eventId
  covers : ∀ n, k < n → n ∈ eventIds r.rest ∨ ∀ e ∈ r.rest, e.eventId < n
  head : r.published = true → ∀ e ∈ r.rest.head?, e.eventId ≤ k

/-- The ids up to `k` have been published. -/
structure Relaying (k : Nat) (appended published : List OutboxEvent) (s : OutboxSystem) : Prop where
  pos : 1 ≤ s.outbox.ids
  ids : ∀ e ∈ appended, 1 ≤ e.eventId ∧ e.eventId < s.outbox.ids
  distinct : (eventIds appended).Nodup
  pending : ∀ n e, s.outbox.pending.get? n = some e → e ∈ appended ∧ e.eventId = n
  kept : ∀ n, k < n → n < s.outbox.ids → ∃ e, s.outbox.pending.get? n = some e
  upTo : ∀ n, n ∈ eventIds published ↔ 1 ≤ n ∧ n ≤ k
  known : ∀ e ∈ published, e ∈ appended
  inOrder : FirstsInOrder published
  relays : ∀ call r, s.relays.get? call = some r → RelayOk k appended r

variable {k : Nat} {appended published rest : List OutboxEvent} {s s' : OutboxSystem}
  {e : OutboxEvent} {r : Relay} {call sent : Nat}

theorem RelayOk.mono (h : RelayOk k appended r) {k' : Nat} (hk : k ≤ k') (more : List OutboxEvent) :
    RelayOk k' (appended ++ more) r where
  known e he := mem_append_left more (h.known e he)
  sorted := h.sorted
  covers n hn := h.covers n (Nat.lt_of_le_of_lt hk hn)
  head hp e he := (h.head hp e he).trans hk

theorem RelayOk.next (h : RelayOk k appended ⟨rest, false, sent⟩) :
    ∀ r, Relay.next sent rest = some r → RelayOk k appended r := by
  intro r hr
  cases rest with
  | nil => cases hr
  | cons =>
    cases hr
    exact h

theorem relays_put {P : Relay → Prop} (h : ∀ call r, s.relays.get? call = some r → P r)
    {next : Option Relay} (hnext : ∀ r, next = some r → P r) :
    ∀ call' r, (s.relays.put call next).get? call' = some r → P r := by
  intro call' r hr
  rw [Dict.get?_put] at hr
  split at hr
  · exact hnext r hr
  · exact h call' r hr

theorem Relaying.append (h : Relaying k appended published s) (type : String)
    (aggregate : Aggregate) (payload : List (String × PayloadValue)) :
    Relaying k (appended ++ [⟨s.outbox.ids, type, aggregate, payload⟩]) published
      { s with outbox := s.outbox.append type aggregate payload } := by
  set e : OutboxEvent := ⟨s.outbox.ids, type, aggregate, payload⟩ with he
  have hget : ∀ n, (s.outbox.append type aggregate payload).pending.get? n =
      if n = s.outbox.ids then some e else s.outbox.pending.get? n :=
    fun n => get?_set _ _ _ _
  refine ⟨Nat.succ_pos _, fun e' he' => ?_, ?_, fun n e' hn => ?_, fun n hn hlt => ?_, h.upTo,
    fun e' he' => mem_append_left _ (h.known e' he'), h.inOrder,
    fun call r hr => (h.relays call r hr).mono le_rfl _⟩
  · rcases mem_append.mp he' with he' | he'
    · exact ⟨(h.ids e' he').1, Nat.lt_succ_of_lt (h.ids e' he').2⟩
    · rw [mem_singleton.mp he']
      exact ⟨h.pos, Nat.lt_succ_self _⟩
  · rw [eventIds, map_append, map_singleton, ← concat_eq_append, nodup_concat]
    refine ⟨fun hmem => ?_, h.distinct⟩
    obtain ⟨e', he', heq⟩ := List.mem_map.mp hmem
    exact (h.ids e' he').2.ne heq
  · rw [hget] at hn
    split at hn
    next heq =>
      cases hn
      exact ⟨mem_append_right _ (mem_singleton_self _), heq.symm⟩
    next =>
      obtain ⟨hmem, heq⟩ := h.pending n e' hn
      exact ⟨mem_append_left _ hmem, heq⟩
  · rw [hget]
    split
    · exact ⟨e, rfl⟩
    next hne => exact h.kept n hn (Nat.lt_of_le_of_ne (Nat.le_of_lt_succ hlt) hne)

theorem Relaying.batch (h : Relaying k appended published s) :
    RelayOk k appended ⟨s.outbox.batch, false, 0⟩ := by
  have hmem : ∀ e, e ∈ s.outbox.batch ↔ ∃ n, s.outbox.pending.get? n = some e := by
    intro e
    rw [Outbox.batch, (perm_insertionSort _ _).mem_iff, Dict.values, List.mem_map]
    constructor
    · rintro ⟨x, hx, rfl⟩
      exact ⟨x.1, mem_items_iff.mp hx⟩
    · rintro ⟨n, hn⟩
      exact ⟨(n, e), mem_items_iff.mpr hn, rfl⟩
  refine ⟨fun e he => ?_, ?_, fun n hn => ?_, by simp⟩
  · obtain ⟨n, hn⟩ := (hmem e).mp he
    exact (h.pending n e hn).1
  · have : Std.Total fun e e' : OutboxEvent => e.eventId ≤ e'.eventId :=
      ⟨fun _ _ => Nat.le_total _ _⟩
    have : IsTrans OutboxEvent fun e e' => e.eventId ≤ e'.eventId := ⟨fun _ _ _ => Nat.le_trans⟩
    exact pairwise_insertionSort _ _
  by_cases hlt : n < s.outbox.ids
  · obtain ⟨e, he⟩ := h.kept n hn hlt
    exact .inl (List.mem_map.mpr ⟨e, (hmem e).mpr ⟨n, he⟩, (h.pending n e he).2⟩)
  · right
    intro e he
    obtain ⟨m, hm⟩ := (hmem e).mp he
    have := (h.ids e (h.pending m e hm).1).2
    omega

theorem RelayOk.head_le {published : Bool} (h : RelayOk k appended ⟨e :: rest, published, sent⟩) :
    e.eventId ≤ k + 1 := by
  by_contra hlt
  obtain hmem | hall := h.covers (k + 1) (Nat.lt_succ_self k)
  · obtain ⟨e', he', heq⟩ := List.mem_map.mp hmem
    rcases mem_cons.mp he' with rfl | he'
    · omega
    · have := (pairwise_cons.mp h.sorted).1 e' he'
      omega
  · have := hall e mem_cons_self
    omega

theorem Relaying.publish (h : Relaying k appended published s)
    (hr : s.relays.get? call = some ⟨e :: rest, false, sent⟩) :
    ∃ k', k ≤ k' ∧ Relaying k' appended (published ++ [e])
      { s with relays := s.relays.put call (some ⟨e :: rest, true, sent⟩) } := by
  have hrelay := h.relays call _ hr
  have hmem := hrelay.known e mem_cons_self
  obtain ⟨hpos, -⟩ := h.ids e hmem
  have hle := hrelay.head_le
  have hmono : ∀ r, RelayOk k appended r → RelayOk (max k e.eventId) appended r := by
    intro r hr
    have := hr.mono (le_max_left k e.eventId) []
    rwa [append_nil] at this
  have hupTo : ∀ n, n ∈ eventIds (published ++ [e]) ↔ 1 ≤ n ∧ n ≤ max k e.eventId := by
    intro n
    rw [eventIds, map_append, map_singleton, mem_append, mem_singleton, h.upTo]
    omega
  refine ⟨max k e.eventId, le_max_left _ _, h.pos, h.ids, h.distinct, h.pending, fun n hn => ?_,
    hupTo, ?_, fun front e' back hsplit hfirst => ?_,
    relays_put (fun call r hr => hmono r (h.relays call r hr)) ?_⟩
  · exact h.kept n (Nat.lt_of_le_of_lt (le_max_left _ _) hn)
  · exact forall_mem_append.mpr ⟨h.known, forall_mem_singleton.mpr hmem⟩
  · rcases eq_nil_or_concat back with rfl | ⟨back, last, rfl⟩
    · obtain ⟨rfl, heq⟩ := append_inj' hsplit rfl
      cases heq
      -- it is published for the first time, so it is the next one
      rw [h.upTo] at hfirst
      intro n
      rw [h.upTo]
      omega
    · rw [concat_eq_append, ← cons_append, ← append_assoc] at hsplit
      obtain ⟨rfl, -⟩ := append_inj' hsplit rfl
      exact h.inOrder front e' back rfl hfirst
  · rintro r ⟨⟩
    have hlater := hmono _ hrelay
    refine ⟨hlater.known, hlater.sorted, hlater.covers, fun _ e' he' => ?_⟩
    cases he'
    exact le_max_right _ _

theorem Relaying.remove (h : Relaying k appended published s)
    (hr : s.relays.get? call = some ⟨e :: rest, true, sent⟩) : Relaying k appended published
      ⟨s.outbox.pop e, s.relays.put call (Relay.next (sent + 1) rest)⟩ := by
  have hrelay := h.relays call _ hr
  have hle : e.eventId ≤ k := hrelay.head rfl e rfl
  have hrest : RelayOk k appended ⟨rest, false, sent + 1⟩ := by
    refine ⟨fun e' he' => hrelay.known e' (mem_cons_of_mem e he'),
      (pairwise_cons.mp hrelay.sorted).2, fun n hn => ?_, nofun⟩
    obtain hmem | hall := hrelay.covers n hn
    · rcases mem_cons.mp hmem with rfl | hmem
      · omega
      · exact .inl hmem
    · exact .inr fun e' he' => hall e' (mem_cons_of_mem e he')
  refine ⟨h.pos, h.ids, h.distinct, fun n e' hn => ?_, fun n hn hlt => ?_, h.upTo, h.known,
    h.inOrder, relays_put h.relays hrest.next⟩
  · exact h.pending n e' (get?_erase_some hn).2
  · obtain ⟨e', he'⟩ := h.kept n hn hlt
    exact ⟨e', by rw [Outbox.pop, get?_erase_of_ne _ (by omega), he']⟩

theorem Relaying.step (h : Relaying k appended published s) {a : OutboxStep} {o : OutboxAnswer}
    (hstep : s.step a = .ok (o, s')) :
    ∃ k', Relaying k' (appended ++ o.appended?.toList) (published ++ o.published?.toList) s' := by
  cases a with
  | append type aggregate payload =>
    cases hstep
    exact ⟨k, (append_nil published).symm ▸ h.append type aggregate payload⟩
  | relay =>
    rw [OutboxSystem.step] at hstep
    split at hstep
    · cases hstep
    cases hstep
    simp only [OutboxAnswer.appended?, OutboxAnswer.published?, Option.toList_none, append_nil]
    exact ⟨k, { h with relays := relays_put h.relays h.batch.next }⟩
  | publish =>
    rw [OutboxSystem.step] at hstep
    split at hstep
    next hr =>
      split at hstep
      · cases hstep
        obtain ⟨k', -, h'⟩ := h.publish hr
        exact ⟨k', (append_nil appended).symm ▸ h'⟩
      · cases hstep
        simp only [OutboxAnswer.appended?, OutboxAnswer.published?, Option.toList_none,
          append_nil]
        exact ⟨k, { h with relays := relays_put h.relays nofun }⟩
    · cases hstep
  | remove =>
    rw [OutboxSystem.step] at hstep
    split at hstep
    next hr =>
      cases hstep
      simp only [OutboxAnswer.appended?, OutboxAnswer.published?, Option.toList_none, append_nil]
      exact ⟨k, h.remove hr⟩
    · cases hstep

theorem new_relaying : Relaying 0 [] [] OutboxSystem.new where
  pos := le_rfl
  ids := nofun
  distinct := nodup_nil
  pending := nofun
  kept n hn hlt := by
    have : n < 1 := hlt
    omega
  upTo n := ⟨nofun, fun hn => by omega⟩
  known := nofun
  inOrder front e back hsplit := by
    cases front <;> cases hsplit
  relays := nofun

/-- Any appends and any relays whose publishing may fail: what was appended is in the outbox or has
    been published, and the first publications are in the order of the ids, none left out. -/
theorem run_delivers {as : List OutboxStep} {os : List OutboxAnswer}
    (hrun : runSteps OutboxSystem.step OutboxSystem.new as = .ok (os, s)) :
    (∀ e ∈ os.filterMap OutboxAnswer.appended?,
      s.outbox.pending.get? e.eventId = some e ∨ e ∈ os.filterMap OutboxAnswer.published?) ∧
      FirstsInOrder (os.filterMap OutboxAnswer.published?) := by
  obtain ⟨k, h⟩ := runSteps_keeps (C := fun _ _ => True)
    (I := fun _ os s => ∃ k, Relaying k (os.filterMap OutboxAnswer.appended?)
      (os.filterMap OutboxAnswer.published?) s)
    (fun _ os s a o s' _ ⟨k, h⟩ _ hstep => by
      have hlast : ∀ f : OutboxAnswer → Option OutboxEvent, [o].filterMap f = (f o).toList := by
        intro f
        rw [filterMap_cons]
        cases f o <;> rfl
      rw [filterMap_append, filterMap_append, hlast, hlast]
      exact h.step hstep)
    ⟨0, new_relaying⟩ (Guarded.of_forall (fun _ _ => trivial) _ as) hrun
  refine ⟨fun e he => ?_, h.inOrder⟩
  obtain ⟨hpos, hlt⟩ := h.ids e he
  by_cases hk : k < e.eventId
  · obtain ⟨e', he'⟩ := h.kept e.eventId hk hlt
    obtain ⟨hmem, heq⟩ := h.pending _ e' he'
    rw [inj_on_of_nodup_map h.distinct hmem he heq] at he'
    exact .inl he'
  · obtain ⟨e', he', heq⟩ := List.mem_map.mp ((h.upTo e.eventId).mpr ⟨hpos, not_lt.mp hk⟩)
    rw [inj_on_of_nodup_map h.distinct (h.known e' he') he heq] at he'
    exact .inr he'

/-- Two relays of one event; one of them fails after an append, the other goes on. -/
def twoRelays : List OutboxStep :=
  [.append "a" (.payment 1) [], .relay 1, .relay 2, .publish 1 true, .publish 2 true,
    .append "b" (.payment 1) [], .remove 1, .remove 2, .relay 1, .publish 1 false, .relay 2,
    .publish 2 true]

/-- `run_delivers` for `twoRelays`. -/
theorem run_delivers_twoRelays :
    ∃ os s, runSteps OutboxSystem.step OutboxSystem.new twoRelays = .ok (os, s) ∧
      (∀ e ∈ os.filterMap OutboxAnswer.appended?,
        s.outbox.pending.get? e.eventId = some e ∨ e ∈ os.filterMap OutboxAnswer.published?) ∧
      FirstsInOrder (os.filterMap OutboxAnswer.published?) := by
  obtain ⟨⟨os, s⟩, hrun⟩ :
      ∃ r, runSteps OutboxSystem.step OutboxSystem.new twoRelays = .ok r := ⟨_, rfl⟩
  exact ⟨os, s, hrun, run_delivers hrun⟩

end InterviewPrep.Payments
