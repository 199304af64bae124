/-
  What is kept of the messages that have been delivered.  The index has the newest of the handled
  positions of a driver (`Indexing`); the enriched topic ends, for a driver, with the zone of its
  position, unless the message that gave it is delivered again (`Passing`); and the aggregator has
  the zone of the last enriched message (`Zoning`).

  The pipeline converges (`run_converged`).  Once both groups have drained their topics, the index
  has the newest position produced for each driver, the aggregator has its zone, and what cannot
  be read is in the dead letter topic, whatever the batches and crashes were.
-/
import InterviewPrep.CabBooking.Pipeline

namespace InterviewPrep.CabBooking

open Lib Dict List Option

/-- The position that a message gives to a driver. -/
def RawValue.positionOf (v : RawValue) (driverId : String) : Option (Location × ℚ) :=
  match v.ping with
  | .ok ping => if ping.driverId = driverId then some (ping.location, ping.ts) else none
  | .error _ => none

variable {driverId : String}

theorem RawValue.positionOf_eq_some {v : RawValue} {pos : Location × ℚ} :
    v.positionOf driverId = some pos ↔ v.ping = .ok ⟨driverId, pos.1, pos.2⟩ := by
  rw [positionOf]
  cases v.ping with
  | error => exact iff_of_false (by rintro ⟨⟩) (by rintro ⟨⟩)
  | ok ping =>
    obtain ⟨id, location, ts⟩ := ping
    dsimp only
    by_cases hid : id = driverId
    · rw [if_pos hid, hid, Except.ok.injEq, Option.some.injEq, Prod.ext_iff, Ping.mk.injEq]
      exact (and_iff_right rfl).symm
    · rw [if_neg hid, Except.ok.injEq, Ping.mk.injEq]
      exact iff_of_false (by rintro ⟨⟩) fun h => hid h.1

/-- A message is applied to the position of a driver. -/
def indexing (driverId : String) (x : Option (Location × ℚ)) (msg : KafkaMessage RawValue) :
    Option (Location × ℚ) :=
  match msg.value.positionOf driverId with
  | none => x
  | some pos => latest Prod.snd x pos

theorem indexing_twice (x : Option (Location × ℚ)) (msg : KafkaMessage RawValue) :
    indexing driverId (indexing driverId x msg) msg = indexing driverId x msg := by
  rw [indexing, indexing]
  cases msg.value.positionOf driverId with
  | none => rfl
  | some => exact latest_twice _ _

variable {msg : KafkaMessage RawValue} {x : Option (Location × ℚ)}

theorem indexing_ping {ping : Ping}
    (hping : msg.value.ping = .ok ping) :
    indexing driverId x msg =
      if driverId = ping.driverId then latest Prod.snd x (ping.location, ping.ts) else x := by
  rw [indexing, RawValue.positionOf, hping]
  dsimp only
  by_cases hid : ping.driverId = driverId
  · rw [if_pos hid, if_pos hid.symm]
  · rw [if_neg hid, if_neg fun heq => hid heq.symm]

theorem indexing_error {e : Raised}
    (hping : msg.value.ping = .error e) : indexing driverId x msg = x := by
  rw [indexing, RawValue.positionOf, hping]

def zoning (driverId : String) (x : Option String) (msg : KafkaMessage Enriched) : Option String :=
  if msg.value.driverId = driverId then some msg.value.zoneId else x

theorem zoning_twice (x : Option String) (msg : KafkaMessage Enriched) :
    zoning driverId (zoning driverId x msg) msg = zoning driverId x msg := by
  rw [zoning, zoning]
  split <;> rfl

namespace GpsPipeline

variable {crc32 : String → Nat} {raw : Topic RawValue} {enriched : Topic Enriched}
  {dlq dlq' : Topic DeadLetter} {geoIndex geoIndex' : GeoIndex} {polling : Option Polling}
  {driverZone : Dict String String} {aggregating : Option Aggregating} {call : Polling}
  {msg : KafkaMessage RawValue} {rest : List (KafkaMessage RawValue)} {s s' : GpsPipeline}
  {message : Option (String × RawValue)}

/-! ## The index -/

/-- The message that is handled and not committed. -/
def Polling.current (call : Polling) : Option (KafkaMessage RawValue) :=
  if call.stage = .next then none else call.rest.head?

/-- A message has been handled: its position, or a newer one, is in the index, or it is a dead
    letter. -/
structure Handled (dlq : Topic DeadLetter) (geoIndex : GeoIndex) (msg : KafkaMessage RawValue) :
    Prop where
  position : ∀ driverId pos, msg.value.positionOf driverId = some pos →
    ∃ e, geoIndex.entry driverId = some e ∧ pos.2 ≤ e.2
  dead : ∀ e, msg.value.ping = .error e → e.caught = true ∧
    ∃ p, ∃ letter ∈ dlq.log p, letter.key = msg.key ∧ letter.value = ⟨e, msg.value⟩

/-- The messages with a position of the driver are in the partition of the driver. -/
def Keyed (crc32 : String → Nat) (raw : Topic RawValue) (driverId : String) : Prop :=
  raw.Homed (indexing driverId) (raw.partitionOf crc32 driverId)

structure Indexing (crc32 : String → Nat) (raw : Topic RawValue) (dlq : Topic DeadLetter)
    (geoIndex : GeoIndex) (polling : Option Polling) : Prop where
  wf : raw.Wf processorGroup
  letters : 0 < dlq.logs.length
  ready : ∀ call, polling = some call → raw.Ready processorGroup call.rest
  known : ∀ driverId e, geoIndex.entry driverId = some e →
    ∃ p, ∃ msg ∈ raw.log p, msg.value.positionOf driverId = some e
  handled : ∀ p i msg, i < raw.offset processorGroup p → (raw.log p)[i]? = some msg →
    Handled dlq geoIndex msg
  current : ∀ msg, polling.bind Polling.current = some msg → Handled dlq geoIndex msg
  consumed : ∀ driverId, Keyed crc32 raw driverId →
    raw.Consumed processorGroup (polling.bind Polling.current) (indexing driverId) none
      (raw.partitionOf crc32 driverId) (geoIndex.entry driverId)

theorem Handled.mono (h : Handled dlq geoIndex msg)
    (hentry : ∀ driverId e, geoIndex.entry driverId = some e →
      ∃ e', geoIndex'.entry driverId = some e' ∧ e.2 ≤ e'.2)
    (hletters : ∀ p, ∀ letter ∈ dlq.log p, letter ∈ dlq'.log p) : Handled dlq' geoIndex' msg := by
  refine ⟨fun driverId pos hpos => ?_, fun e he => ?_⟩
  · obtain ⟨e, hentry', hle⟩ := h.position driverId pos hpos
    obtain ⟨e', he', hle'⟩ := hentry driverId e hentry'
    exact ⟨e', he', hle.trans hle'⟩
  · obtain ⟨hcaught, p, letter, hmem, hletter⟩ := h.dead e he
    exact ⟨hcaught, p, letter, hletters p letter hmem, hletter⟩

theorem latest_newer {x : Option (Location × ℚ)} {pos e : Location × ℚ} (h : x = some e) :
    ∃ e', latest Prod.snd x pos = some e' ∧ e.2 ≤ e'.2 := by
  rw [h, latest]
  by_cases hlt : pos.2 < e.2
  · rw [if_pos hlt]
    exact ⟨e, rfl, le_rfl⟩
  · rw [if_neg hlt]
    exact ⟨pos, rfl, not_lt.mp hlt⟩

section

variable (h : Indexing crc32 raw dlq geoIndex polling)

include h

theorem Indexing.at_offset (hcurrent : polling.bind Polling.current = some msg) :
    (raw.log msg.partition)[raw.offset processorGroup msg.partition]? = some msg := by
  obtain ⟨call, hcall, hmsg⟩ := bind_eq_some_iff.mp hcurrent
  rw [Polling.current] at hmsg
  split at hmsg
  · cases hmsg
  · exact (h.ready call hcall).head_of hmsg

theorem Indexing.produce (key : String)
    (value : RawValue) : Indexing crc32 (raw.produce crc32 key value) dlq geoIndex polling where
  wf := h.wf.produce
  letters := h.letters
  ready := fun call hcall => (h.ready call hcall).produce h.wf
  known := by
    intro driverId e he
    obtain ⟨p, msg, hmsg, hpos⟩ := h.known driverId e he
    exact ⟨p, msg, h.wf.mem_produce hmsg, hpos⟩
  handled := by
    intro p i msg hi hmsg
    have hlen := h.wf.offset p
    rw [Topic.offset_produce] at hi
    exact h.handled p i msg hi (h.wf.getElem?_of_produce (Nat.lt_of_lt_of_le hi hlen) hmsg)
  current := h.current
  consumed := by
    intro driverId hkeyed
    rw [Keyed, Topic.partitionOf_produce] at hkeyed
    rw [Topic.partitionOf_produce]
    exact (h.consumed driverId (hkeyed.of_produce h.wf)).produce h.wf fun msg => h.at_offset

theorem Indexing.restart {polling' : Option Polling} (hcall : ∀ call, polling' = some call →
      raw.Ready processorGroup call.rest ∧ call.stage = .next) :
    Indexing crc32 raw dlq geoIndex polling' := by
  have hcurrent : polling'.bind Polling.current = none := by
    cases hpolling : polling' with
    | none => rfl
    | some call => exact if_pos (hcall call hpolling).2
  refine ⟨h.wf, h.letters, fun call hpolling => (hcall call hpolling).1, h.known, h.handled, ?_, ?_⟩
  · rw [hcurrent]
    rintro _ ⟨⟩
  · rw [hcurrent]
    exact fun driverId hkeyed => (h.consumed driverId hkeyed).drop

theorem Indexing.deliver
    (hpolling : polling = some call) (hrest : call.rest = msg :: rest) {call' : Polling}
    (hrest' : call'.rest = call.rest) (hstage' : call'.stage ≠ .next) (hentry : ∀ driverId,
      geoIndex'.entry driverId = indexing driverId (geoIndex.entry driverId) msg)
    (hlength : 0 < dlq'.logs.length) (hletters : ∀ p, ∀ letter ∈ dlq.log p, letter ∈ dlq'.log p)
    (hhandled : Handled dlq' geoIndex' msg) : Indexing crc32 raw dlq' geoIndex' (some call') := by
  have hready := h.ready call hpolling
  have hat : (raw.log msg.partition)[raw.offset processorGroup msg.partition]? = some msg :=
    hready.head_of (by rw [hrest]; rfl)
  have hcurrent : (some call').bind Polling.current = some msg := by
    rw [bind_some, Polling.current, if_neg hstage', hrest', hrest]
    rfl
  have hnewer : ∀ driverId e, geoIndex.entry driverId = some e →
      ∃ e', geoIndex'.entry driverId = some e' ∧ e.2 ≤ e'.2 := by
    intro driverId e he
    rw [hentry, indexing]
    split
    · exact ⟨e, he, le_rfl⟩
    · exact latest_newer he
  refine ⟨h.wf, hlength, ?_, fun driverId e he => ?_, fun p i msg' hi hmsg' => ?_, ?_, ?_⟩
  · rintro _ ⟨⟩
    rw [hrest']
    exact hready
  · rw [hentry, indexing] at he
    cases hpos : msg.value.positionOf driverId with
    | none =>
      rw [hpos] at he
      exact h.known driverId e he
    | some =>
    rw [hpos] at he
    cases hold : geoIndex.entry driverId with
    | none =>
      rw [hold] at he
      cases he
      exact ⟨_, msg, mem_of_getElem? hat, hpos⟩
    | some =>
      rw [hold] at he
      dsimp only [latest] at he
      split at he
      · cases he
        exact h.known driverId _ hold
      · cases he
        exact ⟨_, msg, mem_of_getElem? hat, hpos⟩
  · exact (h.handled p i msg' hi hmsg').mono hnewer hletters
  · rw [hcurrent]
    rintro _ ⟨⟩
    exact hhandled
  · intro driverId hkeyed
    rw [hcurrent, hentry]
    exact (h.consumed driverId hkeyed).deliver hkeyed indexing_twice hat

theorem Indexing.pass
    (hpolling : polling = some call) (hstage : call.stage ≠ .next) {call' : Polling}
    (hrest' : call'.rest = call.rest) (hstage' : call'.stage ≠ .next) :
    Indexing crc32 raw dlq geoIndex (some call') := by
  have hcurrent : (some call').bind Polling.current = polling.bind Polling.current := by
    rw [hpolling, bind_some, bind_some, Polling.current, Polling.current,
      if_neg hstage', if_neg hstage, hrest']
  refine ⟨h.wf, h.letters, ?_, h.known, h.handled, ?_, ?_⟩
  · rintro _ ⟨⟩
    rw [hrest']
    exact h.ready call hpolling
  · rw [hcurrent]
    exact h.current
  · rw [hcurrent]
    exact h.consumed

theorem Indexing.commit (hpolling : polling = some call) (hrest : call.rest = msg :: rest)
    (hstage : call.stage = .handled) : Indexing crc32 (raw.commit processorGroup msg) dlq geoIndex
      (some { call with rest := rest, stage := .next }) := by
  have hready : raw.Ready processorGroup (msg :: rest) := hrest ▸ h.ready call hpolling
  have hcurrent : polling.bind Polling.current = some msg := by
    rw [hpolling, bind_some, Polling.current, if_neg (by rw [hstage]; decide), hrest]
    rfl
  refine ⟨hready.commit_wf h.wf, h.letters, ?_, h.known, fun p i msg' hi hmsg' => ?_, ?_, ?_⟩
  · rintro _ ⟨⟩
    exact hready.commit h.wf
  · rw [hready.offset_commit h.wf] at hi
    rw [Topic.log_commit] at hmsg'
    by_cases hp : p = msg.partition
    · rw [if_pos hp] at hi
      rcases Nat.lt_succ_iff_lt_or_eq.mp hi with hlt | heq
      · exact h.handled p i msg' hlt hmsg'
      · rw [heq, hp, hready.head] at hmsg'
        cases hmsg'
        exact h.current msg hcurrent
    · rw [if_neg hp] at hi
      exact h.handled p i msg' hi hmsg'
  · rintro _ ⟨⟩
  · intro driverId hkeyed
    have hconsumed := h.consumed driverId hkeyed
    rw [hcurrent] at hconsumed
    exact hconsumed.commit hready h.wf

end

theorem handled_ping {ping : Ping} (hping : msg.value.ping = .ok ping) {e : Location × ℚ}
    (hentry : geoIndex.entry ping.driverId = some e) (hle : ping.ts ≤ e.2) :
    Handled dlq geoIndex msg := by
  refine ⟨fun driverId pos hpos => ?_, fun e he => ?_⟩
  · rw [RawValue.positionOf_eq_some, hping] at hpos
    cases hpos
    exact ⟨e, hentry, hle⟩
  · rw [hping] at he
    cases he

theorem Indexing.step (h : Indexing crc32 s.raw s.dlq s.geoIndex s.polling)
    (heffect : Effect crc32 s message s') :
    Indexing crc32 s'.raw s'.dlq s'.geoIndex s'.polling := by
  cases heffect with
  | quiet => exact h
  | produced key value => exact h.produce key value
  | polled maxMessages =>
    refine h.restart ?_
    rintro _ ⟨⟩
    exact ⟨h.wf.poll_ready maxMessages, rfl⟩
  | ended => exact h.restart (by rintro _ ⟨⟩)
  | @indexed _ _ _ ping geoIndex hpolling hrest hping hupsert =>
    refine h.deliver hpolling hrest rfl (by rintro ⟨⟩) (fun driverId => ?_) h.letters
      (fun _ _ hmem => hmem) (handled_ping hping (GeoIndex.entry_accepted hupsert) le_rfl)
    have hentry : (s.geoIndex.upsert ping.driverId ping.location ping.ts).2.entry driverId = _ :=
      GeoIndex.entry_upsert driverId
    rw [hupsert] at hentry
    rw [hentry, indexing_ping hping]
    split
    next hid => rw [hid]
    · rfl
  | @refused _ _ _ _ hpolling hrest hping hupsert =>
    obtain ⟨e, he, hlt⟩ := GeoIndex.upsert_refused.mp hupsert
    refine h.deliver hpolling hrest rfl (by rintro ⟨⟩) (fun driverId => ?_) h.letters
      (fun _ _ hmem => hmem) (handled_ping hping he hlt.le)
    rw [indexing_ping hping]
    split
    next hid =>
      rw [hid, he, latest, if_pos hlt]
    · rfl
  | @dead _ msg _ e hpolling hrest hping hcaught =>
    have hwf : s.dlq.logs.length > 0 := h.letters
    have hlog : ∀ p, (s.dlq.produce crc32 msg.key ⟨e, msg.value⟩).log p = _ :=
      fun p => Topic.log_produce hwf
    refine h.deliver hpolling hrest rfl (by rintro ⟨⟩)
      (fun driverId => (indexing_error hping).symm) ?_ ?_ ?_
    · rw [Topic.length_produce]
      exact hwf
    · intro p letter hmem
      rw [hlog]
      split
      · exact mem_append_left _ hmem
      · exact hmem
    refine ⟨fun driverId pos hpos => ?_, fun e' he' => ?_⟩
    · rw [RawValue.positionOf_eq_some, hping] at hpos
      cases hpos
    · rw [hping] at he'
      cases he'
      refine ⟨hcaught, s.dlq.partitionOf crc32 msg.key, ?_⟩
      rw [hlog, if_pos rfl]
      exact ⟨_, mem_append_right _ (mem_singleton_self _), rfl, rfl⟩
  | enriched _ hpolling _ hstage =>
    exact h.pass hpolling (by rw [hstage]; rintro ⟨⟩) rfl (by rintro ⟨⟩)
  | committed hpolling hrest hstage => exact h.commit hpolling hrest hstage
  | aggregated | closed | zoned | zoneCommitted => exact h

/-! ## The enriched topic -/

/-- The zone that the messages for a driver end with. -/
def lastZone (crc32 : String → Nat) (enriched : Topic Enriched) (driverId : String) :
    Option String :=
  (enriched.log (enriched.partitionOf crc32 driverId)).foldl (zoning driverId) none

/-- A message that gives the driver a position of that time, or a newer one, is delivered yet. -/
def Pending (raw : Topic RawValue) (driverId : String) (ts : ℚ) : Prop :=
  ∃ p msg pos, (raw.log p)[raw.offset processorGroup p]? = some msg ∧
    msg.value.positionOf driverId = some pos ∧ ts ≤ pos.2

structure Passing (crc32 : String → Nat) (raw : Topic RawValue) (geoIndex : GeoIndex)
    (enriched : Topic Enriched) (polling : Option Polling) : Prop where
  passed : ∀ driverId e, geoIndex.entry driverId = some e →
    lastZone crc32 enriched driverId = some (zoneIdOf e.1) ∨ Pending raw driverId e.2
  unseen : ∀ driverId, geoIndex.entry driverId = none → lastZone crc32 enriched driverId = none
  enriching : ∀ call msg rest ping, polling = some call → call.rest = msg :: rest →
    call.stage = .enriching ping → msg.value.ping = .ok ping ∧
      geoIndex.entry ping.driverId = some (ping.location, ping.ts)
  handled : ∀ call msg rest driverId pos e, polling = some call → call.rest = msg :: rest →
    call.stage = .handled → msg.value.positionOf driverId = some pos →
    geoIndex.entry driverId = some e →
    pos.2 < e.2 ∨ lastZone crc32 enriched driverId = some (zoneIdOf e.1)

theorem lastZone_produce (hpos : 0 < enriched.logs.length) (value : Enriched) (driverId : String) :
    lastZone crc32 (enriched.produce crc32 value.driverId value) driverId =
      if driverId = value.driverId then some value.zoneId
      else lastZone crc32 enriched driverId := by
  rw [lastZone, lastZone, Topic.partitionOf_produce, Topic.log_produce hpos]
  by_cases hp : enriched.partitionOf crc32 driverId = enriched.partitionOf crc32 value.driverId
  · rw [if_pos hp, foldl_append, foldl_cons, foldl_nil, zoning]
    by_cases hid : driverId = value.driverId
    · rw [if_pos hid, if_pos hid.symm]
    · rw [if_neg hid, if_neg fun heq => hid heq.symm]
  · rw [if_neg hp, if_neg fun hid => hp (by rw [hid])]

theorem Passing.step (hindexing : Indexing crc32 s.raw s.dlq s.geoIndex s.polling)
    (h : Passing crc32 s.raw s.geoIndex s.enriched s.polling) (hpos : 0 < s.enriched.logs.length)
    (heffect : Effect crc32 s message s') :
    Passing crc32 s'.raw s'.geoIndex s'.enriched s'.polling := by
  cases heffect with
  | quiet => exact h
  | produced =>
    refine ⟨fun driverId e he => (h.passed driverId e he).imp_right ?_, h.unseen, h.enriching,
      h.handled⟩
    rintro ⟨p, msg, pos, hat, hmsg⟩
    exact ⟨p, msg, pos, hindexing.wf.getElem?_produce hat, hmsg⟩
  | polled =>
    exact ⟨h.passed, h.unseen, by rintro _ _ _ _ ⟨⟩ _ ⟨⟩, by rintro _ _ _ _ _ _ ⟨⟩ _ ⟨⟩⟩
  | ended => exact ⟨h.passed, h.unseen, by rintro _ _ _ _ ⟨⟩, by rintro _ _ _ _ _ _ ⟨⟩⟩
  | @indexed call msg _ ping geoIndex hpolling hrest hping hupsert =>
    have hnew := GeoIndex.entry_accepted hupsert
    have hother : ∀ driverId, driverId ≠ ping.driverId →
        geoIndex.entry driverId = s.geoIndex.entry driverId := by
      intro driverId hid
      have hentry : (s.geoIndex.upsert ping.driverId ping.location ping.ts).2.entry driverId =
        _ := GeoIndex.entry_upsert driverId
      rwa [hupsert, if_neg hid] at hentry
    have hat : (s.raw.log msg.partition)[s.raw.offset processorGroup msg.partition]? = some msg :=
      (hindexing.ready call hpolling).head_of (by rw [hrest]; rfl)
    refine ⟨fun driverId e he => ?_, fun driverId he => ?_, ?_, by rintro _ _ _ _ _ _ ⟨⟩ _ ⟨⟩⟩
    · by_cases hid : driverId = ping.driverId
      · rw [hid, hnew] at he
        cases he
        exact .inr ⟨_, msg, (ping.location, ping.ts), hat,
          RawValue.positionOf_eq_some.mpr (by rw [hping, hid]), le_rfl⟩
      · rw [hother driverId hid] at he
        exact h.passed driverId e he
    · by_cases hid : driverId = ping.driverId
      · rw [hid, hnew] at he
        cases he
      · rw [hother driverId hid] at he
        exact h.unseen driverId he
    · rintro _ msg' rest' ping' ⟨⟩ hrest' hstage
      rw [hrest] at hrest'
      cases hrest'
      cases hstage
      exact ⟨hping, hnew⟩
  | @refused _ _ _ _ _ hrest hping hupsert =>
    refine ⟨h.passed, h.unseen, by rintro _ _ _ _ ⟨⟩ _ ⟨⟩, ?_⟩
    rintro _ msg' rest' driverId pos e ⟨⟩ hrest' - hmsg' he
    rw [hrest] at hrest'
    cases hrest'
    rw [RawValue.positionOf_eq_some, hping] at hmsg'
    cases hmsg'
    obtain ⟨e', he', hlt⟩ := GeoIndex.upsert_refused.mp hupsert
    rw [he] at he'
    cases he'
    exact .inl hlt
  | @dead _ _ _ e _ hrest hping =>
    refine ⟨h.passed, h.unseen, by rintro _ _ _ _ ⟨⟩ _ ⟨⟩, ?_⟩
    rintro _ msg' rest' driverId pos e ⟨⟩ hrest' - hmsg' -
    rw [hrest] at hrest'
    cases hrest'
    rw [RawValue.positionOf_eq_some, hping] at hmsg'
    cases hmsg'
  | @enriched call msg rest ping _ hpolling hrest hstage =>
    obtain ⟨hping, hentry⟩ := h.enriching call msg rest ping hpolling hrest hstage
    have hlast : ∀ driverId, lastZone crc32 (s.enriched.produce crc32 ping.driverId
        ⟨ping.driverId, ping.location, zoneIdOf ping.location, ping.ts⟩) driverId = _ :=
      lastZone_produce hpos ⟨ping.driverId, ping.location, zoneIdOf ping.location, ping.ts⟩
    refine ⟨fun driverId e he => ?_, fun driverId he => ?_, by rintro _ _ _ _ ⟨⟩ _ ⟨⟩, ?_⟩
    · rw [hlast]
      by_cases hid : driverId = ping.driverId
      · rw [hid, hentry] at he
        cases he
        exact .inl (if_pos hid)
      · rw [if_neg hid]
        exact h.passed driverId e he
    · rw [hlast, if_neg ?_]
      · exact h.unseen driverId he
      · exact (ne_of_eq_none hentry he).symm
    rintro _ msg' rest' driverId pos e ⟨⟩ hrest' - hmsg' he
    rw [hrest] at hrest'
    cases hrest'
    rw [RawValue.positionOf_eq_some, hping] at hmsg'
    cases hmsg'
    rw [hentry] at he
    cases he
    right
    rw [hlast, if_pos rfl]
  | @committed call msg rest hpolling hrest hstage =>
    have hready : s.raw.Ready processorGroup (msg :: rest) := hrest ▸ hindexing.ready call hpolling
    refine ⟨fun driverId e he => ?_, h.unseen, by rintro _ _ _ _ ⟨⟩ _ ⟨⟩,
      by rintro _ _ _ _ _ _ ⟨⟩ _ ⟨⟩⟩
    obtain hlast | ⟨p, msg', pos, hat, hmsg', hle⟩ := h.passed driverId e he
    · exact .inl hlast
    by_cases hp : p = msg.partition
    · rw [hp, hready.head] at hat
      cases hat
      obtain hlt | hlast := h.handled call msg rest driverId pos e hpolling hrest hstage hmsg' he
      · exact absurd hlt (not_lt.mpr hle)
      · exact .inl hlast
    · right
      refine ⟨p, msg', pos, ?_, hmsg', hle⟩
      rw [hready.offset_commit hindexing.wf, if_neg hp]
      exact hat
  | aggregated | closed | zoned => exact h
  | zoneCommitted =>
    exact ⟨h.passed, h.unseen, h.enriching, h.handled⟩

/-! ## The zones of the drivers -/

/-- The message that is handled and not committed. -/
def Aggregating.current (call : Aggregating) : Option (KafkaMessage Enriched) :=
  if call.handled then call.rest.head? else none

structure Zoning (crc32 : String → Nat) (enriched : Topic Enriched)
    (driverZone : Dict String String) (aggregating : Option Aggregating) : Prop where
  wf : enriched.Wf aggregatorGroup
  keyed : ∀ p, ∀ msg ∈ enriched.log p, enriched.partitionOf crc32 msg.value.driverId = p
  ready : ∀ call, aggregating = some call → enriched.Ready aggregatorGroup call.rest
  consumed : ∀ driverId,
    enriched.Consumed aggregatorGroup (aggregating.bind Aggregating.current) (zoning driverId) none
      (enriched.partitionOf crc32 driverId) (driverZone.get? driverId)

section

variable (h : Zoning crc32 enriched driverZone aggregating)

include h

theorem Zoning.homed (driverId : String) :
    enriched.Homed (zoning driverId) (enriched.partitionOf crc32 driverId) := by
  intro p hp msg hmsg x
  rw [zoning, if_neg]
  rintro rfl
  exact hp (h.keyed p msg hmsg).symm

theorem Zoning.produce (value : Enriched) :
    Zoning crc32 (enriched.produce crc32 value.driverId value) driverZone aggregating := by
  refine ⟨h.wf.produce, fun p msg hmsg => ?_, fun call hcall => (h.ready call hcall).produce h.wf,
    fun driverId => ?_⟩
  · rw [Topic.partitionOf_produce]
    rw [Topic.log_produce h.wf.pos] at hmsg
    split at hmsg
    next hp =>
      rcases mem_append.mp hmsg with hmsg | hmsg
      · exact h.keyed p msg hmsg
      · rw [mem_singleton.mp hmsg]
        exact hp.symm
    · exact h.keyed p msg hmsg
  · rw [Topic.partitionOf_produce]
    refine (h.consumed driverId).produce h.wf fun msg hcurrent => ?_
    obtain ⟨call, hcall, hmsg⟩ := bind_eq_some_iff.mp hcurrent
    rw [Aggregating.current] at hmsg
    split at hmsg
    · exact (h.ready call hcall).head_of hmsg
    · cases hmsg

theorem Zoning.restart
    {aggregating' : Option Aggregating} (hcall : ∀ call, aggregating' = some call →
      enriched.Ready aggregatorGroup call.rest ∧ call.handled = false) :
    Zoning crc32 enriched driverZone aggregating' := by
  have hcurrent : aggregating'.bind Aggregating.current = none := by
    cases haggregating : aggregating' with
    | none => rfl
    | some call =>
      rw [bind_some, Aggregating.current, (hcall call haggregating).2]
      rfl
  refine ⟨h.wf, h.keyed, fun call haggregating => (hcall call haggregating).1, ?_⟩
  rw [hcurrent]
  exact fun driverId => (h.consumed driverId).drop

end

theorem Zoning.step (h : Zoning crc32 s.enriched s.driverZone s.aggregating)
    (heffect : Effect crc32 s message s') :
    Zoning crc32 s'.enriched s'.driverZone s'.aggregating := by
  cases heffect with
  | quiet | produced | polled | ended | indexed | refused | dead => exact h
  | @enriched _ _ _ ping =>
    exact h.produce ⟨ping.driverId, ping.location, zoneIdOf ping.location, ping.ts⟩
  | committed => exact h
  | aggregated maxMessages =>
    refine h.restart ?_
    rintro _ ⟨⟩
    exact ⟨h.wf.poll_ready maxMessages, rfl⟩
  | closed => exact h.restart (by rintro _ ⟨⟩)
  | @zoned call msg _ haggregating hrest =>
    have hready := h.ready call haggregating
    have hat : (s.enriched.log msg.partition)[s.enriched.offset aggregatorGroup msg.partition]? =
        some msg := hready.head_of (by rw [hrest]; rfl)
    refine ⟨h.wf, h.keyed, ?_, fun driverId => ?_⟩
    · rintro _ ⟨⟩
      exact hready
    have hcurrent : (some { call with handled := true }).bind Aggregating.current = some msg := by
      rw [bind_some, Aggregating.current, if_pos rfl, hrest]
      rfl
    have hzone : (s.driverZone.set msg.value.driverId msg.value.zoneId).get? driverId =
        zoning driverId (s.driverZone.get? driverId) msg := by
      rw [get?_set, zoning]
      by_cases hid : driverId = msg.value.driverId
      · rw [if_pos hid, if_pos hid.symm]
      · rw [if_neg hid, if_neg fun heq => hid heq.symm]
    rw [hcurrent, hzone]
    exact (h.consumed driverId).deliver (h.homed driverId) zoning_twice hat
  | @zoneCommitted call msg rest haggregating hrest hhandled =>
    have hready : s.enriched.Ready aggregatorGroup (msg :: rest) :=
      hrest ▸ h.ready call haggregating
    have hcurrent : s.aggregating.bind Aggregating.current = some msg := by
      rw [haggregating, bind_some, Aggregating.current, if_pos hhandled, hrest]
      rfl
    refine ⟨hready.commit_wf h.wf, h.keyed, ?_, fun driverId => ?_⟩
    · rintro _ ⟨⟩
      exact hready.commit h.wf
    · have hconsumed := h.consumed driverId
      rw [hcurrent] at hconsumed
      exact hconsumed.commit hready h.wf

end GpsPipeline

def produced (ops : List GpsOp) : List (String × RawValue) := ops.filterMap GpsOp.message

/-- The positions of a driver, in the order in which they were produced. -/
def positions (driverId : String) (ops : List GpsOp) : List (Location × ℚ) :=
  (produced ops).filterMap fun message => message.2.positionOf driverId

namespace GpsPipeline

variable {crc32 : String → Nat} {s s' : GpsPipeline} {ops : List GpsOp} {raw : Topic RawValue}
  {messages : List (String × RawValue)} {driverId : String}

/-- The groups have committed all that is in their topics. -/
def Drained (s : GpsPipeline) : Prop :=
  (∀ p, s.raw.offset processorGroup p = (s.raw.log p).length) ∧
    ∀ p, s.enriched.offset aggregatorGroup p = (s.enriched.log p).length

/-! ## The raw topic -/

/-- The logs of the raw topic have the messages that were produced, in their order. -/
structure Logged (crc32 : String → Nat) (raw : Topic RawValue)
    (messages : List (String × RawValue)) : Prop where
  pos : 0 < raw.logs.length
  logs : ∀ p, (raw.log p).map (fun msg => (msg.key, msg.value)) =
    messages.filter fun message => raw.partitionOf crc32 message.1 = p

theorem Logged.produce (h : Logged crc32 raw messages) (key : String) (value : RawValue) :
    Logged crc32 (raw.produce crc32 key value) (messages ++ [(key, value)]) := by
  refine ⟨by rw [Topic.length_produce]; exact h.pos, fun p => ?_⟩
  simp only [Topic.partitionOf_produce]
  rw [Topic.log_produce h.pos, filter_append]
  by_cases hp : p = raw.partitionOf crc32 key
  · rw [if_pos hp, map_append, h.logs, filter_cons_of_pos (by exact decide_eq_true hp.symm)]
    rfl
  · rw [if_neg hp, h.logs,
      filter_cons_of_neg (by exact fun heq => hp (of_decide_eq_true heq).symm)]
    exact (append_nil _).symm

variable {message : Option (String × RawValue)}

theorem Logged.step (h : Logged crc32 s.raw messages)
    (heffect : Effect crc32 s message s') : Logged crc32 s'.raw (messages ++ message.toList) := by
  cases heffect with
  | produced key value => exact h.produce key value
  | committed =>
    rw [toList_none, append_nil]
    exact ⟨h.pos, h.logs⟩
  | _ =>
    rw [toList_none, append_nil]
    exact h

theorem Logged.mem (h : Logged crc32 raw messages) {message : String × RawValue} :
    message ∈ messages ↔ ∃ p, ∃ msg ∈ raw.log p, (msg.key, msg.value) = message := by
  constructor
  · intro hmem
    have hfilter : message ∈
        messages.filter fun m => raw.partitionOf crc32 m.1 = raw.partitionOf crc32 message.1 :=
      mem_filter.mpr ⟨hmem, decide_eq_true rfl⟩
    rw [← h.logs] at hfilter
    exact ⟨_, List.mem_map.mp hfilter⟩
  · rintro ⟨p, msg, hmsg, rfl⟩
    have hmap : (msg.key, msg.value) ∈ (raw.log p).map fun msg => (msg.key, msg.value) :=
      List.mem_map.mpr ⟨msg, hmsg, rfl⟩
    rw [h.logs] at hmap
    exact (mem_filter.mp hmap).1

theorem Logged.homed (h : Logged crc32 raw messages)
    (hkey : ∀ message ∈ messages, (message.2.positionOf driverId).isSome → message.1 = driverId) :
    Keyed crc32 raw driverId ∧ (raw.log (raw.partitionOf crc32 driverId)).filterMap
      (fun msg => msg.value.positionOf driverId) =
        messages.filterMap fun message => message.2.positionOf driverId := by
  constructor
  · intro p hp msg hmsg x
    rw [indexing]
    cases hpos : msg.value.positionOf driverId with
    | none => rfl
    | some =>
      have hmap : (msg.key, msg.value) ∈ (raw.log p).map fun msg => (msg.key, msg.value) :=
        List.mem_map.mpr ⟨msg, hmsg, rfl⟩
      rw [h.logs] at hmap
      obtain ⟨hmem, hpart⟩ := mem_filter.mp hmap
      have heq := hkey _ hmem (by rw [hpos]; rfl)
      dsimp only at heq hpart
      rw [heq, decide_eq_true_iff] at hpart
      exact absurd hpart.symm hp
  have hlog := congrArg (List.filterMap fun message => message.2.positionOf driverId)
    (h.logs (raw.partitionOf crc32 driverId))
  rw [filterMap_map, filterMap_filter] at hlog
  rw [show (fun msg : KafkaMessage RawValue => msg.value.positionOf driverId) =
    (fun message : String × RawValue => message.2.positionOf driverId) ∘
      fun msg => (msg.key, msg.value) from rfl, hlog]
  apply filterMap_congr
  intro message hmem
  cases hpos : message.2.positionOf driverId with
  | none => exact ite_self none
  | some =>
    rw [hkey message hmem (by rw [hpos]; rfl), if_pos (decide_eq_true rfl)]

/-! ## The counts of the zones -/

theorem supply_eq (isAvailable : String → Bool) (zoneId : String) :
    ((s.supply isAvailable).get? zoneId).getD 0 =
      (s.driverZone.keys.filter fun driverId =>
        isAvailable driverId && s.driverZone.get? driverId = some zoneId).length := by
  have hfold : ∀ (items : List (String × String)) (supply : Dict String Nat),
      ((items.foldl (fun supply item => if isAvailable item.1 then
          supply.set item.2 ((supply.get? item.2).getD 0 + 1) else supply)
            supply).get? zoneId).getD 0 =
        (supply.get? zoneId).getD 0 +
          (items.filter fun item => isAvailable item.1 && item.2 = zoneId).length := by
    intro items
    induction items with
    | nil => exact fun _ => rfl
    | cons item _ ih =>
      intro supply
      rw [foldl_cons, ih]
      cases hav : isAvailable item.1 with
      | false =>
        rw [if_neg Bool.false_ne_true,
          filter_cons_of_neg (by rw [hav, Bool.false_and]; exact Bool.false_ne_true)]
      | true =>
        rw [if_pos rfl, get?_set]
        by_cases hzone : item.2 = zoneId
        · rw [if_pos hzone.symm, getD_some, hzone, filter_cons_of_pos
            (by rw [hav, Bool.true_and]; exact decide_eq_true hzone), length_cons]
          omega
        · rw [if_neg fun heq => hzone heq.symm, filter_cons_of_neg
            (by rw [hav, Bool.true_and]; exact fun heq => hzone (of_decide_eq_true heq))]
  rw [supply, hfold, get?_empty, getD_none, Nat.zero_add, Dict.keys, List.filter_map,
    length_map]
  congr 1
  apply filter_congr
  intro item hmem
  have hget := mem_items_iff.mp hmem
  dsimp only [Function.comp]
  simp only [hget, Option.some.injEq]

theorem zones_foldl (supply : Dict String Nat) (zoneIds : List String) (zoneId : String) :
    (zoneIds.foldl (updateZone crc32 supply) s).zones.get? zoneId =
      if zoneId ∈ zoneIds then some (.updateSupplyDemand ((supply.get? zoneId).getD 0)
        ((s.requests.get? zoneId).getD 0))
      else s.zones.get? zoneId := by
  induction zoneIds generalizing s with
  | nil => exact (if_neg not_mem_nil).symm
  | cons id zoneIds ih =>
    rw [foldl_cons, ih, updateZone]
    rw [get?_set]
    by_cases hmem : zoneId ∈ zoneIds
    · rw [if_pos hmem, if_pos (mem_cons_of_mem id hmem)]
    · by_cases hid : zoneId = id
      · rw [if_neg hmem, if_pos hid, if_pos (mem_cons.mpr (.inl hid)), hid]
      · have hnot : zoneId ∉ id :: zoneIds := fun h => (mem_cons.mp h).elim hid hmem
        rw [if_neg hmem, if_neg hid, if_neg hnot]

theorem close_counts (isAvailable : String → Bool) {zoneId : String} {zone : Zone}
    (hzone : (s.close crc32 isAvailable).zones.get? zoneId = some zone) :
    zone.driverCount = (s.driverZone.keys.filter fun driverId =>
      isAvailable driverId && s.driverZone.get? driverId = some zoneId).length := by
  have hzones : (s.close crc32 isAvailable).zones.get? zoneId = _ :=
    zones_foldl (s.supply isAvailable) (s.zones.keys.insertionSort (· ≤ ·)) zoneId
  rw [hzone] at hzones
  have hmem : zoneId ∈ s.zones.keys.insertionSort (· ≤ ·) := by
    by_contra hnot
    rw [if_neg hnot] at hzones
    have hkeys : zoneId ∈ s.zones.keys := Dict.mem_keys.mpr ⟨zone, hzones.symm⟩
    exact hnot ((perm_insertionSort _ _).mem_iff.mpr hkeys)
  rw [if_pos hmem] at hzones
  rw [some.inj hzones, ← supply_eq]
  rfl

/-! ## Every run -/

/-- What holds of every state, after the steps that led to it. -/
structure Converging (crc32 : String → Nat) (ops : List GpsOp) (s : GpsPipeline) : Prop where
  logged : Logged crc32 s.raw (produced ops)
  indexed : s.geoIndex.Indexed
  indexing : Indexing crc32 s.raw s.dlq s.geoIndex s.polling
  passing : Passing crc32 s.raw s.geoIndex s.enriched s.polling
  zoning : Zoning crc32 s.enriched s.driverZone s.aggregating

/-- What a message does keeps the cells of the index those of its drivers. -/
theorem indexed_step (h : s.geoIndex.Indexed)
    (heffect : Effect crc32 s message s') : s'.geoIndex.Indexed := by
  cases heffect with
  | @indexed _ _ _ ping geoIndex _ _ _ hupsert =>
    have hnew : (s.geoIndex.upsert ping.driverId ping.location ping.ts).2.Indexed := h.upsert
    rwa [hupsert] at hnew
  | _ => exact h

theorem Converging.act (h : Converging crc32 ops s) (op : GpsOp) :
    Converging crc32 (ops ++ [op]) (s.act crc32 op).2 := by
  have heffect : Effect crc32 s op.message (s.act crc32 op).2 := s.effect op
  have hproduced : produced (ops ++ [op]) = produced ops ++ op.message.toList := by
    rw [produced, filterMap_append]
    cases op <;> rfl
  exact ⟨hproduced ▸ h.logged.step heffect, indexed_step h.indexed heffect,
    h.indexing.step heffect, h.passing.step h.indexing h.zoning.wf.pos heffect,
    h.zoning.step heffect⟩

theorem new_converging : Converging crc32 [] new := by
  have hlog : ∀ (V : Type) (n p : Nat), (Topic.create n : Topic V).log p = [] := by
    intro V n p
    rw [Topic.log, Topic.create, getElem?_replicate]
    split <;> rfl
  have hlast : ∀ driverId, lastZone crc32 (Topic.create 5) driverId = none := by
    intro driverId
    rw [lastZone, hlog]
    rfl
  refine ⟨⟨by decide, fun p => ?_⟩, GeoIndex.new_indexed, ?_, ?_, ?_⟩
  · rw [new, hlog]
    rfl
  · refine ⟨Topic.create_wf 5 (by decide), by decide, by rintro _ ⟨⟩, by rintro _ _ ⟨⟩,
      ?_, by rintro _ ⟨⟩,
      fun driverId _ => ⟨.inl ?_, by rintro _ ⟨⟩⟩⟩
    · intro p i msg hi
      exact absurd hi (Nat.not_lt_zero i)
    · rw [new, hlog]
      rfl
  · exact ⟨by rintro _ _ ⟨⟩, fun driverId _ => hlast driverId, by rintro _ _ _ _ ⟨⟩,
      by rintro _ _ _ _ _ _ ⟨⟩⟩
  · refine ⟨Topic.create_wf 5 (by decide), fun p msg hmsg => ?_, by rintro _ ⟨⟩,
      fun driverId => ⟨.inl ?_, by rintro _ ⟨⟩⟩⟩
    · rw [new, hlog] at hmsg
      cases hmsg
    · rw [new, hlog]
      rfl

theorem Converging.handled_all (h : Converging crc32 ops s)
    (hdrained : ∀ p, s.raw.offset processorGroup p = (s.raw.log p).length)
    {message : String × RawValue} (hmem : message ∈ produced ops) :
    ∃ msg, (msg.key, msg.value) = message ∧ Handled s.dlq s.geoIndex msg := by
  obtain ⟨p, msg, hmsg, heq⟩ := h.logged.mem.mp hmem
  obtain ⟨i, hi⟩ := mem_iff_getElem?.mp hmsg
  obtain ⟨hlt, -⟩ := List.getElem?_eq_some_iff.mp hi
  exact ⟨msg, heq, h.indexing.handled p i msg (by rw [hdrained p]; exact hlt) hi⟩

theorem mem_positions {pos : Location × ℚ} : pos ∈ positions driverId ops ↔
      ∃ message ∈ produced ops, message.2.positionOf driverId = some pos :=
  mem_filterMap

theorem Converging.newest (h : Converging crc32 ops s)
    (hdrained : ∀ p, s.raw.offset processorGroup p = (s.raw.log p).length) (driverId : String) :
    (s.geoIndex.entry driverId = none ↔ positions driverId ops = []) ∧
      ∀ e, s.geoIndex.entry driverId = some e →
        e ∈ positions driverId ops ∧ ∀ pos ∈ positions driverId ops, pos.2 ≤ e.2 := by
  have hposition : ∀ pos ∈ positions driverId ops,
      ∃ e, s.geoIndex.entry driverId = some e ∧ pos.2 ≤ e.2 := by
    intro pos hpos
    obtain ⟨message, hmem, hmessage⟩ := mem_positions.mp hpos
    obtain ⟨msg, rfl, hhandled⟩ := h.handled_all hdrained hmem
    exact hhandled.position driverId pos hmessage
  have hknown : ∀ e, s.geoIndex.entry driverId = some e → e ∈ positions driverId ops := by
    intro e he
    obtain ⟨p, msg, hmsg, hpos⟩ := h.indexing.known driverId e he
    exact mem_positions.mpr ⟨_, h.logged.mem.mpr ⟨p, msg, hmsg, rfl⟩, hpos⟩
  constructor
  · constructor
    · intro hnone
      rw [eq_nil_iff_forall_not_mem]
      intro pos hpos
      obtain ⟨e, he, -⟩ := hposition pos hpos
      rw [hnone] at he
      cases he
    intro hnil
    cases he : s.geoIndex.entry driverId with
    | none => rfl
    | some e =>
      have hmem := hknown e he
      rw [hnil] at hmem
      cases hmem
  · refine fun e he => ⟨hknown e he, fun pos hpos => ?_⟩
    obtain ⟨e', he', hle⟩ := hposition pos hpos
    rw [he] at he'
    cases he'
    exact hle

theorem foldl_indexing (driverId : String) (log : List (KafkaMessage RawValue))
    (x : Option (Location × ℚ)) : log.foldl (indexing driverId) x =
      (log.filterMap fun msg => msg.value.positionOf driverId).foldl (latest Prod.snd) x := by
  induction log generalizing x with
  | nil => rfl
  | cons msg _ ih =>
    rw [foldl_cons, ih, indexing, filterMap_cons]
    cases msg.value.positionOf driverId with
    | none => rfl
    | some => rfl

theorem Converging.last_newest (h : Converging crc32 ops s)
    (hdrained : ∀ p, s.raw.offset processorGroup p = (s.raw.log p).length)
    (hkey : ∀ message ∈ produced ops, (message.2.positionOf driverId).isSome →
      message.1 = driverId) {e : Location × ℚ} (he : s.geoIndex.entry driverId = some e) :
    ∃ front back, positions driverId ops = front ++ e :: back ∧
      (∀ pos ∈ front, pos.2 ≤ e.2) ∧ ∀ pos ∈ back, pos.2 < e.2 := by
  obtain ⟨hkeyed, hpositions⟩ := h.logged.homed hkey
  have hall := (h.indexing.consumed driverId hkeyed).1.all (hdrained _)
  rw [foldl_indexing, hpositions, he] at hall
  exact foldl_latest hall.symm

theorem Converging.zone (h : Converging crc32 ops s) (hdrained : s.Drained) (driverId : String) :
    s.driverZone.get? driverId = (s.geoIndex.entry driverId).map fun e => zoneIdOf e.1 := by
  have hlast : s.driverZone.get? driverId = lastZone crc32 s.enriched driverId :=
    (h.zoning.consumed driverId).1.all (hdrained.2 _)
  rw [hlast]
  cases he : s.geoIndex.entry driverId with
  | none => exact h.passing.unseen driverId he
  | some e =>
    obtain hzone | ⟨p, msg, pos, hat, -⟩ := h.passing.passed driverId e he
    · exact hzone
    · -- no message is left that could be delivered again
      rw [hdrained.1 p, getElem?_eq_none (Nat.le_refl _)] at hat
      cases hat

theorem step_eq_act (s : GpsPipeline) (op : GpsOp) : s.step crc32 op = .ok (s.act crc32 op) := rfl

end GpsPipeline

end InterviewPrep.CabBooking
