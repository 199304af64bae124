/-
  The stream of positions: the processor indexes the raw messages and passes them on with their
  zone, and the aggregator keeps the zone of each driver.  A step is one message produced, or one
  section of the call of a consumer, which may crash between any two of them.

  A raw message is what the reads of its fields give, and `crc32` is the hash of the keys.

  What a step does to the topics, the index, the calls of the two consumers and the zones is
  `Effect`.
-/
import InterviewPrep.CabBooking.GeoIndex
import InterviewPrep.CabBooking.Kafka
import InterviewPrep.Lib.Run
import Mathlib.Data.List.Sort

namespace InterviewPrep.CabBooking

open Lib

/-! ## Messages -/

inductive Raised where
  | keyError
  | typeError
  | valueError
  | overflowError

/-- `except (KeyError, TypeError, ValueError)`. -/
def Raised.caught : Raised → Bool
  | .overflowError => false
  | _ => true

/-- A value of the raw topic: `v["driver_id"]`, `none` if it cannot be hashed, and the other fields
    as floats, `none` if a coordinate is not finite. -/
structure RawValue where
  driverId : Except Raised (Option String)
  lat : Except Raised (Option ℚ)
  lng : Except Raised (Option ℚ)
  ts : Except Raised ℚ

/-- The position of a driver at a time. -/
structure Ping where
  driverId : String
  location : Location
  ts : ℚ
  deriving DecidableEq

/-- `Location(lat, lng)`. -/
def Location.make (lat lng : Option ℚ) : Except Raised Location :=
  match lat, lng with
  | some lat, some lng =>
    if h : (-90 ≤ lat ∧ lat ≤ 90) ∧ -180 ≤ lng ∧ lng ≤ 180 then .ok ⟨lat, lng, h⟩
    else .error .valueError
  | _, _ => .error .valueError

/-- The reads of a message, in their order. -/
def RawValue.ping (v : RawValue) : Except Raised Ping := do
  let lat ← v.lat
  let lng ← v.lng
  let location ← Location.make lat lng
  let driverId ← v.driverId
  let ts ← v.ts
  match driverId with
  | none => .error .typeError
  | some driverId => .ok ⟨driverId, location, ts⟩

structure Enriched where
  driverId : String
  location : Location
  zoneId : String
  ts : ℚ

structure ZoneCounts where
  zoneId : String
  driverCount : Nat
  rideRequests : Nat
  surgeMultiplier : ℚ

structure DeadLetter where
  error : Raised
  original : RawValue

/-! ## Zones -/

def computeSurge (demand supply : Nat) : ℚ :=
  if demand = 0 then 1
  else if supply = 0 then 5 / 2
  else if (demand : ℚ) / supply > 3 then 2
  else if (demand : ℚ) / supply > 2 then 3 / 2
  else if (demand : ℚ) / supply > 3 / 2 then 5 / 4
  else 1

structure Zone where
  driverCount : Nat
  rideRequestCount : Nat
  surgeMultiplier : ℚ

def Zone.new : Zone := ⟨0, 0, 1⟩

def Zone.updateSupplyDemand (driverCount rideRequests : Nat) : Zone :=
  ⟨driverCount, rideRequests, computeSurge rideRequests driverCount⟩

/-- The zone of a position is its geohash cell. -/
def zoneIdOf (location : Location) : String := geohashEncode location.lat location.lng 6

/-! ## The pipeline -/

/-- What has been done of the next message of a batch. -/
inductive Stage where
  | next
  /-- The index has accepted the position, and it is to be passed on. -/
  | enriching (ping : Ping)
  /-- The message is handled, and its offset is to be committed. -/
  | handled
  deriving DecidableEq

/-- A call of `GPSLocationStreamProcessor.poll`. -/
structure Polling where
  rest : List (KafkaMessage RawValue)
  stage : Stage
  processed : Nat

/-- A call of `ZoneAnalyticsAggregator.aggregate`. -/
structure Aggregating where
  rest : List (KafkaMessage Enriched)
  handled : Bool

inductive GpsOp where
  | produce (key : String) (value : RawValue)
  | poll (maxMessages : Int)
  /-- The next section of the processor's call. -/
  | goPoll
  | crashPoll
  | aggregate (maxMessages : Int)
  /-- The next section of the aggregator's call, and who is available. -/
  | goAggregate (isAvailable : String → Bool)
  | crashAggregate
  | recordRideRequest (pickup : Location)

inductive GpsAnswer where
  /-- The call goes on. -/
  | going
  | done
  | processed (n : Nat)
  | raised (e : Raised)
  /-- The step is not one that can be taken now. -/
  | disabled

structure GpsPipeline where
  raw : Topic RawValue
  enriched : Topic Enriched
  zoneCounts : Topic ZoneCounts
  dlq : Topic DeadLetter
  geoIndex : GeoIndex
  zones : Dict String Zone
  polling : Option Polling
  totalProcessed : Nat
  aggregating : Option Aggregating
  driverZone : Dict String String
  requests : Dict String Nat

namespace GpsPipeline

/-- `GPSLocationStreamProcessor.GROUP`. -/
def processorGroup : String := "gps-stream-processor"

/-- `ZoneAnalyticsAggregator.GROUP`. -/
def aggregatorGroup : String := "zone-analytics"

def new : GpsPipeline :=
  { raw := Topic.create 5
    enriched := Topic.create 5
    zoneCounts := Topic.create 3
    dlq := Topic.create 1
    geoIndex := GeoIndex.new
    zones := Dict.empty
    polling := none
    totalProcessed := 0
    aggregating := none
    driverZone := Dict.empty
    requests := Dict.empty }

variable (crc32 : String → Nat) (s : GpsPipeline)

/-- `zone_for`: a zone is created when it is first asked for. -/
def zoneFor (location : Location) : GpsPipeline :=
  match s.zones.get? (zoneIdOf location) with
  | some _ => s
  | none => { s with zones := s.zones.set (zoneIdOf location) Zone.new }

/-- The next message is validated and indexed, or a dead letter. -/
def index (call : Polling) (msg : KafkaMessage RawValue) : GpsAnswer × GpsPipeline :=
  match msg.value.ping with
  | .ok ping =>
    match s.geoIndex.upsert ping.driverId ping.location ping.ts with
    | (true, geoIndex) => (.going, { s with
        geoIndex := geoIndex
        polling := some { call with stage := .enriching ping } })
    | (false, geoIndex) => (.going, { s with
        geoIndex := geoIndex
        polling := some { call with stage := .handled, processed := call.processed + 1 } })
  | .error e =>
    if e.caught then
      (.going, { s with
        dlq := s.dlq.produce crc32 msg.key ⟨e, msg.value⟩
        polling := some { call with stage := .handled } })
    else (.raised e, { s with polling := none })

/-- The position is passed on with its zone. -/
def enrich (call : Polling) (ping : Ping) : GpsPipeline :=
  { s.zoneFor ping.location with
    enriched := s.enriched.produce crc32 ping.driverId
      ⟨ping.driverId, ping.location, zoneIdOf ping.location, ping.ts⟩
    polling := some { call with stage := .handled, processed := call.processed + 1 } }

def goPoll : GpsAnswer × GpsPipeline :=
  match s.polling with
  | none => (.disabled, s)
  | some call =>
    match call.rest with
    | [] => (.processed call.processed, { s with
        totalProcessed := s.totalProcessed + call.processed
        polling := none })
    | msg :: rest =>
      match call.stage with
      | .next => s.index crc32 call msg
      | .enriching ping => (.going, s.enrich crc32 call ping)
      | .handled => (.going, { s with
          raw := s.raw.commit processorGroup msg
          polling := some { call with rest := rest, stage := .next } })

/-- How many drivers of a zone are available. -/
def supply (isAvailable : String → Bool) : Dict String Nat :=
  s.driverZone.items.foldl (fun supply item =>
    if isAvailable item.1 then supply.set item.2 ((supply.get? item.2).getD 0 + 1) else supply)
    Dict.empty

/-- A zone is given the counts of the window that is closed. -/
def updateZone (supply : Dict String Nat) (s : GpsPipeline) (zoneId : String) : GpsPipeline :=
  let zone := Zone.updateSupplyDemand ((supply.get? zoneId).getD 0)
    ((s.requests.get? zoneId).getD 0)
  { s with
    zones := s.zones.set zoneId zone
    zoneCounts := s.zoneCounts.produce crc32 zoneId
      ⟨zoneId, zone.driverCount, zone.rideRequestCount, zone.surgeMultiplier⟩ }

/-- The end of `aggregate`: the zones are updated, and the window is closed. -/
def close (isAvailable : String → Bool) : GpsPipeline :=
  { (s.zones.keys.insertionSort (· ≤ ·)).foldl (updateZone crc32 (s.supply isAvailable)) s with
    requests := Dict.empty
    aggregating := none }

def goAggregate (isAvailable : String → Bool) : GpsAnswer × GpsPipeline :=
  match s.aggregating with
  | none => (.disabled, s)
  | some call =>
    match call.rest with
    | [] => (.done, s.close crc32 isAvailable)
    | msg :: rest =>
      if call.handled then
        (.going, { s with
          enriched := s.enriched.commit aggregatorGroup msg
          aggregating := some ⟨rest, false⟩ })
      else
        (.going, { s with
          driverZone := s.driverZone.set msg.value.driverId msg.value.zoneId
          aggregating := some { call with handled := true } })

def act : GpsOp → GpsAnswer × GpsPipeline
  | .produce key value => (.done, { s with raw := s.raw.produce crc32 key value })
  | .poll maxMessages =>
    match s.polling with
    | some _ => (.disabled, s)
    | none => (.going, { s with
        polling := some ⟨s.raw.poll processorGroup maxMessages, .next, 0⟩ })
  | .goPoll => s.goPoll crc32
  | .crashPoll => (.done, { s with polling := none })
  | .aggregate maxMessages =>
    match s.aggregating with
    | some _ => (.disabled, s)
    | none => (.going, { s with
        aggregating := some ⟨s.enriched.poll aggregatorGroup maxMessages, false⟩ })
  | .goAggregate isAvailable => s.goAggregate crc32 isAvailable
  | .crashAggregate => (.done, { s with aggregating := none })
  | .recordRideRequest pickup =>
    match s.aggregating with
    | some _ => (.disabled, s)
    | none =>
      let requests := s.requests.set (zoneIdOf pickup)
        ((s.requests.get? (zoneIdOf pickup)).getD 0 + 1)
      (.done, { s.zoneFor pickup with requests := requests })

def step (op : GpsOp) : Except Empty (GpsAnswer × GpsPipeline) := .ok (s.act crc32 op)

end GpsPipeline

/-- The raw message that a step produces. -/
def GpsOp.message : GpsOp → Option (String × RawValue)
  | .produce key value => some (key, value)
  | _ => none

namespace GpsPipeline

variable {crc32 : String → Nat} {s s' : GpsPipeline}

/-! ## The effect of a step -/

/-- What a step does, with the raw message that it produces. -/
inductive Effect (crc32 : String → Nat) (s : GpsPipeline) :
    Option (String × RawValue) → GpsPipeline → Prop
  | quiet (zones : Dict String Zone) (requests : Dict String Nat) :
      Effect crc32 s none { s with zones := zones, requests := requests }
  | produced (key : String) (value : RawValue) :
      Effect crc32 s (some (key, value)) { s with raw := s.raw.produce crc32 key value }
  | polled (maxMessages : Int) :
      Effect crc32 s none
        { s with polling := some ⟨s.raw.poll processorGroup maxMessages, .next, 0⟩ }
  | ended (totalProcessed : Nat) :
      Effect crc32 s none { s with totalProcessed := totalProcessed, polling := none }
  | indexed {call : Polling} {msg : KafkaMessage RawValue} {rest : List (KafkaMessage RawValue)}
      {ping : Ping} {geoIndex : GeoIndex} (hpolling : s.polling = some call)
      (hrest : call.rest = msg :: rest) (hping : msg.value.ping = .ok ping)
      (hupsert : s.geoIndex.upsert ping.driverId ping.location ping.ts = (true, geoIndex)) :
      Effect crc32 s none { s with
        geoIndex := geoIndex
        polling := some { call with stage := .enriching ping } }
  | refused {call : Polling} {msg : KafkaMessage RawValue} {rest : List (KafkaMessage RawValue)}
      {ping : Ping} (hpolling : s.polling = some call) (hrest : call.rest = msg :: rest)
      (hping : msg.value.ping = .ok ping)
      (hupsert : (s.geoIndex.upsert ping.driverId ping.location ping.ts).1 = false) :
      Effect crc32 s none { s with
        polling := some { call with stage := .handled, processed := call.processed + 1 } }
  | dead {call : Polling} {msg : KafkaMessage RawValue} {rest : List (KafkaMessage RawValue)}
      {e : Raised} (hpolling : s.polling = some call) (hrest : call.rest = msg :: rest)
      (hping : msg.value.ping = .error e) (hcaught : e.caught = true) :
      Effect crc32 s none { s with
        dlq := s.dlq.produce crc32 msg.key ⟨e, msg.value⟩
        polling := some { call with stage := .handled } }
  | enriched {call : Polling} {msg : KafkaMessage RawValue} {rest : List (KafkaMessage RawValue)}
      {ping : Ping} (zones : Dict String Zone) (hpolling : s.polling = some call)
      (hrest : call.rest = msg :: rest) (hstage : call.stage = .enriching ping) :
      Effect crc32 s none { s with
        zones := zones
        enriched := s.enriched.produce crc32 ping.driverId
          ⟨ping.driverId, ping.location, zoneIdOf ping.location, ping.ts⟩
        polling := some { call with stage := .handled, processed := call.processed + 1 } }
  | committed {call : Polling} {msg : KafkaMessage RawValue}
      {rest : List (KafkaMessage RawValue)} (hpolling : s.polling = some call)
      (hrest : call.rest = msg :: rest) (hstage : call.stage = .handled) :
      Effect crc32 s none { s with
        raw := s.raw.commit processorGroup msg
        polling := some { call with rest := rest, stage := .next } }
  | aggregated (maxMessages : Int) :
      Effect crc32 s none
        { s with aggregating := some ⟨s.enriched.poll aggregatorGroup maxMessages, false⟩ }
  | closed (zones : Dict String Zone) (zoneCounts : Topic ZoneCounts) (requests : Dict String Nat) :
      Effect crc32 s none { s with
        zones := zones
        zoneCounts := zoneCounts
        requests := requests
        aggregating := none }
  | zoned {call : Aggregating} {msg : KafkaMessage Enriched} {rest : List (KafkaMessage Enriched)}
      (haggregating : s.aggregating = some call) (hrest : call.rest = msg :: rest) :
      Effect crc32 s none { s with
        driverZone := s.driverZone.set msg.value.driverId msg.value.zoneId
        aggregating := some { call with handled := true } }
  | zoneCommitted {call : Aggregating} {msg : KafkaMessage Enriched}
      {rest : List (KafkaMessage Enriched)} (haggregating : s.aggregating = some call)
      (hrest : call.rest = msg :: rest) (hhandled : call.handled = true) :
      Effect crc32 s none { s with
        enriched := s.enriched.commit aggregatorGroup msg
        aggregating := some ⟨rest, false⟩ }

theorem zoneFor_eq (location : Location) :
    ∃ zones, s.zoneFor location = { s with zones := zones } := by
  rw [zoneFor]
  split
  · exact ⟨s.zones, rfl⟩
  · exact ⟨_, rfl⟩

theorem foldl_updateZone (supply : Dict String Nat) (zoneIds : List String) :
    ∃ zones zoneCounts, zoneIds.foldl (updateZone crc32 supply) s =
      { s with zones := zones, zoneCounts := zoneCounts } := by
  induction zoneIds generalizing s with
  | nil => exact ⟨s.zones, s.zoneCounts, rfl⟩
  | cons zoneId _ ih =>
    obtain ⟨zones, zoneCounts, heq⟩ := @ih (updateZone crc32 supply s zoneId)
    exact ⟨zones, zoneCounts, heq⟩

theorem effect_index {call : Polling} {msg : KafkaMessage RawValue}
    {rest : List (KafkaMessage RawValue)} (hpolling : s.polling = some call)
    (hrest : call.rest = msg :: rest) : Effect crc32 s none (s.index crc32 call msg).2 := by
  rw [index]
  split
  next hping =>
    split
    next hupsert => exact .indexed hpolling hrest hping hupsert
    next geoIndex hupsert =>
      have hsame : geoIndex = s.geoIndex := by
        rw [GeoIndex.upsert_false (congrArg Prod.fst hupsert)] at hupsert
        exact (Prod.mk.inj hupsert).2.symm
      rw [hsame]
      exact .refused hpolling hrest hping (congrArg Prod.fst hupsert)
  next hping =>
    split
    next hcaught => exact .dead hpolling hrest hping hcaught
    · exact .ended s.totalProcessed

theorem effect_goPoll : Effect crc32 s none (s.goPoll crc32).2 := by
  have hquiet : Effect crc32 s none s := .quiet s.zones s.requests
  rw [goPoll]
  split
  · exact hquiet
  next hpolling =>
  split
  · exact .ended _
  next hrest =>
  split
  · exact effect_index hpolling hrest
  next ping hstage =>
    obtain ⟨zones, hzones⟩ := s.zoneFor_eq ping.location
    rw [enrich, hzones]
    exact .enriched zones hpolling hrest hstage
  next hstage => exact .committed hpolling hrest hstage

theorem effect_goAggregate (isAvailable : String → Bool) :
    Effect crc32 s none (s.goAggregate crc32 isAvailable).2 := by
  have hquiet : Effect crc32 s none s := .quiet s.zones s.requests
  rw [goAggregate]
  split
  · exact hquiet
  next haggregating =>
  split
  · obtain ⟨zones, zoneCounts, heq⟩ : ∃ zones zoneCounts,
        (s.zones.keys.insertionSort (· ≤ ·)).foldl (updateZone crc32 (s.supply isAvailable)) s =
          { s with zones := zones, zoneCounts := zoneCounts } := foldl_updateZone _ _
    rw [close, heq]
    exact .closed zones zoneCounts Dict.empty
  next hrest =>
  split
  next hhandled => exact .zoneCommitted haggregating hrest hhandled
  · exact .zoned haggregating hrest

theorem effect (s : GpsPipeline) (op : GpsOp) : Effect crc32 s op.message (s.act crc32 op).2 := by
  have hquiet : Effect crc32 s none s := .quiet s.zones s.requests
  cases op with
  | produce key value => exact .produced key value
  | poll maxMessages =>
    rw [act]
    split
    · exact hquiet
    · exact .polled maxMessages
  | goPoll => exact effect_goPoll
  | crashPoll => exact .ended s.totalProcessed
  | aggregate maxMessages =>
    rw [act]
    split
    · exact hquiet
    · exact .aggregated maxMessages
  | goAggregate isAvailable => exact effect_goAggregate isAvailable
  | crashAggregate => exact .closed s.zones s.zoneCounts s.requests
  | recordRideRequest pickup =>
    obtain ⟨zones, hzones⟩ := s.zoneFor_eq pickup
    rw [act]
    split
    · exact hquiet
    · rw [hzones]
      exact .quiet zones _

end GpsPipeline

end InterviewPrep.CabBooking
