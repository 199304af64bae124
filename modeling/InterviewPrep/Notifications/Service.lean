/-
  The notification service over any number of threads.  A step is one section of one call:
  a reading of the clock, a block under the lock, or an answer of a sender, and the clock
  may advance between any two of them.

  A template is a function of the params, and the backoff delay is part of the step that asks
  for it.  `handed` is the history of the sends; `lost` and `escaped` are the deliveries that
  an exception left behind, on its way out of the limiter or of a send.
-/
import InterviewPrep.Lib.Dict
import InterviewPrep.Lib.Heaps
import InterviewPrep.Lib.Run
import Mathlib.Algebra.Order.Ring.Unbundled.Rat
import Mathlib.Data.Prod.Lex
import Mathlib.Data.String.Basic

namespace InterviewPrep.Notifications

open Lib

/-! ## Deliveries -/

inductive Channel where
  | email
  | sms
  | push
  deriving DecidableEq

inductive Priority where
  | critical
  | high
  | normal
  | low
  deriving DecidableEq

def Priority.value : Priority → Nat
  | .critical => 0
  | .high => 1
  | .normal => 2
  | .low => 3

inductive Category where
  | transactional
  | marketing
  deriving DecidableEq

inductive DeliveryStatus where
  | queued
  | sending
  | sent
  | failed
  | suppressed
  deriving DecidableEq

/-- The reason that is kept with a delivery. -/
inductive LastError where
  | duplicateContent
  | noContact (channel : Channel)
  | noSender (channel : Channel)
  | optedOutOfCategory (category : Category)
  | optedOutOfChannel (channel : Channel)
  | raised (text : String)

structure Delivery where
  notificationId : Nat
  userId : String
  channel : Channel
  address : String
  body : String
  priority : Priority
  category : Category
  status : DeliveryStatus
  attempts : Nat
  readyAt : ℚ
  lastError : Option LastError
  providerMessageId : Option String

structure NotificationRequest where
  idempotencyKey : String
  userId : String
  templateId : String
  params : List (String × String)
  channels : List Channel
  priority : Priority
  category : Category
  sendAt : Option ℚ
  deriving DecidableEq

structure Notification where
  request : NotificationRequest
  deliveries : List Nat

/-! ## Quiet hours -/

/-- A time of day. -/
structure DTime where
  hour : Nat
  minute : Nat
  second : Nat
  microsecond : Nat

/-- The seconds since midnight. -/
def DTime.seconds (t : DTime) : ℚ :=
  t.hour * 3600 + t.minute * 60 + t.second + t.microsecond / 1000000

/-- A local time: a day, the seconds since its midnight, and the fold when the clock is set back. -/
structure LocalTime where
  day : Int
  time : ℚ
  fold : Bool

/-- The clock on the wall shows one local time before another. -/
def LocalTime.Before (a b : LocalTime) : Prop := a.day < b.day ∨ a.day = b.day ∧ a.time < b.time

instance (a b : LocalTime) : Decidable (a.Before b) :=
  inferInstanceAs (Decidable (_ ∨ _ ∧ _))

structure TzInfo where
  fromTimestamp : ℚ → LocalTime
  timestamp : LocalTime → ℚ

structure QuietHours where
  start : DTime
  stop : DTime
  tz : TzInfo

namespace QuietHours

variable (q : QuietHours)

/-- The window, which wraps midnight where its start is behind its end. -/
def inside (t : ℚ) : Bool :=
  if q.start.seconds ≤ q.stop.seconds then q.start.seconds ≤ t && t < q.stop.seconds
  else q.start.seconds ≤ t || t < q.stop.seconds

/-- `local.replace(hour, minute, second=0, microsecond=0)`. -/
def atStop (now : LocalTime) : LocalTime :=
  { now with time := q.stop.hour * 3600 + q.stop.minute * 60 }

/-- `now` outside of the window, else the time at which it ends. -/
def nextAllowed (now : ℚ) : ℚ :=
  let here := q.tz.fromTimestamp now
  if !q.inside here.time then now
  else if here.Before (q.atStop here) then q.tz.timestamp (q.atStop here)
  else q.tz.timestamp { q.atStop here with day := here.day + 1, fold := false }

end QuietHours

structure UserPreferences where
  userId : String
  contacts : Dict Channel String
  optedOutChannels : List Channel
  optedOutCategories : List Category
  quietHours : Option QuietHours

/-! ## Templates -/

/-- What `Template.substitute` raises. -/
inductive SubstituteError where
  | keyError (name : String)
  | valueError

abbrev Template := List (String × String) → Except SubstituteError String

inductive RenderError where
  | validationError
  | valueError

abbrev TemplateStore := Dict (String × Channel) Template

namespace TemplateStore

variable (templates : TemplateStore)

def render (templateId : String) (channel : Channel) (params : List (String × String)) :
    Except RenderError String :=
  match templates.get? (templateId, channel) with
  | none => .error .validationError
  | some tpl =>
    match tpl params with
    | .ok body => .ok body
    | .error (.keyError _) => .error .validationError
    | .error .valueError => .error .valueError

/-- The bodies of all channels, or the first error. -/
def renderAll (templateId : String) (params : List (String × String)) :
    List Channel → Except RenderError (List (Channel × String))
  | [] => .ok []
  | ch :: channels =>
    match templates.render templateId ch params with
    | .error e => .error e
    | .ok body =>
      match renderAll templateId params channels with
      | .error e => .error e
      | .ok bodies => .ok ((ch, body) :: bodies)

end TemplateStore

/-! ## Rate limiting -/

structure Limit where
  capacity : Int
  perSeconds : ℚ

/-- `none` for a division by zero. -/
def Limit.rate (lim : Limit) : Option ℚ :=
  if lim.perSeconds = 0 then none else some (lim.capacity / lim.perSeconds)

structure TokenBucket where
  capacity : ℚ
  rate : ℚ
  tokens : ℚ
  updated : ℚ

namespace TokenBucket

def new (lim : Limit) (now : ℚ) : Option TokenBucket :=
  lim.rate.map fun rate => ⟨lim.capacity, rate, lim.capacity, now⟩

variable (b : TokenBucket) (now : ℚ)

def refilled : ℚ := min b.capacity (b.tokens + (now - b.updated) * b.rate)

/-- `none` for a division by zero. -/
def peekWait : Option ℚ :=
  if 1 ≤ b.refilled now then some 0
  else if b.rate = 0 then none
  else some ((1 - b.refilled now) / b.rate)

/-- What `try_take` leaves in the bucket. -/
def tryTake : TokenBucket :=
  { b with
    tokens := if 1 ≤ b.refilled now then b.refilled now - 1 else b.refilled now
    updated := now }

end TokenBucket

structure RateLimiter where
  perUser : Dict Channel Limit
  perChannel : Dict Channel Limit
  maxUserBuckets : Int
  userBuckets : Dict (String × Channel) TokenBucket
  channelBuckets : Dict Channel TokenBucket

namespace RateLimiter

def new (perUser perChannel : Dict Channel Limit) (maxUserBuckets : Int) : RateLimiter :=
  { perUser := perUser
    perChannel := perChannel
    maxUserBuckets := maxUserBuckets
    userBuckets := Dict.empty
    channelBuckets := Dict.empty }

variable (l : RateLimiter) (userId : String) (channel : Channel) (now : ℚ)

/-- `_user_bucket`: `none` if it raises. -/
def userBucket : Option TokenBucket × RateLimiter :=
  let key := (userId, channel)
  match l.userBuckets.get? key with
  | some b => (some b, { l with userBuckets := (l.userBuckets.erase key).set key b })
  | none =>
    match (l.perUser.get? channel).bind fun lim => TokenBucket.new lim now with
    | none => (none, l)
    | some b =>
      let buckets := l.userBuckets.set key b
      let kept := if l.maxUserBuckets < buckets.size then buckets.dropFirst else buckets
      -- `move_to_end` of a key that has been evicted raises.
      (kept.get? key, { l with userBuckets := kept })

/-- The bucket of the channel, which is made if there is none: `none` if it raises. -/
def channelBucket (lim : Limit) : Option TokenBucket × RateLimiter :=
  match TokenBucket.new lim now with
  | none => (none, l)
  | some fresh =>
    match l.channelBuckets.get? channel with
    | some b => (some b, l)
    | none => (some fresh, { l with channelBuckets := l.channelBuckets.set channel fresh })

/-- The buckets that `acquire` looks at: `none` if it raises. -/
def buckets : Option (List TokenBucket) × RateLimiter :=
  let (user, l) :=
    if (l.perUser.get? channel).isSome then
      let (b, l) := l.userBucket userId channel now
      (b.map fun b => [b], l)
    else (some [], l)
  match user, l.perChannel.get? channel with
  | none, _ => (none, l)
  | some bs, none => (some bs, l)
  | some bs, some lim =>
    let (b, l) := l.channelBucket channel now lim
    (b.map fun b => bs ++ [b], l)

/-- A token is taken from both buckets. -/
def take : RateLimiter :=
  { l with
    userBuckets := match l.perUser.get? channel, l.userBuckets.get? (userId, channel) with
      | some _, some b => l.userBuckets.set (userId, channel) (b.tryTake now)
      | _, _ => l.userBuckets
    channelBuckets := match l.perChannel.get? channel, l.channelBuckets.get? channel with
      | some _, some b => l.channelBuckets.set channel (b.tryTake now)
      | _, _ => l.channelBuckets }

/-- The longest wait of the buckets: `none` if one raises. -/
def longestWait (now : ℚ) (bs : List TokenBucket) : Option ℚ :=
  (bs.mapM fun b => TokenBucket.peekWait b now).map fun waits => waits.max?.getD 0

/-- The seconds to wait, none for a token that has been taken: `none` if it raises. -/
def acquire : Option ℚ × RateLimiter :=
  match l.buckets userId channel now with
  | (none, l) => (none, l)
  | (some bs, l) =>
    match longestWait now bs with
    | none => (none, l)
    | some wait => if 0 < wait then (some wait, l) else (some 0, l.take userId channel now)

end RateLimiter

/-! ## Calls -/

/-- What a sender does. -/
inductive Outcome where
  | sent (providerId : String)
  | transientError (text : String)
  | permanentError (text : String)
  /-- Any other exception. -/
  | otherError

/-- What is left of a call. -/
inductive Call where
  | submitting (request : NotificationRequest) (now : ℚ)
  | claiming (now : ℚ)
  /-- The worker is inside its send. -/
  | sending (deliveryId : Nat)
  | recordingSent (deliveryId : Nat) (providerId : String)
  | recordingFailure (deliveryId : Nat) (text : String) (retryable : Bool) (now : ℚ)
  deriving DecidableEq

inductive Op where
  | advance (seconds : ℚ)
  | upsertUser (prefs : UserPreferences)
  | submit (t : Nat) (request : NotificationRequest)
  | processNext (t : Nat)
  /-- The next block of a call under the lock, with the delay of the backoff: `none`
      if that raises. -/
  | go (t : Nat) (delay : Option ℚ)
  | sender (t : Nat) (outcome : Outcome)
  | hasReady

inductive Answer where
  /-- The call goes on. -/
  | going
  | done
  | notification (id : Nat)
  | delivery (id : Nat)
  | nothing
  | ready (b : Bool)
  | validationError
  | raised
  /-- The step is not one that can be taken now. -/
  | disabled

/-! ## The service -/

/-- What a service is built with. -/
structure Config where
  senders : List Channel
  templates : TemplateStore
  perUser : Dict Channel Limit
  perChannel : Dict Channel Limit
  maxUserBuckets : Int
  maxAttempts : Int
  idempotencyTtl : ℚ
  dedupWindow : ℚ

abbrev ContentKey := String × String × List (String ×ₗ String)

/-- `(ready_at, seq, delivery_id)`. -/
abbrev DelayedEntry := ℚ ×ₗ ℕ ×ₗ ℕ

/-- `(priority, seq, delivery_id)`. -/
abbrev ReadyEntry := ℕ ×ₗ ℕ ×ₗ ℕ

def entry {α : Type} (key : α) (seq id : Nat) : α ×ₗ ℕ ×ₗ ℕ := toLex (key, toLex (seq, id))

/-- The delivery of an entry. -/
def entryId {α : Type} (e : α ×ₗ ℕ ×ₗ ℕ) : Nat := (ofLex (ofLex e).2).2

structure NotificationService where
  clock : ℚ
  users : Dict String UserPreferences
  notifications : Dict Nat Notification
  deliveries : Dict Nat Delivery
  idempotency : Dict String (Nat × ℚ)
  recentContent : Dict ContentKey ℚ
  delayed : List DelayedEntry
  ready : List ReadyEntry
  seq : Nat
  nextNotification : Nat
  nextDelivery : Nat
  deadLetters : List Nat
  limiter : RateLimiter
  calls : Dict Nat Call
  handed : List Nat
  lost : List Nat
  escaped : List Nat

namespace NotificationService

def new (c : Config) (start : ℚ) : NotificationService :=
  { clock := start
    users := Dict.empty
    notifications := Dict.empty
    deliveries := Dict.empty
    idempotency := Dict.empty
    recentContent := Dict.empty
    delayed := []
    ready := []
    seq := 0
    nextNotification := 1
    nextDelivery := 1
    deadLetters := []
    limiter := RateLimiter.new c.perUser c.perChannel c.maxUserBuckets
    calls := Dict.empty
    handed := []
    lost := []
    escaped := [] }

variable (c : Config) (s : NotificationService)

/-- The call of a thread goes on, or ends. -/
def resume (t : Nat) (next : Option Call) : NotificationService :=
  { s with calls := s.calls.put t next }

/-! ## Queues -/

/-- `_enqueue`. -/
def enqueue (id : Nat) (d : Delivery) (readyAt now : ℚ) : NotificationService :=
  { s with
    deliveries := s.deliveries.set id { d with status := .queued, readyAt := readyAt }
    ready := if readyAt ≤ now then heappush s.ready (entry d.priority.value s.seq id) else s.ready
    delayed := if readyAt ≤ now then s.delayed else heappush s.delayed (entry readyAt s.seq id)
    seq := s.seq + 1 }

/-- The loop of `_promote`: the delayed deliveries that are due go to the ready ones. -/
def promoteLoop (deliveries : Dict Nat Delivery) (now : ℚ) :
    List DelayedEntry → List ReadyEntry → Nat → List DelayedEntry × List ReadyEntry × Nat
  | [], ready, seq => ([], ready, seq)
  | e :: rest, ready, seq =>
    if (ofLex e).1 ≤ now then
      match deliveries.get? (entryId e) with
      -- Every entry has a delivery.
      | none => promoteLoop deliveries now rest ready seq
      | some d =>
        promoteLoop deliveries now rest
          (heappush ready (entry d.priority.value seq (entryId e))) (seq + 1)
    else (e :: rest, ready, seq)

def promote (now : ℚ) : NotificationService :=
  let r := promoteLoop s.deliveries now s.delayed s.ready s.seq
  { s with delayed := r.1, ready := r.2.1, seq := r.2.2 }

/-! ## Submit -/

/-- The items that have expired are popped from the front. -/
def popExpired {κ ν : Type} (d : Dict κ ν) (expired : ν → Bool) : Dict κ ν :=
  ⟨d.items.dropWhile fun e => expired e.2, d.nodup.sublist ((List.dropWhile_sublist _).map _)⟩

/-- `_expire`. -/
def expire (now : ℚ) : NotificationService :=
  { s with
    idempotency := popExpired s.idempotency fun hit => hit.2 ≤ now - c.idempotencyTtl
    recentContent := popExpired s.recentContent fun seen => seen ≤ now - c.dedupWindow }

/-- `_suppression`. -/
def suppression (prefs : UserPreferences) (d : Delivery) : Option LastError :=
  if d.address = "" then some (.noContact d.channel)
  else if d.channel ∉ c.senders then some (.noSender d.channel)
  else if d.priority = .critical then none
  else if d.category ∈ prefs.optedOutCategories then some (.optedOutOfCategory d.category)
  else if d.channel ∈ prefs.optedOutChannels then some (.optedOutOfChannel d.channel)
  else none

/-- The delivery that a request makes for a channel. -/
def deliveryOf (prefs : UserPreferences) (request : NotificationRequest) (notificationId : Nat)
    (now : ℚ) (channel : Channel) (body : String) : Delivery :=
  { notificationId := notificationId
    userId := request.userId
    channel := channel
    address := (prefs.contacts.get? channel).getD ""
    body := body
    priority := request.priority
    category := request.category
    status := .queued
    attempts := 0
    -- A `send_at` of zero is as none.
    readyAt := max now (if request.sendAt.getD 0 = 0 then now else request.sendAt.getD 0)
    lastError := none
    providerMessageId := none }

/-- A delivery is filed under the next id. -/
def file (prefs : UserPreferences) (now : ℚ) (duplicate : Bool) (d : Delivery) :
    NotificationService :=
  let id := s.nextDelivery
  let s := { s with nextDelivery := id + 1 }
  match if duplicate then some .duplicateContent else suppression c prefs d with
  | some reason =>
    { s with
      deliveries := s.deliveries.set id
        { d with status := .suppressed, lastError := some reason } }
  | none => s.enqueue id d d.readyAt now

/-- The loop of `submit` over the bodies. -/
def fanOut (prefs : UserPreferences) (request : NotificationRequest) (notificationId : Nat)
    (now : ℚ) (duplicate : Bool) :
    List (Channel × String) → NotificationService → List Nat × NotificationService
  | [], s => ([], s)
  | (channel, body) :: bodies, s =>
    let d := deliveryOf prefs request notificationId now channel body
    let r := fanOut prefs request notificationId now duplicate bodies
      (s.file c prefs now duplicate d)
    (s.nextDelivery :: r.1, r.2)

def contentKey (request : NotificationRequest) : ContentKey :=
  (request.userId, request.templateId,
    (request.params.map toLex).insertionSort (· ≤ ·))

/-- The block of `submit` under the lock. -/
def submitLocked (request : NotificationRequest) (now : ℚ) : Answer × NotificationService :=
  let s := s.expire c now
  match s.idempotency.get? request.idempotencyKey with
  | some hit => (.notification hit.1, s)
  | none =>
  match s.users.get? request.userId with
  | none => (.validationError, s)
  | some prefs =>
  match c.templates.renderAll request.templateId request.params
      (Dict.ofList (request.channels.map fun ch => (ch, ()))).keys with
  | .error .validationError => (.validationError, s)
  | .error .valueError => (.raised, s)
  | .ok bodies =>
    let id := s.nextNotification
    let key := contentKey request
    let duplicate := (s.recentContent.get? key).isSome
    let (ids, s) := fanOut c prefs request id now duplicate bodies
      { s with
        nextNotification := id + 1
        recentContent := (s.recentContent.erase key).set key now }
    (.notification id,
      { s with
        notifications := s.notifications.set id ⟨request, ids⟩
        idempotency := s.idempotency.set request.idempotencyKey (id, now) })

/-! ## Workers -/

/-- The end of the quiet hours that `now` is in. -/
def quietUntil (prefs : UserPreferences) (d : Delivery) (now : ℚ) : Option ℚ :=
  if d.priority = .critical then none
  else prefs.quietHours.bind fun q =>
    if now < q.nextAllowed now then some (q.nextAllowed now) else none

/-- A worker asks the limiter for the delivery it has taken, and sends it. -/
def claim (t id : Nat) (d : Delivery) (now : ℚ) : Answer × NotificationService :=
  match s.limiter.acquire d.userId d.channel now with
  | (none, l) =>
    (.raised, { s with limiter := l, lost := id :: s.lost, calls := s.calls.put t none })
  | (some wait, l) =>
    if 0 < wait then
      (.delivery id, ({ s with limiter := l }.enqueue id d (now + wait) now).resume t none)
    else
      (.going,
        { s with
          limiter := l
          deliveries := s.deliveries.set id
            { d with status := .sending, attempts := d.attempts + 1 }
          handed := id :: s.handed
          calls := s.calls.put t (some (.sending id)) })

/-- The block of `process_next` under the lock. -/
def processLocked (t : Nat) (now : ℚ) : Answer × NotificationService :=
  let s := s.promote now
  match s.ready with
  | [] => (.nothing, s.resume t none)
  | e :: rest =>
    let s := { s with ready := rest }
    let id := entryId e
    match s.deliveries.get? id with
    | none => (.raised, s.resume t none)
    | some d =>
      match s.users.get? d.userId with
      | none => (.raised, s.resume t none)
      | some prefs =>
        match quietUntil prefs d now with
        | some allowed => (.delivery id, (s.enqueue id d allowed now).resume t none)
        | none => s.claim t id d now

/-- The block of `_after_failure` under the lock. -/
def afterFailure (t id : Nat) (text : String) (retryable : Bool) (now : ℚ) (delay : Option ℚ) :
    Answer × NotificationService :=
  match s.deliveries.get? id with
  | none => (.raised, s.resume t none)
  | some d =>
    let d := { d with lastError := some (.raised text) }
    if retryable = true ∧ d.attempts < c.maxAttempts then
      match delay with
      | none =>
        (.raised,
          { s with
            deliveries := s.deliveries.set id d
            escaped := id :: s.escaped
            calls := s.calls.put t none })
      | some delay => (.delivery id, (s.enqueue id d (now + delay) now).resume t none)
    else
      (.delivery id,
        { s with
          deliveries := s.deliveries.set id { d with status := .failed }
          deadLetters := s.deadLetters ++ [id]
          calls := s.calls.put t none })

/-- The block of `process_next` that records a success. -/
def recordSent (t id : Nat) (providerId : String) : Answer × NotificationService :=
  match s.deliveries.get? id with
  | none => (.raised, s.resume t none)
  | some d =>
    (.delivery id,
      { s with
        deliveries := s.deliveries.set id
          { d with status := .sent, providerMessageId := some providerId }
        calls := s.calls.put t none })

/-! ## Steps -/

/-- The next block of a call. -/
def goOn (t : Nat) (delay : Option ℚ) : Option Call → Answer × NotificationService
  | some (.submitting request now) =>
    let r := s.submitLocked c request now
    (r.1, r.2.resume t none)
  | some (.claiming now) => s.processLocked t now
  | some (.recordingSent id providerId) => s.recordSent t id providerId
  | some (.recordingFailure id text retryable now) => s.afterFailure c t id text retryable now delay
  | some (.sending _) | none => (.disabled, s)

/-- A sender returns or raises; a failure reads the clock. -/
def answer (t id : Nat) : Outcome → Answer × NotificationService
  | .sent providerId => (.going, s.resume t (some (.recordingSent id providerId)))
  | .transientError text => (.going, s.resume t (some (.recordingFailure id text true s.clock)))
  | .permanentError text => (.going, s.resume t (some (.recordingFailure id text false s.clock)))
  | .otherError => (.raised, { s with escaped := id :: s.escaped, calls := s.calls.put t none })

def act : Op → Answer × NotificationService
  | .advance seconds =>
    if seconds < 0 then (.disabled, s) else (.done, { s with clock := s.clock + seconds })
  | .upsertUser prefs => (.done, { s with users := s.users.set prefs.userId prefs })
  | .submit t request =>
    if (s.calls.get? t).isSome then (.disabled, s)
    else if request.channels = [] then (.validationError, s)
    else (.going, s.resume t (some (.submitting request s.clock)))
  | .processNext t =>
    if (s.calls.get? t).isSome then (.disabled, s)
    else (.going, s.resume t (some (.claiming s.clock)))
  | .go t delay => s.goOn c t delay (s.calls.get? t)
  | .sender t outcome =>
    match s.calls.get? t with
    | some (.sending id) => s.answer t id outcome
    | _ => (.disabled, s)
  | .hasReady => (.ready (!(s.promote s.clock).ready.isEmpty), s.promote s.clock)

def step (s : NotificationService) (op : Op) : Except Empty (Answer × NotificationService) :=
  .ok (s.act c op)

theorem step_eq_act (s : NotificationService) (op : Op) : s.step c op = .ok (s.act c op) := rfl

end NotificationService

end InterviewPrep.Notifications
