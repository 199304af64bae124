/-
  The policy, the upload sessions and the per-user limits of big_file_upload.py.  Sizes and
  indexes that are not negative are natural numbers, times are exact, and a quotient of sizes is
  exact (in Python it is, up to 2^53 bytes).  Storage keys are what their texts say: a chunk of an
  upload, or the final object of one.  A user that the limiter has no set of uploads for has the
  empty one.

  `UploadService` as a machine.  A call runs from one await to the next in one step, and so does a
  block under an upload's lock: no block waits for anything, so a lock is free whenever a call
  runs.  What a call does at an await is the storage's doing (`write`), and the await ends well
  (`resume`) or with an error of the storage or the cancellation of the task (`fail`).

  The storage is the in-memory one, which `corrupt` may change behind the service's back until
  `complete` has read the chunk.  `_new_id` gives ids that are new.
-/
import InterviewPrep.Lib.Dict
import InterviewPrep.Lib.Run
import Mathlib.Data.Finset.Card
import Mathlib.Data.Rat.Floor

namespace InterviewPrep.Uploads

open Lib

abbrev UploadId := Nat
abbrev UserId := String
abbrev Bytes := List UInt8

/-! ## Errors -/

inductive UploadError where
  | notFound (upload : UploadId)
  | invalidFilename (name : String)
  | invalidFileSize (maxFileSize : Nat)
  | invalidSha256
  | chunkSizeExceedsBurst
  | indexOutOfRange (index : Int) (totalChunks : Nat)
  | wrongChunkSize (index expected got : Nat)
  /-- `upload is …` -/
  | invalidState (status : String)
  /-- `… -> …` -/
  | invalidTransition (old new : String)
  | becameDuringWrite (status : String)
  | chunkMismatch (index : Nat)
  | fileMismatch (digest expected : String)
  | chunkConflict (index : Nat)
  | chunkInProgress (index : Nat)
  | chunksInProgress (indexes : Finset Nat)
  | writesInFlight
  | incomplete (missing : List Nat)
  | chunksCorrupted (chunks : List Nat)
  | tooManyUploads (active : Nat)
  | quotaExceeded
  | bandwidth (retryAfter : ℚ)
  | expired (upload : UploadId)
  /-- `ZeroDivisionError` -/
  | zeroDivision
  /-- what the storage or the cancellation of the task raised -/
  | storage

/-! ## Policy and state machine -/

structure UploadPolicy where
  minChunkSize : Nat
  defaultChunkSize : Nat
  maxParts : Nat
  maxFileSize : Nat
  sessionTtl : ℚ
  maxConcurrentUploads : Nat
  dailyQuotaBytes : Nat
  bandwidthBytesPerSec : ℚ
  bandwidthBurstBytes : ℚ

/-- `math.ceil(a / b)`, for `b` not zero. -/
def ceilDiv (a b : Nat) : Nat := (a + b - 1) / b

/-- `chunk_size_for` -/
def UploadPolicy.chunkSizeFor (policy : UploadPolicy) (fileSize : Nat) (preferred : Option Int) :
    Except UploadError Nat :=
  if policy.maxParts = 0 then .error .zeroDivision
  else
    let wanted : Int :=
      match preferred with
      | none => policy.defaultChunkSize
      | some size => if size = 0 then policy.defaultChunkSize else size
    let size := max (max wanted.toNat policy.minChunkSize) (ceilDiv fileSize policy.maxParts)
    if policy.bandwidthBurstBytes < size then .error .chunkSizeExceedsBurst else .ok size

inductive UploadState where
  | initiated
  | inProgress
  | assembling
  | completed
  | ready
  | quarantined
  | failed
  | cancelled
  | expired
deriving DecidableEq

namespace UploadState

def value : UploadState → String
  | initiated => "initiated"
  | inProgress => "in_progress"
  | assembling => "assembling"
  | completed => "completed"
  | ready => "ready"
  | quarantined => "quarantined"
  | failed => "failed"
  | cancelled => "cancelled"
  | expired => "expired"

/-- `accepts_chunks` -/
def acceptsChunks : UploadState → Bool
  | initiated | inProgress => true
  | _ => false

/-- `holds_slot` -/
def holdsSlot : UploadState → Bool
  | initiated | inProgress | assembling => true
  | _ => false

/-- `_TRANSITIONS` -/
def transitions : UploadState → List UploadState
  | initiated => [inProgress, assembling, cancelled, expired]
  | inProgress => [assembling, cancelled, expired]
  | assembling => [completed, inProgress, failed]
  | completed => [ready, quarantined]
  | quarantined => [ready]
  | _ => []

theorem holdsSlot_of_acceptsChunks {status : UploadState} (h : status.acceptsChunks = true) :
    status.holdsSlot = true := by
  cases status <;> first | rfl | cases h

end UploadState

/-! ## Sessions -/

inductive Key where
  | chunk (upload : UploadId) (index : Nat)
  | file (upload : UploadId)
deriving DecidableEq

structure ChunkInfo where
  index : Nat
  offset : Nat
  size : Nat
  sha256 : String
  storageKey : Key
  receivedAt : ℚ

structure ChunkReceipt where
  index : Nat
  duplicate : Bool
  receivedBytes : Nat
  contiguousOffset : Nat

structure UploadSession where
  uploadId : UploadId
  userId : UserId
  fileSize : Nat
  chunkSize : Nat
  expectedSha256 : Option String
  createdAt : ℚ
  expiresAt : ℚ
  status : UploadState
  chunks : Dict Nat ChunkInfo
  /-- chunk writes in progress -/
  inflight : Finset Nat
  finalKey : Option Key
  finalSha256 : Option String
  error : Option String

namespace UploadSession

variable (session : UploadSession)

/-- `total_chunks`, for a chunk size that is not zero. -/
def totalChunks : Nat := ceilDiv session.fileSize session.chunkSize

/-- `chunk_bounds` -/
def chunkBounds (index : Nat) : Nat × Nat :=
  let start := index * session.chunkSize
  (start, min (start + session.chunkSize) session.fileSize)

/-- `received_bytes` -/
def receivedBytes : Nat := (session.chunks.values.map ChunkInfo.size).sum

/-- The loop of `contiguous_offset` from `i`; it ends after the chunks there are. -/
def contiguousFrom (i : Nat) : Nat → Nat
  | 0 => i
  | fuel + 1 => if (session.chunks.get? i).isSome then contiguousFrom (i + 1) fuel else i

/-- `contiguous_offset` -/
def contiguousOffset : Nat :=
  min (session.contiguousFrom 0 session.chunks.size * session.chunkSize) session.fileSize

/-- `missing_chunks` -/
def missingChunks : List Nat :=
  (List.range session.totalChunks).filter fun i => (session.chunks.get? i).isNone

/-- `_receipt` -/
def receipt (index : Nat) (duplicate : Bool) : ChunkReceipt :=
  ⟨index, duplicate, session.receivedBytes, session.contiguousOffset⟩

/-- `_check_accepting`: what it raises. -/
def checkAccepting (now : ℚ) : Option UploadError :=
  if session.status = .expired ∨ session.status.acceptsChunks ∧ session.expiresAt ≤ now then
    some (.expired session.uploadId)
  else if ¬ session.status.acceptsChunks then some (.invalidState session.status.value)
  else none

/-- `_transition` -/
def transition (new : UploadState) : Except UploadError UploadSession :=
  if new ∈ session.status.transitions then .ok { session with status := new }
  else .error (.invalidTransition session.status.value new.value)

theorem checkAccepting_none {session : UploadSession} {now : ℚ}
    (h : session.checkAccepting now = none) :
    session.status.acceptsChunks = true := by
  unfold checkAccepting at h
  split at h
  · cases h
  · split at h
    · cases h
    · next hnot => simpa using hnot

theorem missingChunks_nil {session : UploadSession} (h : session.missingChunks = []) {i : Nat}
    (hi : i < session.totalChunks) : ∃ info, session.chunks.get? i = some info := by
  rw [missingChunks, List.filter_eq_nil_iff] at h
  have hnot := h i (List.mem_range.mpr hi)
  rw [Bool.not_eq_true, Option.isNone_eq_false_iff] at hnot
  exact Option.isSome_iff_exists.mp hnot

end UploadSession

/-! ## Limits -/

structure TokenBucket where
  rate : ℚ
  capacity : ℚ
  tokens : ℚ
  updated : ℚ

def TokenBucket.new (rate capacity now : ℚ) : TokenBucket := ⟨rate, capacity, capacity, now⟩

/-- `try_take`: 0, or the seconds until it would fit. -/
def TokenBucket.tryTake (bucket : TokenBucket) (amount now : ℚ) :
    Except UploadError ℚ × TokenBucket :=
  let tokens := min bucket.capacity (bucket.tokens + (now - bucket.updated) * bucket.rate)
  let bucket := { bucket with tokens, updated := now }
  if amount ≤ tokens then (.ok 0, { bucket with tokens := tokens - amount })
  else if bucket.rate = 0 then (.error .zeroDivision, bucket)
  else (.ok ((amount - tokens) / bucket.rate), bucket)

/-- `_day`: the number of the UTC day. -/
def day (now : ℚ) : Int := ⌊now / 86400⌋

structure UploadLimiter where
  active : UserId → Finset UploadId
  quotaUsed : UserId → Int → Nat
  buckets : UserId → Option TokenBucket

namespace UploadLimiter

def new : UploadLimiter := ⟨fun _ => ∅, fun _ _ => 0, fun _ => none⟩

variable (limiter : UploadLimiter) (policy : UploadPolicy) (user : UserId) (upload : UploadId)

/-- `start_upload` -/
def startUpload (size : Nat) (now : ℚ) : Except UploadError UploadLimiter :=
  let active := limiter.active user
  if policy.maxConcurrentUploads ≤ active.card then .error (.tooManyUploads active.card)
  else
    let used := limiter.quotaUsed user (day now)
    if policy.dailyQuotaBytes < used + size then .error .quotaExceeded
    else .ok { limiter with
      active := Function.update limiter.active user (insert upload active)
      quotaUsed := Function.update limiter.quotaUsed user
        (Function.update (limiter.quotaUsed user) (day now) (used + size)) }

/-- `finish_upload` -/
def finishUpload (refund : Nat) (now : ℚ) : UploadLimiter :=
  let active := limiter.active user
  if upload ∉ active then limiter
  else
    let limiter := { limiter with
      active := Function.update limiter.active user (active.erase upload) }
    if refund = 0 then limiter
    else { limiter with
      quotaUsed := Function.update limiter.quotaUsed user
        (Function.update (limiter.quotaUsed user) (day now)
          (limiter.quotaUsed user (day now) - refund)) }

/-- `take_bandwidth`: what it raises. -/
def takeBandwidth (nbytes : Nat) (now : ℚ) : Option UploadError × UploadLimiter :=
  let bucket := (limiter.buckets user).getD
    (.new policy.bandwidthBytesPerSec policy.bandwidthBurstBytes now)
  let (wait, bucket) := bucket.tryTake nbytes now
  let limiter := { limiter with buckets := Function.update limiter.buckets user (some bucket) }
  match wait with
  | .error e => (some e, limiter)
  | .ok wait => (if wait = 0 then none else some (.bandwidth wait), limiter)

end UploadLimiter

/-! ## Calls -/

/-- What a call returns. -/
inductive Answer where
  | session (upload : UploadId)
  | cancelled (result : Bool)
  | expired (uploads : List UploadId)
  | scanned

/-- Where a call that has not ended waits. -/
inductive Call where
  /-- `upload_chunk`, at `put_chunk` -/
  | putting (upload : UploadId) (index : Nat) (data : Bytes) (sha256 : String)
  /-- the storage has the object -/
  | put (upload : UploadId) (index : Nat) (data : Bytes) (sha256 : String)
  /-- `complete`, at `get_chunk` of the first of `remaining` or after the last one -/
  | verifying (upload : UploadId) (ordered remaining : List ChunkInfo) (corrupted : List Nat)
      (whole : Bytes)
  /-- at `compose` -/
  | composing (upload : UploadId) (partKeys : List Key) (digest : String)
  | composed (upload : UploadId) (digest : String)
  /-- at `delete_prefix`, with nothing left to do but to answer -/
  | deleting (upload : UploadId) (answer : Except UploadError Answer)
  /-- `collect_garbage`, before the lock of the first of `remaining` -/
  | collecting (remaining expired : List UploadId)
  /-- at `delete_prefix` of an upload that expired -/
  | sweeping (upload : UploadId) (remaining expired : List UploadId)

/-- The call has read the stored chunk and will compose it. -/
def Call.relies (upload : UploadId) (index : Nat) : Call → Bool
  | verifying u _ remaining _ _ => u = upload ∧ index ∉ remaining.map ChunkInfo.index
  | composing u _ _ => u = upload
  | _ => false

inductive UploadEvent where
  | initiated (upload : UploadId)
  /-- the call is refused before it did anything -/
  | rejected (error : UploadError)
  | duplicate (receipt : ChunkReceipt)
  | stored (upload : UploadId) (index : Nat) (data : Bytes) (receipt : ChunkReceipt)
  | waiting
  | returned (answer : Answer)
  | failed (error : UploadError)
  | corrupted

/-- Why a step is not taken: there is no such call, or an undocumented error leaves it. -/
inductive NoStep where
  | notEnabled
  | raised (error : UploadError)

/-! ## The service -/

structure UploadService where
  policy : UploadPolicy
  limiter : UploadLimiter
  sessions : Dict UploadId UploadSession
  /-- the storage -/
  objects : Dict Key Bytes
  calls : Dict Nat Call

namespace UploadService

def new (policy : UploadPolicy) : UploadService :=
  ⟨policy, .new, Dict.empty, Dict.empty, Dict.empty⟩

/-- What a step gives. -/
abbrev Result := Except NoStep (UploadEvent × UploadService)

variable (sha256Hex : Bytes → String) (s : UploadService)

/-- A transition that the code does not expect to fail. -/
def expect {α : Type} (r : Except UploadError α) (k : α → Result) : Result :=
  match r with
  | .error e => .error (.raised e)
  | .ok a => k a

/-- The upload of a call that has not ended is there. -/
def withSession (upload : UploadId) (k : UploadSession → Result) : Result :=
  match s.sessions.get? upload with
  | none => .error .notEnabled
  | some session => k session

/-- `_validate_filename` -/
def validFilename (name : String) : Bool :=
  name ≠ "" ∧ name.length ≤ 255 ∧ name ≠ "." ∧ name ≠ ".." ∧
    (name.toList.all fun c => c ∉ ['/', '\\', '\x00']) ∧ name.toList.head? ≠ some '.'

/-- `initiate` -/
def initiate (user : UserId) (filename : String) (fileSize : Int) (sha256 : Option String)
    (preferred : Option Int) (upload : UploadId) (now : ℚ) : UploadEvent × UploadService :=
  if ¬ validFilename filename then (.rejected (.invalidFilename filename), s)
  else if ¬ (0 ≤ fileSize ∧ fileSize ≤ s.policy.maxFileSize) then
    (.rejected (.invalidFileSize s.policy.maxFileSize), s)
  else if sha256.any fun digest => digest.length ≠ 64 then (.rejected .invalidSha256, s)
  else
    match s.policy.chunkSizeFor fileSize.toNat preferred with
    | .error e => (.rejected e, s)
    | .ok chunkSize =>
      match s.limiter.startUpload s.policy user upload fileSize.toNat now with
      | .error e => (.rejected e, s)
      | .ok limiter =>
        let session : UploadSession :=
          { uploadId := upload, userId := user, fileSize := fileSize.toNat, chunkSize
            expectedSha256 := sha256, createdAt := now, expiresAt := now + s.policy.sessionTtl
            status := .initiated, chunks := Dict.empty, inflight := ∅
            finalKey := none, finalSha256 := none, error := none }
        -- the log message has the number of chunks
        (if chunkSize = 0 then .failed .zeroDivision else .initiated upload,
          { s with limiter, sessions := s.sessions.set upload session })

/-- `upload_chunk`: what its first block raises before it looks the chunk up. -/
def chunkError (session : UploadSession) (index : Int) (data : Bytes) (sha256 : String) (now : ℚ) :
    Option UploadError :=
  match session.checkAccepting now with
  | some e => some e
  | none =>
    if session.chunkSize = 0 then some .zeroDivision
    else if ¬ (0 ≤ index ∧ index < session.totalChunks) then
      some (.indexOutOfRange index session.totalChunks)
    else
      let (start, stop) := session.chunkBounds index.toNat
      if data.length ≠ stop - start then
        some (.wrongChunkSize index.toNat (stop - start) data.length)
      else if sha256Hex data ≠ sha256 then some (.chunkMismatch index.toNat)
      else none

/-- `upload_chunk` up to `put_chunk`. -/
def reserveChunk (call : Nat) (upload : UploadId) (index : Int) (data : Bytes) (sha256 : String)
    (now : ℚ) : UploadEvent × UploadService :=
  match s.sessions.get? upload with
  | none => (.rejected (.notFound upload), s)
  | some session =>
    match chunkError sha256Hex session index data sha256 now with
    | some e => (.rejected e, s)
    | none =>
      let i := index.toNat
      match session.chunks.get? i with
      | some existing =>
        if existing.sha256 ≠ sha256 then (.rejected (.chunkConflict i), s)
        else (.duplicate (session.receipt i true), s)
      | none =>
        if i ∈ session.inflight then (.rejected (.chunkInProgress i), s)
        else
          match s.limiter.takeBandwidth s.policy session.userId data.length now with
          | (some e, limiter) => (.rejected e, { s with limiter })
          | (none, limiter) =>
            (.waiting, { s with
              limiter
              sessions := s.sessions.set upload
                { session with inflight := insert i session.inflight }
              calls := s.calls.set call (.putting upload i data sha256) })

/-- `upload_chunk` after `put_chunk`. -/
def recordChunk (call : Nat) (upload : UploadId) (index : Nat) (data : Bytes) (sha256 : String)
    (now : ℚ) : Result :=
  s.withSession upload fun session =>
    let session := { session with inflight := session.inflight.erase index }
    if ¬ session.status.acceptsChunks then
      .ok (.failed (.becameDuringWrite session.status.value),
        { s with sessions := s.sessions.set upload session, calls := s.calls.erase call })
    else
      let info : ChunkInfo :=
        ⟨index, (session.chunkBounds index).1, data.length, sha256, .chunk upload index, now⟩
      let session := { session with
        chunks := session.chunks.set index info, expiresAt := now + s.policy.sessionTtl }
      expect (if session.status = .initiated then session.transition .inProgress else .ok session)
        fun session =>
          .ok (.stored upload index data (session.receipt index false),
            { s with sessions := s.sessions.set upload session, calls := s.calls.erase call })

/-- `upload_chunk`, when `put_chunk` raises. -/
def dropChunk (call : Nat) (upload : UploadId) (index : Nat) : Result :=
  s.withSession upload fun session =>
    .ok (.failed .storage,
      { s with
        sessions := s.sessions.set upload { session with inflight := session.inflight.erase index }
        calls := s.calls.erase call })

/-- `complete` up to the first `get_chunk`. -/
def startComplete (call : Nat) (upload : UploadId) (now : ℚ) : Result :=
  match s.sessions.get? upload with
  | none => .ok (.rejected (.notFound upload), s)
  | some session =>
    if session.status ∈ [UploadState.completed, .ready, .quarantined] then
      .ok (.returned (.session upload), s)
    else
      match session.checkAccepting now with
      | some e => .ok (.rejected e, s)
      | none =>
        if session.inflight ≠ ∅ then .ok (.rejected (.chunksInProgress session.inflight), s)
        else if session.chunkSize = 0 then .ok (.rejected .zeroDivision, s)
        else if session.missingChunks ≠ [] then
          .ok (.rejected (.incomplete session.missingChunks), s)
        else
          expect (session.transition .assembling) fun session =>
            let ordered := (List.range session.totalChunks).filterMap session.chunks.get?
            .ok (.waiting, { s with
              sessions := s.sessions.set upload session
              calls := s.calls.set call (.verifying upload ordered ordered [] []) })

/-- `complete`, when something raises in the middle of the assembly. -/
def abortComplete (call : Nat) (upload : UploadId) : Result :=
  s.withSession upload fun session =>
    expect (if session.status = .assembling then session.transition .inProgress else .ok session)
      fun session =>
        .ok (.failed .storage,
          { s with sessions := s.sessions.set upload session, calls := s.calls.erase call })

/-- `get_chunk` of the next chunk. -/
def verifyChunk (call : Nat) (upload : UploadId) (ordered : List ChunkInfo) (chunk : ChunkInfo)
    (remaining : List ChunkInfo) (corrupted : List Nat) (whole : Bytes) : Result :=
  match s.objects.get? chunk.storageKey with
  | none => s.abortComplete call upload
  | some data =>
    let corrupted :=
      if sha256Hex data ≠ chunk.sha256 then corrupted ++ [chunk.index] else corrupted
    .ok (.waiting, { s with
      calls := s.calls.set call (.verifying upload ordered remaining corrupted (whole ++ data)) })

/-- The client gave another hash. -/
def mismatch (session : UploadSession) (digest : String) : Bool :=
  session.expectedSha256.any fun expected => expected ≠ "" ∧ digest ≠ expected

/-- `complete` after the last `get_chunk`, up to `compose` or `delete_prefix`. -/
def finishVerify (call : Nat) (upload : UploadId) (ordered : List ChunkInfo) (corrupted : List Nat)
    (whole : Bytes) (now : ℚ) : Result :=
  s.withSession upload fun session =>
    let digest := sha256Hex whole
    if corrupted ≠ [] then
      -- all of them are there
      let session := { session with
        chunks := corrupted.foldl (fun chunks i => chunks.erase i) session.chunks }
      expect (session.transition .inProgress) fun session =>
        .ok (.failed (.chunksCorrupted corrupted),
          { s with sessions := s.sessions.set upload session, calls := s.calls.erase call })
    else if mismatch session digest then
      let session := { session with error := some "whole-file sha256 mismatch" }
      expect (session.transition .failed) fun session =>
        .ok (.waiting, { s with
          sessions := s.sessions.set upload session
          limiter := s.limiter.finishUpload session.userId upload session.fileSize now
          calls := s.calls.set call (.deleting upload
            (.error (.fileMismatch digest (session.expectedSha256.getD "")))) })
    else
      .ok (.waiting, { s with
        calls := s.calls.set call (.composing upload (ordered.map ChunkInfo.storageKey) digest) })

/-- `compose` -/
def compose (call : Nat) (upload : UploadId) (partKeys : List Key) (digest : String) : Result :=
  match partKeys.mapM s.objects.get? with
  | none => s.abortComplete call upload
  | some parts =>
    .ok (.waiting, { s with
      objects := s.objects.set (.file upload) parts.flatten
      calls := s.calls.set call (.composed upload digest) })

/-- `complete` after `compose`, up to `delete_prefix`. -/
def finishComplete (call : Nat) (upload : UploadId) (digest : String) (now : ℚ) : Result :=
  s.withSession upload fun session =>
    let session := { session with finalKey := some (.file upload), finalSha256 := some digest }
    expect (session.transition .completed) fun session =>
      .ok (.waiting, { s with
        sessions := s.sessions.set upload session
        limiter := s.limiter.finishUpload session.userId upload 0 now
        calls := s.calls.set call (.deleting upload (.ok (.session upload))) })

/-- `cancel` up to `delete_prefix`. -/
def cancel (call : Nat) (upload : UploadId) (now : ℚ) : Result :=
  match s.sessions.get? upload with
  | none => .ok (.rejected (.notFound upload), s)
  | some session =>
    if ¬ session.status.acceptsChunks then .ok (.returned (.cancelled false), s)
    else if session.inflight ≠ ∅ then .ok (.rejected .writesInFlight, s)
    else
      expect (session.transition .cancelled) fun session =>
        .ok (.waiting, { s with
          sessions := s.sessions.set upload session
          limiter := s.limiter.finishUpload session.userId upload session.fileSize now
          calls := s.calls.set call (.deleting upload (.ok (.cancelled true))) })

/-- `record_scan_result` -/
def recordScanResult (upload : UploadId) (clean : Bool) : UploadEvent × UploadService :=
  match s.sessions.get? upload with
  | none => (.rejected (.notFound upload), s)
  | some session =>
    match session.transition (if clean then .ready else .quarantined) with
    | .error e => (.rejected e, s)
    | .ok session => (.returned .scanned, { s with sessions := s.sessions.set upload session })

/-- `UploadRepository.expired` -/
def expiredUploads (now : ℚ) : List UploadId :=
  (s.sessions.items.filter fun entry =>
    entry.2.status.acceptsChunks ∧ entry.2.expiresAt ≤ now).map Prod.fst

/-- `collect_garbage`, at the next upload of its list. -/
def collectNext (call : Nat) (remaining expired : List UploadId) (now : ℚ) : Result :=
  match remaining with
  | [] => .ok (.returned (.expired expired), { s with calls := s.calls.erase call })
  | upload :: remaining =>
    s.withSession upload fun session =>
      if session.status.acceptsChunks ∧ session.inflight = ∅ ∧ session.expiresAt ≤ now then
        -- `_expire`
        expect (session.transition .expired) fun session =>
          .ok (.waiting, { s with
            sessions := s.sessions.set upload session
            limiter := s.limiter.finishUpload session.userId upload session.fileSize now
            calls := s.calls.set call (.sweeping upload remaining (expired ++ [upload])) })
      else .ok (.waiting, { s with calls := s.calls.set call (.collecting remaining expired) })

/-- `delete_prefix` of the chunks of an upload. -/
def deletePrefix (upload : UploadId) : Dict Key Bytes :=
  s.objects.filterKeys fun key =>
    match key with
    | .chunk u _ => u ≠ upload
    | .file _ => true

end UploadService

/-! ## The machine -/

inductive UploadStep where
  | initiate (user : UserId) (filename : String) (fileSize : Int) (sha256 : Option String)
      (preferred : Option Int) (upload : UploadId) (now : ℚ)
  | uploadChunk (call : Nat) (upload : UploadId) (index : Int) (data : Bytes)
    (sha256 : String) (now : ℚ)
  | complete (call : Nat) (upload : UploadId) (now : ℚ)
  | cancel (call : Nat) (upload : UploadId) (now : ℚ)
  | recordScanResult (upload : UploadId) (clean : Bool)
  | collectGarbage (call : Nat) (now : ℚ)
  /-- the storage does what the call waits for -/
  | write (call : Nat)
  | resume (call : Nat) (now : ℚ)
  | fail (call : Nat)
  /-- other bytes are in the place of a chunk, or none -/
  | corrupt (upload : UploadId) (index : Nat) (data : Option Bytes)

namespace UploadService

variable (sha256Hex : Bytes → String) (s : UploadService)

/-- What a call that waits does next. -/
def resume (call : Nat) (now : ℚ) : Call → Result
  | .put upload index data sha256 => s.recordChunk call upload index data sha256 now
  | .verifying upload ordered (chunk :: remaining) corrupted whole =>
    s.verifyChunk sha256Hex call upload ordered chunk remaining corrupted whole
  | .verifying upload ordered [] corrupted whole =>
    s.finishVerify sha256Hex call upload ordered corrupted whole now
  | .composed upload digest => s.finishComplete call upload digest now
  | .deleting upload answer =>
    .ok (match answer with | .ok a => .returned a | .error e => .failed e,
      { s with objects := s.deletePrefix upload, calls := s.calls.erase call })
  | .collecting remaining expired => s.collectNext call remaining expired now
  | .sweeping upload remaining expired =>
    .ok (.waiting, { s with
      objects := s.deletePrefix upload, calls := s.calls.set call (.collecting remaining expired) })
  | .putting .. | .composing .. => .error .notEnabled

/-- The storage does what a call waits for. -/
def write (call : Nat) : Call → Result
  | .putting upload index data sha256 =>
    .ok (.waiting, { s with
      objects := s.objects.set (.chunk upload index) data
      calls := s.calls.set call (.put upload index data sha256) })
  | .composing upload partKeys digest => s.compose call upload partKeys digest
  | _ => .error .notEnabled

/-- The await of a call raises. -/
def fail (call : Nat) : Call → Result
  | .putting upload index _ _ | .put upload index _ _ => s.dropChunk call upload index
  | .verifying upload .. | .composing upload .. | .composed upload _ => s.abortComplete call upload
  | .deleting .. | .collecting .. | .sweeping .. =>
    .ok (.failed .storage, { s with calls := s.calls.erase call })

/-- A stored chunk changes, or is lost, unless an assembly has read it. -/
def corrupt (upload : UploadId) (index : Nat) (data : Option Bytes) : Result :=
  if s.calls.values.any (Call.relies upload index) then .error .notEnabled
  else
    .ok (.corrupted, { s with
      objects :=
        match data with
        | some data => s.objects.set (.chunk upload index) data
        | none => s.objects.erase (.chunk upload index) })

/-- A new call has a new number. -/
def start (call : Nat) (r : Result) : Result :=
  if (s.calls.get? call).isNone then r else .error .notEnabled

def step (s : UploadService) : UploadStep → Result
  | .initiate user filename fileSize sha256 preferred upload now =>
    if (s.sessions.get? upload).isNone then
      .ok (s.initiate user filename fileSize sha256 preferred upload now)
    else .error .notEnabled
  | .uploadChunk call upload index data sha256 now =>
    s.start call (.ok (s.reserveChunk sha256Hex call upload index data sha256 now))
  | .complete call upload now => s.start call (s.startComplete call upload now)
  | .cancel call upload now => s.start call (s.cancel call upload now)
  | .recordScanResult upload clean => .ok (s.recordScanResult upload clean)
  | .collectGarbage call now =>
    s.start call (.ok (.waiting,
      { s with calls := s.calls.set call (.collecting (s.expiredUploads now) []) }))
  | .write call =>
    match s.calls.get? call with
    | none => .error .notEnabled
    | some c => s.write call c
  | .resume call now =>
    match s.calls.get? call with
    | none => .error .notEnabled
    | some c => s.resume sha256Hex call now c
  | .fail call =>
    match s.calls.get? call with
    | none => .error .notEnabled
    | some c => s.fail call c
  | .corrupt upload index data => s.corrupt upload index data

end UploadService

end InterviewPrep.Uploads
