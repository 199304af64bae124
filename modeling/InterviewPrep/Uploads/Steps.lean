/-
  What a step of the service can do (`Moved`): which session it writes, which call goes on
  and what becomes of the storage and the limits.  Every invariant goes by its cases.
-/
import InterviewPrep.Uploads.Service

namespace InterviewPrep.Uploads

open Lib Dict Option

/-! ## Calls -/

namespace Call

/-- The chunk that the call has reserved. -/
def writes : Call → Option (UploadId × Nat)
  | putting upload index _ _ | put upload index _ _ => some (upload, index)
  | _ => none

def assembles : Call → Option UploadId
  | verifying upload .. | composing upload .. | composed upload _ => some upload
  | _ => none

/-- The upload whose chunks the call deletes. -/
def cleans : Call → Option UploadId
  | deleting upload _ | sweeping upload _ _ => some upload
  | _ => none

/-- The call has neither a reservation nor an assembly. -/
def Idle (c : Call) : Prop := c.writes = none ∧ c.assembles = none

theorem writes_of_assembles {c : Call} {upload : UploadId} (h : c.assembles = some upload) :
    c.writes = none := by
  cases c <;> first | rfl | cases h

end Call

/-! ## What a step does -/

variable (sha256Hex : Bytes → String)

open UploadService in
/-- The upload that the step gives quota back for, and when. -/
def refunds (s : UploadService) : UploadStep → Option (UploadId × ℚ)
  | .cancel _ upload now =>
    if (s.sessions.get? upload).any fun session =>
      session.status.acceptsChunks ∧ session.inflight = ∅ then some (upload, now) else none
  | .resume call now =>
    match s.calls.get? call with
    | some (.verifying upload _ [] [] whole) =>
      if (s.sessions.get? upload).any fun session => mismatch session (sha256Hex whole) then
        some (upload, now)
      else none
    | some (.collecting (upload :: _) _) =>
      if (s.sessions.get? upload).any fun session =>
        session.status.acceptsChunks ∧ session.inflight = ∅ ∧ session.expiresAt ≤ now then
        some (upload, now)
      else none
    | _ => none
  | _ => none

open UploadService in
inductive Moved (s : UploadService) (a : UploadStep) : UploadEvent → UploadService → Prop
  /-- at most a bucket is filled -/
  | rejected (error : UploadError) (buckets : UserId → Option TokenBucket) :
      Moved s a (.rejected error) { s with limiter := { s.limiter with buckets } }
  | answered (event : UploadEvent) : (∀ error, event ≠ .rejected error) →
      (∀ upload index data receipt, event ≠ .stored upload index data receipt) → Moved s a event s
  | initiated (event : UploadEvent) (user : UserId) (fileSize chunkSize : Nat)
      (expected : Option String) (upload : UploadId) (now : ℚ) (limiter : UploadLimiter) :
      event = .initiated upload ∨ event = .failed .zeroDivision →
      (∀ digest ∈ expected, digest.length = 64) → s.sessions.get? upload = none →
      s.limiter.startUpload s.policy user upload fileSize now = .ok limiter →
      Moved s a event { s with
        limiter
        sessions := s.sessions.set upload
          { uploadId := upload, userId := user, fileSize, chunkSize, expectedSha256 := expected
            createdAt := now, expiresAt := now + s.policy.sessionTtl
            status := .initiated, chunks := Dict.empty, inflight := ∅
            finalKey := none, finalSha256 := none, error := none } }
  | reserved (call : Nat) (upload : UploadId) (session : UploadSession) (index : Nat) (data : Bytes)
      (buckets : UserId → Option TokenBucket) :
      s.sessions.get? upload = some session → s.calls.get? call = none →
      session.status.acceptsChunks = true → index < session.totalChunks →
      data.length = (session.chunkBounds index).2 - (session.chunkBounds index).1 →
      index ∉ session.inflight →
      Moved s a .waiting { s with
        limiter := { s.limiter with buckets }
        sessions := s.sessions.set upload { session with inflight := insert index session.inflight }
        calls := s.calls.put call (some (.putting upload index data (sha256Hex data))) }
  | wrote (call : Nat) (upload : UploadId) (index : Nat) (data : Bytes) (sha256 : String) :
      s.calls.get? call = some (.putting upload index data sha256) →
      Moved s a .waiting { s with
        objects := s.objects.set (.chunk upload index) data
        calls := s.calls.put call (some (.put upload index data sha256)) }
  | recorded (call : Nat) (upload : UploadId) (session : UploadSession) (index : Nat) (data : Bytes)
      (sha256 : String) (status : UploadState) (now : ℚ) (receipt : ChunkReceipt) :
      s.sessions.get? upload = some session →
      s.calls.get? call = some (.put upload index data sha256) →
      session.status.acceptsChunks = true → status = .inProgress →
      Moved s a (.stored upload index data receipt) { s with
        sessions := s.sessions.set upload { session with
          inflight := session.inflight.erase index
          chunks := session.chunks.set index
            ⟨index, (session.chunkBounds index).1, data.length, sha256, .chunk upload index, now⟩
          expiresAt := now + s.policy.sessionTtl
          status }
        calls := s.calls.put call none }
  | dropped (call : Nat) (upload : UploadId) (session : UploadSession) (index : Nat) (c : Call)
      (error : UploadError) :
      s.sessions.get? upload = some session → s.calls.get? call = some c →
      c.writes = some (upload, index) →
      Moved s a (.failed error) { s with
        sessions := s.sessions.set upload { session with inflight := session.inflight.erase index }
        calls := s.calls.put call none }
  | assembling (call : Nat) (upload : UploadId) (session : UploadSession)
    (ordered : List ChunkInfo) :
      s.sessions.get? upload = some session → s.calls.get? call = none →
      session.status.acceptsChunks = true → session.inflight = ∅ → session.chunkSize ≠ 0 →
      session.missingChunks = [] →
      ordered = (List.range session.totalChunks).filterMap session.chunks.get? →
      Moved s a .waiting { s with
        sessions := s.sessions.set upload { session with status := .assembling }
        calls := s.calls.put call (some (.verifying upload ordered ordered [] [])) }
  | verified (call : Nat) (upload : UploadId) (ordered : List ChunkInfo) (chunk : ChunkInfo)
      (remaining : List ChunkInfo) (corrupted : List Nat) (whole data : Bytes) :
      s.calls.get? call = some (.verifying upload ordered (chunk :: remaining) corrupted whole) →
      s.objects.get? chunk.storageKey = some data →
      Moved s a .waiting { s with
        calls := s.calls.put call (some (.verifying upload ordered remaining
          (if sha256Hex data ≠ chunk.sha256 then corrupted ++ [chunk.index] else corrupted)
          (whole ++ data))) }
  /-- the assembly ends and the upload goes back: chunks are forgotten, or something raised -/
  | wentBack (call : Nat) (upload : UploadId) (session : UploadSession) (c : Call)
      (forgotten : List Nat) (status : UploadState) (error : UploadError) :
      s.sessions.get? upload = some session → s.calls.get? call = some c →
      c.assembles = some upload → (session.status = .assembling → status = .inProgress) →
      status = .inProgress ∨ status = session.status →
      Moved s a (.failed error) { s with
        sessions := s.sessions.set upload { session with
          chunks := forgotten.foldl (fun chunks i => chunks.erase i) session.chunks, status }
        calls := s.calls.put call none }
  | composing (call : Nat) (upload : UploadId) (session : UploadSession) (ordered : List ChunkInfo)
      (whole : Bytes) :
      s.sessions.get? upload = some session →
      s.calls.get? call = some (.verifying upload ordered [] [] whole) →
      mismatch session (sha256Hex whole) = false →
      Moved s a .waiting { s with
        calls := s.calls.put call
          (some (.composing upload (ordered.map ChunkInfo.storageKey) (sha256Hex whole))) }
  | composed (call : Nat) (upload : UploadId) (partKeys : List Key) (digest : String)
      (parts : List Bytes) :
      s.calls.get? call = some (.composing upload partKeys digest) →
      partKeys.mapM s.objects.get? = some parts →
      Moved s a .waiting { s with
        objects := s.objects.set (.file upload) parts.flatten
        calls := s.calls.put call (some (.composed upload digest)) }
  | completed (call : Nat) (upload : UploadId) (session : UploadSession)
    (digest : String) (now : ℚ) :
      s.sessions.get? upload = some session →
      s.calls.get? call = some (.composed upload digest) →
      Moved s a .waiting { s with
        sessions := s.sessions.set upload { session with
          finalKey := some (.file upload), finalSha256 := some digest, status := .completed }
        limiter := s.limiter.finishUpload session.userId upload 0 now
        calls := s.calls.put call (some (.deleting upload (.ok (.session upload)))) }
  /-- the upload ends without a file, and its quota is given back -/
  | released (call : Nat) (upload : UploadId) (session : UploadSession) (old : Option Call)
      (status : UploadState) (error : Option String) (next : Call) (now : ℚ) :
      s.sessions.get? upload = some session → s.calls.get? call = old →
      (status = .cancelled ∧ old = none ∧ session.status.acceptsChunks = true ∧
        session.inflight = ∅ ∨
        status = .expired ∧ (∃ remaining expired, old = some (.collecting remaining expired)) ∧
          session.status.acceptsChunks = true ∧ session.inflight = ∅ ∨
        status = .failed ∧ ∃ c, old = some c ∧ c.assembles = some upload) →
      refunds sha256Hex s a = some (upload, now) →
      next.Idle → next.cleans = some upload →
      Moved s a .waiting { s with
        sessions := s.sessions.set upload { session with status, error }
        limiter := s.limiter.finishUpload session.userId upload session.fileSize now
        calls := s.calls.put call (some next) }
  | scanned (upload : UploadId) (session : UploadSession) (status : UploadState) :
      s.sessions.get? upload = some session → session.status.holdsSlot = false →
      session.status ∈ [UploadState.completed, .quarantined] →
      status ∈ [UploadState.ready, .quarantined] →
      Moved s a (.returned .scanned)
        { s with sessions := s.sessions.set upload { session with status } }
  /-- a collection goes on, or a call with nothing left to do ends -/
  | idle (event : UploadEvent) (call : Nat) (old next : Option Call) :
      s.calls.get? call = old → (∀ c ∈ old, c.Idle) →
      (∀ c ∈ next, ∃ remaining expired, c = .collecting remaining expired) →
      (∀ error, event ≠ .rejected error) →
      (∀ upload index data receipt, event ≠ .stored upload index data receipt) →
      Moved s a event { s with calls := s.calls.put call next }
  | deleted (event : UploadEvent) (call : Nat) (upload : UploadId) (c : Call) (next : Option Call) :
      s.calls.get? call = some c → c.Idle → c.cleans = some upload →
      (∀ c ∈ next, ∃ remaining expired, c = .collecting remaining expired) →
      (∀ error, event ≠ .rejected error) →
      (∀ upload index data receipt, event ≠ .stored upload index data receipt) →
      Moved s a event { s with
        objects := s.deletePrefix upload, calls := s.calls.put call next }
  | corrupted (upload : UploadId) (index : Nat) (objects : Dict Key Bytes) :
      (∀ call c, s.calls.get? call = some c → c.relies upload index = false) →
      (∀ key, key ≠ .chunk upload index → objects.get? key = s.objects.get? key) →
      Moved s a .corrupted { s with objects }

namespace UploadService

variable {sha256Hex : Bytes → String} {s s' : UploadService} {event : UploadEvent} {a : UploadStep}
  {upload : UploadId} {call index : Nat} {now : ℚ} {data : Bytes} {sha256 : String} {c : Call}

/-! ## Every step is one -/

theorem expect_ok {α : Type} {r : Except UploadError α} {k : α → Result}
    (h : expect r k = .ok (event, s')) : ∃ a, r = .ok a ∧ k a = .ok (event, s') := by
  cases r with
  | error => cases h
  | ok a => exact ⟨a, rfl, h⟩

theorem withSession_ok {k : UploadSession → Result} (h : s.withSession upload k = .ok (event, s')) :
    ∃ session, s.sessions.get? upload = some session ∧ k session = .ok (event, s') := by
  unfold withSession at h
  split at h
  · cases h
  · next session hget => exact ⟨session, hget, h⟩

theorem start_ok {r : Result} (h : s.start call r = .ok (event, s')) :
    s.calls.get? call = none ∧ r = .ok (event, s') := by
  unfold start at h
  split at h
  · next hnone => exact ⟨isNone_iff_eq_none.mp hnone, h⟩
  · cases h

theorem transition_ok {session session' : UploadSession} {new : UploadState}
    (h : session.transition new = .ok session') :
    new ∈ session.status.transitions ∧ session' = { session with status := new } := by
  unfold UploadSession.transition at h
  split at h
  · next hmem =>
      cases h
      exact ⟨hmem, rfl⟩
  · cases h

theorem takeBandwidth_eq (limiter : UploadLimiter) (policy : UploadPolicy) (user : UserId)
    (nbytes : Nat) (now : ℚ) :
    ∃ e buckets, limiter.takeBandwidth policy user nbytes now = (e, { limiter with buckets }) := by
  unfold UploadLimiter.takeBandwidth
  dsimp only
  split
  · exact ⟨_, _, rfl⟩
  · exact ⟨_, _, rfl⟩

theorem initiate_moved {user : UserId} {filename : String} {fileSize : Int} {sha256 : Option String}
    {preferred : Option Int} (hnone : s.sessions.get? upload = none)
    (h : s.initiate user filename fileSize sha256 preferred upload now = (event, s')) :
    Moved sha256Hex s a event s' := by
  have hrejected : ∀ e, Moved sha256Hex s a (.rejected e) s :=
    fun e => .rejected e s.limiter.buckets
  unfold initiate at h
  split at h
  · cases h
    exact hrejected _
  split at h
  · cases h
    exact hrejected _
  split at h
  · cases h
    exact hrejected _
  · next hsha =>
      split at h
      · cases h
        exact hrejected _
      · next chunkSize _ =>
          split at h
          · cases h
            exact hrejected _
          · next limiter hstart =>
              cases h
              apply Moved.initiated _ user fileSize.toNat chunkSize sha256 upload now limiter _ _
                hnone hstart
              · split
                · exact .inr rfl
                · exact .inl rfl
              · rintro digest rfl
                simpa using hsha

theorem chunkError_none {session : UploadSession} {index : Int}
    (h : chunkError sha256Hex session index data sha256 now = none) :
    session.status.acceptsChunks = true ∧ index.toNat < session.totalChunks ∧
      data.length = (session.chunkBounds index.toNat).2 - (session.chunkBounds index.toNat).1 ∧
      sha256 = sha256Hex data := by
  unfold chunkError at h
  split at h
  · cases h
  · next haccepting =>
      split at h
      · cases h
      split at h
      · cases h
      · next hindex =>
          dsimp only at h
          split at h
          · cases h
          · next hlength =>
              split at h
              · cases h
              · next hsha =>
                  refine ⟨UploadSession.checkAccepting_none haccepting, ?_, ?_, ?_⟩
                  · rw [not_not] at hindex
                    omega
                  · rwa [not_not] at hlength
                  · rw [not_not] at hsha
                    exact hsha.symm

theorem reserveChunk_moved {index : Int} (hnone : s.calls.get? call = none)
    (h : s.reserveChunk sha256Hex call upload index data sha256 now = (event, s')) :
    Moved sha256Hex s a event s' := by
  have hrejected : ∀ e, Moved sha256Hex s a (.rejected e) s :=
    fun e => .rejected e s.limiter.buckets
  unfold reserveChunk at h
  split at h
  · cases h
    exact hrejected _
  · next session hget =>
      split at h
      · cases h
        exact hrejected _
      · next herror =>
          obtain ⟨haccepts, hindex, hlength, rfl⟩ := chunkError_none herror
          dsimp only at h
          split at h
          · split at h
            · cases h
              exact hrejected _
            · cases h
              exact .answered _ (by simp) (by simp)
          split at h
          · cases h
            exact hrejected _
          · next hinflight =>
              obtain ⟨e, buckets, htake⟩ :=
                takeBandwidth_eq s.limiter s.policy session.userId data.length now
              rw [htake] at h
              cases e with
              | some e =>
                cases h
                exact .rejected e buckets
              | none =>
                cases h
                exact .reserved call upload session index.toNat data buckets hget hnone haccepts
                  hindex hlength hinflight

theorem recordChunk_moved (hcall : s.calls.get? call = some (.put upload index data sha256))
    (h : s.recordChunk call upload index data sha256 now = .ok (event, s')) :
    Moved sha256Hex s a event s' := by
  obtain ⟨session, hget, h⟩ := withSession_ok h
  dsimp only at h
  split at h
  · cases h
    exact .dropped call upload session index _ _ hget hcall rfl
  · next haccepts =>
      obtain ⟨session', htransition, h⟩ := expect_ok h
      rw [not_not] at haccepts
      cases h
      split at htransition
      · obtain ⟨-, rfl⟩ := transition_ok htransition
        exact .recorded call upload session index data sha256 .inProgress now _ hget
          hcall haccepts rfl
      · next hstatus =>
          cases htransition
          have hprogress : session.status = .inProgress := by
            revert haccepts hstatus
            cases session.status <;> simp [UploadState.acceptsChunks]
          exact .recorded call upload session index data sha256 session.status now _ hget hcall
            haccepts hprogress

theorem abortComplete_moved (hcall : s.calls.get? call = some c) (hc : c.assembles = some upload)
    (h : s.abortComplete call upload = .ok (event, s')) : Moved sha256Hex s a event s' := by
  obtain ⟨session, hget, h⟩ := withSession_ok h
  obtain ⟨session', htransition, h⟩ := expect_ok h
  cases h
  split at htransition
  · obtain ⟨-, rfl⟩ := transition_ok htransition
    exact .wentBack call upload session c [] .inProgress .storage hget hcall hc (fun _ => rfl)
      (.inl rfl)
  · next hstatus =>
      cases htransition
      exact .wentBack call upload session c [] session.status .storage hget hcall hc
        (fun heq => absurd heq hstatus) (.inr rfl)

theorem startComplete_moved (hnone : s.calls.get? call = none)
    (h : s.startComplete call upload now = .ok (event, s')) : Moved sha256Hex s a event s' := by
  have hrejected : ∀ e, Moved sha256Hex s a (.rejected e) s :=
    fun e => .rejected e s.limiter.buckets
  unfold startComplete at h
  split at h
  · cases h
    exact hrejected _
  · next session hget =>
      split at h
      · cases h
        exact .answered _ (by simp) (by simp)
      split at h
      · cases h
        exact hrejected _
      · next haccepting =>
          split at h
          · cases h
            exact hrejected _
          · next hinflight =>
              split at h
              · cases h
                exact hrejected _
              · next hsize =>
                  split at h
                  · cases h
                    exact hrejected _
                  · next hmissing =>
                      obtain ⟨session', htransition, h⟩ := expect_ok h
                      obtain ⟨-, rfl⟩ := transition_ok htransition
                      cases h
                      exact .assembling call upload session _ hget hnone
                        (UploadSession.checkAccepting_none haccepting) (not_not.mp hinflight) hsize
                        (not_not.mp hmissing) rfl

theorem finishVerify_moved {ordered : List ChunkInfo} {corrupted : List Nat} {whole : Bytes}
    (hcall : s.calls.get? call = some (.verifying upload ordered [] corrupted whole))
    (h : s.finishVerify sha256Hex call upload ordered corrupted whole now = .ok (event, s')) :
    Moved sha256Hex s (.resume call now) event s' := by
  obtain ⟨session, hget, hk⟩ := withSession_ok h
  clear h
  dsimp only at hk
  split at hk
  · obtain ⟨session', htransition, hk⟩ := expect_ok hk
    obtain ⟨-, rfl⟩ := transition_ok htransition
    cases hk
    exact .wentBack call upload session _ corrupted .inProgress _ hget hcall rfl (fun _ => rfl)
      (.inl rfl)
  · next hcorrupted =>
      rw [not_not] at hcorrupted
      subst hcorrupted
      split at hk
      · next hmismatch =>
        have hrefunds : refunds sha256Hex s (.resume call now) = some (upload, now) := by
          rw [refunds, hcall]
          dsimp only
          rw [hget, any_some, if_pos hmismatch]
        obtain ⟨session', htransition, hk⟩ := expect_ok hk
        obtain ⟨-, rfl⟩ := transition_ok htransition
        cases hk
        exact .released call upload session _ .failed _ _ now hget hcall
          (.inr (.inr ⟨rfl, _, rfl, rfl⟩)) hrefunds ⟨rfl, rfl⟩ rfl
      · next hmatch =>
          cases hk
          exact .composing call upload session ordered whole hget hcall (by simpa using hmatch)

theorem finishComplete_moved {digest : String}
    (hcall : s.calls.get? call = some (.composed upload digest))
    (h : s.finishComplete call upload digest now = .ok (event, s')) :
    Moved sha256Hex s a event s' := by
  obtain ⟨session, hget, h⟩ := withSession_ok h
  obtain ⟨session', htransition, h⟩ := expect_ok h
  obtain ⟨-, rfl⟩ := transition_ok htransition
  cases h
  exact .completed call upload session digest now hget hcall

theorem cancel_moved (hnone : s.calls.get? call = none)
    (h : s.cancel call upload now = .ok (event, s')) :
    Moved sha256Hex s (.cancel call upload now) event s' := by
  have hrejected : ∀ e, Moved sha256Hex s (.cancel call upload now) (.rejected e) s :=
    fun e => .rejected e s.limiter.buckets
  unfold cancel at h
  split at h
  · cases h
    exact hrejected _
  · next session hget =>
      split at h
      · cases h
        exact .answered _ (by simp) (by simp)
      · next haccepts =>
          split at h
          · cases h
            exact hrejected _
          · next hinflight =>
              have hrefunds : refunds sha256Hex s (.cancel call upload now) =
                  some (upload, now) := by
                rw [refunds, hget, any_some]
                apply if_pos
                simpa using ⟨not_not.mp haccepts, not_not.mp hinflight⟩
              obtain ⟨session', htransition, h⟩ := expect_ok h
              obtain ⟨-, rfl⟩ := transition_ok htransition
              cases h
              exact .released call upload session none .cancelled session.error _ now hget hnone
                (.inl ⟨rfl, rfl, not_not.mp haccepts, not_not.mp hinflight⟩) hrefunds ⟨rfl, rfl⟩ rfl

theorem recordScanResult_moved {clean : Bool} (h : s.recordScanResult upload clean = (event, s')) :
    Moved sha256Hex s a event s' := by
  have hrejected : ∀ e, Moved sha256Hex s a (.rejected e) s :=
    fun e => .rejected e s.limiter.buckets
  unfold recordScanResult at h
  split at h
  · cases h
    exact hrejected _
  · next session hget =>
      split at h
      · cases h
        exact hrejected _
      · next htransition =>
          obtain ⟨hmem, rfl⟩ := transition_ok htransition
          cases h
          have hstatus : session.status ∈ [UploadState.completed, .quarantined] := by
            revert hmem
            cases session.status <;> cases clean <;> simp [UploadState.transitions]
          refine .scanned upload session _ hget ?_ hstatus ?_
          · simp only [List.mem_cons, List.not_mem_nil, or_false] at hstatus
            rcases hstatus with heq | heq <;> rw [heq] <;> rfl
          · cases clean <;> simp

theorem collectNext_moved {remaining expired : List UploadId}
    (hcall : s.calls.get? call = some (.collecting remaining expired))
    (h : s.collectNext call remaining expired now = .ok (event, s')) :
    Moved sha256Hex s (.resume call now) event s' := by
  unfold collectNext at h
  split at h
  · cases h
    exact .idle _ call _ none hcall (by rintro _ ⟨⟩; exact ⟨rfl, rfl⟩) (by simp) (by simp) (by simp)
  · next upload remaining =>
      obtain ⟨session, hget, h⟩ := withSession_ok h
      split at h
      · next hexpired =>
          have hrefunds : refunds sha256Hex s (.resume call now) = some (upload, now) := by
            rw [refunds, hcall]
            dsimp only
            rw [hget, any_some]
            apply if_pos
            simpa using hexpired
          obtain ⟨session', htransition, h⟩ := expect_ok h
          obtain ⟨-, rfl⟩ := transition_ok htransition
          cases h
          exact .released call upload session _ .expired session.error _ now hget hcall
            (.inr (.inl ⟨rfl, ⟨_, _, rfl⟩, hexpired.1, hexpired.2.1⟩)) hrefunds ⟨rfl, rfl⟩ rfl
      · cases h
        exact .idle _ call _ (some (.collecting remaining expired)) hcall
          (by rintro _ ⟨⟩; exact ⟨rfl, rfl⟩) (by rintro _ ⟨⟩; exact ⟨_, _, rfl⟩) (by simp) (by simp)

section

variable (hcall : s.calls.get? call = some c)

include hcall

theorem resume_moved (h : s.resume sha256Hex call now c = .ok (event, s')) :
    Moved sha256Hex s (.resume call now) event s' := by
  unfold resume at h
  split at h
  · exact recordChunk_moved hcall h
  · unfold verifyChunk at h
    split at h
    · exact abortComplete_moved hcall rfl h
    · next data hdata =>
        cases h
        exact .verified call _ _ _ _ _ _ data hcall hdata
  · exact finishVerify_moved hcall h
  · exact finishComplete_moved hcall h
  · next upload answer =>
      cases h
      exact .deleted _ call upload _ none hcall ⟨rfl, rfl⟩ rfl (by simp)
        (by cases answer <;> simp) (by cases answer <;> simp)
  · exact collectNext_moved hcall h
  · next upload remaining expired =>
      cases h
      exact .deleted _ call upload _ (some (.collecting remaining expired)) hcall ⟨rfl, rfl⟩ rfl
        (by rintro _ ⟨⟩; exact ⟨_, _, rfl⟩) (by simp) (by simp)
  · cases h
  · cases h

theorem write_moved (h : s.write call c = .ok (event, s')) : Moved sha256Hex s a event s' := by
  unfold write at h
  split at h
  · cases h
    exact .wrote call _ _ _ _ hcall
  · unfold compose at h
    split at h
    · exact abortComplete_moved hcall rfl h
    · next parts hparts =>
        cases h
        exact .composed call _ _ _ parts hcall hparts
  · cases h

theorem dropChunk_moved (hc : c.writes = some (upload, index))
    (h : s.dropChunk call upload index = .ok (event, s')) : Moved sha256Hex s a event s' := by
  obtain ⟨session, hget, h⟩ := withSession_ok h
  cases h
  exact .dropped call upload session index c _ hget hcall hc

theorem fail_moved (h : s.fail call c = .ok (event, s')) : Moved sha256Hex s a event s' := by
  have hidle : c.Idle →
      Moved sha256Hex s a (.failed .storage) { s with calls := s.calls.erase call } :=
    fun hc => .idle _ call _ none hcall (by rintro _ ⟨⟩; exact hc) (by simp) (by simp) (by simp)
  unfold fail at h
  split at h
  · exact dropChunk_moved hcall rfl h
  · exact dropChunk_moved hcall rfl h
  · exact abortComplete_moved hcall rfl h
  · exact abortComplete_moved hcall rfl h
  · exact abortComplete_moved hcall rfl h
  · cases h
    exact hidle ⟨rfl, rfl⟩
  · cases h
    exact hidle ⟨rfl, rfl⟩
  · cases h
    exact hidle ⟨rfl, rfl⟩

end

theorem corrupt_moved {data : Option Bytes} (h : s.corrupt upload index data = .ok (event, s')) :
    Moved sha256Hex s a event s' := by
  unfold corrupt at h
  split at h
  · cases h
  · next hrelies =>
      cases h
      refine .corrupted upload index _ (fun call c hcall => ?_) fun key hkey => ?_
      · rw [Bool.not_eq_true, List.any_eq_false] at hrelies
        have hmem : c ∈ s.calls.values :=
          List.mem_map.mpr ⟨(call, c), Dict.mem_items.mpr hcall, rfl⟩
        simpa using hrelies c hmem
      · cases data with
        | none => exact get?_erase_of_ne _ hkey
        | some => exact get?_set_of_ne _ _ hkey

/-- A step that is taken is one of `Moved`, guards included. -/
theorem step_moved (h : s.step sha256Hex a = .ok (event, s')) : Moved sha256Hex s a event s' := by
  cases a with
  | initiate =>
    rw [step] at h
    split at h
    · next hnone => exact initiate_moved (isNone_iff_eq_none.mp hnone) (Except.ok.inj h)
    · cases h
  | uploadChunk =>
    obtain ⟨hnone, h⟩ := start_ok h
    exact reserveChunk_moved hnone (Except.ok.inj h)
  | complete =>
    obtain ⟨hnone, h⟩ := start_ok h
    exact startComplete_moved hnone h
  | cancel =>
    obtain ⟨hnone, h⟩ := start_ok h
    exact cancel_moved hnone h
  | recordScanResult => exact recordScanResult_moved (Except.ok.inj h)
  | collectGarbage call =>
    obtain ⟨hnone, h⟩ := start_ok h
    cases h
    exact .idle _ call none (some (.collecting _ _)) hnone (by simp)
      (by rintro _ ⟨⟩; exact ⟨_, _, rfl⟩) (by simp) (by simp)
  | write =>
    rw [step] at h
    split at h
    · cases h
    · next hcall => exact write_moved hcall h
  | resume =>
    rw [step] at h
    split at h
    · cases h
    · next hcall => exact resume_moved hcall h
  | fail =>
    rw [step] at h
    split at h
    · cases h
    · next hcall => exact fail_moved hcall h
  | corrupt => exact corrupt_moved h

end UploadService

end InterviewPrep.Uploads
