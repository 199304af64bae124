/-
  The assembled file is the uploaded one (`run_assembled`): what an assembly has read are
  accepted bodies, and nothing it has read changes before it composes them.
-/
import InterviewPrep.Uploads.Slots
import Mathlib.Algebra.Order.BigOperators.Group.List

namespace InterviewPrep.Uploads

open Lib Dict List Option

/-! ## The chunks of a session -/

theorem le_ceilDiv_mul (a : Nat) {b : Nat} (hb : b ≠ 0) : a ≤ ceilDiv a b * b := by
  have hmod := Nat.mod_lt (a + b - 1) (Nat.pos_of_ne_zero hb)
  have hdiv := Nat.div_add_mod (a + b - 1) b
  unfold ceilDiv
  rw [Nat.mul_comm]
  omega

theorem sum_chunkBounds (session : UploadSession) (n : Nat) :
    ((List.range n).map fun i => (session.chunkBounds i).2 - (session.chunkBounds i).1).sum =
      min (n * session.chunkSize) session.fileSize := by
  induction n with
  | zero => simp
  | succ _ ih =>
    rw [range_succ, map_append, sum_append, ih, List.map_singleton,
      List.sum_singleton, Nat.succ_mul]
    simp only [UploadSession.chunkBounds]
    omega

theorem map_some_filterMap {α β : Type} {f : α → Option β} {xs : List α}
    (h : ∀ x ∈ xs, (f x).isSome) : (xs.filterMap f).map some = xs.map f := by
  induction xs with
  | nil => rfl
  | cons x _ ih =>
    obtain ⟨y, hy⟩ := isSome_iff_exists.mp (h x List.mem_cons_self)
    rw [filterMap_cons_some hy, List.map_cons, List.map_cons, hy,
      ih fun z hz => h z (List.mem_cons_of_mem x hz)]

/-- The chunks of a session in order. -/
def UploadSession.chunkList (session : UploadSession) : List ChunkInfo :=
  (List.range session.totalChunks).filterMap session.chunks.get?

/-- No chunk is missing. -/
def UploadSession.Full (session : UploadSession) : Prop :=
  ∀ i < session.totalChunks, ∃ info, session.chunks.get? i = some info

theorem UploadSession.Full.chunkList_eq {session : UploadSession} (h : session.Full) :
    session.chunkList.map some = (List.range session.totalChunks).map session.chunks.get? := by
  apply map_some_filterMap
  intro i hi
  obtain ⟨info, hinfo⟩ := h i (List.mem_range.mp hi)
  rw [hinfo]
  rfl

theorem UploadSession.Full.length {session : UploadSession} (h : session.Full) :
    session.chunkList.length = session.totalChunks := by
  have hlength := congrArg List.length h.chunkList_eq
  simpa using hlength

theorem UploadSession.Full.getElem? {session : UploadSession} (h : session.Full) {i : Nat}
    {info : ChunkInfo} (hinfo : session.chunkList[i]? = some info) :
    i < session.totalChunks ∧ session.chunks.get? i = some info := by
  have hi : i < session.totalChunks := by
    have hlt := (List.getElem?_eq_some_iff.mp hinfo).1
    rwa [h.length] at hlt
  refine ⟨hi, ?_⟩
  have hmap := congrArg (·[i]?) h.chunkList_eq
  simp only [getElem?_map, hinfo, map_some, getElem?_range hi] at hmap
  exact (some.inj hmap).symm

/-- The upload whose chunk a call writes, or that it assembles. -/
def Call.worksOn (c : Call) : Option UploadId := c.assembles.or (c.writes.map Prod.fst)

namespace UploadService

variable {sha256Hex : Bytes → String} {s s' : UploadService} {event : UploadEvent} {a : UploadStep}
  {trace : List UploadEvent} {session' : UploadSession} {upload : UploadId} {i call : Nat}
  {info : ChunkInfo} {c : Call}

/-! ## What a call has read -/

def AcceptedBody (trace : List UploadEvent) (upload : UploadId) (session : UploadSession) (i : Nat)
    (data : Bytes) : Prop :=
  (∃ receipt, .stored upload i data receipt ∈ trace) ∧
    data.length = (session.chunkBounds i).2 - (session.chunkBounds i).1

/-- One accepted body for each index, in order. -/
structure Accepted (trace : List UploadEvent) (upload : UploadId) (session : UploadSession)
    (bodies : List Bytes) : Prop where
  size : session.chunkSize ≠ 0
  length : bodies.length = session.totalChunks
  body : ∀ i data, bodies[i]? = some data → AcceptedBody trace upload session i data

/-- What the record of a chunk says. -/
structure RecordOk (sha256Hex : Bytes → String) (trace : List UploadEvent) (upload : UploadId)
    (session : UploadSession) (i : Nat) (info : ChunkInfo) : Prop where
  index : info.index = i
  key : info.storageKey = .chunk upload i
  body : ∃ data, AcceptedBody trace upload session i data ∧ info.sha256 = sha256Hex data

/-- What a call of the upload has read and knows. -/
def CallOk (sha256Hex : Bytes → String) (trace : List UploadEvent) (objects : Dict Key Bytes)
    (upload : UploadId) (session : UploadSession) : Call → Prop
  | .putting _ i data sha256 | .put _ i data sha256 =>
    sha256 = sha256Hex data ∧
      data.length = (session.chunkBounds i).2 - (session.chunkBounds i).1
  | .verifying _ ordered remaining corrupted whole =>
    session.chunkSize ≠ 0 ∧ session.Full ∧ ordered = session.chunkList ∧
      ∃ (verified : List ChunkInfo) (reads : List Bytes), ordered = verified ++ remaining ∧
        verified.map (fun chunk => objects.get? chunk.storageKey) = reads.map some ∧
        whole = reads.flatten ∧
        (corrupted = [] → verified.map ChunkInfo.sha256 = reads.map sha256Hex)
  | .composing _ partKeys digest =>
    ∃ bodies, Accepted trace upload session bodies ∧ partKeys.map objects.get? = bodies.map some ∧
      (∀ key ∈ partKeys, ∃ i, key = .chunk upload i) ∧
      digest = sha256Hex bodies.flatten ∧ mismatch session digest = false
  | .composed _ digest =>
    ∃ bodies, Accepted trace upload session bodies ∧
      objects.get? (.file upload) = some bodies.flatten ∧
      digest = sha256Hex bodies.flatten ∧ mismatch session digest = false
  | _ => True

/-- The upload is over and has its file. -/
def HasFile (status : UploadState) : Prop :=
  status = .completed ∨ status = .ready ∨ status = .quarantined

/-- What the session of a finished upload and the storage say of its file. -/
def FileOk (sha256Hex : Bytes → String) (trace : List UploadEvent) (objects : Dict Key Bytes)
    (upload : UploadId) (session : UploadSession) : Prop :=
  session.finalKey = some (.file upload) ∧
    ∃ bodies, Accepted trace upload session bodies ∧
      objects.get? (.file upload) = some bodies.flatten ∧
      session.finalSha256 = some (sha256Hex bodies.flatten) ∧
      mismatch session (sha256Hex bodies.flatten) = false

structure SessionOk (sha256Hex : Bytes → String) (trace : List UploadEvent)
    (objects : Dict Key Bytes) (upload : UploadId) (session : UploadSession) : Prop where
  expected : ∀ digest ∈ session.expectedSha256, digest.length = 64
  chunks : ∀ i info, session.chunks.get? i = some info →
    RecordOk sha256Hex trace upload session i info
  file : HasFile session.status → FileOk sha256Hex trace objects upload session

structure AssemblyOk (sha256Hex : Bytes → String) (trace : List UploadEvent) (s : UploadService) :
    Prop where
  sessions : ∀ upload session, s.sessions.get? upload = some session →
    SessionOk sha256Hex trace s.objects upload session
  calls : ∀ call c upload, s.calls.get? call = some c → c.worksOn = some upload →
    ∃ session, s.sessions.get? upload = some session ∧
      CallOk sha256Hex trace s.objects upload session c

/-! ## What a step leaves -/

/-- The upload is the same file, cut in the same way. -/
structure SameFile (session session' : UploadSession) : Prop where
  fileSize : session'.fileSize = session.fileSize
  chunkSize : session'.chunkSize = session.chunkSize
  expected : session'.expectedSha256 = session.expectedSha256

theorem SameFile.bounds {session : UploadSession} (h : SameFile session session') (i : Nat) :
    session'.chunkBounds i = session.chunkBounds i := by
  rw [UploadSession.chunkBounds, UploadSession.chunkBounds, h.fileSize, h.chunkSize]

theorem SameFile.totalChunks {session : UploadSession} (h : SameFile session session') :
    session'.totalChunks = session.totalChunks := by
  rw [UploadSession.totalChunks, UploadSession.totalChunks, h.fileSize, h.chunkSize]

theorem SameFile.mismatch {session : UploadSession} (h : SameFile session session')
    (digest : String) : mismatch session' digest = mismatch session digest := by
  rw [UploadService.mismatch, UploadService.mismatch, h.expected]

theorem AcceptedBody.mono {session : UploadSession} {data : Bytes}
    (h : AcceptedBody trace upload session i data) (hsame : SameFile session session')
    (more : List UploadEvent) : AcceptedBody (trace ++ more) upload session' i data := by
  obtain ⟨⟨receipt, hmem⟩, hlength⟩ := h
  exact ⟨⟨receipt, mem_append_left _ hmem⟩, by rw [hsame.bounds]; exact hlength⟩

theorem Accepted.mono {session : UploadSession} {bodies : List Bytes}
    (h : Accepted trace upload session bodies) (hsame : SameFile session session')
    (more : List UploadEvent) : Accepted (trace ++ more) upload session' bodies :=
  ⟨by rw [hsame.chunkSize]; exact h.size, by rw [hsame.totalChunks]; exact h.length,
    fun i data hdata => (h.body i data hdata).mono hsame more⟩

theorem RecordOk.mono {session : UploadSession} (h : RecordOk sha256Hex trace upload session i info)
    (hsame : SameFile session session') (more : List UploadEvent) :
    RecordOk sha256Hex (trace ++ more) upload session' i info := by
  obtain ⟨data, hbody, hsha⟩ := h.body
  exact ⟨h.index, h.key, data, hbody.mono hsame more, hsha⟩

/-- A step writes one session at most: a new one, or one of the same file. -/
theorem Moved.sessions (hm : Moved sha256Hex s a event s') : s'.sessions = s.sessions ∨
    ∃ u t', s'.sessions = s.sessions.set u t' ∧
      (s.sessions.get? u = none ∧ (∀ digest ∈ t'.expectedSha256, digest.length = 64) ∨
        ∃ t, s.sessions.get? u = some t ∧ SameFile t t') := by
  cases hm with
  | initiated _ _ _ _ _ _ _ _ _ hexpected hnone => exact .inr ⟨_, _, rfl, .inl ⟨hnone, hexpected⟩⟩
  | reserved _ _ _ _ _ _ hu | recorded _ _ _ _ _ _ _ _ _ hu | dropped _ _ _ _ _ _ hu
  | assembling _ _ _ _ hu | wentBack _ _ _ _ _ _ _ hu | completed _ _ _ _ _ hu
  | released _ _ _ _ _ _ _ _ hu | scanned _ _ _ hu =>
    exact .inr ⟨_, _, rfl, .inr ⟨_, hu, rfl, rfl, rfl⟩⟩
  | _ => exact .inl rfl

theorem Moved.session (hm : Moved sha256Hex s a event s') {session : UploadSession}
    (hget : s.sessions.get? upload = some session) :
    ∃ session', s'.sessions.get? upload = some session' ∧ SameFile session session' := by
  rcases Moved.sessions hm with heq | ⟨u, t', heq, hu⟩
  · exact ⟨session, heq ▸ hget, rfl, rfl, rfl⟩
  rw [heq]
  by_cases hupload : upload = u
  · subst hupload
    rcases hu with ⟨hnone, -⟩ | ⟨t, hu, hsame⟩
    · cases hget.symm.trans hnone
    · cases hget.symm.trans hu
      exact ⟨t', get?_set_self _ _ _, hsame⟩
  · exact ⟨session, (get?_set_of_ne _ _ hupload).trans hget, rfl, rfl, rfl⟩

theorem Moved.assembling_kept (h : ServiceOk s) (hm : Moved sha256Hex s a event s')
    {session : UploadSession} (hget : s.sessions.get? upload = some session)
    (hs : session.status = .assembling) (hcall : s'.assembles call = some upload) :
    s'.sessions.get? upload = some session := by
  have hset : ∀ {u t t'}, s.sessions.get? u = some t → t.status.acceptsChunks = true →
      (s.sessions.set u t').get? upload = some session := by
    intro u t t' hu haccepts
    refine (get?_set_of_ne _ _ ?_).trans hget
    rintro rfl
    cases hget.symm.trans hu
    rw [hs] at haccepts
    cases haccepts
  -- a call that stops to assemble `u`
  have hend : ∀ {u t t'} {k : Nat} {c : Call} {next : Option Call}, s.sessions.get? u = some t →
      s.calls.get? k = some c → c.assembles = some u → next.bind Call.assembles = none →
      ((s.calls.put k next).get? call).bind Call.assembles = some upload →
      (s.sessions.set u t').get? upload = some session := by
    intro u t t' k c next hu hk hc hnext hsome
    refine (get?_set_of_ne _ _ ?_).trans hget
    rintro rfl
    have hsome := (congrFun (bind_put Call.assembles s.calls k next) call).symm.trans hsome
    rw [Function.update_apply] at hsome
    split at hsome
    · rw [hnext] at hsome
      cases hsome
    · next hne =>
        exact hne (h.assemblers.exclusive call k upload hsome (by rw [assembles, hk]; exact hc))
  cases hm with
  | initiated _ _ _ _ _ _ _ _ _ _ hnone =>
    refine (get?_set_of_ne _ _ ?_).trans hget
    exact ne_of_eq_none hget hnone
  | reserved _ _ _ _ _ _ hu _ haccepts _ _ _ | recorded _ _ _ _ _ _ _ _ _ hu _ haccepts _
  | assembling _ _ _ _ hu _ haccepts => exact hset hu haccepts
  | dropped k u t i _ _ hu hk hwrites =>
    obtain ⟨t', ht', hi⟩ := h.reserved hk hwrites
    cases hu.symm.trans ht'
    exact hset hu (h.accepts u t hu (Finset.ne_empty_of_mem hi))
  | wentBack _ _ _ _ _ _ _ hu hk hc => exact hend hu hk hc rfl hcall
  | completed _ _ _ _ _ hu hk => exact hend hu hk rfl rfl hcall
  | released _ _ _ _ _ _ next _ hu hk hwhy _ hidle =>
    rcases hwhy with ⟨-, -, haccepts, -⟩ | ⟨-, -, haccepts, -⟩ | ⟨-, c, rfl, hc⟩
    · exact hset hu haccepts
    · exact hset hu haccepts
    · exact hend hu hk hc (show (some next).bind Call.assembles = none from hidle.2) hcall
  | scanned _ _ _ hu hholds =>
    refine (get?_set_of_ne _ _ ?_).trans hget
    rintro rfl
    cases hget.symm.trans hu
    rw [hs] at hholds
    cases hholds
  | _ => exact hget

theorem Moved.chunk_kept (h : ServiceOk s) (hm : Moved sha256Hex s a event s')
    (hcall : s.calls.get? call = some c) (hc : c.assembles = some upload)
    (hrelies : c.relies upload i = true) :
    s'.objects.get? (.chunk upload i) = s.objects.get? (.chunk upload i) := by
  obtain ⟨session, hget, hs⟩ := h.assembled hcall hc
  cases hm with
  | wrote k _ j _ _ hk =>
    apply get?_set_of_ne
    intro heq
    injection heq with hu _
    subst hu
    obtain ⟨t, ht, hj⟩ := h.reserved (w := (upload, j)) hk rfl
    cases hget.symm.trans ht
    have haccepts := h.accepts upload session hget (Finset.ne_empty_of_mem hj)
    rw [hs] at haccepts
    cases haccepts
  | composed =>
    apply get?_set_of_ne
    simp
  | deleted _ k u _ _ hk _ hcleans =>
    obtain ⟨t, ht, hholds⟩ := h.cleaner k u (by rw [cleans, hk]; exact hcleans)
    refine (get?_filterKeys _ _ _).trans (if_pos (decide_eq_true ?_))
    rintro rfl
    cases hget.symm.trans ht
    rw [hs] at hholds
    cases hholds
  | corrupted _ _ _ hnot hsame =>
    apply hsame
    intro heq
    injection heq with hu hj
    subst hu hj
    rw [hnot call c hcall] at hrelies
    cases hrelies
  | _ => rfl

theorem Moved.file_kept (hm : Moved sha256Hex s a event s') (upload : UploadId) :
    s'.objects.get? (.file upload) = s.objects.get? (.file upload) ∨
      ∃ call partKeys digest, s.calls.get? call = some (.composing upload partKeys digest) ∧
        s'.calls.get? call = some (.composed upload digest) := by
  cases hm with
  | wrote =>
    left
    apply get?_set_of_ne
    simp
  | composed k u partKeys digest _ hk =>
    by_cases hu : upload = u
    · subst hu
      exact .inr ⟨k, partKeys, digest, hk, (get?_put _ _ _ _).trans (if_pos rfl)⟩
    · left
      apply get?_set_of_ne
      simpa using hu
  | deleted =>
    exact .inl ((get?_filterKeys _ _ _).trans (if_pos rfl))
  | corrupted _ _ _ _ hsame => exact .inl (hsame _ (by simp))
  | _ => exact .inl rfl

/-! ## Calls that do not move -/

theorem verified_index {session : UploadSession} (hfull : session.Full)
    (hrecords : ∀ i info, session.chunks.get? i = some info →
      RecordOk sha256Hex trace upload session i info)
    {verified remaining : List ChunkInfo} (hordered : session.chunkList = verified ++ remaining)
    {chunk : ChunkInfo} (hchunk : chunk ∈ verified) :
    chunk.storageKey = .chunk upload chunk.index ∧ chunk.index ∉ remaining.map ChunkInfo.index := by
  have hindex : ∀ (j : Nat) (info : ChunkInfo), session.chunkList[j]? = some info →
      info.index = j ∧ info.storageKey = .chunk upload j := by
    intro j info hj
    have hrecord := hrecords j info (hfull.getElem? hj).2
    exact ⟨hrecord.index, hrecord.key⟩
  obtain ⟨j, hj, hget⟩ := mem_iff_getElem.mp hchunk
  have hthis := hindex j chunk (by
    rw [hordered, getElem?_append_left hj, getElem?_eq_getElem hj, hget])
  refine ⟨by rw [hthis.1]; exact hthis.2, fun hmem => ?_⟩
  obtain ⟨other, hother, heq⟩ := List.mem_map.mp hmem
  obtain ⟨k, hk, hget'⟩ := mem_iff_getElem.mp hother
  have hlast := hindex (verified.length + k) other (by
    rw [hordered, getElem?_append_right (Nat.le_add_right _ _), Nat.add_sub_cancel_left,
      getElem?_eq_getElem hk, hget'])
  rw [hlast.1, hthis.1] at heq
  omega

theorem AssemblyOk.call_kept (h : AssemblyOk sha256Hex trace s) (hs : ServiceOk s)
    (hm : Moved sha256Hex s a event s') (hcall : s.calls.get? call = some c)
    (hcall' : s'.calls.get? call = some c) (hworks : c.worksOn = some upload) :
    ∃ session, s'.sessions.get? upload = some session ∧
      CallOk sha256Hex (trace ++ [event]) s'.objects upload session c := by
  obtain ⟨session, hget, hok⟩ := h.calls call c upload hcall hworks
  by_cases hc : c.assembles = some upload
  case neg =>
    obtain ⟨session', hget', hsame⟩ := Moved.session hm hget
    refine ⟨session', hget', ?_⟩
    cases c with
    | putting | put => exact ⟨hok.1, by rw [hsame.bounds]; exact hok.2⟩
    | deleting | collecting | sweeping => cases hworks
    | _ => exact absurd hworks hc
  have hstatus := hs.status_of_assembles hcall hc hget
  have hassembles : s'.assembles call = some upload := by
    rw [assembles, hcall']
    exact hc
  have hget' := Moved.assembling_kept hs hm hget hstatus hassembles
  have hsame : SameFile session session := ⟨rfl, rfl, rfl⟩
  refine ⟨session, hget', ?_⟩
  cases c with
  | putting | put => cases hc
  | verifying u =>
    obtain rfl : u = upload := some.inj hc
    obtain ⟨hsize, hfull, hordered, verified, reads, hsplit, hreads, hwhole, hsha⟩ := hok
    refine ⟨hsize, hfull, hordered, verified, reads, hsplit, ?_, hwhole, hsha⟩
    rw [← hreads]
    apply map_congr_left
    intro chunk hchunk
    obtain ⟨hkey, hindex⟩ := verified_index hfull (h.sessions u session hget).chunks
      (hordered.symm.trans hsplit) hchunk
    rw [hkey]
    apply Moved.chunk_kept hs hm hcall rfl
    simp only [Call.relies, decide_eq_true_eq]
    exact ⟨trivial, hindex⟩
  | composing u =>
    obtain rfl : u = upload := some.inj hc
    obtain ⟨bodies, haccepted, hparts, hkeys, hdigest, hmatch⟩ := hok
    refine ⟨bodies, haccepted.mono hsame _, ?_, hkeys, hdigest, hmatch⟩
    rw [← hparts]
    apply map_congr_left
    intro key hkey
    obtain ⟨i, rfl⟩ := hkeys key hkey
    apply Moved.chunk_kept hs hm hcall rfl
    simp only [Call.relies, decide_eq_true_eq]
  | composed u =>
    obtain rfl : u = upload := some.inj hc
    obtain ⟨bodies, haccepted, hfile, hdigest, hmatch⟩ := hok
    refine ⟨bodies, haccepted.mono hsame _, ?_, hdigest, hmatch⟩
    rcases Moved.file_kept hm u with heq | ⟨k, partKeys, digest', hk, -⟩
    · exact heq.trans hfile
    · -- another call would assemble it
      obtain rfl := hs.assemblers.exclusive call k u (by rw [assembles, hcall]; rfl)
        (by rw [assembles, hk]; rfl)
      rw [hcall] at hk
      cases hk
  | deleting | collecting | sweeping => cases hc

/-! ## Sessions -/

theorem get?_forget (chunks : Dict Nat ChunkInfo) (forgotten : List Nat)
    (h : (forgotten.foldl (fun chunks i => chunks.erase i) chunks).get? i = some info) :
    chunks.get? i = some info := by
  induction forgotten generalizing chunks with
  | nil => exact h
  | cons _ _ ih => exact (get?_erase_some (ih _ h)).2

theorem HasFile.not_accepts {status : UploadState} (h : HasFile status) :
    status.holdsSlot = false ∧ status.acceptsChunks = false := by
  rcases h with rfl | rfl | rfl <;> exact ⟨rfl, rfl⟩

theorem AssemblyOk.session_kept (h : AssemblyOk sha256Hex trace s) (hs : ServiceOk s)
    (hm : Moved sha256Hex s a event s') (hget' : s'.sessions.get? upload = some session') :
    SessionOk sha256Hex (trace ++ [event]) s'.objects upload session' := by
  have hkept : ∀ {t}, s.sessions.get? upload = some t → SameFile t session' →
      (∀ i info, session'.chunks.get? i = some info → t.chunks.get? i = some info) →
      (HasFile session'.status → HasFile t.status ∧ session'.finalKey = t.finalKey ∧
        session'.finalSha256 = t.finalSha256) →
      SessionOk sha256Hex (trace ++ [event]) s'.objects upload session' := by
    intro t hold hsame hsub himp
    have ht := h.sessions upload t hold
    refine ⟨by rw [hsame.expected]; exact ht.expected,
      fun i info hinfo => (ht.chunks i info (hsub i info hinfo)).mono hsame _, fun hfile' => ?_⟩
    obtain ⟨hfile, hkey, hsha⟩ := himp hfile'
    obtain ⟨hkey', bodies, haccepted, hobject, hsha', hmatch⟩ := ht.file hfile
    refine ⟨hkey.trans hkey', bodies, haccepted.mono hsame _, ?_, hsha.trans hsha',
      (hsame.mismatch _).trans hmatch⟩
    rcases Moved.file_kept hm upload with heq | ⟨k, partKeys, digest, hk, -⟩
    · exact heq.trans hobject
    · have hassembling := hs.status_of_assembles hk rfl hold
      rw [hassembling] at hfile
      cases hfile.not_accepts.1
  have hother : s.sessions.get? upload = some session' →
      SessionOk sha256Hex (trace ++ [event]) s'.objects upload session' :=
    fun hold => hkept hold ⟨rfl, rfl, rfl⟩ (fun _ _ h => h) fun hfile => ⟨hfile, rfl, rfl⟩
  have hset : ∀ {u t t'}, s.sessions.get? u = some t →
      (s.sessions.set u t').get? upload = some session' → SameFile t t' →
      (∀ i info, t'.chunks.get? i = some info → t.chunks.get? i = some info) →
      (HasFile t'.status → HasFile t.status ∧ t'.finalKey = t.finalKey ∧
        t'.finalSha256 = t.finalSha256) →
      SessionOk sha256Hex (trace ++ [event]) s'.objects upload session' := by
    intro u t t' hu hset hsame hsub himp
    rcases get?_set_some hset with ⟨rfl, rfl⟩ | ⟨-, hold⟩
    · exact hkept hu hsame hsub himp
    · exact hother hold
  cases hm with
  | initiated _ _ _ _ _ _ _ _ _ hexpected =>
    rcases get?_set_some hget' with ⟨-, rfl⟩ | ⟨-, hold⟩
    · refine ⟨hexpected, fun _ _ hinfo => ?_, fun hfile => ?_⟩
      · cases hinfo
      · cases hfile.not_accepts.1
    · exact hother hold
  | reserved _ _ _ _ _ _ hu _ _ _ _ _ | dropped _ _ _ _ _ _ hu _ _ =>
    exact hset hu hget' ⟨rfl, rfl, rfl⟩ (fun _ _ h => h) fun hfile => ⟨hfile, rfl, rfl⟩
  | recorded call _ t _ data _ _ _ receipt hu hcall _ hstatus =>
    rcases get?_set_some hget' with ⟨rfl, rfl⟩ | ⟨-, hold⟩
    · have ht := h.sessions upload t hu
      refine ⟨ht.expected, fun i info hinfo => ?_, fun hfile => ?_⟩
      · rcases get?_set_some hinfo with ⟨rfl, rfl⟩ | ⟨-, hold⟩
        · obtain ⟨t', ht', hsha, hlength⟩ := h.calls call _ upload hcall rfl
          cases hu.symm.trans ht'
          exact ⟨rfl, rfl, data, ⟨⟨receipt, mem_append_right _ List.mem_cons_self⟩, hlength⟩, hsha⟩
        · exact (ht.chunks i info hold).mono (by constructor <;> rfl) _
      · rw [hstatus] at hfile
        cases hfile.not_accepts.1
    · exact hother hold
  | assembling _ _ _ _ hu =>
    exact hset hu hget' ⟨rfl, rfl, rfl⟩ (fun _ _ h => h) fun hfile => by cases hfile.not_accepts.1
  | wentBack _ _ _ _ _ _ _ hu _ _ _ hstays =>
    refine hset hu hget' ⟨rfl, rfl, rfl⟩ (fun _ _ h => get?_forget _ _ h) fun hfile => ?_
    rcases hstays with rfl | rfl
    · cases hfile.not_accepts.1
    · exact ⟨hfile, rfl, rfl⟩
  | completed call _ t _ _ hu hcall =>
    rcases get?_set_some hget' with ⟨rfl, rfl⟩ | ⟨-, hold⟩
    · have ht := h.sessions upload t hu
      obtain ⟨t', ht', bodies, haccepted, hobject, hdigest, hmatch⟩ :=
        h.calls call _ upload hcall rfl
      cases hu.symm.trans ht'
      subst hdigest
      exact ⟨ht.expected, fun i info hinfo =>
        (ht.chunks i info hinfo).mono (by constructor <;> rfl) _,
        fun _ => ⟨rfl, bodies, haccepted.mono (by constructor <;> rfl) _, hobject, rfl, hmatch⟩⟩
    · exact hother hold
  | released _ _ _ _ _ _ _ _ hu _ hwhy =>
    refine hset hu hget' ⟨rfl, rfl, rfl⟩ (fun _ _ h => h) fun hfile => ?_
    rcases hwhy with ⟨rfl, -⟩ | ⟨rfl, -⟩ | ⟨rfl, -⟩ <;> rcases hfile with h | h | h <;> cases h
  | scanned _ _ _ hu _ hold =>
    refine hset hu hget' ⟨rfl, rfl, rfl⟩ (fun _ _ h => h) fun _ => ⟨?_, rfl, rfl⟩
    simp only [List.mem_cons, not_mem_nil, or_false] at hold
    exact hold.imp_right .inr
  | _ => exact hother hget'

/-! ## Every step -/

theorem AssemblyOk.moved (h : AssemblyOk sha256Hex trace s) (hs : ServiceOk s)
    (hm : Moved sha256Hex s a event s') (call : Nat) (next : Option Call)
    (hcalls : s'.calls = s.calls.put call next)
    (hnext : ∀ c ∈ next, ∀ upload, c.worksOn = some upload →
      ∃ session, s'.sessions.get? upload = some session ∧
        CallOk sha256Hex (trace ++ [event]) s'.objects upload session c) :
    AssemblyOk sha256Hex (trace ++ [event]) s' := by
  refine ⟨fun _ _ hget => h.session_kept hs hm hget, fun k c upload hk hc => ?_⟩
  have hk' := hk
  rw [hcalls, get?_put] at hk'
  split at hk'
  · exact hnext c hk' upload hc
  · exact h.call_kept hs hm hk' hk hc

theorem AssemblyOk.moved_idle (h : AssemblyOk sha256Hex trace s) (hs : ServiceOk s)
    (hm : Moved sha256Hex s a event s') (call : Nat) (next : Option Call)
    (hcalls : s'.calls = s.calls.put call next) (hnext : ∀ c ∈ next, c.Idle) :
    AssemblyOk sha256Hex (trace ++ [event]) s' := by
  apply h.moved hs hm call next hcalls
  intro c hc upload hworks
  rw [Call.worksOn, (hnext c hc).1, (hnext c hc).2] at hworks
  cases hworks

theorem AssemblyOk.moved_none (h : AssemblyOk sha256Hex trace s) (hs : ServiceOk s)
    (hm : Moved sha256Hex s a event s') (hcalls : s'.calls = s.calls) :
    AssemblyOk sha256Hex (trace ++ [event]) s' := by
  obtain ⟨call, hcall⟩ := s.exists_new_call
  have hsame : s.calls.put call none = s.calls := Dict.ext (erase_eq_of_get?_none hcall)
  exact h.moved_idle hs hm call none (hcalls.trans hsame.symm) (by simp)

theorem mapM_eq_some {α β : Type} {f : α → Option β} {xs : List α} {ys : List β}
    (h : xs.mapM f = some ys) : xs.map f = ys.map some := by
  induction xs generalizing ys with
  | nil =>
    rw [mapM_nil] at h
    cases h
    rfl
  | cons _ _ ih =>
    rw [mapM_cons] at h
    simp only [bind_eq_bind, bind_eq_some_iff] at h
    obtain ⟨y, hy, zs, hzs, hys⟩ := h
    cases hys
    rw [List.map_cons, List.map_cons, hy, ih hzs]

theorem AssemblyOk.accepted (h : AssemblyOk sha256Hex trace s) (hinj : Function.Injective sha256Hex)
    {session : UploadSession} (hget : s.sessions.get? upload = some session)
    (hsize : session.chunkSize ≠ 0) (hfull : session.Full) {reads : List Bytes}
    (hsha : session.chunkList.map ChunkInfo.sha256 = reads.map sha256Hex) :
    Accepted trace upload session reads := by
  have hlength := congrArg List.length hsha
  rw [length_map, length_map, hfull.length] at hlength
  refine ⟨hsize, hlength.symm, fun i data hdata => ?_⟩
  have hi : i < session.chunkList.length := by
    have hlt := (List.getElem?_eq_some_iff.mp hdata).1
    rw [hfull.length]
    omega
  obtain ⟨info, hinfo⟩ : ∃ info, session.chunkList[i]? = some info :=
    ⟨_, getElem?_eq_getElem hi⟩
  obtain ⟨body, hbody, hrecorded⟩ :=
    ((h.sessions upload session hget).chunks i info (hfull.getElem? hinfo).2).body
  have hsame := congrArg (·[i]?) hsha
  simp only [getElem?_map, hinfo, hdata, map_some, Option.some.injEq] at hsame
  obtain rfl : data = body := hinj (hsame.symm.trans hrecorded)
  exact hbody

theorem Moved.assemblyOk (hinj : Function.Injective sha256Hex) (h : AssemblyOk sha256Hex trace s)
    (hs : ServiceOk s) (hm : Moved sha256Hex s a event s') :
    AssemblyOk sha256Hex (trace ++ [event]) s' := by
  have hm' := hm
  cases hm with
  | reserved call _ _ _ _ _ _ _ _ _ hlength =>
    apply h.moved hs hm' call (some _) rfl
    rintro _ ⟨⟩ _ ⟨⟩
    exact ⟨_, get?_set_self _ _ _, rfl, hlength⟩
  | wrote call upload index _ _ hcall =>
    apply h.moved hs hm' call (some _) rfl
    rintro _ ⟨⟩ _ ⟨⟩
    exact h.calls call _ upload hcall rfl
  | assembling call _ _ _ _ _ _ _ hsize hmissing hordered =>
    apply h.moved hs hm' call (some _) rfl
    rintro _ ⟨⟩ _ ⟨⟩
    refine ⟨_, get?_set_self _ _ _, hsize, fun i hi => ?_, hordered, [], [], rfl, rfl, rfl,
      fun _ => rfl⟩
    exact UploadSession.missingChunks_nil hmissing hi
  | verified call upload _ chunk _ _ _ data hcall hdata =>
    apply h.moved hs hm' call (some _) rfl
    rintro _ ⟨⟩ _ ⟨⟩
    obtain ⟨session, hget, hsize, hfull, hordered, verified, reads, hsplit, hreads, hwhole, hsha⟩ :=
      h.calls call _ upload hcall rfl
    refine ⟨session, hget, hsize, hfull, hordered, verified ++ [chunk], reads ++ [data], ?_, ?_, ?_,
      fun hnil => ?_⟩
    · rw [hsplit, append_assoc]
      rfl
    · rw [map_append, map_append, hreads]
      show _ ++ [s.objects.get? chunk.storageKey] = _
      rw [hdata]
      rfl
    · rw [hwhole, flatten_append, flatten_singleton]
    · split at hnil
      · simp at hnil
      · next hsame =>
          rw [map_append, map_append, hsha hnil, List.map_singleton, List.map_singleton,
            not_not.mp hsame]
  | composing call upload session ordered _ hget hcall hmatch =>
    apply h.moved hs hm' call (some _) rfl
    rintro _ ⟨⟩ _ ⟨⟩
    obtain ⟨t, ht, hsize, hfull, hordered, verified, reads, hsplit, hreads, hwhole, hsha⟩ :=
      h.calls call _ upload hcall rfl
    cases hget.symm.trans ht
    rw [append_nil] at hsplit
    subst hsplit
    have haccepted : Accepted trace upload session reads := by
      apply h.accepted hinj hget hsize hfull
      rw [← hordered]
      exact hsha rfl
    refine ⟨session, hget, reads, haccepted.mono (by constructor <;> rfl) _, ?_,
      fun key hkey => ?_, ?_, ?_⟩
    · rw [List.map_map]
      exact hreads
    · obtain ⟨chunk, hchunk, rfl⟩ := List.mem_map.mp hkey
      have hsplit : session.chunkList = ordered ++ [] := by
        rw [append_nil, hordered]
      exact ⟨chunk.index,
        (verified_index hfull (h.sessions upload session hget).chunks hsplit hchunk).1⟩
    · rw [hwhole]
    · exact hmatch
  | composed call upload _ _ parts hcall hparts =>
    apply h.moved hs hm' call (some _) rfl
    rintro _ ⟨⟩ _ ⟨⟩
    obtain ⟨session, hget, bodies, haccepted, hobjects, hkeys, hdigest, hmatch⟩ :=
      h.calls call _ upload hcall rfl
    have heq : parts = bodies := by
      apply map_injective_iff.mpr (some_injective Bytes)
      rw [← mapM_eq_some hparts, hobjects]
    subst heq
    exact ⟨session, hget, parts, haccepted.mono (by constructor <;> rfl) _, get?_set_self _ _ _,
      hdigest, hmatch⟩
  | recorded call | dropped call | wentBack call =>
    exact h.moved_idle hs hm' call none rfl (by simp)
  | completed call =>
    apply h.moved_idle hs hm' call (some _) rfl
    rintro _ ⟨⟩
    exact ⟨rfl, rfl⟩
  | released call _ _ _ _ _ next _ _ _ _ _ hidle =>
    apply h.moved_idle hs hm' call (some next) rfl
    rintro _ ⟨⟩
    exact hidle
  | idle _ call old next hcall hold hnext _ _
  | deleted _ call _ c next _ _ _ hnext =>
    apply h.moved_idle hs hm' call next rfl
    intro c hc
    obtain ⟨remaining, expired, rfl⟩ := hnext c hc
    exact ⟨rfl, rfl⟩
  | _ => exact h.moved_none hs hm' rfl

/-! ## Runs -/

theorem new_assemblyOk (policy : UploadPolicy) : AssemblyOk sha256Hex [] (new policy) := by
  constructor
  · intro upload session h
    cases h
  · intro call c upload h
    cases h

/-- What the sessions, the calls and the storage have after a run is of its accepted chunks. -/
theorem run_assemblyOk (hinj : Function.Injective sha256Hex) {policy : UploadPolicy}
    {as : List UploadStep} (hrun : runSteps (step sha256Hex) (new policy) as = .ok (trace, s)) :
    AssemblyOk sha256Hex trace s := by
  have hstep : ∀ (as : List UploadStep) (os : List UploadEvent) t a o t',
      runSteps (step sha256Hex) (new policy) as = .ok (os, t) → AssemblyOk sha256Hex os t → True →
        step sha256Hex t a = .ok (o, t') → AssemblyOk sha256Hex (os ++ [o]) t' :=
    fun as os t a o t' hrun ht _ hok =>
      Moved.assemblyOk hinj ht (run_serviceOk hrun).1 (step_moved hok)
  exact runSteps_keeps (C := fun _ _ => True) (fun _ os t => AssemblyOk sha256Hex os t) hstep
    (new_assemblyOk policy) (.of_forall (fun _ _ => trivial) _ _) hrun

theorem Accepted.length_flatten {session : UploadSession} {bodies : List Bytes}
    (h : Accepted trace upload session bodies) : bodies.flatten.length = session.fileSize := by
  have hlengths : bodies.map List.length = (List.range session.totalChunks).map fun i =>
      (session.chunkBounds i).2 - (session.chunkBounds i).1 := by
    apply ext_getElem?
    intro i
    rw [getElem?_map, getElem?_map]
    cases hdata : bodies[i]? with
    | none =>
      have hlength := List.getElem?_eq_none_iff.mp hdata
      rw [h.length] at hlength
      rw [getElem?_eq_none (by rw [length_range]; exact hlength)]
      rfl
    | some data =>
      have hi := (List.getElem?_eq_some_iff.mp hdata).1
      rw [h.length] at hi
      rw [getElem?_range hi, map_some, map_some, (h.body i data hdata).2]
  have hsize := le_ceilDiv_mul session.fileSize h.size
  rw [List.length_flatten, hlengths, sum_chunkBounds, UploadSession.totalChunks]
  omega

theorem highChar_toNat (byte : UInt8) :
    (Char.ofNat (byte.toNat + 256)).toNat = byte.toNat + 256 := by
  have hlt := byte.toNat_lt
  have hvalid : (byte.toNat + 256).isValidChar := Or.inl (by omega)
  rw [Char.ofNat, dif_pos hvalid]
  exact UInt32.toNat_ofNatLT ..

theorem highChar_injective : Function.Injective fun byte : UInt8 =>
    Char.ofNat (byte.toNat + 256) := by
  intro x y h
  have hnat := congrArg Char.toNat h
  simp only [highChar_toNat] at hnat
  exact UInt8.toNat_inj.mp (by omega)

theorem highText_ne {digest : String} {c : Char} {cs : List Char}
    (hdigest : digest.toList = c :: cs)
    (hc : c.toNat < 256) (data : Bytes) :
    String.ofList (data.map fun byte => Char.ofNat (byte.toNat + 256)) ≠ digest := by
  intro heq
  have hlist := congrArg String.toList heq
  rw [String.toList_ofList, hdigest] at hlist
  cases data with
  | nil => cases hlist
  | cons byte =>
    rw [List.map_cons, List.cons.injEq] at hlist
    have hnat := highChar_toNat byte
    rw [hlist.1] at hnat
    omega

theorem sampleSha256_injective : Function.Injective sampleSha256 := by
  intro x y h
  have hx := fun digest c cs hd hc => @highText_ne digest c cs hd hc x
  have hy := fun digest c cs hd hc => @highText_ne digest c cs hd hc y
  unfold sampleSha256 at h
  split_ifs at h with h1 h2 h3 h4 h5 h6
  all_goals first
    | exact absurd h (by decide)
    | exact absurd h (hx _ _ _ rfl (by decide))
    | exact absurd h.symm (hy _ _ _ rfl (by decide))
    | exact map_injective_iff.mpr highChar_injective (String.ofList_injective h)
    | simp_all
/-- The chunks of `ab` arrive out of order, the second one twice. -/
def twoChunks : List UploadStep :=
  [.initiate "ada" "ab.txt" 2 (some (sampleSha256 [97, 98])) none 0 0,
    .uploadChunk 0 0 1 [98] (sampleSha256 [98]) 1, .write 0, .resume 0 2,
    .uploadChunk 1 0 0 [97] (sampleSha256 [97]) 3, .uploadChunk 2 0 1 [98] (sampleSha256 [98]) 3,
    .write 1, .resume 1 4, .complete 2 0 5, .resume 2 5, .resume 2 5, .resume 2 5, .write 2,
    .resume 2 6]

end UploadService

end InterviewPrep.Uploads
