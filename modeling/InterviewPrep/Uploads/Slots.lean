/-
  Slots, reservations and assemblies (`ServiceOk`): a user's slots are held by the uploads
  whose status holds one, a chunk is reserved while one call writes it, an upload is being
  assembled by one call, and its chunks are deleted when it is over.
-/
import InterviewPrep.Uploads.Steps
import InterviewPrep.Lib.Holdings
import Mathlib.Data.Fintype.EquivFin

namespace InterviewPrep.Uploads

open Lib Dict Finset Function Option

namespace UploadService

variable {sha256Hex : Bytes → String} {s s' : UploadService} {event : UploadEvent} {a : UploadStep}
  {call : Nat} {old next : Option Call} {upload : UploadId} {session session' : UploadSession}
  {limiter : UploadLimiter}

/-! ## The invariant -/

/-- The chunk that a call has reserved. -/
def writes (s : UploadService) (call : Nat) : Option (UploadId × Nat) :=
  (s.calls.get? call).bind Call.writes

def assembles (s : UploadService) (call : Nat) : Option UploadId :=
  (s.calls.get? call).bind Call.assembles

def cleans (s : UploadService) (call : Nat) : Option UploadId :=
  (s.calls.get? call).bind Call.cleans

def Reserved (sessions : Dict UploadId UploadSession) (w : UploadId × Nat) : Prop :=
  ∃ session, sessions.get? w.1 = some session ∧ w.2 ∈ session.inflight

def Assembling (sessions : Dict UploadId UploadSession) (upload : UploadId) : Prop :=
  ∃ session, sessions.get? upload = some session ∧ session.status = .assembling

structure ServiceOk (s : UploadService) : Prop where
  slot : ∀ user upload, upload ∈ s.limiter.active user ↔
    ∃ session, s.sessions.get? upload = some session ∧ session.userId = user ∧
      session.status.holdsSlot = true
  limit : ∀ user, (s.limiter.active user).card ≤ s.policy.maxConcurrentUploads
  accepts : ∀ upload session, s.sessions.get? upload = some session → session.inflight ≠ ∅ →
    session.status.acceptsChunks = true
  writers : Owned s.writes (Reserved s.sessions)
  assemblers : Owned s.assembles (Assembling s.sessions)
  cleaner : ∀ call upload, s.cleans call = some upload →
    ∃ session, s.sessions.get? upload = some session ∧ session.status.holdsSlot = false

theorem new_serviceOk (policy : UploadPolicy) : ServiceOk (new policy) where
  slot user upload := by simp [new, UploadLimiter.new]
  limit user := by simp [new, UploadLimiter.new]
  accepts _ _ h := by cases h
  writers := ⟨exclusive_none, fun _ => iff_of_false not_held_none fun ⟨_, h, _⟩ => nomatch h⟩
  assemblers := ⟨exclusive_none, fun _ => iff_of_false not_held_none fun ⟨_, h, _⟩ => nomatch h⟩
  cleaner _ _ h := by cases h

/-! ## Reservations and assemblies -/

theorem ServiceOk.reserved (h : ServiceOk s) {c : Call} {w : UploadId × Nat}
    (hcall : s.calls.get? call = some c) (hc : c.writes = some w) : Reserved s.sessions w :=
  (h.writers.held w).mp ⟨call, by rw [writes, hcall]; exact hc⟩

theorem ServiceOk.assembled (h : ServiceOk s) {c : Call} (hcall : s.calls.get? call = some c)
    (hc : c.assembles = some upload) : Assembling s.sessions upload :=
  (h.assemblers.held upload).mp ⟨call, by rw [assembles, hcall]; exact hc⟩

theorem ServiceOk.status_of_assembles (h : ServiceOk s) {c : Call}
    (hcall : s.calls.get? call = some c) (hc : c.assembles = some upload)
    (hget : s.sessions.get? upload = some session) : session.status = .assembling := by
  obtain ⟨t, ht, hs⟩ := h.assembled hcall hc
  cases hget.symm.trans ht
  exact hs

theorem bind_put {α : Type} (f : Call → Option α) (calls : Dict Nat Call) (call : Nat)
    (next : Option Call) : (fun k => ((calls.put call next).get? k).bind f) =
      Function.update (fun k => (calls.get? k).bind f) call (next.bind f) := by
  funext k
  rw [get?_put, update_apply]
  split <;> rfl

section

variable {sessions : Dict UploadId UploadSession} {upload : UploadId}
  {session session' : UploadSession}
  (hget : sessions.get? upload = some session)

include hget

theorem reserved_same (h : session'.inflight = session.inflight) (w : UploadId × Nat) :
    Reserved (sessions.set upload session') w ↔ Reserved sessions w := by
  rw [Reserved, Reserved, get?_set]
  split
  next hw => simp [hw, hget, h]
  next => rfl

theorem reserved_insert {i : Nat} (h : session'.inflight = insert i session.inflight)
    (w : UploadId × Nat) :
    Reserved (sessions.set upload session') w ↔ w = (upload, i) ∨ Reserved sessions w := by
  rw [Reserved, Reserved, get?_set, Prod.ext_iff]
  split
  next hw => simp [hw, hget, h]
  next hw => simp [hw]

theorem reserved_erase {i : Nat} (h : session'.inflight = session.inflight.erase i)
    (w : UploadId × Nat) :
    Reserved (sessions.set upload session') w ↔ Reserved sessions w ∧ w ≠ (upload, i) := by
  rw [Reserved, Reserved, get?_set, Ne, Prod.ext_iff]
  split
  next hw => simp [hw, hget, h, and_comm]
  next hw => simp [hw]

theorem assembling_same (h : session'.status = .assembling ↔ session.status = .assembling)
    (u : UploadId) : Assembling (sessions.set upload session') u ↔ Assembling sessions u := by
  rw [Assembling, Assembling, get?_set]
  split
  next hu => simp [hu, hget, h]
  next => rfl

omit hget in
theorem assembling_begun (h : session'.status = .assembling) (u : UploadId) :
    Assembling (sessions.set upload session') u ↔ u = upload ∨ Assembling sessions u := by
  rw [Assembling, Assembling, get?_set]
  split
  next hu => simp [hu, h]
  next hu => simp [hu]

omit hget in
theorem assembling_ended (h : session'.status ≠ .assembling) (u : UploadId) :
    Assembling (sessions.set upload session') u ↔ Assembling sessions u ∧ u ≠ upload := by
  rw [Assembling, Assembling, get?_set]
  split
  next hu => simp [hu, h]
  next hu => simp [hu]

end

/-! ## A call goes on -/

theorem ServiceOk.goOn (h : ServiceOk s) (hcall : s.calls.get? call = old)
    (hw : next.bind Call.writes = old.bind Call.writes)
    (ha : next.bind Call.assembles = old.bind Call.assembles) (hc : next.bind Call.cleans = none)
    (objects : Dict Key Bytes) :
    ServiceOk { s with objects, calls := s.calls.put call next } := by
  subst hcall
  have hwrites := bind_put Call.writes s.calls call next
  have hassembles := bind_put Call.assembles s.calls call next
  rw [hw] at hwrites
  rw [ha] at hassembles
  refine ⟨h.slot, h.limit, h.accepts, ?_, ?_, fun k upload hk => ?_⟩
  · exact h.writers.of_eq (hwrites.trans (update_eq_self call s.writes))
  · exact h.assemblers.of_eq (hassembles.trans (update_eq_self call s.assembles))
  · have hk' := (congrFun (bind_put Call.cleans s.calls call next) k).symm.trans hk
    rw [update_apply, hc] at hk'
    split at hk'
    · cases hk'
    · exact h.cleaner k upload hk'

theorem ServiceOk.together (h : ServiceOk s)
    (hget : s.sessions.get? upload = some session)
    (hcall : s.calls.get? call = old) (huser : session'.userId = session.userId)
    (hreleased : session.status.holdsSlot = false → session'.status.holdsSlot = false)
    (haccepts : session'.inflight ≠ ∅ → session'.status.acceptsChunks = true)
    (hwrites : Exchange (Reserved s.sessions) (Reserved (s.sessions.set upload session'))
      (old.bind Call.writes) (next.bind Call.writes))
    (hassembles : Exchange (Assembling s.sessions) (Assembling (s.sessions.set upload session'))
      (old.bind Call.assembles) (next.bind Call.assembles))
    (hcleans : ∀ u, next.bind Call.cleans = some u → u = upload ∧ session'.status.holdsSlot = false)
    (hslot : ∀ user u, u ∈ limiter.active user ↔
      if u = upload then user = session.userId ∧ session'.status.holdsSlot = true
      else u ∈ s.limiter.active user)
    (hlimit : ∀ user, (limiter.active user).card ≤ (s.limiter.active user).card) :
    ServiceOk { s with
      limiter, sessions := s.sessions.set upload session',
      calls := s.calls.put call next } := by
  subst hcall
  have hself : (s.sessions.set upload session').get? upload = some session' := get?_set_self _ _ _
  have hother : ∀ u, u ≠ upload → (s.sessions.set upload session').get? u = s.sessions.get? u :=
    fun u hu => get?_set_of_ne _ _ hu
  refine ⟨fun user u => ?_, fun user => Nat.le_trans (hlimit user) (h.limit user),
    fun u t hu hne => ?_,
    (h.writers.exchange hwrites).of_eq (bind_put Call.writes s.calls call next),
    (h.assemblers.exchange hassembles).of_eq (bind_put Call.assembles s.calls call next),
    fun k u hk => ?_⟩
  · show u ∈ limiter.active user ↔ _
    rw [hslot]
    by_cases hu : u = upload
    · subst hu
      rw [if_pos rfl]
      constructor
      · rintro ⟨rfl, hholds⟩
        exact ⟨session', hself, huser, hholds⟩
      · rintro ⟨t, ht', rfl, hholds⟩
        cases hself.symm.trans ht'
        exact ⟨huser, hholds⟩
    · rw [if_neg hu, h.slot]
      simp only [hother u hu]
  · rcases get?_set_some hu with ⟨-, rfl⟩ | ⟨-, hu⟩
    · exact haccepts hne
    · exact h.accepts u t hu hne
  · have hk' := (congrFun (bind_put Call.cleans s.calls call next) k).symm.trans hk
    rw [update_apply] at hk'
    split at hk'
    · obtain ⟨rfl, hs⟩ := hcleans u hk'
      exact ⟨session', hself, hs⟩
    · obtain ⟨t, hu, hs⟩ := h.cleaner k u hk'
      by_cases huu : u = upload
      · subst huu
        cases hget.symm.trans hu
        exact ⟨session', hself, hreleased hs⟩
      · exact ⟨t, (hother u huu).trans hu, hs⟩

/-! ## Slots -/

theorem startUpload_ok {limiter' : UploadLimiter} {policy : UploadPolicy} {user : UserId}
    {size : Nat} {now : ℚ} (h : limiter.startUpload policy user upload size now = .ok limiter') :
    (limiter.active user).card < policy.maxConcurrentUploads ∧
      limiter.quotaUsed user (day now) + size ≤ policy.dailyQuotaBytes ∧ limiter' = { limiter with
        active := Function.update limiter.active user (insert upload (limiter.active user))
        quotaUsed := Function.update limiter.quotaUsed user
          (Function.update (limiter.quotaUsed user) (day now)
            (limiter.quotaUsed user (day now) + size)) } := by
  unfold UploadLimiter.startUpload at h
  dsimp only at h
  split at h
  · cases h
  · next =>
      split at h
      · cases h
      · next =>
          cases h
          exact ⟨by omega, by omega, rfl⟩

theorem finishUpload_active (limiter : UploadLimiter) (user : UserId) (upload : UploadId)
    (refund : Nat) (now : ℚ) : (limiter.finishUpload user upload refund now).active =
      Function.update limiter.active user ((limiter.active user).erase upload) := by
  unfold UploadLimiter.finishUpload
  dsimp only
  split
  · next hnot => rw [erase_eq_of_notMem hnot, update_eq_self]
  · split <;> rfl

theorem finishUpload_card (limiter : UploadLimiter) (user : UserId) (upload : UploadId)
    (refund : Nat) (now : ℚ) (v : UserId) :
    ((limiter.finishUpload user upload refund now).active v).card ≤ (limiter.active v).card := by
  rw [finishUpload_active]
  by_cases hv : v = user
  · subst hv
    rw [update_self]
    exact card_erase_le
  · rw [update_of_ne hv]

theorem ServiceOk.together_same (h : ServiceOk s) (hget : s.sessions.get? upload = some session)
    (hcall : s.calls.get? call = old) (huser : session'.userId = session.userId)
    (hholds : session'.status.holdsSlot = session.status.holdsSlot)
    (haccepts : session'.inflight ≠ ∅ → session'.status.acceptsChunks = true)
    (hwrites : Exchange (Reserved s.sessions) (Reserved (s.sessions.set upload session'))
      (old.bind Call.writes) (next.bind Call.writes))
    (hassembles : Exchange (Assembling s.sessions) (Assembling (s.sessions.set upload session'))
      (old.bind Call.assembles) (next.bind Call.assembles))
    (hcleans : next.bind Call.cleans = none) (buckets : UserId → Option TokenBucket) :
    ServiceOk { s with
      limiter := { s.limiter with buckets }, sessions := s.sessions.set upload session'
      calls := s.calls.put call next } := by
  refine h.together hget hcall huser hholds.trans haccepts hwrites hassembles
    (fun u hu => nomatch hcleans.symm.trans hu) (fun user u => ?_) fun _ => Nat.le_refl _
  by_cases hu : u = upload
  · subst hu
    rw [if_pos rfl, h.slot, hholds]
    constructor
    · rintro ⟨t, ht, rfl, hs⟩
      cases hget.symm.trans ht
      exact ⟨rfl, hs⟩
    · rintro ⟨rfl, hs⟩
      exact ⟨session, hget, rfl, hs⟩
  · rw [if_neg hu]

theorem ServiceOk.free_slot (h : ServiceOk s) (hget : s.sessions.get? upload = some session)
    {status : UploadState} (hholds : status.holdsSlot = false) (refund : Nat) (now : ℚ)
    (user : UserId) (u : UploadId) :
    u ∈ (s.limiter.finishUpload session.userId upload refund now).active user ↔
      if u = upload then user = session.userId ∧ status.holdsSlot = true
      else u ∈ s.limiter.active user := by
  rw [finishUpload_active, hholds]
  by_cases huser : user = session.userId
  · rw [huser, update_self, mem_erase]
    by_cases hu : u = upload
    · simp [hu]
    · simp [hu]
  rw [update_of_ne huser]
  by_cases hu : u = upload
  · subst hu
    rw [if_pos rfl, h.slot]
    constructor
    · rintro ⟨t, ht, hne, -⟩
      cases hget.symm.trans ht
      exact absurd hne.symm huser
    · rintro ⟨-, hfalse⟩
      cases hfalse
  · rw [if_neg hu]

theorem ServiceOk.initiated (h : ServiceOk s) {size : Nat} {now : ℚ}
    (hnone : s.sessions.get? upload = none)
    (hstart : s.limiter.startUpload s.policy session.userId upload size now = .ok limiter)
    (hstatus : session.status = .initiated) (hinflight : session.inflight = ∅) :
    ServiceOk { s with limiter, sessions := s.sessions.set upload session } := by
  obtain ⟨hcard, -, rfl⟩ := startUpload_ok hstart
  have hself : (s.sessions.set upload session).get? upload = some session := get?_set_self _ _ _
  have hkeep : ∀ {u t}, s.sessions.get? u = some t →
      (s.sessions.set upload session).get? u = some t := by
    intro u t ht
    apply (get?_set_of_ne _ _ _).trans ht
    exact ne_of_eq_none ht hnone
  constructor
  · intro user u
    show u ∈ Function.update s.limiter.active session.userId
      (insert upload (s.limiter.active session.userId)) user ↔ _
    by_cases hu : u = upload
    · subst hu
      have hnot : ∀ v, u ∉ s.limiter.active v := by
        intro v hmem
        obtain ⟨t, ht, -⟩ := (h.slot v u).mp hmem
        rw [hnone] at ht
        cases ht
      by_cases huser : user = session.userId
      · subst huser
        rw [update_self]
        simp only [Finset.mem_insert_self, true_iff]
        exact ⟨session, hself, rfl, by rw [hstatus]; rfl⟩
      rw [update_of_ne huser]
      constructor
      · intro hmem
        exact absurd hmem (hnot user)
      · rintro ⟨t, ht, hne, -⟩
        cases hself.symm.trans ht
        exact absurd hne.symm huser
    · have hget : (s.sessions.set upload session).get? u = s.sessions.get? u :=
        get?_set_of_ne _ _ hu
      simp only [hget]
      rw [← h.slot]
      by_cases huser : user = session.userId
      · subst huser
        rw [update_self, mem_insert]
        exact ⟨fun hmem => hmem.resolve_left hu, Or.inr⟩
      · rw [update_of_ne huser]
  · intro user
    show (Function.update s.limiter.active session.userId
      (insert upload (s.limiter.active session.userId)) user).card ≤ _
    by_cases huser : user = session.userId
    · subst huser
      rw [update_self]
      have hinsert := card_insert_le upload (s.limiter.active session.userId)
      show _ ≤ s.policy.maxConcurrentUploads
      omega
    · rw [update_of_ne huser]
      exact h.limit user
  · intro u t hu hne
    rcases get?_set_some hu with ⟨-, rfl⟩ | ⟨-, hu⟩
    · exact absurd hinflight hne
    · exact h.accepts u t hu hne
  · refine ⟨h.writers.exclusive, fun w => (h.writers.held w).trans ⟨?_, ?_⟩⟩
    · rintro ⟨t, ht, hi⟩
      exact ⟨t, hkeep ht, hi⟩
    · rintro ⟨t, ht, hi⟩
      rcases get?_set_some ht with ⟨-, rfl⟩ | ⟨-, ht⟩
      · rw [hinflight] at hi
        cases hi
      · exact ⟨t, ht, hi⟩
  · refine ⟨h.assemblers.exclusive, fun u => (h.assemblers.held u).trans ⟨?_, ?_⟩⟩
    · rintro ⟨t, ht, hs⟩
      exact ⟨t, hkeep ht, hs⟩
    · rintro ⟨t, ht, hs⟩
      rcases get?_set_some ht with ⟨-, rfl⟩ | ⟨-, ht⟩
      · cases hstatus.symm.trans hs
      · exact ⟨t, ht, hs⟩
  · intro k u hk
    obtain ⟨t, ht, hs⟩ := h.cleaner k u hk
    exact ⟨t, hkeep ht, hs⟩

/-! ## Every step -/

theorem exists_new_call (s : UploadService) : ∃ call, s.calls.get? call = none := by
  obtain ⟨call, hcall⟩ := Infinite.exists_notMem_finset s.calls.keys.toFinset
  exact ⟨call, get?_eq_none.mpr fun hmem => hcall (List.mem_toFinset.mpr hmem)⟩

theorem Idle.none {c : Option Call} (h : ∀ d ∈ c, d.Idle) :
    c.bind Call.writes = Option.none ∧ c.bind Call.assembles = Option.none := by
  cases c with
  | none => exact ⟨rfl, rfl⟩
  | some d => exact h d rfl

theorem collecting_idle (h : ∀ c ∈ next, ∃ remaining expired, c = .collecting remaining expired) :
    next.bind Call.writes = none ∧ next.bind Call.assembles = none ∧
      next.bind Call.cleans = none := by
  cases next with
  | none => exact ⟨rfl, rfl, rfl⟩
  | some c =>
    obtain ⟨remaining, expired, rfl⟩ := h c rfl
    exact ⟨rfl, rfl, rfl⟩

theorem ServiceOk.goOn_idle (h : ServiceOk s) (hcall : s.calls.get? call = old)
    (hold : ∀ c ∈ old, c.Idle)
    (hnext : ∀ c ∈ next, ∃ remaining expired, c = .collecting remaining expired)
    (objects : Dict Key Bytes) :
    ServiceOk { s with objects, calls := s.calls.put call next } := by
  obtain ⟨hw, ha⟩ := Idle.none hold
  obtain ⟨hw', ha', hc⟩ := collecting_idle hnext
  exact h.goOn hcall (hw'.trans hw.symm) (ha'.trans ha.symm) hc objects

theorem not_assembling (h : session.status.acceptsChunks = true) :
    session.status ≠ .assembling := by
  intro heq
  rw [heq] at h
  cases h

theorem ServiceOk.inflight_empty (h : ServiceOk s) (hget : s.sessions.get? upload = some session)
    (haccepts : session.status.acceptsChunks = false) : session.inflight = ∅ := by
  by_contra hne
  cases haccepts.symm.trans (h.accepts upload session hget hne)

theorem Moved.serviceOk (h : ServiceOk s) (hm : Moved sha256Hex s a event s') : ServiceOk s' := by
  cases hm with
  | rejected error buckets | corrupted upload index objects _ _ =>
    exact ⟨h.slot, h.limit, h.accepts, h.writers, h.assemblers, h.cleaner⟩
  | answered => exact h
  | initiated _ _ _ _ _ _ _ _ _ _ hnone hstart =>
    exact h.initiated hnone hstart rfl rfl
  | reserved _ _ _ _ _ _ hget hcall haccepts _ _ hnot =>
    apply h.together_same hget hcall
    · rfl
    · rfl
    · exact fun _ => haccepts
    · refine .take ?_ (reserved_insert hget rfl)
      rintro ⟨t, ht, hi⟩
      cases hget.symm.trans ht
      exact hnot hi
    · exact .same (assembling_same hget Iff.rfl)
    · rfl
  | wrote call upload index data sha256 hcall
  | composing call upload session ordered whole hget hcall hmatch
  | composed _ _ _ _ _ hcall => apply h.goOn hcall <;> rfl
  | recorded _ _ _ _ _ _ _ _ _ hget hcall haccepts hstatus =>
    subst hstatus
    apply h.together_same hget hcall
    · rfl
    · exact (UploadState.holdsSlot_of_acceptsChunks haccepts).symm
    · exact fun _ => rfl
    · exact .drop (reserved_erase hget rfl)
    · exact .same (assembling_same hget (iff_of_false (by rintro ⟨⟩) (not_assembling haccepts)))
    · rfl
  | dropped call upload session index c _ hget hcall hwrites =>
    have hi : index ∈ session.inflight := by
      obtain ⟨t, ht, hi⟩ := h.reserved hcall hwrites
      cases hget.symm.trans ht
      exact hi
    apply h.together_same hget hcall
    · rfl
    · rfl
    · exact fun _ => h.accepts upload session hget (ne_empty_of_mem hi)
    · rw [bind_some, hwrites]
      exact .drop (reserved_erase hget rfl)
    · have hidle : c.assembles = none := by
        by_contra hne
        obtain ⟨u, hu⟩ := ne_none_iff_exists'.mp hne
        cases hwrites.symm.trans (Call.writes_of_assembles hu)
      rw [bind_some, hidle]
      exact .same (assembling_same hget Iff.rfl)
    · rfl
  | assembling _ _ _ _ hget hcall haccepts hinflight =>
    apply h.together_same hget hcall
    · rfl
    · exact (UploadState.holdsSlot_of_acceptsChunks haccepts).symm
    · exact fun hne => absurd hinflight hne
    · exact .same (reserved_same hget rfl)
    · refine .take ?_ (assembling_begun rfl)
      rintro ⟨t, ht, hs⟩
      cases hget.symm.trans ht
      exact not_assembling haccepts hs
    · rfl
  | verified _ _ _ _ _ _ _ _ hcall =>
    apply h.goOn hcall <;> rfl
  | wentBack _ _ _ _ _ _ _ hget hcall hassembles hback =>
    have hs := h.status_of_assembles hcall hassembles hget
    obtain rfl := hback hs
    apply h.together_same hget hcall
    · rfl
    · rw [hs]
      rfl
    · exact fun _ => rfl
    · rw [bind_some, Call.writes_of_assembles hassembles]
      exact .same (reserved_same hget rfl)
    · rw [bind_some, hassembles]
      exact .drop (assembling_ended (by rintro ⟨⟩))
    · rfl
  | completed _ _ _ _ now hget hcall =>
    have hs := h.status_of_assembles hcall rfl hget
    apply h.together hget hcall
    · rfl
    · exact fun _ => rfl
    · exact fun hne => absurd (h.inflight_empty hget (by rw [hs]; rfl)) hne
    · exact .same (reserved_same hget rfl)
    · exact .drop (assembling_ended (by rintro ⟨⟩))
    · rintro _ ⟨⟩
      exact ⟨rfl, rfl⟩
    · exact h.free_slot hget (show UploadState.completed.holdsSlot = false from rfl) 0 now
    · exact finishUpload_card _ _ _ _ _
  | released _ upload session old status _ _ now hget hcall hwhy _ hidle hcleans =>
    have hfinal : status.holdsSlot = false ∧ status ≠ .assembling := by
      rcases hwhy with ⟨rfl, -⟩ | ⟨rfl, -⟩ | ⟨rfl, -⟩ <;> exact ⟨rfl, by simp⟩
    -- an upload that is released is assembled by the call, or by none
    obtain ⟨hinflight, hwrites, hassembles⟩ :
        session.inflight = ∅ ∧ old.bind Call.writes = none ∧
          (old.bind Call.assembles = none ∧ session.status ≠ .assembling ∨
            old.bind Call.assembles = some upload) := by
      rcases hwhy with ⟨-, rfl, haccepts, hempty⟩ | ⟨-, ⟨remaining, expired, rfl⟩,
        haccepts, hempty⟩ |
        ⟨-, c, rfl, hc⟩
      · exact ⟨hempty, rfl, .inl ⟨rfl, not_assembling haccepts⟩⟩
      · exact ⟨hempty, rfl, .inl ⟨rfl, not_assembling haccepts⟩⟩
      · have hs := h.status_of_assembles hcall hc hget
        exact ⟨h.inflight_empty hget (by rw [hs]; rfl), Call.writes_of_assembles hc, .inr hc⟩
    apply h.together hget hcall
    · rfl
    · exact fun _ => hfinal.1
    · exact fun hne => absurd hinflight hne
    · rw [hwrites, bind_some, hidle.1]
      exact .same (reserved_same hget rfl)
    · rw [bind_some, hidle.2]
      rcases hassembles with ⟨ha, hs⟩ | ha
      · rw [ha]
        exact .same (assembling_same hget (iff_of_false hfinal.2 hs))
      · rw [ha]
        exact .drop (assembling_ended hfinal.2)
    · intro u hu
      exact ⟨(some.inj (hcleans.symm.trans hu)).symm, hfinal.1⟩
    · exact h.free_slot hget hfinal.1 _ now
    · exact finishUpload_card _ _ _ _ _
  | scanned upload session status hget hholds _ hstatus =>
    obtain ⟨call, hcall⟩ := s.exists_new_call
    have hfinal : status.holdsSlot = false ∧ status ≠ .assembling := by
      simp only [List.mem_cons, List.not_mem_nil, or_false] at hstatus
      rcases hstatus with rfl | rfl <;> exact ⟨rfl, by simp⟩
    have hcalls : s.calls.put call none = s.calls :=
      Dict.ext (erase_eq_of_get?_none hcall)
    rw [← hcalls]
    apply h.together_same hget hcall
    · rfl
    · exact hfinal.1.trans hholds.symm
    · intro hne
      have hopen := UploadState.holdsSlot_of_acceptsChunks (h.accepts upload session hget hne)
      cases hopen.symm.trans hholds
    · exact .same (reserved_same hget rfl)
    · refine .same (assembling_same hget (iff_of_false hfinal.2 fun hs => ?_))
      rw [hs] at hholds
      cases hholds
    · rfl
  | idle _ _ _ _ hcall hold hnext => exact h.goOn_idle hcall hold hnext _
  | deleted _ _ _ _ _ hcall hidle _ hnext =>
    exact h.goOn_idle hcall (by rintro _ ⟨⟩; exact hidle) hnext _

/-! ## No transition fails that the code takes for granted -/

/-- No error that the methods do not document. -/
def Result.Documented (r : Result) : Prop := ∀ e, r ≠ .error (.raised e)

theorem Result.Documented.ok (x : UploadEvent × UploadService) : Result.Documented (.ok x) := by
  rintro e ⟨⟩

theorem Result.Documented.notEnabled : Result.Documented (.error .notEnabled) := by
  rintro e ⟨⟩

theorem Result.Documented.start {r : Result} (h : s.calls.get? call = none → Documented r) :
    Documented (s.start call r) := by
  unfold UploadService.start
  split
  · next hnone => exact h (isNone_iff_eq_none.mp hnone)
  · exact .notEnabled

theorem Result.Documented.withSession {k : UploadSession → Result}
    (h : ∀ session, s.sessions.get? upload = some session → Documented (k session)) :
    Documented (s.withSession upload k) := by
  unfold UploadService.withSession
  split
  · exact .notEnabled
  · next session hget => exact h session hget

theorem Result.Documented.transition {new : UploadState} {k : UploadSession → Result}
    (hnew : new ∈ session.status.transitions) (h : ∀ session, Documented (k session)) :
    Documented (expect (session.transition new) k) := by
  unfold UploadSession.transition
  rw [if_pos hnew]
  exact h _

theorem accepts_transitions {status new : UploadState} (h : status.acceptsChunks = true)
    (hnew : new ∈ [UploadState.assembling, .cancelled, .expired]) : new ∈ status.transitions := by
  simp only [List.mem_cons, List.not_mem_nil, or_false] at hnew
  cases status <;>
    first | exact absurd h (by decide) | (rcases hnew with rfl | rfl | rfl <;> decide)

theorem abortComplete_documented (call : Nat) (upload : UploadId) :
    (s.abortComplete call upload).Documented := by
  apply Result.Documented.withSession
  intro session _
  split
  · next hs =>
      apply Result.Documented.transition
      · rw [hs]
        decide
      · exact fun _ => .ok _
  · exact .ok _

theorem finishVerify_documented (h : ServiceOk s) {ordered : List ChunkInfo} {corrupted : List Nat}
    {whole : Bytes}
    (hcall : s.calls.get? call = some (.verifying upload ordered [] corrupted whole)) (now : ℚ) :
    (s.finishVerify sha256Hex call upload ordered corrupted whole now).Documented := by
  apply Result.Documented.withSession
  intro session hget
  have hs := h.status_of_assembles hcall rfl hget
  dsimp only
  split
  · apply Result.Documented.transition
    · show _ ∈ session.status.transitions
      rw [hs]
      decide
    · exact fun _ => .ok _
  split
  · apply Result.Documented.transition
    · show _ ∈ session.status.transitions
      rw [hs]
      decide
    · exact fun _ => .ok _
  · exact .ok _

theorem collectNext_documented (call : Nat) (remaining expired : List UploadId) (now : ℚ) :
    (s.collectNext call remaining expired now).Documented := by
  unfold collectNext
  split
  · exact .ok _
  · apply Result.Documented.withSession
    intro session _
    split
    · next hexpired =>
        exact .transition (accepts_transitions hexpired.1 (by decide)) fun _ => .ok _
    · exact .ok _

theorem resume_documented (h : ServiceOk s) {c : Call} (hcall : s.calls.get? call = some c)
    (now : ℚ) : (s.resume sha256Hex call now c).Documented := by
  unfold resume
  split
  · apply Result.Documented.withSession
    intro session _
    dsimp only
    split
    · exact .ok _
    split
    · next hs =>
        apply Result.Documented.transition
        · rw [hs]
          decide
        · exact fun _ => .ok _
    · exact .ok _
  · unfold verifyChunk
    split
    · exact abortComplete_documented call _
    · exact .ok _
  · exact finishVerify_documented h hcall now
  · apply Result.Documented.withSession
    intro session hget
    have hs := h.status_of_assembles hcall rfl hget
    apply Result.Documented.transition
    · show _ ∈ session.status.transitions
      rw [hs]
      decide
    · exact fun _ => .ok _
  · exact .ok _
  · exact collectNext_documented call _ _ now
  · exact .ok _
  · exact .notEnabled
  · exact .notEnabled

theorem startComplete_documented (call : Nat) (upload : UploadId) (now : ℚ) :
    (s.startComplete call upload now).Documented := by
  unfold startComplete
  split
  · exact .ok _
  split
  · exact .ok _
  split
  · exact .ok _
  · next haccepting =>
      split
      · exact .ok _
      · split
        · exact .ok _
        · split
          · exact .ok _
          · exact .transition (accepts_transitions (UploadSession.checkAccepting_none haccepting)
              (by decide)) fun _ => .ok _

theorem cancel_documented (call : Nat) (upload : UploadId) (now : ℚ) :
    (s.cancel call upload now).Documented := by
  unfold cancel
  split
  · exact .ok _
  · split
    · exact .ok _
    · next haccepts =>
        split
        · exact .ok _
        · exact .transition (accepts_transitions (not_not.mp haccepts) (by decide)) fun _ => .ok _

theorem write_documented (call : Nat) (c : Call) : (s.write call c).Documented := by
  unfold write
  split
  · exact .ok _
  · unfold compose
    split
    · exact abortComplete_documented call _
    · exact .ok _
  · exact .notEnabled

theorem fail_documented (call : Nat) (c : Call) : (s.fail call c).Documented := by
  unfold fail
  split
  · exact .withSession fun _ _ => .ok _
  · exact .withSession fun _ _ => .ok _
  · exact abortComplete_documented call _
  · exact abortComplete_documented call _
  · exact abortComplete_documented call _
  · exact .ok _
  · exact .ok _
  · exact .ok _

/-- No step raises an exception that the service does not document. -/
theorem step_documented (h : ServiceOk s) (a : UploadStep) : (s.step sha256Hex a).Documented := by
  cases a with
  | initiate =>
    rw [step]
    split
    · exact .ok _
    · exact .notEnabled
  | uploadChunk => exact .start fun _ => .ok _
  | complete call upload now => exact .start fun _ => startComplete_documented call upload now
  | cancel call upload now => exact .start fun _ => cancel_documented call upload now
  | recordScanResult => exact .ok _
  | collectGarbage => exact .start fun _ => .ok _
  | write call =>
    rw [step]
    split
    · exact .notEnabled
    · exact write_documented call _
  | resume _ now =>
    rw [step]
    split
    · exact .notEnabled
    · next hcall => exact resume_documented h hcall now
  | fail call =>
    rw [step]
    split
    · exact .notEnabled
    · exact fail_documented call _
  | corrupt upload index data =>
    show (s.corrupt upload index data).Documented
    unfold corrupt
    split
    · exact .notEnabled
    · exact .ok _

/-! ## Runs -/

theorem Moved.policy (hm : Moved sha256Hex s a event s') : s'.policy = s.policy := by
  cases hm <;> rfl

/-- The slots and the calls agree in every state a run reaches. -/
theorem run_serviceOk {policy : UploadPolicy} {as : List UploadStep} {trace : List UploadEvent}
    (hrun : runSteps (step sha256Hex) (new policy) as = .ok (trace, s)) :
    ServiceOk s ∧ s.policy = policy := by
  have hstep : ∀ (as : List UploadStep) (os : List UploadEvent) t a o t',
      runSteps (step sha256Hex) (new policy) as = .ok (os, t) → ServiceOk t ∧ t.policy = policy →
        True → step sha256Hex t a = .ok (o, t') → ServiceOk t' ∧ t'.policy = policy := by
    intro as os t a o t' _ ht _ hok
    exact ⟨Moved.serviceOk ht.1 (step_moved hok), (Moved.policy (step_moved hok)).trans ht.2⟩
  exact runSteps_keeps (C := fun _ _ => True) (fun _ _ t => ServiceOk t ∧ t.policy = policy) hstep
    ⟨new_serviceOk policy, rfl⟩ (.of_forall (fun _ _ => trivial) _ _) hrun

theorem Moved.entered (hm : Moved sha256Hex s a event s')
    (hget : s.sessions.get? upload = some session) (hget' : s'.sessions.get? upload = some session')
    (hstatus : session'.status ∈ [UploadState.assembling, .cancelled, .expired])
    (hne : session'.status ≠ session.status) : session.inflight = ∅ ∧ session'.inflight = ∅ := by
  -- the step writes the session of `u`, or it is the same
  have hwritten : ∀ {u t t'}, s.sessions.get? u = some t →
      (s.sessions.set u t').get? upload = some session' →
      (t'.status ∈ [UploadState.assembling, .cancelled, .expired] → t'.status ≠ t.status →
        t.inflight = ∅ ∧ t'.inflight = ∅) → session.inflight = ∅ ∧ session'.inflight = ∅ := by
    intro u t t' hu hset himp
    rcases get?_set_some hset with ⟨rfl, rfl⟩ | ⟨-, hold⟩
    · cases hget.symm.trans hu
      exact himp hstatus hne
    · cases hget.symm.trans hold
      exact absurd rfl hne
  have hsame : s.sessions.get? upload = some session' → session.inflight = ∅ ∧
      session'.inflight = ∅ := by
    intro hold
    cases hget.symm.trans hold
    exact absurd rfl hne
  cases hm with
  | initiated _ _ _ _ _ _ _ _ _ _ hnone =>
    rcases get?_set_some hget' with ⟨rfl, -⟩ | ⟨-, hold⟩
    · rw [hnone] at hget
      cases hget
    · exact hsame hold
  | reserved _ _ _ _ _ _ hu =>
    exact hwritten hu hget' fun _ hne => absurd rfl hne
  | recorded _ _ _ _ _ _ _ _ _ hu _ _ hs =>
    exact hwritten hu hget' fun hmem _ => by rw [hs] at hmem; simp at hmem
  | dropped _ _ _ _ _ _ hu => exact hwritten hu hget' fun _ hne => absurd rfl hne
  | assembling _ _ _ _ hu _ _ hinflight =>
    exact hwritten hu hget' fun _ _ => ⟨hinflight, hinflight⟩
  | wentBack _ _ _ _ _ _ _ hu _ _ _ hstays =>
    apply hwritten hu hget'
    intro hmem hne
    rcases hstays with rfl | rfl
    · simp at hmem
    · exact absurd rfl hne
  | completed _ _ _ _ _ hu => exact hwritten hu hget' fun hmem _ => by simp at hmem
  | released _ _ _ _ _ _ _ _ hu _ hwhy =>
    apply hwritten hu hget'
    intro hmem _
    rcases hwhy with ⟨-, -, -, hempty⟩ | ⟨-, -, -, hempty⟩ | ⟨rfl, -⟩
    · exact ⟨hempty, hempty⟩
    · exact ⟨hempty, hempty⟩
    · simp at hmem
  | scanned _ _ _ hu _ _ hs =>
    apply hwritten hu hget'
    intro hmem _
    simp only [List.mem_cons, List.not_mem_nil, or_false] at hs hmem
    rcases hs with rfl | rfl <;> simp at hmem
  | _ => exact hsame hget'

/-- In every run a user's slots are those of the uploads that hold one, and at most as many as the
    policy has; an upload begins to be assembled, is cancelled or expires when no chunk is reserved;
    a chunk is reserved while one call writes it; what is rejected changes nothing; and no
    transition fails that the code takes for granted. -/
theorem run_slots {policy : UploadPolicy} {as : List UploadStep} {trace : List UploadEvent}
    (hrun : runSteps (step sha256Hex) (new policy) as = .ok (trace, s)) :
    (∀ user, (∀ upload, upload ∈ s.limiter.active user ↔
        ∃ session, s.sessions.get? upload = some session ∧ session.userId = user ∧
          session.status.holdsSlot = true) ∧
        (s.limiter.active user).card ≤ policy.maxConcurrentUploads) ∧
      (∀ a event s', step sha256Hex s a = .ok (event, s') → ∀ upload session session',
        s.sessions.get? upload = some session → s'.sessions.get? upload = some session' →
        session'.status ∈ [UploadState.assembling, .cancelled, .expired] →
        session'.status ≠ session.status → session.inflight = ∅ ∧ session'.inflight = ∅) ∧
      (∀ upload i, ((∃ session, s.sessions.get? upload = some session ∧ i ∈ session.inflight) ↔
          ∃ call, s.writes call = some (upload, i)) ∧
        ∀ call call', s.writes call = some (upload, i) → s.writes call' = some (upload, i) →
          call = call') ∧ (∀ a error s', step sha256Hex s a = .ok (.rejected error, s') →
        s'.limiter.active = s.limiter.active ∧ s'.limiter.quotaUsed = s.limiter.quotaUsed ∧
          s'.sessions = s.sessions) ∧ ∀ a error, step sha256Hex s a ≠ .error (.raised error) := by
  obtain ⟨h, rfl⟩ := run_serviceOk hrun
  refine ⟨fun user => ⟨h.slot user, h.limit user⟩, fun a event s' hok upload session session' hget
    hget' hstatus hne => Moved.entered (step_moved hok) hget hget' hstatus hne, fun upload i =>
      ⟨(h.writers.held (upload, i)).symm,
    fun call call' => h.writers.exclusive call call' _⟩, fun a error s' hok => ?_,
    step_documented h⟩
  · have hm : Moved sha256Hex s a (.rejected error) s' := step_moved hok
    cases hm with
    | rejected => exact ⟨rfl, rfl, rfl⟩
    | answered _ hnot _ | idle _ _ _ _ _ _ _ hnot _ | deleted _ _ _ _ _ _ _ _ _ hnot _ =>
      exact absurd rfl (hnot error)
    | initiated _ _ _ _ _ _ _ _ hevent => rcases hevent with hevent | hevent <;> cases hevent

/-- Five slots, chunks of a byte and a quota of ten. -/
def smallPolicy : UploadPolicy := ⟨1, 1, 100, 100, 1000, 5, 10, 1000, 1000⟩

/-- The SHA-256 of the texts `a`, `b` and `ab`; other bytes for themselves. -/
def sampleSha256 (data : Bytes) : String :=
  if data = [97] then "ca978112ca1bbdcafac231b39a23dc4da786eff8147c4e72b9807785afee48bb"
  else if data = [98] then "3e23e8160039594a33894f6564e1b1348bbd7a0088d42c4acb73eeaed59c009d"
  else if data = [97, 98] then "fb8e20fc2e4c3f248c60c39bd652f3c1347298bb977b8b4d5903b85055620603"
  else String.ofList (data.map fun byte => Char.ofNat (byte.toNat + 256))

/-- An upload of two bytes, the first one on its way. -/
theorem run_slots_writing : ∃ trace s, runSteps (step sampleSha256) (new smallPolicy)
        [.initiate "ada" "ab.txt" 2 none none 0 0,
          .uploadChunk 0 0 0 [97] (sampleSha256 [97]) 1] = .ok (trace, s) ∧
      0 ∈ s.limiter.active "ada" ∧ (s.limiter.active "ada").card ≤ 5 ∧
      ∃ session, s.sessions.get? 0 = some session ∧ 0 ∈ session.inflight := by
  refine exists_run_of_observe (f := fun r => (r.2.writes 0, decide (0 ∈ r.2.limiter.active "ada")))
    (b := (some (0, 0), true)) (by decide +kernel) fun trace s hrun hobserve => ?_
  obtain ⟨hwrites, hactive⟩ := Prod.mk.inj hobserve
  have h := run_slots hrun
  exact ⟨of_decide_eq_true hactive, (h.1 "ada").2, (h.2.2.1 0 0).1.mpr ⟨0, hwrites⟩⟩

end UploadService

end InterviewPrep.Uploads
