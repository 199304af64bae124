/-
  The token bucket and the leaky bucket (rate_limiter.py) are one meter read from its two
  ends: their levels add up to `max_requests`, so they accept the same requests.

  The tokens are the potential of the burst bound.  From any time on, the requests accepted
  are paid for by the tokens of that time, at most `max_requests`, and by what came in since.
-/
import InterviewPrep.RateLimiting.Settling

namespace InterviewPrep.RateLimiting

open List RateLimitAlgorithm

/-- `try_acquire` at one time after the other, each with the state it leaves. -/
def RateLimitAlgorithm.acquireAll {S : Type} (algo : RateLimitAlgorithm S) :
    S → List ℚ → List (Bool × S)
  | _, [] => []
  | s, t :: ts => algo.tryAcquire s t :: algo.acquireAll (algo.tryAcquire s t).2 ts

/-- The times of the requests that are accepted. -/
def RateLimitAlgorithm.accepted {S : Type} (algo : RateLimitAlgorithm S) : S → List ℚ → List ℚ
  | _, [] => []
  | s, t :: ts =>
    if (algo.tryAcquire s t).1 then t :: algo.accepted (algo.tryAcquire s t).2 ts
    else algo.accepted (algo.tryAcquire s t).2 ts

section

variable {S : Type} {algo : RateLimitAlgorithm S} {s s' : S} {t : ℚ}

theorem RateLimitAlgorithm.accepted_accept (h : algo.tryAcquire s t = (true, s')) (ts : List ℚ) :
    algo.accepted s (t :: ts) = t :: algo.accepted s' ts := by
  rw [accepted, h]
  rfl

theorem RateLimitAlgorithm.accepted_reject (h : algo.tryAcquire s t = (false, s')) (ts : List ℚ) :
    algo.accepted s (t :: ts) = algo.accepted s' ts := by
  rw [accepted, h]
  rfl

theorem RateLimitAlgorithm.accepted_subset (algo : RateLimitAlgorithm S) (s : S) (ts : List ℚ) :
    algo.accepted s ts ⊆ ts := by
  induction ts generalizing s with
  | nil => exact List.Subset.refl _
  | cons t _ ih =>
    rw [accepted]
    split
    · exact cons_subset_cons t (ih _)
    · exact subset_cons_of_subset t (ih _)

end

variable (rule : RateLimitRule)

/-! ## Duality -/

/-- What one bucket holds, the other has room for. -/
structure Dual (token leaky : BucketState) : Prop where
  levels : token.level + leaky.level = rule.maxRequests
  last : token.last = leaky.last

variable {rule} {token leaky : BucketState}

theorem Dual.settle (h : Dual rule token leaky) (now : ℚ) :
    Dual rule (TokenBucket.refill rule token now) (LeakyBucket.leak rule leaky now) := by
  refine ⟨?_, rfl⟩
  have hlevels := h.levels
  simp only [TokenBucket.refill, LeakyBucket.leak, h.last]
  generalize max 0 (now - leaky.last) * rule.rate = gain
  rcases le_total (rule.maxRequests : ℚ) (token.level + gain) with hfull | hfull
  · rw [min_eq_left hfull, max_eq_left (by linarith), add_zero]
  · rw [min_eq_right hfull, max_eq_right (by linarith)]
    linarith

theorem Dual.tryAcquire (h : Dual rule token leaky) (now : ℚ) : ∃ ok token' leaky',
    (TokenBucket rule).tryAcquire token now = (ok, token') ∧
      (LeakyBucket rule).tryAcquire leaky now = (ok, leaky') ∧ Dual rule token' leaky' := by
  have hdual := h.settle now
  have hlevels := hdual.levels
  have hroom : 1 ≤ (TokenBucket.refill rule token now).level ↔
      (LeakyBucket.leak rule leaky now).level + 1 ≤ rule.maxRequests := by
    constructor <;> intro _ <;> linarith
  by_cases hpermit : 1 ≤ (TokenBucket.refill rule token now).level
  · exact ⟨true, _, _, if_pos hpermit, if_pos (hroom.mp hpermit), by linarith, hdual.last⟩
  · exact ⟨false, _, _, if_neg hpermit, if_neg fun hle => hpermit (hroom.mpr hle), hdual⟩

theorem Dual.accepted (h : Dual rule token leaky) (ts : List ℚ) :
    (TokenBucket rule).accepted token ts = (LeakyBucket rule).accepted leaky ts := by
  induction ts generalizing token leaky with
  | nil => rfl
  | cons t _ ih =>
    obtain ⟨ok, token', leaky', htoken, hleaky, hdual⟩ := h.tryAcquire t
    cases ok with
    | false =>
      rw [accepted_reject htoken, accepted_reject hleaky,
        ih hdual]
    | true =>
      rw [accepted_accept htoken, accepted_accept hleaky,
        ih hdual]

theorem Dual.acquireAll (h : Dual rule token leaky) (ts : List ℚ) :
    List.Forall₂ (fun a b => a.1 = b.1 ∧ Dual rule a.2 b.2)
      ((TokenBucket rule).acquireAll token ts) ((LeakyBucket rule).acquireAll leaky ts) := by
  induction ts generalizing token leaky with
  | nil => exact .nil
  | cons t _ ih =>
    obtain ⟨ok, token', leaky', htoken, hleaky, hdual⟩ := h.tryAcquire t
    rw [RateLimitAlgorithm.acquireAll, RateLimitAlgorithm.acquireAll, htoken, hleaky]
    exact .cons ⟨rfl, hdual⟩ (ih hdual)

/-! ## Bursts -/

variable {s : BucketState} {ts : List ℚ} {t₁ t₂ : ℚ}

theorem tryAcquire_tokens (rule : RateLimitRule) (hs : 0 ≤ s.level) (t : ℚ) : ∃ ok s',
    (TokenBucket rule).tryAcquire s t = (ok, s') ∧ s'.last = t ∧ 0 ≤ s'.level ∧
      s'.level = (TokenBucket.refill rule s t).level - (if ok then 1 else 0) := by
  have hnonneg : 0 ≤ (TokenBucket.refill rule s t).level :=
    le_min (Int.cast_nonneg rule.maxRequests_pos.le)
      (add_nonneg hs (mul_nonneg (le_max_left _ _) rule.rate_pos.le))
  by_cases hpermit : 1 ≤ (TokenBucket.refill rule s t).level
  · exact ⟨true, _, if_pos hpermit, rfl, sub_nonneg.mpr hpermit, rfl⟩
  · exact ⟨false, _, if_neg hpermit, rfl, hnonneg, (sub_zero _).symm⟩

theorem accepted_le_tokens (hs : 0 ≤ s.level) (hts : (s.last :: ts).Pairwise (· ≤ ·)) :
    (((TokenBucket rule).accepted s ts).countP (· ≤ t₂) : ℚ) ≤
      s.level + rule.rate * max 0 (t₂ - s.last) := by
  have hrate := rule.rate_pos
  have hgain : 0 ≤ rule.rate * max 0 (t₂ - s.last) := mul_nonneg hrate.le (le_max_left _ _)
  induction ts generalizing s with
  | nil =>
    rw [RateLimitAlgorithm.accepted, countP_nil, Nat.cast_zero]
    linarith
  | cons t ts ih =>
    obtain ⟨hle, hrest⟩ := pairwise_cons.mp hts
    by_cases ht : t ≤ t₂
    · have hfirst : s.last ≤ t := hle t mem_cons_self
      obtain ⟨ok, s', htry, rfl, hnonneg, hlevel⟩ := tryAcquire_tokens rule hs t
      have hcount := ih hnonneg hrest (mul_nonneg hrate.le (le_max_left _ _))
      have hrefill : (TokenBucket.refill rule s s'.last).level ≤
          s.level + rule.rate * (s'.last - s.last) := by
        rw [TokenBucket.refill, max_eq_right (sub_nonneg.mpr hfirst), mul_comm rule.rate]
        exact min_le_right _ _
      rw [max_eq_right (sub_nonneg.mpr ht)] at hcount
      rw [max_eq_right (sub_nonneg.mpr (hfirst.trans ht))]
      cases ok with
      | false =>
        rw [accepted_reject htry]
        simp only [Bool.false_eq_true, if_false] at hlevel
        linarith
      | true =>
        rw [accepted_accept htry, countP_cons_of_pos (by simpa using ht),
          Nat.cast_succ]
        simp only [if_true] at hlevel
        linarith
    · -- the later requests are not made in time either
      have hnone : ((TokenBucket rule).accepted s (t :: ts)).countP (· ≤ t₂) = 0 := by
        rw [countP_eq_zero]
        intro x hx hin
        have hin : x ≤ t₂ := of_decide_eq_true hin
        rcases mem_cons.mp (accepted_subset _ _ _ hx) with rfl | hx
        · exact ht hin
        · exact ht ((rel_of_pairwise_cons hrest hx).trans hin)
      rw [hnone, Nat.cast_zero]
      linarith

theorem accepted_le_burst (hs : 0 ≤ s.level) (hts : (s.last :: ts).Pairwise (· ≤ ·))
    (ht : t₁ ≤ t₂) : (((TokenBucket rule).accepted s ts).countP fun t => t₁ ≤ t ∧ t ≤ t₂ : ℚ) ≤
      rule.maxRequests + rule.rate * (t₂ - t₁) := by
  have hmax : (0 : ℚ) ≤ rule.maxRequests := Int.cast_nonneg rule.maxRequests_pos.le
  have hgain := mul_nonneg rule.rate_pos.le (sub_nonneg.mpr ht)
  induction ts generalizing s with
  | nil =>
    rw [RateLimitAlgorithm.accepted, countP_nil, Nat.cast_zero]
    linarith
  | cons t ts ih =>
    obtain ⟨hle, hrest⟩ := pairwise_cons.mp hts
    rcases lt_or_ge t t₁ with hearly | hlate
    · obtain ⟨ok, s', htry, rfl, hnonneg, -⟩ := tryAcquire_tokens rule hs t
      have hcount := ih hnonneg hrest
      cases ok with
      | false => rwa [accepted_reject htry]
      | true =>
        rwa [accepted_accept htry,
          countP_cons_of_neg fun h => hearly.not_ge (of_decide_eq_true h).1]
    -- the first request after `t₁` finds at most `max_requests` tokens
    have hrefill : 0 ≤ (TokenBucket.refill rule s t).level :=
      le_min hmax (add_nonneg hs (mul_nonneg (le_max_left _ _) rule.rate_pos.le))
    have hcount : (((TokenBucket rule).accepted (TokenBucket.refill rule s t) (t :: ts)).countP
        (· ≤ t₂) : ℚ) ≤ _ := accepted_le_tokens hrefill
      (pairwise_cons.mpr ⟨fun x hx => (mem_cons.mp hx).elim (fun h => h.ge)
        (rel_of_pairwise_cons hrest), hrest⟩)
    have hsame : (TokenBucket rule).accepted (TokenBucket.refill rule s t) (t :: ts) =
        (TokenBucket rule).accepted s (t :: ts) := by
      have htry := ((TokenBucket.lawful rule).looks (TokenBucket.refill_self rule s t)).1
      rw [RateLimitAlgorithm.accepted, RateLimitAlgorithm.accepted, ← htry]
    rw [hsame] at hcount
    have hmono : ((TokenBucket rule).accepted s (t :: ts)).countP (fun t => t₁ ≤ t ∧ t ≤ t₂) ≤
        ((TokenBucket rule).accepted s (t :: ts)).countP (· ≤ t₂) :=
      countP_mono_left fun x _ hx => decide_eq_true (of_decide_eq_true hx).2
    have hfull : (TokenBucket.refill rule s t).level ≤ rule.maxRequests := min_le_left _ _
    have hspan : max 0 (t₂ - t) ≤ t₂ - t₁ := max_le (sub_nonneg.mpr ht) (by linarith)
    have hin := mul_le_mul_of_nonneg_left hspan rule.rate_pos.le
    have hmono : ((((TokenBucket rule).accepted s (t :: ts)).countP
        fun t => t₁ ≤ t ∧ t ≤ t₂ : Nat) : ℚ) ≤ _ := Nat.cast_le.mpr hmono
    exact hmono.trans (hcount.trans (add_le_add hfull hin))

/-- Started together, the two buckets accept the same requests and together always hold
    `max_requests`; and in no span of time more than that and what the rate brings in. -/
theorem buckets_dual (rule : RateLimitRule) (start : ℚ) (ts : List ℚ)
    (hts : (start :: ts).Pairwise (· ≤ ·)) :
    (TokenBucket rule).accepted ((TokenBucket rule).newState start) ts =
        (LeakyBucket rule).accepted ((LeakyBucket rule).newState start) ts ∧
      List.Forall₂ (fun token leaky => token.1 = leaky.1 ∧
          ∀ now, (TokenBucket.refill rule token.2 now).level +
            (LeakyBucket.leak rule leaky.2 now).level = rule.maxRequests)
        ((TokenBucket rule).acquireAll ((TokenBucket rule).newState start) ts)
        ((LeakyBucket rule).acquireAll ((LeakyBucket rule).newState start) ts) ∧
      ∀ t₁ t₂, t₁ ≤ t₂ →
        (((TokenBucket rule).accepted ((TokenBucket rule).newState start) ts).countP
          fun t => t₁ ≤ t ∧ t ≤ t₂ : ℚ) ≤ rule.maxRequests + rule.rate * (t₂ - t₁) := by
  have hdual : Dual rule ((TokenBucket rule).newState start) ((LeakyBucket rule).newState start) :=
    ⟨add_zero _, rfl⟩
  refine ⟨hdual.accepted ts, ?_, fun t₁ t₂ ht => ?_⟩
  · exact (hdual.acquireAll ts).imp fun _ _ h => ⟨h.1, fun now => (h.2.settle now).levels⟩
  · exact accepted_le_burst (Int.cast_nonneg rule.maxRequests_pos.le) hts ht

theorem buckets_dual_twice :
    let rule : RateLimitRule := ⟨1, 1, by decide, zero_lt_one⟩
    (TokenBucket rule).accepted ((TokenBucket rule).newState 0) [0, 0] =
      (LeakyBucket rule).accepted ((LeakyBucket rule).newState 0) [0, 0] :=
  (buckets_dual _ 0 [0, 0] (by simp)).1

end InterviewPrep.RateLimiting
