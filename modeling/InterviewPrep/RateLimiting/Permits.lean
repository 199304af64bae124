/-
  `remaining` counts the permits there are and `retry_after` is the time to the next one
  (rate_limiter.py), for each of the five algorithms.

  `Metered` says what that needs of an algorithm: a permit is there when `remaining` is not
  zero, taking it takes one, and until the wait is over there is none.
-/
import InterviewPrep.RateLimiting.Settling

namespace InterviewPrep.RateLimiting

open Lib List

/-! ## Calls -/

inductive Method where
  | tryAcquire
  | remaining
  | retryAfter
deriving DecidableEq

section

variable {S : Type} (algo : RateLimitAlgorithm S)

/-- The state that a call leaves. -/
def RateLimitAlgorithm.call : Method → S → ℚ → S
  | .tryAcquire, s, t => (algo.tryAcquire s t).2
  | .remaining, s, t => (algo.remaining s t).2
  | .retryAfter, s, t => (algo.retryAfter s t).2

/-- The states reached by calls at non-decreasing times, each with the time of the last. -/
inductive RateLimitAlgorithm.Reached : S → ℚ → Prop where
  | new (t : ℚ) : Reached (algo.newState t) t
  | call {s : S} {t t' : ℚ} (method : Method) (h : Reached s t) (ht : t ≤ t') :
      Reached (algo.call method s t') t'

/-- The next `n` requests are accepted, and no further one. -/
def RateLimitAlgorithm.Grants (s : S) (now : ℚ) : Nat → Prop
  | 0 => (algo.tryAcquire s now).1 = false
  | n + 1 => (algo.tryAcquire s now).1 = true ∧ Grants (algo.tryAcquire s now).2 now n

/-- What `try_acquire` answers in a run of calls. -/
def RateLimitAlgorithm.decisions : S → List (Method × ℚ) → List Bool
  | _, [] => []
  | s, (.tryAcquire, t) :: calls =>
    (algo.tryAcquire s t).1 :: decisions (algo.tryAcquire s t).2 calls
  | s, (method, t) :: calls => decisions (algo.call method s t) calls

/-- The laws of the permits.  `Within s` holds of a state that no call has overdrawn. -/
structure RateLimitAlgorithm.Metered (Current : S → ℚ → Prop) (Within : S → Prop) : Prop where
  within_newState : ∀ t, Within (algo.newState t)
  within_settle : ∀ {s t}, Within s → Within (algo.settle s t)
  within_tryAcquire : ∀ {s t}, Current s t → Within s → Within (algo.tryAcquire s t).2
  remaining_nonneg : ∀ {s t}, Within s → 0 ≤ (algo.remaining s t).1
  tryAcquire_iff : ∀ {s t}, Within s →
    ((algo.tryAcquire s t).1 = true ↔ 1 ≤ (algo.remaining s t).1)
  remaining_tryAcquire : ∀ {s t}, Within s → (algo.tryAcquire s t).1 = true →
    (algo.remaining (algo.tryAcquire s t).2 t).1 = (algo.remaining s t).1 - 1
  retryAfter_nonneg : ∀ s t, 0 ≤ (algo.retryAfter s t).1
  wait : ∀ {s t t'}, Current s t → Within s → t ≤ t' → t' ≤ t + (algo.retryAfter s t).1 →
    ((algo.tryAcquire (algo.settle s t) t').1 = true ↔ t + (algo.retryAfter s t).1 ≤ t')

variable {algo} {Current : S → ℚ → Prop} {Within : S → Prop} {s s' : S} {t now : ℚ}

theorem RateLimitAlgorithm.Lawful.call_query (h : algo.Lawful Current) {method : Method}
    (hquery : method ≠ .tryAcquire) : algo.call method s t = algo.settle s t := by
  cases method with
  | tryAcquire => exact absurd rfl hquery
  | remaining => rfl
  | retryAfter => exact h.retryAfter_state s t

theorem RateLimitAlgorithm.Reached.within (hr : algo.Reached s t) (h : algo.Lawful Current)
    (hm : algo.Metered Current Within) : Current s t ∧ Within s := by
  induction hr with
  | new t => exact ⟨h.current_newState le_rfl, hm.within_newState t⟩
  | @call _ _ _ method _ ht ih =>
    have hcurrent := h.current_mono ih.1 ht
    by_cases hquery : method = .tryAcquire
    · subst hquery
      exact ⟨h.current_tryAcquire hcurrent, hm.within_tryAcquire hcurrent ih.2⟩
    · rw [h.call_query hquery]
      exact ⟨h.current_settle hcurrent, hm.within_settle ih.2⟩

theorem RateLimitAlgorithm.Metered.grants (hm : algo.Metered Current Within)
    (h : algo.Lawful Current) {n : Nat} (hs : Current s t) (hw : Within s)
    (hn : (algo.remaining s t).1 = n) : algo.Grants s t n := by
  induction n generalizing s with
  | zero =>
    have hnone := (hm.tryAcquire_iff hw (t := t)).not.mpr (by omega)
    exact Bool.eq_false_of_not_eq_true hnone
  | succ _ ih =>
    have hok := (hm.tryAcquire_iff hw (t := t)).mpr (by omega)
    refine ⟨hok, ih (h.current_tryAcquire hs) (hm.within_tryAcquire hs hw) ?_⟩
    rw [hm.remaining_tryAcquire hw hok]
    omega

theorem RateLimitAlgorithm.Lawful.decisions_eq (h : algo.Lawful Current)
    {calls : List (Method × ℚ)} (hs : Current s t) (hs' : Current s' t)
    (hsame : algo.settle s t = algo.settle s' t)
    (hcalls : (t :: calls.map Prod.snd).Pairwise (· ≤ ·)) :
    algo.decisions s calls = algo.decisions s' (calls.filter (·.1 = .tryAcquire)) := by
  induction calls generalizing s s' t with
  | nil => rfl
  | cons c calls ih =>
    obtain ⟨method, t'⟩ := c
    obtain ⟨hle, hrest⟩ := pairwise_cons.mp hcalls
    have ht : t ≤ t' := hle t' mem_cons_self
    have hlater : algo.settle s t' = algo.settle s' t' := by
      rw [← h.settle_settle hs ht, hsame, h.settle_settle hs' ht]
    by_cases hquery : method = .tryAcquire
    · subst hquery
      rw [filter_cons_of_pos (by rfl), decisions, decisions, (h.looks hlater).1]
      have hnext := h.current_tryAcquire (h.current_mono hs' ht)
      rw [ih hnext hnext rfl hrest]
    have hstep : algo.decisions s ((method, t') :: calls) =
        algo.decisions (algo.settle s t') calls := by
      rw [← h.call_query hquery]
      cases method with
      | tryAcquire => exact absurd rfl hquery
      | remaining | retryAfter => rfl
    rw [filter_cons_of_neg (by simpa using hquery), hstep]
    exact ih (h.current_settle (h.current_mono hs ht)) (h.current_mono hs' ht)
      ((h.settle_self s t').trans hlater) hrest

theorem accepts_iff {P : Prop} [Decidable P] (taken kept : S) :
    (if P then (true, taken) else (false, kept)).1 = true ↔ P := by
  split <;> simp_all

end

variable (rule : RateLimitRule) {t t' x : ℚ}

theorem maxRequests_one_le : (1 : ℚ) ≤ rule.maxRequests :=
  Int.cast_one (R := ℚ) ▸ Int.cast_le.mpr rule.maxRequests_pos

/-! ## The buckets -/

theorem truncate_sub_one (hx : 1 ≤ x) : truncate (x - 1) = truncate x - 1 := by
  rw [truncate, truncate, if_pos (sub_nonneg.mpr hx), if_pos (zero_le_one.trans hx),
    Int.floor_sub_one]

theorem one_le_truncate (hx : 0 ≤ x) : 1 ≤ x ↔ 1 ≤ truncate x := by
  rw [truncate, if_pos hx, Int.le_floor, Int.cast_one]

theorem truncate_nonneg (hx : 0 ≤ x) : 0 ≤ truncate x := by
  rw [truncate, if_pos hx]
  exact Int.floor_nonneg.mpr hx

theorem wait_iff {lack d : ℚ} (hd : d = if lack ≤ 0 then 0 else lack / rule.rate) (ht : t ≤ t') :
    lack ≤ (t' - t) * rule.rate ↔ t + d ≤ t' := by
  have hgain : 0 ≤ (t' - t) * rule.rate := mul_nonneg (sub_nonneg.mpr ht) rule.rate_pos.le
  rw [hd]
  split
  case isTrue h => exact iff_of_true (h.trans hgain) (by linarith)
  case isFalse => rw [← le_sub_iff_add_le', div_le_iff₀ rule.rate_pos]

theorem wait_nonneg (lack : ℚ) : 0 ≤ if lack ≤ 0 then 0 else lack / rule.rate := by
  split
  case isTrue => exact le_rfl
  case isFalse h => exact div_nonneg (not_le.mp h).le rule.rate_pos.le

namespace TokenBucket

theorem refill_nonneg {s : BucketState} (hs : 0 ≤ s.level) (t : ℚ) : 0 ≤ (refill rule s t).level :=
  le_min (zero_le_one.trans (maxRequests_one_le rule))
    (add_nonneg hs (mul_nonneg (le_max_left _ _) rule.rate_pos.le))

theorem retryAfter_eq (s : BucketState) (t : ℚ) : (retryAfter rule s t).1 =
    if 1 - (refill rule s t).level ≤ 0 then 0 else (1 - (refill rule s t).level) / rule.rate := by
  simp only [retryAfter, sub_nonpos]

theorem metered : (TokenBucket rule).Metered BucketState.Current fun s => 0 ≤ s.level where
  within_newState := fun _ => zero_le_one.trans (maxRequests_one_le rule)
  within_settle := fun hs => refill_nonneg rule hs _
  within_tryAcquire := by
    intro s t _ hs
    simp only [TokenBucket, tryAcquire]
    split
    case isTrue h => exact sub_nonneg.mpr h
    case isFalse => exact refill_nonneg rule hs t
  remaining_nonneg := fun hs => truncate_nonneg (refill_nonneg rule hs _)
  tryAcquire_iff := fun hs => (accepts_iff _ _).trans (one_le_truncate (refill_nonneg rule hs _))
  remaining_tryAcquire := by
    intro s t hs hok
    have hpermit := (accepts_iff _ _).mp hok
    have hfull : (refill rule s t).level ≤ rule.maxRequests := min_le_left _ _
    show truncate (refill rule (tryAcquire rule s t).2 t).level = truncate _ - 1
    rw [← truncate_sub_one hpermit, tryAcquire, if_pos hpermit, refill]
    simp only [refill, sub_self, max_self, zero_mul, add_zero] at hfull ⊢
    rw [min_eq_right (by linarith)]
  retryAfter_nonneg := fun s t => (retryAfter_eq rule s t).symm ▸ wait_nonneg rule _
  wait := by
    intro s t t' _ _ ht _
    refine (accepts_iff _ _).trans (Iff.trans ?_ (wait_iff rule (retryAfter_eq rule s t) ht))
    show 1 ≤ min _ ((refill rule s t).level + max 0 (t' - t) * rule.rate) ↔ _
    rw [max_eq_right (sub_nonneg.mpr ht), le_min_iff, and_iff_right (maxRequests_one_le rule),
      sub_le_iff_le_add']

end TokenBucket

namespace LeakyBucket

theorem leak_le {s : BucketState} (hs : s.level ≤ rule.maxRequests) (t : ℚ) :
    (leak rule s t).level ≤ rule.maxRequests :=
  max_le (zero_le_one.trans (maxRequests_one_le rule))
    ((sub_le_self _ (mul_nonneg (le_max_left _ _) rule.rate_pos.le)).trans hs)

theorem metered :
    (LeakyBucket rule).Metered BucketState.Current fun s => s.level ≤ rule.maxRequests where
  within_newState := fun _ => zero_le_one.trans (maxRequests_one_le rule)
  within_settle := fun hs => leak_le rule hs _
  within_tryAcquire := by
    intro s t _ hs
    simp only [LeakyBucket, tryAcquire]
    split
    case isTrue h => exact h
    case isFalse => exact leak_le rule hs t
  remaining_nonneg := fun hs => truncate_nonneg (sub_nonneg.mpr (leak_le rule hs _))
  tryAcquire_iff := fun hs => (accepts_iff _ _).trans
    (le_sub_iff_add_le'.symm.trans (one_le_truncate (sub_nonneg.mpr (leak_le rule hs _))))
  remaining_tryAcquire := by
    intro s t hs hok
    have hpermit := (accepts_iff _ _).mp hok
    have hempty : 0 ≤ (leak rule s t).level := le_max_left _ _
    show truncate (_ - (leak rule (tryAcquire rule s t).2 t).level) = truncate _ - 1
    rw [← truncate_sub_one (le_sub_iff_add_le'.mpr hpermit), tryAcquire, if_pos hpermit, leak]
    simp only [leak, sub_self, max_self, zero_mul, sub_zero] at hempty ⊢
    rw [max_eq_right (by linarith), sub_sub]
  retryAfter_nonneg := fun _ _ => wait_nonneg rule _
  wait := by
    intro s t t' _ _ ht _
    refine (accepts_iff _ _).trans (Iff.trans ?_ (wait_iff rule rfl ht))
    have hone := maxRequests_one_le rule
    show max 0 ((leak rule s t).level - max 0 (t' - t) * rule.rate) + 1 ≤ _ ↔ _
    rw [max_eq_right (sub_nonneg.mpr ht), ← le_sub_iff_add_le, max_le_iff,
      and_iff_right (sub_nonneg.mpr hone)]
    constructor <;> intro _ <;> linarith

end LeakyBucket

/-! ## The windows -/

theorem windowOf_eq_iff {w : Int} : windowOf rule t = w ↔
    w * rule.windowSeconds ≤ t ∧ t < (w + 1) * rule.windowSeconds := by
  rw [windowOf, Int.floor_eq_iff, le_div_iff₀ rule.windowSeconds_pos,
    div_lt_iff₀ rule.windowSeconds_pos]

theorem lt_windowOf_iff {w : Int} : w < windowOf rule t ↔ (w + 1) * rule.windowSeconds ≤ t := by
  rw [windowOf, ← Int.add_one_le_iff, Int.le_floor, le_div_iff₀ rule.windowSeconds_pos]
  push_cast
  rfl

namespace FixedWindowCounter

theorem roll_count_le {s : WindowState} (hs : s.count ≤ rule.maxRequests) (t : ℚ) :
    (roll rule s t).count ≤ rule.maxRequests := by
  simp only [roll]
  split
  case isTrue => exact rule.maxRequests_pos.le
  case isFalse => exact hs

theorem metered :
    (FixedWindowCounter rule).Metered (Current rule) fun s => s.count ≤ rule.maxRequests where
  within_newState := fun _ => rule.maxRequests_pos.le
  within_settle := fun hs => roll_count_le rule hs _
  within_tryAcquire := by
    intro s t _ hs
    simp only [FixedWindowCounter, tryAcquire]
    split
    case isTrue h => exact h
    case isFalse => exact roll_count_le rule hs t
  remaining_nonneg := fun hs => sub_nonneg.mpr (roll_count_le rule hs _)
  tryAcquire_iff := by
    intro s t hs
    refine (accepts_iff _ _).trans ?_
    show _ ↔ 1 ≤ rule.maxRequests - (roll rule s t).count
    omega
  remaining_tryAcquire := by
    intro s t hs hok
    have hpermit := (accepts_iff _ _).mp hok
    have hroll : roll rule { roll rule s t with count := (roll rule s t).count + 1 } t = _ :=
      roll_eq_self rule (windowOf_le_roll rule s t)
    show rule.maxRequests - (roll rule (tryAcquire rule s t).2 t).count = _ - _ - 1
    rw [tryAcquire, if_pos hpermit, hroll]
    exact sub_add_eq_sub_sub (α := Int) _ _ _
  retryAfter_nonneg := by
    intro s t
    simp only [FixedWindowCounter, retryAfter]
    split
    case isTrue => exact le_rfl
    case isFalse =>
    -- the window after this one begins later than now
    have hwindow := Int.lt_floor_add_one (t / rule.windowSeconds)
    rw [div_lt_iff₀ rule.windowSeconds_pos] at hwindow
    have hle : (windowOf rule t : ℚ) ≤ (roll rule s t).window :=
      Int.cast_le.mpr (windowOf_le_roll rule s t)
    have hscale := mul_le_mul_of_nonneg_right (add_le_add_left hle 1) rule.windowSeconds_pos.le
    exact sub_nonneg.mpr (hwindow.le.trans hscale)
  wait := by
    intro s t t' _ hs _ _
    refine (accepts_iff _ _).trans ?_
    show (roll rule (roll rule s t) t').count < _ ↔ t + (retryAfter rule s t).1 ≤ t'
    simp only [retryAfter]
    split
    case isTrue h =>
      refine iff_of_true ?_ (by linarith)
      rw [roll]
      split
      · exact rule.maxRequests_pos
      · exact h
    case isFalse h =>
    rw [add_sub_cancel, ← lt_windowOf_iff]
    rcases lt_or_ge (roll rule s t).window (windowOf rule t') with hlt | hge
    · rw [roll_of_lt rule hlt]
      exact iff_of_true rule.maxRequests_pos hlt
    · rw [roll_eq_self rule hge]
      exact iff_of_false h (not_lt.mpr hge)

end FixedWindowCounter

namespace SlidingWindowLog

theorem evict_le {s : LogState} (hs : (s.timestamps.length : Int) ≤ rule.maxRequests) (t : ℚ) :
    ((evict rule s t).timestamps.length : Int) ≤ rule.maxRequests :=
  (Int.ofNat_le.mpr (dropWhile_suffix _).length_le).trans hs

theorem evict_cons {s : LogState} (hfull : rule.maxRequests ≤ (evict rule s t).timestamps.length) :
    ∃ x xs, (evict rule s t).timestamps = x :: xs ∧ t - rule.windowSeconds < x := by
  have hpos := rule.maxRequests_pos
  have hhead := head?_dropWhile_not (· ≤ t - rule.windowSeconds) s.timestamps
  cases hlog : (evict rule s t).timestamps with
  | nil =>
    rw [hlog, length_nil] at hfull
    omega
  | cons x xs =>
    rw [show s.timestamps.dropWhile _ = x :: xs from hlog] at hhead
    exact ⟨x, xs, rfl, not_le.mp (of_decide_eq_false hhead)⟩

theorem evict_append (s : LogState) (t : ℚ) :
    evict rule ⟨(evict rule s t).timestamps ++ [t]⟩ t = ⟨(evict rule s t).timestamps ++ [t]⟩ := by
  have hkeep : ¬ t ≤ t - rule.windowSeconds := by
    have hpos := rule.windowSeconds_pos
    linarith
  have hself : evict rule (evict rule s t) t = evict rule s t := evict_evict rule s le_rfl
  simp only [evict, LogState.mk.injEq] at hself ⊢
  rw [dropWhile_append, hself]
  split
  case isTrue h =>
    rw [List.isEmpty_iff.mp h, dropWhile_cons_of_neg (by simpa using hkeep)]
    rfl
  case isFalse => rfl

theorem metered : (SlidingWindowLog rule).Metered (fun _ _ => True)
    fun s => (s.timestamps.length : Int) ≤ rule.maxRequests where
  within_newState := fun _ => rule.maxRequests_pos.le
  within_settle := fun hs => evict_le rule hs _
  within_tryAcquire := by
    intro s t _ hs
    simp only [SlidingWindowLog, tryAcquire]
    split
    case isTrue =>
      simp only [length_append, length_singleton]
      omega
    case isFalse => exact evict_le rule hs t
  remaining_nonneg := fun hs => sub_nonneg.mpr (evict_le rule hs _)
  tryAcquire_iff := by
    intro s t hs
    refine (accepts_iff _ _).trans ?_
    show _ ↔ 1 ≤ rule.maxRequests - (evict rule s t).timestamps.length
    omega
  remaining_tryAcquire := by
    intro s t hs hok
    have hpermit := (accepts_iff _ _).mp hok
    show rule.maxRequests - (evict rule (tryAcquire rule s t).2 t).timestamps.length = _ - _ - 1
    rw [tryAcquire, if_pos hpermit, evict_append]
    simp only [length_append, length_singleton]
    omega
  retryAfter_nonneg := by
    intro s t
    show 0 ≤ (retryAfter rule s t).1
    simp only [retryAfter]
    split
    case isTrue => exact le_rfl
    case isFalse h =>
      obtain ⟨x, xs, heq, hx⟩ := evict_cons rule (not_lt.mp h)
      rw [heq, headD_cons]
      linarith
  wait := by
    intro s t t' _ hs _ _
    refine (accepts_iff _ _).trans ?_
    show ((evict rule (evict rule s t) t').timestamps.length : Int) < _ ↔
      t + (retryAfter rule s t).1 ≤ t'
    simp only [retryAfter]
    have hevict := evict_le rule hs t
    split
    case isTrue =>
      have hshort : (evict rule (evict rule s t) t').timestamps.length ≤ _ :=
        (dropWhile_suffix _).length_le
      exact iff_of_true (by omega) (by linarith)
    case isFalse h =>
    obtain ⟨x, xs, heq, -⟩ := evict_cons rule (not_lt.mp h)
    rw [heq, headD_cons, add_sub_cancel, ← le_sub_iff_add_le, evict, heq]
    rw [heq] at h hevict
    by_cases hx : x ≤ t' - rule.windowSeconds
    · -- the oldest request leaves the window
      have hshort := (dropWhile_suffix (l := xs) (· ≤ t' - rule.windowSeconds)).length_le
      rw [dropWhile_cons_of_pos (by simpa using hx)]
      rw [length_cons] at hevict
      exact iff_of_true ((Int.ofNat_le.mpr hshort).trans_lt (by omega)) hx
    · rw [dropWhile_cons_of_neg (by simpa using hx)]
      exact iff_of_false h hx

end SlidingWindowLog

namespace SlidingWindowCounter

variable {s : WindowState}

theorem roll_count_le (hs : s.count ≤ rule.maxRequests) (t : ℚ) :
    (roll rule s t).count ≤ rule.maxRequests := by
  have hzero : 0 ≤ rule.maxRequests := rule.maxRequests_pos.le
  simp only [roll]
  split
  · exact hzero
  · split
    · exact hzero
    · exact hs

theorem decay_iff {k b m : ℚ} (hk : 0 < k) :
    k * (1 - (x - b) / rule.windowSeconds) + m + 1 ≤ rule.maxRequests ↔
      b + rule.windowSeconds * (1 - (rule.maxRequests - 1 - m) / k) ≤ x := by
  have hW := rule.windowSeconds_pos
  rw [add_assoc, ← le_sub_iff_add_le, ← le_sub_iff_add_le', ← le_div_iff₀' hk, sub_le_comm,
    le_div_iff₀' hW, show (rule.maxRequests : ℚ) - (m + 1) = rule.maxRequests - 1 - m by ring]

theorem accepts_same (hw : windowOf rule t = s.window) :
    (tryAcquire rule s t).1 = true ↔ estimate rule s t + 1 ≤ rule.maxRequests := by
  rw [tryAcquire, roll_eq_self rule hw.le]
  exact accepts_iff _ _

theorem accepts_next (hw : windowOf rule t = s.window + 1) : (tryAcquire rule s t).1 = true ↔
      s.count * (1 - (t - (s.window + 1) * rule.windowSeconds) / rule.windowSeconds) + 0 + 1 ≤
        (rule.maxRequests : ℚ) := by
  have hroll : roll rule s t = ⟨s.window + 1, 0, s.count⟩ := by rw [roll, if_pos hw, hw]
  rw [tryAcquire, hroll]
  refine (accepts_iff _ _).trans ?_
  rw [estimate, fraction]
  push_cast
  rfl

theorem accepts_skip (hw : s.window + 1 < windowOf rule t) : (tryAcquire rule s t).1 = true := by
  rw [tryAcquire, roll_of_skip rule hw]
  refine (accepts_iff _ _).mpr ?_
  simpa [estimate] using maxRequests_one_le rule

theorem wait_fading {r : WindowState} (hw : r.window = windowOf rule t)
    (hfull : ¬ estimate rule r t + 1 ≤ rule.maxRequests)
    (hroom : 0 ≤ rule.maxRequests - 1 - r.count ∧ 0 < r.prevCount)
    (hle : t' ≤ t + (retryAfter rule r t).1) (ht : t ≤ t') :
    (tryAcquire rule r t').1 = true ↔ t + (retryAfter rule r t).1 ≤ t' := by
  have hprev : (0 : ℚ) < r.prevCount := Int.cast_pos.mpr hroom.2
  have hin : ∀ {x}, windowOf rule x = r.window → ((tryAcquire rule r x).1 = true ↔ _) :=
    fun hx => (accepts_same rule hx).trans (decay_iff rule hprev)
  have hd : t + (retryAfter rule r t).1 = r.window * rule.windowSeconds + rule.windowSeconds *
      (1 - (rule.maxRequests - 1 - r.count) / r.prevCount) := by
    have hlate := (hin hw.symm).not.mp fun h => hfull ((accepts_same rule hw.symm).mp h)
    simp only [retryAfter, roll_eq_self rule hw.ge, if_neg hfull, if_pos hroom]
    push_cast
    rw [max_eq_right (sub_nonneg.mpr (not_le.mp hlate).le), add_sub_cancel]
  rw [hd] at hle ⊢
  rcases (hw.trans_le (windowOf_mono rule ht)).eq_or_lt with heq | hlt
  · exact hin heq.symm
  -- the next window begins with the count of this one, which leaves room
  have hbegin := (lt_windowOf_iff rule).mp hlt
  have hshare : 0 ≤ ((rule.maxRequests : ℚ) - 1 - r.count) / r.prevCount :=
    div_nonneg (by exact_mod_cast hroom.1) hprev.le
  have hscale := mul_nonneg rule.windowSeconds_pos.le hshare
  have hnow : t' = (r.window + 1) * rule.windowSeconds := by linarith
  have hnext : windowOf rule t' = r.window + 1 := by
    rw [windowOf_eq_iff, hnow]
    push_cast
    exact ⟨le_rfl, by linarith [rule.windowSeconds_pos]⟩
  refine iff_of_true ((accepts_next rule hnext).mpr ?_) (by linarith)
  have hcount : ((r.count + 1 : Int) : ℚ) ≤ rule.maxRequests := Int.cast_le.mpr (by omega)
  push_cast at hcount
  rw [hnow, sub_self, zero_div, sub_zero, mul_one, add_zero]
  exact hcount

theorem wait_next {r : WindowState} (hr : Current rule r t) (hw : r.window = windowOf rule t)
    (hfull : ¬ estimate rule r t + 1 ≤ rule.maxRequests) (hcount : r.count = rule.maxRequests)
    (hroom : ¬ (0 ≤ rule.maxRequests - 1 - r.count ∧ 0 < r.prevCount)) (ht : t ≤ t') :
    (tryAcquire rule r t').1 = true ↔ t + (retryAfter rule r t).1 ≤ t' := by
  have hW := rule.windowSeconds_pos
  have hone := maxRequests_one_le rule
  have hpos : (0 : ℚ) < r.count := Int.cast_pos.mpr (hcount ▸ rule.maxRequests_pos)
  have hcast : (r.count : ℚ) = rule.maxRequests := congrArg _ hcount
  have hend : t < (r.window + 1) * rule.windowSeconds := ((windowOf_eq_iff rule).mp hw.symm).2
  have hshare : 0 ≤ ((rule.maxRequests : ℚ) - 1 - 0) / r.count :=
    div_nonneg (by linarith) hpos.le
  have hshare' : ((rule.maxRequests : ℚ) - 1 - 0) / r.count ≤ 1 :=
    (div_le_one hpos).mpr (by linarith)
  have hearly := mul_nonneg hW.le (sub_nonneg.mpr hshare')
  have hlate := mul_nonneg hW.le hshare
  have hd : t + (retryAfter rule r t).1 = (r.window + 1) * rule.windowSeconds +
      rule.windowSeconds * (1 - (rule.maxRequests - 1 - 0) / r.count) := by
    simp only [retryAfter, roll_eq_self rule hw.ge, if_neg hfull, if_neg hroom]
    rw [sub_zero] at hearly ⊢
    rw [max_eq_right (by linarith)]
    ring
  rw [hd]
  rcases (hw.trans_le (windowOf_mono rule ht)).eq_or_lt with heq | hlt
  · have hbefore := ((windowOf_eq_iff rule).mp heq.symm).2
    refine iff_of_false (fun h => ?_) (by linarith)
    have hfit := (accepts_same rule heq.symm).mp h
    have hleft : 0 ≤ r.prevCount * (1 - fraction rule r t') :=
      mul_nonneg (Int.cast_nonneg hr.prevCount_nonneg) (sub_pos.mpr (fraction_lt_one rule heq)).le
    rw [estimate] at hfit
    linarith
  · rcases (Int.add_one_le_of_lt hlt).eq_or_lt with heq | hskip
    · exact (accepts_next rule heq.symm).trans (decay_iff rule hpos)
    · have hover := (lt_windowOf_iff rule).mp hskip
      push_cast at hover
      exact iff_of_true (accepts_skip rule hskip) (by linarith)

theorem metered :
    (SlidingWindowCounter rule).Metered (Current rule) fun s => s.count ≤ rule.maxRequests where
  within_newState := fun _ => rule.maxRequests_pos.le
  within_settle := fun hs => roll_count_le rule hs _
  within_tryAcquire := by
    intro s t hcurrent hs
    simp only [SlidingWindowCounter, tryAcquire]
    split
    case isTrue h =>
      have hleft : 0 ≤ (roll rule s t).prevCount * (1 - fraction rule (roll rule s t) t) :=
        mul_nonneg (Int.cast_nonneg hcurrent.roll.prevCount_nonneg)
          (sub_pos.mpr (fraction_lt_one rule (roll_window rule hcurrent.window_le))).le
      rw [estimate] at h
      have hcount : ((roll rule s t).count + 1 : ℚ) ≤ rule.maxRequests := by linarith
      exact_mod_cast hcount
    case isFalse => exact roll_count_le rule hs t
  remaining_nonneg := fun _ => le_max_left _ _
  tryAcquire_iff := by
    intro s t _
    refine (accepts_iff _ _).trans ?_
    show _ ↔ 1 ≤ max 0 ⌊rule.maxRequests - estimate rule (roll rule s t) t⌋
    rw [le_max_iff, or_iff_right (by decide), Int.le_floor, le_sub_iff_add_le', Int.cast_one]
  remaining_tryAcquire := by
    intro s t _ hok
    have hpermit := (accepts_iff _ _).mp hok
    have hroll : roll rule { roll rule s t with count := (roll rule s t).count + 1 } t = _ :=
      roll_eq_self rule (windowOf_le_roll rule s t)
    have hest : estimate rule { roll rule s t with count := (roll rule s t).count + 1 } t =
        estimate rule (roll rule s t) t + 1 := by
      simp only [estimate, fraction]
      push_cast
      ring
    have hfloor : 1 ≤ ⌊rule.maxRequests - estimate rule (roll rule s t) t⌋ :=
      Int.le_floor.mpr (by simpa using le_sub_iff_add_le'.mpr hpermit)
    show max 0 ⌊_ - estimate rule (roll rule (tryAcquire rule s t).2 t) t⌋ = max 0 ⌊_⌋ - 1
    rw [tryAcquire, if_pos hpermit, hroll, hest, ← sub_sub, Int.floor_sub_one]
    omega
  retryAfter_nonneg := by
    intro s t
    show 0 ≤ (retryAfter rule s t).1
    simp only [retryAfter]
    split
    · exact le_rfl
    · split <;> exact le_max_left _ _
  wait := by
    intro s t t' hcurrent hs ht hle
    have hw := roll_window rule hcurrent.window_le
    have hsame : (SlidingWindowCounter rule).retryAfter s t = retryAfter rule (roll rule s t) t :=
      ((lawful rule).looks ((lawful rule).settle_self s t)).2.2.symm
    rw [hsame] at hle ⊢
    show (tryAcquire rule (roll rule s t) t').1 = true ↔ _
    by_cases hfit : estimate rule (roll rule s t) t + 1 ≤ rule.maxRequests
    · have hzero : (retryAfter rule (roll rule s t) t).1 = 0 := by
        simp only [retryAfter, roll_self, if_pos hfit]
      rw [hzero, add_zero] at hle ⊢
      obtain rfl := le_antisymm ht hle
      exact iff_of_true ((accepts_same rule hw.symm).mpr hfit) le_rfl
    by_cases hroom : 0 ≤ rule.maxRequests - 1 - (roll rule s t).count ∧
        0 < (roll rule s t).prevCount
    · exact wait_fading rule hw hfit hroom hle ht
    refine wait_next rule hcurrent.roll hw hfit (le_antisymm (roll_count_le rule hs t) ?_) hroom ht
    -- without a previous count, the estimate is the count
    by_contra hlt
    have hprev : (roll rule s t).prevCount = 0 := by
      have hnonneg := hcurrent.roll.prevCount_nonneg
      omega
    refine hfit ?_
    rw [estimate, hprev, Int.cast_zero, zero_mul, zero_add]
    exact_mod_cast (by omega : (roll rule s t).count + 1 ≤ rule.maxRequests)

end SlidingWindowCounter

/-! ## All five -/

namespace AlgorithmKind

/-- What no call overdraws. -/
def Within (rule : RateLimitRule) : (kind : AlgorithmKind) → kind.State → Prop
  | tokenBucket => fun s : BucketState => 0 ≤ s.level
  | leakyBucket => fun s : BucketState => s.level ≤ rule.maxRequests
  | fixedWindow | slidingWindowCounter => fun s : WindowState => s.count ≤ rule.maxRequests
  | slidingWindowLog => fun s : LogState => (s.timestamps.length : Int) ≤ rule.maxRequests

theorem metered (kind : AlgorithmKind) :
    (kind.algorithm rule).Metered (kind.Current rule) (kind.Within rule) := by
  cases kind with
  | tokenBucket => exact TokenBucket.metered rule
  | leakyBucket => exact LeakyBucket.metered rule
  | fixedWindow => exact FixedWindowCounter.metered rule
  | slidingWindowLog => exact SlidingWindowLog.metered rule
  | slidingWindowCounter => exact SlidingWindowCounter.metered rule

variable {rule} (kind : AlgorithmKind) {s : kind.State} {t now : ℚ}

/-- The wait is exact: until it is over no request is accepted, and then one is. -/
theorem retryAfter_exact (h : (kind.algorithm rule).Reached s t) (ht : t ≤ now) :
    let (d, s) := (kind.algorithm rule).retryAfter s now
    0 ≤ d ∧ ((kind.algorithm rule).tryAcquire s (now + d)).1 = true ∧
      ∀ t', now ≤ t' → t' < now + d → ((kind.algorithm rule).tryAcquire s t').1 = false := by
  have hlaw := kind.lawful rule
  have hmeter := kind.metered rule
  obtain ⟨hcurrent, hwithin⟩ := h.within hlaw hmeter
  have hwait {t'} := @hmeter.wait s now t' (hlaw.current_mono hcurrent ht) hwithin
  rw [← hlaw.retryAfter_state] at hwait
  have hnonneg := hmeter.retryAfter_nonneg s now
  refine ⟨hnonneg, (hwait (le_add_of_nonneg_right hnonneg) le_rfl).mpr le_rfl, ?_⟩
  intro t' hle hlt
  exact Bool.eq_false_of_not_eq_true ((hwait hle hlt.le).not.mpr (not_le.mpr hlt))

/-- Both permits were used in the window before, and a request in this one has been denied. -/
theorem retryAfter_exact_denied :
    let algo := SlidingWindowCounter ⟨2, 10, by decide, by decide +kernel⟩
    let s := algo.call .tryAcquire (algo.call .tryAcquire (algo.call .tryAcquire
      (algo.newState 0) 1) 2) 12
    (algo.retryAfter s 12).1 = 3 ∧ (algo.tryAcquire (algo.retryAfter s 12).2 15).1 = true ∧
      ∀ t', 12 ≤ t' → t' < 15 → (algo.tryAcquire (algo.retryAfter s 12).2 t').1 = false := by
  intro algo s
  have hreached : algo.Reached s 12 := (((RateLimitAlgorithm.Reached.new 0).call _
    (by decide +kernel)).call _ (by decide +kernel)).call _ (by decide +kernel)
  have hwait : (algo.retryAfter s 12).1 = 3 := by decide +kernel
  obtain ⟨-, haccepted, hdenied⟩ := retryAfter_exact .slidingWindowCounter hreached le_rfl
  have hthen : 12 + (algo.retryAfter s 12).1 = 15 := by
    rw [hwait]
    norm_num
  exact ⟨hwait, hthen ▸ haccepted, fun t' hle hlt => hdenied t' hle (hthen ▸ hlt)⟩

/-- What remains is granted and no more, and asking changes no decision. -/
theorem remaining_exact (h : (kind.algorithm rule).Reached s t) (ht : t ≤ now) :
    (∃ n : Nat, ((kind.algorithm rule).remaining s now).1 = n ∧
      (kind.algorithm rule).Grants ((kind.algorithm rule).remaining s now).2 now n) ∧
    ∀ calls, (now :: calls.map Prod.snd).Pairwise (· ≤ ·) →
      (kind.algorithm rule).decisions s calls =
        (kind.algorithm rule).decisions s (calls.filter (·.1 = .tryAcquire)) := by
  have hlaw := kind.lawful rule
  have hmeter := kind.metered rule
  obtain ⟨hcurrent, hwithin⟩ := h.within hlaw hmeter
  have hnow := hlaw.current_mono hcurrent ht
  refine ⟨?_, fun calls hcalls => hlaw.decisions_eq hnow hnow rfl hcalls⟩
  obtain ⟨n, hn⟩ := Int.eq_ofNat_of_zero_le (hmeter.remaining_nonneg hwithin (t := now))
  refine ⟨n, hn, hmeter.grants hlaw (hlaw.current_settle hnow) (hmeter.within_settle hwithin) ?_⟩
  exact (congrArg Prod.fst (hlaw.looks (hlaw.settle_self s now)).2.1).trans hn

/-- Two of three permits are used, and queries come between the requests. -/
theorem remaining_exact_partlyUsed :
    let algo := SlidingWindowLog ⟨3, 10, by decide, by decide +kernel⟩
    let s := algo.call .tryAcquire (algo.call .tryAcquire (algo.newState 0) 1) 4
    (algo.remaining s 4).1 = 1 ∧ algo.Grants (algo.remaining s 4).2 4 1 ∧
      algo.decisions s [(.remaining, 4), (.tryAcquire, 5), (.retryAfter, 6), (.tryAcquire, 6),
          (.remaining, 11), (.tryAcquire, 12)] =
        algo.decisions s [(.tryAcquire, 5), (.tryAcquire, 6), (.tryAcquire, 12)] := by
  intro algo s
  have hreached : algo.Reached s 4 := ((RateLimitAlgorithm.Reached.new 0).call _
    (by decide +kernel)).call _ (by decide +kernel)
  have hremaining : (algo.remaining s 4).1 = 1 := by decide +kernel
  obtain ⟨⟨n, hn, hgrants⟩, hdecisions⟩ := remaining_exact .slidingWindowLog hreached le_rfl
  obtain rfl : n = 1 := Nat.cast_inj.mp (hn.symm.trans hremaining)
  exact ⟨hremaining, hgrants, hdecisions _ (by decide +kernel)⟩

end AlgorithmKind

end InterviewPrep.RateLimiting
