/-
  The algorithms are lazy: a state is brought up to date (`settle`) only when a method looks at
  it.  `Lawful` says what that needs to be unobservable: every method looks at the settled state
  only, settling twice is settling once, and an idle state settles like a new one.  Each of the
  five algorithms is lawful on the states its calls reach at non-decreasing times.
-/
import InterviewPrep.RateLimiting.Limiter

namespace InterviewPrep.RateLimiting

open Lib List

/-! ## Lazy algorithms -/

section

variable {S : Type}

/-- The state brought up to date, as each method does first. -/
def RateLimitAlgorithm.settle (algo : RateLimitAlgorithm S) (s : S) (now : ℚ) : S :=
  (algo.remaining s now).2

theorem RateLimitAlgorithm.isIdle_eq (algo : RateLimitAlgorithm S) (s : S) (now : ℚ) :
    algo.isIdle s now =
      (decide (algo.rule.maxRequests ≤ (algo.remaining s now).1), algo.settle s now) := rfl

/-- The laws of a lazy algorithm. `Current s now`: the state was last used no later than `now`. -/
structure RateLimitAlgorithm.Lawful (algo : RateLimitAlgorithm S) (Current : S → ℚ → Prop) :
    Prop where
  current_newState : ∀ {t t'}, t ≤ t' → Current (algo.newState t) t'
  current_mono : ∀ {s t t'}, Current s t → t ≤ t' → Current s t'
  current_settle : ∀ {s t}, Current s t → Current (algo.settle s t) t
  current_tryAcquire : ∀ {s t}, Current s t → Current (algo.tryAcquire s t).2 t
  looks : ∀ {s s' t}, algo.settle s t = algo.settle s' t →
    algo.tryAcquire s t = algo.tryAcquire s' t ∧ algo.remaining s t = algo.remaining s' t ∧
      algo.retryAfter s t = algo.retryAfter s' t
  settle_self : ∀ s t, algo.settle (algo.settle s t) t = algo.settle s t
  retryAfter_state : ∀ s t, (algo.retryAfter s t).2 = algo.settle s t
  settle_settle : ∀ {s t t'}, Current s t → t ≤ t' →
    algo.settle (algo.settle s t) t' = algo.settle s t'
  settle_newState : ∀ {t t₁ t₂}, t₁ ≤ t → t₂ ≤ t →
    algo.settle (algo.newState t₁) t = algo.settle (algo.newState t₂) t
  settle_idle : ∀ {s t}, Current s t → algo.rule.maxRequests ≤ (algo.remaining s t).1 →
    algo.settle s t = algo.settle (algo.newState t) t

namespace RateLimitAlgorithm.Lawful

variable {algo : RateLimitAlgorithm S} {Current : S → ℚ → Prop} (h : algo.Lawful Current)
  {s s' : S} {t t₁ t' : ℚ}

include h

theorem settle_of_idle (hs : Current s t)
    (hidle : algo.rule.maxRequests ≤ (algo.remaining s t).1) (ht : t ≤ t') (ht1 : t₁ ≤ t') :
    algo.settle s t' = algo.settle (algo.newState t₁) t' := by
  have hnew : Current (algo.newState t) t := h.current_newState le_rfl
  calc algo.settle s t' = algo.settle (algo.settle s t) t' := (h.settle_settle hs ht).symm
    _ = algo.settle (algo.settle (algo.newState t) t) t' := by rw [h.settle_idle hs hidle]
    _ = algo.settle (algo.newState t) t' := h.settle_settle hnew ht
    _ = algo.settle (algo.newState t₁) t' := h.settle_newState ht ht1

end RateLimitAlgorithm.Lawful

end

variable (rule : RateLimitRule)

theorem windowOf_mono {t t' : ℚ} (h : t ≤ t') : windowOf rule t ≤ windowOf rule t' :=
  Int.floor_le_floor (div_le_div_of_nonneg_right h rule.windowSeconds_pos.le)

/-! ## The buckets -/

/-- A bucket last used no later than `now`. -/
def BucketState.Current (s : BucketState) (now : ℚ) : Prop := s.last ≤ now

namespace TokenBucket

theorem refill_refill {s : BucketState} {t t' : ℚ} (hs : s.last ≤ t) (ht : t ≤ t') :
    refill rule (refill rule s t) t' = refill rule s t' := by
  have hrate : 0 ≤ rule.rate := rule.rate_pos.le
  have hgain : 0 ≤ (t' - t) * rule.rate := mul_nonneg (sub_nonneg.mpr ht) hrate
  simp only [refill, max_eq_right (sub_nonneg.mpr hs), max_eq_right (sub_nonneg.mpr ht),
    max_eq_right (sub_nonneg.mpr (hs.trans ht)), BucketState.mk.injEq, and_true]
  rw [show s.level + (t' - s.last) * rule.rate =
    s.level + (t - s.last) * rule.rate + (t' - t) * rule.rate by ring]
  rcases le_total (rule.maxRequests : ℚ) (s.level + (t - s.last) * rule.rate) with hfull | hfull
  · rw [min_eq_left hfull, min_eq_left (by linarith), min_eq_left (by linarith)]
  · rw [min_eq_right hfull]

theorem refill_self (s : BucketState) (t : ℚ) :
    refill rule (refill rule s t) t = refill rule s t := by
  simp only [refill, sub_self, max_self, zero_mul, add_zero, ← min_assoc, min_self]

theorem refill_newState {t t₁ : ℚ} (ht : t₁ ≤ t) :
    refill rule (newState rule t₁) t = ⟨rule.maxRequests, t⟩ := by
  have hgain : 0 ≤ (t - t₁) * rule.rate := mul_nonneg (sub_nonneg.mpr ht) rule.rate_pos.le
  rw [refill, newState, max_eq_right (sub_nonneg.mpr ht), min_eq_left (by linarith)]

theorem lawful : (TokenBucket rule).Lawful BucketState.Current where
  current_newState := id
  current_mono := le_trans
  current_settle := fun _ => le_refl _
  current_tryAcquire := by
    intro s t _
    simp only [TokenBucket, tryAcquire]
    split <;> exact le_refl _
  looks := fun {s s' t} (hs : refill rule s t = refill rule s' t) => by
    simp only [TokenBucket, tryAcquire, remaining, retryAfter, hs, and_self]
  settle_self := refill_self rule
  retryAfter_state := fun _ _ => rfl
  settle_settle := refill_refill rule
  settle_newState := by
    intro t t₁ t2 h1 h2
    exact (refill_newState rule h1).trans (refill_newState rule h2).symm
  settle_idle := by
    intro s t _ hidle
    refine Eq.trans ?_ (refill_newState rule (le_refl t)).symm
    have hfull := le_of_le_truncate rule.maxRequests_pos hidle
    exact congrArg (BucketState.mk · t) (le_antisymm (min_le_left _ _) hfull)

end TokenBucket

namespace LeakyBucket

theorem leak_leak {s : BucketState} {t t' : ℚ} (hs : s.last ≤ t) (ht : t ≤ t') :
    leak rule (leak rule s t) t' = leak rule s t' := by
  have hloss : 0 ≤ (t' - t) * rule.rate := mul_nonneg (sub_nonneg.mpr ht) rule.rate_pos.le
  simp only [leak, max_eq_right (sub_nonneg.mpr hs), max_eq_right (sub_nonneg.mpr ht),
    max_eq_right (sub_nonneg.mpr (hs.trans ht)), BucketState.mk.injEq, and_true]
  rw [show s.level - (t' - s.last) * rule.rate =
    s.level - (t - s.last) * rule.rate - (t' - t) * rule.rate by ring]
  rcases le_total (s.level - (t - s.last) * rule.rate) 0 with hempty | hempty
  · rw [max_eq_left hempty, max_eq_left (by linarith), max_eq_left (by linarith)]
  · rw [max_eq_right hempty]

theorem leak_self (s : BucketState) (t : ℚ) : leak rule (leak rule s t) t = leak rule s t := by
  simp only [leak, sub_self, max_self, zero_mul, sub_zero, ← max_assoc]

theorem leak_newState {t t₁ : ℚ} (ht : t₁ ≤ t) : leak rule (newState t₁) t = ⟨0, t⟩ := by
  have hloss : 0 ≤ (t - t₁) * rule.rate := mul_nonneg (sub_nonneg.mpr ht) rule.rate_pos.le
  rw [leak, newState, max_eq_right (sub_nonneg.mpr ht), max_eq_left (by linarith)]

theorem lawful : (LeakyBucket rule).Lawful BucketState.Current where
  current_newState := id
  current_mono := le_trans
  current_settle := fun _ => le_refl _
  current_tryAcquire := by
    intro s t _
    simp only [LeakyBucket, tryAcquire]
    split <;> exact le_refl _
  looks := fun {s s' t} (hs : leak rule s t = leak rule s' t) => by
    simp only [LeakyBucket, tryAcquire, remaining, retryAfter, hs, and_self]
  settle_self := leak_self rule
  retryAfter_state := fun _ _ => rfl
  settle_settle := leak_leak rule
  settle_newState := by
    intro t t₁ t2 h1 h2
    exact (leak_newState rule h1).trans (leak_newState rule h2).symm
  settle_idle := by
    intro s t _ hidle
    refine Eq.trans ?_ (leak_newState rule (le_refl t)).symm
    have hfull := le_of_le_truncate rule.maxRequests_pos hidle
    have hempty : (leak rule s t).level ≤ 0 := by linarith
    exact congrArg (BucketState.mk · t) (le_antisymm hempty (le_max_left _ _))

end LeakyBucket

/-! ## The windows -/

namespace FixedWindowCounter

/-- A state of a window that has begun by `now`. -/
structure Current (s : WindowState) (now : ℚ) : Prop where
  window_le : s.window ≤ windowOf rule now
  count_nonneg : 0 ≤ s.count
  prevCount_eq : s.prevCount = 0

variable {s : WindowState} {t : ℚ}

theorem roll_of_lt (hs : s.window < windowOf rule t) :
    roll rule s t = ⟨windowOf rule t, 0, s.prevCount⟩ :=
  if_pos hs

theorem roll_eq_self (hs : windowOf rule t ≤ s.window) : roll rule s t = s :=
  if_neg (not_lt.mpr hs)

theorem roll_window (hs : s.window ≤ windowOf rule t) :
    (roll rule s t).window = windowOf rule t := by
  rcases hs.lt_or_eq with hlt | heq
  · rw [roll_of_lt rule hlt]
  · rw [roll_eq_self rule heq.ge, heq]

theorem windowOf_le_roll (s : WindowState) (t : ℚ) : windowOf rule t ≤ (roll rule s t).window := by
  rcases lt_or_ge s.window (windowOf rule t) with hlt | hge
  · rw [roll_of_lt rule hlt]
  · rw [roll_eq_self rule hge]
    exact hge

theorem roll_self (s : WindowState) (t : ℚ) : roll rule (roll rule s t) t = roll rule s t :=
  roll_eq_self rule (windowOf_le_roll rule s t)

theorem roll_roll {t' : ℚ} (hs : s.window ≤ windowOf rule t) (ht : t ≤ t') :
    roll rule (roll rule s t) t' = roll rule s t' := by
  rcases hs.lt_or_eq with hlt | heq
  · have hw := windowOf_mono rule ht
    rw [roll_of_lt rule hlt, roll_of_lt rule (hlt.trans_le hw)]
    rcases hw.lt_or_eq with hlt' | heq'
    · exact roll_of_lt rule hlt'
    · rw [roll_eq_self rule heq'.ge, heq']
  · rw [roll_eq_self rule heq.ge]

theorem roll_newState {t₁ : ℚ} (ht : t₁ ≤ t) :
    roll rule (newState rule t₁) t = ⟨windowOf rule t, 0, 0⟩ := by
  rcases (windowOf_mono rule ht).lt_or_eq with hlt | heq
  · exact roll_of_lt rule hlt
  · rw [roll_eq_self rule heq.ge, newState, heq]

theorem Current.roll (hs : Current rule s t) : Current rule (roll rule s t) t := by
  rcases hs.window_le.lt_or_eq with hlt | heq
  · rw [roll_of_lt rule hlt]
    exact ⟨le_rfl, le_refl 0, hs.prevCount_eq⟩
  · rw [roll_eq_self rule heq.ge]
    exact hs

theorem lawful : (FixedWindowCounter rule).Lawful (Current rule) where
  current_newState := fun ht => ⟨windowOf_mono rule ht, le_refl 0, rfl⟩
  current_mono := fun hs ht => { hs with window_le := hs.window_le.trans (windowOf_mono rule ht) }
  current_settle := Current.roll rule
  current_tryAcquire := by
    intro s t hs
    have hroll := hs.roll
    simp only [FixedWindowCounter, tryAcquire]
    split
    · exact { hroll with count_nonneg := Int.le_add_one hroll.count_nonneg }
    · exact hroll
  looks := fun {s s' t} (hs : roll rule s t = roll rule s' t) => by
    simp only [FixedWindowCounter, tryAcquire, remaining, retryAfter, hs, and_self]
  settle_self := roll_self rule
  retryAfter_state := fun _ _ => rfl
  settle_settle := fun hs ht => roll_roll rule hs.window_le ht
  settle_newState := by
    intro t t₁ t2 h1 h2
    exact (roll_newState rule h1).trans (roll_newState rule h2).symm
  settle_idle := by
    intro s t hs hidle
    refine Eq.trans ?_ (roll_newState rule (le_refl t)).symm
    have hroll := hs.roll
    have hcount : (roll rule s t).count = 0 := by
      have hle : rule.maxRequests ≤ rule.maxRequests - (roll rule s t).count := hidle
      have hnn := hroll.count_nonneg
      omega
    calc roll rule s t
        = ⟨(roll rule s t).window, (roll rule s t).count, (roll rule s t).prevCount⟩ := rfl
      _ = _ := by rw [roll_window rule hs.window_le, hcount, hroll.prevCount_eq]

end FixedWindowCounter

namespace SlidingWindowLog

theorem evict_evict (s : LogState) {t t' : ℚ} (ht : t ≤ t') :
    evict rule (evict rule s t) t' = evict rule s t' := by
  simp only [evict, LogState.mk.injEq]
  induction s.timestamps with
  | nil => rfl
  | cons x _ ih =>
    by_cases hx : x ≤ t - rule.windowSeconds
    · have hx' : x ≤ t' - rule.windowSeconds := by linarith
      rw [dropWhile_cons_of_pos (by simpa using hx), ih,
        dropWhile_cons_of_pos (by simpa using hx')]
    · rw [dropWhile_cons_of_neg (by simpa using hx)]

theorem lawful : (SlidingWindowLog rule).Lawful fun _ _ => True where
  current_newState := fun _ => trivial
  current_mono := fun _ _ => trivial
  current_settle := fun _ => trivial
  current_tryAcquire := fun _ => trivial
  looks := fun {s s' t} (hs : evict rule s t = evict rule s' t) => by
    simp only [SlidingWindowLog, tryAcquire, remaining, retryAfter, hs, and_self]
  settle_self := fun s _ => evict_evict rule s le_rfl
  retryAfter_state := fun _ _ => rfl
  settle_settle := fun {s} _ _ _ ht => evict_evict rule s ht
  settle_newState := fun _ _ => rfl
  settle_idle := by
    intro s t _ hidle
    have hle : rule.maxRequests ≤ rule.maxRequests - (evict rule s t).timestamps.length := hidle
    have hnil : (evict rule s t).timestamps = [] := length_eq_zero_iff.mp (by omega)
    exact congrArg LogState.mk hnil

end SlidingWindowLog

namespace SlidingWindowCounter

/-- A state of a window that has begun by `now`. -/
structure Current (s : WindowState) (now : ℚ) : Prop where
  window_le : s.window ≤ windowOf rule now
  count_nonneg : 0 ≤ s.count
  prevCount_nonneg : 0 ≤ s.prevCount

variable {s : WindowState} {t : ℚ}

theorem roll_cases (hs : s.window ≤ windowOf rule t) :
    (windowOf rule t = s.window ∧ roll rule s t = s) ∨
      (windowOf rule t = s.window + 1 ∧ roll rule s t = ⟨windowOf rule t, 0, s.count⟩) ∨
      (s.window + 1 < windowOf rule t ∧ roll rule s t = ⟨windowOf rule t, 0, 0⟩) := by
  simp only [roll]
  split
  case isTrue h => exact .inr (.inl ⟨h, rfl⟩)
  case isFalse =>
    split
    case isTrue hlt => exact .inr (.inr ⟨hlt, rfl⟩)
    case isFalse => exact .inl ⟨by omega, rfl⟩

theorem roll_eq_self (hs : windowOf rule t ≤ s.window) : roll rule s t = s := by
  rw [roll, if_neg (by omega), if_neg (by omega)]

theorem roll_window (hs : s.window ≤ windowOf rule t) :
    (roll rule s t).window = windowOf rule t := by
  rcases roll_cases rule hs with ⟨hw, hroll⟩ | ⟨-, hroll⟩ | ⟨-, hroll⟩
  · rw [hroll, hw]
  · rw [hroll]
  · rw [hroll]

theorem windowOf_le_roll (s : WindowState) (t : ℚ) : windowOf rule t ≤ (roll rule s t).window := by
  rcases le_total s.window (windowOf rule t) with hle | hge
  · rw [roll_window rule hle]
  · rw [roll_eq_self rule hge]
    exact hge

theorem roll_self (s : WindowState) (t : ℚ) : roll rule (roll rule s t) t = roll rule s t :=
  roll_eq_self rule (windowOf_le_roll rule s t)

theorem roll_of_skip (hs : s.window + 1 < windowOf rule t) :
    roll rule s t = ⟨windowOf rule t, 0, 0⟩ := by
  rw [roll, if_neg (by omega), if_pos hs]

theorem roll_of_count_zero {w prev : Int} (hs : w < windowOf rule t) :
    roll rule ⟨w, 0, prev⟩ t = ⟨windowOf rule t, 0, 0⟩ := by
  rcases roll_cases rule (s := ⟨w, 0, prev⟩) hs.le with ⟨hw, -⟩ | ⟨-, hroll⟩ | ⟨-, hroll⟩
  · exact absurd hw hs.ne'
  · exact hroll
  · exact hroll

theorem roll_roll {t' : ℚ} (hs : s.window ≤ windowOf rule t) (ht : t ≤ t') :
    roll rule (roll rule s t) t' = roll rule s t' := by
  have hw := windowOf_mono rule ht
  rcases roll_cases rule hs with ⟨-, hroll⟩ | ⟨hnext, hroll⟩ | ⟨hskip, hroll⟩
  · rw [hroll]
  · rw [hroll]
    rcases hw.lt_or_eq with hlt | heq
    · rw [roll_of_count_zero rule hlt, roll_of_skip rule (s := s) (by omega)]
    · rw [roll_eq_self rule heq.ge, ← hroll, roll, roll, heq]
  · rw [hroll, roll_of_skip rule (s := s) (by omega)]
    rcases hw.lt_or_eq with hlt | heq
    · exact roll_of_count_zero rule hlt
    · rw [roll_eq_self rule heq.ge, heq]

theorem roll_newState {t₁ : ℚ} (ht : t₁ ≤ t) :
    roll rule (newState rule t₁) t = ⟨windowOf rule t, 0, 0⟩ := by
  rcases (windowOf_mono rule ht).lt_or_eq with hlt | heq
  · exact roll_of_count_zero rule hlt
  · rw [roll_eq_self rule heq.ge, newState, heq]

theorem Current.roll (hs : Current rule s t) : Current rule (roll rule s t) t := by
  rcases roll_cases rule hs.window_le with ⟨-, hroll⟩ | ⟨-, hroll⟩ | ⟨-, hroll⟩
  · rw [hroll]
    exact hs
  · rw [hroll]
    exact ⟨le_rfl, le_refl 0, hs.count_nonneg⟩
  · rw [hroll]
    exact ⟨le_rfl, le_refl 0, le_refl 0⟩

theorem fraction_lt_one (hs : s.window = windowOf rule t) : fraction rule s t < 1 := by
  have hW := rule.windowSeconds_pos
  rw [fraction, div_lt_one hW, hs, sub_lt_iff_lt_add', ← add_one_mul, ← div_lt_iff₀ hW]
  exact Int.lt_floor_add_one _

theorem counts_eq_zero (hs : Current rule s t) (hw : s.window = windowOf rule t)
    (hest : estimate rule s t ≤ 0) : s.count = 0 ∧ s.prevCount = 0 := by
  have hf : 0 < 1 - fraction rule s t := sub_pos.mpr (fraction_lt_one rule hw)
  have hc : (0 : ℚ) ≤ s.count := Int.cast_nonneg hs.count_nonneg
  have hp : (0 : ℚ) ≤ s.prevCount := Int.cast_nonneg hs.prevCount_nonneg
  have hprod : 0 ≤ s.prevCount * (1 - fraction rule s t) := mul_nonneg hp hf.le
  rw [estimate] at hest
  have hcount : (s.count : ℚ) = 0 := by linarith
  have hzero : (s.prevCount : ℚ) * (1 - fraction rule s t) = 0 := by linarith
  exact ⟨Int.cast_eq_zero.mp hcount, Int.cast_eq_zero.mp ((mul_eq_zero_iff_right hf.ne').mp hzero)⟩

theorem lawful : (SlidingWindowCounter rule).Lawful (Current rule) where
  current_newState := fun ht => ⟨windowOf_mono rule ht, le_refl 0, le_refl 0⟩
  current_mono := fun hs ht => { hs with window_le := hs.window_le.trans (windowOf_mono rule ht) }
  current_settle := Current.roll rule
  current_tryAcquire := by
    intro s t hs
    have hroll := hs.roll
    simp only [SlidingWindowCounter, tryAcquire]
    split
    · exact { hroll with count_nonneg := Int.le_add_one hroll.count_nonneg }
    · exact hroll
  looks := fun {s s' t} (hs : roll rule s t = roll rule s' t) => by
    simp only [SlidingWindowCounter, tryAcquire, remaining, retryAfter, hs, and_self]
  settle_self := roll_self rule
  retryAfter_state := fun s t => by
    show (retryAfter rule s t).2 = roll rule s t
    simp only [retryAfter]
    split
    · rfl
    · split <;> rfl
  settle_settle := fun hs ht => roll_roll rule hs.window_le ht
  settle_newState := by
    intro t t₁ t2 h1 h2
    exact (roll_newState rule h1).trans (roll_newState rule h2).symm
  settle_idle := by
    intro s t hs hidle
    refine Eq.trans ?_ (roll_newState rule (le_refl t)).symm
    have hwindow := roll_window rule hs.window_le
    have hfloor : rule.maxRequests ≤ ⌊rule.maxRequests - estimate rule (roll rule s t) t⌋ :=
      (le_max_iff.mp hidle).resolve_left (not_le.mpr rule.maxRequests_pos)
    have hest : estimate rule (roll rule s t) t ≤ 0 := by
      have := Int.le_floor.mp hfloor
      linarith
    obtain ⟨hcount, hprev⟩ := counts_eq_zero rule hs.roll hwindow hest
    calc roll rule s t
        = ⟨(roll rule s t).window, (roll rule s t).count, (roll rule s t).prevCount⟩ := rfl
      _ = _ := by rw [hwindow, hcount, hprev]

end SlidingWindowCounter

/-! ## All five -/

namespace AlgorithmKind

/-- What a state of the algorithm last used no later than `now` meets. -/
def Current (rule : RateLimitRule) : (kind : AlgorithmKind) → kind.State → ℚ → Prop
  | tokenBucket | leakyBucket => BucketState.Current
  | fixedWindow => FixedWindowCounter.Current rule
  | slidingWindowLog => fun _ _ => True
  | slidingWindowCounter => SlidingWindowCounter.Current rule

theorem lawful (kind : AlgorithmKind) : (kind.algorithm rule).Lawful (kind.Current rule) := by
  cases kind with
  | tokenBucket => exact TokenBucket.lawful rule
  | leakyBucket => exact LeakyBucket.lawful rule
  | fixedWindow => exact FixedWindowCounter.lawful rule
  | slidingWindowLog => exact SlidingWindowLog.lawful rule
  | slidingWindowCounter => exact SlidingWindowCounter.lawful rule

end AlgorithmKind

end InterviewPrep.RateLimiting
