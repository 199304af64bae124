/-
  When a closed breaker with a count window opens on failures alone.

  The window holds at most `window_size` outcomes, so `minimum_calls` above that is never
  reached: `max(window_size, minimum_calls)` failures open the breaker exactly when
  `minimum_calls` is at most `window_size` (`run_trips_iff`).
-/
import InterviewPrep.Resilience.Protocol

namespace InterviewPrep.Resilience

open Lib List

variable {E : Type} {config : CircuitBreakerConfig E} {b : CircuitBreaker E}

/-! ## The window of a reachable breaker -/

/-- The window of `b` is a ring buffer of the size in `config`, with these outcomes. -/
structure Counts (config : CircuitBreakerConfig E) (b : CircuitBreaker E) (outcomes : List Bool) :
    Prop where
  config_eq : b.config = config
  window : ∃ w : CountBasedWindow config.windowSize.toNat,
    b.window = .count config.windowSize.toNat w ∧ w.Represents outcomes

namespace Counts

variable {outcomes : List Bool} (h : Counts config b outcomes)

include h

theorem record (success : Bool) (now : ℚ) :
    Counts config { b with window := b.window.record success now } (outcomes ++ [success]) := by
  obtain ⟨hconfig, w, hw, hrep⟩ := h
  refine ⟨hconfig, w.record success, ?_, hrep.record success⟩
  rw [hw]
  rfl

theorem transition (new : CircuitState) (now : ℚ) :
    ∃ outcomes', Counts config (b.transition new now).2 outcomes' := by
  obtain ⟨hconfig, w, hw, hrep⟩ := h
  by_cases hnew : new = .closed
  · refine ⟨[], hconfig, w.reset, ?_, .empty w.idx.pos⟩
    show (if new = .closed then b.window.reset else b.window) = _
    rw [if_pos hnew, hw]
    rfl
  · refine ⟨outcomes, hconfig, w, ?_, hrep⟩
    show (if new = .closed then b.window.reset else b.window) = _
    rw [if_neg hnew, hw]

theorem congr {b' : CircuitBreaker E} (hconfig : b'.config = b.config)
    (hwindow : b'.window = b.window) : Counts config b' outcomes :=
  ⟨hconfig.trans h.config_eq, by rw [hwindow]; exact h.window⟩

theorem maybeHalfOpen (now : ℚ) : ∃ outcomes', Counts config (b.maybeHalfOpen now).2 outcomes' := by
  rw [CircuitBreaker.maybeHalfOpen]
  split
  · exact h.transition .halfOpen now
  · exact ⟨outcomes, h⟩

theorem onResult (permit : Permit) (success : Bool) (now later : ℚ) :
    ∃ outcomes', Counts config (b.onResult permit success now later).2 outcomes' := by
  rw [CircuitBreaker.onResult]
  split
  · exact ⟨outcomes, h⟩
  split
  · simp only
    split
    · exact (h.record success now).transition .open later
    · exact ⟨_, h.record success now⟩
  · split
    · exact h.transition .open later
    · simp only
      split
      · exact (h.congr rfl rfl).transition .closed later
      · exact ⟨outcomes, h.congr rfl rfl⟩
  · exact ⟨outcomes, h⟩

theorem onError (permit : Permit) (exc : E) (now later : ℚ) :
    ∃ outcomes', Counts config (b.onError permit exc now later).2 outcomes' := by
  rw [CircuitBreaker.onError]
  split
  · exact h.onResult permit false now later
  · simp only [CircuitBreaker.release]
    split
    · exact ⟨outcomes, h.congr rfl rfl⟩
    · exact ⟨outcomes, h⟩

theorem acquire (now later : ℚ) :
    ∃ outcomes', Counts config (b.acquire now later).2.2 outcomes' := by
  obtain ⟨outcomes', hmid⟩ := h.maybeHalfOpen now
  refine ⟨outcomes', ?_⟩
  simp only [CircuitBreaker.acquire]
  split
  · exact hmid
  · split
    · exact hmid.congr rfl rfl
    · exact hmid

end Counts

theorem counts_new (hcount : config.windowType = .count)
    (hnew : CircuitBreaker.new config = .ok b) :
    Counts config b [] ∧ 0 < config.windowSize := by
  rw [CircuitBreaker.new, CircuitBreaker.newWindow, hcount] at hnew
  simp only [SlidingWindow.newCount] at hnew
  split at hnew
  case isTrue => cases hnew
  case isFalse hsize =>
    cases hnew
    exact ⟨⟨rfl, _, rfl, .empty _⟩, not_le.mp hsize⟩

theorem acquire_breaker (s : BreakerSystem E) (c : Nat) (now later : ℚ) :
    (s.acquire c now later).2.breaker = (s.breaker.acquire now later).2.2 := by
  rw [BreakerSystem.acquire]
  split
  case h_1 h => rw [h]
  case h_2 h => rw [h]

variable {outcomes : List Bool}

theorem Counts.step {s s' : BreakerSystem E} {a : BreakerStep E} {o : List BreakerEvent}
    (h : Counts config s.breaker outcomes) (hstep : s.step a = .ok (o, s')) :
    ∃ outcomes', Counts config s'.breaker outcomes' := by
  cases a with
  | acquire c now later =>
    simp only [BreakerSystem.step] at hstep
    split at hstep
    case h_1 => cases hstep
    case h_2 =>
    split at hstep
    case isTrue =>
      rw [← show (s.acquire c now later).2 = s' from congrArg Prod.snd (Except.ok.inj hstep),
        acquire_breaker]
      exact h.acquire now later
    case isFalse => cases hstep
  | onSuccess _ now later =>
    simp only [BreakerSystem.step] at hstep
    split at hstep
    case h_1 permit _ =>
      split at hstep
      case isTrue =>
        cases hstep
        exact h.onResult permit true now later
      case isFalse => cases hstep
    case h_2 => cases hstep
  | onError _ exc now later =>
    simp only [BreakerSystem.step] at hstep
    split at hstep
    case h_1 permit _ =>
      split at hstep
      case isTrue =>
        cases hstep
        exact h.onError permit exc now later
      case isFalse => cases hstep
    case h_2 => cases hstep
  | readState now =>
    simp only [BreakerSystem.step] at hstep
    split at hstep
    case isTrue =>
      cases hstep
      exact h.maybeHalfOpen now
    case isFalse => cases hstep
  | reset now =>
    simp only [BreakerSystem.step] at hstep
    split at hstep
    case isTrue =>
      cases hstep
      exact h.transition .closed now
    case isFalse => cases hstep

/-- The window of a breaker has its last outcomes, after every run. -/
theorem run_counts (hcount : config.windowType = .count) (hnew : CircuitBreaker.new config = .ok b)
    (start : ℚ) {steps : List (BreakerStep E)} {outs : List (List BreakerEvent)}
    {s : BreakerSystem E}
    (hrun : runSteps BreakerSystem.step (.init b start) steps = .ok (outs, s)) :
    ∃ outcomes, Counts config s.breaker outcomes := by
  refine runSteps_keeps (C := fun _ _ => True)
    (fun _ _ (t : BreakerSystem E) => ∃ outcomes, Counts config t.breaker outcomes) ?_ ?_
    (Guarded.of_forall (fun _ _ => trivial) _ _) hrun
  · intro _ _ t a o t' _ hI _ hstep
    obtain ⟨outcomes, h⟩ := hI
    exact h.step hstep
  · exact ⟨[], (counts_new hcount hnew).1⟩

/-! ## Failures in a row -/

/-- A call of `on_error`. -/
structure Failure (E : Type) where
  permit : Permit
  exc : E
  now : ℚ
  later : ℚ

/-- The breaker after failures in a row. -/
def CircuitBreaker.failAll (b : CircuitBreaker E) (failures : List (Failure E)) :
    CircuitBreaker E :=
  failures.foldl (fun b f => (b.onError f.permit f.exc f.now f.later).2) b

/-- A failure of the current generation that counts. -/
structure Failure.Current (b : CircuitBreaker E) (f : Failure E) : Prop where
  generation : f.permit.generation = b.generation
  counts : b.config.isFailure f.exc = true

/-- The condition under which the breaker opens on `snap`. -/
def Trips (config : CircuitBreakerConfig E) (snap : WindowSnapshot) : Prop :=
  config.minimumCalls ≤ snap.total ∧ config.failureRateThreshold ≤ snap.failureRate

theorem fail_closed {f : Failure E} (hf : f.Current b) (hclosed : b.state = .closed)
    (h : Counts config b outcomes) :
    ∃ window, Counts config { b with window } (outcomes ++ [false]) ∧
      (¬ Trips config (window.snapshot f.now) →
        (b.onError f.permit f.exc f.now f.later).2 = { b with window }) ∧
      (Trips config (window.snapshot f.now) → (b.onError f.permit f.exc f.now f.later).2 =
          ({ b with window }.transition .open f.later).2) := by
  refine ⟨b.window.record false f.now, h.record false f.now, fun htrip => ?_, fun htrip => ?_⟩
  · rw [CircuitBreaker.onError, if_pos hf.counts, CircuitBreaker.onResult,
      if_neg (not_not.mpr hf.generation), hclosed]
    rw [Trips, ← h.config_eq] at htrip
    simp only [if_neg htrip]
  · rw [CircuitBreaker.onError, if_pos hf.counts, CircuitBreaker.onResult,
      if_neg (not_not.mpr hf.generation), hclosed]
    rw [Trips, ← h.config_eq] at htrip
    simp only [if_pos htrip]

variable {fs : List (Failure E)}

theorem failAll_stale (hf : ∀ f ∈ fs, f.permit.generation ≠ b.generation) : b.failAll fs = b := by
  induction fs with
  | nil => rfl
  | cons f _ ih =>
    have hone := b.onError_stale (hf f mem_cons_self) f.exc f.now f.later
    rw [CircuitBreaker.failAll, foldl_cons, hone]
    exact ih fun f' hf' => hf f' (mem_cons_of_mem _ hf')

theorem Counts.snapshot_eq (h : Counts config b outcomes) (now now' : ℚ) :
    b.window.snapshot now = b.window.snapshot now' := by
  obtain ⟨-, w, hw, -⟩ := h
  rw [hw]
  rfl

theorem failAll_cases (hf : ∀ f ∈ fs, f.Current b)
    (hclosed : b.state = .closed) (h : Counts config b outcomes) : (b.failAll fs).state = .open ∨
      ∃ window, b.failAll fs = { b with window } ∧
        Counts config { b with window } (outcomes ++ List.replicate fs.length false) ∧
        (fs ≠ [] → ∀ now, ¬ Trips config (window.snapshot now)) := by
  induction fs generalizing b outcomes with
  | nil =>
    refine .inr ⟨b.window, rfl, ?_, fun hne => absurd rfl hne⟩
    rw [length_nil, replicate_zero, append_nil]
    exact h
  | cons f fs ih =>
    have hrest : ∀ f' ∈ fs, f'.Current b := fun f' hf' => hf f' (mem_cons_of_mem _ hf')
    obtain ⟨window, hcounts, hkeep, htrip⟩ := fail_closed (hf f mem_cons_self) hclosed h
    rw [CircuitBreaker.failAll, foldl_cons]
    by_cases ht : Trips config (window.snapshot f.now)
    · left
      rw [htrip ht]
      have hlater : ∀ f' ∈ fs, f'.permit.generation ≠
          ({ b with window }.transition .open f.later).2.generation := by
        intro f' hf' hgen
        have hne : b.generation = b.generation + 1 := (hrest f' hf').generation.symm.trans hgen
        omega
      have hstale := failAll_stale hlater
      rw [CircuitBreaker.failAll] at hstale
      rw [hstale]
      rfl
    rw [hkeep ht]
    rcases ih (b := { b with window }) (fun f' hf' => ⟨(hrest f' hf').1, (hrest f' hf').2⟩)
      hclosed hcounts with hopen | ⟨window', heq, hcounts', hquiet⟩
    · exact .inl hopen
    rw [append_assoc] at hcounts'
    refine .inr ⟨window', heq, hcounts', fun _ now => ?_⟩
    by_cases hfs : fs = []
    · subst hfs
      have hsame : window = window' := congrArg CircuitBreaker.window heq
      rw [← hsame, hcounts.snapshot_eq now f.now]
      exact ht
    · exact hquiet hfs now

theorem trips_of_full (hsize : 0 < config.windowSize)
    (hmin : config.minimumCalls ≤ config.windowSize) (now : ℚ)
    (h : Counts config b (outcomes ++ List.replicate config.windowSize.toNat false)) :
    Trips config (b.window.snapshot now) := by
  obtain ⟨-, w, hw, hrep⟩ := h
  have htotal : w.total = config.windowSize := by
    rw [hrep.total, length_append, length_replicate]
    omega
  have hfailures : w.failures = config.windowSize := by
    rw [hrep.failures, List.rtake, length_append, length_replicate, Nat.add_sub_cancel,
      drop_left, count_replicate_self]
    omega
  have hrate : (b.window.snapshot now).failureRate = 1 := by
    have hne : (config.windowSize : ℚ) ≠ 0 := Int.cast_ne_zero.mpr hsize.ne'
    rw [hw]
    show (if w.total = 0 then (0 : ℚ) else w.failures / w.total) = 1
    rw [htotal, hfailures, if_neg hsize.ne', div_self hne]
  refine ⟨?_, hrate ▸ config.threshold_le_one⟩
  rw [hw]
  show config.minimumCalls ≤ w.total
  rw [htotal]
  exact hmin

theorem not_trips_of_lt (hsize : 0 < config.windowSize)
    (hmin : config.windowSize < config.minimumCalls) (now : ℚ) (h : Counts config b outcomes) :
    ¬ Trips config (b.window.snapshot now) := by
  obtain ⟨-, w, hw, hrep⟩ := h
  have htotal : w.total ≤ config.windowSize := by
    rw [hrep.total]
    omega
  rintro ⟨hle, -⟩
  rw [hw] at hle
  change config.minimumCalls ≤ w.total at hle
  omega

theorem failAll_closed (hf : ∀ f ∈ fs, f.Current b)
    (hclosed : b.state = .closed) (h : Counts config b outcomes)
    (hsize : 0 < config.windowSize) (hmin : config.windowSize < config.minimumCalls) :
    (b.failAll fs).state = .closed := by
  induction fs generalizing b outcomes with
  | nil => exact hclosed
  | cons f fs ih =>
    have hrest : ∀ f' ∈ fs, f'.Current b := fun f' hf' => hf f' (mem_cons_of_mem _ hf')
    obtain ⟨window, hcounts, hkeep, -⟩ := fail_closed (hf f mem_cons_self) hclosed h
    rw [CircuitBreaker.failAll, foldl_cons, hkeep (not_trips_of_lt hsize hmin f.now hcounts)]
    exact ih (b := { b with window }) (fun f' hf' => ⟨(hrest f' hf').1, (hrest f' hf').2⟩) hclosed
      hcounts

theorem failAll_open (hf : ∀ f ∈ fs, f.Current b)
    (hclosed : b.state = .closed) (h : Counts config b outcomes)
    (hsize : 0 < config.windowSize) (hmin : config.minimumCalls ≤ config.windowSize)
    (hlen : fs.length = config.windowSize.toNat) : (b.failAll fs).state = .open := by
  have hne : fs ≠ [] := by
    rintro rfl
    rw [length_nil] at hlen
    omega
  rcases failAll_cases hf hclosed h with hopen | ⟨window, -, hcounts, hquiet⟩
  · exact hopen
  · rw [hlen] at hcounts
    exact absurd (trips_of_full hsize hmin 0 hcounts) (hquiet hne 0)

/-! ## When it trips -/

/-- In every state that is reached closed, `max(window_size, minimum_calls)` failures leave the
    breaker open exactly when `minimum_calls` is at most `window_size`. -/
theorem run_trips_iff (config : CircuitBreakerConfig E) (hcount : config.windowType = .count)
    (b : CircuitBreaker E) (hnew : CircuitBreaker.new config = .ok b) (start : ℚ)
    (steps : List (BreakerStep E)) (outs : List (List BreakerEvent)) (s : BreakerSystem E)
    (hrun : runSteps BreakerSystem.step (.init b start) steps = .ok (outs, s))
    (hclosed : s.breaker.state = .closed) (failures : List (Failure E))
    (hcurrent : ∀ f ∈ failures, f.Current s.breaker)
    (hlen : (failures.length : Int) = max config.windowSize config.minimumCalls) :
    (s.breaker.failAll failures).state = .open ↔ config.minimumCalls ≤ config.windowSize := by
  obtain ⟨outcomes, hcounts⟩ := run_counts hcount hnew start hrun
  have hsize := (counts_new hcount hnew).2
  constructor
  · intro hopen
    by_contra hmin
    have hstays := failAll_closed hcurrent hclosed hcounts hsize (not_le.mp hmin)
    cases hstays.symm.trans hopen
  · intro hmin
    exact failAll_open hcurrent hclosed hcounts hsize hmin (by omega)

/-- The default config with every error a failure, but for the sizes. -/
def sized (windowSize minimumCalls : Int) (h : 1 ≤ minimumCalls) : CircuitBreakerConfig Unit where
  isFailure := fun _ => true
  failureRateThreshold := 1 / 2
  windowType := .count
  windowSize := windowSize
  minimumCalls := minimumCalls
  openDuration := 30
  halfOpenMaxCalls := 3
  threshold_pos := by decide +kernel
  threshold_le_one := by decide +kernel
  minimumCalls_pos := h
  halfOpenMaxCalls_pos := by decide
  openDuration_nonneg := by decide +kernel

/-- `n` failures at once of the first generation. -/
def firstFailures (n : Nat) : List (Failure Unit) := List.replicate n ⟨⟨0, .closed⟩, (), 0, 0⟩

/-- `run_trips_iff` for a new breaker with a window of two and a minimum of one. -/
theorem run_trips_iff_two : ∃ b, CircuitBreaker.new (sized 2 1 (Int.le_refl 1)) = .ok b ∧
      ((b.failAll (firstFailures 2)).state = .open ↔ (1 : Int) ≤ 2) :=
  ⟨_, rfl, run_trips_iff (sized 2 1 (Int.le_refl 1)) rfl _ rfl 0 [] [] (.init _ 0) rfl rfl
    (firstFailures 2) (fun f hf => by
      rw [eq_of_mem_replicate hf]
      exact ⟨rfl, rfl⟩) rfl⟩

/-- A window of five with the default minimum of ten calls: ten failures leave the
    breaker closed. -/
theorem smallWindow_staysClosed :
    ∃ config b, CircuitBreakerConfig.create (fun _ : Unit => true) (1 / 2) .count 5 = .ok config ∧
      CircuitBreaker.new config = .ok b ∧ b.state = .closed ∧
      (∀ f ∈ firstFailures 10, f.Current b) ∧
      ((firstFailures 10).length : Int) = max config.windowSize config.minimumCalls ∧
      (b.failAll (firstFailures 10)).state ≠ .open := by
  refine ⟨sized 5 10 (by decide), _, ?_, rfl, rfl, fun f hf => ?_, rfl, by decide +kernel⟩
  · rw [CircuitBreakerConfig.create, dif_neg (by decide +kernel), dif_neg (by decide +kernel)]
    rfl
  · rw [eq_of_mem_replicate hf]
    exact ⟨rfl, rfl⟩

end InterviewPrep.Resilience
