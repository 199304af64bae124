/-
  `RetryBudget` and `Retry.call` (circuit_breaker.py): calls that share a budget,
  one after another, over exact rationals.

  A retry comes after a charge of one whole token that left more than half of
  them, and a success gives back at most `ratio`; so the retries cost at most
  `max / 2` tokens more than the successes gave back (`run_retries_le`).
-/
import Mathlib.Tactic.Linarith

namespace InterviewPrep.Resilience

open List

/-! ## The budget -/

structure RetryBudget where
  max : ℚ
  ratio : ℚ
  tokens : ℚ

namespace RetryBudget

def new (max ratio : ℚ) : RetryBudget := ⟨max, ratio, max⟩

variable (b : RetryBudget)

def onSuccess : RetryBudget := { b with tokens := min b.max (b.tokens + b.ratio) }

def onFailure : RetryBudget := { b with tokens := Max.max 0 (b.tokens - 1) }

def canRetry : Bool := b.max / 2 < b.tokens

end RetryBudget

/-! ## Calls -/

/-- What one attempt does: return, raise an `Exception` that is retried or not, or any other. -/
inductive Attempt where
  | returns
  | raises (retryable : Bool)
  | escapes

inductive CallEnd where
  | returned
  | raised
  | budgetExhausted
  | escaped

/-- What happens to the budget, each with the tokens it then has. -/
inductive Moment where
  | charged (tokens : ℚ)
  | retried (tokens : ℚ)
  | succeeded (tokens : ℚ)

def Moment.tokens : Moment → ℚ
  | .charged t | .retried t | .succeeded t => t

/-- The attempts beyond the first. -/
def retries (ms : List Moment) : Nat := ms.countP fun m => m matches .retried _

def successCount (ms : List Moment) : Nat := ms.countP fun m => m matches .succeeded _

/-- `Retry.call` from the given attempt on; `fn` says what each attempt does. -/
def callFrom (maxAttempts : Int) (fn : Int → Attempt) (attempt : Int) (b : RetryBudget) :
    List Moment × CallEnd × RetryBudget :=
  match fn attempt with
  | .returns => ([.succeeded b.onSuccess.tokens], .returned, b.onSuccess)
  | .escapes => ([], .escaped, b)
  | .raises false => ([], .raised, b)
  | .raises true =>
    let b := b.onFailure
    if maxAttempts ≤ attempt then ([.charged b.tokens], .raised, b)
    else if ¬ b.canRetry then ([.charged b.tokens], .budgetExhausted, b)
    else
      let (ms, e, b') := callFrom maxAttempts fn (attempt + 1) b
      (.charged b.tokens :: .retried b.tokens :: ms, e, b')
termination_by (maxAttempts - attempt).toNat

/-- A call: the configured number of attempts, and what each of them does. -/
structure RetryCall where
  maxAttempts : Int
  fn : Int → Attempt
  maxAttempts_pos : 1 ≤ maxAttempts

def RetryCall.call (c : RetryCall) (b : RetryBudget) : List Moment × CallEnd × RetryBudget :=
  callFrom c.maxAttempts c.fn 1 b

def runCalls (b : RetryBudget) : List RetryCall → List Moment × RetryBudget
  | [] => ([], b)
  | c :: cs =>
    let (ms, _, b) := c.call b
    let (ms', b) := runCalls b cs
    (ms ++ ms', b)

/-! ## What a moment keeps -/

variable {max ratio : ℚ} {b : RetryBudget} {n s : Nat}

/-- The budget after `n` retries and `s` successes. -/
structure Funded (max ratio : ℚ) (n s : Nat) (b : RetryBudget) : Prop where
  max_eq : b.max = max
  ratio_eq : b.ratio = ratio
  nonneg : 0 ≤ b.tokens
  le_max : b.tokens ≤ max
  spent : b.tokens ≤ max - n + ratio * s
  retries_le : (n : ℚ) ≤ max / 2 + ratio * s

theorem Funded.new (ratio : ℚ) (hm : 0 ≤ max) : Funded max ratio 0 0 (.new max ratio) :=
  ⟨rfl, rfl, hm, le_rfl, by simp [RetryBudget.new], by simpa using div_nonneg hm zero_le_two⟩

theorem Funded.onSuccess (h : Funded max ratio n s b) (hm : 0 ≤ max) (hr : 0 ≤ ratio) :
    Funded max ratio n (s + 1) b.onSuccess := by
  obtain ⟨rfl, rfl, h0, hle, hspent, hretries⟩ := h
  have hmin := min_le_right b.max (b.tokens + b.ratio)
  refine ⟨rfl, rfl, le_min hm (add_nonneg h0 hr), min_le_left _ _, ?_, ?_⟩
  · rw [RetryBudget.onSuccess]
    push_cast
    linarith
  · push_cast
    linarith

theorem Funded.onFailure (h : Funded max ratio n s b) : Funded max ratio n s b.onFailure := by
  have hle : b.onFailure.tokens ≤ b.tokens := max_le h.nonneg (by linarith)
  exact ⟨h.max_eq, h.ratio_eq, le_max_left _ _, hle.trans h.le_max, hle.trans h.spent, h.retries_le⟩

theorem Funded.retry (h : Funded max ratio n s b) (hm : 0 ≤ max) (hcan : b.onFailure.canRetry) :
    Funded max ratio (n + 1) s b.onFailure := by
  have hf := h.onFailure
  obtain ⟨rfl, rfl, -, -, hspent, -⟩ := h
  have hhalf : b.max / 2 < b.onFailure.tokens := of_decide_eq_true hcan
  have hcost : b.onFailure.tokens = b.tokens - 1 := by
    rw [RetryBudget.onFailure] at hhalf ⊢
    refine max_eq_right ?_
    by_contra hneg
    rw [max_eq_left (not_le.mp hneg).le] at hhalf
    linarith
  refine ⟨rfl, rfl, hf.nonneg, hf.le_max, ?_, ?_⟩
  · push_cast
    linarith
  · push_cast
    linarith

/-! ## Runs -/

/-- Every moment keeps the budget funded by what happened until then. -/
def FundedThrough (max ratio : ℚ) (n s : Nat) (ms : List Moment) : Prop :=
  ∀ before after, ms = before ++ after →
    ((n + retries before : Nat) : ℚ) ≤ max / 2 + ratio * (s + successCount before : Nat) ∧
      ∀ m ∈ before, 0 ≤ m.tokens ∧ m.tokens ≤ max

theorem FundedThrough.nil (h : Funded max ratio n s b) : FundedThrough max ratio n s [] := by
  intro before after heq
  obtain ⟨rfl, -⟩ := append_eq_nil_iff.mp heq.symm
  exact ⟨h.retries_le, nofun⟩

theorem FundedThrough.cons {m : Moment} {ms : List Moment} {b0 : RetryBudget} {n0 s0 : Nat}
    (h0 : Funded max ratio n0 s0 b0) (h : Funded max ratio n s b) (hm : m.tokens = b.tokens)
    (hn : n0 + retries [m] = n) (hs : s0 + successCount [m] = s)
    (hms : FundedThrough max ratio n s ms) : FundedThrough max ratio n0 s0 (m :: ms) := by
  intro before after heq
  cases before with
  | nil => exact ⟨h0.retries_le, nofun⟩
  | cons _ before =>
  rw [cons_append] at heq
  obtain ⟨rfl, rfl⟩ := List.cons.inj heq
  obtain ⟨hle, hall⟩ := hms before after rfl
  have hr : retries (m :: before) = retries [m] + retries before :=
    @countP_append _ _ [m] before
  have hs' : successCount (m :: before) = successCount [m] + successCount before :=
    @countP_append _ _ [m] before
  rw [hr, hs', ← Nat.add_assoc, ← Nat.add_assoc, hn, hs]
  refine ⟨hle, fun y hy => ?_⟩
  rcases mem_cons.mp hy with rfl | hy
  · rw [hm]
    exact ⟨h.nonneg, h.le_max⟩
  · exact hall y hy

theorem callFrom_funded (hm : 0 ≤ max) (hr : 0 ≤ ratio) (maxAttempts : Int) (fn : Int → Attempt)
    (attempt : Int) (b : RetryBudget) (n : Nat) (h : Funded max ratio n s b) :
    Funded max ratio (n + retries (callFrom maxAttempts fn attempt b).1)
        (s + successCount (callFrom maxAttempts fn attempt b).1)
        (callFrom maxAttempts fn attempt b).2.2 ∧
      ∀ rest, FundedThrough max ratio (n + retries (callFrom maxAttempts fn attempt b).1)
          (s + successCount (callFrom maxAttempts fn attempt b).1) rest →
        FundedThrough max ratio n s ((callFrom maxAttempts fn attempt b).1 ++ rest) := by
  fun_induction callFrom maxAttempts fn attempt b generalizing n with
  | case1 =>
    have hnext := h.onSuccess hm hr
    exact ⟨hnext, fun rest hrest => .cons h hnext rfl rfl rfl hrest⟩
  | case2 | case3 => exact ⟨h, fun rest hrest => hrest⟩
  | case4 =>
    exact ⟨h.onFailure, fun rest hrest => .cons h h.onFailure rfl rfl rfl hrest⟩
  | case5 =>
    exact ⟨h.onFailure, fun rest hrest => .cons h h.onFailure rfl rfl rfl hrest⟩
  | case6 _ _ _ b _ hcan ms _ _ heq ih =>
    have hretry := h.retry hm (by simpa using hcan)
    obtain ⟨hfunded, hthrough⟩ := ih (n + 1) hretry
    rw [heq] at hfunded hthrough
    have hcount : n + retries (.charged b.tokens :: .retried b.tokens :: ms)
        = n + 1 + retries ms := by
      simp only [retries, countP_cons_of_pos, countP_cons_of_neg, reduceCtorEq,
        not_false_eq_true]
      omega
    have hcount' : successCount (.charged b.tokens :: .retried b.tokens :: ms) =
        successCount ms := by
      simp [successCount]
    rw [hcount, hcount']
    -- the charge first, then the retry it pays for
    exact ⟨hfunded, fun rest hrest => .cons h h.onFailure rfl rfl rfl
      (.cons h.onFailure hretry rfl rfl rfl (hthrough rest hrest))⟩

theorem callFrom_retries (maxAttempts : Int) (fn : Int → Attempt) (attempt : Int) (b : RetryBudget)
    (h : attempt ≤ maxAttempts) :
    attempt + retries (callFrom maxAttempts fn attempt b).1 ≤ maxAttempts := by
  fun_induction callFrom maxAttempts fn attempt b with
  | case1 | case2 | case3 | case4 | case5 => simpa [retries] using h
  | case6 attempt _ _ b _ _ ms _ _ heq ih =>
    have ih : attempt + 1 + retries ms ≤ maxAttempts := by
      simpa only [heq] using ih (by omega)
    have hcount : retries (.charged b.tokens :: .retried b.tokens :: ms) = retries ms + 1 := by
      simp [retries]
    rw [hcount]
    omega

theorem runCalls_funded (hm : 0 ≤ max) (hr : 0 ≤ ratio) (cs : List RetryCall)
    (h : Funded max ratio n s b) : FundedThrough max ratio n s (runCalls b cs).1 ∧
      0 ≤ (runCalls b cs).2.tokens ∧ (runCalls b cs).2.tokens ≤ max := by
  induction cs generalizing n s b with
  | nil => exact ⟨.nil h, h.nonneg, h.le_max⟩
  | cons c _ ih =>
    obtain ⟨hfunded, hthrough⟩ := callFrom_funded hm hr c.maxAttempts c.fn 1 b n h
    obtain ⟨hrest, htokens⟩ := ih hfunded
    exact ⟨hthrough _ hrest, htokens⟩

/-- Calls that share a budget, one after another: at any moment the retries so far are at most half
    of the tokens and what the successes so far gave back, and the tokens stay within their bounds;
    a call makes at most the configured number of attempts. -/
theorem run_retries_le (max ratio : ℚ) (hm : 0 ≤ max) (hr : 0 ≤ ratio) (cs : List RetryCall) :
    (∀ before after, (runCalls (.new max ratio) cs).1 = before ++ after →
      (retries before : ℚ) ≤ max / 2 + ratio * successCount before ∧
        ∀ m ∈ before, 0 ≤ m.tokens ∧ m.tokens ≤ max) ∧
      (0 ≤ (runCalls (.new max ratio) cs).2.tokens ∧
        (runCalls (.new max ratio) cs).2.tokens ≤ max) ∧
      ∀ c ∈ cs, ∀ b, (1 + retries (c.call b).1 : Int) ≤ c.maxAttempts := by
  obtain ⟨hthrough, htokens⟩ := runCalls_funded hm hr cs (Funded.new ratio hm)
  refine ⟨fun before after heq => ?_, htokens, fun c _ b => ?_⟩
  · simpa using hthrough before after heq
  · exact callFrom_retries c.maxAttempts c.fn 1 b c.maxAttempts_pos

/-- The first call is retried twice, until the budget is at half; after two successes one more retry
    is paid for. -/
theorem run_retries_le_exhausted :
    let calls : List RetryCall := [⟨5, fun _ => .raises true, by decide⟩,
      ⟨1, fun _ => .returns, by decide⟩, ⟨1, fun _ => .returns, by decide⟩,
      ⟨2, fun attempt => if attempt = 1 then .raises true else .returns, by decide⟩]
    let (ms, b) := runCalls (.new 6 1) calls
    retries ms = 3 ∧ successCount ms = 3 ∧ (retries ms : ℚ) ≤ 6 / 2 + 1 * successCount ms ∧
      (0 ≤ b.tokens ∧ b.tokens ≤ 6) ∧
      ∀ c ∈ calls, ∀ b, (1 + retries (c.call b).1 : Int) ≤ c.maxAttempts := by
  intro calls
  obtain ⟨hmoments, htokens, hattempts⟩ := run_retries_le 6 1 (by decide +kernel) zero_le_one calls
  have hcounts : retries (runCalls (.new 6 1) calls).1 = 3 ∧
      successCount (runCalls (.new 6 1) calls).1 = 3 := by decide +kernel
  exact ⟨hcounts.1, hcounts.2, (hmoments _ [] (append_nil _).symm).1, htokens, hattempts⟩

end InterviewPrep.Resilience
