/-
  The five rate-limit algorithms (rate_limiter.py), over exact rational time: policies over a
  small state of one key.  Each method brings the state up to date first, so each returns the
  state with its answer.

  `RateLimiter`: one state for each key, as a machine whose steps are the sections between lock
  boundaries.  A call of `try_acquire` or `peek` reads the clock (`call`), gets or creates the
  key's entry under the map lock (`entry`) and serves the request under the entry's lock
  (`withState`); if the entry was evicted in between it starts again (`retry`).  `evict_idle`
  holds the map lock over its whole sweep and locks one entry at a time.  Calls are told apart by
  a number.  The clock never goes back.
-/
import InterviewPrep.Lib.Dict
import InterviewPrep.Lib.Links
import InterviewPrep.Lib.Python
import InterviewPrep.Lib.Run

namespace InterviewPrep.RateLimiting

open Lib

/-! ## Rules and the strategy interface -/

/-- The checked fields of a rule. -/
structure RateLimitRule where
  maxRequests : Int
  windowSeconds : ℚ
  maxRequests_pos : 0 < maxRequests
  windowSeconds_pos : 0 < windowSeconds

/-- Requests per second. -/
def RateLimitRule.rate (rule : RateLimitRule) : ℚ := rule.maxRequests / rule.windowSeconds

theorem RateLimitRule.rate_pos (rule : RateLimitRule) : 0 < rule.rate :=
  div_pos (Int.cast_pos.mpr rule.maxRequests_pos) rule.windowSeconds_pos

/-- A policy over states `S`; a method that updates the state in place returns it. -/
structure RateLimitAlgorithm (S : Type) where
  rule : RateLimitRule
  newState : ℚ → S
  /-- consume one permit if available -/
  tryAcquire : S → ℚ → Bool × S
  /-- permits available without consuming any -/
  remaining : S → ℚ → Int × S
  /-- seconds until `tryAcquire` could succeed -/
  retryAfter : S → ℚ → ℚ × S

/-- The key can be dropped: all its permits are there. -/
def RateLimitAlgorithm.isIdle {S : Type} (algo : RateLimitAlgorithm S) (state : S) (now : ℚ) :
    Bool × S :=
  let (n, state) := algo.remaining state now
  (algo.rule.maxRequests ≤ n, state)

/-! ## The buckets -/

/-- `level` is the tokens available, or the water level of a leaky bucket. -/
structure BucketState where
  level : ℚ
  last : ℚ

namespace TokenBucket

variable (rule : RateLimitRule)

def newState (now : ℚ) : BucketState := ⟨rule.maxRequests, now⟩

def refill (s : BucketState) (now : ℚ) : BucketState :=
  let elapsed := max 0 (now - s.last)
  ⟨min rule.maxRequests (s.level + elapsed * rule.rate), now⟩

def tryAcquire (s : BucketState) (now : ℚ) : Bool × BucketState :=
  let s := refill rule s now
  if 1 ≤ s.level then (true, { s with level := s.level - 1 }) else (false, s)

def remaining (s : BucketState) (now : ℚ) : Int × BucketState :=
  let s := refill rule s now
  (truncate s.level, s)

def retryAfter (s : BucketState) (now : ℚ) : ℚ × BucketState :=
  let s := refill rule s now
  (if 1 ≤ s.level then 0 else (1 - s.level) / rule.rate, s)

end TokenBucket

def TokenBucket (rule : RateLimitRule) : RateLimitAlgorithm BucketState where
  rule := rule
  newState := TokenBucket.newState rule
  tryAcquire := TokenBucket.tryAcquire rule
  remaining := TokenBucket.remaining rule
  retryAfter := TokenBucket.retryAfter rule

namespace LeakyBucket

variable (rule : RateLimitRule)

def newState (now : ℚ) : BucketState := ⟨0, now⟩

def leak (s : BucketState) (now : ℚ) : BucketState :=
  let elapsed := max 0 (now - s.last)
  ⟨max 0 (s.level - elapsed * rule.rate), now⟩

def tryAcquire (s : BucketState) (now : ℚ) : Bool × BucketState :=
  let s := leak rule s now
  if s.level + 1 ≤ rule.maxRequests then (true, { s with level := s.level + 1 }) else (false, s)

def remaining (s : BucketState) (now : ℚ) : Int × BucketState :=
  let s := leak rule s now
  (truncate (rule.maxRequests - s.level), s)

def retryAfter (s : BucketState) (now : ℚ) : ℚ × BucketState :=
  let s := leak rule s now
  let overflow := s.level + 1 - rule.maxRequests
  (if overflow ≤ 0 then 0 else overflow / rule.rate, s)

end LeakyBucket

def LeakyBucket (rule : RateLimitRule) : RateLimitAlgorithm BucketState where
  rule := rule
  newState := LeakyBucket.newState
  tryAcquire := LeakyBucket.tryAcquire rule
  remaining := LeakyBucket.remaining rule
  retryAfter := LeakyBucket.retryAfter rule

/-! ## The windows -/

/-- `window` is the index of the current window; `prevCount` is for the sliding window counter. -/
structure WindowState where
  window : Int
  count : Int
  prevCount : Int

/-- `_window`, the same for both window counters. -/
def windowOf (rule : RateLimitRule) (now : ℚ) : Int := ⌊now / rule.windowSeconds⌋

namespace FixedWindowCounter

variable (rule : RateLimitRule)

def newState (now : ℚ) : WindowState := ⟨windowOf rule now, 0, 0⟩

def roll (s : WindowState) (now : ℚ) : WindowState :=
  let w := windowOf rule now
  if s.window < w then { s with window := w, count := 0 } else s

def tryAcquire (s : WindowState) (now : ℚ) : Bool × WindowState :=
  let s := roll rule s now
  if s.count < rule.maxRequests then (true, { s with count := s.count + 1 }) else (false, s)

def remaining (s : WindowState) (now : ℚ) : Int × WindowState :=
  let s := roll rule s now
  (rule.maxRequests - s.count, s)

def retryAfter (s : WindowState) (now : ℚ) : ℚ × WindowState :=
  let s := roll rule s now
  (if s.count < rule.maxRequests then 0 else (s.window + 1) * rule.windowSeconds - now, s)

end FixedWindowCounter

def FixedWindowCounter (rule : RateLimitRule) : RateLimitAlgorithm WindowState where
  rule := rule
  newState := FixedWindowCounter.newState rule
  tryAcquire := FixedWindowCounter.tryAcquire rule
  remaining := FixedWindowCounter.remaining rule
  retryAfter := FixedWindowCounter.retryAfter rule

/-- The times of the accepted requests, oldest first. -/
structure LogState where
  timestamps : List ℚ

namespace SlidingWindowLog

variable (rule : RateLimitRule)

def newState (_now : ℚ) : LogState := ⟨[]⟩

/-- The loop of `_evict`: drop the oldest while it is not after `cutoff`. -/
def evict (s : LogState) (now : ℚ) : LogState :=
  let cutoff := now - rule.windowSeconds
  ⟨s.timestamps.dropWhile (· ≤ cutoff)⟩

def tryAcquire (s : LogState) (now : ℚ) : Bool × LogState :=
  let s := evict rule s now
  if (s.timestamps.length : Int) < rule.maxRequests then (true, ⟨s.timestamps ++ [now]⟩)
  else (false, s)

def remaining (s : LogState) (now : ℚ) : Int × LogState :=
  let s := evict rule s now
  (rule.maxRequests - s.timestamps.length, s)

def retryAfter (s : LogState) (now : ℚ) : ℚ × LogState :=
  let s := evict rule s now
  (if (s.timestamps.length : Int) < rule.maxRequests then 0
    -- the list is not empty here: it holds `max_requests` entries
    else s.timestamps.headD 0 + rule.windowSeconds - now, s)

end SlidingWindowLog

def SlidingWindowLog (rule : RateLimitRule) : RateLimitAlgorithm LogState where
  rule := rule
  newState := SlidingWindowLog.newState
  tryAcquire := SlidingWindowLog.tryAcquire rule
  remaining := SlidingWindowLog.remaining rule
  retryAfter := SlidingWindowLog.retryAfter rule

namespace SlidingWindowCounter

variable (rule : RateLimitRule)

def newState (now : ℚ) : WindowState := ⟨windowOf rule now, 0, 0⟩

def roll (s : WindowState) (now : ℚ) : WindowState :=
  let w := windowOf rule now
  if w = s.window + 1 then ⟨w, 0, s.count⟩
  else if s.window + 1 < w then ⟨w, 0, 0⟩
  else s

def fraction (s : WindowState) (now : ℚ) : ℚ :=
  (now - s.window * rule.windowSeconds) / rule.windowSeconds

def estimate (s : WindowState) (now : ℚ) : ℚ :=
  s.prevCount * (1 - fraction rule s now) + s.count

def tryAcquire (s : WindowState) (now : ℚ) : Bool × WindowState :=
  let s := roll rule s now
  if estimate rule s now + 1 ≤ rule.maxRequests then (true, { s with count := s.count + 1 })
  else (false, s)

def remaining (s : WindowState) (now : ℚ) : Int × WindowState :=
  let s := roll rule s now
  (max 0 ⌊rule.maxRequests - estimate rule s now⌋, s)

def retryAfter (s : WindowState) (now : ℚ) : ℚ × WindowState :=
  let s := roll rule s now
  let limit := rule.maxRequests
  let w := rule.windowSeconds
  if estimate rule s now + 1 ≤ limit then (0, s)
  else
    let start := s.window * w
    let headroom := limit - 1 - s.count
    if 0 ≤ headroom ∧ 0 < s.prevCount then
      (max 0 (start + w * (1 - headroom / s.prevCount) - now), s)
    else
      -- the current window alone is over the limit, so `count` is positive
      (max 0 (start + w + w * (1 - (limit - 1) / s.count) - now), s)

end SlidingWindowCounter

def SlidingWindowCounter (rule : RateLimitRule) : RateLimitAlgorithm WindowState where
  rule := rule
  newState := SlidingWindowCounter.newState rule
  tryAcquire := SlidingWindowCounter.tryAcquire rule
  remaining := SlidingWindowCounter.remaining rule
  retryAfter := SlidingWindowCounter.retryAfter rule

/-! ## The factory -/

/-- The built-in algorithms of `RateLimiterFactory`. -/
inductive AlgorithmKind where
  | tokenBucket
  | leakyBucket
  | fixedWindow
  | slidingWindowLog
  | slidingWindowCounter

namespace AlgorithmKind

/-- The state an algorithm keeps for a key. -/
def State : AlgorithmKind → Type
  | tokenBucket | leakyBucket => BucketState
  | fixedWindow | slidingWindowCounter => WindowState
  | slidingWindowLog => LogState

/-- The registered class, applied to a rule. -/
def algorithm (rule : RateLimitRule) : (kind : AlgorithmKind) → RateLimitAlgorithm kind.State
  | tokenBucket => TokenBucket rule
  | leakyBucket => LeakyBucket rule
  | fixedWindow => FixedWindowCounter rule
  | slidingWindowLog => SlidingWindowLog rule
  | slidingWindowCounter => SlidingWindowCounter rule

end AlgorithmKind

/-! ## Serving one request -/

structure RateLimitDecision where
  allowed : Bool
  /-- requests still allowed right now -/
  remaining : Int
  /-- seconds until the next request could pass -/
  retryAfter : ℚ

/-- The methods that serve a request for a key. -/
inductive Request where
  | tryAcquire
  | peek

/-- The function `go` of `try_acquire` and of `peek`. -/
def RateLimitAlgorithm.serve {S : Type} (algo : RateLimitAlgorithm S) (request : Request)
    (state : S) (now : ℚ) : RateLimitDecision × S :=
  match request with
  | .tryAcquire =>
    let (ok, state) := algo.tryAcquire state now
    let (remaining, state) := algo.remaining state now
    if ok then (⟨ok, remaining, 0⟩, state)
    else
      let (wait, state) := algo.retryAfter state now
      (⟨ok, remaining, wait⟩, state)
  | .peek =>
    let (wait, state) := algo.retryAfter state now
    let (remaining, state) := algo.remaining state now
    (⟨wait = 0, remaining, wait⟩, state)

/-- Serve requests one after the other, each at its time, on one state. -/
def RateLimitAlgorithm.serveAll {S : Type} (algo : RateLimitAlgorithm S) :
    S → List (Request × ℚ) → List RateLimitDecision × S
  | state, [] => ([], state)
  | state, (request, now) :: rest =>
    let (decision, state) := algo.serve request state now
    let (decisions, state) := algo.serveAll state rest
    (decision :: decisions, state)

/-! ## The limiter -/

/-- `_Entry`; its lock is held within single steps only. -/
structure Entry (S : Type) where
  state : S
  evicted : Bool

/-- Where a call is in the loop of `_with_state`. -/
inductive Progress where
  /-- has read the clock, before the map lock -/
  | called (now : ℚ)
  /-- before the lock of the entry -/
  | holding (entry : Ref)
  /-- found the entry evicted -/
  | lost

structure Call (K : Type) where
  key : K
  request : Request
  progress : Progress

/-- A sweep of `evict_idle`, which holds the map lock: the rest of its snapshot. -/
structure Sweep (K : Type) where
  pending : List (K × Ref)
  removed : Nat

structure RateLimiter (K : Type) {S : Type} (algo : RateLimitAlgorithm S) where
  /-- the latest reading of the clock -/
  clock : ℚ
  entries : Dict K Ref
  heap : Memory (Entry S)
  /-- the calls that have not returned -/
  calls : Dict Nat (Call K)
  sweep : Option (Sweep K)

/-- A step, with what the clock reads in it. -/
inductive LimiterStep (K : Type) where
  | call (call : Nat) (key : K) (request : Request) (now : ℚ)
  | entry (call : Nat)
  | withState (call : Nat) (now : ℚ)
  | retry (call : Nat) (now : ℚ)
  | evictIdle
  /-- the entry's lock is taken -/
  | evictSkip
  | evictKey (now : ℚ)
  | evictDone

/-- What a caller sees of a step. -/
inductive LimiterEvent (K : Type) where
  | silent
  | decided (call : Nat) (key : K) (request : Request) (now : ℚ) (decision : RateLimitDecision)
  | evicted (removed : Nat)

/-- Why a step is not taken: it is not the turn of its call, or `del` raises. -/
inductive NoStep where
  | notEnabled
  | keyError

namespace RateLimiter

variable {K S : Type} [DecidableEq K] {algo : RateLimitAlgorithm S}

/-- A limiter made at `start`. -/
def new (algo : RateLimitAlgorithm S) (start : ℚ) : RateLimiter K algo :=
  ⟨start, Dict.empty, Memory.init ⟨algo.newState start, false⟩, Dict.empty, none⟩

variable (s : RateLimiter K algo)

def moveTo (c : Nat) (call : Call K) (progress : Progress) : RateLimiter K algo :=
  { s with calls := s.calls.set c { call with progress } }

/-- `_entry`, under the map lock. -/
def entry (c : Nat) : Except NoStep (LimiterEvent K × RateLimiter K algo) :=
  match s.calls.get? c, s.sweep with
  | some ⟨key, request, .called now⟩, none =>
    match s.entries.get? key with
    | some r => .ok (.silent, s.moveTo c ⟨key, request, .called now⟩ (.holding r))
    | none =>
      let (r, heap) := s.heap.alloc ⟨algo.newState now, false⟩
      .ok (.silent, { s with entries := s.entries.set key r, heap }.moveTo c
        ⟨key, request, .called now⟩ (.holding r))
  | _, _ => .error .notEnabled

/-- The section under the entry's lock; the clock is not read if the entry was evicted. -/
def withState (c : Nat) (now : ℚ) : Except NoStep (LimiterEvent K × RateLimiter K algo) :=
  match s.calls.get? c with
  | some ⟨key, request, .holding r⟩ =>
    let entry := s.heap.read r
    if entry.evicted then .ok (.silent, s.moveTo c ⟨key, request, .holding r⟩ .lost)
    else if s.clock ≤ now then
      let (decision, state) := algo.serve request entry.state now
      .ok (.decided c key request now decision,
        { s with
          clock := now, heap := s.heap.write r { entry with state }, calls := s.calls.erase c })
    else .error .notEnabled
  | _ => .error .notEnabled

/-- The body of the loop of `evict_idle` once it has the entry's lock. -/
def evictKey (now : ℚ) : Except NoStep (LimiterEvent K × RateLimiter K algo) :=
  match s.sweep with
  | some ⟨(key, r) :: pending, removed⟩ =>
    if s.clock ≤ now then
      let entry := s.heap.read r
      let (idle, state) := algo.isIdle entry.state now
      if idle then
        match s.entries.get? key with
        | none => .error .keyError
        | some _ =>
          .ok (.silent, { s with
            clock := now, entries := s.entries.erase key, heap := s.heap.write r ⟨state, true⟩,
            sweep := some ⟨pending, removed + 1⟩ })
      else
        .ok (.silent, { s with
          clock := now, heap := s.heap.write r { entry with state },
          sweep := some ⟨pending, removed⟩ })
    else .error .notEnabled
  | _ => .error .notEnabled

def step (s : RateLimiter K algo) :
    LimiterStep K → Except NoStep (LimiterEvent K × RateLimiter K algo)
  | .call c key request now =>
    match s.calls.get? c with
    | some _ => .error .notEnabled
    | none =>
      if s.clock ≤ now then
        .ok (.silent,
          { s with clock := now, calls := s.calls.set c ⟨key, request, .called now⟩ })
      else .error .notEnabled
  | .entry c => s.entry c
  | .withState c now => s.withState c now
  | .retry c now =>
    match s.calls.get? c with
    | some ⟨key, request, .lost⟩ =>
      if s.clock ≤ now then
        .ok (.silent, { s with clock := now }.moveTo c ⟨key, request, .lost⟩ (.called now))
      else .error .notEnabled
    | _ => .error .notEnabled
  | .evictIdle =>
    match s.sweep with
    | none => .ok (.silent, { s with sweep := some ⟨s.entries.items, 0⟩ })
    | some _ => .error .notEnabled
  | .evictSkip =>
    match s.sweep with
    | some ⟨_ :: pending, removed⟩ =>
      .ok (.silent, { s with sweep := some ⟨pending, removed⟩ })
    | _ => .error .notEnabled
  | .evictKey now => s.evictKey now
  | .evictDone =>
    match s.sweep with
    | some ⟨[], removed⟩ => .ok (.evicted removed, { s with sweep := none })
    | _ => .error .notEnabled

end RateLimiter

/-! ## What a key's callers see -/

/-- A request served for a key. -/
structure Served where
  request : Request
  now : ℚ
  decision : RateLimitDecision

/-- What an event says about `key`. -/
def LimiterEvent.served {K : Type} [DecidableEq K] (key : K) : LimiterEvent K → Option Served
  | .decided _ key' request now decision =>
    if key' = key then some ⟨request, now, decision⟩ else none
  | _ => none

/-- The requests served for `key`, in the order their calls held the lock. -/
def servedOf {K : Type} [DecidableEq K] (key : K) (events : List (LimiterEvent K)) : List Served :=
  events.filterMap (LimiterEvent.served key)

end InterviewPrep.RateLimiting
