/-
  That the breaker follows its protocol on every run: no call is admitted too early
  after it opened, the probes of a half-open period are bounded, it is closed by their
  successes, and results that come after their period are ignored (`run_protocolSafety`).

  The invariant ties the probe counters to the permits issued in the period (`Inv`); it
  is kept event by event.
-/
import InterviewPrep.Resilience.Protocol

namespace InterviewPrep.Resilience

open Lib Dict Finset List

variable {E : Type} {config : CircuitBreakerConfig E} {events p : List BreakerEvent}
  {b : CircuitBreaker E} {calls : Dict Nat Call} {e : BreakerEvent} {c : Nat} {s : BreakerSystem E}

/-! ## Traces, one event at a time -/

theorem period_concat (h : e.moves = none) : period (events ++ [e]) = period events ++ [e] := by
  rw [period, rtakeWhile_concat_pos _ _ _ (by simpa using h), period]

theorem period_moved (old new : CircuitState) (time : ℚ) :
    period (events ++ [.moved old new time]) = [] := by
  rw [period, rtakeWhile_concat_neg _ _ _ (by simp [BreakerEvent.moves])]

theorem lastMove_concat (h : e.moves = none) : lastMove (events ++ [e]) = lastMove events := by
  simp [lastMove, filterMap_append, h]

theorem lastMove_moved (old new : CircuitState) (time : ℚ) :
    lastMove (events ++ [.moved old new time]) = some (new, time) := by
  simp [lastMove, filterMap_append, BreakerEvent.moves]

theorem toFinset_concat {α : Type} {f : α → Option Nat} (p : List α) (e : α) :
    ((p ++ [e]).filterMap f).toFinset =
      match f e with
      | some c => insert c (p.filterMap f).toFinset
      | none => (p.filterMap f).toFinset := by
  cases h : f e <;> simp [filterMap_append, h]

theorem issued_concat (p : List BreakerEvent) (h : e.issues = none) :
    issued (p ++ [e]) = issued p := by
  rw [issued, toFinset_concat, h, issued]

theorem issued_admitted (p : List BreakerEvent) (c : Nat) :
    issued (p ++ [.admitted c]) = insert c (issued p) :=
  toFinset_concat p (.admitted c)

theorem settled_concat (p : List BreakerEvent) (h : e.settles = none) :
    settled (p ++ [e]) = settled p := by
  rw [settled, toFinset_concat, h, settled]

theorem settled_insert (p : List BreakerEvent) (h : e.settles = some c) :
    settled (p ++ [e]) = insert c (settled p) := by
  rw [settled, toFinset_concat, h, settled]

theorem succeeded_concat (p : List BreakerEvent) (h : e.succeeds = none) :
    succeeded (p ++ [e]) = succeeded p := by
  rw [succeeded, toFinset_concat, h, succeeded]

theorem succeeded_insert (p : List BreakerEvent) (c : Nat) :
    succeeded (p ++ [.succeeded c]) = insert c (succeeded p) :=
  toFinset_concat p (.succeeded c)

theorem succeeded_subset_settled (p : List BreakerEvent) : succeeded p ⊆ settled p := by
  intro c hc
  simp only [succeeded, settled, mem_toFinset, List.mem_filterMap] at hc ⊢
  obtain ⟨e, he, hs⟩ := hc
  cases e <;> cases hs
  exact ⟨_, he, rfl⟩

theorem outstanding_concat (p : List BreakerEvent) (hi : e.issues = none) (hs : e.settles = none) :
    outstanding (p ++ [e]) = outstanding p := by
  rw [outstanding, issued_concat p hi, settled_concat p hs, outstanding]

theorem outstanding_admitted_le (hc : c ∉ settled p) :
    outstanding (p ++ [.admitted c]) ≤ outstanding p + 1 := by
  rw [outstanding, issued_admitted, settled_concat p rfl, insert_sdiff_of_notMem _ hc]
  exact card_insert_le _ _

section

variable (h : e.settles = some c)

include h

theorem issues_of_settles : e.issues = none := by
  cases e <;> first | rfl | cases h

theorem moves_of_settles : e.moves = none := by
  cases e <;> first | rfl | cases h

theorem outstanding_settled : outstanding (p ++ [e]) = ((issued p \ settled p).erase c).card := by
  rw [outstanding, issued_concat p (issues_of_settles h), settled_insert p h, sdiff_insert]

theorem outstanding_settled_le : outstanding (p ++ [e]) ≤ outstanding p := by
  rw [outstanding_settled h]
  exact card_erase_le

theorem outstanding_settled_add_one (hi : c ∈ issued p)
    (hs : c ∉ settled p) : outstanding (p ++ [e]) + 1 = outstanding p := by
  rw [outstanding_settled h]
  exact card_erase_add_one (mem_sdiff.mpr ⟨hi, hs⟩)

end

theorem successes_concat (p : List BreakerEvent) (hi : e.issues = none) (hs : e.succeeds = none) :
    successes (p ++ [e]) = successes p := by
  rw [successes, issued_concat p hi, succeeded_concat p hs, successes]

theorem successes_admitted (hc : c ∉ settled p) : successes (p ++ [.admitted c]) = successes p := by
  rw [successes, issued_admitted, succeeded_concat p rfl, inter_insert_of_notMem, successes]
  exact fun h => hc (succeeded_subset_settled p h)

theorem successes_succeeded (hi : c ∈ issued p) (hs : c ∉ settled p) :
    successes (p ++ [.succeeded c]) = successes p + 1 := by
  rw [successes, issued_concat p rfl, succeeded_insert, insert_inter_of_mem hi,
    card_insert_of_notMem, successes]
  exact fun h => hs (succeeded_subset_settled p (mem_inter.mp h).1)

theorem successes_stale (hi : c ∉ issued p) : successes (p ++ [.succeeded c]) = successes p := by
  rw [successes, issued_concat p rfl, succeeded_insert, insert_inter_of_notMem hi, successes]

/-! ## The invariant -/

/-- Whenever the breaker closed, not by a reset, all the probes of the period had succeeded. -/
def ClosedByProbes (config : CircuitBreakerConfig E) (events : List BreakerEvent) : Prop :=
  ∀ pre time post, events = pre ++ .moved .halfOpen .closed time :: post →
    pre.getLast? ≠ some .reset → (successes (period pre) : Int) = config.halfOpenMaxCalls

theorem ClosedByProbes.concat (h : ClosedByProbes config events)
    (he : ∀ time, e = .moved .halfOpen .closed time → events.getLast? ≠ some .reset →
      (successes (period events) : Int) = config.halfOpenMaxCalls) :
    ClosedByProbes config (events ++ [e]) := by
  intro pre time post heq hlast
  rcases eq_nil_or_concat post with rfl | ⟨post, x, rfl⟩
  · obtain ⟨rfl, hx⟩ := append_inj' heq rfl
    exact he time (List.cons.inj hx).1 hlast
  · rw [concat_eq_append, ← cons_append, ← append_assoc] at heq
    exact h pre time post (append_inj' heq rfl).1 hlast

/-- The breaker went from open to half-open only after `open_duration`. -/
def HalfOpensLate (config : CircuitBreakerConfig E) (events : List BreakerEvent) : Prop :=
  ∀ pre time post opened, events = pre ++ .moved .open .halfOpen time :: post →
    lastMove pre = some (.open, opened) → config.openDuration ≤ time - opened

theorem HalfOpensLate.concat (h : HalfOpensLate config events)
    (he : ∀ time opened, e = .moved .open .halfOpen time → lastMove events = some (.open, opened) →
      config.openDuration ≤ time - opened) : HalfOpensLate config (events ++ [e]) := by
  intro pre time post opened heq hlast
  rcases eq_nil_or_concat post with rfl | ⟨post, x, rfl⟩
  · obtain ⟨rfl, hx⟩ := append_inj' heq rfl
    exact he time opened (List.cons.inj hx).1 hlast
  · rw [concat_eq_append, ← cons_append, ← append_assoc] at heq
    exact h pre time post opened (append_inj' heq rfl).1 hlast

/-- The breaker and its callers after the trace `events`. -/
structure Inv (config : CircuitBreakerConfig E) (events : List BreakerEvent) (b : CircuitBreaker E)
    (calls : Dict Nat Call) : Prop where
  config_eq : b.config = config
  started : lastMove events = none → b.state = .closed
  moved : ∀ new time, lastMove events = some (new, time) →
    b.state = new ∧ (new = .open → b.openedAt = time)
  le_generation : ∀ c call, calls.get? c = some call → call.permit.generation ≤ b.generation
  /-- the permits of the generation are those issued in the period -/
  current : ∀ c call, calls.get? c = some call →
    (call.permit.generation = b.generation ↔ c ∈ issued (period events))
  known : ∀ c, c ∈ issued (period events) ∨ c ∈ settled (period events) →
    ∃ call, calls.get? c = some call
  unsettled : ∀ c call, calls.get? c = some call → call.resolved = false →
    c ∉ settled (period events)
  probes : b.state = .halfOpen → b.probeSuccesses = successes (period events) ∧
    (outstanding (period events) + successes (period events) : Int) ≤ b.probesIssued ∧
    b.probesIssued ≤ config.halfOpenMaxCalls
  closed : ClosedByProbes config events
  late : HalfOpensLate config events

/-- The fields that only a transition changes. -/
structure SameMode (b b' : CircuitBreaker E) : Prop where
  config : b'.config = b.config
  state : b'.state = b.state
  generation : b'.generation = b.generation
  openedAt : b'.openedAt = b.openedAt

theorem SameMode.refl (b : CircuitBreaker E) : SameMode b b := ⟨rfl, rfl, rfl, rfl⟩

theorem inv_new (hnew : CircuitBreaker.new config = .ok b) : Inv config [] b Dict.empty := by
  have hb : ∃ window, b = ⟨config, window, .closed, 0, 0, 0, 0⟩ := by
    rw [CircuitBreaker.new] at hnew
    cases hw : CircuitBreaker.newWindow config with
    | error =>
      rw [hw] at hnew
      cases hnew
    | ok window =>
      rw [hw] at hnew
      cases hnew
      exact ⟨window, rfl⟩
  obtain ⟨window, rfl⟩ := hb
  exact ⟨rfl, fun _ => rfl, nofun, nofun,
    nofun, (fun _ h => by rcases h with h | h <;> simp [period, issued, settled] at h),
    nofun, nofun, (fun pre _ _ h => by simp at h),
    fun pre _ _ _ h => by simp at h⟩

/-- What `_on_result` can do. -/
inductive Resulted (b : CircuitBreaker E) (permit : Permit) (success : Bool) (later : ℚ) :
    List Transition × CircuitBreaker E → Prop where
  | stale (hgen : permit.generation ≠ b.generation) : Resulted b permit success later ([], b)
  | whileOpen (hstate : b.state = .open) : Resulted b permit success later ([], b)
  | recorded (window : SlidingWindow) (hstate : b.state = .closed) :
      Resulted b permit success later ([], { b with window })
  | tripped (window : SlidingWindow) (hstate : b.state = .closed) :
      Resulted b permit success later ({ b with window }.transition .open later)
  | reopened (hstate : b.state = .halfOpen) (hfail : success = false) :
      Resulted b permit success later (b.transition .open later)
  | counted (hgen : permit.generation = b.generation) (hstate : b.state = .halfOpen)
      (hsucc : success = true) :
      Resulted b permit success later ([], { b with probeSuccesses := b.probeSuccesses + 1 })
  | closed (hgen : permit.generation = b.generation) (hstate : b.state = .halfOpen)
      (hsucc : success = true) (hall : b.config.halfOpenMaxCalls ≤ b.probeSuccesses + 1) :
      Resulted b permit success later
        ({ b with probeSuccesses := b.probeSuccesses + 1 }.transition .closed later)

theorem onResult_resulted (b : CircuitBreaker E) (permit : Permit) (success : Bool)
    (now later : ℚ) :
    Resulted b permit success later (b.onResult permit success now later) := by
  rw [CircuitBreaker.onResult]
  split
  case isTrue hgen => exact .stale hgen
  case isFalse hgen =>
  rw [ne_eq, not_not] at hgen
  split
  case h_1 hstate =>
    simp only
    split
    · exact .tripped _ hstate
    · exact .recorded _ hstate
  case h_2 hstate =>
    split
    case isTrue hfail => exact .reopened hstate (Bool.eq_false_iff.mpr hfail)
    case isFalse hsucc =>
      rw [not_not] at hsucc
      simp only
      split
      case isTrue hall => exact .closed hgen hstate hsucc hall
      case isFalse => exact .counted hgen hstate hsucc
  case h_3 hstate => exact .whileOpen hstate

/-- The event of a result that counts. -/
def resultEvent (c : Nat) (success : Bool) : BreakerEvent :=
  if success then .succeeded c else .failed c

theorem resultEvent_settles (c : Nat) (success : Bool) :
    (resultEvent c success).settles = some c := by
  cases success <;> rfl

namespace Inv

variable (inv : Inv config events b calls) {e : BreakerEvent} {b' : CircuitBreaker E} {c : Nat}
  {call : Call}

include inv

theorem move (new : CircuitState) (time : ℚ)
    (hclosed : b.state = .halfOpen → new = .closed → events.getLast? ≠ some .reset →
      (successes (period events) : Int) = config.halfOpenMaxCalls)
    (hlate : b.state = .open → new = .halfOpen → config.openDuration ≤ time - b.openedAt) :
    Inv config (events ++ movesAt time (b.transition new time).1)
      (b.transition new time).2 calls := by
  have hperiod : period (events ++ [.moved b.state new time]) = [] := period_moved _ _ _
  refine ⟨inv.config_eq, fun h => ?_, fun new' time' h => ?_, fun c call hc => ?_,
    fun c call hc => ?_, fun c hc => ?_, fun c call hc hr => ?_, fun _ => ?_, ?_, ?_⟩
  · cases (lastMove_moved b.state new time).symm.trans h
  · cases (lastMove_moved b.state new time).symm.trans h
    exact ⟨rfl, fun hopen => if_pos hopen⟩
  · exact (inv.le_generation c call hc).trans (Nat.le_succ _)
  · show call.permit.generation = b.generation + 1 ↔ c ∈ issued (period (events ++ [_]))
    have hle := inv.le_generation c call hc
    rw [hperiod]
    constructor
    · omega
    · intro h
      cases h
  · change c ∈ issued (period (events ++ [_])) ∨ c ∈ settled (period (events ++ [_])) at hc
    rw [hperiod] at hc
    rcases hc with hc | hc <;> cases hc
  · show c ∉ settled (period (events ++ [_]))
    rw [hperiod]
    intro h
    cases h
  · show (0 : Int) = successes (period (events ++ [_])) ∧
      (outstanding (period (events ++ [_])) + successes (period (events ++ [_])) : Int) ≤ 0 ∧ 0 ≤ _
    rw [hperiod]
    exact ⟨rfl, le_refl 0, (Int.zero_le_ofNat 1).trans config.halfOpenMaxCalls_pos⟩
  · refine inv.closed.concat fun time' h hlast => ?_
    obtain ⟨hstate, hnew, -⟩ := BreakerEvent.moved.inj h
    exact hclosed hstate hnew hlast
  · refine inv.late.concat fun time' opened h hlast => ?_
    obtain ⟨hstate, hnew, rfl⟩ := BreakerEvent.moved.inj h
    rw [← (inv.moved .open opened hlast).2 rfl]
    exact hlate hstate hnew

theorem observe (hm : e.moves = none) (hi : e.issues = none) (hs : e.settles = none) :
    Inv config (events ++ [e]) b calls := by
  have hu : e.succeeds = none := by
    cases e <;> first | rfl | cases hs
  refine ⟨inv.config_eq, fun h => ?_, fun new time h => ?_, inv.le_generation, ?_, ?_, ?_, ?_,
    (inv.closed.concat fun time h => by rw [h] at hm; cases hm),
    inv.late.concat fun time _ h => by rw [h] at hm; cases hm⟩
  · rw [lastMove_concat hm] at h
    exact inv.started h
  · rw [lastMove_concat hm] at h
    exact inv.moved new time h
  · rw [period_concat hm, issued_concat _ hi]
    exact inv.current
  · rw [period_concat hm, issued_concat _ hi, settled_concat _ hs]
    exact inv.known
  · rw [period_concat hm, settled_concat _ hs]
    exact inv.unsettled
  · rw [period_concat hm, successes_concat _ hi hu, outstanding_concat _ hi hs]
    exact inv.probes

theorem admitCall (hfresh : calls.get? c = none) (hmode : SameMode b b')
    (hslot : b.state = .halfOpen → b'.probeSuccesses = b.probeSuccesses ∧
      b'.probesIssued = b.probesIssued + 1 ∧ b'.probesIssued ≤ config.halfOpenMaxCalls) :
    Inv config (events ++ [.admitted c]) b' (calls.set c ⟨⟨b.generation, b.state⟩, false⟩) := by
  have hnew : ∀ c' call, calls.get? c' = some call → c' ≠ c := by
    rintro c' call hc rfl
    cases hfresh.symm.trans hc
  have hunknown : c ∉ settled (period events) := by
    intro h
    obtain ⟨call, hc⟩ := inv.known c (.inr h)
    exact hnew c call hc rfl
  have hperiod : period (events ++ [.admitted c]) = period events ++ [.admitted c] :=
    period_concat rfl
  refine ⟨hmode.config.trans inv.config_eq, fun h => ?_, fun new time h => ?_, fun c' call hc => ?_,
    fun c' call hc => ?_, fun c' hc => ?_, fun c' call hc hr => ?_, fun h => ?_,
    (inv.closed.concat nofun), inv.late.concat nofun⟩
  · rw [hmode.state]
    exact inv.started ((lastMove_concat rfl).symm.trans h)
  · rw [hmode.state, hmode.openedAt]
    exact inv.moved new time ((lastMove_concat rfl).symm.trans h)
  · rw [hmode.generation]
    rcases get?_set_some hc with ⟨-, rfl⟩ | ⟨-, hc⟩
    · exact le_refl b.generation
    · exact inv.le_generation c' call hc
  · rw [hperiod, issued_admitted, mem_insert, hmode.generation]
    rcases get?_set_some hc with ⟨rfl, rfl⟩ | ⟨hne, hc⟩
    · exact ⟨fun _ => .inl rfl, fun _ => rfl⟩
    · rw [or_iff_right hne]
      exact inv.current c' call hc
  · rw [hperiod, issued_admitted, settled_concat _ rfl, mem_insert] at hc
    by_cases hcc : c' = c
    · subst hcc
      exact ⟨_, get?_set_self _ _ _⟩
    · rw [get?_set_of_ne _ _ hcc]
      exact inv.known c' (hc.imp_left fun h => h.resolve_left hcc)
  · rw [hperiod, settled_concat _ rfl]
    rcases get?_set_some hc with ⟨rfl, -⟩ | ⟨-, hc⟩
    · exact hunknown
    · exact inv.unsettled c' call hc hr
  · rw [hmode.state] at h
    obtain ⟨hsucc, hissued, hmax⟩ := hslot h
    obtain ⟨hs, hle, -⟩ := inv.probes h
    have hout := outstanding_admitted_le hunknown
    rw [hperiod, successes_admitted hunknown]
    refine ⟨hsucc.trans hs, ?_, hmax⟩
    omega

theorem settle (hc : calls.get? c = some call) (he : e.settles = some c) (hmode : SameMode b b')
    (hprobes : b.state = .halfOpen → b'.probeSuccesses = successes (period events ++ [e]) ∧
      (outstanding (period events ++ [e]) + successes (period events ++ [e]) : Int) ≤
        b'.probesIssued ∧ b'.probesIssued ≤ config.halfOpenMaxCalls) :
    Inv config (events ++ [e]) b' (calls.set c { call with resolved := true }) := by
  have hm := moves_of_settles he
  have hi := issues_of_settles he
  refine ⟨hmode.config.trans inv.config_eq, fun h => ?_, fun new time h => ?_,
    fun c' call' hc' => ?_,
    fun c' call' hc' => ?_, fun c' hc' => ?_, fun c' call' hc' hr => ?_, fun h => ?_,
    (inv.closed.concat fun time h => by rw [h] at hm; cases hm),
    inv.late.concat fun time _ h => by rw [h] at hm; cases hm⟩
  · rw [lastMove_concat hm] at h
    rw [hmode.state]
    exact inv.started h
  · rw [lastMove_concat hm] at h
    rw [hmode.state, hmode.openedAt]
    exact inv.moved new time h
  · rw [hmode.generation]
    rcases get?_set_some hc' with ⟨rfl, rfl⟩ | ⟨-, hc'⟩
    · exact inv.le_generation c' call hc
    · exact inv.le_generation c' call' hc'
  · rw [period_concat hm, issued_concat _ hi, hmode.generation]
    rcases get?_set_some hc' with ⟨rfl, rfl⟩ | ⟨-, hc'⟩
    · exact inv.current c' call hc
    · exact inv.current c' call' hc'
  · rw [period_concat hm, issued_concat _ hi, settled_insert _ he, mem_insert] at hc'
    by_cases hcc : c' = c
    · subst hcc
      exact ⟨_, get?_set_self _ _ _⟩
    · rw [get?_set_of_ne _ _ hcc]
      exact inv.known c' (hc'.imp_right fun h => h.resolve_left hcc)
  · rw [period_concat hm, settled_insert _ he, mem_insert]
    rcases get?_set_some hc' with ⟨rfl, rfl⟩ | ⟨hne, hc'⟩
    · cases hr
    · exact fun h => inv.unsettled c' call' hc' hr (h.resolve_left hne)
  · rw [hmode.state] at h
    rw [period_concat hm]
    exact hprobes h

theorem settle_quiet (hc : calls.get? c = some call) (he : e.settles = some c)
    (hmode : SameMode b b')
    (hsame : b'.probeSuccesses = b.probeSuccesses ∧ b'.probesIssued = b.probesIssued)
    (hquiet : b.state = .halfOpen → call.permit.generation ≠ b.generation ∨ e.succeeds = none) :
    Inv config (events ++ [e]) b' (calls.set c { call with resolved := true }) := by
  refine inv.settle hc he hmode fun h => ?_
  obtain ⟨hs, hle, hmax⟩ := inv.probes h
  have hout := outstanding_settled_le (p := period events) he
  have hsucc : successes (period events ++ [e]) = successes (period events) := by
    rcases hquiet h with hstale | hu
    · have hi : c ∉ issued (period events) := fun hi => hstale ((inv.current c call hc).mpr hi)
      cases e <;> cases he
      · exact successes_stale hi
      · exact successes_concat _ rfl rfl
      · exact successes_concat _ rfl rfl
    · exact successes_concat _ (issues_of_settles he) hu
  rw [hsucc, hsame.1, hsame.2]
  refine ⟨hs, ?_, hmax⟩
  omega

theorem settle_probe (hc : calls.get? c = some call) (hr : call.resolved = false)
    (hgen : call.permit.generation = b.generation) :
    Inv config (events ++ [.succeeded c]) { b with probeSuccesses := b.probeSuccesses + 1 }
      (calls.set c { call with resolved := true }) := by
  refine inv.settle hc rfl ⟨rfl, rfl, rfl, rfl⟩ fun h => ?_
  have hi := (inv.current c call hc).mp hgen
  have hn := inv.unsettled c call hc hr
  obtain ⟨hs, hle, hmax⟩ := inv.probes h
  have hout := outstanding_settled_add_one (e := .succeeded c) rfl hi hn
  rw [successes_succeeded hi hn]
  refine ⟨?_, ?_, hmax⟩
  · show b.probeSuccesses + 1 = _
    rw [hs, Int.natCast_succ]
  · show _ ≤ b.probesIssued
    omega

theorem result (hc : calls.get? c = some call) (hr : call.resolved = false) (success : Bool)
    (now later : ℚ) : Inv config (events ++ resultEvent c success ::
        movesAt later (b.onResult call.permit success now later).1)
      (b.onResult call.permit success now later).2
      (calls.set c { call with resolved := true }) := by
  rw [append_cons]
  have he := resultEvent_settles c success
  have hquiet : ∀ window, (b.state = .halfOpen → call.permit.generation ≠ b.generation ∨
        (resultEvent c success).succeeds = none) →
      Inv config (events ++ [resultEvent c success]) { b with window }
        (calls.set c { call with resolved := true }) :=
    fun window h => inv.settle_quiet hc he ⟨rfl, rfl, rfl, rfl⟩ ⟨rfl, rfl⟩ h
  have hres := onResult_resulted b call.permit success now later
  generalize b.onResult call.permit success now later = r at hres ⊢
  cases hres with
  | stale hgen =>
    rw [show movesAt later [] = [] from rfl, append_nil]
    exact hquiet b.window fun _ => .inl hgen
  | whileOpen hstate =>
    rw [show movesAt later [] = [] from rfl, append_nil]
    exact hquiet b.window fun h => by cases hstate.symm.trans h
  | recorded window hstate =>
    rw [show movesAt later [] = [] from rfl, append_nil]
    exact hquiet window fun h => by cases hstate.symm.trans h
  | tripped window hstate =>
    exact (hquiet window fun h => by cases hstate.symm.trans h).move .open later nofun nofun
  | reopened _ hfail =>
    exact (hquiet b.window fun _ => .inr (by rw [hfail]; rfl)).move .open later nofun nofun
  | counted hgen _ hsucc =>
    rw [show movesAt later [] = [] from rfl, append_nil, hsucc]
    exact inv.settle_probe hc hr hgen
  | closed hgen _ hsucc hall =>
    rw [hsucc]
    have hinv := inv.settle_probe hc hr hgen
    refine hinv.move .closed later (fun h _ _ => ?_) nofun
    -- every issued probe has succeeded: there is room for no more
    obtain ⟨hs, hle, hmax⟩ := hinv.probes h
    rw [inv.config_eq] at hall
    simp only at hs hle hmax
    omega

theorem ignore (hc : calls.get? c = some call) (hr : call.resolved = false) :
    Inv config (events ++ [.ignored c]) (b.release call.permit)
      (calls.set c { call with resolved := true }) := by
  rw [CircuitBreaker.release]
  split
  case isTrue h =>
    obtain ⟨hgen, hstate⟩ := h
    refine inv.settle hc rfl ⟨rfl, rfl, rfl, rfl⟩ fun h => ?_
    have hi := (inv.current c call hc).mp hgen
    have hn := inv.unsettled c call hc hr
    obtain ⟨hs, hle, hmax⟩ := inv.probes h
    have hout := outstanding_settled_add_one (e := .ignored c) rfl hi hn
    rw [successes_concat _ rfl rfl]
    refine ⟨hs, ?_, ?_⟩
    · show _ ≤ b.probesIssued - 1
      omega
    · show b.probesIssued - 1 ≤ _
      omega
  case isFalse => exact inv.settle_quiet hc rfl (.refl b) ⟨rfl, rfl⟩ fun _ => .inr rfl

theorem maybeHalfOpen (now : ℚ) :
    Inv config (events ++ movesAt now (b.maybeHalfOpen now).1) (b.maybeHalfOpen now).2 calls := by
  rw [CircuitBreaker.maybeHalfOpen]
  split
  case isTrue h =>
    refine inv.move .halfOpen now nofun fun _ _ => ?_
    rw [← inv.config_eq]
    exact h.2
  · rw [show movesAt now [] = [] from rfl, append_nil]
    exact inv

end Inv

theorem Inv.acquire (inv : Inv config events s.breaker s.calls) (hfresh : s.calls.get? c = none)
    (now later : ℚ) :
    Inv config (events ++ (s.acquire c now later).1) (s.acquire c now later).2.breaker
      (s.acquire c now later).2.calls := by
  have hmid := inv.maybeHalfOpen now
  simp only [BreakerSystem.acquire, CircuitBreaker.acquire]
  generalize s.breaker.maybeHalfOpen now = m at hmid ⊢
  obtain ⟨transitions, b⟩ := m
  by_cases hclosed : b.state = .closed
  · simp only [if_pos hclosed, ← append_assoc]
    exact hmid.admitCall hfresh (.refl b) fun h => by cases hclosed.symm.trans h
  by_cases hslot : b.state = .halfOpen ∧ b.probesIssued < b.config.halfOpenMaxCalls
  · simp only [if_neg hclosed, if_pos hslot, ← append_assoc]
    refine hmid.admitCall hfresh ⟨rfl, rfl, rfl, rfl⟩ fun _ => ⟨rfl, rfl, ?_⟩
    rw [← hmid.config_eq]
    exact hslot.2
  · simp only [if_neg hclosed, if_neg hslot, ← append_assoc]
    exact hmid.observe rfl rfl rfl

theorem Inv.step {s' : BreakerSystem E} {a : BreakerStep E} {o : List BreakerEvent}
    (inv : Inv config events s.breaker s.calls) (h : s.step a = .ok (o, s')) :
    Inv config (events ++ o) s'.breaker s'.calls := by
  cases a with
  | acquire _ now later =>
    simp only [BreakerSystem.step] at h
    split at h
    case h_1 => cases h
    case h_2 hfresh =>
    split at h
    case isTrue =>
      have hinv := inv.acquire hfresh now later
      rw [Except.ok.inj h] at hinv
      exact hinv
    case isFalse => cases h
  | onSuccess _ now later =>
    simp only [BreakerSystem.step] at h
    split at h
    case h_1 hc =>
      split at h
      case isTrue =>
        cases h
        exact inv.result hc rfl true now later
      case isFalse => cases h
    case h_2 => cases h
  | onError _ _ now later =>
    simp only [BreakerSystem.step] at h
    split at h
    case h_1 hc =>
      split at h
      case isTrue =>
        cases h
        simp only [CircuitBreaker.onError]
        split
        · exact inv.result hc rfl false now later
        · exact inv.ignore hc rfl
      case isFalse => cases h
    case h_2 => cases h
  | readState now =>
    simp only [BreakerSystem.step] at h
    split at h
    case isTrue =>
      cases h
      rw [← append_assoc]
      exact (inv.maybeHalfOpen now).observe rfl rfl rfl
    case isFalse => cases h
  | reset now =>
    simp only [BreakerSystem.step] at h
    split at h
    case isTrue =>
      cases h
      rw [append_cons]
      exact (inv.observe rfl rfl rfl).move .closed now (fun _ _ hlast => absurd (by simp) hlast)
        (by simp)
    case isFalse => cases h

/-! ## Whole runs -/

theorem Inv.stateAfter_eq (inv : Inv config events b calls) : b.state = stateAfter events := by
  rw [stateAfter]
  cases h : lastMove events with
  | none => exact inv.started h
  | some m => exact (inv.moved m.1 m.2 h).1

/-- The protocol, in a state reached with the trace `events`. -/
structure ProtocolSafe (config : CircuitBreakerConfig E) (events : List BreakerEvent)
    (s : BreakerSystem E) : Prop where
  state_eq : s.breaker.state = stateAfter events
  /-- no call is admitted while the breaker is open, until `open_duration` has passed -/
  waits : ∀ c now later o s' t, s.step (.acquire c now later) = .ok (o, s') →
    lastMove events = some (.open, t) → now - t < config.openDuration → .admitted c ∉ o
  /-- permits out and successes of a half-open period are within the probes -/
  bounded : stateAfter events = .halfOpen →
    (outstanding (period events) + successes (period events) : Int) ≤ config.halfOpenMaxCalls
  late : HalfOpensLate config events
  closed : ClosedByProbes config events
  /-- a permit of an earlier period changes nothing -/
  stale : ∀ a c o s', a.resolves = some c → c ∉ issued (period events) → s.step a = .ok (o, s') →
    s'.breaker = s.breaker

theorem Inv.waits (inv : Inv config events s.breaker s.calls) {t : ℚ}
    (hopen : lastMove events = some (.open, t)) {now : ℚ} (hnow : now - t < config.openDuration)
    (c : Nat) (later : ℚ) : .admitted c ∉ (s.acquire c now later).1 := by
  obtain ⟨hstate, hopened⟩ := inv.moved .open t hopen
  have hstay : s.breaker.maybeHalfOpen now = ([], s.breaker) := by
    rw [CircuitBreaker.maybeHalfOpen, if_neg]
    rw [inv.config_eq, hopened rfl]
    exact fun h => absurd h.2 (not_le.mpr hnow)
  simp only [BreakerSystem.acquire, CircuitBreaker.acquire, hstay, hstate, reduceCtorEq, if_false,
    false_and, movesAt, map_nil, nil_append]
  simp

theorem Inv.protocolSafe (inv : Inv config events s.breaker s.calls) :
    ProtocolSafe config events s where
  state_eq := inv.stateAfter_eq
  waits := by
    intro c now later o s' t hstep hopen hnow
    simp only [BreakerSystem.step] at hstep
    split at hstep
    case h_1 => cases hstep
    case h_2 =>
    split at hstep
    case isTrue =>
      have hwait := inv.waits hopen hnow c later
      rw [Except.ok.inj hstep] at hwait
      exact hwait
    case isFalse => cases hstep
  bounded := by
    intro hhalf
    obtain ⟨-, hle, hmax⟩ := inv.probes (inv.stateAfter_eq.trans hhalf)
    exact hle.trans hmax
  late := inv.late
  closed := inv.closed
  stale := by
    intro a c o s' hres hstale hstep
    have hgen : ∀ permit, s.calls.get? c = some ⟨permit, false⟩ →
        permit.generation ≠ s.breaker.generation :=
      fun permit hc h => hstale ((inv.current c _ hc).mp h)
    cases a with
    | onSuccess _ now later =>
      cases hres
      simp only [BreakerSystem.step] at hstep
      split at hstep
      case h_1 permit hc =>
        split at hstep
        case isTrue =>
          cases hstep
          exact s.breaker.onResult_stale (hgen permit hc) true now later
        case isFalse => cases hstep
      case h_2 => cases hstep
    | onError _ exc now later =>
      cases hres
      simp only [BreakerSystem.step] at hstep
      split at hstep
      case h_1 permit hc =>
        split at hstep
        case isTrue =>
          cases hstep
          exact s.breaker.onError_stale (hgen permit hc) exc now later
        case isFalse => cases hstep
      case h_2 => cases hstep
    | _ => cases hres

/-- The events and the calls of a run agree with the breaker. -/
theorem run_inv (hnew : CircuitBreaker.new config = .ok b) (start : ℚ)
    {steps : List (BreakerStep E)} {outs : List (List BreakerEvent)}
    (hrun : runSteps BreakerSystem.step (.init b start) steps = .ok (outs, s)) :
    Inv config outs.flatten s.breaker s.calls := by
  refine runSteps_keeps (C := fun _ _ => True)
    (fun _ os (t : BreakerSystem E) => Inv config os.flatten t.breaker t.calls) ?_ ?_
    (Guarded.of_forall (fun _ _ => trivial) _ _) hrun
  · intro as os t a o t' _ inv _ hstep
    rw [flatten_concat]
    exact inv.step hstep
  · exact inv_new hnew

/-- The breaker follows its protocol on every run of any number of callers. -/
theorem run_protocolSafe (config : CircuitBreakerConfig E) (b : CircuitBreaker E)
    (hnew : CircuitBreaker.new config = .ok b) (start : ℚ) (steps : List (BreakerStep E))
    (outs : List (List BreakerEvent)) (s : BreakerSystem E)
    (hrun : runSteps BreakerSystem.step (.init b start) steps = .ok (outs, s)) :
    ProtocolSafe config outs.flatten s :=
  (run_inv hnew start hrun).protocolSafe

/-- Every failure counts, one call opens the breaker and one probe closes it, at once. -/
def oneProbe : CircuitBreakerConfig Unit where
  isFailure := fun _ => true
  failureRateThreshold := 1
  windowType := .count
  windowSize := 1
  minimumCalls := 1
  openDuration := 0
  halfOpenMaxCalls := 1
  threshold_pos := by decide +kernel
  threshold_le_one := le_rfl
  minimumCalls_pos := le_rfl
  halfOpenMaxCalls_pos := le_rfl
  openDuration_nonneg := le_rfl

def oneProbeBreaker : CircuitBreaker Unit :=
  ⟨oneProbe, .count 1 (.empty Nat.one_pos), .closed, 0, 0, 0, 0⟩

/-- `run_protocolSafe` for a breaker that is opened, probed and closed. -/
theorem run_protocolSafe_probed : ∃ outs s, runSteps BreakerSystem.step (.init oneProbeBreaker 0)
        [.acquire 0 0 0, .onError 0 () 0 0, .readState 0, .acquire 1 0 0, .onSuccess 1 0 0] =
          .ok (outs, s) ∧ ProtocolSafe oneProbe outs.flatten s := by
  refine exists_run_of_observe (f := fun _ => ()) (b := ())
    (by decide +kernel) fun outs s hrun _ => ?_
  exact run_protocolSafe oneProbe oneProbeBreaker rfl 0 _ outs s hrun

/-- An operator's reset closes a half-open breaker though no probe has succeeded. -/
theorem reset_closesHalfOpen : ∃ outs s, runSteps BreakerSystem.step (.init oneProbeBreaker 0)
        [.acquire 0 0 0, .onError 0 () 0 0, .readState 0, .reset 0] = .ok (outs, s) ∧
      ¬ ∀ pre time post, outs.flatten = pre ++ .moved .halfOpen .closed time :: post →
        (successes (period pre) : Int) = oneProbe.halfOpenMaxCalls := by
  refine exists_run_of_observe (f := fun r => r.1.flatten)
    (b := [.admitted 0, .failed 0, .moved .closed .open 0, .moved .open .halfOpen 0,
      .read .halfOpen,
      .reset, .moved .halfOpen .closed 0]) (by decide +kernel) fun outs s hrun hobs => ?_
  refine fun h => ?_
  have hclosed := h [.admitted 0, .failed 0, .moved .closed .open 0, .moved .open .halfOpen 0,
    .read .halfOpen, .reset] 0 [] hobs
  exact absurd hclosed (by decide +kernel)

end InterviewPrep.Resilience
