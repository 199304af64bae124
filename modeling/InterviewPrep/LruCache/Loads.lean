/-
  Single-flight safety: on every run of `ThreadSafeCache` with valid `ttl`s at most
  one loader runs for each key, and every call of `get_or_load` ends with a value that
  was live when it looked the key up, or with the result of the one load of the flight
  that it led or joined (`run_singleFlight`).
-/
import InterviewPrep.LruCache.Flights

namespace InterviewPrep.LruCache

open Lib List Memory

/-- How a call ends that takes over what a loader returned or raised. -/
def loadOutcome {V E : Type} : Except E V → Outcome V E
  | .ok value => .ok (some value)
  | .error e => .error (.loader e)

/-- The result that an event stores in the flight, if it does. -/
def CacheEvent.loadOf? {K V E : Type} (flight : Ref) : CacheEvent K V E → Option (Except E V)
  | .loaded f result => if f = flight then some result else none
  | _ => none

/-- The results of the loads of a flight. -/
def loadsOf {K V E : Type} (flight : Ref) (events : List (CacheEvent K V E)) :
    List (Except E V) :=
  events.filterMap (CacheEvent.loadOf? flight)

namespace ThreadSafeCache

variable {K V T P E : Type} [DecidableEq K] [LinearOrder T] [Zero T] [Add T] [CachePolicy P]
  [LawfulCachePolicy P] {s s' : ThreadSafeCache K V T P E} {config : Config T}
  {ops : List (CacheStep K V T E)} {events : List (CacheEvent K V E)}

/-! ## What a call's outcome goes back to -/

/-- The value was live in the cache when the call looked the key up. -/
def FoundLive (P : Type) [CachePolicy P] [LawfulCachePolicy P] (config : Config T)
    (ops : List (CacheStep K V T E)) (c : Nat) (key : K) (value : V) : Prop :=
  ∃ before after ttl now events, ∃ s : ThreadSafeCache K V T P E,
    ops = before ++ .lookUp c key ttl now :: after ∧
    runSteps step (new config) before = .ok (events, s) ∧ s.cache.live? key now = some value

/-- The outcome is the result of the one load of the flight that the call led or joined. -/
def FlightResult (events : List (CacheEvent K V E)) (c : Nat) (key : K) (outcome : Outcome V E) :
    Prop :=
  ∃ flight result, (.led c key flight ∈ events ∨ .joined c key flight ∈ events) ∧
    (∃ leader, .led leader key flight ∈ events) ∧ loadsOf flight events = [result] ∧
    outcome = loadOutcome result

theorem FoundLive.append {c : Nat} {key : K} {value : V} (h : FoundLive P config ops c key value)
    (op : CacheStep K V T E) : FoundLive P config (ops ++ [op]) c key value := by
  obtain ⟨before, after, ttl, now, events, s, rfl, hrun, hlive⟩ := h
  exact ⟨before, after ++ [op], ttl, now, events, s, by simp, hrun, hlive⟩

omit [DecidableEq K] in
theorem loadsOf_append (f : Ref) (ev : CacheEvent K V E) :
    loadsOf f (events ++ [ev]) = loadsOf f events ++ (ev.loadOf? f).toList := by
  rw [loadsOf, filterMap_append]
  congr 1

/-! ## The history of a call -/

/-- What the run so far says about a call. -/
structure CallHistory (P : Type) [CachePolicy P] [LawfulCachePolicy P] (config : Config T)
    (ops : List (CacheStep K V T E)) (events : List (CacheEvent K V E))
    (flights : Memory (Flight V E)) (c : Nat) (call : Call K V T E) : Prop where
  hit : call.role = .hit → ∃ value, call.pc = .finished (.ok (some value)) ∧
    FoundLive P config ops c call.key value
  led : ∀ f, call.role = .leader f → .led c call.key f ∈ events
  joined : ∀ f, call.role = .follower f → .joined c call.key f ∈ events
  /-- while the loader runs, the flight is empty -/
  loading : ∀ f, call.role = .leader f → call.pc = .loading →
    loadsOf f events = [] ∧ (flights.read f).error = none
  loaded : ∀ f, call.role = .leader f → call.pc ≠ .loading →
    ∃ result, loadsOf f events = [result] ∧ (flights.read f).outcome = loadOutcome result
  finished : ∀ f outcome, call.role = .leader f ∨ call.role = .follower f →
    call.pc = .finished outcome →
    ∃ result, loadsOf f events = [result] ∧ outcome = loadOutcome result

variable {op : CacheStep K V T E} {ev : CacheEvent K V E} {call : Call K V T E}

theorem CallHistory.append {flights flights' : Memory (Flight V E)} {c : Nat}
    (h : CallHistory P config ops events flights c call)
    (op : CacheStep K V T E) (ev : CacheEvent K V E)
    (hload : ∀ f, call.role = .leader f ∨ loadsOf f events ≠ [] → ev.loadOf? f = none)
    (hflights : ∀ f, call.role = .leader f → (flights'.read f).error = (flights.read f).error ∧
        (flights'.read f).outcome = (flights.read f).outcome) :
    CallHistory P config (ops ++ [op]) (events ++ [ev]) flights' c call := by
  have hsame : ∀ f, call.role = .leader f ∨ loadsOf f events ≠ [] →
      loadsOf f (events ++ [ev]) = loadsOf f events := by
    intro f hf
    rw [loadsOf_append, hload f hf, Option.toList_none, append_nil]
  refine ⟨fun hr => ?_, fun f hr => ?_, fun f hr => ?_, fun f hr hpc => ?_, fun f hr hpc => ?_,
    fun f outcome hr hpc => ?_⟩
  · obtain ⟨value, hpc, hfound⟩ := h.hit hr
    exact ⟨value, hpc, hfound.append op⟩
  · exact mem_append_left _ (h.led f hr)
  · exact mem_append_left _ (h.joined f hr)
  · rw [hsame f (Or.inl hr), (hflights f hr).1]
    exact h.loading f hr hpc
  · rw [hsame f (Or.inl hr), (hflights f hr).2]
    exact h.loaded f hr hpc
  · obtain ⟨result, hone, heq⟩ := h.finished f outcome hr hpc
    refine ⟨result, ?_, heq⟩
    rw [hsame f (Or.inr (by rw [hone]; exact cons_ne_nil _ _)), hone]

/-- What the run so far says about every call and every flight. -/
structure History (config : Config T) (ops : List (CacheStep K V T E))
    (events : List (CacheEvent K V E)) (s : ThreadSafeCache K V T P E) : Prop where
  calls : ∀ c call, s.calls.get? c = some call →
    CallHistory P config ops events s.flights c call
  fresh : ∀ f, s.flights.next ≤ f → loadsOf f events = []

theorem new_history : History config [] [] (new config : ThreadSafeCache K V T P E) :=
  ⟨nofun, fun _ _ => rfl⟩

theorem History.others (h : History config ops events s) (op : CacheStep K V T E)
    (ev : CacheEvent K V E) {c : Nat} {flights : Memory (Flight V E)}
    (hload : ∀ c' call' f, c' ≠ c → s.calls.get? c' = some call' →
      call'.role = .leader f ∨ loadsOf f events ≠ [] → ev.loadOf? f = none)
    (hflights : ∀ c' call' f, c' ≠ c → s.calls.get? c' = some call' → call'.role = .leader f →
      flights.read f = s.flights.read f)
    (hnew : CallHistory P config (ops ++ [op]) (events ++ [ev]) flights c call) :
    ∀ c' call', (s.calls.set c call).get? c' = some call' →
      CallHistory P config (ops ++ [op]) (events ++ [ev]) flights c' call' := by
  intro c' call' h'
  rcases Dict.get?_set_some h' with ⟨rfl, rfl⟩ | ⟨hne, h'⟩
  · exact hnew
  · refine (h.calls c' call' h').append op ev (fun f hf => hload c' call' f hne h' hf)
      fun f hf => ?_
    rw [hflights c' call' f hne h' hf]
    exact ⟨rfl, rfl⟩

theorem History.fresh_append (h : History config ops events s) (ev : CacheEvent K V E)
    {next : Ref} (hnext : s.flights.next ≤ next) (hev : ∀ f, next ≤ f → ev.loadOf? f = none) :
    ∀ f, next ≤ f → loadsOf f (events ++ [ev]) = [] := by
  intro f hf
  rw [loadsOf_append, h.fresh f (hnext.trans hf), hev f hf]
  rfl

theorem Moved.history (h : Moved s op ev s') (hi : s.FlightInv) (hh : History config ops events s)
    (hrun : runSteps step (new config) ops = .ok (events, s)) :
    History config (ops ++ [op]) (events ++ [ev]) s' := by
  cases h with
  | locked _ reply =>
    refine ⟨fun c call hc => ?_, hh.fresh_append (.replied reply) le_rfl fun _ _ => rfl⟩
    exact (hh.calls c call hc).append _ _ (fun _ _ => rfl) fun _ _ => ⟨rfl, rfl⟩
  | hit c key ttl now value cache _ hv =>
    refine ⟨hh.others _ (.hit c key value) (fun _ _ _ _ _ _ => rfl) (fun _ _ _ _ _ _ => rfl) ?_,
      hh.fresh_append (.hit c key value) le_rfl fun _ _ => rfl⟩
    have hlive : s.cache.live? key now = some value := by
      obtain ⟨cache', hget, -⟩ := BaseCache.get_spec hi.cache key now
      rw [hv, Except.ok.injEq, Prod.mk.injEq] at hget
      exact hget.1.symm
    refine ⟨fun _ => ⟨value, rfl, ops, [], ttl, now, events, s, rfl, hrun, hlive⟩,
      nofun, nofun, nofun,
      nofun, fun f outcome hr => ?_⟩
    rcases hr with hr | hr <;> cases hr
  | joined c key _ _ f =>
    refine ⟨hh.others _ (.joined c key f) (fun _ _ _ _ _ _ => rfl) (fun _ _ _ _ _ _ => rfl) ?_,
      hh.fresh_append (.joined c key f) le_rfl fun _ _ => rfl⟩
    refine ⟨nofun, nofun, fun g hr => ?_, nofun, nofun, nofun⟩
    cases hr
    exact mem_append_right _ (mem_singleton_self _)
  | led c key =>
    have hnew : (s.flights.alloc Flight.new).2.read s.flights.next = Flight.new :=
      read_alloc_self _ _
    refine ⟨hh.others _ (.led c key s.flights.next) (fun _ _ _ _ _ _ => rfl)
      (fun c' call' f _ h' hr => read_alloc_of_ne _ _
        (Nat.ne_of_lt (hi.leads c' call' f h' hr).bound)) ?_,
      hh.fresh_append (.led c key s.flights.next) (Nat.le_succ _) fun _ _ => rfl⟩
    refine ⟨nofun, fun g hr => ?_, nofun,
      fun g hr _ => ?_, (fun g hr hpc => absurd rfl hpc), nofun⟩
    · cases hr
      exact mem_append_right _ (mem_singleton_self _)
    · cases hr
      refine ⟨hh.fresh_append (.led c key s.flights.next) le_rfl (fun _ _ => rfl) _ le_rfl, ?_⟩
      rw [hnew]
      rfl
  | loaded c result _ _ f hc =>
    obtain ⟨hempty, herror⟩ := (hh.calls c _ hc).loading f rfl rfl
    have hevent : ∀ g, g ≠ f → CacheEvent.loadOf? (K := K) g (.loaded f result) = none :=
      fun g hg => if_neg (Ne.symm hg)
    have hlead : ∀ c' call' g, c' ≠ c → s.calls.get? c' = some call' →
        call'.role = .leader g → g ≠ f := by
      rintro c' call' g hne h' hr rfl
      exact hne (hi.leader c' c call' _ g h' hc hr rfl)
    refine ⟨hh.others _ (.loaded f result) (fun c' call' g hne h' hg => hevent g ?_)
      (fun c' call' g hne h' hr => read_write_of_ne _ _ (hlead c' call' g hne h' hr)) ?_,
      hh.fresh_append (.loaded f result) le_rfl fun g hg => hevent g ?_⟩
    · rcases hg with hr | hloads
      · exact hlead c' call' g hne h' hr
      · rintro rfl
        exact hloads hempty
    · refine ⟨nofun, fun g hr => ?_, nofun,
        nofun, fun g hr _ => ⟨result, ?_, ?_⟩, nofun⟩
      · exact mem_append_left _ ((hh.calls c _ hc).led g hr)
      · cases hr
        rw [loadsOf_append, hempty, CacheEvent.loadOf?, if_pos rfl]
        rfl
      · cases hr
        simp only [moveTo, read_write_self]
        cases result with
        | ok => simp only [Flight.outcome, herror, loadOutcome]
        | error => rfl
    · rintro rfl
      exact absurd (hi.leads c _ g hc rfl).bound (Nat.not_lt.mpr hg)
  | cleaned c now later _ _ _ _ hc =>
    have hold := hh.calls c _ hc
    refine ⟨hh.others _ (.cleanedUp c) (fun _ _ _ _ _ _ => rfl) (fun _ _ _ _ _ _ => rfl) ?_,
      hh.fresh_append (.cleanedUp c) le_rfl fun _ _ => rfl⟩
    have hnew := hold.append (.cleanUp c now later) (.cleanedUp c) (fun _ _ => rfl)
      (fun _ _ => ⟨rfl, rfl⟩)
    exact ⟨nofun, hnew.led, nofun,
      nofun, (fun g hr _ => hnew.loaded g hr (by simp)), nofun⟩
  | broken c now later key _ f value _ hc herror hput =>
    obtain ⟨cache', hput', -⟩ := BaseCache.put_spec hi.cache key value
      ((hi.leads c _ f hc rfl).stored rfl herror).2 now later
    rw [hput] at hput'
    cases hput'
  | announced c _ _ f hc =>
    have hlead : ∀ c' call' g, c' ≠ c → s.calls.get? c' = some call' →
        call'.role = .leader g → g ≠ f := by
      rintro c' call' g hne h' hr rfl
      exact hne (hi.leader c' c call' _ g h' hc hr rfl)
    have hold := (hh.calls c _ hc).append (.announce c) (.returned c (s.flights.read f).outcome)
      (fun _ _ => rfl) (fun _ _ => ⟨rfl, rfl⟩)
    obtain ⟨result, hone, hresult⟩ := hold.loaded f rfl (by simp)
    refine ⟨hh.others _ (.returned c (s.flights.read f).outcome) (fun _ _ _ _ _ _ => rfl)
      (fun c' call' g hne h' hr => read_write_of_ne _ _ (hlead c' call' g hne h' hr)) ?_,
      hh.fresh_append (.returned c (s.flights.read f).outcome) le_rfl fun _ _ => rfl⟩
    refine ⟨nofun, hold.led, nofun,
      nofun, fun g hr _ => ?_, fun g outcome hr hpc => ?_⟩
    · cases hr
      refine ⟨result, hone, ?_⟩
      simp only [moveTo, read_write_self]
      exact hresult
    · rcases hr with hr | hr
      · cases hr
        cases hpc
        exact ⟨result, hone, hresult⟩
      · cases hr
  | woken c _ _ f hc hdone =>
    -- the flight is done, so its leader has finished and its load is recorded
    obtain ⟨c', call', hc', hlead, -⟩ := hi.led c _ f hc rfl
    obtain ⟨outcome', hfin⟩ := (hi.leads c' call' f hc' hlead).done.mp hdone
    obtain ⟨result, hone, hresult⟩ := (hh.calls c' call' hc').loaded f hlead
      (by simp [hfin])
    have hold := (hh.calls c _ hc).append (.wake c) (.returned c (s.flights.read f).outcome)
      (fun _ _ => rfl) (fun _ _ => ⟨rfl, rfl⟩)
    refine ⟨hh.others _ (.returned c (s.flights.read f).outcome) (fun _ _ _ _ _ _ => rfl)
      (fun _ _ _ _ _ _ => rfl) ?_,
      hh.fresh_append (.returned c (s.flights.read f).outcome) le_rfl fun _ _ => rfl⟩
    refine ⟨nofun, nofun, hold.joined,
      nofun, nofun, fun g outcome hr hpc => ?_⟩
    rcases hr with hr | hr
    · cases hr
    · cases hr
      cases hpc
      refine ⟨result, ?_, hresult⟩
      rw [loadsOf_append, hone]
      rfl

/-! ## Safety -/

omit [LawfulCachePolicy P] in
theorem Moved.validTtl (h : Moved s op ev s')
    (hs : ∀ c call, s.calls.get? c = some call → ValidTtl call.ttl)
    (hop : ∀ c key ttl now, op = .lookUp c key ttl now → ValidTtl ttl) :
    ∀ c call, s'.calls.get? c = some call → ValidTtl call.ttl := by
  intro c' call' h'
  have hset : ∀ {c : Nat} {call : Call K V T E}, ValidTtl call.ttl →
      (s.calls.set c call).get? c' = some call' → ValidTtl call'.ttl := by
    intro c call hcall h'
    rcases Dict.get?_set_some h' with ⟨-, rfl⟩ | ⟨-, h'⟩
    · exact hcall
    · exact hs c' call' h'
  have hmove : ∀ {c : Nat} {call : Call K V T E} {pc : Pc V E}, s.calls.get? c = some call →
      (s.calls.set c { call with pc }).get? c' = some call' → ValidTtl call'.ttl := by
    intro c call pc hc h'
    exact hset (show ValidTtl ({ call with pc } : Call K V T E).ttl from hs c call hc) h'
  cases h with
  | locked => exact hs c' call' h'
  | hit c key ttl now value cache hfresh hv | joined c key ttl now f cache hfresh hv hf
  | led c key ttl now => exact hset (hop c key ttl now rfl) h'
  | loaded c result key ttl f hc | cleaned c now later key ttl f cache hc hput hskip
  | broken c now later key ttl f value message hc herror hput | announced c key ttl f hc
  | woken _ _ _ _ hc => exact hmove hc h'

omit [LawfulCachePolicy P] in
theorem guarded_of_validTtl (hs : ∀ c call, s.calls.get? c = some call → ValidTtl call.ttl)
    (hops : ∀ c key ttl now, .lookUp c key ttl now ∈ ops → ValidTtl ttl) :
    Guarded Meets step s ops := by
  induction ops generalizing s with
  | nil => trivial
  | cons _ _ ih =>
    refine ⟨fun c value call _ hc => hs c call hc, fun ev s' hstep => ih ?_ ?_⟩
    · exact (step_moved hstep).validTtl hs fun c key ttl now hop =>
        hops c key ttl now (hop ▸ mem_cons_self ..)
    · exact fun c key ttl now hm => hops c key ttl now (mem_cons_of_mem _ hm)

/-- Single-flight safety: with valid `ttl`s at most one loader runs for each key at any time, and
    every call ends with a value that was live when it looked its key up, or with the result of its
    flight's one load. -/
theorem run_singleFlight (config : Config T) (ops : List (CacheStep K V T E))
    (events : List (CacheEvent K V E)) (s : ThreadSafeCache K V T P E)
    (httl : ∀ c key ttl now, .lookUp c key ttl now ∈ ops → ValidTtl ttl)
    (hrun : runSteps step (new config) ops = .ok (events, s)) :
    (∀ c c' call call', s.calls.get? c = some call → s.calls.get? c' = some call' →
      call.pc = .loading → call'.pc = .loading → call.key = call'.key → c = c') ∧
    ∀ c call outcome, s.calls.get? c = some call → call.pc = .finished outcome →
      (∃ value, outcome = .ok (some value) ∧ FoundLive P config ops c call.key value) ∨
        FlightResult events c call.key outcome := by
  have hguard : Guarded Meets step (new config : ThreadSafeCache K V T P E) ops :=
    guarded_of_validTtl nofun httl
  obtain ⟨hi, hh⟩ := runSteps_keeps (fun as os s => s.FlightInv ∧ History config as os s)
    (fun as os t op ev t' hpast hI hm hstep =>
      ⟨(step_moved hstep).flightInv hI.1 hm, (step_moved hstep).history hI.1 hI.2 hpast⟩)
    ⟨new_flightInv config, new_history⟩ hguard hrun
  refine ⟨fun c c' call call' hc hc' hpc hpc' hkey => ?_, fun c call outcome hc hpc => ?_⟩
  · obtain ⟨f, hrole⟩ := hi.loader c call hc (Or.inl hpc)
    obtain ⟨f', hrole'⟩ := hi.loader c' call' hc' (Or.inl hpc')
    have hin := (hi.leads c call f hc hrole).running (Or.inl hpc)
    have hin' := (hi.leads c' call' f' hc' hrole').running (Or.inl hpc')
    rw [hkey, hin', Option.some.injEq] at hin
    rw [hin] at hrole'
    exact hi.leader c c' call call' f hc hc' hrole hrole'
  have hcall := hh.calls c call hc
  cases hrole : call.role with
  | hit =>
    obtain ⟨value, hpc', hfound⟩ := hcall.hit hrole
    rw [hpc] at hpc'
    cases hpc'
    exact Or.inl ⟨value, rfl, hfound⟩
  | leader f =>
    obtain ⟨result, hone, heq⟩ := hcall.finished f outcome (Or.inl hrole) hpc
    exact Or.inr ⟨f, result, Or.inl (hcall.led f hrole), ⟨c, hcall.led f hrole⟩, hone, heq⟩
  | follower f =>
    obtain ⟨result, hone, heq⟩ := hcall.finished f outcome (Or.inr hrole) hpc
    obtain ⟨c', call', hc', hlead, hkey⟩ := hi.led c call f hc hrole
    have hled := (hh.calls c' call' hc').led f hlead
    rw [hkey] at hled
    exact Or.inr ⟨f, result, Or.inr (hcall.joined f hrole), ⟨c', hled⟩, hone, heq⟩

/-- `run_singleFlight` for a call that joins the flight of another. -/
theorem run_singleFlight_joined : ∃ events s, runSteps step tenEntries
        [.lookUp 0 "k" (some 5) 0, .lookUp 1 "k" none 0, .load 0 (.ok 7), .cleanUp 0 1 1,
          .announce 0, .wake 1] = .ok (events, s) ∧
      ∀ call outcome, s.calls.get? 1 = some call → call.pc = .finished outcome →
        (∃ value, outcome = .ok (some value) ∧ FoundLive LRU ⟨10, none, by decide, nofun⟩
          ([.lookUp 0 "k" (some 5) 0, .lookUp 1 "k" none 0, .load 0 (.ok 7), .cleanUp 0 1 1,
            .announce 0, .wake 1] : List (CacheStep String Int Int String)) 1 call.key value) ∨
          FlightResult events 1 call.key outcome := by
  refine exists_run_of_observe (f := fun _ => ()) (b := ())
    (by decide +kernel) fun events s hrun _ => ?_
  refine fun call outcome hc hpc =>
    (run_singleFlight _ _ events s ?_ hrun).2 1 call outcome hc hpc
  intro c key ttl now hm
  simp only [mem_cons, CacheStep.lookUp.injEq, reduceCtorEq, not_mem_nil,
    or_false] at hm
  rw [ValidTtl]
  rcases hm with ⟨-, -, rfl, -⟩ | ⟨-, -, rfl, -⟩
  · decide
  · decide

end ThreadSafeCache

end InterviewPrep.LruCache
