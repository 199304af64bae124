/-
  What a step of `ThreadSafeCache` can do (`Moved`), and the invariant that links the registered
  flights to the calls: a flight is registered exactly while the one call that leads it runs its
  loader or waits to clean up (`FlightInv`).

  No flight is left stuck on a run where `put` takes the `ttl` of every load that returns
  (`run_noStuckFlight`); with a `ttl` that it refuses, the exception leaves the clean-up before
  the flight is dropped (`cleanUp_leavesFlight`).
-/
import InterviewPrep.LruCache.Recency
import Mathlib.Algebra.Order.Floor.Ring

namespace InterviewPrep.LruCache

open Lib Dict Memory

namespace ThreadSafeCache

variable {K V T P E : Type} [DecidableEq K] [LinearOrder T] [Zero T] [CachePolicy P]
  {s s' : ThreadSafeCache K V T P E}

/-- The `ttl` of a call, none or positive, is one that `put` accepts. -/
def ValidTtl (ttl : Option T) : Prop := ¬ ∃ t ∈ ttl, t ≤ 0

/-! ## The invariant -/

variable [LawfulCachePolicy P] {c : Nat}

/-- The leader is in its loader, or has not cleaned up. -/
def Running (pc : Pc V E) : Prop := pc = .loading ∨ pc = .cleaning

def Finished (pc : Pc V E) : Prop := ∃ outcome, pc = .finished outcome

def isFinished : Pc V E → Bool
  | .finished _ => true
  | _ => false

theorem isFinished_iff {pc : Pc V E} : isFinished pc = true ↔ Finished pc := by
  cases pc <;> simp [isFinished, Finished]

/-- `call` leads the flight `f`. -/
structure Leads (inflight : Dict K Ref) (flights : Memory (Flight V E)) (call : Call K V T E)
    (f : Ref) : Prop where
  bound : f < flights.next
  running : Running call.pc → inflight.get? call.key = some f
  done : (flights.read f).done = true ↔ Finished call.pc
  /-- what the clean-up stores is there, and `put` takes its `ttl` -/
  stored : call.pc = .cleaning → (flights.read f).error = none →
    (flights.read f).value ≠ none ∧ ValidTtl call.ttl

structure FlightInv (s : ThreadSafeCache K V T P E) : Prop where
  cache : s.cache.WF
  /-- a flight has one leader -/
  leader : ∀ c c' call call' f, s.calls.get? c = some call → s.calls.get? c' = some call' →
    call.role = .leader f → call'.role = .leader f → c = c'
  leads : ∀ c call f, s.calls.get? c = some call → call.role = .leader f →
    Leads s.inflight s.flights call f
  /-- a follower's flight is led by a call for the same key -/
  led : ∀ c call f, s.calls.get? c = some call → call.role = .follower f →
    ∃ c' call', s.calls.get? c' = some call' ∧ call'.role = .leader f ∧ call'.key = call.key
  registered : ∀ k f, s.inflight.get? k = some f →
    ∃ c call, s.calls.get? c = some call ∧ call.key = k ∧ call.role = .leader f ∧ Running call.pc
  /-- only a leader runs a loader -/
  loader : ∀ c call, s.calls.get? c = some call → Running call.pc → ∃ f, call.role = .leader f

theorem new_flightInv (config : Config T) : (new config : ThreadSafeCache K V T P E).FlightInv :=
  ⟨BaseCache.new_wf config, (fun _ _ _ _ _ h => by cases h), (fun _ _ _ h => by cases h),
    (fun _ _ _ h => by cases h), (fun _ _ h => by cases h), fun _ _ h => by cases h⟩

variable {cache : BaseCache K V T P} {call : Call K V T E}

theorem FlightInv.withCache (h : s.FlightInv) (hcache : cache.WF) : FlightInv { s with cache } :=
  ⟨hcache, h.leader, h.leads, h.led, h.registered, h.loader⟩

theorem FlightInv.addCall (h : s.FlightInv) (hfresh : s.calls.get? c = none)
    (hrole : ∀ f, call.role ≠ .leader f) (hpc : ¬ Running call.pc)
    (hled : ∀ f, call.role = .follower f → s.inflight.get? call.key = some f) :
    FlightInv { s with calls := s.calls.set c call } := by
  have hkeep : ∀ c' call', s.calls.get? c' = some call' →
      (s.calls.set c call).get? c' = some call' := by
    intro c' call' h'
    rw [get?_set_of_ne _ _ (ne_of_eq_none h' hfresh), h']
  have hback : ∀ c' call' f, (s.calls.set c call).get? c' = some call' →
      call'.role = .leader f → s.calls.get? c' = some call' := by
    intro c' call' f h' hr
    rcases get?_set_some h' with ⟨-, rfl⟩ | ⟨-, h'⟩
    · exact absurd hr (hrole f)
    · exact h'
  refine ⟨h.cache, fun c1 c2 call1 call2 f h1 h2 hr1 hr2 => ?_, fun c1 call1 f h1 hr1 => ?_,
    fun c1 call1 f h1 hr1 => ?_, fun k f hf => ?_, fun c1 call1 h1 hr1 => ?_⟩
  · exact h.leader c1 c2 call1 call2 f (hback c1 call1 f h1 hr1) (hback c2 call2 f h2 hr2) hr1 hr2
  · exact h.leads c1 call1 f (hback c1 call1 f h1 hr1) hr1
  · rcases get?_set_some h1 with ⟨-, rfl⟩ | ⟨-, h1⟩
    · obtain ⟨c', call', h', hkey, hlead, -⟩ := h.registered _ f (hled f hr1)
      exact ⟨c', call', hkeep c' call' h', hlead, hkey⟩
    · obtain ⟨c', call', h', hlead⟩ := h.led c1 call1 f h1 hr1
      exact ⟨c', call', hkeep c' call' h', hlead⟩
  · obtain ⟨c', call', h', hrest⟩ := h.registered k f hf
    exact ⟨c', call', hkeep c' call' h', hrest⟩
  · rcases get?_set_some h1 with ⟨-, rfl⟩ | ⟨-, h1⟩
    · exact absurd hr1 hpc
    · exact h.loader c1 call1 h1 hr1

theorem FlightInv.addLeader (h : s.FlightInv) {key : K} {ttl : Option T}
    (hfresh : s.calls.get? c = none) (hf : s.inflight.get? key = none) : FlightInv { s with
      inflight := s.inflight.set key s.flights.next, flights := (s.flights.alloc .new).2,
      calls := s.calls.set c ⟨key, ttl, .leader s.flights.next, .loading⟩ } := by
  have hkeep : ∀ c' call', s.calls.get? c' = some call' →
      (s.calls.set c ⟨key, ttl, .leader s.flights.next, .loading⟩).get? c' = some call' := by
    intro c' call' h'
    rw [get?_set_of_ne _ _ (ne_of_eq_none h' hfresh), h']
  have hold : ∀ c' call' f, s.calls.get? c' = some call' → call'.role = .leader f →
      f ≠ s.flights.next := by
    rintro c' call' f h' hr' rfl
    exact Nat.lt_irrefl _ (h.leads c' call' _ h' hr').bound
  refine ⟨h.cache, fun c1 c2 call1 call2 f h1 h2 hr1 hr2 => ?_, fun c1 call1 f h1 hr1 => ?_,
    fun c1 call1 f h1 hr1 => ?_, fun k f hk => ?_, fun c1 call1 h1 hr1 => ?_⟩
  · rcases get?_set_some h1 with ⟨heq, rfl⟩ | ⟨-, h1⟩
    · cases hr1
      rcases get?_set_some h2 with ⟨heq', -⟩ | ⟨-, h2⟩
      · exact heq.trans heq'.symm
      · exact absurd rfl (hold c2 call2 _ h2 hr2)
    · rcases get?_set_some h2 with ⟨-, rfl⟩ | ⟨-, h2⟩
      · cases hr2
        exact absurd rfl (hold c1 call1 _ h1 hr1)
      · exact h.leader c1 c2 call1 call2 f h1 h2 hr1 hr2
  · rcases get?_set_some h1 with ⟨rfl, rfl⟩ | ⟨-, h1⟩
    · cases hr1
      refine ⟨Nat.lt_succ_self _, fun _ => get?_set_self _ _ _, ?_, nofun⟩
      have hread : (s.flights.alloc Flight.new).2.read s.flights.next = Flight.new :=
        read_alloc_self _ _
      rw [hread]
      simp [Flight.new, Finished]
    have hleads := h.leads c1 call1 f h1 hr1
    have hread : (s.flights.alloc Flight.new).2.read f = s.flights.read f :=
      read_alloc_of_ne _ _ (hold c1 call1 f h1 hr1)
    refine ⟨Nat.lt_succ_of_lt hleads.bound, fun hrun => ?_, hread ▸ hleads.done,
      hread ▸ hleads.stored⟩
    have hin := hleads.running hrun
    have hne : call1.key ≠ key := by
      intro hkey
      rw [hkey, hf] at hin
      cases hin
    rw [get?_set_of_ne _ _ hne, hin]
  · rcases get?_set_some h1 with ⟨rfl, rfl⟩ | ⟨-, h1⟩
    · cases hr1
    · obtain ⟨c', call', h', hlead⟩ := h.led c1 call1 f h1 hr1
      exact ⟨c', call', hkeep c' call' h', hlead⟩
  · rcases get?_set_some hk with ⟨rfl, rfl⟩ | ⟨-, hk⟩
    · exact ⟨c, _, get?_set_self _ _ _, rfl, rfl, Or.inl rfl⟩
    · obtain ⟨c', call', h', hrest⟩ := h.registered k f hk
      exact ⟨c', call', hkeep c' call' h', hrest⟩
  · rcases get?_set_some h1 with ⟨rfl, rfl⟩ | ⟨-, h1⟩
    · exact ⟨_, rfl⟩
    · exact h.loader c1 call1 h1 hr1

theorem FlightInv.move (h : s.FlightInv) {pc : Pc V E}
    (hc : s.calls.get? c = some call) (hcache : cache.WF)
    {inflight : Dict K Ref} {flights : Memory (Flight V E)} (hnext : flights.next = s.flights.next)
    (hflights : ∀ g, call.role ≠ .leader g → flights.read g = s.flights.read g)
    (hinflight : inflight = s.inflight ∧ (Running pc ↔ Running call.pc) ∨
      inflight = s.inflight.erase call.key ∧ Running call.pc ∧ ¬ Running pc)
    (hdone : ∀ f, call.role = .leader f → ((flights.read f).done = true ↔ Finished pc))
    (hstored : ∀ f, call.role = .leader f → pc = .cleaning → (flights.read f).error = none →
      (flights.read f).value ≠ none ∧ ValidTtl call.ttl) :
    FlightInv (moveTo ⟨cache, inflight, flights, s.calls⟩ c call pc) := by
  have hrole := h.loader c call hc
  have hcall : ∀ {c' call'}, (s.calls.set c { call with pc }).get? c' = some call' →
      ∃ call0, s.calls.get? c' = some call0 ∧ call'.role = call0.role ∧ call'.key = call0.key := by
    intro c' call' h'
    rcases get?_set_some h' with ⟨rfl, rfl⟩ | ⟨-, h'⟩
    · exact ⟨call, hc, rfl, rfl⟩
    · exact ⟨call', h', rfl, rfl⟩
  have hback : ∀ {c' call'}, s.calls.get? c' = some call' →
      ∃ call1, (s.calls.set c { call with pc }).get? c' = some call1 ∧
        call1.role = call'.role ∧ call1.key = call'.key := by
    intro c' call' h'
    by_cases heq : c' = c
    · subst heq
      rw [hc] at h'
      cases h'
      exact ⟨_, get?_set_self _ _ _, rfl, rfl⟩
    · exact ⟨call', by rw [get?_set_of_ne _ _ heq, h'], rfl, rfl⟩
  have hother : ∀ {c' call' f}, c' ≠ c → s.calls.get? c' = some call' → call'.role = .leader f →
      flights.read f = s.flights.read f := fun hne h' hr' =>
    hflights _ fun hr => hne (h.leader _ _ _ _ _ h' hc hr' hr)
  refine ⟨hcache, fun c1 c2 call1 call2 f h1 h2 hr1 hr2 => ?_, fun c1 call1 f h1 hr1 => ?_,
    fun c1 call1 f h1 hr1 => ?_, fun k f hk => ?_, fun c1 call1 h1 hr1 => ?_⟩
  · obtain ⟨call1', h1', he1, -⟩ := hcall h1
    obtain ⟨call2', h2', he2, -⟩ := hcall h2
    exact h.leader c1 c2 call1' call2' f h1' h2' (he1 ▸ hr1) (he2 ▸ hr2)
  · rcases get?_set_some h1 with ⟨rfl, rfl⟩ | ⟨hne, h1⟩
    · have hleads := h.leads c1 call f hc hr1
      refine ⟨hleads.bound.trans_eq hnext.symm, fun hrun => ?_, hdone f hr1, hstored f hr1⟩
      rcases hinflight with ⟨rfl, hiff⟩ | ⟨-, -, hn⟩
      · exact hleads.running (hiff.mp hrun)
      · exact absurd hrun hn
    have hleads := h.leads c1 call1 f h1 hr1
    have hread := hother hne h1 hr1
    refine ⟨hleads.bound.trans_eq hnext.symm, fun hrun => ?_, hread ▸ hleads.done,
      hread ▸ hleads.stored⟩
    have hin := hleads.running hrun
    rcases hinflight with ⟨rfl, -⟩ | ⟨rfl, hr, -⟩
    · exact hin
    have hkey : call1.key ≠ call.key := by
      intro hkey
      obtain ⟨g, hg⟩ := hrole hr
      have hin' := (h.leads c call g hc hg).running hr
      rw [hkey, hin'] at hin
      cases hin
      exact hne (h.leader _ _ _ _ _ h1 hc hr1 hg)
    show (s.inflight.erase call.key).get? call1.key = some f
    rw [get?_erase_of_ne _ hkey, hin]
  · obtain ⟨call1', h1', he1, hk1⟩ := hcall h1
    obtain ⟨c', call', h', hlead, hkey⟩ := h.led c1 call1' f h1' (he1 ▸ hr1)
    obtain ⟨call2, h2, he2, hk2⟩ := hback h'
    exact ⟨c', call2, h2, he2.trans hlead, hk2.trans (hkey.trans hk1.symm)⟩
  · have hreg : s.inflight.get? k = some f ∧ (¬ Running pc → Running call.pc → k ≠ call.key) := by
      rcases hinflight with ⟨rfl, hiff⟩ | ⟨rfl, -, -⟩
      · exact ⟨hk, fun hn hr => absurd (hiff.mpr hr) hn⟩
      have hne : k ≠ call.key := by
        rintro rfl
        have hk' : (s.inflight.erase call.key).get? call.key = some f := hk
        rw [get?_erase_self] at hk'
        cases hk'
      refine ⟨?_, fun _ _ => hne⟩
      rw [← get?_erase_of_ne _ hne]
      exact hk
    obtain ⟨c', call', h', hkey, hlead, hrun⟩ := h.registered k f hreg.1
    by_cases heq : c' = c
    · subst heq
      rw [hc] at h'
      cases h'
      refine ⟨c', _, get?_set_self _ _ _, hkey, hlead, ?_⟩
      by_contra hn
      exact hreg.2 hn hrun hkey.symm
    · exact ⟨c', call', by rw [moveTo, get?_set_of_ne _ _ heq, h'], hkey, hlead, hrun⟩
  · rcases get?_set_some h1 with ⟨rfl, rfl⟩ | ⟨-, h1⟩
    · rcases hinflight with ⟨-, hiff⟩ | ⟨-, -, hn⟩
      · exact hrole (hiff.mp hr1)
      · exact absurd hr1 hn
    · exact h.loader c1 call1 h1 hr1

section

variable [Add T]

/-! ## The steps, one by one -/

inductive Moved (s : ThreadSafeCache K V T P E) :
    CacheStep K V T E → CacheEvent K V E → ThreadSafeCache K V T P E → Prop
  | locked (op : Op K V T) (reply : Reply V) (cache : BaseCache K V T P)
      (hop : s.cache.step op = .ok (reply, cache)) :
      Moved s (.locked op) (.replied reply) { s with cache }
  | hit (c : Nat) (key : K) (ttl : Option T) (now : T) (value : V) (cache : BaseCache K V T P)
      (hfresh : s.calls.get? c = none) (hget : s.cache.get key now = .ok (some value, cache)) :
      Moved s (.lookUp c key ttl now) (.hit c key value)
        { s with cache, calls := s.calls.set c ⟨key, ttl, .hit, .finished (.ok (some value))⟩ }
  | joined (c : Nat) (key : K) (ttl : Option T) (now : T) (f : Ref) (cache : BaseCache K V T P)
      (hfresh : s.calls.get? c = none) (hget : s.cache.get key now = .ok (none, cache))
      (hf : s.inflight.get? key = some f) :
      Moved s (.lookUp c key ttl now) (.joined c key f)
        { s with cache, calls := s.calls.set c ⟨key, ttl, .follower f, .waiting⟩ }
  | led (c : Nat) (key : K) (ttl : Option T) (now : T) (cache : BaseCache K V T P)
      (hfresh : s.calls.get? c = none) (hget : s.cache.get key now = .ok (none, cache))
      (hf : s.inflight.get? key = none) :
      Moved s (.lookUp c key ttl now) (.led c key s.flights.next)
        { cache, inflight := s.inflight.set key s.flights.next,
          flights := (s.flights.alloc .new).2,
          calls := s.calls.set c ⟨key, ttl, .leader s.flights.next, .loading⟩ }
  | loaded (c : Nat) (result : Except E V) (key : K) (ttl : Option T) (f : Ref)
      (hc : s.calls.get? c = some ⟨key, ttl, .leader f, .loading⟩) :
      Moved s (.load c result) (.loaded f result)
        ({ s with flights := s.flights.write f (match result with
          | .ok value => { s.flights.read f with value := some value }
          | .error e => { s.flights.read f with error := some e }) }.moveTo c
            ⟨key, ttl, .leader f, .loading⟩ .cleaning)
  | cleaned (c : Nat) (now later : T) (key : K) (ttl : Option T) (f : Ref)
      (cache : BaseCache K V T P)
      (hc : s.calls.get? c = some ⟨key, ttl, .leader f, .cleaning⟩)
      (hput : (s.flights.read f).error = none → ∃ value, (s.flights.read f).value = some value ∧
        s.cache.put key value ttl now later = .ok cache)
      (hskip : (s.flights.read f).error ≠ none → cache = s.cache) :
      Moved s (.cleanUp c now later) (.cleanedUp c)
        ({ s with cache, inflight := s.inflight.erase key }.moveTo c
          ⟨key, ttl, .leader f, .cleaning⟩ .announcing)
  | broken (c : Nat) (now later : T) (key : K) (ttl : Option T) (f : Ref) (value : V)
      (message : String) (hc : s.calls.get? c = some ⟨key, ttl, .leader f, .cleaning⟩)
      (herror : (s.flights.read f).error = none)
      (hput : s.cache.put key value ttl now later = .error (.valueError message)) :
      Moved s (.cleanUp c now later) (.returned c (.error (.cache (.valueError message))))
        (s.moveTo c ⟨key, ttl, .leader f, .cleaning⟩
          (.finished (.error (.cache (.valueError message)))))
  | announced (c : Nat) (key : K) (ttl : Option T) (f : Ref)
      (hc : s.calls.get? c = some ⟨key, ttl, .leader f, .announcing⟩) :
      Moved s (.announce c) (.returned c (s.flights.read f).outcome)
        ({ s with flights := s.flights.write f { s.flights.read f with done := true } }.moveTo c
          ⟨key, ttl, .leader f, .announcing⟩ (.finished (s.flights.read f).outcome))
  | woken (c : Nat) (key : K) (ttl : Option T) (f : Ref)
      (hc : s.calls.get? c = some ⟨key, ttl, .follower f, .waiting⟩)
      (hdone : (s.flights.read f).done = true) :
      Moved s (.wake c) (.returned c (s.flights.read f).outcome)
        (s.moveTo c ⟨key, ttl, .follower f, .waiting⟩ (.finished (s.flights.read f).outcome))

variable {ev : CacheEvent K V E}

omit [CachePolicy P] [LawfulCachePolicy P] [Add T] in
theorem dropFlight_ok {call : Call K V T E} (h : s.dropFlight c call = .ok (ev, s')) :
    ev = .cleanedUp c ∧
      s' = { s with inflight := s.inflight.erase call.key }.moveTo c call .announcing := by
  rw [dropFlight] at h
  split at h
  · cases h
  · cases h
    exact ⟨rfl, rfl⟩

omit [LawfulCachePolicy P] in
/-- A step that is taken is one of `Moved`, guards included. -/
theorem step_moved {op : CacheStep K V T E}
    (h : step s op = .ok (ev, s')) : Moved s op ev s' := by
  cases op with
  | locked op =>
    simp only [step] at h
    split at h
    · next reply cache hop =>
        cases h
        exact .locked op reply cache hop
    · cases h
  | lookUp c key ttl now =>
    simp only [step, lookUp] at h
    split at h
    · cases h
    · cases h
    · next hfresh hget =>
        cases h
        exact .hit c key ttl now _ _ hfresh hget
    · next hfresh hget =>
        split at h
        · next f hf =>
            cases h
            exact .joined c key ttl now f _ hfresh hget hf
        · next hf =>
            cases h
            exact .led c key ttl now _ hfresh hget hf
  | load c result =>
    simp only [step, load] at h
    split at h
    · next key ttl f hc =>
        cases h
        cases result with
        | ok value => exact .loaded c (.ok value) key ttl f hc
        | error e => exact .loaded c (.error e) key ttl f hc
    · cases h
  | cleanUp c now later =>
    simp only [step, cleanUp] at h
    split at h
    · next key ttl f hc =>
        split at h
        · next herror =>
            obtain ⟨rfl, rfl⟩ := dropFlight_ok h
            exact .cleaned c now later key ttl f s.cache hc
              (fun h0 => by rw [herror] at h0; cases h0) fun _ => rfl
        · cases h
        · next value herror hvalue =>
            split at h
            · next cache hput =>
                obtain ⟨rfl, rfl⟩ := dropFlight_ok h
                exact .cleaned c now later key ttl f cache hc
                  (fun _ => ⟨value, hvalue, hput⟩) fun h0 => absurd herror h0
            · next message hput =>
                cases h
                exact .broken c now later key ttl f value message hc herror hput
            · cases h
    · cases h
  | announce c =>
    simp only [step, announce] at h
    split at h
    · next key ttl f hc =>
        cases h
        exact .announced c key ttl f hc
    · cases h
  | wake c =>
    simp only [step, wake] at h
    split at h
    · next key ttl f hc =>
        split at h
        · next hdone =>
            cases h
            exact .woken c key ttl f hc hdone
        · cases h
    · cases h

end

variable {K V T P E : Type} [DecidableEq K] [LinearOrder T] [Zero T] [Add T] [CachePolicy P]
  [LawfulCachePolicy P] {s s' : ThreadSafeCache K V T P E}

/-! ## No stuck flight -/

/-- The condition on a step: a loader returns in a call whose `ttl` is none or positive. -/
def Meets (s : ThreadSafeCache K V T P E) (op : CacheStep K V T E) : Prop :=
  ∀ c value call, op = .load c (.ok value) → s.calls.get? c = some call → ValidTtl call.ttl

theorem Moved.flightInv {op : CacheStep K V T E} {ev : CacheEvent K V E} (h : Moved s op ev s')
    (hi : s.FlightInv) (hm : s.Meets op) : s'.FlightInv := by
  have hget : ∀ {key now v cache}, s.cache.get key now = .ok (v, cache) → cache.WF := by
    intro key now v cache hget
    obtain ⟨cache', hget', hwf⟩ := BaseCache.get_spec hi.cache key now
    rw [hget] at hget'
    cases hget'
    exact hwf
  cases h with
  | locked op _ cache hop =>
    obtain ⟨reply', cache', hop', hwf⟩ := hi.cache.step op
    rw [hop] at hop'
    cases hop'
    exact hi.withCache hwf
  | hit _ _ _ _ _ _ hfresh hv =>
    exact (hi.addCall hfresh (fun f hr => by cases hr) (by simp [Running])
      fun f hr => by cases hr).withCache (hget hv)
  | joined _ _ _ _ f _ hfresh hv hf =>
    refine (hi.addCall hfresh (fun f hr => by cases hr) (by simp [Running])
      fun g hr => ?_).withCache (hget hv)
    cases hr
    exact hf
  | led _ _ _ _ _ hfresh hv hf =>
    exact (hi.addLeader hfresh hf).withCache (hget hv)
  | loaded c result _ _ f hc =>
    refine hi.move hc hi.cache rfl (fun g hg => ?_) (Or.inl ⟨rfl, ?_⟩)
      (fun g hg => ?_) (fun g hg _ herror => ?_)
    · exact read_write_of_ne _ _ fun e => hg (by rw [e])
    · simp [Running]
    · cases hg
      have hdone := (hi.leads c _ f hc rfl).done
      rw [read_write_self]
      cases result with
      | ok | error => simpa [Finished] using hdone
    · cases hg
      rw [read_write_self] at herror ⊢
      cases result with
      | ok value => exact ⟨Option.some_ne_none value, hm c value _ rfl hc⟩
      | error => cases herror
  | cleaned c now later key _ f cache hc hput hskip =>
    have hcache : cache.WF := by
      by_cases herror : (s.flights.read f).error = none
      · obtain ⟨value, -, hput⟩ := hput herror
        obtain ⟨cache', hput', hwf⟩ := BaseCache.put_spec hi.cache key value
          ((hi.leads c _ f hc rfl).stored rfl herror).2 now later
        rw [hput] at hput'
        cases hput'
        exact hwf
      · rw [hskip herror]
        exact hi.cache
    refine hi.move hc hcache rfl (fun _ _ => rfl) (Or.inr ⟨rfl, Or.inr rfl, ?_⟩)
      (fun g hg => ?_) nofun
    · simp [Running]
    · have hdone := (hi.leads c _ g hc hg).done
      simpa [Finished] using hdone
  | broken c now later key _ f value _ hc herror hput =>
    obtain ⟨cache', hput', -⟩ := BaseCache.put_spec hi.cache key value
      ((hi.leads c _ f hc rfl).stored rfl herror).2 now later
    rw [hput] at hput'
    cases hput'
  | announced _ _ _ _ hc =>
    refine hi.move hc hi.cache rfl (fun g hg => ?_) (Or.inl ⟨rfl, ?_⟩)
      (fun g hg => ?_) nofun
    · exact read_write_of_ne _ _ fun e => hg (by rw [e])
    · simp [Running]
    · cases hg
      rw [read_write_self]
      simp [Finished]
  | woken _ _ _ _ hc =>
    refine hi.move hc hi.cache rfl (fun _ _ => rfl) (Or.inl ⟨rfl, ?_⟩)
      nofun nofun
    simp [Running]

/-- A guarded run keeps each flight with the one call that leads it. -/
theorem run_flightInv {config : Config T} {ops : List (CacheStep K V T E)}
    {events : List (CacheEvent K V E)}
    (hops : Guarded Meets step (new config : ThreadSafeCache K V T P E) ops)
    (hrun : runSteps step (new config) ops = .ok (events, s)) : s.FlightInv := by
  refine runSteps_keeps (fun _ _ s => s.FlightInv) ?_ (new_flightInv config) hops hrun
  intro _ _ t op ev t' _ hi hm hstep
  exact (step_moved hstep).flightInv hi hm

/-- A step is refused only where its call is not at it; the cache does not break. -/
theorem FlightInv.step_ne_fault (h : s.FlightInv) (op : CacheStep K V T E) (e : PyError) :
    step s op ≠ .error (.fault e) := by
  cases op with
  | locked op =>
    obtain ⟨reply, cache, hop, -⟩ := h.cache.step op
    simp [step, hop]
  | lookUp c key ttl now =>
    obtain ⟨cache, hget, -⟩ := BaseCache.get_spec h.cache key now
    simp only [step, lookUp, hget]
    split
    · simp
    · next heq => cases heq
    · simp
    · split <;> simp
  | cleanUp c now later =>
    simp only [step, cleanUp]
    split
    · next key ttl f hc =>
      have hleads := h.leads c _ f hc rfl
      -- the flight is registered, so taking it out cannot fail
      have hdrop : ∀ t : ThreadSafeCache K V T P E, t.inflight = s.inflight →
          t.dropFlight c ⟨key, ttl, .leader f, .cleaning⟩ ≠ .error (.fault e) := by
        intro t ht
        rw [dropFlight, ht, hleads.running (Or.inr rfl)]
        simp
      split
      · exact hdrop s rfl
      · next herror hvalue => exact absurd hvalue (hleads.stored rfl herror).1
      · next value herror hvalue =>
        obtain ⟨cache, hput, -⟩ :=
          BaseCache.put_spec h.cache key value (hleads.stored rfl herror).2 now later
        rw [hput]
        exact hdrop { s with cache } rfl
    · simp
  | load | announce | wake =>
    simp only [step, load, announce, wake]
    repeat' split
    all_goals simp

/-- No step in a guarded run breaks the cache. -/
theorem run_faultFree {config : Config T} {ops : List (CacheStep K V T E)}
    {events : List (CacheEvent K V E)}
    (hops : Guarded Meets step (new config : ThreadSafeCache K V T P E) ops)
    (hrun : runSteps step (new config) ops = .ok (events, s)) (op : CacheStep K V T E)
    (e : PyError) : step s op ≠ .error (.fault e) :=
  (run_flightInv hops hrun).step_ne_fault op e

/-- Nothing is stuck: a leader that has returned or raised has taken its flight out and announced
    it, a waiting follower can go on unless its leader is at work, and once none is, a call that
    misses starts a new load. -/
structure Unstuck (s : ThreadSafeCache K V T P E) : Prop where
  dropped : ∀ c call f outcome, s.calls.get? c = some call → call.role = .leader f →
    call.pc = .finished outcome →
    (∀ k, s.inflight.get? k ≠ some f) ∧ (s.flights.read f).done = true
  follower : ∀ c call f, s.calls.get? c = some call → call.role = .follower f →
    call.pc = .waiting →
    (∃ c' call', s.calls.get? c' = some call' ∧ call'.role = .leader f ∧ ¬ Finished call'.pc) ∨
      ∃ ev s', step s (.wake c) = .ok (ev, s')
  newLoad : ∀ key, (∀ c call f, s.calls.get? c = some call → call.role = .leader f →
      call.key = key → Finished call.pc) →
    ∀ c ttl now, s.calls.get? c = none → s.cache.live? key now = none →
      ∃ f s', step s (.lookUp c key ttl now) = .ok (.led c key f, s')

omit [LawfulCachePolicy P] in
theorem step_wake {c : Nat} {key : K} {ttl : Option T} {f : Ref}
    (hc : s.calls.get? c = some ⟨key, ttl, .follower f, .waiting⟩)
    (hdone : (s.flights.read f).done = true) :
    step s (.wake c) = .ok (.returned c (s.flights.read f).outcome,
      s.moveTo c ⟨key, ttl, .follower f, .waiting⟩ (.finished (s.flights.read f).outcome)) := by
  simp only [step, wake, hc, hdone, if_true]

omit [LawfulCachePolicy P] in
theorem step_lookUp_miss {c : Nat} {key : K} {ttl : Option T} {now : T}
    {cache : BaseCache K V T P} (hfresh : s.calls.get? c = none)
    (hget : s.cache.get key now = .ok (none, cache)) (hf : s.inflight.get? key = none) :
    step s (.lookUp c key ttl now) = .ok (.led c key s.flights.next,
      { cache, inflight := s.inflight.set key s.flights.next, flights := (s.flights.alloc .new).2,
        calls := s.calls.set c ⟨key, ttl, .leader s.flights.next, .loading⟩ }) := by
  simp only [step, lookUp, hfresh, hget, hf, alloc_ref]

theorem FlightInv.unstuck (h : s.FlightInv) : s.Unstuck := by
  refine ⟨fun c call f outcome hc hrole hpc => ⟨fun k hk => ?_, ?_⟩,
    fun c call f hc hrole hpc => ?_, fun key hall c ttl now hfresh hlive => ?_⟩
  · obtain ⟨c', call', hc', -, hrole', hrun⟩ := h.registered k f hk
    have heq := h.leader c c' call call' f hc hc' hrole hrole'
    subst heq
    rw [hc] at hc'
    cases hc'
    rw [hpc] at hrun
    simp [Running] at hrun
  · exact (h.leads c call f hc hrole).done.mpr ⟨outcome, hpc⟩
  · obtain ⟨c', call', hc', hrole', -⟩ := h.led c call f hc hrole
    by_cases hfin : Finished call'.pc
    · right
      have hdone := (h.leads c' call' f hc' hrole').done.mpr hfin
      obtain ⟨key, ttl, role, pc⟩ := call
      dsimp only at hrole hpc
      subst hrole
      subst hpc
      exact ⟨_, _, step_wake hc hdone⟩
    · exact Or.inl ⟨c', call', hc', hrole', hfin⟩
  · have hnone : s.inflight.get? key = none := by
      cases hf : s.inflight.get? key with
      | none => rfl
      | some f =>
        obtain ⟨c', call', hc', hkey, hrole, hrun⟩ := h.registered key f hf
        obtain ⟨outcome, hpc⟩ := hall c' call' f hc' hrole hkey
        rw [hpc] at hrun
        simp [Running] at hrun
    obtain ⟨cache, hget, -⟩ := BaseCache.get_spec h.cache key now
    rw [hlive] at hget
    exact ⟨s.flights.next, _, step_lookUp_miss hfresh hget hnone⟩

/-- No flight is left stuck where every load that returns does so in a call with a valid `ttl`. -/
theorem run_noStuckFlight (config : Config T) (ops : List (CacheStep K V T E))
    (events : List (CacheEvent K V E)) (s : ThreadSafeCache K V T P E)
    (hops : Guarded Meets step (new config : ThreadSafeCache K V T P E) ops)
    (hrun : runSteps step (new config) ops = .ok (events, s)) : s.Unstuck :=
  (run_flightInv hops hrun).unstuck

/-- A cache for ten entries, without a default time-to-live. -/
def tenEntries : ThreadSafeCache String Int Int LRU String :=
  new ⟨10, none, by decide, fun _ h => by cases h⟩

/-- `run_noStuckFlight` for a load whose value is cached. -/
theorem run_noStuckFlight_load : ∃ events s, runSteps step tenEntries
        [.lookUp 0 "k" (some 5) 0, .load 0 (.ok 7), .cleanUp 0 1 1, .announce 0] = .ok (events, s) ∧
      s.Unstuck := by
  refine exists_run_of_observe (f := fun _ => ()) (b := ())
    (by decide +kernel) fun events s hrun _ => ?_
  have hguard : Guarded Meets step tenEntries
      [.lookUp 0 "k" (some 5) 0, .load 0 (.ok 7), .cleanUp 0 1 1, .announce 0] := by
    refine ⟨?_, fun o1 s1 h1 =>
      ⟨?_, fun o2 s2 h2 => ⟨?_, fun o3 s3 h3 => ⟨?_, fun _ _ _ => trivial⟩⟩⟩⟩
    · intro c value call hop
      cases hop
    · intro c value call hop hc
      cases hop
      cases h1
      cases hc
      rw [ValidTtl]
      decide
    · intro c value call hop
      cases hop
    · intro c value call hop
      cases hop
  exact run_noStuckFlight _ _ events s hguard hrun

/-- With a `ttl` of zero, the exception of `put` leaves the flight registered and unannounced. -/
theorem cleanUp_leavesFlight : ∃ events s, runSteps step tenEntries
        [.lookUp 0 "k" (some 0) 0, .load 0 (.ok 7), .cleanUp 0 1 1, .lookUp 1 "k" none 2] =
          .ok (events, s) ∧ (∃ call outcome, s.calls.get? 0 = some call ∧ call.role = .leader 0 ∧
        call.pc = .finished outcome) ∧
      s.inflight.get? "k" = some 0 ∧ (s.flights.read 0).done = false ∧ ¬ s.Unstuck := by
  refine exists_run_of_observe
    (f := fun r => (r.2.inflight.get? "k", (r.2.flights.read 0).done,
      (r.2.calls.get? 0).map fun call =>
      (call.role, isFinished call.pc))) (b := (some 0, false, some (.leader 0, true)))
    (by decide +kernel) fun events s hrun hobs => ?_
  simp only [Prod.mk.injEq, Option.map_eq_some_iff] at hobs
  obtain ⟨hin, hdone, call, hc, hrole, hpc⟩ := hobs
  obtain ⟨outcome, hfin⟩ := isFinished_iff.mp hpc
  exact ⟨⟨call, outcome, hc, hrole, hfin⟩, hin, hdone,
    fun h => (h.dropped 0 call 0 outcome hc hrole hfin).1 "k" hin⟩

end ThreadSafeCache

end InterviewPrep.LruCache
