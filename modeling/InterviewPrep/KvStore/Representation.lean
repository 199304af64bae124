/-
  The representation invariant of a shard, over whole runs.

  Two things in the code can break it.  `sh.cost + cost` is an int64 sum, so a write whose cost
  does not fit beside the other entries' costs wraps around and skips the eviction loop.  And an
  `Expire` whose deadline is the zero time puts an entry into the expiry heap that counts as one
  without a deadline.  Every other run keeps it (`run_representation`).

  `MaxCost` is split over the shards and rounded up, and each shard enforces its own part only.
  When the split is even, the costs add up to `MaxCost` at most; when it is not, a shard may have
  room for a write while the store has not.
-/
import InterviewPrep.KvStore.Steps

namespace InterviewPrep.KvStore

open Lib List

variable {V P : Type} [EvictionPolicy P] [LawfulEvictionPolicy P]

/-- The map, the policy, the expiry heap and the running cost agree. -/
structure Shard.Represents (sh : Shard V P) : Prop where
  cost : sh.cost.toInt = sh.totalCost
  capacity : 0 < sh.maxCost → sh.cost ≤ sh.maxCost
  policy : (LawfulEvictionPolicy.keys sh.policy).Perm sh.items.keys
  policy_once : (LawfulEvictionPolicy.keys sh.policy).Nodup
  heap : ∀ r, r ∈ sh.expiry.slots ↔
    (∃ k, sh.items.get? k = some r) ∧ (sh.entry r).expiresAt ≠ 0
  ordered : ∀ i, 0 < i → i < sh.expiry.slots.length →
    (sh.entry (sh.expiry.at? (BinaryHeap.parent i))).expiresAt ≤
    (sh.entry (sh.expiry.at? i)).expiresAt
  position : ∀ i, i < sh.expiry.slots.length → (sh.entry (sh.expiry.at? i)).heapIdx = i
  outside : ∀ k r, sh.items.get? k = some r → r ∉ sh.expiry.slots → (sh.entry r).heapIdx = -1

theorem Shard.WF.represents {K : String → Prop} {sh : Shard V P} (h : sh.WF K) (hb : sh.Bounded)
    (ht : sh.Timed) : sh.Represents := by
  refine ⟨h.toInt_cost hb, fun hpos => ?_, h.policy_keys, ?_, fun r => ⟨fun hr => ?_, ?_⟩,
    fun i h0 hi => not_lt.mp (of_decide_eq_false (h.heap.ordered i h0 hi)), h.heap.indexed.idx,
    h.unslotted⟩
  · rw [Int64.le_iff_toInt_le, h.toInt_cost hb]
    exact hb.capacity hpos
  · rw [h.policy_keys.nodup_iff]
    exact sh.items.keys_nodup
  · obtain ⟨k, hk⟩ := h.slots r hr
    exact ⟨⟨k, hk⟩, (ht k r hk).mp hr⟩
  · rintro ⟨⟨k, hk⟩, hexp⟩
    exact (ht k r hk).mpr hexp

namespace Store

/-- The write, unless the shard rejects it, has a cost that fits beside the other entries' costs. -/
def NoOverflow (s : Store V P) (c : Cause V) : Prop :=
  ∀ ev, c.written s.version = some ev → ∀ sh, s.shards[s.shardIdx ev.key]? = some sh →
    ¬ s.tooLarge sh ev.key ev.value →
      sh.costBeside ev.key + (s.cost ev.key ev.value).toInt < 2 ^ 63

/-- What a run without overflow keeps. -/
structure Exact (s : Store V P) : Prop where
  cost : ∀ k v, 0 ≤ (s.cost k v).toInt
  bounded : ∀ sh ∈ s.shards, sh.Bounded

variable {s s' : Store V P} {c : Cause V} {evs : List (Event V)} {i : Nat} {sh sh' : Shard V P}

theorem Exact.changed (he : s.Exact) (hC : s.NoOverflow c) (hi : s.shards[i]? = some sh)
    (hch : Changed (s.shardIdx · = i) s sh c evs s' sh') : sh'.Bounded :=
  hch.bounded he.cost (fun ev hev hfit => hC ev hev sh (by rw [hch.target ev hev, hi]) hfit)
    (he.bounded sh (mem_of_getElem? hi))

theorem Moved.forall_shards (hm : s.Moved c s') {Q : Shard V P → Prop}
    (hQ : ∀ i sh evs s1 sh', s.shards[i]? = some sh →
      Changed (s.shardIdx · = i) s sh c evs s1 sh' → Q sh → Q sh')
    (h : ∀ sh ∈ s.shards, Q sh) : ∀ sh ∈ s'.shards, Q sh := by
  intro sh' hsh'
  obtain ⟨j, hj⟩ := mem_iff_getElem?.mp hsh'
  rcases hm.shard hj with ⟨sh, evs, s1, hj', hch, -⟩ | ⟨hj', -⟩
  · exact hQ j sh evs s1 sh' hj' hch (h sh (mem_of_getElem? hj'))
  · exact h sh' (mem_of_getElem? hj')

theorem Exact.move (he : s.Exact) (hC : s.NoOverflow c) (hm : s.Moved c s') : s'.Exact :=
  ⟨hm.cost ▸ he.cost, hm.forall_shards (fun _ _ _ _ _ hi hch _ => he.changed hC hi hch) he.bounded⟩

omit [LawfulEvictionPolicy P] in
theorem new_shards [Inhabited V] {opts : Options V} {hash : String → UInt64}
    (hsh : sh ∈ (Store.new opts hash : Store V P).shards) :
    sh.items = Dict.empty ∧ sh.totalCost = 0 ∧ sh.maxCost = opts.perShard := by
  rw [(mem_replicate.mp hsh).2]
  exact ⟨rfl, rfl, rfl⟩

omit [LawfulEvictionPolicy P] in
theorem new_exact [Inhabited V] {opts : Options V} (hash : String → UInt64)
    (hcost : ∀ k v, 0 ≤ (opts.costFn k v).toInt) : (Store.new opts hash : Store V P).Exact := by
  refine ⟨hcost, fun sh hsh => ?_⟩
  obtain ⟨hitems, hzero, -⟩ := new_shards hsh
  refine ⟨fun k r hk => ?_, by omega, fun hpos => ?_⟩
  · rw [hitems] at hk
    cases hk
  · have : 0 < sh.maxCost.toInt := Int64.lt_iff_toInt_lt.mp hpos
    omega

end Store

/-- A run without overflow and without an `Expire` at the zero time leaves every
    shard in agreement. -/
theorem run_representation [Inhabited V] (opts : Options V) (hash : String → UInt64)
    (hcost : ∀ k v, 0 ≤ (opts.costFn k v).toInt) (ops : List (Op V))
    (hops : Guarded (fun s op => op.Meets (fun s c => s.NoOverflow c ∧ c ≠ .deadline 0) s)
      Store.step (Store.new opts hash : Store V P) ops) :
    ∃ out s, runSteps Store.step (Store.new opts hash : Store V P) ops = .ok (out, s) ∧
      ∀ sh ∈ s.shards, sh.Represents := by
  have hquiet : ∀ s : Store V P, s.NoOverflow .quiet ∧ Cause.quiet ≠ (.deadline 0 : Cause V) :=
    fun s => ⟨nofun, nofun⟩
  obtain ⟨out, s, hrun, hwf, he, ht⟩ := run_keeps hquiet
    (I := fun s : Store V P => s.Exact ∧ ∀ sh ∈ s.shards, sh.Timed)
    (fun s c s' _ hC hm hI => ⟨hI.1.move hC.1 hm,
      hm.forall_shards (fun _ _ _ _ _ _ hch => hch.timed hC.2) hI.2⟩)
    (fun s ws n hI => ⟨⟨hI.1.cost, hI.1.bounded⟩, hI.2⟩) (new_wf opts hash)
    ⟨Store.new_exact hash hcost, fun sh hsh k r hk => by
      rw [(Store.new_shards hsh).1] at hk
      cases hk⟩ hops
  refine ⟨out, s, hrun, fun sh hsh => ?_⟩
  obtain ⟨i, hi⟩ := mem_iff_getElem?.mp hsh
  exact (hwf.shard i sh hi).represents (he.bounded sh hsh) (ht sh hsh)

/-- `run_representation` at a shard for one item whose entry gets a deadline and is evicted. -/
theorem run_representation_evicted : ∃ out s, runSteps Store.step
        (Store.new { maxCost := 1 } fun _ => 0 : Store Nat LRU)
        [.set "a" 1 10 1, .expire "a" 5 2, .set "b" 2 0 3] = .ok (out, s) ∧
      ∀ sh ∈ s.shards, sh.Represents := by
  refine run_representation { maxCost := 1 } (fun _ => 0)
    (fun _ _ => show 0 ≤ (1 : Int64).toInt by decide) _ ⟨⟨?_, nofun⟩, fun o1 s1 h1 => ?_⟩
  · intro ev hev sh hsh _
    cases hev
    cases hsh
    decide
  cases h1
  refine ⟨fun _ _ => ⟨nofun, fun h => ?_⟩, fun o2 s2 h2 => ?_⟩
  · cases h
  cases h2
  refine ⟨⟨?_, nofun⟩, fun _ _ _ => trivial⟩
  intro ev hev sh hsh _
  cases hev
  cases hsh
  decide

/-- Entries of cost 2^62 in a shard of that capacity. -/
def wrappingCosts : Options Nat :=
  { maxCost := 4611686018427387904, cost := some fun _ _ => 4611686018427387904 }

/-- After two writes the sum has wrapped around: nothing is evicted, and `sh.cost` is negative. -/
theorem run_representation_overflow : (∀ k v, 0 ≤ (wrappingCosts.costFn k v).toInt) ∧
      ∃ out s, runSteps Store.step (Store.new wrappingCosts fun _ => 0 : Store Nat LRU)
          [.set "a" 1 0 1, .set "b" 2 0 1] = .ok (out, s) ∧ ¬ ∀ sh ∈ s.shards, sh.Represents := by
  refine ⟨fun _ _ => show 0 ≤ (4611686018427387904 : Int64).toInt by decide, _, _, rfl,
    fun hrep => ?_⟩
  have hcost := (hrep _ (mem_cons_self ..)).cost
  exact absurd hcost (by decide)

/-! ## The split -/

namespace Options

variable {V : Type} {opts : Options V}

/-- The split of `MaxCost` leaves no remainder, and `NewStore` computes it without overflow. -/
structure EvenSplit (opts : Options V) : Prop where
  noOverflow : opts.maxCost.toInt + opts.numShards.toInt - 1 < 2 ^ 63
  divides : opts.numShards.toInt ∣ opts.maxCost.toInt

theorem numShards_pos (opts : Options V) : 0 < opts.numShards.toInt := by
  unfold numShards
  split
  next => decide
  next hn =>
    rw [Int64.le_iff_toInt_le] at hn
    have : (0 : Int64).toInt = 0 := rfl
    omega

theorem tdiv_roundUp {m n : Int} (hm : 0 < m) (hn : 0 < n) (hdvd : n ∣ m) :
    (m + n - 1).tdiv n * n = m := by
  obtain ⟨q, rfl⟩ := hdvd
  have hq : (n * q + n - 1).tdiv n = q := by
    rw [Int.tdiv_eq_ediv_of_nonneg (by omega), show n * q + n - 1 = (n - 1) + n * q by omega,
      Int.add_mul_ediv_left _ _ (by omega), Int.ediv_eq_zero_of_lt (by omega) (by omega),
      Int.zero_add]
  rw [hq, Int.mul_comm]

theorem EvenSplit.perShard (h : opts.EvenSplit) (hpos : 0 < opts.maxCost) :
    0 < opts.perShard ∧ opts.perShard.toInt * opts.numShards.toInt = opts.maxCost.toInt := by
  have hn := opts.numShards_pos
  have hm : 0 < opts.maxCost.toInt := Int64.lt_iff_toInt_lt.mp hpos
  have hlim := h.noOverflow
  have hsum : (opts.maxCost + opts.numShards - 1).toInt =
      opts.maxCost.toInt + opts.numShards.toInt - 1 := by
    have hwrap : opts.maxCost + opts.numShards - 1 =
        Int64.ofInt (opts.maxCost.toInt + opts.numShards.toInt - 1) := by
      rw [Int64.ofInt_sub, Int64.ofInt_add, Int64.ofInt_toInt, Int64.ofInt_toInt]
      rfl
    rw [hwrap, Int64.toInt_ofInt_of_le (by omega) hlim]
  have hne : opts.numShards ≠ -1 := by
    intro e
    rw [e] at hn
    exact absurd hn (by decide)
  have hmul : opts.perShard.toInt * opts.numShards.toInt = opts.maxCost.toInt := by
    unfold Options.perShard
    rw [if_pos hpos, Int64.toInt_div_of_ne_right _ _ hne, hsum]
    exact tdiv_roundUp hm hn h.divides
  refine ⟨Int64.lt_iff_toInt_lt.mpr ?_, hmul⟩
  by_contra hle
  have := Int.mul_nonpos_of_nonpos_of_nonneg (not_lt.mp hle) hn.le
  omega

end Options

/-! ## The sum over the shards -/

variable {V P : Type} [EvictionPolicy P] [LawfulEvictionPolicy P]

/-- The most the shard can hold after a write: it and the other entries, within the capacity. -/
def Shard.costAfter (sh : Shard V P) (key : String) (cost : Int64) : Int :=
  if 0 < sh.maxCost then min sh.maxCost.toInt (sh.costBeside key + cost.toInt)
  else sh.costBeside key + cost.toInt

namespace Store

/-- The costs of all entries, added up as integers. -/
def totalCost (s : Store V P) : Int := (s.shards.map Shard.totalCost).sum

/-- The costs of the entries of the other shards. -/
def costElsewhere (s : Store V P) (i : Nat) : Int := ((s.shards.eraseIdx i).map Shard.totalCost).sum

/-- The write of the cause, unless the shard rejects it, leaves the store within `MaxCost`. -/
def TotalFits (opts : Options V) (s : Store V P) (c : Cause V) : Prop :=
  ∀ ev, c.written s.version = some ev → ∀ sh, s.shards[s.shardIdx ev.key]? = some sh →
    ¬ s.tooLarge sh ev.key ev.value →
      s.costElsewhere (s.shardIdx ev.key) + sh.costAfter ev.key (s.cost ev.key ev.value) ≤
        opts.maxCost.toInt

variable {opts : Options V} {s s' : Store V P} {c : Cause V} {i : Nat} {sh sh' : Shard V P}

omit [EvictionPolicy P] [LawfulEvictionPolicy P] in
theorem totalCost_eq (hi : s.shards[i]? = some sh) :
    s.totalCost = s.costElsewhere i + sh.totalCost := by
  obtain ⟨hlt, hget⟩ := List.getElem?_eq_some_iff.mp hi
  have hsum := ((getElem_cons_eraseIdx_perm hlt).map Shard.totalCost).sum_eq
  rw [hget, map_cons, sum_cons] at hsum
  unfold totalCost costElsewhere
  omega

/-- Within the capacity of the store, each shard within its part. -/
structure Capped (opts : Options V) (s : Store V P) : Prop where
  exact : s.Exact
  length : (s.shards.length : Int) = opts.numShards.toInt
  parts : ∀ sh ∈ s.shards, sh.maxCost = opts.perShard
  total : s.totalCost ≤ opts.maxCost.toInt

omit [EvictionPolicy P] [LawfulEvictionPolicy P] in
theorem totalCost_le_of_evenSplit (hpos : 0 < opts.maxCost) (heven : opts.EvenSplit)
    (he : s.Exact) (hlen : (s.shards.length : Int) = opts.numShards.toInt)
    (hparts : ∀ sh ∈ s.shards, sh.maxCost = opts.perShard) : s.totalCost ≤ opts.maxCost.toInt := by
  obtain ⟨hper, hmul⟩ := heven.perShard hpos
  have hle : ∀ c ∈ s.shards.map Shard.totalCost, c ≤ opts.perShard.toInt := by
    intro c hc
    obtain ⟨sh, hsh, rfl⟩ := mem_map.mp hc
    rw [← hparts sh hsh]
    exact (he.bounded sh hsh).capacity (hparts sh hsh ▸ hper)
  have hsum := sum_le_card_nsmul _ _ hle
  have hmul' : (s.shards.map Shard.totalCost).length • opts.perShard.toInt =
      s.shards.length * opts.perShard.toInt := by
    rw [length_map]
    exact Int.nsmul_eq_mul _ _
  rwa [hmul', hlen, Int.mul_comm, hmul] at hsum

theorem Capped.move (hpos : 0 < opts.maxCost) (h : s.Capped opts) (hno : s.NoOverflow c)
    (hfits : opts.EvenSplit ∨ s.TotalFits opts c) (hm : s.Moved c s') : s'.Capped opts := by
  have hexact := h.exact.move hno hm
  have hlen : (s'.shards.length : Int) = opts.numShards.toInt := hm.length_shards ▸ h.length
  have hparts := hm.forall_shards (Q := fun sh => sh.maxCost = opts.perShard)
    (fun _ _ _ _ _ _ hch hmax => hch.maxCost.trans hmax) h.parts
  refine ⟨hexact, hlen, hparts, ?_⟩
  rcases hfits with heven | hfits
  · exact totalCost_le_of_evenSplit hpos heven hexact hlen hparts
  obtain ⟨i, sh, evs, s1, sh', hi, hch, rfl⟩ := hm
  have hlt : i < s.shards.length := (List.getElem?_eq_some_iff.mp hi).1
  have hb := h.exact.bounded sh (mem_of_getElem? hi)
  have hb' := h.exact.changed hno hi hch
  have hi' : ({ s1 with shards := s1.shards.set i sh' } : Store V P).shards[i]? = some sh' := by
    rw [hch.shards, getElem?_set_self hlt]
  have helse : ({ s1 with shards := s1.shards.set i sh' } : Store V P).costElsewhere i =
      s.costElsewhere i := by
    unfold costElsewhere
    rw [hch.shards, eraseIdx_set_eq]
  have hold := totalCost_eq hi
  have htotal := h.total
  rw [totalCost_eq hi', helse]
  rcases hch.total hb with hle | ⟨ev, hev, hfit, hle⟩
  · omega
  have hkey := hch.target ev hev
  have hfit' := hfits ev hev sh (hkey ▸ hi) hfit
  have hafter : sh'.totalCost ≤ sh.costAfter ev.key (s.cost ev.key ev.value) := by
    unfold Shard.costAfter
    split
    next hmax => exact le_min (hch.maxCost ▸ hb'.capacity (hch.maxCost ▸ hmax)) hle
    next => exact hle
  rw [hkey] at hfit'
  omega

theorem Capped.stats_cost (h : s.Capped opts) (hwf : s.WF) : s.stats.cost.toInt = s.totalCost := by
  have hfold : ∀ (l : List (Shard V P)) (acc : Int64),
      (∀ sh ∈ l, sh.cost = Int64.ofInt sh.totalCost) →
      l.foldl (fun acc sh => acc + sh.cost) acc =
        acc + Int64.ofInt (l.map Shard.totalCost).sum := by
    intro l
    induction l with
    | nil => exact fun acc _ => (Int64.add_zero acc).symm
    | cons sh _ ih =>
      intro acc hl
      rw [foldl_cons, ih _ fun x hx => hl x (mem_cons_of_mem _ hx),
        hl sh (mem_cons_self ..), map_cons, sum_cons, Int64.ofInt_add, Int64.add_assoc]
  have hcost : ∀ sh ∈ s.shards, sh.cost = Int64.ofInt sh.totalCost := by
    intro sh hsh
    obtain ⟨i, hi⟩ := mem_iff_getElem?.mp hsh
    exact (hwf.shard i sh hi).cost
  have hnonneg : 0 ≤ s.totalCost := by
    refine sum_nonneg fun c hc => ?_
    obtain ⟨sh, hsh, rfl⟩ := mem_map.mp hc
    exact Shard.costOf_nonneg (h.exact.bounded sh hsh).nonneg
  have hlt : opts.maxCost.toInt < 2 ^ 63 := opts.maxCost.toInt_lt
  have htotal := h.total
  show (s.shards.foldl (fun acc (sh : Shard V P) => acc + sh.cost) 0).toInt = s.totalCost
  rw [hfold _ _ hcost, Int64.zero_add]
  exact Int64.toInt_ofInt_of_le (n := s.totalCost) (by omega) (by omega)

omit [LawfulEvictionPolicy P] in
theorem new_capped [Inhabited V] (hpos : 0 < opts.maxCost) (hash : String → UInt64)
    (hcost : ∀ k v, 0 ≤ (opts.costFn k v).toInt) :
    (Store.new opts hash : Store V P).Capped opts := by
  have hm : 0 < opts.maxCost.toInt := Int64.lt_iff_toInt_lt.mp hpos
  refine ⟨new_exact hash hcost, ?_, fun sh hsh => (new_shards hsh).2.2, ?_⟩
  · show ((List.replicate opts.numShards.toInt.toNat _).length : Int) = _
    rw [length_replicate]
    exact Int.toNat_of_nonneg opts.numShards_pos.le
  · have hzero : (Store.new opts hash : Store V P).totalCost = 0 := by
      refine sum_eq_zero fun c hc => ?_
      obtain ⟨sh, hsh, rfl⟩ := mem_map.mp hc
      exact (new_shards hsh).2.1
    omega

end Store

/-- A run in which the split is even, or each write leaves the store within `MaxCost`, ends within
    it. -/
theorem run_totalCapacity [Inhabited V] (opts : Options V) (hash : String → UInt64)
    (hpos : 0 < opts.maxCost) (hcost : ∀ k v, 0 ≤ (opts.costFn k v).toInt) (ops : List (Op V))
    (hops : Guarded (fun s op => op.Meets
        (fun s c => s.NoOverflow c ∧ (opts.EvenSplit ∨ s.TotalFits opts c)) s)
      Store.step (Store.new opts hash : Store V P) ops) :
    ∃ out s, runSteps Store.step (Store.new opts hash : Store V P) ops = .ok (out, s) ∧
      s.stats.cost.toInt = s.totalCost ∧ s.totalCost ≤ opts.maxCost.toInt := by
  have hquiet : ∀ s : Store V P, s.NoOverflow .quiet ∧ (opts.EvenSplit ∨ s.TotalFits opts .quiet) :=
    fun s => ⟨nofun, Or.inr nofun⟩
  obtain ⟨out, s, hrun, hwf, hcap⟩ := run_keeps hquiet (I := Store.Capped opts)
    (fun s c s' _ hC hm h => h.move hpos hC.1 hC.2 hm)
    (fun s ws n h => ⟨⟨h.exact.cost, h.exact.bounded⟩, h.length, h.parts, h.total⟩)
    (new_wf opts hash) (Store.new_capped hpos hash hcost) hops
  exact ⟨out, s, hrun, hcap.stats_cost hwf, hcap.total⟩

/-- `run_totalCapacity` for a capacity of 2 split over two shards. -/
theorem run_totalCapacity_twoShards :
    ∃ out s, runSteps Store.step
        (Store.new { shards := 2, maxCost := 2 } fun k => if k = "a" then 0 else 1 : Store Nat LRU)
        [.set "a" 1 0 1, .set "b" 2 0 2] = .ok (out, s) ∧
      s.stats.cost.toInt = s.totalCost ∧ s.totalCost ≤ 2 := by
  have heven : ({ shards := 2, maxCost := 2 } : Options Nat).EvenSplit := ⟨by decide, by decide⟩
  refine run_totalCapacity { shards := 2, maxCost := 2 } _ (by decide)
    (fun _ _ => show 0 ≤ (1 : Int64).toInt by decide) _
    ⟨⟨?_, Or.inl heven⟩, fun o1 s1 h1 => ⟨⟨?_, Or.inl heven⟩, fun _ _ _ => trivial⟩⟩
  · intro ev hev sh hsh _
    cases hev
    cases hsh
    decide
  · cases h1
    intro ev hev sh hsh _
    cases hev
    cases hsh
    decide

/-- A capacity of 3 over two shards: each takes two items of cost 1. -/
theorem run_totalCapacity_roundedUp :
    ∃ out s, runSteps Store.step
        (Store.new { shards := 2, maxCost := 3 } fun k =>
          if k = "a" ∨ k = "b" then 0 else 1 : Store Nat LRU)
        [.set "a" 1 0 1, .set "b" 2 0 1, .set "c" 3 0 1, .set "d" 4 0 1] = .ok (out, s) ∧
      s.stats.cost = 4 ∧ ¬ s.totalCost ≤ 3 := by
  refine exists_run_of_observe
    (f := fun r => (r.2.stats.cost, r.2.totalCost)) (b := (4, 4)) (by decide +kernel)
    fun out s hrun hobs => ?_
  obtain ⟨hstats, htotal⟩ := Prod.mk.inj hobs
  have htotal' : s.totalCost = 4 := htotal
  exact ⟨hstats, by omega⟩

end InterviewPrep.KvStore
