/-
  The invariant of `BaseCache` and what its internal steps do.

  `Core` ties the map, the nodes and the policy's structure; `Covers` says that the expiry heap
  has an entry for the deadline of every held node, whatever stale entries it has besides.  A step
  that drops nodes is described by the nodes it keeps (`Keeps`).

  What each method of `BaseCache` does in a well-formed cache: no internal error is raised, the
  invariant is kept, and the held nodes change as stated.
-/
import InterviewPrep.Lib.Except
import InterviewPrep.LruCache.Cache

namespace InterviewPrep.LruCache

open Lib Dict List Memory Option

namespace BaseCache

variable {K V T P : Type} [DecidableEq K] [LinearOrder T] [Zero T] [CachePolicy P]
  [LawfulCachePolicy P] {c c' c'' : BaseCache K V T P} {r : Ref} {k : K} {q : Node K V T → Bool}
  {heap : List (HeapEntry T)}

/-! ## The invariant -/

/-- The nodes the policy holds. -/
def refs (c : BaseCache K V T P) : List Ref := LawfulCachePolicy.nodes c.policy

/-- The node held under a key, expired or not. -/
def held? (c : BaseCache K V T P) (k : K) : Option (Node K V T) := (c.map.get? k).bind c.nodes.read

/-- The map holds allocated nodes under their keys, and they are the policy's nodes. -/
structure Core (c : BaseCache K V T P) : Prop where
  ok : LawfulCachePolicy.Ok c.policy
  refs : c.refs.Perm c.map.values
  allocated : ∀ k r, c.map.get? k = some r → r < c.nodes.next
  node : ∀ k r, c.map.get? k = some r → ∃ n, c.nodes.read r = some n ∧ n.key = k
  size : (c.map.size : Int) ≤ c.config.capacity

/-- The heap entries refer to nodes, and every held deadline has one. -/
structure Covers (heap : List (HeapEntry T)) (c : BaseCache K V T P) : Prop where
  sorted : IsHeap heap
  entries : ∀ e ∈ heap, (c.nodes.read (entryNode e)).isSome
  covered : ∀ k r n t, c.map.get? k = some r → c.nodes.read r = some n → n.expiresAt = some t →
    ∃ seq, heapEntry t seq r ∈ heap

structure WF (c : BaseCache K V T P) : Prop where
  core : c.Core
  covers : Covers c.expiryHeap c

theorem new_wf (config : Config T) : (new config : BaseCache K V T P).WF := by
  obtain ⟨hok, hnodes⟩ := LawfulCachePolicy.new_ok (P := P)
  refine ⟨⟨hok, ?_, nofun, nofun, ?_⟩,
    ⟨List.Pairwise.nil, nofun, nofun⟩⟩
  · rw [refs, new, hnodes]
    rfl
  · have hpos := config.capacity_pos
    show ((0 : Nat) : Int) ≤ config.capacity
    omega

theorem Core.mem_refs (h : c.Core) : r ∈ c.refs ↔ ∃ k, c.map.get? k = some r := by
  rw [h.refs.mem_iff, Dict.values, List.mem_map]
  constructor
  · rintro ⟨x, hx, rfl⟩
    exact ⟨x.1, mem_items_iff.mp hx⟩
  · rintro ⟨k, hk⟩
    exact ⟨(k, r), Dict.mem_items.mpr hk, rfl⟩

theorem Core.nodup (h : c.Core) : c.refs.Nodup := LawfulCachePolicy.nodup h.ok

theorem Core.length_refs (h : c.Core) : c.refs.length = c.map.size := by
  rw [h.refs.length_eq, Dict.values, length_map, Dict.size]

theorem Core.key_inj (h : c.Core) {k' : K} (hk : c.map.get? k = some r)
    (hk' : c.map.get? k' = some r) : k = k' := by
  obtain ⟨n, hn, rfl⟩ := h.node k r hk
  obtain ⟨n', hn', rfl⟩ := h.node k' r hk'
  rw [hn] at hn'
  cases hn'
  rfl

/-! ## Dropping nodes -/

/-- `c'` is `c` without the held nodes that `q` refuses. -/
structure Keeps (q : Node K V T → Bool) (c c' : BaseCache K V T P) : Prop where
  config : c'.config = c.config
  nodes : c'.nodes = c.nodes
  map : ∀ k, c'.map.get? k = (c.map.get? k).filter fun r => (c.nodes.read r).any q
  refs : c'.refs = c.refs.filter fun r => (c.nodes.read r).any q

theorem Keeps.of_forall (h : c.Core) (hq : ∀ k n, c.held? k = some n → q n = true)
    (hconfig : c'.config = c.config) (hnodes : c'.nodes = c.nodes) (hmap : c'.map = c.map)
    (hrefs : c'.refs = c.refs) : Keeps q c c' := by
  have hkeep : ∀ k r, c.map.get? k = some r → (c.nodes.read r).any q = true := by
    intro k r hk
    obtain ⟨n, hn, -⟩ := h.node k r hk
    rw [hn]
    exact hq k n (by rw [held?, hk, bind_some, hn])
  refine ⟨hconfig, hnodes, fun k => ?_, ?_⟩
  · rw [hmap]
    cases hk : c.map.get? k with
    | none => rfl
    | some r => rw [filter_some, if_pos (hkeep k r hk)]
  · rw [hrefs, eq_comm, filter_eq_self]
    intro r hr
    obtain ⟨k, hk⟩ := h.mem_refs.mp hr
    exact hkeep k r hk

theorem Keeps.trans {q' : Node K V T → Bool} (hc : c.Core) (h : Keeps q c c') (h' : Keeps q' c' c'')
    (himp : ∀ k n, c.held? k = some n → q' n = true → q n = true) : Keeps q' c c'' := by
  have hand : ∀ k r, c.map.get? k = some r →
      ((c.nodes.read r).any q && (c.nodes.read r).any q') = (c.nodes.read r).any q' := by
    intro k r hk
    obtain ⟨n, hn, -⟩ := hc.node k r hk
    rw [hn, any_some, any_some, Bool.and_eq_right_iff_imp]
    exact himp k n (by rw [BaseCache.held?, hk, bind_some, hn])
  refine ⟨h'.config.trans h.config, h'.nodes.trans h.nodes, fun k => ?_, ?_⟩
  · rw [h'.map, h.map, h.nodes, Option.filter_filter]
    cases hk : c.map.get? k with
    | none => rfl
    | some r => rw [filter_some, filter_some, hand k r hk]
  · rw [h'.refs, h.refs, h.nodes, List.filter_filter]
    refine filter_congr fun r hr => ?_
    obtain ⟨k, hk⟩ := hc.mem_refs.mp hr
    rw [Bool.and_comm]
    exact hand k r hk

theorem Keeps.get?_some (h : Keeps q c c') (hk : c'.map.get? k = some r) :
    c.map.get? k = some r := by
  rw [h.map, filter_eq_some_iff] at hk
  exact hk.1

theorem Covers.keeps (h : Covers heap c) (hk : Keeps q c c') : Covers heap c' := by
  refine ⟨h.sorted, fun e he => ?_, fun k r n t hr hn ht => ?_⟩
  · rw [hk.nodes]
    exact h.entries e he
  · rw [hk.nodes] at hn
    exact h.covered k r n t (hk.get?_some hr) hn ht

/-! ## Internal steps -/

theorem values_perm_erase {d : Dict K Ref} (h : d.get? k = some r) :
    d.values.Perm (r :: (d.erase k).values) := (items_perm_of_get? h).map Prod.snd

theorem Core.remove (h : c.Core) (hk : c.map.get? k = some r) :
    ∃ p, c.remove r = .ok { c with map := c.map.erase k, policy := p } ∧
      Core { c with map := c.map.erase k, policy := p } ∧
      Keeps (fun n => n.key ≠ k) c { c with map := c.map.erase k, policy := p } := by
  obtain ⟨n, hn, rfl⟩ := h.node k r hk
  have hr : r ∈ c.refs := h.mem_refs.mpr ⟨_, hk⟩
  obtain ⟨p, hunlink, hok, hrefs⟩ := LawfulCachePolicy.unlink_ok h.ok hr
  have hkey : ∀ k' r', c.map.get? k' = some r' →
      (c.nodes.read r').any (fun n' => decide (n'.key ≠ n.key)) = decide (r' ≠ r) := by
    intro k' r' hk'
    obtain ⟨n', hn', rfl⟩ := h.node k' r' hk'
    rw [hn', any_some, decide_eq_decide, not_iff_not]
    constructor
    · intro e
      rw [e, hk] at hk'
      exact (some.inj hk').symm
    · rintro rfl
      exact h.key_inj hk' hk
  refine ⟨p, ?_, ⟨hok, ?_, fun k' r' hk' => ?_, fun k' r' hk' => ?_, ?_⟩, rfl, rfl,
    fun k' => ?_, ?_⟩
  · simp only [BaseCache.remove, BaseCache.node, hn, orRaise, bind, Except.bind, hk, hunlink]
    rfl
  · have hperm := (perm_cons_filter h.nodup hr).trans (h.refs.trans (values_perm_erase hk))
    show (LawfulCachePolicy.nodes p).Perm _
    rw [hrefs]
    exact hperm.cons_inv
  · rw [get?_erase] at hk'
    split at hk'
    · cases hk'
    · exact h.allocated k' r' hk'
  · rw [get?_erase] at hk'
    split at hk'
    · cases hk'
    · exact h.node k' r' hk'
  · have hsize := (items_perm_of_get? hk).length_eq
    have hle := h.size
    rw [length_cons] at hsize
    simp only [Dict.size] at hle ⊢
    omega
  · rw [get?_erase]
    split
    · next e =>
        rw [e, hk, filter_some, hkey _ _ hk]
        simp
    · next hne =>
        cases hk' : c.map.get? k' with
        | none => rfl
        | some r' =>
          have hr' : r' ≠ r := fun e => hne (h.key_inj hk' (e ▸ hk))
          rw [filter_some, hkey _ _ hk', if_pos (decide_eq_true hr')]
  · refine hrefs.trans (filter_congr fun r' hr' => ?_)
    obtain ⟨k', hk'⟩ := h.mem_refs.mp hr'
    rw [hkey _ _ hk']

omit [DecidableEq K] [CachePolicy P] [LawfulCachePolicy P] in
theorem node_of_isSome (h : (c.nodes.read r).isSome) :
    ∃ n, c.nodes.read r = some n ∧ c.node r = .ok n := by
  obtain ⟨n, hn⟩ := isSome_iff_exists.mp h
  exact ⟨n, hn, by rw [node, hn, orRaise]⟩

omit [CachePolicy P] [LawfulCachePolicy P] in
theorem Covers.tail {e : HeapEntry T} (h : Covers (e :: heap) c)
    (hnodes : c'.nodes = c.nodes) (hmap : ∀ k r, c'.map.get? k = some r → c.map.get? k = some r)
    (hstale : ∀ k n, c'.map.get? k = some (entryNode e) → c.nodes.read (entryNode e) = some n →
      n.expiresAt ≠ some (entryDeadline e)) : Covers heap c' := by
  refine ⟨(pairwise_cons.mp h.sorted).2, fun e' he' => ?_, fun k r n t hk hn ht => ?_⟩
  · rw [hnodes]
    exact h.entries e' (mem_cons_of_mem _ he')
  · rw [hnodes] at hn
    obtain ⟨seq, hmem⟩ := h.covered k r n t (hmap k r hk) hn ht
    rcases mem_cons.mp hmem with rfl | hmem
    · exact absurd ht (hstale k n hk hn)
    · exact ⟨seq, hmem⟩

omit [CachePolicy P] [LawfulCachePolicy P] in
theorem Covers.not_expired (h : Covers heap c) {now : T} (hlate : ∀ e ∈ heap, now < entryDeadline e)
    {n : Node K V T} (hn : c.held? k = some n) : n.isExpired now = false := by
  obtain ⟨r, hk, hr⟩ := bind_eq_some_iff.mp hn
  cases ht : n.expiresAt with
  | none => rw [Node.isExpired, ht, any_none]
  | some t =>
    obtain ⟨seq, hmem⟩ := h.covered k r n t hk hr ht
    rw [Node.isExpired, ht, any_some, decide_eq_false_iff_not, not_le]
    exact hlate _ hmem

theorem purgeLoop_done (now : T) (h : c.Core) (hcov : Covers heap c)
    (hlate : ∀ e ∈ heap, now < entryDeadline e) : WF { c with expiryHeap := heap } ∧
      Keeps (fun m => !m.isExpired now) c { c with expiryHeap := heap } := by
  have hkeep : Keeps (fun m => !m.isExpired now) c { c with expiryHeap := heap } := by
    refine .of_forall h (fun k n hn => ?_) rfl rfl rfl rfl
    rw [hcov.not_expired hlate hn, Bool.not_false]
  exact ⟨⟨⟨h.ok, h.refs, h.allocated, h.node, h.size⟩, hcov.keeps hkeep⟩, hkeep⟩

theorem purgeLoop_spec (now : T) (heap : List (HeapEntry T)) :
    ∀ (removed : Nat) (c : BaseCache K V T P), c.Core → Covers heap c →
      ∃ n c', purgeLoop now heap removed c = .ok (removed + n, c') ∧ c'.WF ∧
        Keeps (fun m => !m.isExpired now) c c' ∧ n + c'.map.size = c.map.size ∧
        c'.stats = { c.stats with expirations := c.stats.expirations + n } := by
  induction heap with
  | nil =>
    intro removed c h hcov
    obtain ⟨hwf, hkeep⟩ := purgeLoop_done now h hcov nofun
    exact ⟨0, _, rfl, hwf, hkeep, Nat.zero_add _, rfl⟩
  | cons e heap ih =>
    intro removed c h hcov
    obtain ⟨hle, -⟩ := pairwise_cons.mp hcov.sorted
    rw [purgeLoop]
    by_cases hnow : entryDeadline e ≤ now
    · obtain ⟨m, hm, hnode⟩ := node_of_isSome (hcov.entries e (mem_cons_self ..))
      simp only [if_pos hnow, hnode, bind, Except.bind]
      by_cases hvalid : c.map.get? m.key = some (entryNode e) ∧
          m.expiresAt = some (entryDeadline e)
      · -- the entry stands for the deadline of a held node, which is dropped
        obtain ⟨hkey, ht⟩ := hvalid
        obtain ⟨p, hremove, hcore, hkeep⟩ := h.remove hkey
        have htail : Covers heap { c with map := c.map.erase m.key, policy := p } := by
          refine hcov.tail rfl (fun k r hk => hkeep.get?_some hk) fun k n hk hn => ?_
          have heq := h.key_inj (hkeep.get?_some hk) hkey
          rw [heq, get?_erase_self] at hk
          cases hk
        obtain ⟨n, c', hloop, hwf, hkeep', hsize, hstats⟩ := ih (removed + 1)
          { c with map := c.map.erase m.key, policy := p, stats := { c.stats with
            expirations := c.stats.expirations + 1 } }
          ⟨hcore.ok, hcore.refs, hcore.allocated, hcore.node, hcore.size⟩
          ⟨htail.sorted, htail.entries, htail.covered⟩
        refine ⟨n + 1, c', ?_, hwf, ?_, ?_, ?_⟩
        · rw [if_pos ⟨hkey, ht⟩, hremove]
          rw [show removed + (n + 1) = removed + 1 + n by omega]
          exact hloop
        · have hkeep1 : Keeps (fun n => n.key ≠ m.key) c { c with
              map := c.map.erase m.key, policy := p, stats := { c.stats with
                expirations := c.stats.expirations + 1 } } :=
            ⟨hkeep.config, hkeep.nodes, hkeep.map, hkeep.refs⟩
          refine hkeep1.trans h hkeep' fun k n hn hexp => ?_
          rw [decide_eq_true_eq]
          intro heq
          obtain ⟨r, hk, hr⟩ := bind_eq_some_iff.mp hn
          obtain ⟨n', hn', rfl⟩ := h.node k r hk
          rw [hr] at hn'
          cases hn'
          rw [heq, hkey] at hk
          cases hk
          rw [hm] at hr
          cases hr
          simp [Node.isExpired, ht, hnow] at hexp
        · have hperm := (items_perm_of_get? hkey).length_eq
          rw [length_cons] at hperm
          simp only [Dict.size] at hsize ⊢
          omega
        · rw [hstats]
          simp only [Nat.add_assoc, Nat.add_comm 1]
      · -- a stale entry is skipped
        rw [if_neg hvalid]
        refine ih removed c h (hcov.tail rfl (fun _ _ hk => hk) fun k n hk hn ht => hvalid ?_)
        obtain ⟨n', hn', rfl⟩ := h.node k _ hk
        rw [hm] at hn hn'
        cases hn
        cases hn'
        exact ⟨hk, ht⟩
    · rw [if_neg hnow]
      obtain ⟨hwf, hkeep⟩ := purgeLoop_done now h hcov fun e' he' => by
        rcases mem_cons.mp he' with rfl | he'
        · exact not_le.mp hnow
        · exact lt_of_lt_of_le (not_le.mp hnow) (Prod.Lex.monotone_fst e e' (hle e' he'))
      exact ⟨0, _, rfl, hwf, hkeep, Nat.zero_add _, rfl⟩

variable {K V T P : Type} [DecidableEq K] [LinearOrder T] [Zero T] [CachePolicy P]
  [LawfulCachePolicy P] {c c' : BaseCache K V T P} {key : K} {r : Ref}

/-- The value a lookup finds: held under the key and not expired. -/
def live? (c : BaseCache K V T P) (key : K) (now : T) : Option V :=
  ((c.held? key).filter fun n => !n.isExpired now).map Node.value

theorem WF.held (h : c.WF) (hk : c.map.get? key = some r) :
    ∃ n, c.nodes.read r = some n ∧ n.key = key ∧ c.node r = .ok n ∧ c.held? key = some n := by
  obtain ⟨n, hn, hkey⟩ := h.core.node key r hk
  exact ⟨n, hn, hkey, by rw [node, hn, orRaise], by rw [held?, hk, bind_some, hn]⟩

theorem Core.withStats (h : c.Core) (stats : CacheStats) : Core { c with stats } :=
  ⟨h.ok, h.refs, h.allocated, h.node, h.size⟩

theorem WF.withStats (h : c.WF) (stats : CacheStats) : WF { c with stats } :=
  ⟨h.core.withStats stats, ⟨h.covers.sorted, h.covers.entries, h.covers.covered⟩⟩

theorem Keeps.withStats {q : Node K V T → Bool} (h : Keeps q c c') (stats : CacheStats) :
    Keeps q c { c' with stats } :=
  ⟨h.config, h.nodes, h.map, h.refs⟩

theorem WF.withPolicy {p : P} (h : c.WF) (hok : LawfulCachePolicy.Ok p)
    (hperm : (LawfulCachePolicy.nodes p).Perm c.refs) : WF { c with policy := p } :=
  ⟨⟨hok, hperm.trans h.core.refs, h.core.allocated, h.core.node, h.core.size⟩,
    ⟨h.covers.sorted, h.covers.entries, h.covers.covered⟩⟩

theorem remove_spec (h : c.WF) (hk : c.map.get? key = some r) :
    ∃ c', c.remove r = .ok c' ∧ c'.WF ∧ Keeps (fun n => n.key ≠ key) c c' ∧
      c'.map.size + 1 = c.map.size ∧ c'.stats = c.stats := by
  obtain ⟨p, hremove, hcore, hkeep⟩ := h.core.remove hk
  refine ⟨_, hremove, ⟨hcore, h.covers.keeps hkeep⟩, hkeep, ?_, rfl⟩
  have hsize := (items_perm_of_get? hk).length_eq
  rw [length_cons] at hsize
  simp only [Dict.size]
  omega

/-! ## Reading, deleting, purging -/

omit [LawfulCachePolicy P] in
theorem get_miss (hk : c.map.get? key = none) (now : T) : c.get key now =
      .ok (none, { c with stats := { c.stats with misses := c.stats.misses + 1 } }) := by
  rw [get, hk]

theorem get_expired (h : c.WF) {n : Node K V T} {now : T} (hn : c.held? key = some n)
    (hexp : n.isExpired now = true) :
    ∃ c', c.get key now = .ok (none, c') ∧ c'.WF ∧ Keeps (fun n => n.key ≠ key) c c' ∧
      c'.stats = { c.stats with
        expirations := c.stats.expirations + 1, misses := c.stats.misses + 1 } := by
  obtain ⟨r, hk, hr⟩ := bind_eq_some_iff.mp hn
  obtain ⟨n', hn', -, hnode, -⟩ := h.held hk
  rw [hr] at hn'
  cases hn'
  obtain ⟨c1, hremove, hwf, hkeep, -, hstats⟩ := remove_spec h hk
  refine ⟨{ c1 with stats := { c.stats with
    expirations := c.stats.expirations + 1, misses := c.stats.misses + 1 } }, ?_,
    hwf.withStats _, hkeep.withStats _, rfl⟩
  simp only [get, hk, hnode, bind, Except.bind, if_pos hexp, hremove, hstats]
  rfl

theorem get_hit (h : c.WF) {n : Node K V T} {now : T} (hk : c.map.get? key = some r)
    (hn : c.held? key = some n) (hexp : n.isExpired now = false) :
    ∃ p c', CachePolicy.touch c.policy r = .ok p ∧ c.get key now = .ok (some n.value, c') ∧
      c' = { c with policy := p, stats := { c.stats with hits := c.stats.hits + 1 } } ∧
      c'.WF := by
  obtain ⟨n', hn', -, hnode, hheld⟩ := h.held hk
  rw [hn] at hheld
  cases hheld
  have hr : r ∈ c.refs := h.core.mem_refs.mpr ⟨key, hk⟩
  obtain ⟨p, htouch, hok, hperm⟩ := LawfulCachePolicy.touch_ok h.core.ok hr
  refine ⟨p, _, htouch, ?_, rfl, (h.withPolicy hok hperm).withStats _⟩
  simp only [get, hk, hnode, bind, Except.bind, hexp, htouch]
  rfl

theorem get_spec (h : c.WF) (key : K) (now : T) :
    ∃ c', c.get key now = .ok (c.live? key now, c') ∧ c'.WF := by
  cases hk : c.map.get? key with
  | none =>
    have hlive : c.live? key now = none := by
      rw [live?, held?, hk]
      rfl
    rw [hlive]
    exact ⟨_, get_miss hk now, h.withStats _⟩
  | some =>
  obtain ⟨n, -, -, -, hheld⟩ := h.held hk
  cases hexp : n.isExpired now with
  | true =>
    obtain ⟨c', hget, hwf, -⟩ := get_expired h hheld hexp
    refine ⟨c', ?_, hwf⟩
    rw [hget, live?, hheld, filter_some, hexp]
    rfl
  | false =>
    obtain ⟨p, c', -, hget, -, hwf⟩ := get_hit h hk hheld hexp
    refine ⟨c', ?_, hwf⟩
    rw [hget, live?, hheld, filter_some, hexp]
    rfl

omit [LawfulCachePolicy P] in
theorem delete_miss (hk : c.map.get? key = none) : c.delete key = .ok (false, c) := by
  rw [delete, hk]

theorem delete_held (h : c.WF) (hk : c.map.get? key = some r) :
    ∃ c', c.delete key = .ok (true, c') ∧ c'.WF ∧ Keeps (fun n => n.key ≠ key) c c' := by
  obtain ⟨c', hremove, hwf, hkeep, -⟩ := remove_spec h hk
  refine ⟨c', ?_, hwf, hkeep⟩
  simp only [delete, hk, hremove]
  rfl

theorem delete_spec (h : c.WF) (key : K) : ∃ b c', c.delete key = .ok (b, c') ∧ c'.WF := by
  cases hk : c.map.get? key with
  | none => exact ⟨false, c, delete_miss hk, h⟩
  | some =>
    obtain ⟨c', hdelete, hwf, -⟩ := delete_held h hk
    exact ⟨true, c', hdelete, hwf⟩

theorem contains_spec (h : c.WF) (key : K) (now : T) :
    c.contains key now = .ok (c.live? key now).isSome := by
  cases hk : c.map.get? key with
  | none =>
    rw [contains, hk, live?, held?, hk]
    rfl
  | some =>
    obtain ⟨n, -, -, hnode, hheld⟩ := h.held hk
    rw [contains, hk, live?, hheld, filter_some]
    simp only [hnode, bind, Except.bind, pure, Except.pure]
    cases n.isExpired now <;> rfl

theorem purgeExpired_spec (h : c.WF) (now : T) :
    ∃ n c', c.purgeExpired now = .ok (n, c') ∧ c'.WF ∧
      Keeps (fun m => !m.isExpired now) c c' ∧ n + c'.map.size = c.map.size ∧
      c'.stats = { c.stats with expirations := c.stats.expirations + n } := by
  obtain ⟨n, c', hloop, hspec⟩ := purgeLoop_spec now c.expiryHeap 0 c h.core h.covers
  rw [Nat.zero_add] at hloop
  exact ⟨n, c', hloop, hspec⟩

/-! ## Scheduling -/

omit [DecidableEq K] [CachePolicy P] [LawfulCachePolicy P] in
theorem liveEntries_spec (refs : List Ref) : ∀ seq : Nat, (∀ r ∈ refs, (c.nodes.read r).isSome) →
    ∃ entries next, c.liveEntries refs seq = .ok (entries, next) ∧
      (∀ e ∈ entries, entryNode e ∈ refs) ∧
      ∀ r ∈ refs, ∀ n t, c.nodes.read r = some n → n.expiresAt = some t →
        ∃ s, heapEntry t s r ∈ entries := by
  induction refs with
  | nil =>
    intro seq _
    exact ⟨[], seq, rfl, nofun,
      nofun⟩
  | cons r refs ih =>
    intro seq hsome
    obtain ⟨n, hn, hnode⟩ := node_of_isSome (hsome r (mem_cons_self ..))
    have hrest : ∀ r' ∈ refs, (c.nodes.read r').isSome :=
      fun r' hr' => hsome r' (mem_cons_of_mem _ hr')
    cases ht : n.expiresAt with
    | none =>
      obtain ⟨entries, next, hlive, hrefs, hcov⟩ := ih seq hrest
      refine ⟨entries, next, ?_, fun e he => mem_cons_of_mem _ (hrefs e he),
        fun r' hr' n' t hn' ht' => ?_⟩
      · simp only [liveEntries, hnode, bind, Except.bind, ht, hlive]
      · rcases mem_cons.mp hr' with rfl | hr'
        · rw [hn] at hn'
          cases hn'
          rw [ht] at ht'
          cases ht'
        · exact hcov r' hr' n' t hn' ht'
    | some t =>
    obtain ⟨entries, next, hlive, hrefs, hcov⟩ := ih (seq + 1) hrest
    refine ⟨heapEntry t seq r :: entries, next, ?_, fun e he => ?_,
      fun r' hr' n' t' hn' ht' => ?_⟩
    · simp only [liveEntries, hnode, bind, Except.bind, ht, hlive]
      rfl
    · rcases mem_cons.mp he with rfl | he
      · exact mem_cons_self ..
      · exact mem_cons_of_mem _ (hrefs e he)
    rcases mem_cons.mp hr' with rfl | hr'
    · rw [hn] at hn'
      cases hn'
      rw [ht] at ht'
      cases ht'
      exact ⟨seq, mem_cons_self ..⟩
    · obtain ⟨s, hs⟩ := hcov r' hr' n' t' hn' ht'
      exact ⟨s, mem_cons_of_mem _ hs⟩

theorem schedule_spec (h : c.Core) (key : K) (hk : c.map.get? key = some r)
    (hsorted : IsHeap c.expiryHeap)
    (hentries : ∀ e ∈ c.expiryHeap, (c.nodes.read (entryNode e)).isSome)
    (hcov : ∀ k r' n t, r' ≠ r → c.map.get? k = some r' → c.nodes.read r' = some n →
      n.expiresAt = some t → ∃ seq, heapEntry t seq r' ∈ c.expiryHeap) :
    ∃ expiryHeap seq, c.schedule r = .ok { c with expiryHeap, seq } ∧ Covers expiryHeap c := by
  obtain ⟨n, hn, -⟩ := h.node key r hk
  have hnode : c.node r = .ok n := by rw [node, hn, orRaise]
  cases ht : n.expiresAt with
  | none =>
    refine ⟨c.expiryHeap, c.seq, ?_, hsorted, hentries, fun k r' n' t hk' hn' ht' => ?_⟩
    · simp only [schedule, hnode, bind, Except.bind, ht]
      rfl
    · refine hcov k r' n' t ?_ hk' hn' ht'
      rintro rfl
      rw [hn] at hn'
      cases hn'
      rw [ht] at ht'
      cases ht'
  | some t =>
  have hpush : Covers (heappush c.expiryHeap (heapEntry t c.seq r)) c := by
    refine ⟨isHeap_heappush hsorted _, fun e he => ?_, fun k r' n' t' hk' hn' ht' => ?_⟩
    · rcases mem_heappush.mp he with rfl | he
      · exact isSome_iff_exists.mpr ⟨n, hn⟩
      · exact hentries e he
    by_cases hr : r' = r
    · subst hr
      rw [hn] at hn'
      cases hn'
      rw [ht] at ht'
      cases ht'
      exact ⟨c.seq, mem_heappush.mpr (Or.inl rfl)⟩
    · obtain ⟨s, hs⟩ := hcov k r' n' t' hr hk' hn' ht'
      exact ⟨s, mem_heappush.mpr (Or.inr hs)⟩
  by_cases hbig : (heappush c.expiryHeap (heapEntry t c.seq r)).length > 2 * c.map.size + 32
  · -- the heap is rebuilt from the nodes held
    have hsome : ∀ r' ∈ c.map.values, (c.nodes.read r').isSome := by
      intro r' hr'
      obtain ⟨k, hk'⟩ := h.mem_refs.mp (h.refs.mem_iff.mpr hr')
      obtain ⟨n', hn', -⟩ := h.node k r' hk'
      exact isSome_iff_exists.mpr ⟨n', hn'⟩
    obtain ⟨entries, next, hlive, hrefs, hall⟩ := liveEntries_spec c.map.values (c.seq + 1) hsome
    refine ⟨heapify entries, next, ?_, isHeap_heapify _, fun e he => ?_,
      fun k r' n' t' hk' hn' ht' => ?_⟩
    · simp only [schedule, hnode, bind, Except.bind, ht, if_pos hbig, hlive]
      rfl
    · exact hsome _ (hrefs e ((heapify_perm entries).mem_iff.mp he))
    · have hr' := h.refs.mem_iff.mp (h.mem_refs.mpr ⟨k, hk'⟩)
      obtain ⟨s, hs⟩ := hall r' hr' n' t' hn' ht'
      exact ⟨s, (heapify_perm entries).mem_iff.mpr hs⟩
  · refine ⟨_, c.seq + 1, ?_, hpush⟩
    simp only [schedule, hnode, bind, Except.bind, ht, if_neg hbig]
    rfl

/-! ## Writing -/

theorem evict_spec (h : c.WF) (hne : c.refs ≠ []) :
    ∃ victim p k c', CachePolicy.victim c.policy = .ok (victim, p) ∧
      c.map.get? k = some victim ∧ c.evict = .ok c' ∧ c'.WF ∧
      Keeps (fun n => n.key ≠ k) c c' ∧ c'.map.size + 1 = c.map.size := by
  obtain ⟨victim, p, hvictim, hmem, hok, hnodes⟩ := LawfulCachePolicy.victim_ok h.core.ok hne
  obtain ⟨k, hk⟩ := h.core.mem_refs.mp hmem
  have hwf : WF { c with policy := p } := h.withPolicy hok (by rw [hnodes]; rfl)
  obtain ⟨c1, hremove, hwf1, hkeep, hsize, -⟩ := remove_spec hwf hk
  refine ⟨victim, p, k, { c1 with stats := { c1.stats with evictions := c1.stats.evictions + 1 } },
    hvictim, hk, ?_, hwf1.withStats _, ⟨hkeep.config, hkeep.nodes, hkeep.map, ?_⟩, hsize⟩
  · simp only [evict, hvictim, bind, Except.bind, hremove]
    rfl
  · exact hkeep.refs.trans (by rw [refs, hnodes]; rfl)

theorem makeRoom_spec (h : c.WF) (hfull : c.config.capacity ≤ c.map.size) (later : T) :
    ∃ n c1 c', c.purgeExpired later = .ok (n, c1) ∧ c1.WF ∧
      Keeps (fun m => !m.isExpired later) c c1 ∧ n + c1.map.size = c.map.size ∧
      c.makeRoom later = .ok c' ∧ c'.WF ∧ c'.config = c.config ∧ c'.nodes = c.nodes ∧
      c'.map.size < c.map.size ∧ (∀ k r, c'.map.get? k = some r → c.map.get? k = some r) ∧
      (n ≠ 0 → c' = c1) ∧ (n = 0 → ∃ victim p k, CachePolicy.victim c1.policy = .ok (victim, p) ∧
        c1.map.get? k = some victim ∧ Keeps (fun m => m.key ≠ k) c1 c') := by
  obtain ⟨n, c1, hpurge, hwf1, hkeep, hsize, -⟩ := purgeExpired_spec h later
  refine ⟨n, c1, ?_⟩
  by_cases hn : n = 0
  · have hpos := c.config.capacity_pos
    have hne : c1.refs ≠ [] := by
      intro hnil
      have hlen := hwf1.core.length_refs
      rw [hnil, length_nil] at hlen
      omega
    obtain ⟨victim, p, k, c', hvictim, hk, hevict, hwf, hkeep', hsize'⟩ := evict_spec hwf1 hne
    refine ⟨c', hpurge, hwf1, hkeep, hsize, ?_, hwf, hkeep'.config.trans hkeep.config,
      hkeep'.nodes.trans hkeep.nodes, by omega,
      fun k r hr => hkeep.get?_some (hkeep'.get?_some hr), fun h0 => absurd hn h0,
      fun _ => ⟨victim, p, k, hvictim, hk, hkeep'⟩⟩
    simp only [makeRoom, hpurge, bind, Except.bind, if_pos hn, hevict]
  · refine ⟨c1, hpurge, hwf1, hkeep, hsize, ?_, hwf1, hkeep.config, hkeep.nodes, by omega,
      fun k r hr => hkeep.get?_some hr, fun _ => rfl, fun h0 => absurd h0 hn⟩
    simp only [makeRoom, hpurge, bind, Except.bind, if_neg hn]
    rfl

section

variable [Add T] {ttl : Option T}

omit [LawfulCachePolicy P] in
theorem put_invalid (h : ∃ t ∈ ttl, t ≤ 0) (key : K) (value : V) (now later : T) :
    c.put key value ttl now later = .error (.valueError "ttl must be positive") := by
  rw [put, if_pos h]

/-- The deadline `put` gives a node. -/
def deadline (c : BaseCache K V T P) (ttl : Option T) (now : T) : Option T :=
  (ttl.or c.config.defaultTtl).map (now + ·)

theorem put_held (h : c.WF) (hk : c.map.get? key = some r) (value : V) (httl : ¬ ∃ t ∈ ttl, t ≤ 0)
    (now later : T) :
    ∃ p c', CachePolicy.touch c.policy r = .ok p ∧ c.put key value ttl now later = .ok c' ∧
      c'.WF ∧ c'.config = c.config ∧ c'.map = c.map ∧ c'.policy = p ∧
      c'.nodes = c.nodes.write r (some ⟨key, value, c.deadline ttl now⟩) := by
  obtain ⟨n, hn, hkey, hnode, -⟩ := h.held hk
  have hr : r ∈ c.refs := h.core.mem_refs.mpr ⟨key, hk⟩
  obtain ⟨p, htouch, hok, hperm⟩ := LawfulCachePolicy.touch_ok h.core.ok hr
  obtain ⟨c1, hc1⟩ : ∃ c1 : BaseCache K V T P, c1 = { c with
      nodes := c.nodes.write r (some ⟨key, value, c.deadline ttl now⟩) } := ⟨_, rfl⟩
  have hread : ∀ r', c1.nodes.read r' =
      if r' = r then some ⟨key, value, c.deadline ttl now⟩ else c.nodes.read r' := by
    intro r'
    rw [hc1, read_write]
  have hcore : c1.Core := by
    refine ⟨hc1 ▸ h.core.ok, ?_, fun k r' hk' => ?_, fun k r' hk' => ?_, ?_⟩
    · rw [refs, hc1]
      exact h.core.refs
    · rw [hc1] at hk' ⊢
      exact h.core.allocated k r' hk'
    · rw [hc1] at hk'
      rw [hread]
      by_cases hr' : r' = r
      · rw [if_pos hr']
        exact ⟨_, rfl, h.core.key_inj hk (hr' ▸ hk')⟩
      · rw [if_neg hr']
        exact h.core.node k r' hk'
    · rw [hc1]
      exact h.core.size
  obtain ⟨heap, seq, hschedule, hcov⟩ := schedule_spec hcore key (by rw [hc1]; exact hk)
    (by rw [hc1]; exact h.covers.sorted)
    (fun e he => by
      rw [hread]
      split
      · rfl
      · rw [hc1] at he
        exact h.covers.entries e he)
    (fun k r' n' t hr' hk' hn' ht' => by
      rw [hread, if_neg hr'] at hn'
      rw [hc1] at hk' ⊢
      exact h.covers.covered k r' n' t hk' hn' ht')
  have hwf : WF { c1 with expiryHeap := heap, seq } :=
    ⟨⟨hcore.ok, hcore.refs, hcore.allocated, hcore.node, hcore.size⟩,
      ⟨hcov.sorted, hcov.entries, hcov.covered⟩⟩
  refine ⟨p, { c1 with expiryHeap := heap, seq, policy := p }, htouch, ?_,
    hwf.withPolicy hok (by rw [refs, hc1]; exact hperm), ?_, ?_, rfl, ?_⟩
  · rw [put, if_neg httl]
    simp only [hk, hnode, bind, Except.bind]
    rw [show ({ n with value, expiresAt := (ttl.or c.config.defaultTtl).map (now + ·) } :
      Node K V T) = ⟨key, value, c.deadline ttl now⟩ by rw [← hkey]; rfl, ← hc1, hschedule]
    simp only [hc1, htouch]
    rfl
  · rw [hc1]
  · rw [hc1]
  · rw [hc1]

theorem put_insert (hk : c.map.get? key = none) (value : V) (httl : ¬ ∃ t ∈ ttl, t ≤ 0)
    (now later : T) {c1 : BaseCache K V T P} (hroom : c.ensureRoom later = .ok c1) (h1 : c1.WF)
    (hconfig : c1.config = c.config) (hsub : ∀ k r, c1.map.get? k = some r → c.map.get? k = some r)
    (hsize : (c1.map.size : Int) < c1.config.capacity) :
    ∃ p c', CachePolicy.insert c1.policy c1.nodes.next = .ok p ∧
      c.put key value ttl now later = .ok c' ∧ c'.WF ∧ c'.config = c.config ∧
      c'.map = c1.map.set key c1.nodes.next ∧ c'.policy = p ∧
      c'.nodes = (c1.nodes.alloc (some ⟨key, value, c.deadline ttl now⟩)).2 := by
  have hk1 : c1.map.get? key = none := by
    cases hk' : c1.map.get? key with
    | none => rfl
    | some r => exact absurd (hk.symm.trans (hsub key r hk')) (by simp)
  have hfresh : c1.nodes.next ∉ c1.refs := by
    intro hm
    obtain ⟨k, hk'⟩ := h1.core.mem_refs.mp hm
    exact Nat.lt_irrefl _ (h1.core.allocated k _ hk')
  obtain ⟨p, hinsert, hok, hperm⟩ := LawfulCachePolicy.insert_ok h1.core.ok hfresh
  obtain ⟨c2, hc2⟩ : ∃ c2 : BaseCache K V T P, c2 = { c1 with
      nodes := (c1.nodes.alloc (some ⟨key, value, c.deadline ttl now⟩)).2,
      map := c1.map.set key c1.nodes.next, policy := p } := ⟨_, rfl⟩
  have hread : ∀ r, r ≠ c1.nodes.next → c2.nodes.read r = c1.nodes.read r := by
    intro r hr
    rw [hc2]
    exact read_alloc_of_ne _ _ hr
  have hnew : c2.nodes.read c1.nodes.next = some ⟨key, value, c.deadline ttl now⟩ := by
    rw [hc2]
    exact read_alloc_self _ _
  have hmap : ∀ k, c2.map.get? k = if k = key then some c1.nodes.next else c1.map.get? k := by
    intro k
    rw [hc2, get?_set]
  have hold : ∀ k r, k ≠ key → c2.map.get? k = some r →
      c1.map.get? k = some r ∧ r ≠ c1.nodes.next := by
    intro k r hne hk'
    rw [hmap, if_neg hne] at hk'
    exact ⟨hk', Nat.ne_of_lt (h1.core.allocated k r hk')⟩
  have hitems := set_items_of_get?_none c1.nodes.next hk1
  have hcore : c2.Core := by
    refine ⟨hc2 ▸ hok, ?_, fun k r hk' => ?_, fun k r hk' => ?_, ?_⟩
    · rw [refs, hc2]
      refine hperm.trans ?_
      rw [Dict.values, hitems, map_append]
      exact (h1.core.refs.cons _).trans (perm_append_singleton _ _).symm
    · rw [hc2]
      by_cases hne : k = key
      · rw [hmap, if_pos hne] at hk'
        cases hk'
        exact Nat.lt_succ_self _
      · exact Nat.lt_succ_of_lt (h1.core.allocated k r (hold k r hne hk').1)
    · by_cases hne : k = key
      · rw [hmap, if_pos hne] at hk'
        cases hk'
        exact ⟨_, hnew, hne.symm⟩
      · obtain ⟨hk1', hr⟩ := hold k r hne hk'
        rw [hread r hr]
        exact h1.core.node k r hk1'
    · rw [hc2]
      simp only [Dict.size, hitems, length_append, length_singleton] at hsize ⊢
      omega
  have hheap : c2.expiryHeap = c1.expiryHeap := by rw [hc2]
  obtain ⟨heap, seq, hschedule, hcov⟩ := schedule_spec hcore key
    (by rw [hmap, if_pos rfl]) (by rw [hheap]; exact h1.covers.sorted)
    (fun e he => by
      by_cases hr : entryNode e = c1.nodes.next
      · rw [hr, hnew]
        rfl
      · rw [hread _ hr]
        exact h1.covers.entries e (hheap ▸ he))
    (fun k r n t hr hk' hn ht => by
      have hne : k ≠ key := by
        rintro rfl
        rw [hmap, if_pos rfl] at hk'
        exact hr (some.inj hk').symm
      rw [hread r hr] at hn
      rw [hheap]
      exact h1.covers.covered k r n t (hold k r hne hk').1 hn ht)
  refine ⟨p, { c2 with expiryHeap := heap, seq }, hinsert, ?_,
    ⟨⟨hcore.ok, hcore.refs, hcore.allocated, hcore.node, hcore.size⟩,
      ⟨hcov.sorted, hcov.entries, hcov.covered⟩⟩, ?_, ?_, ?_, ?_⟩
  · rw [put, if_neg httl, ← hschedule, hc2]
    simp only [hk, hroom, bind, Except.bind, alloc_ref, hinsert]
    rfl
  · rw [hc2]
    exact hconfig
  · rw [hc2]
  · rw [hc2]
  · rw [hc2]

theorem put_spec (h : c.WF) (key : K) (value : V) (httl : ¬ ∃ t ∈ ttl, t ≤ 0) (now later : T) :
    ∃ c', c.put key value ttl now later = .ok c' ∧ c'.WF := by
  cases hk : c.map.get? key with
  | some =>
    obtain ⟨-, c', -, hput, hwf, -⟩ := put_held h hk value httl now later
    exact ⟨c', hput, hwf⟩
  | none =>
  by_cases hfull : c.config.capacity ≤ c.map.size
  · obtain ⟨-, -, c1, -, -, -, -, hroom, h1, hconfig, -, hless, hsub, -⟩ :=
      makeRoom_spec h hfull later
    have hsize := h.core.size
    obtain ⟨-, c', -, hput, hwf, -⟩ := put_insert hk value httl now later
      (by rw [ensureRoom, if_pos hfull, hroom]) h1 hconfig hsub (by rw [hconfig]; omega)
    exact ⟨c', hput, hwf⟩
  · obtain ⟨-, c', -, hput, hwf, -⟩ := put_insert hk value httl now later
      (by rw [ensureRoom, if_neg hfull]) h rfl (fun _ _ hr => hr) (not_le.mp hfull)
    exact ⟨c', hput, hwf⟩

end

end BaseCache

end InterviewPrep.LruCache
