/-
  The part of `Expire` and `Persist` that changes the deadline of an entry and moves it in the
  expiry heap: `heap.Fix` repairs the order at one position.  An `Expire` whose deadline comes out
  as the zero time leaves an entry in the heap that counts as one without a deadline
  (`Retimed.timed`).

  `putLocked`: the old entry of the key leaves without an event, the entries in the way are
  reclaimed, and the new entry joins all four structures.
-/
import InterviewPrep.KvStore.Removal

namespace InterviewPrep.KvStore

open Lib List

variable {V P : Type}

namespace Shard

/-- The deadline of the entry `r` is `t`, and nothing else has changed but the heap's order. -/
structure Retimed (sh : Shard V P) (r : Ref) (t : Time) (sh' : Shard V P) : Prop where
  maxCost : sh'.maxCost = sh.maxCost
  items : sh'.items = sh.items
  policy : sh'.policy = sh.policy
  cost : sh'.cost = sh.cost
  next : sh'.expiry.mem.next = sh.expiry.mem.next
  payload : ∀ r', (sh'.entry r').key = (sh.entry r').key ∧
    (sh'.entry r').value = (sh.entry r').value ∧
    (sh'.entry r').version = (sh.entry r').version ∧ (sh'.entry r').cost = (sh.entry r').cost
  deadline : (sh'.entry r).expiresAt = t
  others : ∀ r', r' ≠ r → (sh'.entry r').expiresAt = (sh.entry r').expiresAt ∧
    (r' ∈ sh'.expiry.slots ↔ r' ∈ sh.expiry.slots)

variable {sh sh' : Shard V P} {key k : String} {r : Ref} {t : Time}

section

variable (h : sh.Retimed r t sh')

include h

theorem Retimed.pair? : sh'.pair? = sh.pair? := by
  funext k
  rw [Shard.pair?, Shard.pair?, h.items]
  refine congrArg (Option.map · _) (funext fun r' => ?_)
  rw [(h.payload r').2.1, (h.payload r').2.2.1]

theorem Retimed.totalCost : sh'.totalCost = sh.totalCost :=
  costOf_congr (congrArg Dict.items h.items) fun r' => (h.payload r').2.2.2

theorem Retimed.bounded (hb : sh.Bounded) : sh'.Bounded := by
  refine ⟨fun k r' hk => ?_, h.totalCost ▸ hb.small, fun hpos => ?_⟩
  · rw [(h.payload r').2.2.2]
    exact hb.nonneg k r' (h.items ▸ hk)
  · rw [h.maxCost] at hpos ⊢
    exact h.totalCost ▸ hb.capacity hpos

theorem Retimed.timed (hslot : r ∈ sh'.expiry.slots ↔ t ≠ 0) (ht : sh.Timed) : sh'.Timed := by
  intro k r' hk
  by_cases hr : r' = r
  · rw [hr, h.deadline, hslot]
  · rw [(h.others r' hr).1, (h.others r' hr).2]
    exact ht k r' (h.items ▸ hk)

theorem Retimed.priced {cost : String → V → Int64} (hp : sh.Priced cost) : sh'.Priced cost := by
  intro k r' hk
  rw [(h.payload r').2.2.2, (h.payload r').2.1]
  exact hp k r' (h.items ▸ hk)

end

theorem entry_setExpiresAt (sh : Shard V P) (r r' : Ref) (t : Time) :
    (sh.setExpiresAt r t).entry r' =
      if r' = r then { sh.entry r with expiresAt := t } else sh.entry r' := rfl

variable [EvictionPolicy P] [LawfulEvictionPolicy P] {K : String → Prop}

theorem Retimed.wf (h : sh.Retimed r t sh') (hwf : sh.WF K) (hk : sh.items.get? k = some r)
    (hv : sh'.expiry.Valid)
    (hidx : ∀ r', r' ∉ sh'.expiry.slots → (r' ≠ r → (sh.entry r').heapIdx = -1) →
      (sh'.entry r').heapIdx = -1) : sh'.WF K := by
  refine ⟨fun k' r' hk' => ?_, h.policy ▸ hwf.policy_ok, ?_, hv, fun r' hr' => ?_,
    fun k' r' hk' hr' => hidx r' hr' fun hne => ?_, ?_⟩
  · rw [(h.payload r').1, h.next]
    exact hwf.entry k' r' (h.items ▸ hk')
  · rw [h.policy, h.items]
    exact hwf.policy_keys
  · rw [h.items]
    by_cases hr : r' = r
    · exact ⟨k, hr ▸ hk⟩
    · exact hwf.slots r' (((h.others r' hr).2).mp hr')
  · exact hwf.unslotted k' r' (h.items ▸ hk') fun hm => hr' (((h.others r' hne).2).mpr hm)
  · rw [h.cost, h.totalCost]
    exact hwf.cost

theorem reschedule_spec (h : sh.WF K) (hk : sh.items.get? k = some r) (t : Time) :
    ∃ sh', (sh.setExpiresAt r t).reschedule r = .ok sh' ∧ sh'.WF K ∧ sh.Retimed r t sh' ∧
      r ∈ sh'.expiry.slots := by
  set h1 := (sh.setExpiresAt r t).expiry with hh1
  have hself : h1.mem.read r = { sh.entry r with expiresAt := t } := Memory.read_write_self ..
  have hother : ∀ r', r' ≠ r → h1.mem.read r' = sh.entry r' :=
    fun r' hr' => Memory.read_write_of_ne _ _ hr'
  -- either way the heap is updated to the old references and `r`
  have key : ∀ h', h1.Updated (r :: sh.expiry.slots.erase r) h' →
      Shard.WF K { sh with expiry := h' } ∧ sh.Retimed r t { sh with expiry := h' } ∧
        r ∈ h'.slots := by
    intro h' hup
    obtain ⟨hnext, hstrip, hframe⟩ := ExpiryHeap.entries hup.written
    have hmem : r ∈ h'.slots := hup.perm.mem_iff.mpr (mem_cons_self ..)
    have hfields := fun r' => Entry.fields_of_strip (hstrip r')
    have hret : sh.Retimed r t { sh with expiry := h' } := by
      refine ⟨rfl, rfl, rfl, rfl, hnext, fun r' => ?_, ?_, fun r' hr' => ⟨?_, ?_⟩⟩
      · obtain ⟨hkey, hval, hver, -, hcost⟩ := hfields r'
        by_cases hr : r' = r
        · subst hr
          rw [hself] at hkey hval hver hcost
          exact ⟨hkey, hval, hver, hcost⟩
        · rw [hother r' hr] at hkey hval hver hcost
          exact ⟨hkey, hval, hver, hcost⟩
      · exact (hfields r).2.2.2.1.trans (congrArg Entry.expiresAt hself)
      · exact (hfields r').2.2.2.1.trans (congrArg Entry.expiresAt (hother r' hr'))
      · show r' ∈ h'.slots ↔ r' ∈ sh.expiry.slots
        rw [hup.perm.mem_iff, mem_cons, h.heap.indexed.nodup.mem_erase_iff]
        exact ⟨fun hm => (hm.resolve_left hr').2, fun hm => Or.inr ⟨hr', hm⟩⟩
    refine ⟨hret.wf h hk hup.valid fun r' hr' hidx => ?_, hret, hmem⟩
    have hne : r' ≠ r := fun e => hr' (e ▸ hmem)
    have hold : r' ∉ sh.expiry.slots := fun hm => hr' (((hret.others r' hne).2).mpr hm)
    have hout := hframe r' (not_or.mpr ⟨hold, fun hm => hr' (hup.perm.mem_iff.mpr hm)⟩)
    exact (congrArg Entry.heapIdx (hout.trans (hother r' hne))).trans (hidx hne)
  have hidx : ∀ r', ((sh.setExpiresAt r t).entry r').heapIdx = (sh.entry r').heapIdx := by
    intro r'
    rw [entry_setExpiresAt]
    split
    next heq => rw [heq]
    next => rfl
  unfold reschedule
  by_cases hr : r ∈ sh.expiry.slots
  · obtain ⟨i, hi, hat⟩ := IndexedHeap.mem_slots.mp hr
    have hpos : (sh.entry r).heapIdx = i := hat ▸ h.heap.indexed.idx i hi
    have hup : h1.Updated sh.expiry.slots (h1.fix i) := by
      refine IndexedHeap.fix_spec ExpiryHeap.lawful h.heap hi (fun r' _ hne => ?_) fun r' _ =>
        hidx r'
      exact congrArg Entry.expiresAt (hother r' fun e => hne (e.trans hat.symm))
    obtain ⟨hwf, hret, hmem⟩ := key (h1.fix i) ⟨hup.valid,
      hup.perm.trans (perm_cons_erase hr), hup.written.mono fun _ hm => .inl (or_self_iff.mp hm)⟩
    refine ⟨_, ?_, hwf, hret, hmem⟩
    rw [hidx, hpos, if_pos (Int.natCast_nonneg i), heapFix, Int.toNat_natCast]
    exact if_pos hi
  · have hneg := h.unslotted k r hk hr
    have hv1 : h1.Valid := ExpiryHeap.withMem h.heap fun r' hr' => hother r' fun e => hr (e ▸ hr')
    have hup := IndexedHeap.push_spec ExpiryHeap.lawful hv1 hr
    obtain ⟨hwf, hret, hmem⟩ := key (h1.push r) (by rwa [erase_of_not_mem hr])
    refine ⟨_, ?_, hwf, hret, hmem⟩
    rw [hidx, hneg]
    rfl

theorem persist_spec (h : sh.WF K) (hk : sh.items.get? k = some r) :
    ∃ sh', sh.unschedule r = .ok sh' ∧ (sh'.setExpiresAt r 0).WF K ∧
      sh.Retimed r 0 (sh'.setExpiresAt r 0) ∧ r ∉ (sh'.setExpiresAt r 0).expiry.slots := by
  obtain ⟨h', hrun, hout⟩ := unschedule_spec h.heap (h.unslotted k r hk)
  have hout' : r ∉ h'.slots := fun hm => ((hout.mem r).mp hm).2 rfl
  have hfields := fun r' => Entry.fields_of_strip (hout.strip r')
  set sh' : Shard V P := { sh with expiry := h' } with hsh'
  have hret : sh.Retimed r 0 (sh'.setExpiresAt r 0) := by
    refine ⟨rfl, rfl, rfl, rfl, hout.next, fun r' => ?_, ?_, fun r' hr' => ⟨?_, ?_⟩⟩
    · obtain ⟨hkey, hval, hver, -, hcost⟩ := hfields r'
      rw [entry_setExpiresAt]
      split
      next hr => subst hr; exact ⟨hkey, hval, hver, hcost⟩
      next => exact ⟨hkey, hval, hver, hcost⟩
    · rw [entry_setExpiresAt, if_pos rfl]
    · rw [entry_setExpiresAt, if_neg hr']
      exact (hfields r').2.2.2.1
    · exact (hout.mem r').trans ⟨fun hm => hm.1, fun hm => ⟨hm, hr'⟩⟩
  have hv : (sh'.setExpiresAt r 0).expiry.Valid :=
    ExpiryHeap.withMem hout.valid fun r' hr' => Memory.read_write_of_ne _ _ fun e => hout' (e ▸ hr')
  refine ⟨sh', hrun, hret.wf h hk hv fun r' hr' hidx => ?_, hret, hout'⟩
  rw [entry_setExpiresAt]
  split
  next => exact hout.idx
  next hne =>
    have hold : r' ∉ sh.expiry.slots := fun hm => hr' ((hout.mem r').mpr ⟨hm, hne⟩)
    exact (congrArg Entry.heapIdx (hout.frame r' hold)).trans (hidx hne)

end Shard

open Dict Function Option

variable {V P : Type}

namespace Shard

variable [EvictionPolicy P] [LawfulEvictionPolicy P] {K : String → Prop}
  {s s' : Store V P} {sh sh' : Shard V P} {key k : String} {r : Ref} {t : Time}

theorem WF.slot_lt (h : sh.WF K) (hr : r ∈ sh.expiry.slots) : r < sh.expiry.mem.next := by
  obtain ⟨k, hk⟩ := h.slots r hr
  exact (h.entry k r hk).2.1

/-! ## insertLocked -/

/-- The shard has one more entry, the new object `e`. -/
structure Inserted (sh : Shard V P) (e : Entry V) (sh' : Shard V P) : Prop where
  maxCost : sh'.maxCost = sh.maxCost
  items : sh'.items = sh.items.set e.key sh.expiry.mem.next
  entry : (sh'.entry sh.expiry.mem.next).strip = e.strip
  slot : sh.expiry.mem.next ∈ sh'.expiry.slots ↔ e.expiresAt ≠ 0
  strip : ∀ r, r < sh.expiry.mem.next → (sh'.entry r).strip = (sh.entry r).strip
  slots : ∀ r, r < sh.expiry.mem.next → (r ∈ sh'.expiry.slots ↔ r ∈ sh.expiry.slots)

omit [EvictionPolicy P] [LawfulEvictionPolicy P] in
theorem Inserted.totalCost {e : Entry V} (hi : sh.Inserted e sh')
    (hlt : ∀ k r, sh.items.get? k = some r → r < sh.expiry.mem.next)
    (hk : sh.items.get? e.key = none) : sh'.totalCost = sh.totalCost + e.cost.toInt := by
  unfold Shard.totalCost
  rw [hi.items, costOf_set, (Entry.fields_of_strip hi.entry).2.2.2.2, Int.add_comm]
  unfold costOf
  rw [Dict.values, erase_eq_of_get?_none hk, ← Dict.values]
  refine congrArg (· + e.cost.toInt) (congrArg List.sum (map_congr_left fun r hr => ?_))
  obtain ⟨x, hx, rfl⟩ := List.mem_map.mp hr
  rw [(Entry.fields_of_strip (hi.strip x.2 (hlt x.1 x.2 (mem_items_iff.mp hx)))).2.2.2.2]

theorem insertLocked_spec (s : Store V P) (h : sh.WF K) (hk : sh.items.get? key = none)
    (hK : K key) (v : V) (t : Time) (version : UInt64) (cost : Int64) :
    ∃ sh', s.insertLocked sh key v t version cost =
        .ok (s.publish { type := .set, key, value := v, version }, sh') ∧
      sh'.WF K ∧ sh.Inserted
        { key, value := v, version, expiresAt := t, cost, heapIdx := -1 } sh' := by
  set e : Entry V := { key, value := v, version, expiresAt := t, cost, heapIdx := -1 } with he
  set r := sh.expiry.mem.next with hr
  set h1 : ExpiryHeap V := { sh.expiry with mem := (sh.expiry.mem.alloc e).2 } with hh1
  have hread : ∀ r', r' < r → h1.mem.read r' = sh.expiry.mem.read r' :=
    fun r' hr' => Memory.read_alloc_of_ne _ _ (Nat.ne_of_lt hr')
  have hself : h1.mem.read r = e := Memory.read_alloc_self _ _
  have hrn : r ∉ sh.expiry.slots := fun hm => Nat.lt_irrefl r (h.slot_lt hm)
  have hv1 : h1.Valid := ExpiryHeap.withMem h.heap fun r' hr' => hread r' (h.slot_lt hr')
  -- the heap with the entry pushed, if it has a deadline
  obtain ⟨h', hh', hv', hnext, hstrip, hslots, hframe⟩ : ∃ h' : ExpiryHeap V,
      (if t ≠ 0 then h1.push r else h1) = h' ∧ h'.Valid ∧ h'.mem.next = r + 1 ∧
        (∀ r', (h'.mem.read r').strip = (h1.mem.read r').strip) ∧
        (∀ r', r' ∈ h'.slots ↔ r' ∈ sh.expiry.slots ∨ (r' = r ∧ t ≠ 0)) ∧
        ∀ r', r' ∉ h'.slots → h'.mem.read r' = h1.mem.read r' := by
    by_cases ht : t = 0
    · refine ⟨h1, if_neg (not_not.mpr ht), hv1, rfl, fun _ => rfl, fun r' => ?_, fun _ _ => rfl⟩
      exact ⟨Or.inl, fun hm => hm.resolve_right fun hm => hm.2 ht⟩
    · have hup := IndexedHeap.push_spec ExpiryHeap.lawful hv1 hrn
      obtain ⟨hnext, hstrip, hframe⟩ := ExpiryHeap.entries hup.written
      refine ⟨h1.push r, if_pos ht, hup.valid, hnext, hstrip, fun r' => ?_, fun r' hr' => ?_⟩
      · rw [hup.perm.mem_iff, mem_cons, or_comm]
        exact or_congr_right ⟨fun hm => ⟨hm, ht⟩, fun hm => hm.1⟩
      · rw [hup.perm.mem_iff] at hr'
        exact hframe r' (not_or.mpr ⟨fun hm => hr' (mem_cons_of_mem _ hm), hr'⟩)
  obtain ⟨p', hpol, hok, hperm⟩ := LawfulEvictionPolicy.onInsert_ok h.policy_ok (k := key)
    fun hm => Dict.get?_eq_none.mp hk (h.policy_keys.mem_iff.mp hm)
  set sh' : Shard V P := { sh with
    expiry := h', items := sh.items.set key r, cost := sh.cost + cost, policy := p' } with hsh'
  have hold : ∀ k' r', sh.items.get? k' = some r' → r' < r := fun k' r' hk' =>
    (h.entry k' r' hk').2.1
  have hins : sh.Inserted e sh' := by
    refine ⟨rfl, rfl, (hstrip r).trans (congrArg Entry.strip hself), ?_, fun r' hr' => ?_,
      fun r' hr' => ?_⟩
    · exact (hslots r).trans ⟨fun hm => (hm.resolve_left hrn).2, fun ht => Or.inr ⟨rfl, ht⟩⟩
    · exact (hstrip r').trans (congrArg Entry.strip (hread r' hr'))
    · exact (hslots r').trans ⟨fun hm => hm.resolve_right fun hm => Nat.ne_of_lt hr' hm.1, Or.inl⟩
  refine ⟨sh', ?_, ⟨fun k' r' hk' => ?_, hok, ?_, hv', fun r' hr' => ?_,
    fun k' r' hk' hr' => ?_, ?_⟩,
    hins⟩
  · simp only [Store.insertLocked, hpol, bind, Except.bind, pure, Except.pure]
    rw [hsh', ← hh']
    rfl
  · show (sh'.entry r').key = k' ∧ r' < h'.mem.next ∧ K k'
    rw [hnext]
    have hk'' : (sh.items.set key r).get? k' = some r' := hk'
    rw [get?_set] at hk''
    split at hk''
    next hkk =>
      cases hk''
      refine ⟨(Entry.fields_of_strip hins.entry).1.trans hkk.symm, Nat.lt_succ_self r, hkk ▸ hK⟩
    next =>
      obtain ⟨hkey, hlt, hK'⟩ := h.entry k' r' hk''
      exact ⟨(Entry.fields_of_strip (hins.strip r' hlt)).1.trans hkey, Nat.lt_succ_of_lt hlt, hK'⟩
  · have hkeys : (sh.items.set key r).keys = sh.items.keys ++ [key] := by
      rw [Dict.keys, set_items_of_get?_none _ hk, map_append]
      rfl
    rw [hkeys]
    exact (hperm.trans (h.policy_keys.cons key)).trans (perm_append_singleton ..).symm
  · rcases (hslots r').mp hr' with hm | ⟨rfl, -⟩
    · obtain ⟨k', hk'⟩ := h.slots r' hm
      refine ⟨k', (get?_set_of_ne _ _ fun e => ?_).trans hk'⟩
      rw [e, hk] at hk'
      cases hk'
    · exact ⟨key, get?_set_self ..⟩
  · have hk'' : (sh.items.set key r).get? k' = some r' := hk'
    refine (congrArg Entry.heapIdx (hframe r' hr')).trans ?_
    rw [get?_set] at hk''
    split at hk''
    next =>
      cases hk''
      rw [hself]
    next =>
      rw [hread r' (hold k' r' hk'')]
      exact h.unslotted k' r' hk'' fun hm => hr' ((hslots r').mpr (Or.inl hm))
  · show sh.cost + cost = Int64.ofInt sh'.totalCost
    rw [hins.totalCost hold hk, Int64.ofInt_add, Int64.ofInt_toInt, ← h.cost]

section

variable {e : Entry V}

section

variable (hi : sh.Inserted e sh')

include hi

theorem Inserted.get? (h : sh.WF K) (hk : sh'.items.get? k = some r) :
    (k = e.key ∧ r = sh.expiry.mem.next) ∨
      (k ≠ e.key ∧ sh.items.get? k = some r ∧ r < sh.expiry.mem.next) := by
  rw [hi.items, get?_set] at hk
  split at hk
  next hkk => exact Or.inl ⟨hkk, (some.inj hk).symm⟩
  next hkk => exact Or.inr ⟨hkk, hk, (h.entry k r hk).2.1⟩

theorem Inserted.pair? (h : sh.WF K) :
    sh'.pair? = Function.update sh.pair? e.key (some (e.value, e.version)) := by
  funext k
  by_cases hk : k = e.key
  · obtain ⟨-, hval, hver, -⟩ := Entry.fields_of_strip hi.entry
    rw [hk, update_self, Shard.pair?, hi.items, get?_set_self, map_some, hval,
      hver]
  · rw [update_of_ne hk, Shard.pair?, Shard.pair?, hi.items, get?_set_of_ne _ _ hk]
    cases hr : sh.items.get? k with
    | none => rfl
    | some r =>
      obtain ⟨-, hval, hver, -⟩ := Entry.fields_of_strip (hi.strip r (h.entry k r hr).2.1)
      rw [map_some, map_some, hval, hver]

theorem Inserted.timed (h : sh.WF K) (ht : sh.Timed) : sh'.Timed := by
  intro k r hk
  rcases hi.get? h hk with ⟨-, rfl⟩ | ⟨-, hold, hlt⟩
  · rw [hi.slot, (Entry.fields_of_strip hi.entry).2.2.2.1]
  · rw [hi.slots r hlt, ht k r hold, (Entry.fields_of_strip (hi.strip r hlt)).2.2.2.1]

theorem Inserted.priced (h : sh.WF K) {cost : String → V → Int64}
    (hcost : e.cost = cost e.key e.value) (hp : sh.Priced cost) : sh'.Priced cost := by
  intro k r hk
  rcases hi.get? h hk with ⟨rfl, rfl⟩ | ⟨-, hold, hlt⟩
  · obtain ⟨-, hval, -, -, hc⟩ := Entry.fields_of_strip hi.entry
    rw [hc, hval, hcost]
  · obtain ⟨-, hval, -, -, hc⟩ := Entry.fields_of_strip (hi.strip r hlt)
    rw [hc, hval]
    exact hp k r hold

theorem Inserted.bounded (h : sh.WF K) (hk : sh.items.get? e.key = none)
    (hb : sh.Bounded) (hcost : 0 ≤ e.cost.toInt) (hsmall : sh.totalCost + e.cost.toInt < 2 ^ 63)
    (hcap : 0 < sh.maxCost → sh.totalCost + e.cost.toInt ≤ sh.maxCost.toInt) : sh'.Bounded := by
  have htotal := hi.totalCost (fun k r hk => (h.entry k r hk).2.1) hk
  refine ⟨fun k r hk' => ?_, by omega, fun hpos => ?_⟩
  · rcases hi.get? h hk' with ⟨-, rfl⟩ | ⟨-, hold, hlt⟩
    · rwa [(Entry.fields_of_strip hi.entry).2.2.2.2]
    · rw [(Entry.fields_of_strip (hi.strip r hlt)).2.2.2.2]
      exact hb.nonneg k r hold
  · rw [hi.maxCost] at hpos ⊢
    have := hcap hpos
    omega

end

end

end Shard

/-! ## putLocked -/

variable [EvictionPolicy P] [LawfulEvictionPolicy P] {K : String → Prop}
  {s : Store V P} {sh : Shard V P} {key : String} {v : V} {t now : Time} {version : UInt64}

/-- The event of a write. -/
def setEvent (key : String) (v : V) (version : UInt64) : Event V :=
  { type := .set, key, value := v, version }

/-- The write is rejected by the shard. -/
def Store.tooLarge (s : Store V P) (sh : Shard V P) (key : String) (v : V) : Prop :=
  sh.maxCost > 0 ∧ s.cost key v > sh.maxCost

/-- The entry is written; entries that were in its way are reclaimed first. -/
structure Put (K : String → Prop) (s : Store V P) (sh : Shard V P) (key : String) (v : V)
    (version : UInt64) (evs : List (Event V)) (s' : Store V P) (sh' : Shard V P) : Prop where
  published : s.Published (evs ++ [setEvent key v version]) s'
  wf : sh'.WF K
  maxCost : sh'.maxCost = sh.maxCost
  pairs : sh'.pair? = contentsAfter (evs ++ [setEvent key v version]) sh.pair?
  events : ∀ ev ∈ evs, ev.type ≠ .set ∧ K ev.key
  timed : sh.Timed → sh'.Timed
  priced : sh.Priced s.cost → sh'.Priced s.cost
  bounded : sh.Bounded → 0 ≤ (s.cost key v).toInt →
    sh.costBeside key + (s.cost key v).toInt < 2 ^ 63 → sh'.Bounded
  total : sh.Bounded → sh'.totalCost ≤ sh.costBeside key + (s.cost key v).toInt

theorem capacity_of_not_overfull {cost : Int64} (h : sh.WF K) (hb : sh.Bounded)
    (h0 : 0 ≤ cost.toInt) (hsmall : sh.totalCost + cost.toInt < 2 ^ 63)
    (hfits : Store.overfull sh cost = false) (hpos : 0 < sh.maxCost) :
    sh.totalCost + cost.toInt ≤ sh.maxCost.toInt := by
  have hn := Shard.costOf_nonneg hb.nonneg
  have hsum : sh.cost + cost = Int64.ofInt (sh.totalCost + cost.toInt) := by
    rw [Int64.ofInt_add, Int64.ofInt_toInt, h.cost]
  have hle : ¬ sh.maxCost < sh.cost + cost := by
    intro hlt
    rw [Store.overfull, Bool.and_eq_false_iff, decide_eq_false_iff_not,
      decide_eq_false_iff_not] at hfits
    exact hfits.elim (fun h => h hpos) fun h => h hlt
  have hnonneg : 0 ≤ sh.totalCost + cost.toInt := Int.add_nonneg hn h0
  rw [Int64.lt_iff_toInt_lt, hsum, Int64.toInt_ofInt_of_le (le_trans (by decide) hnonneg) hsmall]
    at hle
  omega

omit [LawfulEvictionPolicy P] in
theorem putLocked_rejected (h : s.tooLarge sh key v) :
    s.putLocked sh key v t version now = .ok (.error .tooLarge, s, sh) := if_pos h

theorem putLocked_spec (t : Time) (version : UInt64) (now : Time) (h : sh.WF K) (hK : K key)
    (hfit : ¬ s.tooLarge sh key v) :
    ∃ evs s' sh', s.putLocked sh key v t version now = .ok (.ok (), s', sh') ∧
      Put K s sh key v version evs s' sh' := by
  -- the old entry leaves without an event
  obtain ⟨sh1, hrun1, hwf1, hkept1, hitems1⟩ : ∃ sh1, Store.removeOld sh key = .ok sh1 ∧
      sh1.WF K ∧ sh.Kept sh1 ∧ sh1.items = sh.items.erase key := by
    unfold Store.removeOld
    cases hk : sh.items.get? key with
    | none => exact ⟨sh, rfl, h, .refl sh, (Dict.ext (erase_eq_of_get?_none hk)).symm⟩
    | some => exact Shard.removeLocked_spec h hk
  obtain ⟨evs2, s2, sh2, hrun2, hrec2⟩ : ∃ evs2 s2 sh2,
      s.reclaimDead sh1 (s.cost key v) now = .ok (s2, sh2) ∧ Reclaims K s sh1 evs2 s2 sh2 := by
    unfold Store.reclaimDead
    by_cases hover : Store.overfull sh1 (s.cost key v) = true
    · obtain ⟨evs, m, s2, sh2, hrun, hrec⟩ := purgeExpiredLocked_spec s hwf1 now
      refine ⟨evs, s2, sh2, ?_, hrec⟩
      simp only [if_pos hover, hrun, bind, Except.bind, pure, Except.pure]
    · exact ⟨[], s, sh1, if_neg hover, .refl s hwf1⟩
  obtain ⟨evs3, s3, sh3, hrun3, hrec3, hend⟩ := evictLoop_spec (s.cost key v) _ s2 hrec2.wf
    (Nat.lt_succ_self sh2.items.size)
  have hrec := hrec2.trans hrec3
  have hkept : sh.Kept sh3 := hkept1.trans hrec.kept
  have hnone : sh3.items.get? key = none := hrec.kept.get?_none (by
    rw [hitems1, get?_erase_self])
  obtain ⟨sh4, hrun4, hwf4, hins⟩ := Shard.insertLocked_spec s3 hrec.wf hnone hK v t version
    (s.cost key v)
  have hbeside : sh.Bounded → sh3.totalCost ≤ sh.costBeside key := by
    intro hb
    have hle := hrec.kept.totalCost_le (hkept1.bounded hb)
    rwa [show sh1.totalCost = sh.costBeside key by
      rw [Shard.totalCost, hitems1, hkept1.costOf]; rfl] at hle
  refine ⟨evs2 ++ evs3, _, sh4, ?_, hrec.published.trans (Store.publish_published ..), hwf4,
    hins.maxCost.trans hkept.maxCost, ?_, hrec.events,
    fun ht => hins.timed hrec.wf (hkept.timed ht),
    fun hp => hins.priced hrec.wf rfl (hkept.priced hp), fun hb h0 hsmall => ?_, fun hb => ?_⟩
  · refine (if_neg hfit).trans ?_
    simp only [hrun1, hrun2, hrun3, hrun4, bind, Except.bind, pure, Except.pure]
    rfl
  · rw [hins.pair? hrec.wf, hrec.pairs, contentsAfter_append (evs2 ++ evs3),
      pair?_erase hkept1 hitems1]
    funext k
    show _ = Function.update (contentsAfter (evs2 ++ evs3) sh.pair?) key (some (v, version)) k
    by_cases hk : k = key
    · rw [hk, update_self, update_self]
    · rw [update_of_ne hk, update_of_ne hk]
      exact UpdateLog.replay_congr _ (update_of_ne hk _ _)
  · have hb3 := hkept.bounded hb
    have hle := hbeside hb
    have hsmall3 : sh3.totalCost + (s.cost key v).toInt < 2 ^ 63 := by omega
    refine hins.bounded hrec.wf hnone hb3 h0 hsmall3 fun hpos => ?_
    rcases hend with hfits | hempty
    · exact capacity_of_not_overfull hrec.wf hb3 h0 hsmall3 hfits hpos
    have hzero : sh3.totalCost = 0 := by
      rw [Shard.totalCost, Shard.costOf, Dict.values, hempty, map_nil, map_nil,
        sum_nil]
    have hcost : ¬ s.cost key v > sh.maxCost := fun hgt => hfit ⟨hkept.maxCost ▸ hpos, hgt⟩
    rw [gt_iff_lt, Int64.lt_iff_toInt_lt, ← hkept.maxCost] at hcost
    show sh3.totalCost + (s.cost key v).toInt ≤ sh3.maxCost.toInt
    omega
  · have hle := hbeside hb
    have htotal := hins.totalCost (fun k r hk => (hrec.wf.entry k r hk).2.1) hnone
    have hcost : sh4.totalCost = sh3.totalCost + (s.cost key v).toInt := htotal
    omega

end InterviewPrep.KvStore
