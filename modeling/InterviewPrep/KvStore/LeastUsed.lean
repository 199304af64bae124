/-
  What the LFU policy of kv_store.go evicts: the key used least often and, among those, the
  one used longest ago (`run_victim`).

  Each bucket lists its keys from the latest use to the oldest, and `minFreq` stays at or
  below every frequency, which is all that `Victim` needs to repair it (`Counts`).
-/
import InterviewPrep.KvStore.Policy
import InterviewPrep.Lib.Run
import InterviewPrep.Lib.UseCounts

namespace InterviewPrep.KvStore

open Lib Dict List Option Uses

inductive LfuCall where
  | onInsert (key : String)
  | onAccess (key : String)
  | onRemove (key : String)
  | victim

/-- The tracked keys, each with one plus the number of its accesses since it was inserted. -/
def usesAfter (l : Uses String) : LfuCall → Uses String
  | .onInsert key => l.use key 1
  | .onAccess key => if l.count key = 0 then l else l.use key (l.count key + 1)
  | .onRemove key => l.forget key
  | .victim => l

/-- Every inserted key is untracked at the time. -/
def Fresh : Uses String → List LfuCall → Prop
  | _, [] => True
  | l, call :: calls => (∀ k, call = .onInsert k → l.count k = 0) ∧ Fresh (usesAfter l call) calls

namespace LFU

variable {p p' : LFU} {l : Uses String} {k : String} {e : Element LfuNode} {f : Int}

/-- One call, with the victim that `Victim` reports. -/
def step (p : LFU) : LfuCall → Except GoPanic (Option (Option String) × LFU)
  | .onInsert key => .ok (none, p.onInsert key)
  | .onAccess key => do return (none, ← p.onAccess key)
  | .onRemove key => do return (none, ← p.onRemove key)
  | .victim => do
      let (v, p) ← p.victim
      return (some v, p)

/-- The keys of a frequency, the latest use first. -/
def keysAt (p : LFU) (f : Int) : List String := (p.bucket f).elems.map (·.value.key)

/-- The policy's structure agrees with the uses. -/
structure Counts (p : LFU) (l : Uses String) : Prop where
  ok : p.Ok
  keysAt : ∀ f, p.keysAt f = l.times f
  least : ∀ x ∈ l, p.minFreq ≤ x.2

/-! ## The buckets -/

theorem keysAt_push (n : LfuNode) (f : Int) :
    (p.push n).keysAt f = if f = n.freq then n.key :: p.keysAt f else p.keysAt f := by
  simp only [keysAt, bucket, LFU.push, get?_set]
  split
  case isTrue h => rw [h]; rfl
  case isFalse => rfl

theorem mem_bucket (he : e ∈ (p.bucket f).elems) :
    ∃ b, p.buckets.get? f = some b ∧ e ∈ b.elems := by
  unfold bucket at he
  cases hb : p.buckets.get? f with
  | none => rw [hb] at he; cases he
  | some b => rw [hb] at he; exact ⟨b, rfl, he⟩

theorem Ok.keysAt_unlink (h : p.Ok) (he : p.idx.get? k = some e) :
    ∃ p', p.unlink e = .ok p' ∧ p'.idx = p.idx ∧ p'.minFreq = p.minFreq ∧
      Ok { p' with idx := p.idx.erase k } ∧ ∀ f, p'.keysAt f = (p.keysAt f).filter (· ≠ k) := by
  obtain ⟨p', hun, hidx, hok⟩ := h.unlink he
  obtain ⟨hkey, b, hb, hmem⟩ := h.idx k e he
  -- only `e` has the key
  have hsame : ∀ f x, x ∈ (p.bucket f).elems → (x.value.key = k ↔ x = e) := by
    intro f x hx
    obtain ⟨c, hc, hx⟩ := mem_bucket hx
    refine ⟨fun hxk => ?_, fun hxe => hxe ▸ hkey⟩
    have hxi := (h.elem f c x hc hx).2.2
    rw [hxk, he] at hxi
    exact (some.inj hxi).symm
  have hbucket : p.bucket e.value.freq = b := by rw [bucket, hb]; rfl
  have hcut : (b.remove e).elems.map (·.value.key) = (p.keysAt e.value.freq).filter (· ≠ k) := by
    rw [LFU.keysAt, hbucket, List.filter_map, LinkedList.remove]
    refine congrArg _ (filter_congr fun x hx => ?_)
    have hid : x.id = e.id ↔ x.value.key = k := by
      rw [hsame e.value.freq x (hbucket ▸ hx)]
      exact ⟨(h.filled _ b hb).2.2.eq_of_id hmem hx, fun hxe => hxe ▸ rfl⟩
    simp [hid]
  rw [LFU.unlink, hb] at hun
  obtain rfl := Except.ok.inj hun
  refine ⟨_, by rw [LFU.unlink, hb], hidx, rfl, hok, fun f => ?_⟩
  by_cases hf : f = e.value.freq
  · subst hf
    rw [← hcut, LFU.keysAt, bucket]
    split
    case isTrue hlen =>
      rw [get?_erase_self, length_eq_zero_iff.mp hlen]
      rfl
    case isFalse => rw [get?_set_self]; rfl
  have hkeep : (p.keysAt f).filter (· ≠ k) = p.keysAt f := by
    refine filter_eq_self.mpr fun key hkey => ?_
    obtain ⟨x, hx, rfl⟩ := List.mem_map.mp hkey
    obtain ⟨c, hc, hxc⟩ := mem_bucket hx
    refine decide_eq_true fun hxk => hf ?_
    rw [← (hsame f x hx).mp hxk]
    exact (h.elem f c x hc hxc).1.symm
  rw [hkeep, LFU.keysAt, LFU.keysAt, bucket, bucket]
  split
  case isTrue => rw [get?_erase_of_ne _ hf]
  case isFalse => rw [get?_set_of_ne _ _ hf]

/-! ## One call -/

section

variable (h : p.Counts l)

include h

theorem Counts.mem (hk : (k, f) ∈ l) :
    ∃ e b, p.idx.get? k = some e ∧ e.value.freq = f ∧ p.buckets.get? f = some b ∧ e ∈ b.elems := by
  rw [← mem_times, ← h.keysAt] at hk
  obtain ⟨e, he, rfl⟩ := List.mem_map.mp hk
  obtain ⟨b, hb, heb⟩ := mem_bucket he
  obtain ⟨hf, -, hidx⟩ := h.ok.elem f b e hb heb
  exact ⟨e, b, hidx, hf, hb, heb⟩

theorem Counts.tracked (he : p.idx.get? k = some e) : (k, e.value.freq) ∈ l := by
  obtain ⟨hkey, b, hb, hmem⟩ := h.ok.idx k e he
  rw [← mem_times, ← h.keysAt, LFU.keysAt, bucket, hb]
  exact List.mem_map.mpr ⟨e, hmem, hkey⟩

theorem Counts.count (he : p.idx.get? k = some e) : l.count k = e.value.freq := by
  refine count_eq (mem_times.mpr (h.tracked he)) fun m hm => ?_
  obtain ⟨e', -, he', hfreq, -⟩ := h.mem (mem_times.mp hm)
  rw [he] at he'
  rw [← hfreq, some.inj he']

theorem Counts.count_zero : l.count k = 0 ↔ p.idx.get? k = none := by
  constructor
  · intro hzero
    by_contra hne
    obtain ⟨e, he⟩ := ne_none_iff_exists'.mp hne
    obtain ⟨-, b, hb, -⟩ := h.ok.idx k e he
    have hpos := (h.ok.filled _ b hb).1
    rw [h.count he] at hzero
    omega
  · intro hnone
    refine Uses.count_eq_zero fun m hm => ?_
    obtain ⟨e, -, he, -⟩ := h.mem (mem_times.mp hm)
    rw [hnone] at he
    cases he

theorem Counts.push (hk : p.idx.get? k = none) {m : Int} (hf : 0 < f) (hm : m ≤ f)
    (hleast : ∀ x ∈ l, m ≤ x.2) : Counts { p.push ⟨k, f⟩ with minFreq := m } (l.use k f) where
  ok := (h.ok.push hf hk).withMinFreq m
  keysAt g := by
    have hkeep : (l.times g).filter (· ≠ k) = l.times g := by
      refine filter_eq_self.mpr fun x hx => decide_eq_true ?_
      rintro rfl
      obtain ⟨e, -, he, -⟩ := h.mem (mem_times.mp hx)
      rw [hk] at he
      cases he
    rw [times_use, hkeep, ← h.keysAt]
    exact keysAt_push _ _
  least x hx := by
    rcases mem_cons.mp hx with rfl | hx
    · exact hm
    · exact hleast x (mem_filter.mp hx).1

theorem Counts.forget (he : p.idx.get? k = some e) :
    ∃ p', p.unlink e = .ok p' ∧ p'.idx = p.idx ∧ p'.minFreq = p.minFreq ∧
      Counts { p' with idx := p.idx.erase k } (l.forget k) := by
  obtain ⟨p', hun, hidx, hmin, hok, hkeys⟩ := h.ok.keysAt_unlink he
  refine ⟨p', hun, hidx, hmin, hok, fun f => ?_, fun x hx => ?_⟩
  · rw [times_forget, ← h.keysAt]
    exact hkeys f
  · exact hmin.trans_le (h.least x (mem_filter.mp hx).1)

theorem Counts.onRemove (k : String) : ∃ p', p.onRemove k = .ok p' ∧ p'.Counts (l.forget k) := by
  unfold LFU.onRemove
  cases he : p.idx.get? k with
  | none =>
    have hkeep : l.forget k = l := by
      refine filter_eq_self.mpr fun x hx => decide_eq_true ?_
      rintro rfl
      obtain ⟨e, -, he', -⟩ := h.mem hx
      rw [he] at he'
      cases he'
    exact ⟨p, rfl, hkeep.symm ▸ h⟩
  | some =>
    obtain ⟨p', hun, hidx, -, hcounts⟩ := h.forget he
    refine ⟨{ p' with idx := p'.idx.erase k }, ?_, hidx ▸ hcounts⟩
    simp only [hun, bind, Except.bind, pure, Except.pure]

theorem Counts.onAccess (k : String) :
    ∃ p', p.onAccess k = .ok p' ∧ p'.Counts (usesAfter l (.onAccess k)) := by
  cases he : p.idx.get? k with
  | none =>
    refine ⟨p, by rw [LFU.onAccess, he], ?_⟩
    rwa [usesAfter, if_pos (h.count_zero.mpr he)]
  | some e =>
  obtain ⟨hkey, b, hb, -⟩ := h.ok.idx k e he
  have hpos := (h.ok.filled _ b hb).1
  obtain ⟨p1, hun, hidx, hmin, hcounts⟩ := h.forget he
  have hself : p.minFreq ≤ e.value.freq := h.least _ (h.tracked he)
  obtain ⟨m, hm, hle, hleast⟩ : ∃ m, (if e.value.freq = p1.minFreq ∧
      (p1.buckets.get? e.value.freq).isNone then { p1 with minFreq := p1.minFreq + 1 } else p1)
        = { p1 with minFreq := m } ∧ m ≤ e.value.freq + 1 ∧ ∀ x ∈ l.forget k, m ≤ x.2 := by
    split
    next hcond =>
      refine ⟨p1.minFreq + 1, rfl, by omega, fun x hx => ?_⟩
      have hge := hcounts.least x hx
      -- the bucket is gone, so no key is left with the old count
      have hne : x.2 ≠ e.value.freq := by
        intro hx2
        obtain ⟨-, b', -, -, hb', -⟩ := hcounts.mem (hx2 ▸ hx : (x.1, e.value.freq) ∈ _)
        rw [show p1.buckets.get? e.value.freq = some b' from hb'] at hcond
        cases hcond.2
      have hge : p1.minFreq ≤ x.2 := hge
      omega
    next => exact ⟨p1.minFreq, rfl, by omega, hcounts.least⟩
  have hrun : p.onAccess k =
      .ok ({ p1 with minFreq := m }.push { e.value with freq := e.value.freq + 1 }) := by
    simp only [LFU.onAccess, he, hun, bind, Except.bind, pure, Except.pure]
    rw [hm]
  obtain ⟨p', hrun', hok, -⟩ := h.ok.onAccess k
  obtain rfl := Except.ok.inj (hrun.symm.trans hrun')
  have hcount := h.count he
  refine ⟨_, hrun, hok, fun f => ?_, fun x hx => ?_⟩
  · rw [usesAfter, if_neg (by omega), hcount, times_use, ← times_forget, ← hcounts.keysAt,
      keysAt_push, hkey]
    rfl
  · rw [usesAfter, if_neg (by omega), hcount] at hx
    rcases mem_cons.mp hx with rfl | hx
    · exact hle
    · exact hleast x hx

end

/-! ## The victim -/

theorem leastFreq_le (hpos : ∀ f ∈ p.buckets.keys, 0 < f) :
    ∀ f ∈ p.buckets.keys, p.leastFreq ≤ f := by
  have key : ∀ (fs : List Int) (m : Int), (∀ f ∈ fs, 0 < f) →
      (∀ f ∈ fs, fs.foldl (fun least f => if least = -1 ∨ f < least then f else least) m ≤ f) ∧
        (m ≠ -1 → fs.foldl (fun least f => if least = -1 ∨ f < least then f else least) m ≤ m) := by
    intro fs
    induction fs with
    | nil => exact fun m _ => ⟨nofun, fun _ => Int.le_refl m⟩
    | cons f _ ih =>
      intro m hfs
      have hf := hfs f mem_cons_self
      obtain ⟨hall, hstart⟩ := ih (if m = -1 ∨ f < m then f else m)
        fun x hx => hfs x (mem_cons_of_mem _ hx)
      rw [foldl_cons]
      have hle : (if m = -1 ∨ f < m then f else m) ≠ -1 ∧ (if m = -1 ∨ f < m then f else m) ≤ f ∧
          (m ≠ -1 → (if m = -1 ∨ f < m then f else m) ≤ m) := by
        split <;> omega
      have hfirst := hstart hle.1
      refine ⟨fun x hx => ?_, fun hm => Int.le_trans hfirst (hle.2.2 hm)⟩
      rcases mem_cons.mp hx with rfl | hx
      · exact Int.le_trans hfirst hle.2.1
      · exact hall x hx
  exact (key p.buckets.keys (-1) hpos).1

theorem Counts.victim (h : p.Counts l) : ∃ v p', p.victim = .ok (v, p') ∧ p'.Counts l ∧
    (v = none ↔ l = []) ∧ ∀ k, v = some k → l.LeastUsed k := by
  by_cases hsize : p.idx.size = 0
  · have hnil : l = [] := by
      refine eq_nil_iff_forall_not_mem.mpr fun x hx => ?_
      obtain ⟨e, -, he, -⟩ := h.mem hx
      rw [Dict.get?_eq_none.mpr (by rw [Dict.keys, length_eq_zero_iff.mp hsize]; simp)] at he
      cases he
    exact ⟨none, p, by rw [LFU.victim, if_pos hsize], h, iff_of_true rfl hnil,
      fun k hk => nomatch hk⟩
  obtain ⟨m, b, e, hrun, hm, hb, hlast, he⟩ := h.ok.victim hsize
  -- the repaired `minFreq` is the least frequency that has a bucket
  have hleast : ∀ x ∈ l, m ≤ x.2 := fun x hx => by
    rcases hm with rfl | rfl
    · exact h.least x hx
    · obtain ⟨-, c, -, -, hc, -⟩ := h.mem hx
      exact leastFreq_le h.ok.keys_pos x.2 (Dict.mem_keys.mpr ⟨c, hc⟩)
  refine ⟨some e.value.key, { p with minFreq := m }, hrun,
    ⟨h.ok.withMinFreq m, h.keysAt, hleast⟩, iff_of_false (by simp) ?_, ?_⟩
  · exact ne_nil_of_mem (h.tracked he)
  · rintro k ⟨⟩
    refine leastUsed_of_last (n := m) ?_ hleast
    rw [← h.keysAt, LFU.keysAt, bucket, hb, getD_some, getLast?_map, hlast]
    rfl

/-! ## Runs -/

theorem Counts.step (h : p.Counts l) (call : LfuCall)
    (hnew : ∀ k, call = .onInsert k → l.count k = 0) :
    ∃ v p', p.step call = .ok (v, p') ∧ p'.Counts (usesAfter l call) := by
  cases call with
  | onInsert key =>
    exact ⟨_, _, rfl, h.push (h.count_zero.mp (hnew key rfl)) Int.one_pos (Int.le_refl 1)
      fun x hx => by
      obtain ⟨-, b, -, -, hb, -⟩ := h.mem hx
      exact (h.ok.filled _ b hb).1⟩
  | onAccess key =>
    obtain ⟨p', hrun, hp'⟩ := h.onAccess key
    exact ⟨none, p', by rw [LFU.step, hrun]; rfl, hp'⟩
  | onRemove key =>
    obtain ⟨p', hrun, hp'⟩ := h.onRemove key
    exact ⟨none, p', by rw [LFU.step, hrun]; rfl, hp'⟩
  | victim =>
    obtain ⟨v, p', hrun, hp', -⟩ := h.victim
    exact ⟨some v, p', by rw [LFU.step, hrun]; rfl, hp'⟩

variable {calls : List LfuCall}

theorem Counts.run (h : p.Counts l) (hnew : Fresh l calls) :
    ∃ vs p', runSteps LFU.step p calls = .ok (vs, p') ∧ p'.Counts (calls.foldl usesAfter l) := by
  induction calls generalizing p l with
  | nil => exact ⟨[], p, rfl, h⟩
  | cons call _ ih =>
    obtain ⟨v, p1, hstep, h1⟩ := h.step call hnew.1
    obtain ⟨vs, p', hrun, hp'⟩ := ih h1 hnew.2
    exact ⟨v :: vs, p', by simp only [runSteps, hstep, hrun], hp'⟩

/-- In every run that inserts untracked keys only, no call panics, `Victim` reports a least used key
    exactly when a key is tracked, and `minFreq` is at most every frequency. -/
theorem run_victim (hnew : Fresh [] calls) : ∃ vs p, runSteps LFU.step new calls = .ok (vs, p) ∧
      (∃ v p', p.victim = .ok (v, p') ∧ (v = none ↔ calls.foldl usesAfter [] = []) ∧
        ∀ k, v = some k → (calls.foldl usesAfter []).LeastUsed k) ∧
      ∀ x ∈ calls.foldl usesAfter [], p.minFreq ≤ x.2 := by
  have hnil : Counts new [] := ⟨new_ok, fun _ => rfl, nofun⟩
  obtain ⟨vs, p, hrun, hp⟩ := hnil.run hnew
  obtain ⟨v, p', hvictim, -, hnone, hsome⟩ := hp.victim
  exact ⟨vs, p, hrun, ⟨v, p', hvictim, hnone, hsome⟩, hp.least⟩

/-- After `b` is removed, `minFreq` is stale until `Victim` repairs it. -/
theorem run_victim_stale : ∃ vs p,
    runSteps LFU.step new [.onInsert "a", .onAccess "a", .onInsert "b", .onRemove "b"] =
    .ok (vs, p) ∧
      p.minFreq ≤ 2 := by
  obtain ⟨vs, p, hrun, -, hmin⟩ :=
    @run_victim [.onInsert "a", .onAccess "a", .onInsert "b", .onRemove "b"]
      (by simp [Fresh, Uses.count, usesAfter, Uses.use, Uses.forget])
  exact ⟨vs, p, hrun, hmin ("a", 2) (by decide)⟩

end LFU

end InterviewPrep.KvStore
