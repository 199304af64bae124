/-
  `EvictionPolicy`, `LRU` and `LFU` of kv_store.go.

  `LawfulEvictionPolicy` says what a policy is for: it tracks the keys that were inserted and not
  removed, each once, and its victim is one of them.  The store relies on nothing else.

  Each frequency of `LFU` has a bucket, a list ordered by recency, and empty buckets are dropped.
  `unlink` and `Victim` follow pointers into the buckets; that neither of them is nil is part of
  what a lawful policy is.
-/
import InterviewPrep.Lib.Dict
import InterviewPrep.Lib.Links

namespace InterviewPrep.KvStore

open Lib Dict List Option

/-- The panics of the Go runtime. `diverges` stands for a loop that does not end
    within its bound. -/
inductive GoPanic where
  | nilDeref
  | indexOutOfRange
  | diverges

/-- A policy picks the next key to evict; `victim` returns it without removing it. -/
class EvictionPolicy (P : Type) where
  new : P
  onInsert : P → String → Except GoPanic P
  onAccess : P → String → Except GoPanic P
  onRemove : P → String → Except GoPanic P
  victim : P → Except GoPanic (Option String × P)

/-- What the store relies on. -/
class LawfulEvictionPolicy (P : Type) [EvictionPolicy P] where
  /-- the keys the policy's structure holds -/
  keys : P → List String
  /-- the consistency of the policy's structure -/
  Ok : P → Prop
  new_ok : Ok (EvictionPolicy.new : P) ∧ keys (EvictionPolicy.new : P) = []
  onInsert_ok : ∀ {p : P} {k : String}, Ok p → k ∉ keys p →
    ∃ p', EvictionPolicy.onInsert p k = .ok p' ∧ Ok p' ∧ (keys p').Perm (k :: keys p)
  onAccess_ok : ∀ {p : P} (k : String), Ok p →
    ∃ p', EvictionPolicy.onAccess p k = .ok p' ∧ Ok p' ∧ (keys p').Perm (keys p)
  onRemove_ok : ∀ {p : P} (k : String), Ok p →
    ∃ p', EvictionPolicy.onRemove p k = .ok p' ∧ Ok p' ∧ (keys p').Perm ((keys p).filter (· ≠ k))
  victim_ok : ∀ {p : P}, Ok p →
    ∃ v p', EvictionPolicy.victim p = .ok (v, p') ∧ Ok p' ∧ (keys p').Perm (keys p) ∧
      (v = none → keys p = []) ∧ ∀ k, v = some k → k ∈ keys p

/-! ## LRU -/

/-- A list ordered by recency, front most recent, and an index into it. -/
structure LRU where
  ll : LinkedList String
  idx : Dict String (Element String)
  /-- the identity of the next list element -/
  nextElem : Nat

namespace LRU

def new : LRU := ⟨LinkedList.new, Dict.empty, 0⟩

def onInsert (p : LRU) (key : String) : LRU :=
  let e : Element String := ⟨p.nextElem, key⟩
  { ll := p.ll.pushFront e, idx := p.idx.set key e, nextElem := p.nextElem + 1 }

def onAccess (p : LRU) (key : String) : LRU :=
  match p.idx.get? key with
  | some e => { p with ll := p.ll.moveToFront e }
  | none => p

def onRemove (p : LRU) (key : String) : LRU :=
  match p.idx.get? key with
  | some e => { p with ll := p.ll.remove e, idx := p.idx.erase key }
  | none => p

def victim (p : LRU) : Option String := p.ll.back.map Element.value

instance : EvictionPolicy LRU where
  new := new
  onInsert p key := .ok (p.onInsert key)
  onAccess p key := .ok (p.onAccess key)
  onRemove p key := .ok (p.onRemove key)
  victim p := .ok (p.victim, p)

/-- The index has each element of the list under its key. -/
structure Ok (p : LRU) : Prop where
  distinct : p.ll.Distinct
  old : ∀ e ∈ p.ll.elems, e.id < p.nextElem
  idx : ∀ k e, p.idx.get? k = some e ↔ e ∈ p.ll.elems ∧ e.value = k

def keys (p : LRU) : List String := p.ll.elems.map Element.value

section

variable {p : LRU} {k : String} {e : Element String}

theorem new_ok : Ok new :=
  ⟨LinkedList.distinct_new, nofun,
    fun k e => by simp [new, LinkedList.new]⟩

theorem Ok.get?_eq_none (h : p.Ok) (hk : p.idx.get? k = none) : k ∉ p.keys := by
  intro hm
  obtain ⟨e, he, rfl⟩ := List.mem_map.mp hm
  rw [(h.idx _ e).mpr ⟨he, rfl⟩] at hk
  cases hk

theorem Ok.onInsert (h : p.Ok) (hk : k ∉ p.keys) : (p.onInsert k).Ok := by
  refine ⟨h.distinct.pushFront fun x hx => Nat.ne_of_lt (h.old x hx), fun e he => ?_,
    fun k' e => ?_⟩
  · rcases mem_cons.mp he with rfl | he
    · exact Nat.lt_succ_self _
    · exact Nat.lt_succ_of_lt (h.old e he)
  simp only [LRU.onInsert, get?_set, LinkedList.elems_pushFront, mem_cons]
  by_cases hk' : k' = k
  · rw [if_pos hk', Option.some.injEq]
    constructor
    · rintro rfl
      exact ⟨Or.inl rfl, hk'.symm⟩
    · rintro ⟨rfl | he, hv⟩
      · rfl
      · exact absurd (List.mem_map.mpr ⟨e, he, hv.trans hk'⟩) hk
  rw [if_neg hk', h.idx]
  constructor
  · rintro ⟨he, hv⟩
    exact ⟨Or.inr he, hv⟩
  · rintro ⟨rfl | he, hv⟩
    · exact absurd hv.symm hk'
    · exact ⟨he, hv⟩

theorem Ok.moveToFront (h : p.Ok) (he : e ∈ p.ll.elems) :
    Ok { p with ll := p.ll.moveToFront e } := by
  have hperm := h.distinct.moveToFront_perm he
  refine ⟨(hperm.map _).nodup_iff.mpr h.distinct, fun x hx => h.old x (hperm.mem_iff.mp hx),
    fun k' x => ?_⟩
  rw [hperm.mem_iff]
  exact h.idx k' x

theorem Ok.erase (h : p.Ok) (he : p.idx.get? k = some e) :
    Ok { p with ll := p.ll.remove e, idx := p.idx.erase k } := by
  obtain ⟨hmem, hval⟩ := (h.idx k e).mp he
  refine ⟨h.distinct.remove e, fun x hx => h.old x (LinkedList.mem_remove.mp hx).1, fun k' x => ?_⟩
  rw [get?_erase, LinkedList.mem_remove]
  by_cases hk' : k' = k
  · rw [if_pos hk']
    constructor
    · intro hx
      cases hx
    · rintro ⟨⟨hx, hne⟩, hv⟩
      have := (h.idx k x).mpr ⟨hx, hv.trans hk'⟩
      rw [he] at this
      cases this
      exact absurd rfl hne
  rw [if_neg hk', h.idx]
  constructor
  · rintro ⟨hx, hv⟩
    refine ⟨⟨hx, fun hid => hk' ?_⟩, hv⟩
    rw [← hv, h.distinct.eq_of_id hmem hx hid, hval]
  · rintro ⟨⟨hx, -⟩, hv⟩
    exact ⟨hx, hv⟩

theorem Ok.keys_remove (h : p.Ok) (he : p.idx.get? k = some e) :
    ((p.ll.remove e).elems.map Element.value) = p.keys.filter (· ≠ k) := by
  obtain ⟨hmem, hval⟩ := (h.idx k e).mp he
  rw [keys, List.filter_map, LinkedList.remove]
  refine congrArg _ (filter_congr fun x hx => ?_)
  have : x.id = e.id ↔ x.value = k := by
    constructor
    · intro hid
      rw [h.distinct.eq_of_id hmem hx hid, hval]
    · intro hv
      have hx' := (h.idx k x).mpr ⟨hx, hv⟩
      rw [he] at hx'
      cases hx'
      rfl
  simp [this]

end

instance : LawfulEvictionPolicy LRU where
  keys := keys
  Ok := Ok
  new_ok := ⟨new_ok, rfl⟩
  onInsert_ok {p k} h hk := ⟨p.onInsert k, rfl, h.onInsert hk, List.Perm.refl _⟩
  onAccess_ok {p} k h := by
    refine ⟨p.onAccess k, rfl, ?_⟩
    unfold onAccess
    cases he : p.idx.get? k with
    | none => exact ⟨h, List.Perm.refl _⟩
    | some e =>
      have hmem := ((h.idx k e).mp he).1
      exact ⟨h.moveToFront hmem, (h.distinct.moveToFront_perm hmem).map _⟩
  onRemove_ok {p} k h := by
    refine ⟨p.onRemove k, rfl, ?_⟩
    unfold onRemove
    cases he : p.idx.get? k with
    | none =>
      refine ⟨h, ?_⟩
      rw [List.filter_eq_self.mpr fun x hx => ?_]
      have hne : x ≠ k := fun e => h.get?_eq_none he (e ▸ hx)
      simpa using hne
    | some => exact ⟨h.erase he, List.Perm.of_eq (h.keys_remove he)⟩
  victim_ok {p} h := by
    refine ⟨p.victim, p, rfl, h, List.Perm.refl _, fun hv => ?_, fun k hv => ?_⟩
    · rw [victim, Option.map_eq_none_iff, LinkedList.back, List.getLast?_eq_none_iff] at hv
      rw [keys, hv, List.map_nil]
    · obtain ⟨e, he, rfl⟩ := Option.map_eq_some_iff.mp hv
      exact List.mem_map_of_mem (List.mem_of_getLast? he)

end LRU

structure LfuNode where
  key : String
  freq : Int

structure LFU where
  idx : Dict String (Element LfuNode)
  /-- freq -> keys with that freq, front most recent -/
  buckets : Dict Int (LinkedList LfuNode)
  minFreq : Int
  /-- the identity of the next list element -/
  nextElem : Nat

namespace LFU

def new : LFU := ⟨Dict.empty, Dict.empty, 0, 0⟩

def bucket (p : LFU) (freq : Int) : LinkedList LfuNode := (p.buckets.get? freq).getD LinkedList.new

/-- `p.idx[n.key] = p.bucket(n.freq).PushFront(n)`. -/
def push (p : LFU) (n : LfuNode) : LFU :=
  let e : Element LfuNode := ⟨p.nextElem, n⟩
  { p with
    idx := p.idx.set n.key e
    buckets := p.buckets.set n.freq ((p.bucket n.freq).pushFront e)
    nextElem := p.nextElem + 1 }

/-- `unlink` removes e from its bucket, dropping the bucket when it empties. -/
def unlink (p : LFU) (e : Element LfuNode) : Except GoPanic LFU :=
  match p.buckets.get? e.value.freq with
  | none => .error .nilDeref
  | some b =>
    let b := b.remove e
    .ok { p with
      buckets := if b.len = 0 then p.buckets.erase e.value.freq
        else p.buckets.set e.value.freq b }

def onInsert (p : LFU) (key : String) : LFU := { p.push ⟨key, 1⟩ with minFreq := 1 }

def onAccess (p : LFU) (key : String) : Except GoPanic LFU :=
  match p.idx.get? key with
  | none => .ok p
  | some e => do
      let p ← p.unlink e
      let p := if e.value.freq = p.minFreq ∧ (p.buckets.get? e.value.freq).isNone then
          { p with minFreq := p.minFreq + 1 } else p
      return p.push { e.value with freq := e.value.freq + 1 }

def onRemove (p : LFU) (key : String) : Except GoPanic LFU :=
  match p.idx.get? key with
  | none => .ok p
  | some e => do
      let p ← p.unlink e
      return { p with idx := p.idx.erase key }

/-- The smallest frequency that has a bucket. -/
def leastFreq (p : LFU) : Int :=
  p.buckets.keys.foldl (fun least f => if least = -1 ∨ f < least then f else least) (-1)

def victim (p : LFU) : Except GoPanic (Option String × LFU) :=
  if p.idx.size = 0 then .ok (none, p)
  else
    let p := if (p.buckets.get? p.minFreq).isNone then { p with minFreq := p.leastFreq } else p
    match p.buckets.get? p.minFreq with
    | none => .error .nilDeref
    | some b =>
      match b.back with
      | none => .error .nilDeref
      | some e => .ok (some e.value.key, p)

instance : EvictionPolicy LFU where
  new := new
  onInsert p key := .ok (p.onInsert key)
  onAccess := onAccess
  onRemove := onRemove
  victim := victim

/-- The buckets hold the elements of the index, each under its frequency. -/
structure Ok (p : LFU) : Prop where
  filled : ∀ f b, p.buckets.get? f = some b → 0 < f ∧ b.elems ≠ [] ∧ b.Distinct
  elem : ∀ f b e, p.buckets.get? f = some b → e ∈ b.elems →
    e.value.freq = f ∧ e.id < p.nextElem ∧ p.idx.get? e.value.key = some e
  idx : ∀ k e, p.idx.get? k = some e →
    e.value.key = k ∧ ∃ b, p.buckets.get? e.value.freq = some b ∧ e ∈ b.elems

section

variable {p : LFU} {k : String} {e : Element LfuNode}

theorem Ok.withMinFreq (h : p.Ok) (m : Int) : Ok { p with minFreq := m } :=
  ⟨h.filled, h.elem, h.idx⟩

theorem new_ok : Ok new := by
  refine ⟨fun f b h => ?_, fun f b e h => ?_, fun k e h => ?_⟩ <;> cases h

theorem Ok.push (h : p.Ok) {n : LfuNode} (hn : 0 < n.freq) (hk : p.idx.get? n.key = none) :
    (p.push n).Ok := by
  have hbucket : ∀ x ∈ (p.bucket n.freq).elems, ∃ b, p.buckets.get? n.freq = some b ∧
      x ∈ b.elems := by
    intro x hx
    unfold bucket at hx
    cases hb : p.buckets.get? n.freq with
    | none => rw [hb] at hx; cases hx
    | some b => rw [hb] at hx; exact ⟨b, rfl, hx⟩
  have hdistinct : (p.bucket n.freq).Distinct := by
    unfold bucket
    cases hb : p.buckets.get? n.freq with
    | none => exact LinkedList.distinct_new
    | some b => exact (h.filled _ b hb).2.2
  refine ⟨fun f b hb => ?_, fun f b x hb hx => ?_, fun k' x hx => ?_⟩
  · by_cases hf : f = n.freq
    · subst hf
      simp only [LFU.push, get?_set_self, Option.some.injEq] at hb
      subst hb
      refine ⟨hn, cons_ne_nil _ _, hdistinct.pushFront fun x hx => ?_⟩
      obtain ⟨b, hb, hx⟩ := hbucket x hx
      exact Nat.ne_of_lt (h.elem _ b x hb hx).2.1
    · rw [LFU.push, get?_set_of_ne _ _ hf] at hb
      exact h.filled f b hb
  · have hold : ∀ b', p.buckets.get? f = some b' → x ∈ b'.elems →
        x.value.freq = f ∧ x.id < p.nextElem + 1 ∧ (p.push n).idx.get? x.value.key = some x := by
      intro b' hb' hx'
      obtain ⟨hfreq, hid, hidx⟩ := h.elem f b' x hb' hx'
      have hne : x.value.key ≠ n.key := fun he => by rw [← he, hidx] at hk; cases hk
      exact ⟨hfreq, Nat.lt_succ_of_lt hid, (get?_set_of_ne _ _ hne).trans hidx⟩
    by_cases hf : f = n.freq
    · subst hf
      simp only [LFU.push, get?_set_self, Option.some.injEq] at hb
      subst hb
      rcases mem_cons.mp hx with rfl | hx
      · exact ⟨rfl, Nat.lt_succ_self _, get?_set_self ..⟩
      · obtain ⟨b', hb', hx'⟩ := hbucket x hx
        exact hold b' hb' hx'
    · rw [LFU.push, get?_set_of_ne _ _ hf] at hb
      exact hold b hb hx
  · by_cases hk' : k' = n.key
    · subst hk'
      simp only [LFU.push, get?_set_self, Option.some.injEq] at hx
      subst hx
      exact ⟨rfl, _, get?_set_self .., mem_cons_self ..⟩
    rw [LFU.push, get?_set_of_ne _ _ hk'] at hx
    obtain ⟨hkey, b, hb, hmem⟩ := h.idx k' x hx
    refine ⟨hkey, ?_⟩
    by_cases hf : x.value.freq = n.freq
    · refine ⟨(p.bucket n.freq).pushFront ⟨p.nextElem, n⟩, ?_, mem_cons_of_mem _ ?_⟩
      · rw [hf, LFU.push, get?_set_self]
      · rw [bucket, ← hf, hb]
        exact hmem
    · exact ⟨b, (get?_set_of_ne _ _ hf).trans hb, hmem⟩

theorem Ok.unlink (h : p.Ok) (he : p.idx.get? k = some e) :
    ∃ p', p.unlink e = .ok p' ∧ p'.idx = p.idx ∧ Ok { p' with idx := p.idx.erase k } := by
  obtain ⟨hkey, b, hb, hmem⟩ := h.idx k e he
  have hd := (h.filled _ b hb).2.2
  set b' := b.remove e with hb'
  set bs := if b'.len = 0 then p.buckets.erase e.value.freq else p.buckets.set e.value.freq b'
    with hbs
  -- the other buckets stay, and this one loses e
  have hother : ∀ f, f ≠ e.value.freq → bs.get? f = p.buckets.get? f := by
    intro f hf
    rw [hbs]
    split
    next => exact get?_erase_of_ne _ hf
    next => exact get?_set_of_ne _ _ hf
  have hself : ∀ c, bs.get? e.value.freq = some c → c = b' ∧ b'.elems ≠ [] := by
    intro c hc
    rw [hbs] at hc
    split at hc
    next => rw [get?_erase_self] at hc; cases hc
    next hlen =>
      rw [get?_set_self] at hc
      exact ⟨(some.inj hc).symm, fun hnil => hlen (by rw [LinkedList.len, hnil]; rfl)⟩
  have hkept : ∀ x ∈ b'.elems, bs.get? e.value.freq = some b' := by
    intro x hx
    rw [hbs, if_neg fun hlen => ?_, get?_set_self]
    exact not_mem_nil (length_eq_zero_iff.mp hlen ▸ hx)
  have hne : ∀ x, x.id ≠ e.id → p.idx.get? x.value.key = some x →
      (p.idx.erase k).get? x.value.key = some x := by
    intro x hid hx
    refine (get?_erase_of_ne _ fun hk => hid ?_).trans hx
    rw [hk, he] at hx
    rw [some.inj hx]
  refine ⟨{ p with buckets := bs }, ?_, rfl, fun f c hc => ?_, fun f c x hc hx => ?_,
    fun k' x hx => ?_⟩
  · rw [LFU.unlink, hb]
  · by_cases hf : f = e.value.freq
    · subst hf
      obtain ⟨rfl, hne⟩ := hself c hc
      exact ⟨(h.filled _ b hb).1, hne, hd.remove e⟩
    · exact h.filled f c ((hother f hf).symm.trans hc)
  · by_cases hf : f = e.value.freq
    · subst hf
      obtain ⟨rfl, -⟩ := hself c hc
      obtain ⟨hxb, hid⟩ := LinkedList.mem_remove.mp hx
      obtain ⟨hfreq, hlt, hidx⟩ := h.elem _ b x hb hxb
      exact ⟨hfreq, hlt, hne x hid hidx⟩
    · have hc' := (hother f hf).symm.trans hc
      obtain ⟨hfreq, hlt, hidx⟩ := h.elem f c x hc' hx
      refine ⟨hfreq, hlt, (get?_erase_of_ne _ fun hk => hf ?_).trans hidx⟩
      rw [hk, he] at hidx
      rw [← hfreq, some.inj hidx]
  · have hk' : k' ≠ k := fun hk => by rw [hk, get?_erase_self] at hx; cases hx
    rw [get?_erase_of_ne _ hk'] at hx
    obtain ⟨hxkey, c, hc, hxc⟩ := h.idx k' x hx
    refine ⟨hxkey, ?_⟩
    by_cases hf : x.value.freq = e.value.freq
    · have hcb : c = b := some.inj ((hf ▸ hc).symm.trans hb)
      have hid : x.id ≠ e.id := fun hid => hk' (by
        rw [← hxkey, hd.eq_of_id hmem (hcb ▸ hxc) hid, hkey])
      have hx' : x ∈ b'.elems := LinkedList.mem_remove.mpr ⟨hcb ▸ hxc, hid⟩
      exact ⟨b', hf ▸ hkept x hx', hx'⟩
    · exact ⟨c, (hother _ hf).trans hc, hxc⟩

theorem Ok.onAccess (h : p.Ok) (k : String) :
    ∃ p', p.onAccess k = .ok p' ∧ p'.Ok ∧ p'.idx.keys = p.idx.keys := by
  unfold LFU.onAccess
  cases he : p.idx.get? k with
  | none => exact ⟨p, rfl, h, rfl⟩
  | some e =>
  obtain ⟨p', hun, hidx, hok⟩ := h.unlink he
  obtain ⟨hkey, b, hb, -⟩ := h.idx k e he
  have hpos := (h.filled _ b hb).1
  -- the index still has the old element of the key; pushing replaces it
  have hok' : ∀ m,
      Ok ({ p' with minFreq := m }.push { e.value with freq := e.value.freq + 1 }) := by
    intro m
    have hpush := (hok.withMinFreq m).push (n := { e.value with freq := e.value.freq + 1 })
      (by show 0 < e.value.freq + 1; omega) (by
        rw [hkey, get?_erase_self])
    refine ⟨hpush.filled, fun f c x hc hx => ?_, fun k' x hx => ?_⟩
    · obtain ⟨hfreq, hlt, hxi⟩ := hpush.elem f c x hc hx
      refine ⟨hfreq, hlt, ?_⟩
      simp only [LFU.push, get?_set, hkey, hidx] at hxi ⊢
      split at hxi
      next hxk => rw [if_pos hxk]; exact hxi
      next hxk => rw [if_neg hxk]; rwa [get?_erase_of_ne _ hxk] at hxi
    · refine hpush.idx k' x ?_
      simp only [LFU.push, get?_set, hkey, hidx] at hx ⊢
      split at hx
      next hxk => rw [if_pos hxk]; exact hx
      next hxk => rw [if_neg hxk, get?_erase_of_ne _ hxk]; exact hx
  have hkeys : ∀ m, ({ p' with minFreq := m }.push
      { e.value with freq := e.value.freq + 1 }).idx.keys = p.idx.keys := by
    intro m
    rw [← hidx]
    exact keys_set_of_get? _ (by rw [hkey, hidx]; exact he)
  simp only [hun, bind, Except.bind, pure, Except.pure]
  split
  next => exact ⟨_, rfl, hok' _, hkeys _⟩
  next => exact ⟨_, rfl, hok' p'.minFreq, hkeys p'.minFreq⟩

theorem leastFreq_mem (hpos : ∀ f ∈ p.buckets.keys, 0 < f) (hne : p.buckets.keys ≠ []) :
    p.leastFreq ∈ p.buckets.keys := by
  have key : ∀ (fs : List Int) (m : Int), (∀ f ∈ fs, 0 < f) →
      fs.foldl (fun least f => if least = -1 ∨ f < least then f else least) m = m ∧
          (fs = [] ∨ m ≠ -1) ∨
        fs.foldl (fun least f => if least = -1 ∨ f < least then f else least) m ∈ fs := by
    intro fs
    induction fs with
    | nil => exact fun m _ => Or.inl ⟨rfl, Or.inl rfl⟩
    | cons f _ ih =>
      intro m hfs
      have hf := hfs f (mem_cons_self ..)
      rw [foldl_cons]
      by_cases hcond : m = -1 ∨ f < m
      · rw [if_pos hcond]
        rcases ih f (fun x hx => hfs x (mem_cons_of_mem _ hx)) with ⟨heq, -⟩ | hmem
        · exact Or.inr (by rw [heq]; exact mem_cons_self ..)
        · exact Or.inr (mem_cons_of_mem _ hmem)
      · rw [if_neg hcond]
        rcases ih m (fun x hx => hfs x (mem_cons_of_mem _ hx)) with ⟨heq, -⟩ | hmem
        · exact Or.inl ⟨heq, Or.inr fun hm => hcond (Or.inl hm)⟩
        · exact Or.inr (mem_cons_of_mem _ hmem)
  rcases key p.buckets.keys (-1) hpos with ⟨-, hnil | hm⟩ | hmem
  · exact absurd hnil hne
  · exact absurd rfl hm
  · exact hmem

theorem Ok.keys_pos (h : p.Ok) : ∀ f ∈ p.buckets.keys, 0 < f := by
  intro f hf
  obtain ⟨b, hb⟩ := Dict.mem_keys.mp hf
  exact (h.filled f b hb).1

/-- With a key in the index, the repaired `minFreq` has a bucket, whose last
    element is the victim. -/
theorem Ok.victim (h : p.Ok) (hne : p.idx.size ≠ 0) : ∃ m b e,
    p.victim = .ok (some e.value.key, { p with minFreq := m }) ∧ (m = p.minFreq ∨ m = p.leastFreq) ∧
      p.buckets.get? m = some b ∧ b.elems.getLast? = some e ∧ p.idx.get? e.value.key = some e := by
  have hkeys : p.buckets.keys ≠ [] := by
    intro hnil
    obtain ⟨x, hx⟩ := exists_mem_of_ne_nil p.idx.items fun hi => hne (by
      rw [Dict.size, hi, length_nil])
    obtain ⟨-, b, hb, -⟩ := h.idx x.1 x.2 (mem_items_iff.mp hx)
    have hmem := Dict.mem_keys.mpr ⟨b, hb⟩
    rw [hnil] at hmem
    exact not_mem_nil hmem
  obtain ⟨m, hm, hor, b, hb⟩ : ∃ m, (if (p.buckets.get? p.minFreq).isNone
      then { p with minFreq := p.leastFreq } else p) = { p with minFreq := m } ∧
      (m = p.minFreq ∨ m = p.leastFreq) ∧ ∃ b, p.buckets.get? m = some b := by
    cases hb : p.buckets.get? p.minFreq with
    | none => exact ⟨p.leastFreq, rfl, .inr rfl, Dict.mem_keys.mp (leastFreq_mem h.keys_pos hkeys)⟩
    | some b => exact ⟨p.minFreq, rfl, .inl rfl, b, hb⟩
  have hnonempty := (h.filled m b hb).2.1
  have hback : b.back = some (b.elems.getLast hnonempty) := getLast?_eq_some_getLast hnonempty
  refine ⟨m, b, b.elems.getLast hnonempty, ?_, hor, hb, hback,
    (h.elem m b _ hb (getLast_mem hnonempty)).2.2⟩
  simp only [LFU.victim, if_neg hne, hm, hb, hback]

end

instance : LawfulEvictionPolicy LFU where
  keys p := p.idx.keys
  Ok := Ok
  new_ok := ⟨new_ok, rfl⟩
  onInsert_ok {p k} h hk := by
    have hnone := Dict.get?_eq_none.mpr hk
    refine ⟨p.onInsert k, rfl, (h.push (n := ⟨k, 1⟩) Int.one_pos hnone).withMinFreq 1, ?_⟩
    show ((p.idx.set k _).items.map Prod.fst).Perm (k :: p.idx.keys)
    rw [Dict.set_items_of_get?_none _ hnone, List.map_append]
    exact List.perm_append_singleton k p.idx.keys
  onAccess_ok {p} k h := by
    obtain ⟨p', hrun, hok, hkeys⟩ := h.onAccess k
    exact ⟨p', hrun, hok, List.Perm.of_eq hkeys⟩
  onRemove_ok {p} k h := by
    cases he : p.idx.get? k with
    | none =>
      refine ⟨p, ?_, h, ?_⟩
      · simp only [EvictionPolicy.onRemove, onRemove, he]
      · rw [List.filter_eq_self.mpr fun x hx => ?_]
        have hne : x ≠ k := fun e => Dict.get?_eq_none.mp he (e ▸ hx)
        simpa using hne
    | some =>
      obtain ⟨p', hun, hidx, hok⟩ := h.unlink he
      refine ⟨{ p' with idx := p.idx.erase k }, ?_, hok, ?_⟩
      · simp only [EvictionPolicy.onRemove, onRemove, he, hun, bind, Except.bind, pure,
          Except.pure, hidx]
      · show ((p.idx.erase k).items.map Prod.fst).Perm (p.idx.keys.filter _)
        rw [Dict.items_erase, Dict.keys, List.filter_map]
        exact List.Perm.refl _
  victim_ok {p} h := by
    by_cases hne : p.idx.size = 0
    · refine ⟨none, p, ?_, h, List.Perm.refl _, fun _ => ?_, nofun⟩
      · show victim p = _
        rw [victim, if_pos hne]
      · rw [Dict.keys, List.length_eq_zero_iff.mp hne, List.map_nil]
    obtain ⟨m, b, e, hrun, -, -, -, he⟩ := h.victim hne
    refine ⟨some e.value.key, _, hrun, h.withMinFreq m, List.Perm.refl _, ?_, ?_⟩
    · intro hv
      cases hv
    · intro k hk
      rw [← Option.some.inj hk]
      exact Dict.mem_keys.mpr ⟨e, he⟩

end LFU

end InterviewPrep.KvStore
