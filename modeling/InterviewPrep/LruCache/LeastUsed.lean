/-
  The policy of `LFUCache` (lru_cache.py), and what it evicts: the entry used least often and,
  among those, the one used longest ago (`run_leastUsed`).

  The uses are those the calls of the cache make; an entry that leaves is forgotten (`usesAfter`).
  The hooks keep the buckets at what the uses say (`Tracks`), whichever way entries leave.
-/
import InterviewPrep.Lib.UseCounts
import InterviewPrep.LruCache.Recency

namespace InterviewPrep.LruCache

open Lib Dict List Option Uses

/-- Buckets of nodes used equally often, front most recent. `freq` has the count of every node. -/
structure LFU where
  buckets : Dict Int (List Ref)
  minFreq : Option Int
  freq : Dict Ref Int

namespace LFU

def new : LFU := ⟨Dict.empty, none, Dict.empty⟩

def bucket (p : LFU) (freq : Int) : List Ref := (p.buckets.get? freq).getD []

/-- `_detach`: remove from its bucket; true if that emptied the min bucket. -/
def detach (p : LFU) (r : Ref) (freq : Int) : Except PyError (Bool × LFU) := do
  let b ← orRaise .keyError (p.buckets.get? freq)
  let b := b.filter (· ≠ r)
  if b = [] then return (p.minFreq = some freq, { p with buckets := p.buckets.erase freq })
  else return (false, { p with buckets := p.buckets.set freq b })

/-- The node with its new count, at the front of the bucket. -/
def push (p : LFU) (r : Ref) (freq : Int) : LFU :=
  { p with buckets := p.buckets.set freq (r :: p.bucket freq), freq := p.freq.set r freq }

def insert (p : LFU) (r : Ref) : LFU := { p.push r 1 with minFreq := some 1 }

def touch (p : LFU) (r : Ref) : Except PyError LFU := do
  let freq ← orRaise .attributeError (p.freq.get? r)
  let (emptiedMin, p) ← p.detach r freq
  let p := p.push r (freq + 1)
  return if emptiedMin then { p with minFreq := some (freq + 1) } else p

def unlink (p : LFU) (r : Ref) : Except PyError LFU := do
  let freq ← orRaise .attributeError (p.freq.get? r)
  let (emptiedMin, p) ← p.detach r freq
  let p := { p with freq := p.freq.erase r }
  return if emptiedMin then { p with minFreq := none } else p

/-- `_min_freq`, which is computed if it is not set. -/
def leastFreq (p : LFU) : Except PyError Int :=
  match p.minFreq with
  | some f => .ok f
  | none => orRaise (.valueError "min() iterable argument is empty") p.buckets.keys.min?

def victim (p : LFU) : Except PyError (Ref × LFU) := do
  let least ← p.leastFreq
  let b ← orRaise .keyError (p.buckets.get? least)
  let r ← orRaise .attributeError b.getLast?
  return (r, { p with minFreq := some least })

instance : CachePolicy LFU where
  new := new
  insert p r := .ok (p.insert r)
  touch := touch
  unlink := unlink
  victim := victim

/-! ## The hooks -/

/-- The buckets hold what was used as often, and `minFreq` is the least count if it is set. -/
structure Tracks (p : LFU) (l : Uses Ref) : Prop where
  buckets : ∀ f, p.bucket f = l.times f
  filled : ∀ f b, p.buckets.get? f = some b → b ≠ []
  freq : ∀ r n, (r, n) ∈ l ↔ p.freq.get? r = some n
  pos : ∀ x ∈ l, 0 < x.2
  least : ∀ m, p.minFreq = some m → (∀ x ∈ l, m ≤ x.2) ∧ ∃ r, (r, m) ∈ l

variable {p p' : LFU} {l : Uses Ref} {r : Ref} {n : Int}

theorem new_tracks : Tracks new [] :=
  ⟨fun _ => rfl, nofun, fun _ _ => by simp [new], nofun, nofun⟩

theorem Tracks.count (h : p.Tracks l) (hr : p.freq.get? r = some n) : l.count r = n := by
  refine count_eq (mem_times.mpr ((h.freq r n).mpr hr)) fun m hm => ?_
  have hm' := (h.freq r m).mp (mem_times.mp hm)
  exact some.inj (hm'.symm.trans hr)

theorem Tracks.bucket_iff (h : p.Tracks l) : (∃ r, (r, n) ∈ l) ↔ n ∈ p.buckets.keys := by
  simp only [← mem_times, ← h.buckets, bucket, Dict.mem_keys]
  cases hb : p.buckets.get? n with
  | none => simp
  | some b => simpa using exists_mem_of_ne_nil b (h.filled n b hb)

theorem bucket_set (p : LFU) (b : List Ref) (f g : Int) :
    bucket { p with buckets := p.buckets.set f b } g = if g = f then b else p.bucket g := by
  simp only [bucket, get?_set]
  split <;> rfl

theorem Tracks.detach (h : p.Tracks l) (hr : p.freq.get? r = some n) :
    ∃ emptied p', p.detach r n = .ok (emptied, p') ∧ p'.freq = p.freq ∧ p'.minFreq = p.minFreq ∧
      (∀ f, p'.bucket f = (l.forget r).times f) ∧ (∀ f b, p'.buckets.get? f = some b → b ≠ []) ∧
      (emptied = true ↔ p.minFreq = some n ∧ (l.forget r).times n = []) := by
  obtain ⟨b, hb⟩ := Dict.mem_keys.mp (h.bucket_iff.mp ⟨r, (h.freq r n).mpr hr⟩)
  have hcut : (l.forget r).times n = b.filter (· ≠ r) := by
    rw [times_forget, ← h.buckets, bucket, hb]
    rfl
  have hother : ∀ f, f ≠ n → (l.forget r).times f = p.bucket f := by
    intro f hf
    rw [times_forget, ← h.buckets]
    refine filter_eq_self.mpr fun x hx => decide_eq_true ?_
    rintro rfl
    rw [h.buckets, mem_times, h.freq, hr] at hx
    exact hf (some.inj hx).symm
  by_cases hnil : b.filter (· ≠ r) = []
  · refine ⟨p.minFreq = some n, { p with buckets := p.buckets.erase n }, ?_, rfl, rfl, fun f => ?_,
      fun f c hc => ?_, by rw [decide_eq_true_iff, hcut, and_iff_left hnil]⟩
    · simp only [LFU.detach, hb, orRaise, bind, Except.bind, hnil, if_true]
      rfl
    · by_cases hf : f = n
      · rw [hf, hcut, hnil, bucket, get?_erase_self]
        rfl
      · rw [hother f hf, bucket, get?_erase_of_ne _ hf, bucket]
    · exact h.filled f c (get?_erase_some hc).2
  refine ⟨false, { p with buckets := p.buckets.set n (b.filter (· ≠ r)) }, ?_, rfl,
    rfl, fun f => ?_,
    fun f c hc => ?_, iff_of_false Bool.false_ne_true fun hc => hnil (hcut ▸ hc.2)⟩
  · simp only [LFU.detach, hb, orRaise, bind, Except.bind, hnil, if_false]
    rfl
  · rw [bucket_set]
    split
    case isTrue hf => rw [hf, hcut]
    case isFalse hf => rw [hother f hf]
  · rcases get?_set_some hc with ⟨-, rfl⟩ | ⟨-, hc⟩
    · exact hnil
    · exact h.filled f c hc

theorem Tracks.least_forget (h : p.Tracks l) (hr : p.freq.get? r = some n)
    (hkept : ¬ (p.minFreq = some n ∧ (l.forget r).times n = [])) {m : Int}
    (hm : p.minFreq = some m) : ∃ r', (r', m) ∈ l.forget r := by
  obtain ⟨r', hr'⟩ := (h.least m hm).2
  by_cases hself : r' = r
  · subst hself
    obtain rfl : m = n := some.inj (((h.freq r' m).mp hr').symm.trans hr)
    obtain ⟨x, hx⟩ := exists_mem_of_ne_nil _ fun hnil => hkept ⟨hm, hnil⟩
    exact ⟨x, mem_times.mp hx⟩
  · exact ⟨r', mem_filter.mpr ⟨hr', decide_eq_true hself⟩⟩

theorem mem_forget {x : Ref × Int} : x ∈ l.forget r ↔ x ∈ l ∧ x.1 ≠ r := by
  simp [Uses.forget]

theorem push_tracks (hbuckets : ∀ f, p.bucket f = (l.forget r).times f)
    (hfilled : ∀ f b, p.buckets.get? f = some b → b ≠ [])
    (hfreq : ∀ r' m, r' ≠ r → ((r', m) ∈ l ↔ p.freq.get? r' = some m)) (hpos : ∀ x ∈ l, 0 < x.2)
    (hn : 0 < n) {least : Option Int} (hleast : ∀ m, least = some m →
      (∀ x ∈ l.use r n, m ≤ x.2) ∧ ∃ r', (r', m) ∈ l.use r n) :
    Tracks { p.push r n with minFreq := least } (l.use r n) where
  buckets f := by
    rw [times_use, ← times_forget, ← hbuckets]
    refine (bucket_set p _ n f).trans ?_
    split
    case isTrue hf => rw [hf]
    case isFalse => rfl
  filled f b hb := by
    rcases get?_set_some hb with ⟨-, rfl⟩ | ⟨-, hb⟩
    · exact cons_ne_nil _ _
    · exact hfilled f b hb
  freq r' m := by
    show _ ↔ (p.freq.set r n).get? r' = some m
    rw [get?_set, Uses.use, mem_cons, mem_forget]
    by_cases hr' : r' = r
    · simp [hr', eq_comm]
    · simp [hr', hfreq r' m hr']
  pos x hx := by
    rcases mem_cons.mp hx with rfl | hx
    · exact hn
    · exact hpos x (mem_forget.mp hx).1
  least := hleast

theorem Tracks.insert (h : p.Tracks l) (hr : p.freq.get? r = none) :
    (p.insert r).Tracks (l.use r 1) := by
  have hkeep : l.forget r = l := by
    refine filter_eq_self.mpr fun x hx => decide_eq_true ?_
    rintro rfl
    rw [(h.freq x.1 x.2).mp hx] at hr
    cases hr
  refine push_tracks (by rw [hkeep]; exact h.buckets) h.filled (fun r' m _ => h.freq r' m) h.pos
    Int.one_pos ?_
  rintro m ⟨⟩
  refine ⟨fun x hx => ?_, r, mem_cons_self⟩
  rcases mem_cons.mp hx with rfl | hx
  · exact Int.le_refl 1
  · exact h.pos x (mem_forget.mp hx).1

theorem Tracks.touch (h : p.Tracks l) (hr : p.freq.get? r = some n) :
    ∃ p', p.touch r = .ok p' ∧ p'.freq = p.freq.set r (n + 1) ∧
      p'.Tracks (l.use r (l.count r + 1)) := by
  have hpos := h.pos _ ((h.freq r n).mpr hr)
  obtain ⟨emptied, p1, hdetach, hfreq, hmin, hbuckets, hfilled, hemptied⟩ := h.detach hr
  refine ⟨{ p1.push r (n + 1) with minFreq := if emptied then some (n + 1) else p1.minFreq },
    ?_, ?_, ?_⟩
  · simp only [LFU.touch, hr, orRaise, bind, Except.bind, hdetach]
    cases emptied <;> rfl
  · rw [← hfreq]
    rfl
  rw [h.count hr]
  refine push_tracks hbuckets hfilled (fun r' m _ => hfreq ▸ h.freq r' m) h.pos (by omega) ?_
  intro m hm
  cases emptied with
  | true =>
    -- the next count is now the least one
    obtain rfl : n + 1 = m := some.inj hm
    obtain ⟨hmin, hnil⟩ := hemptied.mp rfl
    refine ⟨fun x hx => ?_, r, mem_cons_self⟩
    rcases mem_cons.mp hx with rfl | hx
    · exact Int.le_refl _
    · have hle := (h.least n hmin).1 x (mem_forget.mp hx).1
      have hne : x.2 ≠ n := fun hx2 => by
        have hmem := mem_times.mpr (hx2 ▸ hx : (x.1, n) ∈ l.forget r)
        rw [hnil] at hmem
        cases hmem
      omega
  | false =>
    have hm' := hmin.symm.trans hm
    obtain ⟨r', hr'⟩ := h.least_forget hr (fun hc => Bool.false_ne_true (hemptied.mpr hc)) hm'
    refine ⟨fun x hx => ?_, r', mem_cons_of_mem _ hr'⟩
    have hle := (h.least m hm').1
    rcases mem_cons.mp hx with rfl | hx
    · have := hle _ ((h.freq r n).mpr hr)
      omega
    · exact hle x (mem_forget.mp hx).1

theorem Tracks.unlink (h : p.Tracks l) (hr : p.freq.get? r = some n) :
    ∃ p', p.unlink r = .ok p' ∧ p'.freq = p.freq.erase r ∧ p'.Tracks (l.forget r) := by
  obtain ⟨emptied, p1, hdetach, hfreq, hmin, hbuckets, hfilled, hemptied⟩ := h.detach hr
  refine ⟨{ p1 with freq := p1.freq.erase r, minFreq := if emptied then none else p1.minFreq }, ?_,
    by rw [hfreq], hbuckets, hfilled, fun r' m => ?_, fun x hx => h.pos x (mem_forget.mp hx).1,
    fun m hm => ?_⟩
  · simp only [LFU.unlink, hr, orRaise, bind, Except.bind, hdetach]
    cases emptied <;> rfl
  · show _ ↔ (p1.freq.erase r).get? r' = some m
    rw [hfreq, get?_erase, mem_forget, h.freq]
    by_cases hr' : r' = r <;> simp [hr']
  · cases emptied with
    | true => cases hm
    | false =>
      have hm' := hmin.symm.trans hm
      exact ⟨fun x hx => (h.least m hm').1 x (mem_forget.mp hx).1,
        h.least_forget hr (fun hc => Bool.false_ne_true (hemptied.mpr hc)) hm'⟩

theorem Tracks.victim (h : p.Tracks l) (hl : l ≠ []) :
    ∃ r p', p.victim = .ok (r, p') ∧ p'.freq = p.freq ∧ p'.Tracks l ∧ l.LeastUsed r := by
  -- the least count, looked up or computed
  obtain ⟨m, hm, hleast, hmem⟩ : ∃ m, p.leastFreq = .ok m ∧ (∀ x ∈ l, m ≤ x.2) ∧ ∃ r,
      (r, m) ∈ l := by
    rw [leastFreq]
    cases hmin : p.minFreq with
    | some m => exact ⟨m, rfl, h.least m hmin⟩
    | none =>
      obtain ⟨x, hx⟩ := exists_mem_of_ne_nil l hl
      have hkey := h.bucket_iff.mp ⟨x.1, hx⟩
      obtain ⟨m, hm⟩ := ne_none_iff_exists'.mp
        fun hnone => ne_nil_of_mem hkey (min?_eq_none_iff.mp hnone)
      obtain ⟨hm1, hm2⟩ := min?_eq_some_iff.mp hm
      exact ⟨m, by rw [hm]; rfl, fun y hy => hm2 _ (h.bucket_iff.mp ⟨y.1, hy⟩),
        h.bucket_iff.mpr hm1⟩
  obtain ⟨b, hb⟩ := Dict.mem_keys.mp (h.bucket_iff.mp hmem)
  have hlast := getLast?_eq_some_getLast (h.filled m b hb)
  refine ⟨b.getLast (h.filled m b hb), { p with minFreq := some m }, ?_, rfl,
    ⟨h.buckets, h.filled, h.freq, h.pos, ?_⟩, leastUsed_of_last (n := m) ?_ hleast⟩
  · simp only [LFU.victim, hm, bind, Except.bind, hb, hlast, orRaise]
    rfl
  · rintro _ ⟨⟩
    exact ⟨hleast, hmem⟩
  · rw [← h.buckets, bucket, hb]
    exact hlast

instance : LawfulCachePolicy LFU where
  nodes p := p.freq.keys
  Ok p := ∃ l, p.Tracks l
  new_ok := ⟨⟨[], new_tracks⟩, rfl⟩
  nodup _ := Dict.keys_nodup _
  insert_ok {p r} h hr := by
    obtain ⟨l, h⟩ := h
    have hnone := Dict.get?_eq_none.mpr hr
    refine ⟨_, rfl, ⟨_, h.insert hnone⟩, ?_⟩
    show ((p.freq.set r 1).items.map Prod.fst).Perm (r :: p.freq.keys)
    rw [Dict.set_items_of_get?_none _ hnone, List.map_append]
    exact List.perm_append_singleton r p.freq.keys
  touch_ok {p r} h hr := by
    obtain ⟨l, h⟩ := h
    obtain ⟨n, hn⟩ := Dict.mem_keys.mp hr
    obtain ⟨p', htouch, hfreq, h'⟩ := h.touch hn
    exact ⟨p', htouch, ⟨_, h'⟩, .of_eq (by rw [hfreq, Dict.keys_set_of_get? _ hn])⟩
  unlink_ok {p r} h hr := by
    obtain ⟨l, h⟩ := h
    obtain ⟨n, hn⟩ := Dict.mem_keys.mp hr
    obtain ⟨p', hunlink, hfreq, h'⟩ := h.unlink hn
    refine ⟨p', hunlink, ⟨_, h'⟩, ?_⟩
    rw [hfreq, Dict.keys, Dict.items_erase, Dict.keys, List.filter_map]
    rfl
  victim_ok {p} h hne := by
    obtain ⟨l, h⟩ := h
    obtain ⟨r, hr⟩ := List.exists_mem_of_ne_nil _ hne
    obtain ⟨n, hn⟩ := Dict.mem_keys.mp hr
    obtain ⟨v, p', hvictim, hfreq, h', newer, m, older, hl, -⟩ :=
      h.victim (List.ne_nil_of_mem ((h.freq r n).mpr hn))
    refine ⟨v, p', hvictim, Dict.mem_keys.mpr ⟨m, (h.freq v m).mp ?_⟩, ⟨l, h'⟩, by rw [hfreq]⟩
    rw [hl]
    simp

end LFU

/-! ## The cache -/

/-- The key that a call uses, if it is held in the end. -/
def Op.used {K V T : Type} : Op K V T → Reply V → Option K
  | .get key _, .value (some _) => some key
  | .put key _ _ _ _, .done => some key
  | _, _ => none

namespace LFUCache

open BaseCache

variable {K V T : Type} [DecidableEq K] [LinearOrder T] [Zero T] [Add T]
  {c c' : BaseCache K V T LFU} {l : Uses Ref} {p : LFU} {r : Ref}

/-- The uses after a call that left `c`: what left the cache is forgotten. -/
def usesAfter (c : BaseCache K V T LFU) (used : Option K) (l : Uses Ref) : Uses Ref :=
  let l : Uses Ref := l.filter fun x => x.1 ∈ c.map.values
  match used.bind c.map.get? with
  | some r => l.use r (l.count r + 1)
  | none => l

/-- The uses of a run of calls. -/
def usesOf : BaseCache K V T LFU → Uses Ref → List (Op K V T) → Uses Ref
  | _, l, [] => l
  | c, l, op :: ops =>
    match c.step op with
    | .ok (reply, c) => usesOf c (usesAfter c (op.used reply) l) ops
    | .error _ => l

/-- The policy has the uses of the nodes it holds. -/
def Kept (l : Uses Ref) (p : LFU) : Prop := p.Tracks (l.filter fun x => x.1 ∈ p.freq.keys)

theorem filter_tracked (h : p.Tracks l) : l.filter (fun x => x.1 ∈ p.freq.keys) = l :=
  filter_eq_self.mpr fun x hx =>
    decide_eq_true (Dict.mem_keys.mpr ⟨x.2, (h.freq x.1 x.2).mp hx⟩)

theorem Kept.of_tracks (h : p.Tracks l) : Kept l p := by rwa [Kept, filter_tracked h]

theorem Kept.unlink {p' : LFU} (h : Kept l p) (hunlink : p.unlink r = .ok p') : Kept l p' := by
  cases hr : p.freq.get? r with
  | none =>
    rw [LFU.unlink, hr] at hunlink
    cases hunlink
  | some =>
    obtain ⟨p1, hunlink', hfreq, htracks⟩ := LFU.Tracks.unlink h hr
    obtain rfl := Except.ok.inj (hunlink'.symm.trans hunlink)
    rwa [Uses.forget, List.filter_filter, filter_congr fun x _ => ?_] at htracks
    rw [hfreq, ← Bool.decide_and, decide_eq_decide]
    exact mem_keys_erase.symm

theorem Kept.victim {p' : LFU} (h : Kept l p) (hp : p.freq.keys ≠ [])
    (hvictim : p.victim = .ok (r, p')) :
    Kept l p' ∧ Uses.LeastUsed (l.filter fun x => x.1 ∈ p.freq.keys) r := by
  obtain ⟨v, hv⟩ := exists_mem_of_ne_nil _ hp
  obtain ⟨n, hn⟩ := Dict.mem_keys.mp hv
  obtain ⟨r1, p1, hvictim', hfreq, htracks, hleast⟩ :=
    LFU.Tracks.victim h (ne_nil_of_mem ((h.freq v n).mpr hn))
  obtain ⟨rfl, rfl⟩ := Prod.mk.inj (Except.ok.inj (hvictim'.symm.trans hvictim))
  exact ⟨by rwa [Kept, hfreq], hleast⟩

section

omit [Add T]

theorem Kept.remove (h : Kept l c.policy) (hremove : c.remove r = .ok c') : Kept l c'.policy := by
  obtain ⟨n, -, hremove⟩ := bind_eq_ok.mp hremove
  obtain ⟨-, -, hremove⟩ := bind_eq_ok.mp hremove
  obtain ⟨p, hunlink, hremove⟩ := bind_eq_ok.mp hremove
  rw [← pure_eq_ok.mp hremove]
  exact h.unlink hunlink

theorem Kept.purgeLoop {now : T} {heap : List (HeapEntry T)} {removed n : Nat}
    (h : Kept l c.policy) (hpurge : purgeLoop now heap removed c = .ok (n, c')) :
    Kept l c'.policy := by
  induction heap generalizing removed c with
  | nil =>
    obtain ⟨-, rfl⟩ := Prod.mk.inj (Except.ok.inj hpurge)
    exact h
  | cons _ _ ih =>
    rw [BaseCache.purgeLoop] at hpurge
    split at hpurge
    · obtain ⟨m, -, hpurge⟩ := bind_eq_ok.mp hpurge
      split at hpurge
      · obtain ⟨c1, hremove, hpurge⟩ := bind_eq_ok.mp hpurge
        refine ih ?_ hpurge
        show Kept l c1.policy
        exact h.remove hremove
      · exact ih h hpurge
    · obtain ⟨-, rfl⟩ := Prod.mk.inj (Except.ok.inj hpurge)
      exact h

theorem makeRoom_kept (h : c.WF) (htracks : c.policy.Tracks l)
    (hfull : c.config.capacity ≤ c.map.size)
    (later : T) : ∃ c', c.makeRoom later = .ok c' ∧ c'.WF ∧ c'.config = c.config ∧
    c'.nodes = c.nodes ∧
      c'.map.size < c.map.size ∧ (∀ k r, c'.map.get? k = some r → c.map.get? k = some r) ∧
      Kept l c'.policy ∧ ∀ k r, c.map.get? k = some r → c'.map.get? k = none →
        (c.nodes.read r).any (!·.isExpired later) → l.LeastUsed r := by
  obtain ⟨n, c1, c', hpurge, hwf1, hkeep, hsize, hroom, hwf, hconfig, hnodes, hless, hsub, hpurged,
    hevicted⟩ := makeRoom_spec h hfull later
  have hkept := (Kept.of_tracks htracks).purgeLoop hpurge
  have hlive : ∀ k r, c.map.get? k = some r → (c.nodes.read r).any (!·.isExpired later) →
      c1.map.get? k = some r := by
    intro k r hk hlive
    rw [hkeep.map, hk, filter_some, if_pos hlive]
  refine ⟨c', hroom, hwf, hconfig, hnodes, hless, hsub, ?_⟩
  by_cases hn : n = 0
  · obtain ⟨victim, p, key, hvictim, hkey, hkeep'⟩ := hevicted hn
    have hheld : c1.policy.freq.keys = c.policy.freq.keys := by
      have hlen := hwf1.core.length_refs
      have hrefs := hkeep.refs
      rw [show c1.map.size = c.map.size by omega, ← h.core.length_refs] at hlen
      exact hrefs.trans (filter_sublist.eq_of_length (hrefs ▸ hlen))
    obtain ⟨hkept', hleast⟩ := hkept.victim
      (ne_nil_of_mem (hwf1.core.mem_refs.mpr ⟨key, hkey⟩)) hvictim
    rw [hheld, filter_tracked htracks] at hleast
    rw [makeRoom, hpurge] at hroom
    obtain ⟨⟨r, p1⟩, hr, hroom⟩ := bind_eq_ok.mp ((if_pos hn).symm.trans hroom)
    obtain ⟨rfl, rfl⟩ := Prod.mk.inj (Except.ok.inj (hr.symm.trans hvictim))
    obtain ⟨c2, hremove, hroom⟩ := bind_eq_ok.mp hroom
    have hkept2 : Kept l c2.policy := Kept.remove hkept' hremove
    rw [← pure_eq_ok.mp hroom] at hkeep' ⊢
    refine ⟨hkept2, fun k r' hk hout hl => ?_⟩
    -- the only key that leaves is the victim's
    have hk1 := hlive k r' hk hl
    obtain ⟨m, hm, hmk⟩ := hwf1.core.node k r' hk1
    rw [hkeep'.map, hk1, filter_some, hm, any_some, hmk] at hout
    obtain rfl : k = key := by simpa using hout
    rw [hkey] at hk1
    rwa [← some.inj hk1]
  · obtain rfl := hpurged hn
    refine ⟨hkept, fun k r hk hout hl => ?_⟩
    rw [hlive k r hk hl] at hout
    cases hout

theorem ensureRoom_kept (h : c.WF) (htracks : c.policy.Tracks l) (later : T) :
    ∃ c', c.ensureRoom later = .ok c' ∧ c'.WF ∧ c'.config = c.config ∧ c'.nodes = c.nodes ∧
      (c'.map.size : Int) < c'.config.capacity ∧
      (∀ k r, c'.map.get? k = some r → c.map.get? k = some r) ∧ Kept l c'.policy ∧
      ∀ k r, c.map.get? k = some r → c'.map.get? k = none →
        (c.nodes.read r).any (!·.isExpired later) → l.LeastUsed r := by
  by_cases hfull : c.config.capacity ≤ c.map.size
  · obtain ⟨c', hroom, hwf, hconfig, hnodes, hless, hrest⟩ := makeRoom_kept h htracks hfull later
    have hsize := h.core.size
    exact ⟨c', (if_pos hfull).trans hroom, hwf, hconfig, hnodes, by rw [hconfig]; omega, hrest⟩
  · exact ⟨c, if_neg hfull, h, rfl, rfl, not_le.mp hfull, fun _ _ hr => hr, .of_tracks htracks,
      fun k r hk hout => nomatch hk.symm.trans hout⟩

/-! ## One call -/

theorem mem_values (h : c.WF) : r ∈ c.map.values ↔ r ∈ c.policy.freq.keys :=
  h.core.refs.mem_iff.symm

theorem Kept.tracks (h : Kept l c.policy) (hwf : c.WF) : c.policy.Tracks (usesAfter c none l) := by
  rwa [Kept, filter_congr fun x _ => decide_eq_decide.mpr (mem_values hwf).symm] at h

theorem touch_tracks {key : K} (h : c.WF) (htracks : c.policy.Tracks l)
    (hk : c.map.get? key = some r) (htouch : c.policy.touch r = .ok p) (hmap : c'.map = c.map)
    (hp : c'.policy = p) : c'.policy.Tracks (usesAfter c' (some key) l) := by
  obtain ⟨n, hn⟩ := Dict.mem_keys.mp (h.core.mem_refs.mpr ⟨key, hk⟩ : r ∈ c.policy.freq.keys)
  obtain ⟨p', htouch', -, htracks'⟩ := htracks.touch hn
  obtain rfl := Except.ok.inj (htouch'.symm.trans htouch)
  rw [usesAfter, bind_some, hmap, hk, hp]
  rwa [filter_congr fun x _ => decide_eq_decide.mpr (mem_values h), filter_tracked htracks]

end

theorem put_new {key : K} (h : c.WF) (htracks : c.policy.Tracks l)
    (hk : c.map.get? key = none) (value : V) {ttl : Option T} (httl : ¬ ∃ t ∈ ttl, t ≤ 0)
    (now later : T) : ∃ c', c.put key value ttl now later = .ok c' ∧ c'.WF ∧
      c'.policy.Tracks (usesAfter c' (some key) l) ∧
      ∀ k r, c.map.get? k = some r → c'.map.get? k = none →
        (c.nodes.read r).any (!·.isExpired later) → l.LeastUsed r := by
  obtain ⟨c1, hroom, h1, hconfig, hnodes, hsize, hsub, hkept, hleast⟩ :=
    ensureRoom_kept h htracks later
  obtain ⟨p, c', hinsert, hput, hwf, -, hmap, rfl, -⟩ :=
    put_insert hk value httl now later hroom h1 hconfig hsub hsize
  refine ⟨c', hput, hwf, ?_, fun k r hk' hout => hleast k r hk' ?_⟩
  · -- the new node has no uses yet
    have hfresh : ∀ c2 : BaseCache K V T LFU, c2.WF → c2.nodes = c.nodes →
        c1.nodes.next ∉ c2.policy.freq.keys := by
      intro c2 h2 hn hm
      obtain ⟨k, hk2⟩ := h2.core.mem_refs.mp hm
      have hlt := h2.core.allocated k _ hk2
      rw [hn, ← hnodes] at hlt
      exact Nat.lt_irrefl _ hlt
    have hnot : ∀ x ∈ l, x.1 ≠ c1.nodes.next := fun x hx hx1 =>
      hfresh c h rfl (hx1 ▸ Dict.mem_keys.mpr ⟨x.2, (htracks.freq x.1 x.2).mp hx⟩)
    have htracks' := LFU.Tracks.insert hkept (get?_eq_none.mpr (hfresh c1 h1 hnodes))
    have hp := Except.ok.inj hinsert
    have hheld : l.filter (fun x => x.1 ∈ c'.map.values) =
        l.filter fun x => x.1 ∈ c1.policy.freq.keys := by
      refine filter_congr fun x hx => decide_eq_decide.mpr ?_
      rw [mem_values hwf, ← hp, Dict.mem_keys, Dict.mem_keys]
      show (∃ n, (c1.policy.freq.set _ 1).get? _ = some n) ↔ _
      rw [get?_set_of_ne _ _ (hnot x hx)]
    rw [usesAfter, bind_some, hmap, get?_set_self, ← hmap]
    dsimp only
    rw [hheld, Uses.count_eq_zero fun m hm =>
      hnot _ (mem_filter.mp (mem_times.mp hm)).1 rfl, ← hp]
    exact htracks'
  · rw [hmap, get?_set] at hout
    split at hout
    · cases hout
    · exact hout

/-- One call keeps the policy's counts those of the calls so far. -/
theorem step_tracks (h : c.WF) (htracks : c.policy.Tracks l) (op : Op K V T) :
    ∃ reply c', c.step op = .ok (reply, c') ∧ c'.WF ∧
      c'.policy.Tracks (usesAfter c' (op.used reply) l) := by
  have hkept := Kept.of_tracks htracks
  cases op with
  | get key now =>
    cases hk : c.map.get? key with
    | none =>
      exact ⟨.value none, _, by rw [step, get_miss hk]; rfl,
        h.withStats { c.stats with misses := c.stats.misses + 1 }, hkept.tracks h⟩
    | some =>
    obtain ⟨n, hn, -, hnode, hheld⟩ := h.held hk
    cases hexp : n.isExpired now with
    | true =>
      obtain ⟨c', hget, hwf, -⟩ := get_expired h hheld hexp
      refine ⟨.value none, c', by rw [step, hget]; rfl, hwf, Kept.tracks ?_ hwf⟩
      rw [BaseCache.get, hk] at hget
      obtain ⟨n', hn', hget⟩ := bind_eq_ok.mp hget
      obtain rfl := Except.ok.inj (hnode.symm.trans hn')
      obtain ⟨c1, hremove, hget⟩ := bind_eq_ok.mp ((if_pos hexp).symm.trans hget)
      obtain ⟨-, rfl⟩ := Prod.mk.inj (pure_eq_ok.mp hget)
      show Kept l c1.policy
      exact hkept.remove hremove
    | false =>
      obtain ⟨p, c', htouch, hget, rfl, hwf⟩ := get_hit h hk hheld hexp
      exact ⟨.value (some n.value), _, by rw [step, hget]; rfl, hwf,
        touch_tracks h htracks hk htouch rfl rfl⟩
  | put key value ttl now later =>
    by_cases httl : ∃ t ∈ ttl, t ≤ 0
    · exact ⟨.raised _, c, by simp only [step, put_invalid httl]; rfl, h, hkept.tracks h⟩
    cases hk : c.map.get? key with
    | none =>
      obtain ⟨c', hput, hwf, htracks', -⟩ := put_new h htracks hk value httl now later
      exact ⟨.done, c', by simp only [step, hput], hwf, htracks'⟩
    | some =>
      obtain ⟨p, c', htouch, hput, hwf, -, hmap, hp, -⟩ := put_held h hk value httl now later
      exact ⟨.done, c', by simp only [step, hput], hwf,
        touch_tracks h htracks hk htouch hmap hp⟩
  | delete key =>
    obtain ⟨b, c', hdelete, hwf⟩ := delete_spec h key
    refine ⟨.held b, c', by rw [step, hdelete]; rfl, hwf, Kept.tracks ?_ hwf⟩
    rw [delete] at hdelete
    split at hdelete
    · obtain ⟨-, rfl⟩ := Prod.mk.inj (Except.ok.inj hdelete)
      exact hkept
    · obtain ⟨c1, hremove, hdelete⟩ := bind_eq_ok.mp hdelete
      obtain ⟨-, rfl⟩ := Prod.mk.inj (pure_eq_ok.mp hdelete)
      exact hkept.remove hremove
  | purgeExpired now =>
    obtain ⟨n, c', hpurge, hwf, -⟩ := purgeExpired_spec h now
    exact ⟨.count n, c', by rw [step, hpurge]; rfl, hwf, (hkept.purgeLoop hpurge).tracks hwf⟩
  | contains =>
    exact ⟨.held _, c, by rw [step, contains_spec h]; rfl, h, hkept.tracks h⟩

/-- The counts are those of the calls after every run. -/
theorem run_tracks (h : c.WF) (htracks : c.policy.Tracks l) (ops : List (Op K V T)) :
    ∃ replies c', runSteps step c ops = .ok (replies, c') ∧ c'.WF ∧
      c'.policy.Tracks (usesOf c l ops) := by
  induction ops generalizing c l with
  | nil => exact ⟨[], c, rfl, h, htracks⟩
  | cons op _ ih =>
    obtain ⟨reply, c1, hstep, h1, htracks1⟩ := step_tracks h htracks op
    obtain ⟨replies, c', hrun, hwf, htracks'⟩ := ih h1 htracks1
    refine ⟨reply :: replies, c', by simp only [runSteps, hstep, hrun], hwf, ?_⟩
    rwa [usesOf, hstep]

/-- `LFUCache` keeps its buckets: they hold what is in the cache by the number of its uses, the
    latest first. None is empty, and `_min_freq` is the least count if it is set; so there is a
    victim as long as the cache is not empty, and what a new key evicts was used least. -/
theorem run_leastUsed (config : Config T) (ops : List (Op K V T)) :
    ∃ replies c, runSteps step (BaseCache.new config : BaseCache K V T LFU) ops = .ok (replies, c) ∧
      c.policy.Tracks (usesOf (BaseCache.new config) [] ops) ∧
      (∀ r, r ∈ c.map.values ↔ ∃ n, (r, n) ∈ usesOf (BaseCache.new config) [] ops) ∧
      (c.map.values ≠ [] → ∃ r p, c.policy.victim = .ok (r, p) ∧ r ∈ c.map.values) ∧
      ∀ key value ttl now later c', c.map.get? key = none →
        c.put key value ttl now later = .ok c' →
        ∀ k r, c.map.get? k = some r → c'.map.get? k = none →
          (c.nodes.read r).any (!·.isExpired later) →
          (usesOf (BaseCache.new config) [] ops).LeastUsed r := by
  obtain ⟨replies, c, hrun, hwf, htracks⟩ := run_tracks (new_wf config) LFU.new_tracks ops
  have hheld : ∀ r, r ∈ c.map.values ↔ ∃ n, (r, n) ∈ usesOf (BaseCache.new config) [] ops := by
    intro r
    rw [mem_values hwf, Dict.mem_keys]
    exact exists_congr fun n => (htracks.freq r n).symm
  refine ⟨replies, c, hrun, htracks, hheld, fun hne => ?_, ?_⟩
  · obtain ⟨r, hr⟩ := exists_mem_of_ne_nil _ hne
    obtain ⟨n, hn⟩ := (hheld r).mp hr
    obtain ⟨v, p, hvictim, -, -, newer, m, older, hl, -⟩ := htracks.victim (ne_nil_of_mem hn)
    exact ⟨v, p, hvictim, (hheld v).mpr ⟨m, by rw [hl]; simp⟩⟩
  intro key value ttl now later c' hk hput k r hk' hout hlive
  by_cases httl : ∃ t ∈ ttl, t ≤ 0
  · rw [put_invalid httl] at hput
    cases hput
  · obtain ⟨c1, hput', -, -, hleast⟩ := put_new hwf htracks hk value httl now later
    obtain rfl := Except.ok.inj (hput'.symm.trans hput)
    exact hleast k r hk' hout hlive

end LFUCache

end InterviewPrep.LruCache
