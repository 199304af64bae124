/-
  An insertion-ordered dictionary with unique keys: assigning to a key that is present keeps its
  position, assigning to a new key appends it.  This is the order a Python `dict` or `OrderedDict`
  iterates in; a Go map is the same dictionary read without its order.

  Uniqueness of the keys is a field, so lookup and membership in `items` agree (`mem_items`)
  without a side condition, and two permutation lemmas (`items_perm_of_get?`, `set_items_perm`)
  turn any sum over the items into a sum over the other items plus one.

  A map described by a log of updates, each of one key: `replay us c` is the map after the updates
  `us` of the map `c`.  What a key ends up with depends only on its own updates, so a listener
  that gets the updates of some keys has the map at those keys (`replay_filter`).
-/
import Mathlib.Data.List.Nodup
import Mathlib.Data.List.Perm.Basic

namespace InterviewPrep.Lib

open Function List

theorem ne_of_eq_none {α β : Type*} {f : α → Option β} {a a' : α} {b : β} (h : f a = some b)
    (h' : f a' = none) : a ≠ a' := by
  rintro rfl
  rw [h] at h'
  cases h'

/-- An insertion-ordered dictionary: its items, oldest key first. -/
structure Dict (κ ν : Type*) where
  items : List (κ × ν)
  nodup : (items.map Prod.fst).Nodup

namespace Dict

variable {κ ν : Type*} {d : Dict κ ν} {xs : List (κ × ν)} {k k' : κ} {v : ν}

/-- The dictionary with no key. -/
def empty : Dict κ ν := ⟨[], List.nodup_nil⟩

/-- The keys, oldest first. -/
def keys (d : Dict κ ν) : List κ := d.items.map Prod.fst

/-- The values, oldest key first. -/
def values (d : Dict κ ν) : List ν := d.items.map Prod.snd

/-- The number of keys. -/
def size (d : Dict κ ν) : Nat := d.items.length

/-- The dictionary without its oldest item: `popitem(last=False)`. -/
def dropFirst (d : Dict κ ν) : Dict κ ν :=
  ⟨d.items.tail, d.nodup.sublist ((List.tail_sublist d.items).map _)⟩

@[simp] theorem items_empty : (empty : Dict κ ν).items = [] := rfl

theorem keys_nodup (d : Dict κ ν) : d.keys.Nodup := d.nodup

theorem items_nodup (d : Dict κ ν) : d.items.Nodup := d.nodup.of_map

@[ext] theorem ext {d' : Dict κ ν} (h : d.items = d'.items) : d = d' := by
  cases d; cases d'; cases h; rfl

variable [DecidableEq κ]

/-! ## Association lists -/

/-- The value of the first item with key `k`. -/
def lookup : List (κ × ν) → κ → Option ν
  | [], _ => none
  | x :: xs, k => if x.1 = k then some x.2 else lookup xs k

/-- Give key `k` the value `v`, in place when `k` is present, else at the end. -/
def assign : List (κ × ν) → κ → ν → List (κ × ν)
  | [], k, v => [(k, v)]
  | x :: xs, k, v => if x.1 = k then (k, v) :: xs else x :: assign xs k v

/-- The items whose key is not `k`. -/
def without (xs : List (κ × ν)) (k : κ) : List (κ × ν) :=
  xs.filter (fun x => x.1 ≠ k)

theorem lookup_eq_none : lookup xs k = none ↔ k ∉ xs.map Prod.fst := by
  induction xs with
  | nil => simp [lookup]
  | cons x _ ih =>
    by_cases hk : x.1 = k
    · simp [lookup, hk]
    · simp only [lookup, if_neg hk, ih, map_cons, mem_cons, not_or]
      exact ⟨fun h => ⟨fun e => hk e.symm, h⟩, fun h => h.2⟩

theorem lookup_eq_some (hn : (xs.map Prod.fst).Nodup) : lookup xs k = some v ↔ (k, v) ∈ xs := by
  induction xs with
  | nil => simp [lookup]
  | cons x _ ih =>
    obtain ⟨hx, hn⟩ := nodup_cons.mp hn
    by_cases hk : x.1 = k
    · subst hk
      simp only [lookup, if_true, Option.some.injEq, mem_cons]
      constructor
      · rintro rfl
        exact Or.inl rfl
      · rintro (h | h)
        · rw [← h]
        · exact absurd (List.mem_map_of_mem (f := Prod.fst) h) hx
    · simp only [lookup, if_neg hk, ih hn, mem_cons]
      constructor
      · exact Or.inr
      · rintro (h | h)
        · exact absurd (by rw [← h]) hk
        · exact h

theorem assign_of_not_mem (v : ν) (h : k ∉ xs.map Prod.fst) : assign xs k v = xs ++ [(k, v)] := by
  induction xs with
  | nil => rfl
  | cons _ _ ih =>
    simp only [map_cons, mem_cons, not_or] at h
    rw [assign, if_neg (fun e => h.1 e.symm), ih h.2, cons_append]

theorem assign_keys_of_mem (v : ν) (h : k ∈ xs.map Prod.fst) :
    (assign xs k v).map Prod.fst = xs.map Prod.fst := by
  induction xs with
  | nil => simp at h
  | cons x xs ih =>
    by_cases hk : x.1 = k
    · simp [assign, hk]
    · simp only [map_cons, mem_cons] at h
      have h' : k ∈ xs.map Prod.fst := h.resolve_left (fun e => hk e.symm)
      simp only [assign, if_neg hk, map_cons, ih h']

theorem assign_nodup (hn : (xs.map Prod.fst).Nodup) (k : κ) (v : ν) :
    ((assign xs k v).map Prod.fst).Nodup := by
  by_cases h : k ∈ xs.map Prod.fst
  · rw [assign_keys_of_mem v h]
    exact hn
  · rw [assign_of_not_mem v h, map_append, nodup_append]
    refine ⟨hn, by simp, ?_⟩
    intro a ha b hb
    simp only [map_cons, map_nil, mem_singleton] at hb
    rw [hb]
    exact fun e => h (e ▸ ha)

theorem without_of_not_mem (h : k ∉ xs.map Prod.fst) : without xs k = xs := by
  refine filter_eq_self.mpr fun x hx => ?_
  simp only [ne_eq, decide_not, Bool.not_eq_true', decide_eq_false_iff_not]
  exact fun e => h (e ▸ List.mem_map_of_mem hx)

theorem assign_perm (hn : (xs.map Prod.fst).Nodup) (k : κ) (v : ν) :
    (assign xs k v).Perm ((k, v) :: without xs k) := by
  induction xs with
  | nil => simp [assign, without]
  | cons x xs ih =>
    obtain ⟨hx, hn⟩ := nodup_cons.mp hn
    by_cases hk : x.1 = k
    · subst hk
      have hw : without (x :: xs) x.1 = xs := by
        rw [without, filter_cons_of_neg (by simp)]
        exact without_of_not_mem hx
      rw [assign, if_pos rfl, hw]
    · have hw : without (x :: xs) k = x :: without xs k := by
        rw [without, filter_cons_of_pos (by simpa using hk), ← without]
      rw [assign, if_neg hk, hw]
      exact ((ih hn).cons x).trans (List.Perm.swap _ _ _)

/-! ## Lookup, assignment, removal -/

/-- `d.get(k)`: the value of `k`, or `none`. -/
def get? (d : Dict κ ν) (k : κ) : Option ν := lookup d.items k

/-- `d[k] = v`. -/
def set (d : Dict κ ν) (k : κ) (v : ν) : Dict κ ν :=
  ⟨assign d.items k v, assign_nodup d.nodup k v⟩

/-- The dictionary without key `k`; unchanged when `k` is absent. -/
def erase (d : Dict κ ν) (k : κ) : Dict κ ν :=
  ⟨without d.items k, (d.nodup.sublist (List.Sublist.map _ (List.filter_sublist)))⟩

/-- `dict(xs)`: the items assigned one after the other. -/
def ofList (xs : List (κ × ν)) : Dict κ ν := xs.foldl (fun d x => d.set x.1 x.2) empty

/-- Change every value in place. -/
def mapValues (d : Dict κ ν) (f : ν → ν) : Dict κ ν :=
  ⟨d.items.map fun x => (x.1, f x.2), by simpa [Function.comp_def] using d.nodup⟩

/-- Keep the keys that `p` holds for. -/
def filterKeys (d : Dict κ ν) (p : κ → Bool) : Dict κ ν :=
  ⟨d.items.filter fun x => p x.1, d.nodup.sublist (List.Sublist.map _ (List.filter_sublist))⟩

@[simp] theorem get?_empty (k : κ) : (empty : Dict κ ν).get? k = none := rfl

theorem mem_items : (k, v) ∈ d.items ↔ d.get? k = some v :=
  (lookup_eq_some d.nodup).symm

theorem mem_items_iff {x : κ × ν} : x ∈ d.items ↔ d.get? x.1 = some x.2 :=
  mem_items (k := x.1) (v := x.2)

theorem get?_eq_none : d.get? k = none ↔ k ∉ d.keys :=
  lookup_eq_none

theorem mem_keys : k ∈ d.keys ↔ ∃ v, d.get? k = some v := by
  rw [← not_iff_not, ← get?_eq_none, Option.eq_none_iff_forall_ne_some, not_exists]

theorem get?_mapValues (d : Dict κ ν) (f : ν → ν) (k : κ) :
    (d.mapValues f).get? k = (d.get? k).map f := by
  show lookup (d.items.map fun x => (x.1, f x.2)) k = (lookup d.items k).map f
  induction d.items with
  | nil => rfl
  | cons _ _ ih =>
    simp only [map_cons, lookup]
    split
    · rfl
    · exact ih

theorem get?_filterKeys (d : Dict κ ν) (p : κ → Bool) (k : κ) :
    (d.filterKeys p).get? k = if p k = true then d.get? k else none := by
  show lookup (d.items.filter fun x => p x.1) k = if p k = true then lookup d.items k else none
  induction d.items with
  | nil => simp [lookup]
  | cons x _ ih =>
    rw [filter_cons]
    by_cases hk : x.1 = k
    · subst hk
      by_cases hx : p x.1 = true
      · simp [hx, lookup]
      · rw [if_neg hx, ih, if_neg hx, if_neg hx]
    · rw [lookup, if_neg hk, ← ih]
      split
      · rw [lookup, if_neg hk]
      · rfl

theorem values_eq_filterMap (d : Dict κ ν) : d.values = d.keys.filterMap d.get? := by
  have hget : ∀ x ∈ d.items, d.get? x.1 = some x.2 := fun x hx => mem_items_iff.mp hx
  rw [values, keys, filterMap_map, ← filterMap_eq_map]
  exact filterMap_congr fun x hx => (hget x hx).symm

theorem items_erase (d : Dict κ ν) (k : κ) :
    (d.erase k).items = d.items.filter (fun x => x.1 ≠ k) := rfl

theorem set_items_of_get?_none (v : ν) (h : d.get? k = none) :
    (d.set k v).items = d.items ++ [(k, v)] :=
  assign_of_not_mem v (get?_eq_none.mp h)

theorem ofList_items (hn : (xs.map Prod.fst).Nodup) : (ofList xs).items = xs := by
  have hgen : ∀ (ys : List (κ × ν)) (d : Dict κ ν), ((d.items ++ ys).map Prod.fst).Nodup →
      (ys.foldl (fun d x => d.set x.1 x.2) d).items = d.items ++ ys := by
    intro ys
    induction ys with
    | nil => intro d _; rw [foldl_nil, append_nil]
    | cons y _ ih =>
      intro d hd
      have hy : d.get? y.1 = none := by
        rw [get?_eq_none]
        intro hmem
        rw [map_append, nodup_append] at hd
        exact hd.2.2 _ hmem _ (mem_cons_self ..) rfl
      have hset : (d.set y.1 y.2).items = d.items ++ [y] := set_items_of_get?_none y.2 hy
      rw [append_cons, ← hset] at hd
      rw [foldl_cons, ih _ hd, hset, ← append_cons]
  exact hgen xs empty (by simpa using hn)

theorem set_items_perm (d : Dict κ ν) (k : κ) (v : ν) :
    (d.set k v).items.Perm ((k, v) :: (d.erase k).items) :=
  assign_perm d.nodup k v

theorem get?_erase (d : Dict κ ν) (k k' : κ) :
    (d.erase k).get? k' = if k' = k then none else d.get? k' := by
  by_cases hk : k' = k
  · rw [if_pos hk, get?_eq_none, keys, items_erase, List.mem_map]
    rintro ⟨x, hx, hx'⟩
    have hne : x.1 ≠ k := by simpa using (mem_filter.mp hx).2
    exact hne (hx'.trans hk)
  · rw [if_neg hk]
    refine Option.ext fun v => ?_
    rw [← mem_items, ← mem_items, items_erase, mem_filter]
    simpa using fun _ => hk

@[simp] theorem get?_erase_self (d : Dict κ ν) (k : κ) : (d.erase k).get? k = none := by
  rw [get?_erase, if_pos rfl]

theorem get?_erase_of_ne (d : Dict κ ν) (h : k' ≠ k) : (d.erase k).get? k' = d.get? k' := by
  rw [get?_erase, if_neg h]

theorem get?_erase_some (h : (d.erase k).get? k' = some v) : k' ≠ k ∧ d.get? k' = some v := by
  rw [get?_erase] at h
  split at h
  case isTrue => cases h
  case isFalse hne => exact ⟨hne, h⟩

theorem get?_set (d : Dict κ ν) (k k' : κ) (v : ν) :
    (d.set k v).get? k' = if k' = k then some v else d.get? k' := by
  refine Option.ext fun w => ?_
  rw [← mem_items, (set_items_perm d k v).mem_iff, mem_cons, mem_items, get?_erase]
  by_cases hk : k' = k
  · rw [if_pos hk, if_pos hk, Prod.mk.injEq, Option.some.injEq]
    exact ⟨fun h => h.elim (fun h => h.2.symm) nofun,
      fun h => Or.inl ⟨hk, h.symm⟩⟩
  · rw [if_neg hk, if_neg hk, Prod.mk.injEq]
    exact ⟨fun h => h.resolve_left (fun h => hk h.1), Or.inr⟩

@[simp] theorem get?_set_self (d : Dict κ ν) (k : κ) (v : ν) : (d.set k v).get? k = some v := by
  rw [get?_set, if_pos rfl]

theorem get?_set_of_ne (d : Dict κ ν) (v : ν) (h : k' ≠ k) : (d.set k v).get? k' = d.get? k' := by
  rw [get?_set, if_neg h]

theorem get?_set_some {w : ν} (h : (d.set k v).get? k' = some w) :
    k' = k ∧ w = v ∨ k' ≠ k ∧ d.get? k' = some w := by
  rw [get?_set] at h
  split at h
  · next heq => exact Or.inl ⟨heq, (Option.some.inj h).symm⟩
  · next hne => exact Or.inr ⟨hne, h⟩

theorem mem_of_get?_ofList (h : (ofList xs).get? k = some v) : (k, v) ∈ xs := by
  have hgen : ∀ (xs : List (κ × ν)) (d : Dict κ ν),
      (xs.foldl (fun d x => d.set x.1 x.2) d).get? k = some v →
        d.get? k = some v ∨ (k, v) ∈ xs := by
    intro xs
    induction xs with
    | nil => exact fun d hd => .inl hd
    | cons x _ ih =>
      intro d hd
      obtain hd | hmem := ih _ hd
      · obtain ⟨rfl, rfl⟩ | ⟨-, hd⟩ := get?_set_some hd
        · exact .inr mem_cons_self
        · exact .inl hd
      · exact .inr (mem_cons_of_mem x hmem)
  obtain hempty | hmem := hgen xs empty h
  · cases hempty
  · exact hmem

theorem items_perm_of_get? (h : d.get? k = some v) :
    d.items.Perm ((k, v) :: (d.erase k).items) := by
  have hmem : (k, v) ∈ d.items := mem_items.mpr h
  refine (perm_ext_iff_of_nodup d.items_nodup ?_).mpr ?_
  · refine nodup_cons.mpr ⟨?_, (d.erase k).items_nodup⟩
    rw [mem_items, get?_erase_self]
    simp
  intro x
  rw [mem_cons, items_erase, mem_filter]
  by_cases hx : x.1 = k
  · have hiff : x ∈ d.items ↔ x = (k, v) := by
      rw [mem_items_iff, hx, h, Option.some.injEq, Prod.ext_iff]
      exact ⟨fun e => ⟨hx, e.symm⟩, fun e => e.2.symm⟩
    rw [hiff]
    simp [hx]
  · have hne : x ≠ (k, v) := fun e => hx (by rw [e])
    simp [hx, hne]

theorem erase_eq_of_get?_none (h : d.get? k = none) : (d.erase k).items = d.items :=
  without_of_not_mem (get?_eq_none.mp h)

theorem dropFirst_eq_erase (h : d.items = (k, v) :: xs) : d.dropFirst = d.erase k := by
  have hk : k ∉ xs.map Prod.fst := by
    have hn := d.nodup
    rw [h, map_cons] at hn
    exact (nodup_cons.mp hn).1
  have hl : d.dropFirst.items = xs := by simp only [dropFirst, h, tail_cons]
  have hr : (d.erase k).items = xs := by
    rw [items_erase, h, filter_cons_of_neg (by simp)]
    exact without_of_not_mem hk
  exact ext (hl.trans hr.symm)

/-- Give key `k` a value, or remove it. -/
def put (d : Dict κ ν) (k : κ) : Option ν → Dict κ ν
  | none => d.erase k
  | some v => d.set k v

theorem get?_put (d : Dict κ ν) (k k' : κ) (o : Option ν) :
    (d.put k o).get? k' = if k' = k then o else d.get? k' := by
  cases o with
  | none => exact get?_erase d k k'
  | some v => exact get?_set d k k' v

theorem set_set (d : Dict κ ν) (k : κ) (v w : ν) : (d.set k v).set k w = d.set k w := by
  apply ext
  show assign (assign d.items k v) k w = assign d.items k w
  induction d.items with
  | nil => simp [assign]
  | cons x _ ih =>
    by_cases hk : x.1 = k
    · simp [assign, hk]
    · simp [assign, hk, ih]

theorem set_eq_self (h : d.get? k = some v) : d.set k v = d := by
  apply ext
  have hlookup : lookup d.items k = some v := h
  show assign d.items k v = d.items
  revert hlookup
  induction d.items with
  | nil => simp [lookup]
  | cons x _ ih =>
    intro hlookup
    by_cases hk : x.1 = k
    · rw [lookup, if_pos hk] at hlookup
      rw [assign, if_pos hk, ← Option.some.inj hlookup, ← hk]
    · rw [lookup, if_neg hk] at hlookup
      rw [assign, if_neg hk, ih hlookup]

theorem put_self {o : Option ν} (h : d.get? k = o) : d.put k o = d := by
  cases o with
  | none => exact ext (erase_eq_of_get?_none h)
  | some => exact set_eq_self h

theorem erase_set_of_get?_none (h : d.get? k = none) : (d.set k v).erase k = d := by
  apply ext
  have hk : k ∉ d.items.map Prod.fst := get?_eq_none.mp h
  rw [items_erase, set_items_of_get?_none v h, filter_append,
    filter_cons_of_neg (by simp), filter_nil, append_nil]
  exact without_of_not_mem hk

theorem keys_set_of_get? {w : ν} (v : ν) (h : d.get? k = some w) : (d.set k v).keys = d.keys :=
  assign_keys_of_mem v (mem_keys.mpr ⟨w, h⟩)

theorem ext_keys {d' : Dict κ ν} (hkeys : d.keys = d'.keys) (h : ∀ k, d.get? k = d'.get? k) :
    d = d' := by
  have hitems : ∀ d : Dict κ ν,
      d.items = d.keys.filterMap fun k => (d.get? k).map fun v => (k, v) := by
    intro d
    have hsome : ∀ x ∈ d.items, some x = (d.get? x.1).map fun v => (x.1, v) := by
      intro x hx
      rw [mem_items_iff.mp hx]
      rfl
    rw [keys, filterMap_map]
    exact filterMap_some.symm.trans (filterMap_congr hsome)
  apply ext
  rw [hitems d, hitems d', hkeys]
  exact filterMap_congr fun k _ => by rw [h]

theorem mem_keys_set : k' ∈ (d.set k v).keys ↔ k' = k ∨ k' ∈ d.keys := by
  rw [mem_keys, mem_keys]
  by_cases hk : k' = k
  · simp [hk]
  · simp [get?_set_of_ne d v hk, hk]

theorem mem_keys_erase : k' ∈ (d.erase k).keys ↔ k' ≠ k ∧ k' ∈ d.keys := by
  rw [mem_keys, mem_keys]
  by_cases hk : k' = k
  · simp [hk]
  · simp [get?_erase_of_ne d hk, hk]

end Dict

/-- Give `key` the value, or remove it. -/
structure Update (κ ν : Type*) where
  key : κ
  value : Option ν

namespace UpdateLog

variable {κ ν : Type*} [DecidableEq κ]

/-- The map `c` after the updates `us`, oldest first. -/
def replay (us : List (Update κ ν)) (c : κ → Option ν) : κ → Option ν :=
  us.foldl (fun c u => Function.update c u.key u.value) c

variable {us vs : List (Update κ ν)} {c c' : κ → Option ν} {k : κ} {u : Update κ ν}

theorem replay_cons (u : Update κ ν) (us : List (Update κ ν)) (c : κ → Option ν) :
    replay (u :: us) c = replay us (Function.update c u.key u.value) := rfl

theorem replay_append (us vs : List (Update κ ν)) (c : κ → Option ν) :
    replay (us ++ vs) c = replay vs (replay us c) :=
  foldl_append

theorem replay_congr (us : List (Update κ ν)) (h : c k = c' k) :
    replay us c k = replay us c' k := by
  induction us generalizing c c' with
  | nil => exact h
  | cons u _ ih =>
    rw [replay_cons, replay_cons]
    refine ih ?_
    by_cases hk : k = u.key
    · rw [hk, update_self, update_self]
    · rw [update_of_ne hk, update_of_ne hk, h]

theorem replay_of_ne (h : ∀ u ∈ us, u.key ≠ k) : replay us c k = c k := by
  induction us generalizing c with
  | nil => rfl
  | cons u _ ih =>
    rw [replay_cons, ih fun v hv => h v (mem_cons_of_mem u hv)]
    exact update_of_ne (h u (mem_cons_self ..)).symm _ _

theorem replay_filter (p : κ → Bool) (us : List (Update κ ν)) (c : κ → Option ν) (k : κ) :
    replay (us.filter fun u => p u.key) c k = if p k then replay us c k else c k := by
  split
  next hk =>
    induction us generalizing c with
    | nil => rfl
    | cons u us ih =>
      rw [filter_cons, replay_cons]
      split
      next => rw [replay_cons, ih]
      next hu =>
        have hne : k ≠ u.key := fun e => hu (e ▸ hk)
        rw [ih]
        exact replay_congr us (update_of_ne hne _ _).symm
  next hk =>
    refine replay_of_ne fun u hu he => hk ?_
    rw [← he]
    exact (mem_filter.mp hu).2

theorem replay_eq_some {v : ν} (h : replay us c k = some v) :
    c k = some v ∨ ⟨k, some v⟩ ∈ us := by
  induction us generalizing c with
  | nil => exact Or.inl h
  | cons u _ ih =>
    rw [replay_cons] at h
    rcases ih h with hc | hmem
    · by_cases hk : k = u.key
      · rw [hk, update_self] at hc
        refine Or.inr (mem_cons.mpr (Or.inl ?_))
        rw [hk, ← hc]
      · rw [update_of_ne hk] at hc
        exact Or.inl hc
    · exact Or.inr (mem_cons_of_mem u hmem)

end UpdateLog

end InterviewPrep.Lib
