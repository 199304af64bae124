/-
  Half-open intervals `[start, stop)` in a linear order, kept in a list.  A list is `Spaced` when
  its intervals are not empty and each ends before the next one starts: then the ends are sorted
  like the starts, and whether a new interval overlaps anything is seen at the one place where it
  would go (`Spaced.free_iff`).

  A navigable map: its entries in the order of their keys.  Two maps with the same entries are
  equal (`ext_get?`).

  Half-open intervals in a tree map, each under the point it starts at.  As long as no two of them
  overlap (`Disjoint`), an interval overlaps one of them exactly if it overlaps the one that
  starts next before it, or ends after the next one starts (`overlap_iff_neighbours`).
-/
import Mathlib.Data.List.Pairwise
import Mathlib.Data.List.Sort
import Mathlib.Order.Interval.Set.LinearOrder

namespace InterviewPrep.Lib

open List

variable {τ ι : Type*} [LinearOrder τ] {a b c d : τ}

/-- `[a, b)` and `[c, d)` have a point in common. -/
def Overlap (a b c d : τ) : Prop := (Set.Ico a b ∩ Set.Ico c d).Nonempty

theorem overlap_iff : Overlap a b c d ↔ a < b ∧ a < d ∧ c < b ∧ c < d := by
  rw [Overlap, Set.Ico_inter_Ico, Set.nonempty_Ico, sup_lt_iff, lt_inf_iff, lt_inf_iff]
  exact ⟨fun h => ⟨h.1.1, h.1.2, h.2.1, h.2.2⟩, fun h => ⟨⟨h.1, h.2.1⟩, h.2.2.1, h.2.2.2⟩⟩

instance (a b c d : τ) : Decidable (Overlap a b c d) := decidable_of_iff _ overlap_iff.symm

theorem overlap_iff_of_lt (hab : a < b) (hcd : c < d) : Overlap a b c d ↔ a < d ∧ c < b := by
  rw [overlap_iff]
  exact ⟨fun h => ⟨h.2.1, h.2.2.1⟩, fun h => ⟨hab, h.1, h.2, hcd⟩⟩

theorem not_overlap_iff_of_lt (hab : a < b) (hcd : c < d) : ¬ Overlap a b c d ↔ d ≤ a ∨ b ≤ c := by
  rw [overlap_iff_of_lt hab hcd, not_and_or, not_lt, not_lt]

section

variable (start stop : ι → τ)

/-- No interval is empty, and each ends before the next one starts. -/
structure Spaced (xs : List ι) : Prop where
  proper : ∀ x ∈ xs, start x < stop x
  apart : xs.Pairwise fun x y => stop x ≤ start y

end

namespace Spaced

variable {start stop : ι → τ} {xs ys : List ι} {s e : τ}

theorem nil : Spaced start stop ([] : List ι) :=
  ⟨nofun, List.Pairwise.nil⟩

section

variable (h : Spaced start stop xs)

include h

theorem sublist (hsub : ys.Sublist xs) : Spaced start stop ys :=
  ⟨fun x hx => h.proper x (hsub.subset hx), h.apart.sublist hsub⟩

theorem disjoint : xs.Pairwise fun x y => ¬ Overlap (start x) (stop x) (start y) (stop y) := by
  apply h.apart.imp
  intro _ _ hxy hoverlap
  exact absurd (overlap_iff.mp hoverlap).2.2.1 (not_lt.mpr hxy)

theorem starts : xs.Pairwise fun x y => start x ≤ start y := by
  apply h.apart.imp_of_mem
  intro _ _ hx _ hxy
  exact (h.proper _ hx).le.trans hxy

theorem stops : xs.Pairwise fun x y => stop x ≤ stop y := by
  apply h.apart.imp_of_mem
  intro _ y _ hy hxy
  exact hxy.trans (h.proper y hy).le

end

theorem append_iff : Spaced start stop (xs ++ ys) ↔
    Spaced start stop xs ∧ Spaced start stop ys ∧ ∀ x ∈ xs, ∀ y ∈ ys, stop x ≤ start y := by
  constructor
  · intro h
    exact ⟨h.sublist (sublist_append_left xs ys), h.sublist (sublist_append_right xs ys),
      (pairwise_append.mp h.apart).2.2⟩
  · rintro ⟨hx, hy, hxy⟩
    constructor
    · intro x hx'
      exact (mem_append.mp hx').elim (hx.proper x) (hy.proper x)
    · exact pairwise_append.mpr ⟨hx.apart, hy.apart, hxy⟩

/-- `[s, e)` is free exactly when the first interval that ends after `s` starts no
    earlier than `e`. -/
theorem free_iff (h : Spaced start stop (xs ++ ys)) (hse : s < e)
    (hpast : ∀ x ∈ xs, stop x ≤ s) (hahead : ∀ y ∈ ys, s < stop y) :
    (∀ x ∈ xs ++ ys, ¬ Overlap (start x) (stop x) s e) ↔ ∀ y ∈ ys.head?, e ≤ start y := by
  have hpast' : ∀ x ∈ xs, ¬ Overlap (start x) (stop x) s e := by
    intro x hx hoverlap
    exact absurd (overlap_iff.mp hoverlap).2.2.1 (not_lt.mpr (hpast x hx))
  constructor
  · intro hfree y hy
    have hmem : y ∈ ys := mem_of_mem_head? hy
    have hproper := h.proper y (mem_append_right xs hmem)
    rcases (not_overlap_iff_of_lt hproper hse).mp (hfree y (mem_append_right xs hmem)) with
      hle | hle
    · exact hle
    · exact absurd (hahead y hmem) (not_lt.mpr hle)
  intro hhead x hx
  rcases mem_append.mp hx with hx | hx
  · exact hpast' x hx
  have hle : e ≤ start x := by
    cases ys with
    | nil => cases hx
    | cons y =>
      have hy : e ≤ start y := hhead y rfl
      rcases mem_cons.mp hx with rfl | hx
      · exact hy
      · have hstarts := (append_iff.mp h).2.1.starts
        exact hy.trans ((pairwise_cons.mp hstarts).1 x hx)
  intro hoverlap
  exact absurd (overlap_iff.mp hoverlap).2.1 (not_lt.mpr hle)

theorem insert {x : ι} (h : Spaced start stop (xs ++ ys)) (hx : start x < stop x)
    (hfree : ∀ y ∈ xs ++ ys, ¬ Overlap (start y) (stop y) (start x) (stop x))
    (hbefore : ∀ y ∈ xs, start y ≤ start x) (hafter : ∀ y ∈ ys, start x < start y) :
    Spaced start stop (xs ++ x :: ys) := by
  obtain ⟨hxs, hys, hxy⟩ := append_iff.mp h
  have hxs' : ∀ y ∈ xs, stop y ≤ start x := by
    intro y hy
    rcases (not_overlap_iff_of_lt (hxs.proper y hy) hx).mp (hfree y (mem_append_left ys hy)) with
      hle | hle
    · exact absurd (hbefore y hy) (not_le.mpr (hx.trans_le hle))
    · exact hle
  have hys' : ∀ y ∈ ys, stop x ≤ start y := by
    intro y hy
    rcases (not_overlap_iff_of_lt (hys.proper y hy) hx).mp
      (hfree y (mem_append_right xs hy)) with hle | hle
    · exact hle
    · exact absurd ((hys.proper y hy).trans_le hle) (not_lt.mpr (hafter y hy).le)
  have hcons : Spaced start stop (x :: ys) := by
    constructor
    · intro y hy
      rcases mem_cons.mp hy with rfl | hy
      · exact hx
      · exact hys.proper y hy
    · exact pairwise_cons.mpr ⟨hys', hys.apart⟩
  apply append_iff.mpr
  refine ⟨hxs, hcons, ?_⟩
  intro y hy z hz
  rcases mem_cons.mp hz with rfl | hz
  · exact hxs' y hy
  · exact hxy y hy z hz

theorem of_map {κ : Type*} {start' stop' : κ → τ} {zs : List κ} (h : Spaced start stop xs)
    (hmap : zs.map (fun z => (start' z, stop' z)) = xs.map fun x => (start x, stop x)) :
    Spaced start' stop' zs := by
  constructor
  · intro z hz
    have hmem := mem_map_of_mem (f := fun z => (start' z, stop' z)) hz
    rw [hmap] at hmem
    obtain ⟨x, hx, heq⟩ := mem_map.mp hmem
    obtain ⟨hstart, hstop⟩ := Prod.mk.inj heq
    have hproper := h.proper x hx
    rwa [hstart, hstop] at hproper
  · have hpairs : (xs.map fun x => (start x, stop x)).Pairwise fun p q => p.2 ≤ q.1 :=
      pairwise_map.mpr h.apart
    rw [← hmap] at hpairs
    exact pairwise_map.mp hpairs

end Spaced

open Option

structure TreeMap (κ ν : Type*) [LinearOrder κ] where
  items : List (κ × ν)
  sorted : items.Pairwise fun a b => a.1 < b.1

namespace TreeMap

variable {κ ν : Type*} [LinearOrder κ]

def empty : TreeMap κ ν := ⟨[], List.Pairwise.nil⟩

/-- `get` -/
def get? (m : TreeMap κ ν) (k : κ) : Option ν := (m.items.find? fun x => x.1 = k).map Prod.snd

def keys (m : TreeMap κ ν) : List κ := m.items.map Prod.fst

def values (m : TreeMap κ ν) : List ν := m.items.map Prod.snd

theorem sorted_put (m : TreeMap κ ν) (k : κ) (v : ν) :
    (m.items.filter (fun x => x.1 < k) ++ (k, v) :: m.items.filter (fun x => k < x.1)).Pairwise
      fun a b => a.1 < b.1 := by
  rw [pairwise_append, pairwise_cons]
  refine ⟨m.sorted.filter _, ⟨?_, m.sorted.filter _⟩, ?_⟩
  · intro b hb
    simpa using (mem_filter.mp hb).2
  · intro a ha b hb
    have hak : a.1 < k := by simpa using (mem_filter.mp ha).2
    rcases mem_cons.mp hb with rfl | hb
    · exact hak
    · exact hak.trans (by simpa using (mem_filter.mp hb).2)

def put (m : TreeMap κ ν) (k : κ) (v : ν) : TreeMap κ ν :=
  ⟨m.items.filter (fun x => x.1 < k) ++ (k, v) :: m.items.filter (fun x => k < x.1),
    m.sorted_put k v⟩

def remove (m : TreeMap κ ν) (k : κ) : TreeMap κ ν :=
  ⟨m.items.filter fun x => x.1 ≠ k, m.sorted.filter _⟩

/-- The entry with the greatest key that is at most `k`. -/
def floorEntry (m : TreeMap κ ν) (k : κ) : Option (κ × ν) :=
  (m.items.filter fun x => x.1 ≤ k).getLast?

/-- The entry with the least key that is greater than `k`. -/
def higherEntry (m : TreeMap κ ν) (k : κ) : Option (κ × ν) := m.items.find? fun x => k < x.1

/-! ## Entries -/

variable {m m' : TreeMap κ ν} {k k' : κ} {v w : ν}

theorem keys_nodup (m : TreeMap κ ν) : m.keys.Nodup :=
  pairwise_map.mpr (m.sorted.imp LT.lt.ne)

theorem mem_items : (k, v) ∈ m.items ↔ m.get? k = some v := by
  rw [get?, map_eq_some_iff]
  constructor
  · intro hmem
    cases hfind : m.items.find? fun x => x.1 = k with
    | none =>
      have := find?_eq_none.mp hfind (k, v) hmem
      simp at this
    | some x =>
      have hkey : x.1 = k := by simpa using find?_some hfind
      have hx := mem_of_find?_eq_some hfind
      refine ⟨x, rfl, ?_⟩
      rw [inj_on_of_nodup_map m.keys_nodup hx hmem hkey]
  · rintro ⟨x, hfind, rfl⟩
    have hkey : x.1 = k := by simpa using find?_some hfind
    rw [← hkey]
    exact mem_of_find?_eq_some hfind

theorem get?_put (m : TreeMap κ ν) (k k' : κ) (v : ν) :
    (m.put k v).get? k' = if k' = k then some v else m.get? k' := by
  apply Option.ext
  intro w
  rw [← mem_items, put]
  simp only [mem_append, mem_cons, mem_filter, decide_eq_true_eq, Prod.mk.injEq, mem_items]
  by_cases h : k' = k
  · simp only [h, lt_irrefl, and_false, true_and, if_true, or_false, false_or, Option.some.injEq]
    exact eq_comm
  · simp only [h, false_and, false_or, if_false]
    constructor
    · exact fun hmem => hmem.elim And.left And.left
    · intro hget
      exact (lt_or_gt_of_ne h).imp (fun hlt => ⟨hget, hlt⟩) (fun hlt => ⟨hget, hlt⟩)

theorem get?_remove (m : TreeMap κ ν) (k k' : κ) :
    (m.remove k).get? k' = if k' = k then none else m.get? k' := by
  apply Option.ext
  intro w
  rw [← mem_items, remove]
  simp only [mem_filter, decide_eq_true_eq, mem_items]
  by_cases h : k' = k
  · simp [h]
  · simp [h]

theorem ext_get? (h : ∀ k, m.get? k = m'.get? k) : m = m' := by
  have hmem : ∀ x, x ∈ m.items ↔ x ∈ m'.items := by
    rintro ⟨k, v⟩
    rw [mem_items, mem_items, h]
  have hnodup : ∀ m : TreeMap κ ν, m.items.Nodup := fun m => m.sorted.imp fun hlt heq => by
    rw [heq] at hlt
    exact lt_irrefl _ hlt
  have hitems : m.items = m'.items := by
    apply ((perm_ext_iff_of_nodup (hnodup m) (hnodup m')).mpr hmem).eq_of_pairwise _ m.sorted
      m'.sorted
    exact fun a b _ _ hab hba => absurd hba hab.asymm
  cases m
  cases m'
  cases hitems
  rfl

theorem put_remove (h : m.get? k = some v) : (m.remove k).put k v = m := by
  apply ext_get?
  intro k'
  rw [get?_put, get?_remove]
  by_cases hk : k' = k
  · rw [if_pos hk, hk, h]
  · rw [if_neg hk, if_neg hk]

/-! ## Neighbours -/

theorem floorEntry_some {x : κ × ν} (h : m.floorEntry k = some x) :
    m.get? x.1 = some x.2 ∧ x.1 ≤ k ∧ ∀ k' v, m.get? k' = some v → k' ≤ k → k' ≤ x.1 := by
  rw [floorEntry] at h
  have hmem := mem_filter.mp (mem_of_getLast? h)
  refine ⟨mem_items.mp hmem.1, by simpa using hmem.2, ?_⟩
  intro k' v hget hle
  have hmem' : (k', v) ∈ m.items.filter fun x => x.1 ≤ k :=
    mem_filter.mpr ⟨mem_items.mpr hget, by simpa using hle⟩
  obtain ⟨ys, hys⟩ := getLast?_eq_some_iff.mp h
  have hsorted : (m.items.filter fun x => x.1 ≤ k).Pairwise fun a b => a.1 < b.1 :=
    m.sorted.filter _
  rw [hys] at hmem' hsorted
  rcases mem_append.mp hmem' with hys' | hlast
  · exact ((pairwise_append.mp hsorted).2.2 _ hys' _ mem_cons_self).le
  · rw [← mem_singleton.mp hlast]

theorem floorEntry_none (h : m.floorEntry k = none) : ∀ k' v, m.get? k' = some v → k < k' := by
  intro k' v hget
  rw [floorEntry, getLast?_eq_none_iff, filter_eq_nil_iff] at h
  simpa using h (k', v) (mem_items.mpr hget)

theorem higherEntry_some {x : κ × ν} (h : m.higherEntry k = some x) :
    m.get? x.1 = some x.2 ∧ k < x.1 ∧ ∀ k' v, m.get? k' = some v → k < k' → x.1 ≤ k' := by
  obtain ⟨hk, as, bs, hitems, hbefore⟩ := find?_eq_some_iff_append.mp h
  have hk : k < x.1 := by simpa using hk
  refine ⟨mem_items.mp (mem_of_find?_eq_some h), hk, ?_⟩
  intro k' v hget hlt
  have hmem := mem_items.mpr hget
  have hsorted := m.sorted
  rw [hitems] at hmem hsorted
  rcases mem_append.mp hmem with has | hbs
  · have := hbefore _ has
    simp at this
    exact absurd hlt (not_lt.mpr this)
  · rcases mem_cons.mp hbs with rfl | hbs
    · exact le_refl _
    · exact ((pairwise_cons.mp (pairwise_append.mp hsorted).2.1).1 _ hbs).le

theorem higherEntry_none (h : m.higherEntry k = none) : ∀ k' v, m.get? k' = some v → k' ≤ k := by
  intro k' v hget
  simpa using find?_eq_none.mp h (k', v) (mem_items.mpr hget)

variable {τ ν : Type*} [LinearOrder τ] {start stop : ν → τ} {m : TreeMap τ ν} {v w : ν} {s e : τ}

/-- Every interval is under its start, is not empty, and ends before the next one starts. -/
structure Disjoint (start stop : ν → τ) (m : TreeMap τ ν) : Prop where
  keyed : ∀ k v, m.get? k = some v → start v = k
  proper : ∀ k v, m.get? k = some v → start v < stop v
  apart : ∀ k v k' v', m.get? k = some v → m.get? k' = some v' → k < k' → stop v ≤ k'

theorem Disjoint.empty : Disjoint start stop (TreeMap.empty : TreeMap τ ν) :=
  ⟨fun _ _ h => (by cases h), fun _ _ h => (by cases h), fun _ _ _ _ h => (by cases h)⟩

/-- The interval is there, under its start. -/
def Has (start : ν → τ) (m : TreeMap τ ν) (v : ν) : Prop := m.get? (start v) = some v

section

variable (h : Disjoint start stop m)

include h

theorem Disjoint.has_of_get? {k : τ} (hv : m.get? k = some v) : Has start m v := by
  rw [Has, h.keyed k v hv, hv]

theorem Disjoint.mem_values : v ∈ m.values ↔ Has start m v := by
  constructor
  · intro hmem
    obtain ⟨⟨k, w⟩, hitem, rfl⟩ := List.mem_map.mp hmem
    exact h.has_of_get? (mem_items.mp hitem)
  · intro hv
    exact List.mem_map.mpr ⟨(start v, v), mem_items.mpr hv, rfl⟩

theorem Disjoint.not_overlap {k k' : τ} (hv : m.get? k = some v)
    (hw : m.get? k' = some w) (hne : k ≠ k') :
    ¬ Overlap (start v) (stop v) (start w) (stop w) := by
  rw [not_overlap_iff_of_lt (h.proper k v hv) (h.proper k' w hw), h.keyed k v hv, h.keyed k' w hw]
  rcases lt_or_gt_of_ne hne with hlt | hlt
  · exact Or.inr (h.apart k v k' w hv hw hlt)
  · exact Or.inl (h.apart k' w k v hw hv hlt)

theorem Disjoint.pairwise :
    m.values.Pairwise fun v w => ¬ Overlap (start v) (stop v) (start w) (stop w) := by
  apply pairwise_map.mpr
  apply m.sorted.imp_of_mem
  intro a b ha hb hlt
  exact h.not_overlap (mem_items.mp ha) (mem_items.mp hb) hlt.ne

theorem Disjoint.remove (k : τ) : Disjoint start stop (m.remove k) := by
  have hget : ∀ k' v, (m.remove k).get? k' = some v → m.get? k' = some v := by
    intro k' v hv
    rw [get?_remove] at hv
    split at hv
    · cases hv
    · exact hv
  constructor
  · exact fun k' v hv => h.keyed k' v (hget k' v hv)
  · exact fun k' v hv => h.proper k' v (hget k' v hv)
  · exact fun k1 v1 k2 v2 h1 h2 => h.apart k1 v1 k2 v2 (hget k1 v1 h1) (hget k2 v2 h2)

theorem Disjoint.put (hv : start v < stop v)
    (hfree : ∀ w, Has start m w → ¬ Overlap (start w) (stop w) (start v) (stop v)) :
    Disjoint start stop (m.put (start v) v) := by
  have hget : ∀ k w, (m.put (start v) v).get? k = some w →
      k = start v ∧ w = v ∨ k ≠ start v ∧ m.get? k = some w := by
    intro k w hw
    rw [get?_put] at hw
    split at hw
    next hk => exact Or.inl ⟨hk, (some.inj hw).symm⟩
    next hk => exact Or.inr ⟨hk, hw⟩
  constructor
  · intro k w hw
    rcases hget k w hw with ⟨rfl, rfl⟩ | ⟨-, hw⟩
    · rfl
    · exact h.keyed k w hw
  · intro k w hw
    rcases hget k w hw with ⟨rfl, rfl⟩ | ⟨-, hw⟩
    · exact hv
    · exact h.proper k w hw
  intro k w k' w' hw hw' hlt
  rcases hget k w hw with ⟨rfl, rfl⟩ | ⟨-, hold⟩
  · rcases hget k' w' hw' with ⟨rfl, rfl⟩ | ⟨-, hold'⟩
    · exact absurd hlt (lt_irrefl _)
    · have hproper := h.proper k' w' hold'
      have hapart := (not_overlap_iff_of_lt hproper hv).mp (hfree w' (h.has_of_get? hold'))
      rw [h.keyed k' w' hold'] at hapart hproper
      exact hapart.resolve_right fun hle => absurd hlt (not_lt.mpr (hproper.le.trans hle))
  · have hproper := h.proper k w hold
    rcases hget k' w' hw' with ⟨rfl, rfl⟩ | ⟨-, hold'⟩
    · have hapart := (not_overlap_iff_of_lt hproper hv).mp (hfree w (h.has_of_get? hold))
      rw [h.keyed k w hold] at hapart
      exact hapart.resolve_left fun hle => absurd hlt (not_lt.mpr (hv.le.trans hle))
    · exact h.apart k w k' w' hold hold' hlt

theorem Disjoint.has_put (hv : start v < stop v)
    (hfree : ∀ w, Has start m w → ¬ Overlap (start w) (stop w) (start v) (stop v)) :
    Has start (m.put (start v) v) w ↔ Has start m w ∨ w = v := by
  rw [Has, get?_put]
  constructor
  · intro hget
    split at hget
    · exact Or.inr (some.inj hget).symm
    · exact Or.inl hget
  rintro (hhas | rfl)
  · have hne : start w ≠ start v := by
      intro heq
      have hw := h.proper (start w) w hhas
      apply hfree w hhas
      rw [overlap_iff_of_lt hw hv]
      exact ⟨heq.trans_lt hv, heq.symm.trans_lt hw⟩
    rw [if_neg hne]
    exact hhas
  · rw [if_pos rfl]

end

theorem has_remove (hv : Has start m v) : Has start (m.remove (start v)) w ↔
    Has start m w ∧ w ≠ v := by
  rw [Has, get?_remove]
  constructor
  · intro hget
    split at hget
    · cases hget
    next hne =>
      refine ⟨hget, ?_⟩
      rintro rfl
      exact hne rfl
  rintro ⟨hget, hne⟩
  rw [if_neg]
  · exact hget
  · intro heq
    rw [Has] at hget hv
    rw [heq, hv] at hget
    exact hne (some.inj hget).symm

theorem Disjoint.overlap_iff_neighbours (h : Disjoint start stop m) (hse : s < e) :
    (∃ v, Has start m v ∧ Overlap (start v) (stop v) s e) ↔
      (∃ x, m.floorEntry s = some x ∧ Overlap (start x.2) (stop x.2) s e) ∨
        ∃ x, m.higherEntry s = some x ∧ x.1 < e := by
  constructor
  · rintro ⟨v, hv, hoverlap⟩
    have hproper := h.proper (start v) v hv
    have hends := (overlap_iff_of_lt hproper hse).mp hoverlap
    rcases le_or_gt (start v) s with hle | hlt
    · -- the entry at the floor starts no earlier, and what starts before it has ended
      cases hfloor : m.floorEntry s with
      | none => exact absurd hle (not_le.mpr (floorEntry_none hfloor (start v) v hv))
      | some x =>
        obtain ⟨hx, hxs, hmax⟩ := floorEntry_some hfloor
        have hkx := hmax (start v) v hv hle
        by_cases hk : start v = x.1
        · rw [Has] at hv
          rw [← hk, hv] at hx
          rw [some.inj hx] at hoverlap
          exact Or.inl ⟨x, rfl, hoverlap⟩
        · have hstop := h.apart (start v) v x.1 x.2 hv hx (lt_of_le_of_ne hkx hk)
          exact absurd hends.2 (not_lt.mpr (hstop.trans hxs))
    · cases hhigher : m.higherEntry s with
      | none => exact absurd hlt (not_lt.mpr (higherEntry_none hhigher (start v) v hv))
      | some x =>
        obtain ⟨-, -, hmin⟩ := higherEntry_some hhigher
        exact Or.inr ⟨x, rfl, (hmin (start v) v hv hlt).trans_lt hends.1⟩
  · rintro (⟨x, hfloor, hoverlap⟩ | ⟨x, hhigher, hlt⟩)
    · exact ⟨x.2, h.has_of_get? (floorEntry_some hfloor).1, hoverlap⟩
    · obtain ⟨hx, hsx, -⟩ := higherEntry_some hhigher
      refine ⟨x.2, h.has_of_get? hx, (overlap_iff_of_lt (h.proper x.1 x.2 hx) hse).mpr ?_⟩
      rw [h.keyed x.1 x.2 hx]
      exact ⟨hlt, hsx.trans (by
        have hproper := h.proper x.1 x.2 hx
        rwa [h.keyed x.1 x.2 hx] at hproper)⟩

end TreeMap

end InterviewPrep.Lib
