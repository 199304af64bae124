/-
  `z_algorithm` and `z_search` (15_advanced_strings/questions.py): how far a string agrees with
  itself from each position on, with the copy from inside the Z-box as the start of the
  comparison, and the search in pattern + '$' + text.  The value at a position is that of the
  pattern's agreement with the text from there, whatever the separator is.

  The three searches return the same positions (`searches_agree`).
-/
import InterviewPrep.StringMatching.KnuthMorrisPratt
import InterviewPrep.StringMatching.RabinKarp
import Mathlib.Data.List.Sort

namespace InterviewPrep.StringMatching

open Lib List

section

variable {α : Type} [DecidableEq α]

/-! ## The Z-array -/

/-- `while i + z[i] < n and text[z[i]] == text[i + z[i]]: z[i] += 1`. -/
def expandStep (text : List α) (i : Nat) (z : List Nat) : Except Stop (Option (List Nat)) := do
  let zi ← item z i
  if i + zi < text.length then
    if (← item text zi) = (← item text (i + zi)) then
      return some (← setItem z i (zi + 1))
    else return none
  else return none

structure Box where
  z : List Nat
  left : Nat
  right : Nat

/-- The value that the Z-box gives, if `i` is inside it. -/
def fromBox (i : Nat) (s : Box) : Except Stop (List Nat) :=
  if i ≤ s.right then do
    let earlier ← item s.z (i - s.left)
    setItem s.z i (min (s.right - i + 1) earlier)
  else return s.z

def boxStep (fuel : Nat) (text : List α) (i : Nat) (s : Box) : Except Stop Box := do
  let z ← fromBox i s
  let z ← whileLoop (expandStep text i) fuel z
  let zi ← item z i
  return if s.right < i + zi - 1 then ⟨z, i, i + zi - 1⟩ else { s with z }

def zAlgorithm (fuel : Nat) (text : List α) : Except Stop (List Nat) :=
  if text.length = 0 then .ok []
  else do
    let z ← setItem (List.replicate text.length 0) 0 text.length
    let s ← forRange 1 (text.length - 1) (boxStep fuel text) ⟨z, 0, 0⟩
    return s.z

variable {text : List α} {i fuel : Nat} {z : List Nat} {s : Box}

/-- The value at `i` is a length on which the text agrees with itself; the others are as before. -/
structure Expanding (text : List α) (i : Nat) (old z : List Nat) : Prop where
  length : z.length = text.length
  value : ∃ v, z[i]? = some v ∧ i + v ≤ text.length ∧ Agree text text 0 i v
  others : ∀ k, k ≠ i → z[k]? = old[k]?

theorem expandStep_spec {old : List Nat} (hi : i < text.length) (h : Expanding text i old z) :
    (expandStep text i z = .ok none ∧ ∃ v, z[i]? = some v ∧ MatchLength text i v) ∨
    ∃ z', expandStep text i z = .ok (some z') ∧ Expanding text i old z' ∧
      text.length - (z'[i]?).getD 0 < text.length - (z[i]?).getD 0 := by
  obtain ⟨v, hv, hfits, hagree⟩ := h.value
  have hread : i < z.length := by rw [h.length]; exact hi
  rw [expandStep, item_ok hv, ok_bind]
  by_cases hlt : i + v < text.length
  swap
  · rw [if_neg hlt]
    exact .inl ⟨rfl, v, hv, hfits, hagree, fun hlt' => absurd hlt' hlt⟩
  have hx := getElem?_eq_getElem (show v < text.length by omega)
  have hy := getElem?_eq_getElem hlt
  rw [if_pos hlt, item_ok hx, ok_bind, item_ok hy, ok_bind]
  by_cases heq : text[v] = text[i + v]
  · rw [if_pos heq, setItem_ok _ hread]
    have hset := getElem?_set_self (a := v + 1) hread
    refine .inr ⟨_, rfl, ⟨length_set.trans h.length, ⟨v + 1, hset, hlt, ?_⟩,
      fun k hk => (getElem?_set_ne (Ne.symm hk)).trans (h.others k hk)⟩, ?_⟩
    · rw [agree_succ, Nat.zero_add]
      exact ⟨hagree, by rw [hx, hy, heq]⟩
    · rw [hset, hv, Option.getD_some, Option.getD_some]
      omega
  · rw [if_neg heq]
    refine .inl ⟨rfl, v, hv, hfits, hagree, fun _ hxy => heq ?_⟩
    rw [hx, hy] at hxy
    exact Option.some.inj hxy

theorem expand_spec (hi : i < text.length) (hfuel : text.length < fuel) (h : Expanding text i z z) :
    ∃ z', whileLoop (expandStep text i) fuel z = .ok z' ∧
      z'.length = text.length ∧ (∃ v, z'[i]? = some v ∧ MatchLength text i v) ∧
      ∀ k, k ≠ i → z'[k]? = z[k]? := by
  have hstep : ∀ z', Expanding text i z z' → expandStep text i z' = .ok none ∨
      ∃ z'', expandStep text i z' = .ok (some z'') ∧ Expanding text i z z'' ∧
        text.length - (z''[i]?).getD 0 < text.length - (z'[i]?).getD 0 := by
    intro z' hz'
    obtain ⟨hdone, -⟩ | hnext := expandStep_spec hi hz'
    · exact .inl hdone
    · exact .inr hnext
  have henough : text.length - (z[i]?).getD 0 < fuel := by omega
  obtain ⟨z', hrun, hz', hdone⟩ := whileLoop_spec (Expanding text i z)
    (fun z => text.length - (z[i]?).getD 0) hstep h henough
  obtain ⟨-, hvalue⟩ | ⟨z'', hnext, -⟩ := expandStep_spec hi hz'
  · exact ⟨z', hrun, hz'.length, hvalue, hz'.others⟩
  · rw [hdone] at hnext
    cases hnext

/-- What holds before the position `i`. -/
structure Boxed (text : List α) (i : Nat) (s : Box) : Prop where
  length : s.z.length = text.length
  done : ∀ k < i, ∃ v, s.z[k]? = some v ∧ MatchLength text k v
  rest : ∀ k, i ≤ k → k < text.length → s.z[k]? = some 0
  left : s.left < i
  right : s.right < text.length
  proper : s.right = 0 ∨ 0 < s.left
  agree : Agree text text 0 s.left (s.right + 1 - s.left)

omit [DecidableEq α] in
theorem fromBox_spec (hi : i < text.length) (hpos : 0 < i) (h : Boxed text i s) :
    ∃ z, fromBox i s = .ok z ∧ Expanding text i s.z z := by
  have hleft := h.left
  have hright := h.right
  rw [fromBox]
  split
  next =>
    have hproper : 0 < s.left := by
      obtain hzero | hproper := h.proper
      · omega
      · exact hproper
    obtain ⟨v, hv, hmatch⟩ := h.done (i - s.left) (by omega)
    have hread : i < s.z.length := by rw [h.length]; exact hi
    rw [item_ok hv, ok_bind, setItem_ok _ hread]
    refine ⟨_, rfl, length_set.trans h.length, ⟨_, getElem?_set_self hread, ?_, ?_⟩,
      fun k hk => getElem?_set_ne (Ne.symm hk)⟩
    · omega
    · -- the text from `i` is the text from `i - left`, as far as the box goes
      have hbox := h.agree.part (i - s.left) (m := min (s.right - i + 1) v) (by omega)
      rw [Nat.zero_add, show s.left + (i - s.left) = i by omega] at hbox
      exact (hmatch.agree.mono (Nat.min_le_right _ _)).trans hbox
  next =>
    refine ⟨s.z, rfl, h.length, ⟨0, h.rest i (Nat.le_refl i) hi, Nat.le_of_lt hi, ?_⟩,
      fun _ _ => rfl⟩
    exact fun k hk => absurd hk (Nat.not_lt_zero k)

theorem boxStep_spec (hi : i < text.length) (hpos : 0 < i) (hfuel : text.length < fuel)
    (h : Boxed text i s) : ∃ s', boxStep fuel text i s = .ok s' ∧ Boxed text (i + 1) s' := by
  obtain ⟨z, hfrom, hz⟩ := fromBox_spec hi hpos h
  obtain ⟨z', hrun, hlength, ⟨v, hv, hmatch⟩, hothers⟩ :=
    expand_spec hi hfuel ⟨hz.length, hz.value, fun _ _ => rfl⟩
  have hold : ∀ k, k ≠ i → z'[k]? = s.z[k]? := fun k hk => (hothers k hk).trans (hz.others k hk)
  have hdone : ∀ k < i + 1, ∃ v, z'[k]? = some v ∧ MatchLength text k v := by
    intro k hk
    obtain hk | rfl := Nat.lt_succ_iff_lt_or_eq.mp hk
    · rw [hold k (by omega)]
      exact h.done k hk
    · exact ⟨v, hv, hmatch⟩
  have hrest : ∀ k, i + 1 ≤ k → k < text.length → z'[k]? = some 0 := by
    intro k hk hlt
    rw [hold k (by omega)]
    exact h.rest k (by omega) hlt
  have hfits := hmatch.fits
  rw [boxStep, hfrom, ok_bind, hrun, ok_bind, item_ok hv, ok_bind]
  split
  · refine ⟨_, rfl, hlength, hdone, hrest, Nat.lt_succ_self i, ?_, .inr hpos, ?_⟩
    · dsimp only
      omega
    · dsimp only
      rw [show i + v - 1 + 1 - i = v by omega]
      exact hmatch.agree
  · exact ⟨_, rfl, hlength, hdone, hrest, Nat.lt_succ_of_lt h.left, h.right, h.proper, h.agree⟩

theorem zAlgorithm_spec (text : List α) (hfuel : text.length < fuel) : ∃ z,
    zAlgorithm fuel text = .ok z ∧
      ∀ i < text.length, ∃ v, z[i]? = some v ∧ MatchLength text i v := by
  by_cases hempty : text.length = 0
  · exact ⟨[], if_pos hempty, fun i hi => by omega⟩
  have hpos : 0 < (List.replicate text.length 0).length := by
    rw [length_replicate]
    omega
  have hinit : Boxed text 1 ⟨(List.replicate text.length 0).set 0 text.length, 0, 0⟩ := by
    refine ⟨length_set.trans length_replicate, fun k hk => ?_, fun k hk hlt => ?_,
      Nat.one_pos, Nat.pos_of_ne_zero hempty, .inl rfl, fun k _ => rfl⟩
    · obtain rfl : k = 0 := by omega
      refine ⟨_, getElem?_set_self hpos, by omega, fun j _ => rfl, fun hlt => by omega⟩
    · dsimp only
      rw [getElem?_set_ne (by omega), getElem?_replicate_of_lt hlt]
  obtain ⟨s, hrun, hs⟩ := forRange_spec (n := text.length - 1) (Boxed text)
    (fun i s hlo hhi hs => boxStep_spec (by omega) hlo hfuel hs) hinit
  refine ⟨s.z, ?_, fun i hi => hs.done i (by omega)⟩
  rw [zAlgorithm, if_neg hempty, setItem_ok _ hpos, ok_bind, hrun]
  rfl

end

/-! ## The search -/

/-- '$'. -/
def separator : CodePoint := 36

def zSearch (fuel : Nat) (text pattern : Str) : Except Stop (List Nat) := do
  let combined := pattern ++ [separator] ++ text
  let z ← zAlgorithm fuel combined
  forRange (pattern.length + 1) (combined.length - (pattern.length + 1)) (fun i result => do
    let zi ← item z i
    return if pattern.length ≤ zi then result ++ [i - pattern.length - 1] else result) []

variable {text pattern : Str}

theorem combined_pattern {k : Nat} (hk : k < pattern.length) :
    (pattern ++ [separator] ++ text)[k]? = pattern[k]? := by
  rw [append_assoc, getElem?_append_left hk]

theorem combined_text (k : Nat) :
    (pattern ++ [separator] ++ text)[pattern.length + 1 + k]? = text[k]? := by
  rw [getElem?_append_right (by rw [length_append, length_singleton]; omega),
    length_append, length_singleton, Nat.add_sub_cancel_left]

theorem matchLength_combined {a v : Nat} (hpos : 0 < pattern.length)
    (h : MatchLength (pattern ++ [separator] ++ text) (pattern.length + 1 + a) v) :
    pattern.length ≤ v ↔ (text.drop a).take pattern.length = pattern := by
  rw [h.le_iff, slice_eq_iff hpos, length_append, length_append, length_singleton]
  refine and_congr (by omega) ⟨fun hagree k hk => ?_, fun hagree k hk => ?_⟩
  · have hcombined := hagree k hk
    rw [Nat.add_assoc, combined_text, Nat.zero_add, combined_pattern hk] at hcombined
    rwa [Nat.zero_add]
  · have hmatch := hagree k hk
    rw [Nat.zero_add] at hmatch
    rw [Nat.add_assoc, combined_text, Nat.zero_add, combined_pattern hk, hmatch]

/-- With an iteration for every element, the search returns the positions of the
    pattern in order. -/
theorem zSearch_spec (text : Str) (hpattern : pattern ≠ []) {fuel : Nat}
    (hfuel : text.length + pattern.length + 1 < fuel) : ∃ result,
    zSearch fuel text pattern = .ok result ∧ result.Pairwise (· < ·) ∧
      ∀ i, i ∈ result ↔ (text.drop i).take pattern.length = pattern := by
  have hpos := length_pos_iff.mpr hpattern
  have hlength : (pattern ++ [separator] ++ text).length = pattern.length + 1 + text.length := by
    rw [length_append, length_append, length_singleton]
  obtain ⟨z, hz, hvalues⟩ := zAlgorithm_spec (pattern ++ [separator] ++ text)
    (show _ < fuel by omega)
  have hbody : ∀ (i : Nat) (result : List Nat), pattern.length + 1 ≤ i →
      i < pattern.length + 1 + text.length →
      (result.Pairwise (· < ·) ∧ ∀ a, a ∈ result ↔ pattern.length + 1 + a < i ∧
        (text.drop a).take pattern.length = pattern) → ∃ result',
      (do
        let zi ← item z i
        return if pattern.length ≤ zi then result ++ [i - pattern.length - 1] else result :
          Except Stop (List Nat)) = .ok result' ∧
      (result'.Pairwise (· < ·) ∧ ∀ a, a ∈ result' ↔ pattern.length + 1 + a < i + 1 ∧
        (text.drop a).take pattern.length = pattern) := by
    intro i result hlo hhi ⟨hsorted, hmem⟩
    obtain ⟨a, rfl⟩ : ∃ a, i = pattern.length + 1 + a := ⟨i - (pattern.length + 1), by omega⟩
    obtain ⟨v, hv, hmatch⟩ := hvalues _ (show pattern.length + 1 + a < _ by omega)
    have hiff := matchLength_combined hpos hmatch
    rw [item_ok hv, ok_bind, show pattern.length + 1 + a - pattern.length - 1 = a by omega]
    refine ⟨_, rfl, ?_⟩
    split
    next hle =>
      refine ⟨pairwise_append.mpr ⟨hsorted, pairwise_singleton _ _, ?_⟩, fun b => ?_⟩
      · intro b hb c hc
        rw [mem_singleton.mp hc]
        have := ((hmem b).mp hb).1
        omega
      rw [mem_append, mem_singleton, hmem]
      constructor
      · rintro (⟨hlt, hb⟩ | rfl)
        · exact ⟨by omega, hb⟩
        · exact ⟨Nat.lt_succ_self _, hiff.mp hle⟩
      · rintro ⟨hlt, hb⟩
        by_cases heq : b = a
        · exact .inr heq
        · exact .inl ⟨by omega, hb⟩
    next hnot =>
      refine ⟨hsorted, fun b => ?_⟩
      rw [hmem]
      refine ⟨fun ⟨hlt, hb⟩ => ⟨by omega, hb⟩, fun ⟨hlt, hb⟩ => ⟨?_, hb⟩⟩
      have hne : b ≠ a := by
        rintro rfl
        exact hnot (hiff.mpr hb)
      omega
  obtain ⟨result, hrun, hsorted, hmem⟩ := forRange_spec (fun i (result : List Nat) =>
    result.Pairwise (· < ·) ∧ ∀ a, a ∈ result ↔ pattern.length + 1 + a < i ∧
      (text.drop a).take pattern.length = pattern) hbody
    ⟨List.Pairwise.nil, fun a => ⟨nofun, fun ⟨hlt, _⟩ => by omega⟩⟩
  refine ⟨result, ?_, hsorted, fun a => ?_⟩
  · rw [zSearch, hz, ok_bind, hlength, Nat.add_sub_cancel_left]
    exact hrun
  · rw [hmem]
    refine ⟨And.right, fun ha => ⟨?_, ha⟩⟩
    have := ((slice_eq_iff hpos).mp ha).1
    omega

/-! ## The three searches -/

/-- The three searches return the same: every position at which the pattern occurs, in order. -/
theorem searches_agree (text : Str) (hpattern : pattern ≠ []) : ∃ result,
    (result.Pairwise (· < ·) ∧ ∀ i, i ∈ result ↔ (text.drop i).take pattern.length = pattern) ∧
    rabinKarp text pattern = .ok result ∧ ∃ enough, ∀ fuel, enough ≤ fuel →
      kmpSearch fuel text pattern = .ok result ∧ zSearch fuel text pattern = .ok result := by
  obtain ⟨result, hrabin, hsorted, hmem⟩ := rabinKarp_spec text hpattern
  have hunique : ∀ other : List Nat, other.Pairwise (· < ·) →
      (∀ i, i ∈ other ↔ (text.drop i).take pattern.length = pattern) → other = result :=
    fun other hother hiff => hother.eq_of_mem_iff hsorted fun i => (hiff i).trans (hmem i).symm
  refine ⟨result, ⟨hsorted, hmem⟩, hrabin, 2 * (text.length + pattern.length) + 2,
    fun fuel hfuel => ⟨?_, ?_⟩⟩
  · obtain ⟨found, hkmp, hfound, hiff⟩ := kmpSearch_spec text hpattern
      (show _ < fuel by omega)
    rw [hkmp, hunique found hfound hiff]
  · obtain ⟨found, hz, hfound, hiff⟩ := zSearch_spec text hpattern
      (show _ < fuel by omega)
    rw [hz, hunique found hfound hiff]

/-- "aa" occurs twice in "aaa". -/
theorem searches_agree_overlap : ∃ enough, ∀ fuel, enough ≤ fuel →
    kmpSearch fuel ([97, 97, 97] : Str) [97, 97] = .ok [0, 1] ∧
      zSearch fuel [97, 97, 97] [97, 97] = .ok [0, 1] := by
  obtain ⟨result, -, hrabin, hagree⟩ :=
    searches_agree [97, 97, 97] (show ([97, 97] : Str) ≠ [] by decide)
  obtain rfl : result = [0, 1] := by
    have hresult : rabinKarp [97, 97, 97] [97, 97] = .ok [0, 1] := by decide +kernel
    rw [hrabin] at hresult
    exact Except.ok.inj hresult
  exact hagree

end InterviewPrep.StringMatching
