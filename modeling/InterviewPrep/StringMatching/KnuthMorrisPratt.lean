/-
  `kmp_search` (15_advanced_strings/questions.py): the loop that builds the table of longest
  borders and the scan of the text.  Both loops move a prefix of the pattern along a text, the
  first one along the pattern itself: its length is always a `Candidate`, and of two numbers,
  how far the text is read and how long the prefix is, each iteration raises the first or
  lowers the second.
-/
import InterviewPrep.Lib.Loops
import InterviewPrep.Lib.Strings

namespace InterviewPrep.StringMatching

open Lib List

variable {α : Type} [DecidableEq α]

/-! ## The search -/

/-- The variables of the loop that builds `lps`. -/
structure Build where
  lps : List Nat
  length : Nat
  i : Nat

def buildStep (pattern : List α) (s : Build) : Except Stop (Option Build) :=
  if s.i < pattern.length then do
    if (← item pattern s.i) = (← item pattern s.length) then
      let lps ← setItem s.lps s.i (s.length + 1)
      return some ⟨lps, s.length + 1, s.i + 1⟩
    else if s.length ≠ 0 then
      let length ← item s.lps (s.length - 1)
      return some { s with length }
    else
      let lps ← setItem s.lps s.i 0
      return some { s with lps, i := s.i + 1 }
  else return none

/-- The variables of the scan. -/
structure Scan where
  i : Nat
  j : Nat
  result : List Nat

/-- `i < len(text) and text[i] != pattern[j]`. -/
def mismatch (text pattern : List α) (i j : Nat) : Except Stop Bool :=
  if i < text.length then do
    return (← item text i) ≠ (← item pattern j)
  else return false

/-- The second half of an iteration: record a match, fall back or move on. -/
def settle (text pattern : List α) (lps : List Nat) (s : Scan) : Except Stop Scan :=
  if s.j = pattern.length then do
    let j ← item lps (s.j - 1)
    return ⟨s.i, j, s.result ++ [s.i - s.j]⟩
  else do
    if ← mismatch text pattern s.i s.j then
      if s.j ≠ 0 then
        let j ← item lps (s.j - 1)
        return { s with j }
      else return { s with i := s.i + 1 }
    else return s

def scanStep (text pattern : List α) (lps : List Nat) (s : Scan) : Except Stop (Option Scan) :=
  if s.i < text.length then do
    let s' := if (← item text s.i) = (← item pattern s.j) then
      { s with i := s.i + 1, j := s.j + 1 } else s
    return some (← settle text pattern lps s')
  else return none

def kmpSearch (fuel : Nat) (text pattern : List α) : Except Stop (List Nat) :=
  if pattern = [] then .ok (List.range (text.length + 1))
  else do
    let built ← whileLoop (buildStep pattern) fuel ⟨List.replicate pattern.length 0, 0, 1⟩
    let scanned ← whileLoop (scanStep text pattern built.lps) fuel ⟨0, 0, []⟩
    return scanned.result

/-! ## The table -/

/-- The table has the longest border of every prefix up to `n`. -/
def Borders (pattern : List α) (lps : List Nat) (n : Nat) : Prop :=
  lps.length = pattern.length ∧
    ∀ j, 0 < j → j ≤ n → ∃ k, lps[j - 1]? = some k ∧ LongestBorder pattern j k

/-- What holds before each iteration of the loop that builds the table. -/
structure Building (pattern : List α) (s : Build) : Prop where
  pos : 0 < s.i
  le : s.i ≤ pattern.length
  lt : s.length < s.i
  candidate : Candidate pattern pattern s.i s.length s.i
  borders : Borders pattern s.lps s.i

variable {pattern : List α}

omit [DecidableEq α] in
theorem Borders.set {lps : List Nat} {n k : Nat} (h : Borders pattern lps n)
    (hlt : n < pattern.length) (hborder : LongestBorder pattern (n + 1) k) :
    Borders pattern (lps.set n k) (n + 1) := by
  refine ⟨(length_set).trans h.1, fun j hpos hle => ?_⟩
  by_cases hj : j = n + 1
  · subst hj
    exact ⟨k, getElem?_set_self (by rw [h.1]; exact hlt), hborder⟩
  · obtain ⟨k', hk', hborder'⟩ := h.2 j hpos (by omega)
    exact ⟨k', (getElem?_set_ne (by omega)).trans hk', hborder'⟩

theorem buildStep_spec {s : Build} (h : Building pattern s)
    (hi : s.i < pattern.length) : ∃ s', buildStep pattern s = .ok (some s') ∧
      Building pattern s' ∧
      2 * (pattern.length - s'.i) + s'.length < 2 * (pattern.length - s.i) + s.length := by
  have hlt := h.lt
  have hlength : s.length < pattern.length := by omega
  have hread : s.i < s.lps.length := by rw [h.borders.1]; exact hi
  have hx := getElem?_eq_getElem hi
  have hy := getElem?_eq_getElem hlength
  have hstep : buildStep pattern s =
      if pattern[s.i] = pattern[s.length] then
        .ok (some ⟨s.lps.set s.i (s.length + 1), s.length + 1, s.i + 1⟩)
      else if s.length ≠ 0 then
        item s.lps (s.length - 1) >>= fun length => .ok (some { s with length })
      else .ok (some { s with lps := s.lps.set s.i 0, i := s.i + 1 }) := by
    simp only [buildStep, if_pos hi, item_ok hx, item_ok hy, ok_bind, setItem_ok _ hread]
    rfl
  rw [hstep]
  by_cases heq : pattern[s.i] = pattern[s.length]
  · rw [if_pos heq]
    have heq' : pattern[s.length]? = pattern[s.i]? := by rw [hx, hy, heq]
    refine ⟨_, rfl, ⟨by dsimp only; omega, hi, by dsimp only; omega,
      h.candidate.advance heq' (Nat.le_refl _), ?_⟩, by dsimp only; omega⟩
    exact h.borders.set hi (h.candidate.longestBorder heq' hlt)
  have hne : pattern[s.length]? ≠ pattern[s.i]? := by
    rw [hx, hy]
    exact fun h => heq (Option.some.inj h).symm
  rw [if_neg heq]
  by_cases hzero : s.length = 0
  · rw [if_neg (not_not.mpr hzero)]
    have hcandidate := h.candidate
    rw [hzero] at hcandidate hne
    refine ⟨_, rfl, ⟨by dsimp only; omega, hi, by dsimp only; omega, ?_, ?_⟩,
      by dsimp only; omega⟩
    · dsimp only
      rw [hzero]
      exact hcandidate.skip hne (Nat.le_refl _)
    · exact h.borders.set hi (hcandidate.longestBorder_zero hne)
  · rw [if_pos hzero]
    obtain ⟨k, hk, hborder⟩ := h.borders.2 s.length (Nat.pos_of_ne_zero hzero) (Nat.le_of_lt hlt)
    rw [item_ok hk, ok_bind]
    have hklt := hborder.lt
    refine ⟨_, rfl, ⟨h.pos, h.le, by dsimp only; omega, ?_, h.borders⟩, by dsimp only; omega⟩
    exact h.candidate.fallback hborder fun hends => hne (endsAt_succ.mp hends.2).2

theorem build_spec (hpattern : pattern ≠ []) (fuel : Nat)
    (hfuel : 2 * pattern.length ≤ fuel) : ∃ built,
      whileLoop (buildStep pattern) fuel ⟨List.replicate pattern.length 0, 0, 1⟩ = .ok built ∧
      Borders pattern built.lps pattern.length := by
  have hpos := length_pos_iff.mpr hpattern
  have hinit : Building pattern ⟨List.replicate pattern.length 0, 0, 1⟩ := by
    refine ⟨Nat.one_pos, hpos, Nat.one_pos, ⟨endsAt_zero _ _ _, fun k hk _ => hk⟩,
      length_replicate, fun j hj hle => ?_⟩
    obtain rfl : j = 1 := by dsimp only at hle; omega
    refine ⟨0, getElem?_replicate_of_lt hpos, Nat.one_pos, endsAt_zero _ _ _, ?_⟩
    intro k hk _
    omega
  have hstep : ∀ s, Building pattern s → buildStep pattern s = .ok none ∨
      ∃ s', buildStep pattern s = .ok (some s') ∧ Building pattern s' ∧
        2 * (pattern.length - s'.i) + s'.length < 2 * (pattern.length - s.i) + s.length := by
    intro s hs
    by_cases hi : s.i < pattern.length
    · exact .inr (buildStep_spec hs hi)
    · exact .inl (if_neg hi)
  have henough : 2 * (pattern.length - 1) + 0 < fuel := by omega
  obtain ⟨built, hrun, hbuilt, hdone⟩ := whileLoop_spec (Building pattern)
    (fun s => 2 * (pattern.length - s.i) + s.length) hstep hinit henough
  refine ⟨built, hrun, ?_⟩
  have hle := hbuilt.le
  have hge : pattern.length ≤ built.i := by
    by_contra hlt
    obtain ⟨s', hnext, -⟩ := buildStep_spec hbuilt (by omega)
    rw [hdone] at hnext
    cases hnext
  rw [show pattern.length = built.i by omega]
  exact hbuilt.borders

/-! ## The scan -/

/-- The positions up to which a match has ended, in their order. -/
structure Found (text pattern : List α) (i : Nat) (result : List Nat) : Prop where
  sorted : result.Pairwise (· < ·)
  mem : ∀ a, a ∈ result ↔ a + pattern.length ≤ i ∧ Agree pattern text 0 a pattern.length

variable {text pattern : List α} {i j : Nat} {result : List Nat}

omit [DecidableEq α] in
theorem ends_length_iff {a : Nat} : EndsAt pattern text pattern.length (a + pattern.length) ↔
      Agree pattern text 0 a pattern.length := by
  rw [EndsAt, Nat.add_sub_cancel]
  exact and_iff_right (Nat.le_add_left _ _)

omit [DecidableEq α] in
theorem Found.keep (h : Found text pattern i result)
    (hnot : ¬ EndsAt pattern text pattern.length (i + 1)) : Found text pattern (i + 1) result := by
  refine ⟨h.sorted, fun a => (h.mem a).trans ⟨fun ⟨hle, hagree⟩ => ⟨by omega, hagree⟩,
    fun ⟨hle, hagree⟩ => ⟨?_, hagree⟩⟩⟩
  by_contra hlt
  rw [← ends_length_iff, show a + pattern.length = i + 1 by omega] at hagree
  exact hnot hagree

omit [DecidableEq α] in
theorem Found.add (h : Found text pattern i result)
    (hends : EndsAt pattern text pattern.length (i + 1)) :
    Found text pattern (i + 1) (result ++ [i + 1 - pattern.length]) := by
  have hlength := hends.1
  refine ⟨pairwise_append.mpr ⟨h.sorted, pairwise_singleton _ _, ?_⟩, fun a => ?_⟩
  · intro a ha b hb
    obtain rfl := mem_singleton.mp hb
    have := ((h.mem a).mp ha).1
    omega
  rw [mem_append, mem_singleton, h.mem a]
  constructor
  · rintro (⟨hle, hagree⟩ | rfl)
    · exact ⟨by omega, hagree⟩
    · exact ⟨by omega, hends.2⟩
  · rintro ⟨hle, hagree⟩
    by_cases hlt : a + pattern.length ≤ i
    · exact .inl ⟨hlt, hagree⟩
    · exact .inr (by omega)

/-- What holds before each iteration of the scan. -/
structure Scanning (text pattern : List α) (s : Scan) : Prop where
  le : s.i ≤ text.length
  lt : s.j < pattern.length
  candidate : Candidate pattern text pattern.length s.j s.i
  found : Found text pattern s.i s.result

/-- The number that each iteration lowers. -/
def remaining (text : List α) (s : Scan) : Nat := 2 * (text.length - s.i) + s.j

variable {lps : List Nat} {s : Scan}

theorem settle_whole (htable : Borders pattern lps pattern.length) (hpos : 0 < pattern.length)
    (hle : s.i ≤ text.length) (hj : s.j = pattern.length)
    (hcandidate : Candidate pattern text pattern.length s.j s.i)
    (hfound : Found text pattern s.i (s.result ++ [s.i - s.j])) :
    ∃ s', settle text pattern lps s = .ok s' ∧ Scanning text pattern s' ∧
      remaining text s' < remaining text s := by
  obtain ⟨k, hk, hborder⟩ := htable.2 s.j (by omega) (by omega)
  have hlt := hborder.lt
  refine ⟨⟨s.i, k, s.result ++ [s.i - s.j]⟩, ?_, ⟨hle, by dsimp only; omega, ?_, hfound⟩, ?_⟩
  · rw [settle, if_pos hj, item_ok hk]
    rfl
  · exact hcandidate.fallback hborder fun hends => by omega
  · show 2 * (text.length - s.i) + k < 2 * (text.length - s.i) + s.j
    omega

theorem mismatch_ok (hj : j < pattern.length) : mismatch text pattern i j =
    .ok (decide (i < text.length ∧ text[i]? ≠ pattern[j]?)) := by
  have hy := getElem?_eq_getElem hj
  rw [mismatch]
  split
  next hi =>
    have hx := getElem?_eq_getElem hi
    rw [item_ok hx, item_ok hy, ok_bind, ok_bind, hx, hy]
    simp [hi]
    rfl
  next hi => simp [hi]; rfl

theorem settle_part (htable : Borders pattern lps pattern.length) (h : Scanning text pattern s) :
    ∃ s', settle text pattern lps s = .ok s' ∧ Scanning text pattern s' ∧
      remaining text s' ≤ remaining text s ∧ (s.i < text.length → text[s.i]? ≠ pattern[s.j]? →
        remaining text s' < remaining text s) := by
  have hlt := h.lt
  rw [settle, if_neg (by omega), mismatch_ok hlt, ok_bind]
  by_cases hne : s.i < text.length ∧ text[s.i]? ≠ pattern[s.j]?
  swap
  · rw [decide_eq_false hne]
    exact ⟨s, rfl, h, Nat.le_refl _, fun hi hx => absurd ⟨hi, hx⟩ hne⟩
  rw [decide_eq_true hne, if_pos rfl]
  obtain ⟨hi, hne⟩ := hne
  have hnot : ¬ EndsAt pattern text (s.j + 1) (s.i + 1) := fun hends =>
    hne (endsAt_succ.mp hends).2.symm
  by_cases hzero : s.j = 0
  · rw [if_neg (not_not.mpr hzero)]
    have hless : remaining text { s with i := s.i + 1 } < remaining text s := by
      show 2 * (text.length - (s.i + 1)) + s.j < 2 * (text.length - s.i) + s.j
      omega
    refine ⟨_, rfl, ⟨hi, hlt, ?_, h.found.keep fun hends => ?_⟩, Nat.le_of_lt hless,
      fun _ _ => hless⟩
    · have hcandidate := h.candidate
      rw [hzero] at hcandidate hne ⊢
      exact hcandidate.skip hne.symm (Nat.le_succ _)
    · -- a pattern of one element does not match, and a longer one cannot
      have hle := h.candidate.upper pattern.length (Nat.le_refl _) hends
      rw [show pattern.length = s.j + 1 by omega] at hends
      exact hnot hends
  · rw [if_pos hzero]
    obtain ⟨k, hk, hborder⟩ := htable.2 s.j (Nat.pos_of_ne_zero hzero) (Nat.le_of_lt hlt)
    have hklt := hborder.lt
    have hless : remaining text { s with j := k } < remaining text s := by
      show 2 * (text.length - s.i) + k < 2 * (text.length - s.i) + s.j
      omega
    rw [item_ok hk, ok_bind]
    refine ⟨_, rfl, ⟨h.le, by dsimp only; omega, ?_, h.found⟩, Nat.le_of_lt hless, fun _ _ => hless⟩
    exact h.candidate.fallback hborder fun hends => hnot hends.2

theorem scanStep_spec (htable : Borders pattern lps pattern.length) (h : Scanning text pattern s)
    (hi : s.i < text.length) : ∃ s', scanStep text pattern lps s = .ok (some s') ∧
      Scanning text pattern s' ∧ remaining text s' < remaining text s := by
  have hlt := h.lt
  have hx := getElem?_eq_getElem hi
  have hy := getElem?_eq_getElem hlt
  have hstep : ∀ s', settle text pattern lps (if text[s.i] = pattern[s.j] then
      { s with i := s.i + 1, j := s.j + 1 } else s) = .ok s' →
      scanStep text pattern lps s = .ok (some s') := by
    intro s' hsettle
    rw [scanStep, if_pos hi, item_ok hx, ok_bind, item_ok hy, ok_bind]
    dsimp only
    rw [hsettle]
    rfl
  by_cases heq : text[s.i] = pattern[s.j]
  · rw [if_pos heq] at hstep
    have heq' : pattern[s.j]? = text[s.i]? := by rw [hx, hy, heq]
    have hcandidate := h.candidate.advance heq' (Nat.le_succ _)
    have hless : remaining text { s with i := s.i + 1, j := s.j + 1 } < remaining text s := by
      show 2 * (text.length - (s.i + 1)) + (s.j + 1) < 2 * (text.length - s.i) + s.j
      omega
    by_cases hwhole : s.j + 1 = pattern.length
    · have hfound := h.found.add (by rw [← hwhole]; exact hcandidate.ends)
      rw [← hwhole] at hfound
      obtain ⟨s', hsettle, hs', hless'⟩ := settle_whole (s := { s with i := s.i + 1, j := s.j + 1 })
        htable (by omega) hi hwhole hcandidate hfound
      exact ⟨s', hstep s' hsettle, hs', Nat.lt_trans hless' hless⟩
    · have hfound := h.found.keep (h.candidate.not_ends (Nat.le_refl _) (by omega))
      obtain ⟨s', hsettle, hs', hle, -⟩ := settle_part (s := { s with i := s.i + 1, j := s.j + 1 })
        htable ⟨hi, by dsimp only; omega, hcandidate, hfound⟩
      exact ⟨s', hstep s' hsettle, hs', Nat.lt_of_le_of_lt hle hless⟩
  · rw [if_neg heq] at hstep
    obtain ⟨s', hsettle, hs', -, hless⟩ := settle_part htable h
    refine ⟨s', hstep s' hsettle, hs', hless hi ?_⟩
    rw [hx, hy]
    exact fun h => heq (Option.some.inj h)

theorem kmpSearch_spec (text : List α) (hpattern : pattern ≠ []) {fuel : Nat}
    (hfuel : 2 * (text.length + pattern.length) < fuel) : ∃ result,
      kmpSearch fuel text pattern = .ok result ∧ result.Pairwise (· < ·) ∧
      ∀ i, i ∈ result ↔ (text.drop i).take pattern.length = pattern := by
  have hpos := length_pos_iff.mpr hpattern
  obtain ⟨built, hbuild, htable⟩ := build_spec hpattern fuel (by omega)
  have hinit : Scanning text pattern ⟨0, 0, []⟩ := by
    refine ⟨Nat.zero_le _, hpos, ⟨endsAt_zero _ _ _, fun k _ hends => hends.1⟩,
      List.Pairwise.nil, fun a => ?_⟩
    refine ⟨nofun, fun ⟨hle, _⟩ => ?_⟩
    dsimp only at hle
    omega
  have hstep : ∀ s, Scanning text pattern s → scanStep text pattern built.lps s = .ok none ∨
      ∃ s', scanStep text pattern built.lps s = .ok (some s') ∧ Scanning text pattern s' ∧
        remaining text s' < remaining text s := by
    intro s hs
    by_cases hi : s.i < text.length
    · exact .inr (scanStep_spec htable hs hi)
    · exact .inl (if_neg hi)
  have henough : remaining text ⟨0, 0, []⟩ < fuel := by
    show 2 * (text.length - 0) + 0 < fuel
    omega
  obtain ⟨scanned, hrun, hscanned, hdone⟩ :=
    whileLoop_spec (Scanning text pattern) (remaining text) hstep hinit henough
  have hend : scanned.i = text.length := by
    by_contra hne
    obtain ⟨s', hnext, -⟩ := scanStep_spec htable hscanned (by have := hscanned.le; omega)
    rw [hdone] at hnext
    cases hnext
  refine ⟨scanned.result, ?_, hscanned.found.sorted, fun a => ?_⟩
  · rw [kmpSearch, if_neg hpattern, hbuild, ok_bind, hrun, ok_bind]
    rfl
  · rw [hscanned.found.mem, slice_eq_iff hpos, hend]

end InterviewPrep.StringMatching
