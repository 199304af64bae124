/-
  `rabin_karp` (15_advanced_strings/questions.py) over strings of code points: the hash of a
  window is its polynomial in 256 modulo a prime, and the loop takes the hash of one window to
  the hash of the next.  A window whose hash is the pattern's is compared, so that the answer
  does not depend on the modulus.
-/
import InterviewPrep.Lib.Loops
import InterviewPrep.Lib.Strings
import Mathlib.Data.Int.ModEq
import Mathlib.Data.List.Induction
import Mathlib.Tactic.Ring

namespace InterviewPrep.StringMatching

open Lib List

abbrev CodePoint := Fin 0x110000

abbrev Str := List CodePoint

def ord (c : CodePoint) : Int := c.val

/-! ## The search -/

/-- Number of characters in alphabet. -/
def base : Int := 256

def prime : Int := 1000000007

structure Hashes where
  pattern : Int
  window : Int

/-- The variables of the loop over the windows. -/
structure Windows where
  result : List Nat
  hash : Int

/-- `base^(m-1) mod prime`. -/
def leadingPower (m : Nat) : Except Stop Int :=
  forRange 0 (m - 1) (fun _ h => .ok ((h * base) % prime)) 1

def firstHashes (text pattern : Str) : Except Stop Hashes :=
  forRange 0 pattern.length (fun i s => do
    let p ← item pattern i
    let t ← item text i
    return ⟨(base * s.pattern + ord p) % prime, (base * s.window + ord t) % prime⟩) ⟨0, 0⟩

/-- The hash of the window after the one from `i`. -/
def roll (text : Str) (m : Nat) (h : Int) (i : Nat) (hash : Int) : Except Stop Int := do
  let out ← item text i
  let new ← item text (i + m)
  let hash := (base * (hash - ord out * h) + ord new) % prime
  return if hash < 0 then hash + prime else hash

def windowStep (text pattern : Str) (h patternHash : Int) (i : Nat) (s : Windows) :
    Except Stop Windows := do
  let result :=
    if patternHash = s.hash then
      if (text.drop i).take pattern.length = pattern then s.result ++ [i] else s.result
    else s.result
  if i < text.length - pattern.length then
    let hash ← roll text pattern.length h i s.hash
    return ⟨result, hash⟩
  else return ⟨result, s.hash⟩

def rabinKarp (text pattern : Str) : Except Stop (List Nat) :=
  if pattern = [] ∨ text.length < pattern.length then .ok []
  else do
    let h ← leadingPower pattern.length
    let hashes ← firstHashes text pattern
    let windows ← forRange 0 (text.length - pattern.length + 1)
      (windowStep text pattern h hashes.pattern) ⟨[], hashes.window⟩
    return windows.result

/-! ## Hashes -/

/-- The polynomial of a list in the base, its first element leading. -/
def polynomial (xs : Str) : Int := xs.foldl (fun h c => base * h + ord c) 0

theorem polynomial_append (xs : Str) (c : CodePoint) :
    polynomial (xs ++ [c]) = base * polynomial xs + ord c := by
  rw [polynomial, foldl_append]
  rfl

theorem polynomial_cons (c : CodePoint) (xs : Str) :
    polynomial (c :: xs) = ord c * base ^ xs.length + polynomial xs := by
  induction xs using List.reverseRecOn with
  | nil =>
    show base * 0 + ord c = ord c * base ^ 0 + 0
    ring
  | append_singleton _ _ ih =>
    rw [← cons_append, polynomial_append, ih, polynomial_append, length_append,
      length_singleton]
    ring

variable {text pattern : Str} {m i : Nat}

theorem leadingPower_spec (m : Nat) :
    ∃ h, leadingPower m = .ok h ∧ h ≡ base ^ (m - 1) [ZMOD prime] := by
  have hbody : ∀ (i : Nat) (h : Int), 0 ≤ i → i < 0 + (m - 1) → h ≡ base ^ i [ZMOD prime] →
      ∃ h', (.ok ((h * base) % prime) : Except Stop Int) = .ok h' ∧
        h' ≡ base ^ (i + 1) [ZMOD prime] := by
    intro i h _ _ hh
    refine ⟨_, rfl, (Int.mod_modEq _ _).trans ?_⟩
    rw [pow_succ]
    exact hh.mul_right _
  obtain ⟨h, hrun, hh⟩ := forRange_spec (fun i (h : Int) => h ≡ base ^ i [ZMOD prime]) hbody
    (Int.ModEq.refl 1)
  rw [Nat.zero_add] at hh
  exact ⟨h, hrun, hh⟩

theorem take_succ_eq {xs : Str} {c : CodePoint} (h : xs[i]? = some c) :
    xs.take (i + 1) = xs.take i ++ [c] := by
  rw [take_add_one, h, Option.toList_some]

variable {hash h : Int}

theorem extend_hash {xs : Str} {c : CodePoint} (h : xs[i]? = some c)
    (hhash : hash = polynomial (xs.take i) % prime) :
    (base * hash + ord c) % prime = polynomial (xs.take (i + 1)) % prime := by
  rw [take_succ_eq h, polynomial_append, hhash]
  exact ((Int.mod_modEq _ _).mul_left _).add_right _

theorem firstHashes_spec (hle : pattern.length ≤ text.length) : ∃ hashes,
    firstHashes text pattern = .ok hashes ∧ hashes.pattern = polynomial pattern % prime ∧
      hashes.window = polynomial (text.take pattern.length) % prime := by
  have hbody : ∀ (i : Nat) (s : Hashes), 0 ≤ i → i < 0 + pattern.length →
      s.pattern = polynomial (pattern.take i) % prime ∧
        s.window = polynomial (text.take i) % prime → ∃ s',
      (do
        let p ← item pattern i
        let t ← item text i
        return ⟨(base * s.pattern + ord p) % prime, (base * s.window + ord t) % prime⟩ :
          Except Stop Hashes) = .ok s' ∧
      s'.pattern = polynomial (pattern.take (i + 1)) % prime ∧
        s'.window = polynomial (text.take (i + 1)) % prime := by
    intro i s _ hi ⟨hp, hw⟩
    have hx := getElem?_eq_getElem (show i < pattern.length by omega)
    have hy := getElem?_eq_getElem (show i < text.length by omega)
    rw [item_ok hx, ok_bind, item_ok hy, ok_bind]
    exact ⟨_, rfl, extend_hash hx hp, extend_hash hy hw⟩
  obtain ⟨hashes, hrun, hp, hw⟩ := forRange_spec (fun i (s : Hashes) =>
    s.pattern = polynomial (pattern.take i) % prime ∧
      s.window = polynomial (text.take i) % prime) hbody
    (show _ ∧ _ from ⟨(rfl : (⟨0, 0⟩ : Hashes).pattern = _), rfl⟩)
  rw [Nat.zero_add] at hp hw
  rw [take_length] at hp
  exact ⟨hashes, hrun, hp, hw⟩

/-! ## Windows -/

/-- The window from `i`. -/
def window (text : Str) (m i : Nat) : Str := (text.drop i).take m

theorem window_parts (hpos : 0 < m) {out new : CodePoint} (hout : text[i]? = some out)
    (hnew : text[i + m]? = some new) : ∃ shared : Str, shared.length = m - 1 ∧
      window text m i = out :: shared ∧ window text m (i + 1) = shared ++ [new] := by
  obtain ⟨k, rfl⟩ : ∃ k, m = k + 1 := ⟨m - 1, by omega⟩
  have hlt := (List.getElem?_eq_some_iff.mp hout).1
  have hlt' := (List.getElem?_eq_some_iff.mp hnew).1
  refine ⟨(text.drop (i + 1)).take k, ?_, ?_, ?_⟩
  · rw [length_take, length_drop]
    omega
  · rw [window, drop_eq_getElem_cons hlt, take_succ_cons,
      (List.getElem?_eq_some_iff.mp hout).2]
  · rw [window]
    apply take_succ_eq
    rw [getElem?_drop, ← hnew]
    congr 1
    omega

theorem roll_spec (hpos : 0 < m) (hlt : i + m < text.length)
    (hh : h ≡ base ^ (m - 1) [ZMOD prime]) (hhash : hash = polynomial (window text m i) % prime) :
    roll text m h i hash = .ok (polynomial (window text m (i + 1)) % prime) := by
  have hout := getElem?_eq_getElem (show i < text.length by omega)
  have hnew := getElem?_eq_getElem hlt
  obtain ⟨shared, hlength, hwindow, hnext⟩ := window_parts hpos hout hnew
  have hrolled : base * (hash - ord text[i] * h) + ord text[i + m] ≡
      polynomial (window text m (i + 1)) [ZMOD prime] := by
    have hcancel : polynomial (window text m (i + 1)) =
        base * (polynomial (window text m i) - ord text[i] * base ^ (m - 1)) +
          ord text[i + m] := by
      rw [hnext, hwindow, polynomial_append, polynomial_cons, hlength]
      ring
    rw [hcancel, hhash]
    exact (((Int.mod_modEq _ _).sub (hh.mul_left _)).mul_left _).add_right _
  have hnonneg : ¬ (base * (hash - ord text[i] * h) + ord text[i + m]) % prime < 0 :=
    not_lt.mpr (Int.emod_nonneg _ (by decide))
  rw [roll, item_ok hout, ok_bind, item_ok hnew, ok_bind]
  dsimp only
  rw [if_neg hnonneg]
  exact congrArg Except.ok hrolled

/-- What holds before the window from `i`. -/
structure Sliding (text pattern : Str) (i : Nat) (s : Windows) : Prop where
  sorted : s.result.Pairwise (· < ·)
  mem : ∀ a, a ∈ s.result ↔ a < i ∧ window text pattern.length a = pattern
  hash : i + pattern.length ≤ text.length →
    s.hash = polynomial (window text pattern.length i) % prime

theorem windowStep_spec (hpos : 0 < pattern.length)
    (hh : h ≡ base ^ (pattern.length - 1) [ZMOD prime]) {s : Windows}
    (hle : i + pattern.length ≤ text.length) (hs : Sliding text pattern i s) : ∃ s',
    windowStep text pattern h (polynomial pattern % prime) i s = .ok s' ∧
      Sliding text pattern (i + 1) s' := by
  -- a window that is the pattern has its hash
  have hresult : (if polynomial pattern % prime = s.hash then
      if (text.drop i).take pattern.length = pattern then s.result ++ [i] else s.result
      else s.result) =
      if window text pattern.length i = pattern then s.result ++ [i] else s.result := by
    unfold window
    by_cases hmatch : (text.drop i).take pattern.length = pattern
    · rw [if_pos hmatch, if_pos]
      rw [hs.hash hle, window, hmatch]
    · rw [if_neg hmatch, ite_self]
  have hsorted : (if window text pattern.length i = pattern then s.result ++ [i]
      else s.result).Pairwise (· < ·) := by
    split
    · refine pairwise_append.mpr ⟨hs.sorted, pairwise_singleton _ _, ?_⟩
      intro a ha b hb
      rw [mem_singleton.mp hb]
      exact ((hs.mem a).mp ha).1
    · exact hs.sorted
  have hmem : ∀ a, a ∈ (if window text pattern.length i = pattern then s.result ++ [i]
      else s.result) ↔ a < i + 1 ∧ window text pattern.length a = pattern := by
    intro a
    split
    next hmatch =>
      rw [mem_append, mem_singleton, hs.mem]
      constructor
      · rintro (⟨hlt, ha⟩ | rfl)
        · exact ⟨Nat.lt_succ_of_lt hlt, ha⟩
        · exact ⟨Nat.lt_succ_self _, hmatch⟩
      · rintro ⟨hlt, ha⟩
        obtain hlt | rfl := Nat.lt_succ_iff_lt_or_eq.mp hlt
        · exact .inl ⟨hlt, ha⟩
        · exact .inr rfl
    next hmatch =>
      rw [hs.mem]
      refine ⟨fun ⟨hlt, ha⟩ => ⟨Nat.lt_succ_of_lt hlt, ha⟩, fun ⟨hlt, ha⟩ => ⟨?_, ha⟩⟩
      obtain hlt | rfl := Nat.lt_succ_iff_lt_or_eq.mp hlt
      · exact hlt
      · exact absurd ha hmatch
  rw [windowStep, hresult]
  split
  next =>
    rw [roll_spec hpos (by omega) hh (hs.hash hle), ok_bind]
    exact ⟨_, rfl, hsorted, hmem, fun _ => rfl⟩
  next =>
    refine ⟨_, rfl, hsorted, hmem, fun hle' => ?_⟩
    omega

theorem rabinKarp_spec (text : Str) (hpattern : pattern ≠ []) : ∃ result,
    rabinKarp text pattern = .ok result ∧ result.Pairwise (· < ·) ∧
      ∀ i, i ∈ result ↔ (text.drop i).take pattern.length = pattern := by
  have hpos := length_pos_iff.mpr hpattern
  by_cases hshort : text.length < pattern.length
  · refine ⟨[], if_pos (.inr hshort), List.Pairwise.nil, fun i => ?_⟩
    rw [slice_eq_iff hpos]
    exact ⟨nofun, fun ⟨hle, _⟩ => by omega⟩
  obtain ⟨h, hpower, hh⟩ := leadingPower_spec pattern.length
  obtain ⟨hashes, hfirst, hp, hw⟩ := firstHashes_spec (show pattern.length ≤ text.length by omega)
  have hinit : Sliding text pattern 0 ⟨[], hashes.window⟩ := by
    refine ⟨List.Pairwise.nil, fun a => ?_, fun _ => ?_⟩
    · exact ⟨nofun, fun ⟨hlt, _⟩ => absurd hlt (Nat.not_lt_zero _)⟩
    · rw [window, drop_zero]
      exact hw
  obtain ⟨windows, hrun, hwindows⟩ := forRange_spec (n := text.length - pattern.length + 1)
    (Sliding text pattern) (fun i s _ hi hs => windowStep_spec hpos hh (by omega) hs) hinit
  refine ⟨windows.result, ?_, hwindows.sorted, fun a => ?_⟩
  · rw [rabinKarp, if_neg (not_or.mpr ⟨hpattern, hshort⟩), hpower, ok_bind, hfirst, ok_bind, hp,
      hrun]
    rfl
  · rw [hwindows.mem]
    refine ⟨fun ⟨_, ha⟩ => ha, fun ha => ⟨?_, ha⟩⟩
    have := ((slice_eq_iff hpos).mp ha).1
    omega

end InterviewPrep.StringMatching
