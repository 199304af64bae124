/-
  `manacher` and `manacher_count_palindromes` (15_advanced_strings/questions.py).

  A radius at `i` is how far the separated string is the same on both sides of `i` (`Mirrored`).
  The mirror image inside the rightmost palindrome gives a radius to start from, and the expansion
  ends with the longest one, whatever it started from.  The longest radii have the parity of their
  centres (`Longest.even`), and so are the lengths of the palindromes of the string.
-/
import InterviewPrep.Lib.Loops
import Mathlib.Algebra.BigOperators.Group.Finset.Basic

namespace InterviewPrep.Palindromes

open Lib List

/-! ## The two functions -/

/-- `'|' + '|'.join(s) + '|'` -/
def separated (s : List Char) : List Char := '|' :: (s.intersperse '|' ++ ['|'])

structure Radii where
  radii : List Nat
  center : Nat
  right : Nat

/-- The radius at the mirror image, as far as the palindrome around `center` goes. -/
def fromMirror (i : Nat) (st : Radii) : Except Stop (List Nat) :=
  if i < st.right then do
    setItem st.radii i (min (st.right - i) (← item st.radii (2 * st.center - i)))
  else .ok st.radii

/-- The body of the expansion at `i`. -/
def expandStep (t : List Char) (i : Nat) (radii : List Nat) : Except Stop (Option (List Nat)) := do
  let r ← item radii i
  if r + 1 ≤ i ∧ i + r + 1 < t.length then
    if (← item t (i - r - 1)) = (← item t (i + r + 1)) then return some (← setItem radii i (r + 1))
    else return none
  else return none

def centerStep (fuel : Nat) (t : List Char) (i : Nat) (st : Radii) : Except Stop Radii := do
  let radii ← whileLoop (expandStep t i) fuel (← fromMirror i st)
  let r ← item radii i
  return if i + r > st.right then ⟨radii, i, i + r⟩ else { st with radii }

def manacher (fuel : Nat) (s : List Char) : Except Stop (Int × Int) :=
  if s = [] then .ok (0, -1)
  else do
    let t := separated s
    let st ← forRange 0 t.length (centerStep fuel t) ⟨replicate t.length 0, 0, 0⟩
    let maxRadius := st.radii.max?.getD 0
    let start := ((st.radii.idxOf maxRadius : Int) - maxRadius) / 2
    return (start, start + maxRadius - 1)

/-- The body of the loop with the running total. -/
def countStep (fuel : Nat) (t : List Char) (i : Nat) (x : Radii × Nat) :
    Except Stop (Radii × Nat) := do
  let st ← centerStep fuel t i x.1
  let r ← item st.radii i
  return (st, x.2 + (r + 1) / 2)

def manacherCountPalindromes (fuel : Nat) (s : List Char) : Except Stop Nat := do
  let t := separated s
  return (← forRange 0 t.length (countStep fuel t) (⟨replicate t.length 0, 0, 0⟩, 0)).2

/-! ## Radii -/

variable {s t : List Char} {c i j k r R fuel : Nat} {old radii : List Nat} {st : Radii}

/-- `t` is the same on both sides of `i`, as far as `r`. -/
structure Mirrored (t : List Char) (i r : Nat) : Prop where
  left : r ≤ i
  right : i + r < t.length
  same : ∀ k ≤ r, t[i - k]? = t[i + k]?

/-- The longest radius at `i`. -/
structure Longest (t : List Char) (i r : Nat) : Prop extends Mirrored t i r where
  stops : ¬ Mirrored t i (r + 1)

theorem Mirrored.mono (h : Mirrored t i R) (hle : r ≤ R) : Mirrored t i r :=
  ⟨hle.trans h.left, by have := h.right; omega, fun k hk => h.same k (hk.trans hle)⟩

theorem Mirrored.succ_iff (h : Mirrored t i r) : Mirrored t i (r + 1) ↔
    r + 1 ≤ i ∧ i + (r + 1) < t.length ∧ t[i - (r + 1)]? = t[i + (r + 1)]? := by
  refine ⟨fun h' => ⟨h'.left, h'.right, h'.same _ (Nat.le_refl _)⟩,
    fun ⟨hl, hr, heq⟩ => ⟨hl, hr, fun k hk => ?_⟩⟩
  obtain hk | rfl := Nat.lt_succ_iff_lt_or_eq.mp (Nat.lt_succ_of_le hk)
  · exact h.same k (Nat.le_of_lt_succ hk)
  · exact heq

theorem Longest.le (h : Longest t i R) (hr : Mirrored t i r) : r ≤ R := by
  by_contra hlt
  exact h.stops (hr.mono (by omega))

theorem Mirrored.opposite (h : Mirrored t c R) (hsum : i + j = 2 * c) (hi : i ≤ c + R)
    (hj : j ≤ c + R) : t[i]? = t[j]? := by
  wlog hle : i ≤ j generalizing i j
  · exact (this (by omega) hj hi (by omega)).symm
  have hsame := h.same (c - i) (by omega)
  rwa [show c - (c - i) = i by omega, show c + (c - i) = j by omega] at hsame

theorem Mirrored.mirror (h : Mirrored t c R) (hc : c < i) (hi : i < c + R)
    (hr : Mirrored t (2 * c - i) r) : Mirrored t i (min (c + R - i) r) := by
  have := h.left
  have := h.right
  have := hr.left
  refine ⟨by omega, by omega, fun k hk => ?_⟩
  have hk1 : k ≤ c + R - i := hk.trans (Nat.min_le_left _ _)
  have hk2 : k ≤ r := hk.trans (Nat.min_le_right _ _)
  rw [h.opposite (i := i - k) (j := 2 * c - i + k) (by omega) (by omega) (by omega),
    h.opposite (i := i + k) (j := 2 * c - i - k) (by omega) (by omega) (by omega)]
  exact (hr.same k hk2).symm

/-! ## The loop -/

/-- `radii` has a radius at `i` and is otherwise as before. -/
structure Expanding (t : List Char) (i : Nat) (old radii : List Nat) : Prop where
  length : radii.length = t.length
  value : ∃ r, radii[i]? = some r ∧ Mirrored t i r
  others : ∀ k, k ≠ i → radii[k]? = old[k]?

theorem expandStep_spec (hi : i < t.length) (h : Expanding t i old radii) :
    (expandStep t i radii = .ok none ∧ ∃ r, radii[i]? = some r ∧ Longest t i r) ∨
      ∃ radii', expandStep t i radii = .ok (some radii') ∧ Expanding t i old radii' ∧
        t.length - (radii'[i]?).getD 0 < t.length - (radii[i]?).getD 0 := by
  obtain ⟨r, hr, hmirrored⟩ := h.value
  have hread : i < radii.length := by rw [h.length]; exact hi
  have hright := hmirrored.right
  rw [expandStep, item_ok hr, ok_bind]
  split
  next hin =>
    have hx := getElem?_eq_getElem (show i - (r + 1) < t.length by omega)
    have hy := getElem?_eq_getElem (show i + (r + 1) < t.length by omega)
    rw [Nat.sub_sub, Nat.add_assoc, item_ok hx, ok_bind, item_ok hy, ok_bind]
    split
    next heq =>
      have hset := getElem?_set_self (a := r + 1) hread
      rw [setItem_ok _ hread]
      refine .inr ⟨_, rfl, ⟨length_set.trans h.length, ⟨r + 1, hset, hmirrored.succ_iff.mpr
        ⟨hin.1, hin.2, by rw [hx, hy, heq]⟩⟩, fun k hk =>
          (getElem?_set_ne (Ne.symm hk)).trans (h.others k hk)⟩, ?_⟩
      rw [hset, hr, Option.getD_some, Option.getD_some]
      omega
    next hne =>
      refine .inl ⟨rfl, r, hr, hmirrored, fun hnext => hne ?_⟩
      have hsame := (hmirrored.succ_iff.mp hnext).2.2
      rw [hx, hy] at hsame
      exact Option.some.inj hsame
  next hout =>
    refine .inl ⟨rfl, r, hr, hmirrored, fun hnext => hout ?_⟩
    obtain ⟨hl, hr, -⟩ := hmirrored.succ_iff.mp hnext
    exact ⟨hl, hr⟩

/-- What holds before the position `i`; the palindrome around `center` ends at `right`. -/
structure Centered (t : List Char) (i : Nat) (st : Radii) : Prop where
  length : st.radii.length = t.length
  done : ∀ k < i, ∃ r, st.radii[k]? = some r ∧ Longest t k r
  rest : ∀ k, i ≤ k → k < t.length → st.radii[k]? = some 0
  center : st.center ≤ st.right
  before : st.center < i ∨ st.right = 0
  around : Mirrored t st.center (st.right - st.center)

theorem fromMirror_spec (hi : i < t.length) (h : Centered t i st) :
    ∃ radii, fromMirror i st = .ok radii ∧ Expanding t i st.radii radii := by
  rw [fromMirror]
  split
  next hin =>
    have hc : st.center < i := h.before.resolve_right (by omega)
    have hcenter := h.center
    obtain ⟨r, hr, hlongest⟩ := h.done (2 * st.center - i) (by omega)
    have hread : i < st.radii.length := by rw [h.length]; exact hi
    have hmirror := h.around.mirror hc (by omega) hlongest.toMirrored
    rw [show st.center + (st.right - st.center) = st.right by omega] at hmirror
    rw [item_ok hr, ok_bind, setItem_ok _ hread]
    exact ⟨_, rfl, length_set.trans h.length, ⟨_, getElem?_set_self hread, hmirror⟩,
      fun k hk => getElem?_set_ne (Ne.symm hk)⟩
  next =>
    refine ⟨_, rfl, h.length, ⟨0, h.rest i (Nat.le_refl i) hi, Nat.zero_le i, hi, ?_⟩,
      fun _ _ => rfl⟩
    intro k hk
    rw [Nat.le_zero.mp hk]
    rfl

theorem centerStep_spec (hi : i < t.length) (hfuel : t.length < fuel) (h : Centered t i st) :
    ∃ st' r, centerStep fuel t i st = .ok st' ∧ Centered t (i + 1) st' ∧
      st'.radii[i]? = some r ∧ Longest t i r := by
  obtain ⟨radii, hfrom, hradii⟩ := fromMirror_spec hi h
  obtain ⟨radii', hrun, hradii', hdone⟩ := whileLoop_spec (Expanding t i st.radii)
    (fun radii => t.length - (radii[i]?).getD 0)
    (fun radii h => (expandStep_spec hi h).imp And.left id) hradii
    (show t.length - (radii[i]?).getD 0 < fuel by omega)
  obtain ⟨-, r, hr, hlongest⟩ | ⟨_, hnext, -⟩ := expandStep_spec hi hradii'
  swap
  · exact absurd (hdone.symm.trans hnext) (by simp)
  have hall : ∀ k < i + 1, ∃ r, radii'[k]? = some r ∧ Longest t k r := by
    intro k hk
    obtain hk | rfl := Nat.lt_succ_iff_lt_or_eq.mp hk
    · rw [hradii'.others k (by omega)]
      exact h.done k hk
    · exact ⟨r, hr, hlongest⟩
  have hrest : ∀ k, i + 1 ≤ k → k < t.length → radii'[k]? = some 0 := by
    intro k hk hlt
    rw [hradii'.others k (by omega)]
    exact h.rest k (by omega) hlt
  rw [centerStep, hfrom, ok_bind, hrun, ok_bind, item_ok hr, ok_bind]
  refine ⟨_, r, rfl, ?_, ?_, hlongest⟩
  · split
    · refine ⟨hradii'.length, hall, hrest, Nat.le_add_right i r, .inl (Nat.lt_succ_self i), ?_⟩
      dsimp only
      rw [Nat.add_sub_cancel_left]
      exact hlongest.toMirrored
    · exact ⟨hradii'.length, hall, hrest, h.center, h.before.imp_left Nat.lt_succ_of_lt, h.around⟩
  · split <;> exact hr

theorem centered_start (ht : t ≠ []) : Centered t 0 ⟨replicate t.length 0, 0, 0⟩ := by
  refine ⟨length_replicate, nofun, fun k _ hk => ?_, Nat.le_refl 0, .inr rfl, Nat.le_refl 0,
    length_pos_of_ne_nil ht, fun k hk => ?_⟩
  · exact getElem?_replicate_of_lt hk
  · rw [Nat.le_zero.mp hk]
    rfl

/-! ## The palindromes of the string -/

/-- `s[i..j]` -/
def slice (s : List Char) (i j : Nat) : List Char := (s.drop i).take (j + 1 - i)

def IsPalindrome (s : List Char) (i j : Nat) : Prop := (slice s i j).reverse = slice s i j

instance : DecidablePred fun x : Nat × Nat => IsPalindrome s x.1 x.2 :=
  fun _ => inferInstanceAs (Decidable (_ = _))

theorem isPalindrome_iff (hij : i ≤ j) (hj : j < s.length) :
    IsPalindrome s i j ↔ ∀ k ≤ j - i, s[i + k]? = s[j - k]? := by
  have hlen : (slice s i j).length = j + 1 - i := by
    rw [slice, length_take, length_drop]
    omega
  have hget : ∀ k ≤ j - i, (slice s i j)[k]? = s[i + k]? := by
    intro k hk
    rw [slice, getElem?_take_of_lt (by omega), getElem?_drop]
  have hrev : ∀ k ≤ j - i, (slice s i j).reverse[k]? = s[j - k]? := by
    intro k hk
    rw [getElem?_reverse (by omega), hlen, hget _ (by omega)]
    congr 1
    omega
  constructor
  · intro h k hk
    rw [← hget k hk, ← hrev k hk, h]
  · intro h
    refine ext_getElem? fun k => ?_
    rcases Nat.lt_or_ge (j - i) k with hk | hk
    · rw [getElem?_eq_none (by rw [length_reverse]; omega), getElem?_eq_none (by omega)]
    · rw [hrev k hk, hget k hk, h k hk]

theorem separated_cons (c : Char) (s : List Char) (hs : s ≠ []) :
    separated (c :: s) = '|' :: c :: separated s := by
  obtain ⟨d, s, rfl⟩ := exists_cons_of_ne_nil hs
  rfl

theorem length_separated (hs : s ≠ []) : (separated s).length = 2 * s.length + 1 := by
  induction s with
  | nil => exact absurd rfl hs
  | cons c s ih =>
    cases s with
    | nil => rfl
    | cons d s =>
      rw [separated_cons c _ (cons_ne_nil d s), length_cons, length_cons, ih (cons_ne_nil d s)]
      simp only [length_cons]
      omega

theorem getElem?_separated (hs : s ≠ []) (k : Nat) :
    (separated s)[2 * k + 1]? = s[k]? ∧ (k ≤ s.length → (separated s)[2 * k]? = some '|') := by
  induction s generalizing k with
  | nil => exact absurd rfl hs
  | cons c s ih =>
    cases s with
    | nil =>
      match k with
      | 0 | 1 => exact ⟨rfl, fun _ => rfl⟩
      | k + 2 => exact ⟨rfl, fun hk => absurd hk (by simp)⟩
    | cons d s =>
      rw [separated_cons c _ (cons_ne_nil d s)]
      cases k with
      | zero => exact ⟨rfl, fun _ => rfl⟩
      | succ k =>
        obtain ⟨hodd, heven⟩ := ih (cons_ne_nil d s) k
        exact ⟨hodd, fun hk => heven (Nat.le_of_succ_le_succ hk)⟩

theorem isPalindrome_iff_mirrored (hij : i ≤ j) (hj : j < s.length) :
    IsPalindrome s i j ↔ Mirrored (separated s) (i + j + 1) (j - i + 1) := by
  have hs : s ≠ [] := ne_nil_of_length_pos (by omega)
  have hget := getElem?_separated hs
  rw [isPalindrome_iff hij hj]
  constructor
  · intro h
    refine ⟨by omega, by rw [length_separated hs]; omega, fun k hk => ?_⟩
    obtain ⟨a, ha | ha⟩ : ∃ a, i + j + 1 - k = 2 * a ∨ i + j + 1 - k = 2 * a + 1 :=
      ⟨(i + j + 1 - k) / 2, by omega⟩
    · rw [ha, (hget a).2 (by omega), show i + j + 1 + k = 2 * (i + j + 1 - a) by omega,
        (hget _).2 (by omega)]
    · have hsame := h (a - i) (by omega)
      rw [show i + (a - i) = a by omega] at hsame
      rw [ha, (hget a).1, hsame, show i + j + 1 + k = 2 * (j - (a - i)) + 1 by omega, (hget _).1]
  · intro h k hk
    have hsame := h.opposite (i := 2 * (i + k) + 1) (j := 2 * (j - k) + 1) (by omega) (by omega)
      (by omega)
    rwa [(hget _).1, (hget _).1] at hsame

theorem Longest.even (hs : s ≠ []) (h : Longest (separated s) c R) : (c - R) % 2 = 0 := by
  by_contra hodd
  have hright := h.right
  have hget := getElem?_separated hs
  have hleft := h.left
  rw [length_separated hs] at hright
  refine h.stops (h.toMirrored.succ_iff.mpr ⟨by omega, by rw [length_separated hs]; omega, ?_⟩)
  rw [show c - (R + 1) = 2 * ((c - R) / 2) by omega, (hget _).2 (by omega),
    show c + (R + 1) = 2 * ((c + R) / 2 + 1) by omega, (hget _).2 (by omega)]

/-- The palindromes around one centre. -/
def around (s : List Char) (c : Nat) : Finset (Nat × Nat) :=
  {x ∈ .range s.length ×ˢ .range s.length | x.1 ≤ x.2 ∧ IsPalindrome s x.1 x.2 ∧ x.1 + x.2 + 1 = c}

theorem Longest.card_around (h : Longest (separated s) c R) : (around s c).card = (R + 1) / 2 := by
  by_cases hs : s = []
  · subst hs
    have hright : c + R < 2 := h.right
    have hleft := h.left
    rw [show R = 0 by omega]
    rfl
  have heven := h.even hs
  have hright := h.right
  have hleft := h.left
  rw [length_separated hs] at hright
  obtain ⟨a, ha⟩ : ∃ a, c = 2 * a + R := ⟨(c - R) / 2, by omega⟩
  rw [← Finset.card_range ((R + 1) / 2)]
  refine Finset.card_nbij' (fun x => x.1 - a) (fun q => (a + q, a + R - 1 - q)) ?_ ?_ ?_ ?_
  · intro x hx
    obtain ⟨hin, hle, hpal, hsum⟩ := Finset.mem_filter.mp hx
    obtain ⟨-, hj⟩ := Finset.mem_product.mp hin
    have hlong := h.le (hsum ▸ (isPalindrome_iff_mirrored hle (Finset.mem_range.mp hj)).mp hpal)
    exact Finset.mem_coe.mpr (Finset.mem_range.mpr (show x.1 - a < _ by omega))
  · intro q hq
    have hq := Finset.mem_range.mp (Finset.mem_coe.mp hq)
    have hmirrored : Mirrored (separated s) (a + q + (a + R - 1 - q) + 1)
        (a + R - 1 - q - (a + q) + 1) := by
      rw [show a + q + (a + R - 1 - q) + 1 = c by omega]
      exact h.mono (by omega)
    refine Finset.mem_filter.mpr ⟨Finset.mem_product.mpr ⟨Finset.mem_range.mpr ?_,
      Finset.mem_range.mpr ?_⟩, ?_, (isPalindrome_iff_mirrored ?_ ?_).mpr hmirrored, ?_⟩ <;>
      dsimp only <;> omega
  · intro x hx
    obtain ⟨hin, hle, hpal, hsum⟩ := Finset.mem_filter.mp hx
    obtain ⟨-, hj⟩ := Finset.mem_product.mp hin
    have hlong := h.le (hsum ▸ (isPalindrome_iff_mirrored hle (Finset.mem_range.mp hj)).mp hpal)
    exact Prod.ext (show a + (x.1 - a) = x.1 by omega) (show a + R - 1 - (x.1 - a) = x.2 by omega)
  · intro q hq
    exact Nat.add_sub_cancel_left a q

theorem centers_done (hfuel : (separated s).length < fuel) :
    ∃ st, forRange 0 (separated s).length (centerStep fuel (separated s))
        ⟨replicate (separated s).length 0, 0, 0⟩ = .ok st ∧
      Centered (separated s) (separated s).length st := by
  have hbody : ∀ i st, 0 ≤ i → i < 0 + (separated s).length → Centered (separated s) i st →
      ∃ st', centerStep fuel (separated s) i st = .ok st' ∧ Centered (separated s) (i + 1) st' := by
    intro i st _ hi h
    rw [Nat.zero_add] at hi
    obtain ⟨st', _, hst', hnext, -⟩ := centerStep_spec hi hfuel h
    exact ⟨st', hst', hnext⟩
  simpa only [Nat.zero_add] using forRange_spec _ hbody (centered_start (cons_ne_nil _ _))

theorem manacher_longest (hs : s ≠ []) (hfuel : (separated s).length < fuel) :
    ∃ a b : Nat, manacher fuel s = .ok (a, b) ∧ a ≤ b ∧ b < s.length ∧ IsPalindrome s a b ∧
      ∀ i j, i ≤ j → j < s.length → IsPalindrome s i j →
        j - i ≤ b - a ∧ (j - i = b - a → a ≤ i) := by
  obtain ⟨st, hrun, hst⟩ := centers_done hfuel
  have hlen := length_separated hs
  have hpos := length_pos_of_ne_nil hs
  obtain ⟨r1, hr1, hlongest1⟩ := hst.done 1 (by omega)
  obtain ⟨M, hM⟩ := Option.isSome_iff_exists.mp (isSome_max?_of_mem (mem_of_getElem? hr1))
  obtain ⟨hmem, hle⟩ := max?_eq_some_iff.mp hM
  have hidx := idxOf_lt_length_of_mem hmem
  have hMidx : st.radii[st.radii.idxOf M]? = some M := by
    rw [getElem?_eq_getElem hidx, getElem_idxOf]
  obtain ⟨r, hr, hlongest⟩ := hst.done _ (hst.length ▸ hidx)
  obtain rfl : M = r := Option.some.inj (hMidx.symm.trans hr)
  have hone : 1 ≤ M := by
    have hpal : IsPalindrome s 0 0 := (isPalindrome_iff (Nat.le_refl 0) hpos).mpr fun k hk => by
      rw [Nat.le_zero.mp hk]
    have hmirrored := (isPalindrome_iff_mirrored (Nat.le_refl 0) hpos).mp hpal
    exact (hlongest1.le hmirrored).trans (hle _ (mem_of_getElem? hr1))
  have heven := hlongest.even hs
  have hleft := hlongest.left
  have hright := hlongest.right
  obtain ⟨a, ha⟩ : ∃ a, st.radii.idxOf M = 2 * a + M := ⟨(st.radii.idxOf M - M) / 2, by omega⟩
  refine ⟨a, a + M - 1, ?_, by omega, by omega, ?_, fun i j hij hj hpal => ?_⟩
  · rw [manacher, if_neg hs]
    dsimp only
    rw [hrun, ok_bind, hM]
    show Except.ok _ = _
    congr 2 <;> simp only [Option.getD_some] <;> omega
  · rw [isPalindrome_iff_mirrored (by omega) (by omega),
      show a + (a + M - 1) + 1 = st.radii.idxOf M by omega]
    exact hlongest.mono (by omega)
  have hmirrored := (isPalindrome_iff_mirrored hij hj).mp hpal
  have hin := hmirrored.right
  obtain ⟨r', hr', hlongest'⟩ := hst.done (i + j + 1) (by omega)
  have hlong := hlongest'.le hmirrored
  have hmost := hle r' (mem_of_getElem? hr')
  refine ⟨by omega, fun heq => ?_⟩
  by_contra hlt
  have hearlier : i + j + 1 < st.radii.findIdx (· == M) := by
    rw [← idxOf]
    omega
  -- an earlier centre with the radius would have been found
  have hother := not_of_lt_findIdx hearlier
  rw [Option.some.inj ((getElem?_eq_getElem (by omega)).symm.trans hr'), beq_eq_false_iff_ne]
    at hother
  omega

theorem sum_card_around (s : List Char) :
    ∑ c ∈ Finset.range (separated s).length, (around s c).card =
      ({x ∈ Finset.range s.length ×ˢ Finset.range s.length |
        x.1 ≤ x.2 ∧ IsPalindrome s x.1 x.2} : Finset (Nat × Nat)).card := by
  rw [Finset.card_eq_sum_card_fiberwise (f := fun x => x.1 + x.2 + 1)
    (t := Finset.range (separated s).length)]
  · refine Finset.sum_congr rfl fun c _ => ?_
    rw [Finset.filter_filter]
    simp only [around, and_assoc]
  · intro x hx
    obtain ⟨hin, hle, hpal⟩ := Finset.mem_filter.mp hx
    obtain ⟨-, hj⟩ := Finset.mem_product.mp hin
    have hright := ((isPalindrome_iff_mirrored hle (Finset.mem_range.mp hj)).mp hpal).right
    exact Finset.mem_coe.mpr (Finset.mem_range.mpr (show x.1 + x.2 + 1 < _ by omega))

theorem manacherCountPalindromes_eq (hfuel : (separated s).length < fuel) :
    manacherCountPalindromes fuel s =
      .ok (∑ c ∈ Finset.range (separated s).length, (around s c).card) := by
  have hbody : ∀ i x, 0 ≤ i → i < 0 + (separated s).length →
      Centered (separated s) i x.1 ∧ x.2 = ∑ c ∈ Finset.range i, (around s c).card →
      ∃ x', countStep fuel (separated s) i x = .ok x' ∧ Centered (separated s) (i + 1) x'.1 ∧
        x'.2 = ∑ c ∈ Finset.range (i + 1), (around s c).card := by
    rintro i ⟨st, total⟩ - hi ⟨h, htotal⟩
    rw [Nat.zero_add] at hi
    obtain ⟨st', r, hst', hnext, hr, hlongest⟩ := centerStep_spec hi hfuel h
    refine ⟨(st', total + (r + 1) / 2), ?_, hnext, ?_⟩
    · rw [countStep, hst', ok_bind, item_ok hr, ok_bind]
      rfl
    · rw [Finset.sum_range_succ, hlongest.card_around]
      exact congrArg (· + _) htotal
  obtain ⟨x, hrun, -, htotal⟩ := forRange_spec _ hbody
    (s := (⟨replicate (separated s).length 0, 0, 0⟩, 0))
    ⟨centered_start (cons_ne_nil _ _), (Finset.sum_range_zero _).symm⟩
  rw [Nat.zero_add] at htotal
  rw [manacherCountPalindromes, hrun, ok_bind, htotal]
  rfl

/-- The longest palindrome, the leftmost of its length, and the number of all palindromes. -/
theorem manacher_spec (s : List Char) (hfuel : (separated s).length < fuel) :
    (s ≠ [] → ∃ a b : Nat, manacher fuel s = .ok (a, b) ∧ a ≤ b ∧ b < s.length ∧
      IsPalindrome s a b ∧ ∀ i j, i ≤ j → j < s.length → IsPalindrome s i j →
        j - i ≤ b - a ∧ (j - i = b - a → a ≤ i)) ∧
    manacherCountPalindromes fuel s = .ok
      ({x ∈ Finset.range s.length ×ˢ Finset.range s.length |
        x.1 ≤ x.2 ∧ IsPalindrome s x.1 x.2} : Finset (Nat × Nat)).card := by
  refine ⟨fun hs => manacher_longest hs hfuel, ?_⟩
  rw [manacherCountPalindromes_eq hfuel, sum_card_around]

theorem manacher_spec_aba : manacherCountPalindromes 8 ['a', 'b', 'a'] = .ok 4 :=
  (manacher_spec ['a', 'b', 'a'] (by decide)).2.trans (congrArg _ (by decide))

end InterviewPrep.Palindromes
