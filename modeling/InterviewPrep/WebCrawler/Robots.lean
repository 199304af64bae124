/-
  `Robots.Allowed`, `robotsMatch` and `wildcardMatch` of web_crawler.go.

  The matcher takes each piece of the pattern at its first occurrence.  What is left behind any
  occurrence is at the end of what is left behind the first (`index_first`), and a `*` is before
  the next piece, so greedy is exact (`skipAll_iff`).
-/
import Mathlib.Data.List.Infix

namespace InterviewPrep.WebCrawler.RobotsTxt

open List

/-! ## The matcher -/

abbrev Bytes := List UInt8

/-- `'*'` -/
abbrev star : UInt8 := 42

/-- `'$'` -/
abbrev dollar : UInt8 := 36

/-- `strings.Index`; `none` is -1. -/
def index (seg : Bytes) : Bytes → Option Nat
  | [] => if seg = [] then some 0 else none
  | c :: s => if seg <+: c :: s then some 0 else (index seg s).map (· + 1)

/-- The loop over the pieces between the first and the last. -/
def skipAll (s : Bytes) : List Bytes → Option Bytes
  | [] => some s
  | seg :: segs =>
    match index seg s with
    | none => none
    | some i => skipAll (s.drop (i + seg.length)) segs

def wildcardMatch (p s : Bytes) (anchored : Bool) : Bool :=
  match p.splitOn star with
  | [] => false
  | first :: rest =>
    if ¬ first <+: s then false
    else if rest = [] then !anchored || (s.drop first.length).isEmpty
    else
      match skipAll (s.drop first.length) rest.dropLast with
      | none => false
      | some s =>
        let last := rest.getLast?.getD []
        if anchored then last <:+ s else last <:+: s

def robotsMatch (pattern path : Bytes) : Bool :=
  if pattern.getLast? = some dollar then wildcardMatch pattern.dropLast path true
  else wildcardMatch pattern path false

structure RobotsRule where
  pattern : Bytes
  allow : Bool

structure Robots where
  disallowAll : Bool
  rules : List RobotsRule

/-- The path and the query of a URL. -/
structure Target where
  escapedPath : Bytes
  rawQuery : Bytes

def Target.path (u : Target) : Bytes :=
  if u.rawQuery ≠ [] then u.escapedPath ++ 63 :: u.rawQuery else u.escapedPath

/-- The loop over the rules, with the longest pattern so far and its verdict. -/
def longest (path : Bytes) (best : Int × Bool) (rule : RobotsRule) : Int × Bool :=
  if robotsMatch rule.pattern path then
    let l : Int := rule.pattern.length
    if l > best.1 ∨ l = best.1 ∧ rule.allow then (l, rule.allow) else best
  else best

def Robots.allowed (r : Robots) (u : Target) : Bool :=
  if r.disallowAll then false else (r.rules.foldl (longest u.path) (-1, true)).2

/-! ## The language of a pattern -/

/-- Each `*` stands for any string, and every other byte for itself. -/
inductive Matches : Bytes → Bytes → Prop where
  | nil : Matches [] []
  | star {p s : Bytes} (a : Bytes) (h : Matches p s) : Matches (star :: p) (a ++ s)
  | byte {p s : Bytes} {c : UInt8} (hc : c ≠ RobotsTxt.star) (h : Matches p s) :
      Matches (c :: p) (c :: s)

/-- The string, or a prefix of it when the pattern is not anchored. -/
def Accepts (anchored : Bool) (p s : Bytes) : Prop :=
  ∃ pre, pre <+: s ∧ Matches p pre ∧ (anchored = true → pre = s)

/-- The pieces follow each other in the string, each behind a `*`. -/
def Follow (anchored : Bool) : List Bytes → Bytes → Prop
  | [], s => anchored = true → s = []
  | seg :: segs, s => ∃ a b, s = a ++ seg ++ b ∧ Follow anchored segs b

variable {anchored : Bool} {p s a b seg path : Bytes} {segs : List Bytes} {c : UInt8} {i : Nat}

theorem accepts_nil : Accepts anchored [] s ↔ (anchored = true → s = []) := by
  constructor
  · rintro ⟨pre, -, hmatches, hall⟩ hanchored
    cases hmatches
    exact (hall hanchored).symm
  · exact fun h => ⟨[], nil_prefix, .nil, fun hanchored => (h hanchored).symm⟩

theorem accepts_star :
    Accepts anchored (star :: p) s ↔ ∃ a b, s = a ++ b ∧ Accepts anchored p b := by
  constructor
  · rintro ⟨pre, ⟨rest, rfl⟩, hmatches, hall⟩
    cases hmatches with
    | star a h =>
      refine ⟨a, _, append_assoc .., _, prefix_append _ rest, h, fun hanchored => ?_⟩
      exact append_cancel_left ((hall hanchored).trans (append_assoc ..))
    | byte hc => exact absurd rfl hc
  · rintro ⟨a, b, rfl, pre, hpre, hmatches, hall⟩
    exact ⟨a ++ pre, (prefix_append_right_inj a).mpr hpre, .star a hmatches,
      fun hanchored => by rw [hall hanchored]⟩

theorem accepts_byte (hc : c ≠ star) :
    Accepts anchored (c :: p) s ↔ ∃ b, s = c :: b ∧ Accepts anchored p b := by
  constructor
  · rintro ⟨pre, ⟨rest, rfl⟩, hmatches, hall⟩
    cases hmatches with
    | star => exact absurd rfl hc
    | byte _ h =>
      exact ⟨_, rfl, _, prefix_append _ rest, h, fun hanchored => (cons.inj (hall hanchored)).2⟩
  · rintro ⟨b, rfl, pre, hpre, hmatches, hall⟩
    exact ⟨c :: pre, cons_prefix_cons.mpr ⟨rfl, hpre⟩, .byte hc hmatches,
      fun hanchored => by rw [hall hanchored]⟩

theorem accepts_iff_follow : Accepts anchored p s ↔
    ∃ first rest b, p.splitOn star = first :: rest ∧ s = first ++ b ∧ Follow anchored rest b := by
  induction p generalizing s with
  | nil =>
    rw [accepts_nil, splitOn_nil]
    exact ⟨fun h => ⟨[], [], s, rfl, rfl, h⟩, by rintro ⟨_, _, _, ⟨⟩, rfl, h⟩; exact h⟩
  | cons c p ih =>
    rw [splitOn, splitOnP_cons_eq_if_modifyHead, ← splitOn]
    by_cases hc : c = star
    · subst hc
      rw [accepts_star, if_pos (beq_self_eq_true _)]
      constructor
      · rintro ⟨a, b, rfl, hb⟩
        obtain ⟨first, rest, b, hsplit, rfl, hfollow⟩ := ih.mp hb
        refine ⟨[], _, _, rfl, rfl, ?_⟩
        rw [hsplit]
        exact ⟨a, b, (append_assoc ..).symm, hfollow⟩
      · rintro ⟨_, _, t, ⟨⟩, rfl, hfollow⟩
        obtain ⟨first, rest, hsplit⟩ := exists_cons_of_ne_nil (splitOnP_ne_nil (· == star) p)
        rw [splitOn, hsplit] at hfollow
        obtain ⟨a, b, rfl, hfollow⟩ := hfollow
        exact ⟨a, _, append_assoc .., ih.mpr ⟨first, rest, b, hsplit, rfl, hfollow⟩⟩
    rw [accepts_byte hc, if_neg (by simpa using hc)]
    constructor
    · rintro ⟨b, rfl, hb⟩
      obtain ⟨first, rest, b, hsplit, rfl, hfollow⟩ := ih.mp hb
      exact ⟨c :: first, rest, b, by rw [hsplit]; rfl, rfl, hfollow⟩
    · rintro ⟨first', rest', b, hsplit', rfl, hfollow⟩
      obtain ⟨first, rest, hsplit⟩ := exists_cons_of_ne_nil (splitOnP_ne_nil (· == star) p)
      rw [splitOn, hsplit] at hsplit'
      cases hsplit'
      exact ⟨_, rfl, ih.mpr ⟨_, _, b, hsplit, rfl, hfollow⟩⟩

/-! ## Greedy is exact -/

theorem index_some (h : index seg s = some i) :
    seg <+: s.drop i ∧ ∀ a b, s = a ++ seg ++ b → i ≤ a.length := by
  induction s generalizing i with
  | nil =>
    rw [index] at h
    split at h
    next hseg => cases h; simp [hseg]
    next => cases h
  | cons c s ih =>
    rw [index] at h
    split at h
    next hseg => cases h; exact ⟨hseg, fun _ _ _ => Nat.zero_le _⟩
    next hseg =>
    obtain ⟨j, hj, rfl⟩ := Option.map_eq_some_iff.mp h
    refine ⟨(ih hj).1, fun a b heq => ?_⟩
    cases a with
    | nil => exact absurd ⟨b, heq.symm⟩ hseg
    | cons x a => exact Nat.succ_le_succ ((ih hj).2 a b (cons.inj heq).2)

theorem index_none (h : index seg s = none) (a b : Bytes) : s ≠ a ++ seg ++ b := by
  induction s generalizing a with
  | nil =>
    rintro heq
    simp [index, (append_eq_nil_iff.mp (append_eq_nil_iff.mp heq.symm).1).2] at h
  | cons c s ih =>
    rw [index] at h
    split at h
    next => cases h
    next hseg =>
    cases a with
    | nil => exact fun heq => hseg ⟨b, heq.symm⟩
    | cons x a => exact fun heq => ih (Option.map_eq_none_iff.mp h) a (cons.inj heq).2

theorem index_first (h : index seg s = some i) (heq : s = a ++ seg ++ b) :
    b <:+ s.drop (i + seg.length) := by
  have hle := (index_some h).2 a b heq
  have hb : b = (s.drop (i + seg.length)).drop (a.length - i) := by
    rw [drop_drop, show i + seg.length + (a.length - i) = (a ++ seg).length by
      rw [length_append]; omega, heq, drop_left]
  rw [hb]
  exact drop_suffix _ _

theorem Follow.prepend (hsegs : segs ≠ []) (h : Follow anchored segs b) :
    Follow anchored segs (a ++ b) := by
  obtain ⟨seg, segs, rfl⟩ := exists_cons_of_ne_nil hsegs
  obtain ⟨x, y, rfl, hy⟩ := h
  exact ⟨a ++ x, y, by simp only [append_assoc], hy⟩

theorem skipAll_iff (last : Bytes) : Follow anchored (segs ++ [last]) s ↔
    ∃ r, skipAll s segs = some r ∧ Follow anchored [last] r := by
  induction segs generalizing s with
  | nil => exact ⟨fun h => ⟨s, rfl, h⟩, by rintro ⟨_, ⟨⟩, h⟩; exact h⟩
  | cons seg segs ih =>
    rw [skipAll]
    cases hindex : index seg s with
    | none =>
      refine ⟨?_, by rintro ⟨_, ⟨⟩, _⟩⟩
      rintro ⟨a, b, heq, -⟩
      exact absurd heq (index_none hindex a b)
    | some i =>
    rw [← ih]
    constructor
    · rintro ⟨a, b, heq, hb⟩
      obtain ⟨d, hd⟩ := index_first hindex heq
      rw [← hd]
      exact hb.prepend (append_ne_nil_of_right_ne_nil _ (cons_ne_nil _ _))
    · intro hfollow
      obtain ⟨t, ht⟩ := (index_some hindex).1
      refine ⟨s.take i, _, ?_, hfollow⟩
      rw [← drop_drop, ← ht, drop_left, append_assoc, ht, take_append_drop]

theorem follow_last : Follow anchored [seg] s ↔
    (if anchored then decide (seg <:+ s) else decide (seg <:+: s)) = true := by
  cases anchored with
  | false =>
    simp only [Follow, Bool.false_eq_true, false_imp_iff, and_true, if_false, decide_eq_true_eq]
    exact ⟨fun ⟨a, b, h⟩ => ⟨a, b, h.symm⟩, fun ⟨a, b, h⟩ => ⟨a, b, h.symm⟩⟩
  | true =>
    simp only [Follow, true_imp_iff, if_true, decide_eq_true_eq]
    constructor
    · rintro ⟨a, _, h, rfl⟩
      exact ⟨a, by rw [h, append_nil]⟩
    · rintro ⟨a, h⟩
      exact ⟨a, [], by rw [append_nil, h], rfl⟩

theorem wildcardMatch_iff : wildcardMatch p s anchored = true ↔ Accepts anchored p s := by
  rw [accepts_iff_follow, wildcardMatch]
  obtain ⟨first, rest, hsplit⟩ := exists_cons_of_ne_nil (splitOnP_ne_nil (· == star) p)
  rw [splitOn, hsplit]
  simp only [cons.injEq]
  by_cases hfirst : first <+: s
  swap
  · rw [if_pos hfirst]
    refine iff_of_false Bool.false_ne_true ?_
    rintro ⟨_, _, b, ⟨rfl, -⟩, rfl, -⟩
    exact hfirst (prefix_append _ b)
  obtain ⟨t, rfl⟩ := hfirst
  have hfollow : (∃ first' rest' b, (first = first' ∧ rest = rest') ∧ first ++ t = first' ++ b ∧
      Follow anchored rest' b) ↔ Follow anchored rest t := by
    constructor
    · rintro ⟨_, _, b, ⟨rfl, rfl⟩, heq, h⟩
      rwa [append_cancel_left heq]
    · exact fun h => ⟨first, rest, t, ⟨rfl, rfl⟩, rfl, h⟩
  rw [hfollow, if_neg (not_not.mpr (prefix_append first t)), drop_left]
  by_cases hrest : rest = []
  · rw [if_pos hrest, hrest]
    cases anchored <;> simp [Follow]
  · rw [if_neg hrest]
    conv_rhs => rw [← dropLast_append_getLast hrest, skipAll_iff]
    rw [getLast?_eq_some_getLast hrest, Option.getD_some]
    cases skipAll t rest.dropLast with
    | none => simp
    | some r => simp [follow_last]

theorem robotsMatch_iff (pattern path : Bytes) : robotsMatch pattern path = true ↔
    if pattern.getLast? = some dollar then Matches pattern.dropLast path
    else ∃ pre, pre <+: path ∧ Matches pattern pre := by
  rw [robotsMatch]
  split
  · rw [wildcardMatch_iff]
    constructor
    · rintro ⟨_, -, h, hall⟩
      rwa [← hall rfl]
    · exact fun h => ⟨path, prefix_refl path, h, fun _ => rfl⟩
  · rw [wildcardMatch_iff]
    simp [Accepts]

/-! ## The longest rule -/

/-- The longest length so far, and whether a rule of that length allows. -/
structure Decided (path : Bytes) (rules : List RobotsRule) (best : Int × Bool) : Prop where
  le : ∀ rule ∈ rules, robotsMatch rule.pattern path = true → rule.pattern.length ≤ best.1
  found : best.1 = -1 ∨
    ∃ rule ∈ rules, robotsMatch rule.pattern path = true ∧ (rule.pattern.length : Int) = best.1
  verdict : best.2 = true ↔ best.1 = -1 ∨ ∃ rule ∈ rules,
    robotsMatch rule.pattern path = true ∧ rule.allow = true ∧ (rule.pattern.length : Int) = best.1

theorem foldl_longest (path : Bytes) (rules : List RobotsRule) :
    Decided path rules (rules.foldl (longest path) (-1, true)) := by
  induction rules using reverseRecOn with
  | nil => exact ⟨by simp, .inl rfl, by simp⟩
  | append_singleton rules rule ih =>
    rw [foldl_append, foldl_cons, foldl_nil, longest]
    generalize rules.foldl (longest path) (-1, true) = best at ih ⊢
    obtain ⟨hle, hfound, hverdict⟩ := ih
    split
    next hmatch =>
      dsimp only
      split
      next hlonger => constructor <;> grind
      next hshorter => constructor <;> grind
    next hmatch => constructor <;> grind

/-- A pattern matches its language, and a longest rule that matches decides; Allow wins a tie. -/
theorem allowed_exact : (∀ pattern path : Bytes, robotsMatch pattern path = true ↔
      if pattern.getLast? = some dollar then Matches pattern.dropLast path
      else ∃ pre, pre <+: path ∧ Matches pattern pre) ∧
    ∀ (r : Robots) (u : Target), r.allowed u = true ↔ r.disallowAll = false ∧
      ((∀ rule ∈ r.rules, robotsMatch rule.pattern u.path = false) ∨
        ∃ rule ∈ r.rules, robotsMatch rule.pattern u.path = true ∧ rule.allow = true ∧
          ∀ rule' ∈ r.rules, robotsMatch rule'.pattern u.path = true →
            rule'.pattern.length ≤ rule.pattern.length) := by
  refine ⟨robotsMatch_iff, fun r u => ?_⟩
  obtain ⟨hle, hfound, hverdict⟩ := foldl_longest u.path r.rules
  rw [Robots.allowed]
  cases r.disallowAll with
  | true => simp
  | false =>
    rw [if_neg Bool.false_ne_true, hverdict]
    grind

end InterviewPrep.WebCrawler.RobotsTxt
