/-
  InterviewPrep.Stacks.Calculator

  `calculate` (03_stacks/questions.py): one pass over the characters that applies the operator
  before a number when the next one, or the last character, is seen.

  An expression is its terms and factors with the spaces around its literals.  The pass is a fold
  over the literals and the operators in front of them (`scan_text`), and what it leaves of a term
  is the term's value with the sign of its operator (`foldlM_factors`).
-/
import Mathlib.Algebra.Order.Ring.Int

namespace InterviewPrep.Stacks

open List

/-! ## calculate -/

/-- `stack.pop()` of an empty list, or a division by zero. -/
inductive EvalError where
  | indexError
  | zeroDivisionError

structure Scan where
  /-- the top first -/
  stack : List Int
  num : Int
  prevOp : Char

/-- The stack after `prev_op` is applied to `num`. -/
def applyOp (stack : List Int) (prevOp : Char) (num : Int) : Except EvalError (List Int) :=
  if prevOp = '+' then .ok (num :: stack)
  else if prevOp = '-' then .ok (-num :: stack)
  else
    match stack with
    | [] => .error .indexError
    | top :: rest =>
      if prevOp = '*' then .ok (top * num :: rest)
      else if num = 0 then .error .zeroDivisionError
      else .ok
        ((if 0 ≤ top then (top.natAbs : Int).fdiv num else -(top.natAbs : Int).fdiv num) :: rest)

/-- One character; `last` when it is the last one. -/
def scanChar (last : Bool) (st : Scan) (ch : Char) : Except EvalError Scan :=
  let num := if ch.isDigit then st.num * 10 + (ch.toNat - '0'.toNat : Nat) else st.num
  if ch ∈ ['+', '-', '*', '/'] ∨ last then do
    return ⟨← applyOp st.stack st.prevOp num, 0, ch⟩
  else .ok { st with num }

def scan : List Char → Scan → Except EvalError Scan
  | [], st => .ok st
  | ch :: rest, st => scanChar rest.isEmpty st ch >>= scan rest

def calculate (s : List Char) : Except EvalError Int := do
  return (← scan s ⟨[], 0, '+'⟩).stack.sum

/-! ## Expressions -/

/-- Digits with spaces around them. -/
structure Literal where
  before : Nat
  digits : List Char
  after : Nat
  digits_ne_nil : digits ≠ []
  isDigit : ∀ c ∈ digits, c.isDigit = true

/-- The number that digits make of the one read before them. -/
def readDigits (num : Int) (digits : List Char) : Int :=
  digits.foldl (fun n c => n * 10 + (c.toNat - '0'.toNat : Nat)) num

def Literal.value (l : Literal) : Int := readDigits 0 l.digits

def Literal.text (l : Literal) : List Char :=
  replicate l.before ' ' ++ (l.digits ++ replicate l.after ' ')

inductive MulOp where
  | times
  | divide

inductive AddOp where
  | plus
  | minus

def MulOp.char : MulOp → Char
  | times => '*'
  | divide => '/'

def AddOp.char : AddOp → Char
  | plus => '+'
  | minus => '-'

/-- Division truncates toward zero. -/
def MulOp.apply (a : Int) : MulOp → Int → Option Int
  | times, b => some (a * b)
  | divide, b => if b = 0 then none else some (a.tdiv b)

def AddOp.apply (a : Int) : AddOp → Int → Int
  | plus, b => a + b
  | minus, b => a - b

structure Term where
  first : Literal
  rest : List (MulOp × Literal)

structure Expression where
  first : Term
  rest : List (AddOp × Term)

def Term.value (t : Term) : Option Int :=
  t.rest.foldlM (fun a x => x.1.apply a x.2.value) t.first.value

/-- The value, if nothing is divided by zero. -/
def Expression.value (e : Expression) : Option Int := do
  e.rest.foldlM (fun a x => x.2.value.map (x.1.apply a)) (← e.first.value)

/-- The literals of a term after its first, with the operators in front of them. -/
def Term.factors (t : Term) : List (Char × Literal) := t.rest.map fun x => (x.1.char, x.2)

/-- The literals after the first one. -/
def Expression.tokens (e : Expression) : List (Char × Literal) :=
  e.first.factors ++ e.rest.flatMap fun x => (x.1.char, x.2.first) :: x.2.factors

def Expression.text (e : Expression) : List Char :=
  e.first.first.text ++ e.tokens.flatMap fun x => x.1 :: x.2.text

/-! ## The pass over the characters -/

variable {st : Scan} {rest : List Char} {stack : List Int} {op : Char} {c : Char}

theorem scan_plain (hc : c ∉ ['+', '-', '*', '/']) (hrest : rest ≠ []) :
    scan (c :: rest) st = scan rest
      { st with
        num := if c.isDigit then st.num * 10 + (c.toNat - '0'.toNat : Nat) else st.num } := by
  obtain ⟨d, rest, rfl⟩ := exists_cons_of_ne_nil hrest
  rw [scan, scanChar, if_neg (by simp [hc])]
  rfl

theorem scan_spaces (n : Nat) (hrest : rest ≠ []) :
    scan (replicate n ' ' ++ rest) st = scan rest st := by
  induction n with
  | zero => rfl
  | succ n ih =>
    rw [replicate_succ, cons_append, scan_plain (by decide) (by simp [hrest])]
    exact ih

theorem digit_not_op (hc : c.isDigit = true) : c ∉ ['+', '-', '*', '/'] := by
  rintro hop
  simp only [mem_cons, not_mem_nil, or_false] at hop
  obtain rfl | rfl | rfl | rfl := hop <;> exact absurd hc (by decide)

theorem scan_digits {digits : List Char} (hdigits : ∀ c ∈ digits, c.isDigit = true)
    (hrest : rest ≠ []) :
    scan (digits ++ rest) st = scan rest { st with num := readDigits st.num digits } := by
  induction digits generalizing st with
  | nil => rfl
  | cons c digits ih =>
    have hc := hdigits c mem_cons_self
    rw [cons_append, scan_plain (digit_not_op hc) (by simp [hrest]), if_pos hc,
      ih fun c hc => hdigits c (mem_cons_of_mem _ hc)]
    rfl

theorem scan_op (hop : op ∈ ['+', '-', '*', '/']) (hdigit : op.isDigit = false) :
    scan (op :: rest) st =
      applyOp st.stack st.prevOp st.num >>= fun stack => scan rest ⟨stack, 0, op⟩ := by
  rw [scan, scanChar, if_pos (.inl hop), hdigit, if_neg Bool.false_ne_true]
  cases applyOp st.stack st.prevOp st.num <;> rfl

theorem scan_last : (·.stack) <$> scan [c] st = applyOp st.stack st.prevOp
    (if c.isDigit then st.num * 10 + (c.toNat - '0'.toNat : Nat) else st.num) := by
  rw [scan, scanChar, if_pos (.inr rfl)]
  generalize applyOp _ _ _ = r
  cases r <;> rfl

theorem scan_literal_op (l : Literal) (hop : c ∈ ['+', '-', '*', '/'])
    (hdigit : c.isDigit = false) :
    scan (l.text ++ c :: rest) ⟨stack, 0, op⟩ =
      applyOp stack op l.value >>= fun stack => scan rest ⟨stack, 0, c⟩ := by
  rw [Literal.text, append_assoc, append_assoc, scan_spaces _ (by simp),
    scan_digits l.isDigit (by simp), scan_spaces _ (by simp), scan_op hop hdigit]
  rfl

theorem scan_literal_last (l : Literal) :
    (·.stack) <$> scan l.text ⟨stack, 0, op⟩ = applyOp stack op l.value := by
  rw [Literal.text, scan_spaces _ (by simp [l.digits_ne_nil])]
  rcases Nat.eq_zero_or_pos l.after with h | h
  · obtain ⟨digits, d, hd⟩ := (eq_nil_or_concat l.digits).resolve_left l.digits_ne_nil
    have hdigits := l.isDigit
    rw [concat_eq_append] at hd
    rw [hd] at hdigits
    rw [h, replicate_zero, append_nil, hd,
      scan_digits (fun c hc => hdigits c (by simp [hc])) (by simp), scan_last,
      if_pos (hdigits d (by simp)), Literal.value, hd, readDigits, readDigits, foldl_append]
    rfl
  obtain ⟨n, hn⟩ := Nat.exists_eq_succ_of_ne_zero h.ne'
  rw [hn, scan_digits l.isDigit (by simp), replicate_succ', scan_spaces _ (by simp),
    scan_last]
  rfl

theorem scan_text (stack : List Int) (op : Char) (l : Literal) (tokens : List (Char × Literal))
    (hops : ∀ x ∈ tokens, x.1 ∈ ['+', '-', '*', '/']) :
    (·.stack) <$> scan (l.text ++ tokens.flatMap fun x => x.1 :: x.2.text) ⟨stack, 0, op⟩ =
      ((op, l) :: tokens).foldlM (fun stack x => applyOp stack x.1 x.2.value) stack := by
  induction tokens generalizing l stack op with
  | nil =>
    rw [flatMap_nil, append_nil, scan_literal_last, foldlM_cons]
    cases applyOp stack op l.value <;> rfl
  | cons x tokens ih =>
    have hop := hops x mem_cons_self
    have hdigit : x.1.isDigit = false := by
      rw [← Bool.not_eq_true]
      exact fun hc => digit_not_op hc hop
    rw [flatMap_cons, cons_append, scan_literal_op l hop hdigit, foldlM_cons]
    cases applyOp stack op l.value with
    | error => rfl
    | ok stack => exact ih stack x.1 x.2 fun y hy => hops y (mem_cons_of_mem _ hy)

/-! ## Terms -/

theorem readDigits_nonneg {num : Int} (h : 0 ≤ num) (digits : List Char) :
    0 ≤ readDigits num digits := by
  induction digits generalizing num with
  | nil => exact h
  | cons c digits ih => exact ih (show 0 ≤ num * 10 + (c.toNat - '0'.toNat : Nat) by omega)

theorem truncated (top : Int) {num : Int} (h : 0 ≤ num) :
    (if 0 ≤ top then (top.natAbs : Int).fdiv num else -(top.natAbs : Int).fdiv num) =
      top.tdiv num := by
  rw [Int.fdiv_eq_ediv_of_nonneg _ h]
  split
  next htop => rw [Int.natAbs_of_nonneg htop, Int.tdiv_eq_ediv_of_nonneg htop]
  next htop =>
    have hneg : 0 ≤ -top := by omega
    rw [← Int.natAbs_neg, Int.natAbs_of_nonneg hneg, ← Int.tdiv_eq_ediv_of_nonneg hneg,
      Int.neg_tdiv, Int.neg_neg]

theorem foldlM_factors (stack : List Int) {sign : Int} (factors : List (MulOp × Literal))
    {a v : Int}
    (hsign : sign = 1 ∨ sign = -1)
    (hv : factors.foldlM (fun a x => x.1.apply a x.2.value) a = some v) :
    (factors.map fun x => (x.1.char, x.2)).foldlM (fun stack x => applyOp stack x.1 x.2.value)
      (sign * a :: stack) = .ok (sign * v :: stack) := by
  induction factors generalizing a with
  | nil =>
    cases hv
    rfl
  | cons x factors ih =>
    obtain ⟨o, l⟩ := x
    rw [foldlM_cons] at hv
    rw [map_cons, foldlM_cons]
    have hnonneg : 0 ≤ l.value := readDigits_nonneg (Int.le_refl 0) l.digits
    cases o with
    | times =>
      have happly : applyOp (sign * a :: stack) '*' l.value =
          .ok (sign * (a * l.value) :: stack) := by
        rw [← Int.mul_assoc]
        rfl
      exact (congrArg (· >>= _) happly).trans (ih hv)
    | divide =>
    rw [MulOp.apply] at hv
    split at hv
    · cases hv
    next hne =>
    have happly : applyOp (sign * a :: stack) '/' l.value =
        .ok (sign * a.tdiv l.value :: stack) := by
      have hdiv : (sign * a).tdiv l.value = sign * a.tdiv l.value := by
        obtain rfl | rfl := hsign
        · rw [Int.one_mul, Int.one_mul]
        · rw [Int.neg_one_mul, Int.neg_one_mul, Int.neg_tdiv]
      rw [← hdiv, ← truncated _ hnonneg]
      exact if_neg hne
    exact (congrArg (· >>= _) happly).trans (ih hv)

theorem foldlM_term (stack : List Int) (o : AddOp) (t : Term) {v : Int} (hv : t.value = some v) :
    ((o.char, t.first) :: t.factors).foldlM (fun stack x => applyOp stack x.1 x.2.value) stack =
      .ok (o.apply 0 v :: stack) := by
  cases o with
  | plus =>
    have hfactors := foldlM_factors stack t.rest (.inl rfl) hv
    rw [Int.one_mul, Int.one_mul] at hfactors
    rw [AddOp.apply, Int.zero_add]
    exact hfactors
  | minus =>
    have hfactors := foldlM_factors stack t.rest (.inr rfl) hv
    rw [Int.neg_one_mul, Int.neg_one_mul] at hfactors
    rw [AddOp.apply, Int.zero_sub]
    exact hfactors

theorem AddOp.apply_eq (o : AddOp) (a b : Int) : o.apply a b = o.apply 0 b + a := by
  cases o <;> simp only [AddOp.apply] <;> omega

theorem foldlM_terms (terms : List (AddOp × Term)) {v : Int}
    (hv : terms.foldlM (fun a x => x.2.value.map (x.1.apply a)) stack.sum = some v) :
    ∃ stack', (terms.flatMap fun x => (x.1.char, x.2.first) :: x.2.factors).foldlM
      (fun stack x => applyOp stack x.1 x.2.value) stack = .ok stack' ∧ stack'.sum = v := by
  induction terms generalizing stack with
  | nil => exact ⟨stack, rfl, Option.some.inj hv⟩
  | cons x terms ih =>
    rw [foldlM_cons] at hv
    obtain ⟨a, ha, hv⟩ := Option.bind_eq_some_iff.mp hv
    obtain ⟨w, hw, rfl⟩ := Option.map_eq_some_iff.mp ha
    rw [AddOp.apply_eq, ← sum_cons] at hv
    obtain ⟨stack', hstack', hsum⟩ := ih hv
    refine ⟨stack', ?_, hsum⟩
    rw [flatMap_cons, foldlM_append, foldlM_term _ x.1 x.2 hw]
    exact hstack'

theorem Expression.tokens_op (e : Expression) : ∀ x ∈ e.tokens, x.1 ∈ ['+', '-', '*', '/'] := by
  have hfactors : ∀ t : Term, ∀ x ∈ t.factors, x.1 ∈ ['+', '-', '*', '/'] := by
    intro t x hx
    obtain ⟨⟨o, l⟩, -, rfl⟩ := mem_map.mp hx
    cases o <;> simp [MulOp.char]
  intro x hx
  obtain hx | hx := mem_append.mp hx
  · exact hfactors e.first x hx
  obtain ⟨⟨o, t⟩, -, hx⟩ := mem_flatMap.mp hx
  obtain rfl | hx := mem_cons.mp hx
  · cases o <;> simp [AddOp.char]
  · exact hfactors t x hx

/-- `calculate` returns the value of the expression that is written out. -/
theorem calculate_text (e : Expression) {v : Int} (hv : e.value = some v) :
    calculate e.text = .ok v := by
  obtain ⟨first, hfirst, hv⟩ := Option.bind_eq_some_iff.mp hv
  have hscan := scan_text [] '+' e.first.first e.tokens e.tokens_op
  have hterm := foldlM_term [] .plus e.first hfirst
  have hsum : (AddOp.plus.apply 0 first :: ([] : List Int)).sum = first := by simp [AddOp.apply]
  rw [← hsum] at hv
  obtain ⟨stack, hstack, hsum⟩ := foldlM_terms e.rest hv
  rw [Expression.tokens, ← cons_append, foldlM_append] at hscan
  rw [show ('+', e.first.first) = (AddOp.plus.char, e.first.first) from rfl, hterm] at hscan
  replace hscan : (·.stack) <$> scan e.text ⟨[], 0, '+'⟩ = .ok stack := hscan.trans hstack
  rw [calculate]
  generalize scan e.text _ = r at hscan ⊢
  cases r with
  | error => cases hscan
  | ok st =>
    cases hscan
    exact congrArg Except.ok hsum

/-- "14-3/2 ": the division sees -3. -/
theorem calculate_text_truncates :
    calculate ['1', '4', '-', '3', '/', '2', ' '] = .ok 13 :=
  calculate_text ⟨⟨⟨0, ['1', '4'], 0, by decide, by simp⟩, []⟩,
    [(.minus, ⟨⟨0, ['3'], 0, by decide, by simp⟩,
      [(.divide, ⟨0, ['2'], 1, by decide, by simp⟩)]⟩)]⟩ (by decide)

end InterviewPrep.Stacks
