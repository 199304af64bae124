/-
  A log that is delivered at least once: a consumer applies the message at its offset and
  commits the offset afterwards, and a crash in between delivers the message again.  Where
  applying a message twice is applying it once, what is applied is the committed messages,
  or one more of them (`Applied`), and at the end of the log all of them.

  `latest` is such a step: the last writer wins, and `foldl_latest` says who that is.
-/
import Mathlib.Data.List.Induction
import Mathlib.Order.Lattice

namespace InterviewPrep.Lib

open List

variable {σ α : Type*}

/-! ## At least once -/

/-- What is applied is the committed messages of a log, or one more of them. -/
def Applied (apply : σ → α → σ) (init : σ) (log : List α) (committed : Nat) (x : σ) : Prop :=
  x = (log.take committed).foldl apply init ∨ x = (log.take (committed + 1)).foldl apply init

variable {apply : σ → α → σ} {init x : σ} {log : List α} {committed : Nat} {m : α}

theorem foldl_take_succ (hm : log[committed]? = some m) :
    (log.take (committed + 1)).foldl apply init =
      apply ((log.take committed).foldl apply init) m := by
  rw [take_add_one, hm, foldl_append]
  rfl

theorem Applied.deliver (h : Applied apply init log committed x)
    (htwice : ∀ x a, apply (apply x a) a = apply x a) (hm : log[committed]? = some m) :
    apply x m = (log.take (committed + 1)).foldl apply init := by
  rw [foldl_take_succ hm]
  obtain rfl | rfl := h
  · rfl
  · rw [foldl_take_succ hm, htwice]

theorem Applied.append (h : Applied apply init log committed x) (hlen : committed ≤ log.length) :
    Applied apply init (log ++ [m]) committed x := by
  rw [Applied, take_append_of_le_length hlen]
  obtain h | h := h
  · exact .inl h
  · by_cases hend : committed = log.length
    · left
      rw [h, hend, take_of_length_le (Nat.le_succ _), take_length]
    · right
      rw [take_append_of_le_length (by omega)]
      exact h

theorem Applied.all (h : Applied apply init log committed x) (hend : committed = log.length) :
    x = log.foldl apply init := by
  subst hend
  obtain h | h := h
  · rwa [take_length] at h
  · rwa [take_of_length_le (Nat.le_succ _)] at h

/-! ## The last writer wins -/

variable {τ : Type*} [LinearOrder τ] {stamp : α → τ}

/-- A value is kept against those that are older. -/
def latest (stamp : α → τ) : Option α → α → Option α
  | none, a => some a
  | some b, a => if stamp a < stamp b then some b else some a

theorem latest_twice (x : Option α) (a : α) :
    latest stamp (latest stamp x a) a = latest stamp x a := by
  have hself : latest stamp (some a) a = some a := if_neg (lt_irrefl _)
  cases x with
  | none => exact hself
  | some b =>
    rw [latest]
    by_cases hlt : stamp a < stamp b
    · rw [if_pos hlt]
      exact if_pos hlt
    · rw [if_neg hlt]
      exact hself

theorem latest_ne_none (x : Option α) (a : α) : latest stamp x a ≠ none := by
  intro h
  cases x with
  | none => cases h
  | some =>
    rw [latest] at h
    split at h <;> cases h

theorem foldl_latest_eq_none {xs : List α} : xs.foldl (latest stamp) none = none ↔ xs = [] := by
  constructor
  · intro h
    cases xs using List.reverseRecOn with
    | nil => rfl
    | append_singleton _ a =>
      rw [foldl_append] at h
      exact absurd h (latest_ne_none _ a)
  · rintro rfl
    rfl

theorem foldl_latest {xs : List α} {a : α} (h : xs.foldl (latest stamp) none = some a) :
    ∃ front back, xs = front ++ a :: back ∧ (∀ b ∈ front, stamp b ≤ stamp a) ∧
      ∀ b ∈ back, stamp b < stamp a := by
  have hnone : ∀ b ∈ ([] : List α), stamp b < stamp a := nofun
  induction xs using List.reverseRecOn generalizing a with
  | nil => cases h
  | append_singleton xs c ih =>
    rw [foldl_append, foldl_cons, foldl_nil] at h
    cases hxs : xs.foldl (latest stamp) none with
    | none =>
      rw [hxs, latest] at h
      cases h
      rw [foldl_latest_eq_none.mp hxs]
      exact ⟨[], [], rfl, nofun, hnone⟩
    | some =>
    obtain ⟨front, back, hsplit, hfront, hback⟩ :=
      ih hxs nofun
    rw [hxs, latest] at h
    split at h
    next hlt =>
      cases h
      refine ⟨front, back ++ [c], by rw [hsplit, append_assoc, cons_append],
        hfront, fun d hd => ?_⟩
      rcases mem_append.mp hd with hd | hd
      · exact hback d hd
      · rw [mem_singleton.mp hd]
        exact hlt
    next hle =>
    cases h
    rw [not_lt] at hle
    refine ⟨xs, [], rfl, fun d hd => ?_, hnone⟩
    rw [hsplit] at hd
    rcases mem_append.mp hd with hd | hd
    · exact (hfront d hd).trans hle
    · rcases mem_cons.mp hd with rfl | hd
      · exact hle
      · exact (hback d hd).le.trans hle

end InterviewPrep.Lib
