/-
  What a pseudo-legal move can be.  Every proof about a move goes through `shape_of_mem`: a
  move is plain, or a king hops with a rook that has not moved.  `attack_of_taking` says that
  a move takes only what its piece attacks, and `slide_fuel` that eight squares are enough
  for a sliding piece.

  `apply_move` and `undo_move` are inverse.  The board after a move is given in closed form,
  one for each shape of a move, and undoing it restores the board to the last field.
-/
import InterviewPrep.Chess.Board
import InterviewPrep.Lib.Run
import Mathlib.Tactic.Ring

namespace InterviewPrep.Chess

open List

theorem Color.opponent_opponent (c : Color) : c.opponent.opponent = c := by
  cases c <;> rfl

theorem Color.opponent_ne (c : Color) : c.opponent ≠ c := by
  cases c <;> decide

theorem Color.eq_opponent {c d : Color} (h : c ≠ d) : c = d.opponent := by
  cases c <;> cases d <;> first | rfl | exact absurd rfl h

/-! ## Squares -/

theorem onBoard_iff {s : Square} : onBoard s = true ↔ 0 ≤ s.1 ∧ s.1 < 8 ∧ 0 ≤ s.2 ∧ s.2 < 8 := by
  simp [onBoard]

theorem mem_allSquares {s : Square} : s ∈ allSquares ↔ onBoard s = true := by
  rw [onBoard_iff]
  constructor
  · intro h
    simp only [allSquares, mem_flatMap, List.mem_map, mem_range] at h
    obtain ⟨r, hr, c, hc, rfl⟩ := h
    omega
  · rintro ⟨hr, hr', hc, hc'⟩
    simp only [allSquares, mem_flatMap, List.mem_map, mem_range]
    have hs : (((s.1.toNat : Nat) : Int), ((s.2.toNat : Nat) : Int)) = s := by
      rw [Int.toNat_of_nonneg hr, Int.toNat_of_nonneg hc]
    exact ⟨s.1.toNat, by omega, s.2.toNat, by omega, hs⟩

/-! ## Sliding -/

section

variable {colorAt : Square → Option Color} {color : Color} {d t s : Square} {p : Piece} {n : Nat}

theorem slide_of_leaves {m : Nat} (hnm : n ≤ m)
    (hoff : ∀ k : Nat, n ≤ k → onBoard (s.1 + k * d.1, s.2 + k * d.2) = false) :
    slide colorAt color d m s = slide colorAt color d n s := by
  induction n generalizing m s with
  | zero =>
    have hs : onBoard s = false := by simpa using hoff 0 (Nat.le_refl 0)
    cases m with
    | zero => rfl
    | succ => simp [slide, hs]
  | succ n ih =>
    obtain ⟨m, rfl⟩ : ∃ m', m = m' + 1 := ⟨m - 1, by omega⟩
    have hrest : slide colorAt color d m (s.step d) = slide colorAt color d n (s.step d) := by
      apply ih (by omega)
      intro k hk
      have h := hoff (k + 1) (by omega)
      have hsq : ((s.step d).1 + k * d.1, (s.step d).2 + k * d.2) =
          (s.1 + ((k + 1 : Nat) : Int) * d.1, s.2 + ((k + 1 : Nat) : Int) * d.2) := by
        simp only [Square.step, Nat.cast_add, Nat.cast_one, add_mul, one_mul]
        exact Prod.ext (by ring) (by ring)
      rw [hsq]
      exact h
    rw [slide, slide, hrest]

theorem slide_fuel {pt : PieceType} (hs : onBoard s = true) (hd : d ∈ pt.directions) (hn : 8 ≤ n) :
    slide colorAt color d n (s.step d) = slide colorAt color d 8 (s.step d) := by
  apply slide_of_leaves hn
  intro k hk
  have hd' : d ∈ orthogonal ++ diagonal := by
    cases pt <;> simp only [PieceType.directions, mem_append, not_mem_nil] at hd ⊢ <;> tauto
  rw [onBoard_iff] at hs
  rw [Bool.eq_false_iff, ne_eq, onBoard_iff]
  simp only [orthogonal, diagonal, cons_append, nil_append, mem_cons,
    not_mem_nil, or_false] at hd'
  rcases hd' with rfl | rfl | rfl | rfl | rfl | rfl | rfl | rfl <;>
    simp only [Square.step] <;> omega

/-! ## Attacks -/

theorem slide_mem (h : t ∈ slide colorAt color d n s) :
    onBoard t = true ∧ colorAt t ≠ some color := by
  induction n generalizing s with
  | zero => simp [slide] at h
  | succ _ ih =>
    rw [slide] at h
    split at h
    next hs =>
      split at h
      next hnone =>
        rcases mem_cons.mp h with rfl | h
        · exact ⟨hs, by simp [hnone]⟩
        · exact ih h
      next hsome =>
      split at h
      next hc =>
        rw [mem_singleton] at h
        rw [h]
        exact ⟨hs, by rw [hsome]; exact fun e => hc (Option.some.inj e)⟩
      next => simp at h
    next => simp at h

theorem stepMoves_mem {steps : List Square} (h : t ∈ stepMoves colorAt steps p) :
    (onBoard t = true ∧ colorAt t ≠ some p.color) ∧ ∃ d ∈ steps, p.position.step d = t := by
  simp only [stepMoves, mem_filter, List.mem_map, decide_eq_true_eq] at h
  exact ⟨h.2, h.1⟩

theorem pawnAttacks_mem (h : t ∈ pawnAttacks p) :
    onBoard t = true ∧ t.1 = p.position.1 + p.color.direction ∧
      (t.2 = p.position.2 - 1 ∨ t.2 = p.position.2 + 1) := by
  simp only [pawnAttacks, mem_filter, mem_cons, not_mem_nil, or_false] at h
  obtain ⟨rfl | rfl, hon⟩ := h
  · exact ⟨hon, rfl, Or.inl rfl⟩
  · exact ⟨hon, rfl, Or.inr rfl⟩

theorem attacks_onBoard (h : t ∈ attacks colorAt p) : onBoard t = true := by
  unfold attacks at h
  split at h
  · exact (stepMoves_mem h).1.1
  · exact (stepMoves_mem h).1.1
  · exact (pawnAttacks_mem h).1
  all_goals
    obtain ⟨d, -, hd⟩ := mem_flatMap.mp h
    exact (slide_mem hd).1

theorem attacks_color (h : t ∈ attacks colorAt p) (hpawn : p.pieceType ≠ .pawn) :
    colorAt t ≠ some p.color := by
  unfold attacks at h
  split at h
  · exact (stepMoves_mem h).1.2
  · exact (stepMoves_mem h).1.2
  next hp => exact absurd hp hpawn
  all_goals
    obtain ⟨d, -, hd⟩ := mem_flatMap.mp h
    exact (slide_mem hd).2

theorem king_attacks (hking : p.pieceType = .king) (h : t ∈ attacks colorAt p) :
    (t.2 - p.position.2).natAbs ≤ 1 := by
  rw [attacks, hking] at h
  obtain ⟨d, hd, rfl⟩ := (stepMoves_mem h).2
  have hcol : d.2 = 1 ∨ d.2 = -1 ∨ d.2 = 0 := by
    simp only [orthogonal, diagonal, cons_append, nil_append, mem_cons,
      not_mem_nil, or_false] at hd
    rcases hd with rfl | rfl | rfl | rfl | rfl | rfl | rfl | rfl <;> simp
  simp only [Square.step]
  omega

end

namespace Board

variable {b : Board} {s dest : Square} {p q king : Piece} {c : Color}

/-! ## The pieces of a board -/

/-- Every piece is on the board and knows its square. -/
def Placed (b : Board) : Prop :=
  ∀ s p, b.grid s = some p → onBoard s = true ∧ p.position = s

theorem getPieceAt_eq_some : b.getPieceAt s = some p ↔ onBoard s = true ∧ b.grid s = some p := by
  simp [getPieceAt]

theorem getPieceAt_of_onBoard (h : onBoard s = true) : b.getPieceAt s = b.grid s := by
  rw [getPieceAt, if_pos h]

theorem Placed.getPieceAt (h : b.Placed) (s : Square) : b.getPieceAt s = b.grid s := by
  cases hs : b.grid s with
  | none => simp [Board.getPieceAt, hs]
  | some p => exact getPieceAt_eq_some.mpr ⟨(h s p hs).1, hs⟩

theorem colorAt_of_grid (hs : onBoard s = true) (hp : b.grid s = some p) :
    b.colorAt s = some p.color := by
  rw [colorAt, getPieceAt_of_onBoard hs, hp, Option.map_some]

theorem mem_pieces : p ∈ b.pieces c ↔ ∃ s, onBoard s = true ∧ b.grid s = some p ∧ p.color = c := by
  simp only [pieces, mem_filterMap, mem_allSquares, Option.filter_eq_some_iff,
    decide_eq_true_eq]

theorem Placed.mem_pieces (h : b.Placed) :
    p ∈ b.pieces c ↔ b.grid p.position = some p ∧ p.color = c := by
  rw [Board.mem_pieces]
  constructor
  · rintro ⟨s, -, hs, hc⟩
    rw [(h s p hs).2]
    exact ⟨hs, hc⟩
  · rintro ⟨hs, hc⟩
    exact ⟨p.position, (h _ p hs).1, hs, hc⟩

/-! ## Pseudo-legal moves -/

theorem possibleMoves_cases (h : dest ∈ b.possibleMoves p) :
    (dest ∈ attacks b.colorAt p ∧ (p.pieceType = .pawn → b.pawnTakes p dest = true)) ∨
      (p.pieceType = .pawn ∧ dest ∈ b.pawnSteps p) ∨
        (p.pieceType = .king ∧ dest ∈ b.castlingMoves p) := by
  unfold possibleMoves at h
  split at h
  next hking =>
    rcases mem_append.mp h with h | h
    · exact Or.inl ⟨h, by simp [hking]⟩
    · exact Or.inr (Or.inr ⟨hking, h⟩)
  next hpawn =>
    rcases mem_append.mp h with h | h
    · exact Or.inr (Or.inl ⟨hpawn, h⟩)
    · obtain ⟨hattack, htakes⟩ := mem_filter.mp h
      exact Or.inl ⟨hattack, fun _ => htakes⟩
  all_goals
    rename_i htype
    exact Or.inl ⟨h, by simp [htype]⟩

theorem pawnSteps_mem (h : dest ∈ b.pawnSteps p) :
    b.getPieceAt dest = none ∧ onBoard dest = true ∧
      b.getPieceAt (p.position.1 + p.color.direction, p.position.2) = none ∧
      dest.2 = p.position.2 ∧ (dest.1 = p.position.1 + p.color.direction ∨
        dest.1 = p.position.1 + p.color.direction + p.color.direction) := by
  simp only [pawnSteps, mem_ite_nil_right, mem_cons] at h
  obtain ⟨⟨hon, hfree⟩, rfl | ⟨⟨hrow, htwo⟩, rfl | h⟩⟩ := h
  · exact ⟨hfree, hon, hfree, rfl, Or.inl rfl⟩
  · refine ⟨htwo, onBoard_iff.mpr ?_, hfree, rfl, Or.inr rfl⟩
    rw [onBoard_iff] at hon
    dsimp only at hon ⊢
    cases hcolor : p.color <;> simp [hcolor, Color.direction] at hrow ⊢ <;> omega
  · simp at h

theorem canCastle_spec {rookCol : Int} {empty safe : List Int}
    (h : b.canCastle king rookCol empty safe = true) :
    (∃ rook, b.getPieceAt (king.position.1, rookCol) = some rook ∧ rook.pieceType = .rook ∧
        rook.color = king.color ∧ rook.hasMoved = false) ∧
      ∀ c ∈ empty, b.getPieceAt (king.position.1, c) = none := by
  unfold canCastle at h
  dsimp only at h
  split at h
  next => cases h
  next rook hrook =>
    simp only [decide_eq_true_eq] at h
    exact ⟨⟨rook, hrook, h.1, h.2.1, h.2.2.1⟩, h.2.2.2.1⟩

theorem castlingMoves_mem (h : dest ∈ b.castlingMoves king) : king.hasMoved = false ∧
      ((dest = (king.position.1, king.position.2 + 2) ∧ b.canCastle king 7 [5, 6] [5, 6] = true) ∨
        (dest = (king.position.1, king.position.2 - 2) ∧
          b.canCastle king 0 [1, 2, 3] [3, 2] = true)) := by
  simp only [castlingMoves, mem_ite_nil_right, mem_append, mem_singleton] at h
  obtain ⟨⟨hunmoved, -⟩, ⟨hcan, hdest⟩ | ⟨hcan, hdest⟩⟩ := h
  · exact ⟨hunmoved, Or.inl ⟨hdest, hcan⟩⟩
  · exact ⟨hunmoved, Or.inr ⟨hdest, hcan⟩⟩

/-! ## Shapes -/

/-- No king on the d-file or f-file could castle to where its rook goes. -/
def HopFree (b : Board) : Prop :=
  ∀ s king rook, b.grid s = some king → king.pieceType = .king → king.hasMoved = false →
    rook.pieceType = .rook → rook.color = king.color → rook.hasMoved = false →
      ¬ (s.2 = 3 ∧ b.grid (s.1, 7) = some rook) ∧ ¬ (s.2 = 5 ∧ b.grid (s.1, 0) = some rook)

/-- Castling: the king goes two columns, and the rook from `source` to `target`. -/
structure Hop (b : Board) (king rook : Piece) (dest source target : Square) : Prop where
  isKing : king.pieceType = .king
  rookHop_eq : rookHop king king.position dest = some (source, target)
  rook_at : b.grid source = some rook
  isRook : rook.pieceType = .rook
  own : rook.color = king.color
  unmoved : rook.hasMoved = false
  free : b.grid target = none
  onBoard_dest : onBoard dest = true
  onBoard_target : onBoard target = true
  dest_ne : dest ≠ king.position
  source_ne : source ≠ king.position ∧ source ≠ dest
  target_ne : target ≠ king.position ∧ target ≠ dest ∧ target ≠ source

/-- The shapes of a move. -/
inductive Shape (b : Board) (p : Piece) (dest : Square) : Prop
  | plain (onBoard_dest : onBoard dest = true) (dest_ne : dest ≠ p.position)
      (rookHop_eq : rookHop p p.position dest = none)
  | castling (rook : Piece) (source target : Square) (hop : Hop b p rook dest source target)

theorem rookHop_of_near (h : (dest.2 - s.2).natAbs ≤ 1) : rookHop p s dest = none := by
  rw [rookHop, if_neg]
  rintro ⟨-, h2⟩
  omega

theorem rookHop_of_not_king (h : p.pieceType ≠ .king) : rookHop p s dest = none := by
  rw [rookHop, if_neg]
  exact fun hking => h hking.1

theorem col_ne {col : Int} (hp : b.grid p.position = some p)
    (hfree : b.grid (p.position.1, col) = none) : p.position.2 ≠ col := by
  intro hcol
  rw [← hcol] at hfree
  rw [hp] at hfree
  cases hfree

theorem hop_right (hplaced : b.Placed) (hfree : b.HopFree) (hking : king.pieceType = .king)
    (hp : b.grid king.position = some king) (hunmoved : king.hasMoved = false)
    (hcan : b.canCastle king 7 [5, 6] [5, 6] = true) :
    ∃ rook, Hop b king rook (king.position.1, king.position.2 + 2) (king.position.1, 7)
      (king.position.1, 5) := by
  obtain ⟨⟨rook, hrook, htype, hcolor, hstill⟩, hempty⟩ := canCastle_spec hcan
  rw [hplaced.getPieceAt] at hrook
  have h5 : b.grid (king.position.1, 5) = none := by
    rw [← hplaced.getPieceAt]
    exact hempty 5 (by simp)
  have h6 : b.grid (king.position.1, 6) = none := by
    rw [← hplaced.getPieceAt]
    exact hempty 6 (by simp)
  have hcol5 := col_ne hp h5
  have hcol6 := col_ne hp h6
  have hcol7 : king.position.2 ≠ 7 := by
    intro hcol
    rw [← hcol] at hrook
    rw [← Option.some.inj (hp.symm.trans hrook), hking] at htype
    cases htype
  have hcol3 : king.position.2 ≠ 3 := by
    intro hcol
    exact (hfree _ king rook hp hking hunmoved htype hcolor hstill).1 ⟨hcol, hrook⟩
  have hon := onBoard_iff.mp (hplaced _ _ hp).1
  refine ⟨rook, hking, ?_, hrook, htype, hcolor, hstill, h5, ?_, ?_, ?_, ?_, ?_⟩
  · rw [Board.rookHop, if_pos ⟨hking, by dsimp only; omega⟩, if_pos (by dsimp only; omega)]
  · rw [onBoard_iff]
    omega
  · rw [onBoard_iff]
    omega
  all_goals simp only [ne_eq, Prod.ext_iff, true_and]; omega

theorem hop_left (hplaced : b.Placed) (hfree : b.HopFree) (hking : king.pieceType = .king)
    (hp : b.grid king.position = some king) (hunmoved : king.hasMoved = false)
    (hcan : b.canCastle king 0 [1, 2, 3] [3, 2] = true) :
    ∃ rook, Hop b king rook (king.position.1, king.position.2 - 2) (king.position.1, 0)
      (king.position.1, 3) := by
  obtain ⟨⟨rook, hrook, htype, hcolor, hstill⟩, hempty⟩ := canCastle_spec hcan
  rw [hplaced.getPieceAt] at hrook
  have hnone : ∀ col ∈ [(1 : Int), 2, 3], b.grid (king.position.1, col) = none := by
    intro col hcol
    rw [← hplaced.getPieceAt]
    exact hempty col hcol
  have hcol1 := col_ne hp (hnone 1 (by simp))
  have hcol2 := col_ne hp (hnone 2 (by simp))
  have hcol3 := col_ne hp (hnone 3 (by simp))
  have hcol0 : king.position.2 ≠ 0 := by
    intro hcol
    rw [← hcol] at hrook
    rw [← Option.some.inj (hp.symm.trans hrook), hking] at htype
    cases htype
  have hcol5 : king.position.2 ≠ 5 := by
    intro hcol
    exact (hfree _ king rook hp hking hunmoved htype hcolor hstill).2 ⟨hcol, hrook⟩
  have hon := onBoard_iff.mp (hplaced _ _ hp).1
  refine ⟨rook, hking, ?_, hrook, htype, hcolor, hstill, hnone 3 (by simp), ?_, ?_, ?_, ?_, ?_⟩
  · rw [Board.rookHop, if_pos ⟨hking, by dsimp only; omega⟩, if_neg (by dsimp only; omega)]
  · rw [onBoard_iff]
    omega
  · rw [onBoard_iff]
    omega
  all_goals simp only [ne_eq, Prod.ext_iff, true_and]; omega

theorem shape_of_mem (hplaced : b.Placed) (hfree : b.HopFree) (hp : b.grid p.position = some p)
    (h : dest ∈ b.possibleMoves p) : Shape b p dest := by
  obtain ⟨hon, hown⟩ : onBoard p.position = true ∧ b.colorAt p.position = some p.color :=
    ⟨(hplaced _ _ hp).1, colorAt_of_grid (hplaced _ _ hp).1 hp⟩
  rcases possibleMoves_cases h with ⟨hattack, -⟩ | ⟨hpawn, hstep⟩ | ⟨hking, hcastle⟩
  · by_cases hpawn : p.pieceType = .pawn
    · rw [attacks, hpawn] at hattack
      obtain ⟨hdest, hrow, -⟩ := pawnAttacks_mem hattack
      refine .plain hdest ?_ (rookHop_of_not_king (by simp [hpawn]))
      rintro rfl
      cases hcolor : p.color <;> simp [hcolor, Color.direction] at hrow
    · refine .plain (attacks_onBoard hattack) ?_ ?_
      · rintro rfl
        exact attacks_color hattack hpawn hown
      · by_cases hking : p.pieceType = .king
        · exact rookHop_of_near (king_attacks hking hattack)
        · exact rookHop_of_not_king hking
  · obtain ⟨hnone, hdest, -⟩ := pawnSteps_mem hstep
    refine .plain hdest ?_ (rookHop_of_not_king (by simp [hpawn]))
    rintro rfl
    rw [hplaced.getPieceAt, hp] at hnone
    cases hnone
  · obtain ⟨hunmoved, ⟨rfl, hcan⟩ | ⟨rfl, hcan⟩⟩ := castlingMoves_mem hcastle
    · obtain ⟨rook, hhop⟩ := hop_right hplaced hfree hking hp hunmoved hcan
      exact .castling rook _ _ hhop
    · obtain ⟨rook, hhop⟩ := hop_left hplaced hfree hking hp hunmoved hcan
      exact .castling rook _ _ hhop

end Board

end InterviewPrep.Chess

namespace InterviewPrep.Chess.Board

open Lib Function

variable {b : Board} {s start dest source target : Square} {p rook : Piece}
  {promotion : Option PieceType} {promoted : Option Piece}

/-! ## The board after a move -/

/-- What stands on the last square of a move. -/
def landed (p : Piece) (dest : Square) (promoted : Option Piece) : Piece :=
  promoted.getD { p with position := dest, hasMoved := true }

/-- The board after a plain move. -/
def played (b : Board) (p : Piece) (start dest : Square) (promoted : Option Piece) : Board :=
  { ((b.takeOff (b.capturedBy p start dest).2).put start none).put dest
      (some (landed p dest promoted)) with
    enPassantTarget := passedOver p start dest }

/-- A castled rook. -/
def hopped (b : Board) (rook : Piece) (source target : Square) : Board :=
  (b.put source none).put target (some { rook with position := target, hasMoved := true })

/-- What is written down of a move. -/
def record (b : Board) (p : Piece) (start dest : Square) (promoted : Option Piece) : Move :=
  let captured := b.capturedBy p start dest
  let hop := rookHop p start dest
  { startPos := start, endPos := dest, piece := p
    capturedPiece := captured.2.bind b.getPieceAt, capturedPos := captured.2
    promotion := promoted.map Piece.pieceType, promotedPiece := promoted
    isCastling := hop.isSome, isEnPassant := captured.1
    rookFrom := hop.map Prod.fst, rookTo := hop.map Prod.snd
    prevEnPassantTarget := b.enPassantTarget, prevHasMoved := p.hasMoved }

theorem put_put (b : Board) (s : Square) (x y : Option Piece) :
    (b.put s x).put s y = b.put s y := by
  simp [put]

theorem applyMove_plain (hp : b.getPieceAt start = some p) (hhop : rookHop p start dest = none)
    (hpromoted : promotedBy p dest promotion = .ok promoted) : applyMove start dest promotion b =
      .ok (b.record p start dest promoted) (b.played p start dest promoted) := by
  rw [applyMove, get_bind]
  simp only [hp, modify_bind, hhop, hpromoted, moveRookOf, pure_bind]
  cases promoted with
  | none => simp only [record, hhop]; rfl
  | some =>
    simp only [record, hhop, Option.isSome_some, if_true, put_put]
    rfl

theorem applyMove_castling (hp : b.getPieceAt start = some p)
    (hhop : rookHop p start dest = some (source, target)) (hking : p.pieceType = .king)
    (hrook : (b.played p start dest none).getPieceAt source = some rook) :
    applyMove start dest promotion b =
      .ok (b.record p start dest none)
        ((b.played p start dest none).hopped rook source target) := by
  have hpromoted : promotedBy p dest promotion = .ok none := by simp [promotedBy, hking]
  rw [applyMove, get_bind]
  simp only [hp, modify_bind, hhop, hpromoted, moveRookOf]
  have hmove : ∀ b' : Board, b'.getPieceAt source = some rook →
      moveRook source target true b' = .ok () (b'.hopped rook source target) := by
    intro b' hb'
    rw [moveRook, get_bind, hb']
    rfl
  have hshifted : (((b.takeOff (b.capturedBy p start dest).2).put start none).put dest
      (some { p with position := dest, hasMoved := true })).getPieceAt source = some rook := hrook
  refine (bind_ok (hmove _ hshifted)).trans ?_
  simp only [record, hhop]
  rfl

/-! ## Undoing it -/

theorem capturedBy_cases (b : Board) (p : Piece) (start dest : Square) :
    (b.capturedBy p start dest = (true, some (start.1, dest.2)) ∧ p.pieceType = .pawn ∧
        some dest = b.enPassantTarget ∧ start.2 ≠ dest.2 ∧ b.getPieceAt dest = none) ∨
      (b.capturedBy p start dest = (false, some dest) ∧ b.getPieceAt dest ≠ none) ∨
        (b.capturedBy p start dest = (false, none) ∧ b.getPieceAt dest = none) := by
  unfold capturedBy
  split
  next hep => exact Or.inl ⟨rfl, hep⟩
  next =>
    split
    next hsome => exact Or.inr (Or.inl ⟨rfl, hsome⟩)
    next hnone => exact Or.inr (Or.inr ⟨rfl, not_not.mp hnone⟩)

theorem capturedBy_spec (hplaced : b.Placed) (hne : dest ≠ start) :
    (b.capturedBy p start dest).2 ≠ some start ∧
      ((b.capturedBy p start dest).2 ≠ some dest → b.grid dest = none) := by
  rcases b.capturedBy_cases p start dest with ⟨h, -, -, hcol, hnone⟩ | ⟨h, -⟩ | ⟨h, hnone⟩
  · rw [h]
    refine ⟨?_, fun _ => hplaced.getPieceAt dest ▸ hnone⟩
    intro e
    exact hcol (congrArg Prod.snd (Option.some.inj e)).symm
  · rw [h]
    exact ⟨fun e => hne (Option.some.inj e), fun e => absurd rfl e⟩
  · rw [h]
    exact ⟨by simp, fun _ => hplaced.getPieceAt dest ▸ hnone⟩

theorem takeOff_grid (b : Board) (cap : Option Square) (s : Square) :
    (b.takeOff cap).grid s = if cap = some s then none else b.grid s := by
  cases cap with
  | none => rfl
  | some pos =>
    by_cases h : pos = s
    · simp [takeOff, put, h]
    · simp [takeOff, put, h, update_of_ne (Ne.symm h)]

theorem putBack_grid (hplaced : b.Placed) (b' : Board) (cap : Option Square) (s : Square) :
    (b'.putBack (cap.bind b.getPieceAt) cap).grid s =
      if cap = some s ∧ b.grid s ≠ none then b.grid s else b'.grid s := by
  cases cap with
  | none => simp [putBack]
  | some pos =>
  rw [Option.bind_some, hplaced.getPieceAt]
  cases hq : b.grid pos with
  | none =>
    rw [if_neg]
    · rfl
    · rintro ⟨e, hs⟩
      exact hs (Option.some.inj e ▸ hq)
  | some q =>
    obtain ⟨-, hpos⟩ := hplaced pos q hq
    by_cases h : pos = s
    · subst h
      rw [if_pos ⟨rfl, by rw [hq]; simp⟩, hq]
      simp [putBack, put, ← hpos]
    · rw [if_neg (by simp [h])]
      simp [putBack, put, update_of_ne (Ne.symm h)]

/-- `undo_move` before the rook of a castling. -/
def takenBack (b : Board) (move : Move) : Board :=
  ((b.put move.endPos none).put move.startPos
    (some { move.piece with position := move.startPos, hasMoved := move.prevHasMoved })).putBack
      move.capturedPiece move.capturedPos

theorem takenBack_of_ne {t : Square} (hplaced : b.Placed) (b' : Board) (hd : t ≠ dest)
    (hs : t ≠ start) (htaken : (b.capturedBy p start dest).2 ≠ some t) :
    (b'.takenBack (b.record p start dest promoted)).grid t = b'.grid t := by
  rw [takenBack, record, putBack_grid hplaced]
  rw [if_neg (by simp [htaken])]
  simp [put, update_of_ne hs, update_of_ne hd]

theorem takenBack_grid {t : Square} (hplaced : b.Placed) (hp : b.grid p.position = some p)
    (hne : dest ≠ p.position) (b' : Board)
    (hb' : t ≠ dest → t ≠ p.position →
      b'.grid t = if (b.capturedBy p p.position dest).2 = some t then none else b.grid t) :
    (b'.takenBack (b.record p p.position dest promoted)).grid t = b.grid t := by
  obtain ⟨hstart, hdest⟩ := capturedBy_spec hplaced hne (p := p)
  rw [takenBack, record, putBack_grid hplaced]
  by_cases hs : t = p.position
  · subst hs
    rw [if_neg (by simp [hstart])]
    simp [put, hp]
  by_cases htaken : (b.capturedBy p p.position dest).2 = some t ∧ b.grid t ≠ none
  · rw [if_pos htaken]
  rw [if_neg htaken]
  by_cases hd : t = dest
  · subst hd
    have hnone : b.grid t = none := by
      by_contra hsome
      exact hsome (hdest fun e => htaken ⟨e, hsome⟩)
    simp [put, update_of_ne hs, hnone]
  · simp only [put, update_of_ne hs, update_of_ne hd, hb' hd hs]
    split
    next e =>
      by_contra hsome
      exact htaken ⟨e, fun h => hsome h.symm⟩
    next => rfl

theorem played_grid (b : Board) (p : Piece) (start dest : Square) (promoted : Option Piece)
    (t : Square) : (b.played p start dest promoted).grid t =
      if t = dest then some (landed p dest promoted) else if t = start then none
      else if (b.capturedBy p start dest).2 = some t then none else b.grid t := by
  simp only [played, put, update_apply, takeOff_grid]

theorem hopped_grid (b : Board) (rook : Piece) (source target t : Square) :
    (b.hopped rook source target).grid t =
      if t = target then some { rook with position := target, hasMoved := true }
      else if t = source then none else b.grid t := by
  simp only [hopped, put, update_apply]

theorem undoMove_plain (hplaced : b.Placed) (hp : b.grid p.position = some p)
    (hne : dest ≠ p.position) (hhop : rookHop p p.position dest = none) :
    undoMove (b.record p p.position dest promoted) (b.played p p.position dest promoted) =
      .ok () b := by
  have hgrid : ((b.played p p.position dest promoted).takenBack
      (b.record p p.position dest promoted)).grid = b.grid := by
    funext t
    apply takenBack_grid hplaced hp hne
    intro hd hs
    rw [played_grid, if_neg hd, if_neg hs]
  rw [undoMove, modify_bind]
  simp only [record, hhop, Option.map_none]
  show EStateM.Result.ok () (Board.mk ((b.played p p.position dest promoted).takenBack
    (b.record p p.position dest promoted)).grid b.enPassantTarget) = _
  rw [hgrid]

namespace Hop

variable (h : Hop b p rook dest source target)
include h

theorem captured_ne {t : Square} (ht : t ≠ dest) :
    (b.capturedBy p p.position dest).2 ≠ some t := by
  rcases b.capturedBy_cases p p.position dest with ⟨-, hpawn, -⟩ | ⟨e, -⟩ | ⟨e, -⟩
  · rw [h.isKing] at hpawn
    cases hpawn
  · rw [e]
    exact fun e => ht (Option.some.inj e).symm
  · rw [e]
    simp

theorem played_source : (b.played p p.position dest none).grid source = some rook := by
  rw [played_grid, if_neg h.source_ne.2, if_neg h.source_ne.1,
    if_neg (h.captured_ne h.source_ne.2), h.rook_at]

end Hop

theorem undoMove_castling (hplaced : b.Placed) (hp : b.grid p.position = some p)
    (h : Hop b p rook dest source target) : undoMove (b.record p p.position dest none)
      ((b.played p p.position dest none).hopped rook source target) = .ok () b := by
  let b' := (b.played p p.position dest none).hopped rook source target
  let taken := b'.takenBack (b.record p p.position dest none)
  obtain ⟨htarget, htarget', htarget''⟩ := h.target_ne
  have hrook : taken.getPieceAt target =
      some { rook with position := target, hasMoved := true } := by
    rw [getPieceAt_of_onBoard h.onBoard_target,
      takenBack_of_ne hplaced _ htarget' htarget (h.captured_ne htarget'), hopped_grid, if_pos rfl]
  have hback : moveRook target source false taken =
      .ok () ((taken.put target none).put source (some rook)) := by
    have hstill : { rook with position := source, hasMoved := false } = rook := by
      rw [← (hplaced _ _ h.rook_at).2, ← h.unmoved]
    rw [moveRook, get_bind, hrook]
    show EStateM.Result.ok () ((taken.put target none).put source
      (some { rook with position := source, hasMoved := false })) = _
    rw [hstill]
  have hgrid : ((taken.put target none).put source (some rook)).grid = b.grid := by
    funext t
    simp only [put, Function.update_apply]
    by_cases hsource : t = source
    · rw [if_pos hsource, hsource, h.rook_at]
    rw [if_neg hsource]
    by_cases htarget : t = target
    · rw [if_pos htarget, htarget, h.free]
    rw [if_neg htarget]
    apply takenBack_grid hplaced hp h.dest_ne
    intro hd hs
    rw [hopped_grid, if_neg htarget, if_neg hsource, played_grid, if_neg hd, if_neg hs]
  rw [undoMove, modify_bind]
  simp only [record, h.rookHop_eq, Option.map_some]
  refine (bind_ok hback).trans ?_
  show EStateM.Result.ok () (Board.mk ((taken.put target none).put source (some rook)).grid
    b.enPassantTarget) = _
  rw [hgrid]

/-! ## Making and unmaking -/

theorem promotedBy_ok (p : Piece) (dest : Square)
    (h : ∀ choice, promotion = some choice → choice ∈ promotionChoices) :
    ∃ promoted, promotedBy p dest promotion = .ok promoted := by
  have hchoice : promotion.getD .queen ∈ promotionChoices := by
    cases promotion with
    | none => decide
    | some choice => exact h choice rfl
  rw [promotedBy]
  rw [if_neg (not_not.mpr hchoice)]
  by_cases hlast : p.pieceType = .pawn ∧ dest.1 = if p.color = .white then 0 else 7
  · exact ⟨_, if_pos hlast⟩
  · exact ⟨_, if_neg hlast⟩

/-- What making a move comes to, for each shape of a move. -/
inductive Made (b : Board) (p : Piece) (dest : Square) (promoted : Option Piece) : Board → Prop
  | plain (onBoard_dest : onBoard dest = true) (dest_ne : dest ≠ p.position)
      (rookHop_eq : rookHop p p.position dest = none) :
      Made b p dest promoted (b.played p p.position dest promoted)
  | castling (rook : Piece) (source target : Square) (hop : Hop b p rook dest source target)
      (not_promoted : promoted = none) :
      Made b p dest promoted ((b.played p p.position dest none).hopped rook source target)

theorem applyMove_spec (hplaced : b.Placed) (hfree : b.HopFree)
    (hp : b.grid p.position = some p) (hdest : dest ∈ b.possibleMoves p)
    (hpromotion : ∀ choice, promotion = some choice → choice ∈ promotionChoices) :
    ∃ promoted b', promotedBy p dest promotion = .ok promoted ∧ Made b p dest promoted b' ∧
      applyMove p.position dest promotion b = .ok (b.record p p.position dest promoted) b' ∧
        undoMove (b.record p p.position dest promoted) b' = .ok () b := by
  have hat : b.getPieceAt p.position = some p := by rw [hplaced.getPieceAt, hp]
  obtain ⟨promoted, hpromoted⟩ := promotedBy_ok p dest hpromotion
  cases shape_of_mem hplaced hfree hp hdest with
  | plain hon hne hhop =>
    exact ⟨promoted, _, hpromoted, .plain hon hne hhop, applyMove_plain hat hhop hpromoted,
      undoMove_plain hplaced hp hne hhop⟩
  | castling rook source target h =>
    have hnone : promoted = none := by
      simp only [promotedBy, h.isKing] at hpromoted
      cases hpromoted
      rfl
    subst hnone
    have hrook : (b.played p p.position dest none).getPieceAt source = some rook := by
      rw [getPieceAt_of_onBoard (hplaced _ _ h.rook_at).1, h.played_source]
    exact ⟨none, _, hpromoted, .castling rook source target h rfl,
      applyMove_castling hat h.rookHop_eq h.isKing hrook, undoMove_castling hplaced hp h⟩

end InterviewPrep.Chess.Board
