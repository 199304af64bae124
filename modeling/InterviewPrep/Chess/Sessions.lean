/-
  Undo is exact.  From a board without a king that could hop onto the square of its rook,
  `undo_last_move` after an accepted move leads back to the game before it, field by field, and
  undoing every move leads back to the first one.  From any other board a castling attempt can
  raise in the middle of `undo_move` and lose the rook.

  What every turn keeps true of the board.  The king of the side that just moved is not attacked,
  so no king is ever taken (`Regular.taking`); the move that was tried and the move that is made
  differ in the piece on the last row at most, which a king of the same color does not see
  (`check_congr`).

  A session is a game and the positions played so far, which an accepted move adds to and an undo
  takes from.  Undo leads back to a game that was there before (`Reached.undo`), so whatever turns
  keep true is true in every session.
-/
import InterviewPrep.Chess.Turns

namespace InterviewPrep.Chess

open Lib List

/-! ## Boards to start from -/

namespace Board

theorem placed_empty : empty.Placed := by
  intro s p h
  cases h

variable {b : Board}

theorem Placed.place {pos : Square} (h : b.Placed) (hpos : onBoard pos = true) (id : Nat)
    (pieceType : PieceType) (color : Color) (hasMoved : Bool) :
    (b.place id pieceType color pos hasMoved).Placed := by
  intro s p hp
  simp only [Board.place, put, Function.update_apply] at hp
  split at hp
  next hs =>
    obtain rfl := Option.some.inj hp
    exact ⟨hs ▸ hpos, hs.symm⟩
  next => exact h s p hp

theorem placed_setup : setup.Placed := by
  rw [setup]
  apply List.foldlRecOn _ _ placed_empty
  rintro b hb ⟨color, back, pawns, ids⟩ hrow
  apply List.foldlRecOn _ _ hb
  rintro b hb ⟨pieceType, c⟩ hc
  have hcol : c < 8 := (mem_zipIdx hc).2.1
  have hrows : (0 ≤ back ∧ back < 8) ∧ 0 ≤ pawns ∧ pawns < 8 := by
    simp only [mem_cons, Prod.mk.injEq, not_mem_nil, or_false] at hrow
    omega
  apply Placed.place
  · apply Placed.place hb
    rw [onBoard_iff]
    omega
  · rw [onBoard_iff]
    omega

theorem Placed.forall_pieces {P : Square → Piece → Prop} (hplaced : b.Placed)
    (h : ∀ s ∈ allSquares, ∀ p ∈ b.grid s, P s p) {s : Square} {p : Piece} (hp : b.grid s = some p)
    : P s p :=
  h s (mem_allSquares.mpr (hplaced s p hp).1) p hp

theorem setup_king {s : Square} {p : Piece} (hp : setup.grid s = some p) :
    p.pieceType = .king → s = if p.color = .white then (7, 4) else (0, 4) := by
  refine placed_setup.forall_pieces (P := fun s p => p.pieceType = .king →
    s = if p.color = .white then (7, 4) else (0, 4)) ?_ hp
  decide +kernel

theorem hopFree_setup : setup.HopFree := by
  intro s king rook hking htype _ _ _ _
  have hs := setup_king hking htype
  split at hs <;> simp [hs]

def OneKing (b : Board) (c : Color) : Prop :=
  ∃! s, ∃ p, b.grid s = some p ∧ p.color = c ∧ p.pieceType = .king

theorem Placed.oneKing {c : Color} {k : Square} (hplaced : b.Placed)
    (hking : ∃ p, b.grid k = some p ∧ p.color = c ∧ p.pieceType = .king)
    (h : ∀ s ∈ allSquares, ∀ p ∈ b.grid s, p.color = c → p.pieceType = .king → s = k) :
    b.OneKing c := by
  refine ⟨k, hking, ?_⟩
  rintro s ⟨p, hp, hcolor, htype⟩
  exact hplaced.forall_pieces (P := fun s p => p.color = c → p.pieceType = .king → s = k)
    h hp hcolor htype

end Board

namespace ChessGame

/-! ## Calls -/

/-- The arguments of `make_move`. -/
structure MoveCall where
  start : SquareLike
  dest : SquareLike
  promotion : Option PieceType := none
  expectedPly : Option Int := none

def MoveCall.run (call : MoveCall) : GameOp Move :=
  makeMove call.start call.dest call.promotion call.expectedPly

/-- The game a call leaves behind, whether it returns or raises. -/
def stateAfter {α : Type} : EStateM.Result ChessError ChessGame α → ChessGame
  | .ok _ g => g
  | .error _ g => g

/-- The game after some calls of `make_move`, accepted or not. -/
def afterCalls (g : ChessGame) (calls : List MoveCall) : ChessGame :=
  calls.foldl (fun g call => stateAfter (call.run g)) g

/-- `undo_last_move`, so many times. -/
def undoMoves : Nat → GameOp Unit
  | 0 => pure ()
  | n + 1 => do
      let _ ← undoLastMove
      undoMoves n

/-- Whatever `make_move` was called with, an accepted move is undone exactly, and so are all. -/
def UndoExact (first : ChessGame) : Prop :=
  ∀ calls,
    (∀ (call : MoveCall) (move : Move) (g' : ChessGame),
      call.run (afterCalls first calls) = .ok move g' →
        undoLastMove g' = .ok move (afterCalls first calls)) ∧
      undoMoves (afterCalls first calls).history.length (afterCalls first calls) = .ok () first

/-! ## Undo is exact -/

variable {first g g' : ChessGame} {p : Piece} {dest : Square} {promotion : Option PieceType}
  {promoted : Option Piece} {move : Move}

/-- What `undo_last_move` relies on. -/
structure Steady (g : ChessGame) : Prop where
  playable : g.board.Playable
  counted : Counted g.positions
  no_winner : g.status.isOver = false → g.winner = none

theorem Turn.steady (h : Turn g p dest promotion promoted move g') (hg : Steady g) : Steady g' where
  playable := h.playable hg.playable
  counted := by
    rw [h.positions_eq]
    exact hg.counted.increment _
  no_winner hactive := by
    rw [h.winner_eq hactive]
    exact hg.no_winner h.active

theorem Turn.undoLastMove_eq (h : Turn g p dest promotion promoted move g') (hg : Steady g) :
    undoLastMove g' = .ok move g :=
  h.undo hg.counted (hg.no_winner h.active) g'.status g'.winner

/-- A game in which all moves can be undone. -/
structure Rewinds (first g : ChessGame) : Prop where
  steady : Steady g
  undoMoves_eq : undoMoves g.history.length g = .ok () first

theorem Turn.rewinds (h : Turn g p dest promotion promoted move g') (hg : Rewinds first g) :
    Rewinds first g' where
  steady := h.steady hg.steady
  undoMoves_eq := by
    have hlength : g'.history.length = g.history.length + 1 := by
      rw [h.history_eq, length_append, length_singleton]
    rw [hlength, undoMoves, bind_ok (h.undoLastMove_eq hg.steady), hg.undoMoves_eq]

theorem afterCalls_rewinds (hfirst : Rewinds first first) (calls : List MoveCall) :
    Rewinds first (afterCalls first calls) := by
  induction calls using List.reverseRecOn with
  | nil => exact hfirst
  | append_singleton calls call ih =>
    rw [afterCalls, foldl_append]
    change Rewinds first (stateAfter (call.run (afterCalls first calls)))
    rcases makeMove_spec ih.steady.playable call.start call.dest call.promotion
      call.expectedPly with ⟨e, hrun⟩ | ⟨p, dest, promoted, move, g', hrun, hturn⟩
    · rw [MoveCall.run, hrun]
      exact ih
    · rw [MoveCall.run, hrun]
      exact hturn.rewinds ih

theorem new_eq (start : Board) (toMove : Color) (whiteName blackName : String) :
    ∃ players, new start toMove whiteName blackName =
      refreshStatus ⟨start, players, toMove, .active, none, [], 0,
        increment Dict.empty (start.positionKey toMove)⟩ :=
  ⟨_, rfl⟩

/-- A new game is its own first state, with nothing to undo. -/
theorem new_rewinds {start : Board} (hb : start.Playable) (toMove : Color)
    (whiteName blackName : String) :
    ∃ first, new start toMove whiteName blackName = .ok () first ∧ Rewinds first first := by
  obtain ⟨players, hnew⟩ := new_eq start toMove whiteName blackName
  let positions := increment Dict.empty (start.positionKey toMove)
  obtain ⟨status, winner, hrun, hwinner, -⟩ :=
    refreshStatus_spec (g := ⟨start, players, toMove, .active, none, [], 0, positions⟩) hb
  rw [hnew]
  refine ⟨_, hrun, ⟨hb, ?_, hwinner⟩, rfl⟩
  apply Counted.increment
  intro key n hn
  cases hn

/-- Without a king on the d-file or f-file that could castle there, undo is exact in every game. -/
theorem new_undoExact (start : Board) (hplaced : start.Placed) (hfree : start.HopFree)
    (toMove : Color) (whiteName blackName : String) :
    ∃ first, new start toMove whiteName blackName = .ok () first ∧ UndoExact first := by
  obtain ⟨first, hnew, hfirst⟩ := new_rewinds ⟨hplaced, hfree⟩ toMove whiteName blackName
  refine ⟨first, hnew, ?_⟩
  intro calls
  have h := afterCalls_rewinds hfirst calls
  refine ⟨?_, h.undoMoves_eq⟩
  intro call move g' hrun
  rcases makeMove_spec h.steady.playable call.start call.dest call.promotion
    call.expectedPly with ⟨e, hrun'⟩ | ⟨p, dest, promoted, move', g'', hrun', hturn⟩
  · rw [MoveCall.run, hrun'] at hrun
    cases hrun
  · rw [MoveCall.run, hrun'] at hrun
    cases hrun
    exact hturn.undoLastMove_eq h.steady

theorem new_undoExact_setup :
    ∃ first, new Board.setup .white "White" "Black" = .ok () first ∧ UndoExact first :=
  new_undoExact _ Board.placed_setup Board.hopFree_setup _ _ _

/-- A white king on d1 and a white rook on h1, neither of which has moved. -/
def kingOnD1 : Board :=
  (((Board.empty.place 0 .king .white (7, 3) false).place 1 .rook .white (7, 7) false).place
    2 .pawn .white (6, 0) false).place 3 .king .black (0, 4) true

/-- The last of these calls castles onto f1, where the rook goes too, and raises. -/
def castlingOntoRook : List MoveCall :=
  [⟨.named "a2", .named "a3", none, none⟩, ⟨.named "e8", .named "e7", none, none⟩,
    ⟨.named "d1", .named "f1", none, none⟩]

/-- After it both moves are undone, and there is no rook. -/
theorem kingOnD1_not_undoExact :
    kingOnD1.Placed ∧ kingOnD1.OneKing .white ∧ kingOnD1.OneKing .black ∧
      ∃ first, new kingOnD1 .white "White" "Black" = .ok () first ∧ ¬ UndoExact first := by
  have hplaced : kingOnD1.Placed := by
    apply Board.Placed.place _ (by decide)
    apply Board.Placed.place _ (by decide)
    apply Board.Placed.place _ (by decide)
    exact Board.placed_empty.place (by decide) _ _ _ _
  refine ⟨hplaced, hplaced.oneKing (k := (7, 3)) ⟨_, rfl, rfl, rfl⟩ (by decide +kernel),
    hplaced.oneKing (k := (0, 4)) ⟨_, rfl, rfl, rfl⟩ (by decide +kernel), ?_⟩
  have hlost : (match new kingOnD1 .white "White" "Black" with
      | .error _ _ => false
      | .ok _ first =>
        let last := afterCalls first castlingOntoRook
        let undone := stateAfter (undoMoves last.history.length last)
        decide (last.history.length = 2) && (first.board.grid (7, 7)).isSome &&
          (undone.board.grid (7, 7)).isNone) = true := by decide +kernel
  cases hnew : new kingOnD1 .white "White" "Black" with
  | error =>
    rw [hnew] at hlost
    cases hlost
  | ok _ first =>
    refine ⟨first, rfl, ?_⟩
    intro hexact
    rw [hnew] at hlost
    dsimp only at hlost
    rw [(hexact castlingOntoRook).2] at hlost
    simp only [stateAfter, Bool.and_eq_true] at hlost
    obtain ⟨⟨-, hrook⟩, hnone⟩ := hlost
    rw [Option.isNone_iff_eq_none.mp hnone] at hrook
    cases hrook

end ChessGame

namespace Board

variable {b b' b1 b2 : Board} {s t k dest : Square} {p q king : Piece} {c : Color}
  {promotion promotion' : Option PieceType} {promoted promoted' : Option Piece}

/-! ## Check -/

theorem findKing_eq (hplaced : b.Placed) (hone : b.OneKing c) (hk : b.grid k = some king)
    (hcolor : king.color = c) (htype : king.pieceType = .king) : b.findKing c = some king := by
  have hmem : king ∈ b.pieces c := mem_pieces.mpr ⟨k, (hplaced k king hk).1, hk, hcolor⟩
  cases hfind : b.findKing c with
  | none =>
    have hnot := find?_eq_none.mp hfind king hmem
    simp [htype] at hnot
  | some q =>
    obtain ⟨s, -, hs, hq⟩ := mem_pieces.mp (mem_of_find?_eq_some hfind)
    have hqtype : q.pieceType = .king := by simpa using find?_some hfind
    have heq : s = k := hone.unique ⟨q, hs, hq, hqtype⟩ ⟨king, hk, hcolor, htype⟩
    rw [heq, hk] at hs
    exact hs.symm

theorem isInCheck_of_attack (hplaced : b.Placed) (hone : b.OneKing c)
    (hk : b.grid k = some king) (hcolor : king.color = c) (htype : king.pieceType = .king)
    (hp : b.grid p.position = some p) (henemy : p.color = c.opponent)
    (hattack : k ∈ attacks b.colorAt p) : b.isInCheck c = true := by
  rw [isInCheck, findKing_eq hplaced hone hk hcolor htype]
  dsimp only
  rw [isSquareAttacked, List.any_eq_true, (hplaced k king hk).2]
  exact ⟨p, hplaced.mem_pieces.mpr ⟨hp, henemy⟩, by simpa using hattack⟩

theorem check_congr (hplaced1 : b1.Placed) (hplaced2 : b2.Placed) (hone1 : b1.OneKing c)
    (hone2 : b2.OneKing c) (hoff : ∀ t, t ≠ dest → b1.grid t = b2.grid t)
    (h1 : b1.grid dest = some p) (h2 : b2.grid dest = some q) (hp : p.color = c)
    (hq : q.color = c) (hptype : p.pieceType ≠ .king) : b1.isInCheck c = b2.isInCheck c := by
  have hcolors : b1.colorAt = b2.colorAt := by
    funext t
    by_cases ht : t = dest
    · rw [ht, colorAt_of_grid (hplaced1 _ _ h1).1 h1, colorAt_of_grid (hplaced2 _ _ h2).1 h2,
        hp, hq]
    · rw [colorAt, colorAt, getPieceAt, getPieceAt, hoff t ht]
  have henemies : b1.pieces c.opponent = b2.pieces c.opponent := by
    rw [pieces, pieces]
    congr 1
    funext t
    by_cases ht : t = dest
    · rw [ht, h1, h2]
      simp [Option.filter, hp, hq, (Color.opponent_ne c).symm]
    · rw [hoff t ht]
  obtain ⟨k, king, hk, hcolor, htype⟩ := hone1.exists
  have hkdest : k ≠ dest := by
    rintro rfl
    rw [hk] at h1
    exact hptype (Option.some.inj h1 ▸ htype)
  have hfind2 := findKing_eq hplaced2 hone2 ((hoff k hkdest).symm.trans hk) hcolor htype
  rw [isInCheck, isInCheck, findKing_eq hplaced1 hone1 hk hcolor htype, hfind2]
  simp only [isSquareAttacked, hcolors, henemies]

/-! ## Regular boards -/

/-- A board of a game from the initial position, with `c` to move. -/
structure Regular (b : Board) (c : Color) : Prop where
  placed : b.Placed
  oneKing : ∀ color, b.OneKing color
  /-- the side that just moved is not in check -/
  safe : b.isInCheck c.opponent = false
  /-- a king that has not moved is on the e-file -/
  home : ∀ s king, b.grid s = some king → king.pieceType = .king → king.hasMoved = false → s.2 = 4
  /-- a pawn passed over an empty square -/
  passed : ∀ t, b.enPassantTarget = some t → b.grid t = none

theorem Regular.playable (h : b.Regular c) : b.Playable where
  placed := h.placed
  hopFree := by
    intro s king rook hking htype hunmoved _ _ _
    have hcol := h.home s king hking htype hunmoved
    exact ⟨fun e => by omega, fun e => by omega⟩

section

variable (h : b.Regular p.color) (hp : b.grid p.position = some p)
  (hdest : dest ∈ b.possibleMoves p)
include h hp hdest

theorem Regular.castling_free (hking : p.pieceType = .king) (hcastle : dest ∈ b.castlingMoves p) :
    b.grid dest = none := by
  obtain ⟨hunmoved, ⟨rfl, hcan⟩ | ⟨rfl, hcan⟩⟩ := castlingMoves_mem hcastle
  · have hempty := (canCastle_spec hcan).2 6 (by simp)
    rwa [h.placed.getPieceAt, ← show p.position.2 + 2 = 6 by
      rw [h.home _ p hp hking hunmoved]; rfl] at hempty
  · have hempty := (canCastle_spec hcan).2 2 (by simp)
    rwa [h.placed.getPieceAt, ← show p.position.2 - 2 = 2 by
      rw [h.home _ p hp hking hunmoved]; rfl] at hempty

theorem Regular.attack_of_taking (hq : b.grid dest = some q) :
    dest ∈ attacks b.colorAt p ∧ q.color ≠ p.color := by
  have hat : b.getPieceAt dest = some q := by rw [h.placed.getPieceAt, hq]
  rcases possibleMoves_cases hdest with ⟨hattack, htakes⟩ | ⟨hpawn, hstep⟩ | ⟨hking, hcastle⟩
  · refine ⟨hattack, ?_⟩
    by_cases hpawn : p.pieceType = .pawn
    · have htakes := htakes hpawn
      rw [pawnTakes, hat] at htakes
      simp only [decide_eq_true_eq] at htakes
      rcases htakes with hcolor | hpassing
      · exact hcolor
      · simp only [pawnTakes.takesInPassing, decide_eq_true_eq] at hpassing
        rw [h.passed dest hpassing.1.symm] at hq
        cases hq
    · intro hcolor
      apply attacks_color hattack hpawn
      rw [colorAt_of_grid (h.placed _ _ hq).1 hq, hcolor]
  · rw [(pawnSteps_mem hstep).1] at hat
    cases hat
  · rw [h.castling_free hp hdest hking hcastle] at hq
    cases hq

theorem Regular.taking (ht : (b.capturedBy p p.position dest).2 = some t)
    (hq : b.grid t = some q) : q.color ≠ p.color ∧ q.pieceType ≠ .king := by
  rcases b.capturedBy_cases p p.position dest with
    ⟨hcap, hpawn, -, hcol, hnone⟩ | ⟨hcap, -⟩ | ⟨hcap, -⟩
  · -- in passing: only a pawn's attack leaves its column, and it has a pawn to take
    rw [hcap] at ht
    obtain rfl := Option.some.inj ht
    rcases possibleMoves_cases hdest with ⟨-, htakes⟩ | ⟨-, hstep⟩ | ⟨hking, -⟩
    · have htakes := htakes hpawn
      rw [pawnTakes, hnone] at htakes
      simp only [pawnTakes.takesInPassing, h.placed.getPieceAt, hq, Option.any_some,
        decide_eq_true_eq] at htakes
      exact ⟨htakes.2.2, by simp [htakes.2.1]⟩
    · exact absurd (pawnSteps_mem hstep).2.2.2.1.symm hcol
    · rw [hpawn] at hking
      cases hking
  · rw [hcap] at ht
    obtain rfl := Option.some.inj ht
    obtain ⟨hattack, hcolor⟩ := h.attack_of_taking hp hdest hq
    refine ⟨hcolor, ?_⟩
    intro htype
    have hcheck := isInCheck_of_attack h.placed (h.oneKing q.color) hq rfl htype hp
      (Color.eq_opponent hcolor.symm) hattack
    rw [Color.eq_opponent hcolor, h.safe] at hcheck
    cases hcheck
  · rw [hcap] at ht
    cases ht

theorem Regular.king_stays (hmade : Made b p dest promoted b') (hk : b.grid k = some king)
    (htype : king.pieceType = .king) (hne : k ≠ p.position) : b'.grid k = some king := by
  have hdest' : k ≠ dest := by
    rintro rfl
    have ht : (b.capturedBy p p.position k).2 = some k := by
      by_contra hnot
      have hnone := (capturedBy_spec h.placed hne (p := p)).2 hnot
      rw [hnone] at hk
      cases hk
    exact (h.taking hp hdest ht hk).2 htype
  refine hmade.frame hk hne hdest' ?_ (Or.inl (by simp [htype]))
  intro ht
  exact (h.taking hp hdest ht hk).2 htype

theorem Regular.oneKing_made (hmade : Made b p dest promoted b')
    (hpromoted : promotedBy p dest promotion = .ok promoted) (color : Color) :
    b'.OneKing color := by
  obtain ⟨k, ⟨king, hk, hcolor, htype⟩, hunique⟩ := h.oneKing color
  by_cases hmoves : k = p.position
  · -- the king moves
    subst hmoves
    obtain rfl := Option.some.inj (hk.symm.trans hp)
    obtain ⟨-, hlanded, -, hlandedType⟩ := landed_spec hpromoted
    refine ⟨dest, ⟨_, hmade.grid_dest, hlanded.trans hcolor, hlandedType.mpr htype⟩, ?_⟩
    rintro t ⟨q, hq, hqcolor, hqtype⟩
    rcases hmade.old_or_new hpromoted hq with ⟨hold, hne, -⟩ | ⟨-, -, -, -, hnew⟩
    · exact absurd (hunique t ⟨q, hold, hqcolor, hqtype⟩) hne
    · exact (hnew hqtype).1
  refine ⟨k, ⟨king, h.king_stays hp hdest hmade hk htype hmoves, hcolor, htype⟩, ?_⟩
  rintro t ⟨q, hq, hqcolor, hqtype⟩
  rcases hmade.old_or_new hpromoted hq with ⟨hold, -⟩ | ⟨-, -, hown, -, hnew⟩
  · exact hunique t ⟨q, hold, hqcolor, hqtype⟩
  · -- a new king is the king that moved
    have hpking := (hnew hqtype).2
    exact absurd (hunique _ ⟨p, hp, hown.symm.trans hqcolor, hpking⟩).symm hmoves

end

/-! ## The move tried and the move made -/

theorem Made.unique (h1 : Made b p dest promoted b1) (h2 : Made b p dest promoted b2) :
    b1 = b2 := by
  cases h1 with
  | plain _ _ hhop1 =>
    cases h2 with
    | plain => rfl
    | castling _ _ _ hop2 => cases hhop1.symm.trans hop2.rookHop_eq
  | castling _ _ _ hop1 =>
    cases h2 with
    | plain _ _ hhop2 => cases hhop2.symm.trans hop1.rookHop_eq
    | castling _ _ _ hop2 =>
      cases hop1.rookHop_eq.symm.trans hop2.rookHop_eq
      cases hop1.rook_at.symm.trans hop2.rook_at
      rfl

theorem Made.grid_congr (h1 : Made b p dest promoted b1) (h2 : Made b p dest promoted' b2)
    (hpawn : p.pieceType = .pawn) (ht : t ≠ dest) : b1.grid t = b2.grid t := by
  cases h1 with
  | plain =>
    cases h2 with
    | plain => rw [played_grid, played_grid, if_neg ht, if_neg ht]
    | castling _ _ _ hop => cases hpawn.symm.trans hop.isKing
  | castling _ _ _ hop => cases hpawn.symm.trans hop.isKing

theorem promotedBy_of_not_pawn (h : promotedBy p dest promotion = .ok promoted)
    (hpawn : p.pieceType ≠ .pawn) : promoted = none := by
  cases promoted with
  | none => rfl
  | some => exact absurd (promotedBy_spec h).1 hpawn

section

variable (h : b.Regular p.color) (hp : b.grid p.position = some p)
  (hdest : dest ∈ b.possibleMoves p) (hmade : Made b p dest promoted b')
  (hpromoted : promotedBy p dest promotion = .ok promoted)
include h hp hdest hmade hpromoted

theorem Regular.safe_made (hsafe : b.Safe p.color p dest) : b'.isInCheck p.color = false := by
  obtain ⟨tried, b0, htried, hmade0, hcheck⟩ := hsafe
  by_cases hpawn : p.pieceType = .pawn
  · obtain ⟨-, hcolor, -, htype⟩ := landed_spec hpromoted
    obtain ⟨-, hcolor0, -, -⟩ := landed_spec htried
    rw [← hcheck]
    exact check_congr (hmade.placed hpromoted h.placed) (hmade0.placed htried h.placed)
      (h.oneKing_made hp hdest hmade hpromoted _) (h.oneKing_made hp hdest hmade0 htried _)
      (fun t ht => hmade.grid_congr hmade0 hpawn ht) hmade.grid_dest hmade0.grid_dest hcolor
      hcolor0 (by rw [ne_eq, htype]; simp [hpawn])
  · rw [promotedBy_of_not_pawn hpromoted hpawn] at hmade
    rw [promotedBy_of_not_pawn htried hpawn] at hmade0
    rw [hmade.unique hmade0]
    exact hcheck

omit hp hpromoted in
theorem Regular.passed_made (ht : b'.enPassantTarget = some t) : b'.grid t = none := by
  have hpassed : passedOver p p.position dest = some t := by
    cases hmade <;> exact ht
  rw [passedOver] at hpassed
  split at hpassed
  next htwo =>
    obtain ⟨hpawn, hrows⟩ := htwo
    obtain rfl := Option.some.inj hpassed
    rcases possibleMoves_cases hdest with ⟨hattack, -⟩ | ⟨-, hstep⟩ | ⟨hking, -⟩
    · rw [attacks, hpawn] at hattack
      obtain ⟨-, hrow, -⟩ := pawnAttacks_mem hattack
      rw [hrow] at hrows
      cases hcolor : p.color <;> simp [hcolor, Color.direction] at hrows
    · obtain ⟨-, -, hfree, hcol, hrow⟩ := pawnSteps_mem hstep
      rw [h.placed.getPieceAt] at hfree
      have hsquare : ((p.position.1 + dest.1) / 2, p.position.2) =
          (p.position.1 + p.color.direction, p.position.2) := by
        cases hcolor : p.color <;> simp [hcolor, Color.direction] at hrow ⊢ <;> omega
      have hne : (p.position.1 + p.color.direction, p.position.2) ≠ dest := by
        intro e
        rw [← e] at hrows
        cases hcolor : p.color <;> simp [hcolor, Color.direction] at hrows
      have hne' : (p.position.1 + p.color.direction, p.position.2) ≠ p.position := by
        intro e
        have hrow := congrArg Prod.fst e
        cases hcolor : p.color <;> simp [hcolor, Color.direction] at hrow
      rw [hsquare]
      cases hmade with
      | plain =>
        rw [played_grid, if_neg hne, if_neg hne', hfree]
        split <;> rfl
      | castling _ _ _ hop => cases hpawn.symm.trans hop.isKing
    · cases hpawn.symm.trans hking
  next => cases hpassed

theorem Regular.made (hsafe : b.Safe p.color p dest) : b'.Regular p.color.opponent where
  placed := hmade.placed hpromoted h.placed
  oneKing := h.oneKing_made hp hdest hmade hpromoted
  safe := by
    rw [Color.opponent_opponent]
    exact h.safe_made hp hdest hmade hpromoted hsafe
  home s king hking htype hunmoved :=
    h.home s king (hmade.older hpromoted s king hking hunmoved) htype hunmoved
  passed _ ht := h.passed_made hdest hmade ht

end

theorem regular_setup (c : Color) : setup.Regular c where
  placed := placed_setup
  oneKing color := by
    cases color with
    | white => exact placed_setup.oneKing (k := (7, 4)) ⟨_, rfl, rfl, rfl⟩ (by decide +kernel)
    | black => exact placed_setup.oneKing (k := (0, 4)) ⟨_, rfl, rfl, rfl⟩ (by decide +kernel)
  safe := by
    cases c <;> decide +kernel
  home s king hking htype _ := by
    have hs := setup_king hking htype
    split at hs <;> simp [hs]
  passed t ht := by cases ht

end Board

/-- What was on the board, and whose turn it was. -/
abbrev Position := Board × Color

def Position.key (pos : Position) : Board.PositionKey := pos.1.positionKey pos.2

namespace ChessGame

/-! ## Sessions -/

/-- A call of a player. -/
inductive Command where
  | makeMove (call : MoveCall)
  | undoLastMove
  | resign (color : Color)
  | claimDraw

def Command.run : Command → GameOp Unit
  | .makeMove call => do
      let _ ← call.run
      pure ()
  | .undoLastMove => do
      let _ ← ChessGame.undoLastMove
      pure ()
  | .resign color => ChessGame.resign color
  | .claimDraw => ChessGame.claimDraw

def position (g : ChessGame) : Position := (g.board, g.toMove)

structure Session where
  game : ChessGame
  /-- the positions played so far, oldest first -/
  line : List Position

/-- An accepted move is a new position, and an undo takes one back. -/
def Command.extend (line : List Position) (g : ChessGame) : Command → List Position
  | .makeMove _ => line ++ [g.position]
  | .undoLastMove => line.dropLast
  | .resign _ | .claimDraw => line

def Session.step (s : Session) (command : Command) : Session :=
  match command.run s.game with
  | .error _ g => ⟨g, s.line⟩
  | .ok _ g => ⟨g, command.extend s.line g⟩

def Session.start (first : ChessGame) : Session := ⟨first, [first.position]⟩

def Session.after (first : ChessGame) (commands : List Command) : Session :=
  commands.foldl Session.step (.start first)

/-- What holds in every session. -/
structure Sound (first : ChessGame) (s : Session) : Prop where
  /-- the last position played is the one on the board -/
  current : s.line.getLast? = some s.game.position
  oneKing : ∀ color, s.game.board.OneKing color
  /-- every piece's position is the square it stands on -/
  placed : s.game.board.Placed
  /-- the side that just moved is not in check -/
  safe : s.game.board.isInCheck s.game.toMove.opponent = false
  /-- a piece that has not moved stood on its square in all positions, the first one too -/
  unmoved : ∀ square p, s.game.board.grid square = some p → p.hasMoved = false →
    ∀ pos ∈ first.position :: s.line, pos.1.grid square = some p
  /-- a game that is not over has a legal move, and says whether it is check -/
  fresh : Fresh s.game
  counter : ∀ key n, s.game.positions.get? key = some n ↔
    0 < n ∧ (s.line.map Position.key).count key = n
  /-- a rejected call changes nothing -/
  rejected : ∀ (command : Command) e g', command.run s.game = .error e g' → g' = s.game

/-! ## Games that turns lead to -/

/-- The games, and the positions played, that turns and endings of a game lead to. -/
inductive Reached (first : ChessGame) : List Position → ChessGame → Prop
  | first : Reached first [first.position] first
  | turn {line : List Position} {g g' : ChessGame} {p : Piece} {dest : Square}
      {promotion : Option PieceType} {promoted : Option Piece} {move : Move}
      (h : Reached first line g) (hturn : Turn g p dest promotion promoted move g') :
      Reached first (line ++ [g'.position]) g'
  | ended {line : List Position} {g : ChessGame} (h : Reached first line g) (status : GameStatus)
      (winner : Option Player) (hover : status.isOver = true) :
      Reached first line { g with status, winner }

/-- What a first game is like. -/
structure First (first : ChessGame) : Prop where
  regular : first.board.Regular first.toMove
  no_winner : first.status.isOver = false → first.winner = none
  no_history : first.history = []
  positions_eq : first.positions = increment Dict.empty first.position.key
  fresh : Fresh first

section

variable {first g : ChessGame} {line : List Position} (hfirst : First first)
include hfirst

theorem Reached.regular (h : Reached first line g) : g.board.Regular g.toMove := by
  induction h with
  | first => exact hfirst.regular
  | turn _ hturn ih =>
    rw [← hturn.own] at ih
    rw [hturn.toMove_eq, ← hturn.own]
    exact ih.made hturn.on_board hturn.pseudo hturn.made hturn.promotedBy_eq
      (hturn.own ▸ hturn.safe)
  | ended _ _ _ _ ih => exact ih

theorem Reached.fresh (h : Reached first line g) : Fresh g := by
  cases h with
  | first => exact hfirst.fresh
  | turn _ hturn => exact hturn.fresh
  | ended _ _ _ hover =>
    intro hactive
    rw [hover] at hactive
    cases hactive

theorem Reached.steady (h : Reached first line g) : Steady g := by
  induction h with
  | first =>
    refine ⟨hfirst.regular.playable, ?_, hfirst.no_winner⟩
    rw [hfirst.positions_eq]
    apply Counted.increment
    intro key n hn
    cases hn
  | turn _ hturn ih => exact hturn.steady ih
  | ended _ _ _ hover ih =>
    refine ⟨ih.playable, ih.counted, ?_⟩
    intro hactive
    rw [hover] at hactive
    cases hactive

omit hfirst in
theorem Reached.current (h : Reached first line g) : line.getLast? = some g.position := by
  induction h with
  | first => rfl
  | turn => exact getLast?_concat
  | ended _ _ _ _ ih => exact ih

theorem Reached.count_eq (h : Reached first line g) (key : Board.PositionKey) :
    count g.positions key = (line.map Position.key).count key := by
  induction h with
  | first =>
    rw [hfirst.positions_eq, count_increment]
    by_cases hkey : key = first.position.key
    · simp [hkey, count]
    · simp [hkey, count, Ne.symm hkey]
  | @turn _ _ g' _ _ _ _ _ _ hturn ih =>
    rw [hturn.positions_eq, count_increment, ih, map_append, count_append]
    by_cases hkey : key = g'.position.key
    · simp [hkey, Position.key, position]
    · have hkey' : key ≠ g'.board.positionKey g'.toMove := hkey
      simp [hkey', Ne.symm hkey]
  | ended _ _ _ _ ih => exact ih

omit hfirst in
theorem Reached.older (h : Reached first line g) :
    ∀ pos ∈ first.position :: line, Board.Older pos.1 g.board := by
  induction h with
  | first =>
    intro pos hpos
    have hpos : pos = first.position := by simpa using hpos
    rw [hpos]
    exact Board.Older.refl _
  | @turn _ _ _ _ _ _ _ _ _ hturn ih =>
    intro pos hpos
    rw [← cons_append, mem_append, mem_singleton] at hpos
    rcases hpos with hpos | rfl
    · exact (ih pos hpos).trans (hturn.made.older hturn.promotedBy_eq)
    · exact Board.Older.refl _
  | ended _ _ _ _ ih => exact ih

theorem Reached.undo (h : Reached first line g) (status : GameStatus) (winner : Option Player) :
    (∃ e, undoLastMove { g with status, winner } = .error e { g with status, winner }) ∨
      ∃ move before, undoLastMove { g with status, winner } = .ok move before ∧
        Reached first line.dropLast before := by
  induction h generalizing status winner with
  | first =>
    refine Or.inl ⟨.chess "Nothing to undo", ?_⟩
    rw [undoLastMove, get_bind]
    simp only [hfirst.no_history, List.getLast?_nil]
    rfl
  | turn h hturn =>
    have hsteady := h.steady hfirst
    refine Or.inr ⟨_, _, hturn.undo hsteady.counted (hsteady.no_winner hturn.active) _ _, ?_⟩
    rw [List.dropLast_concat]
    exact h
  | ended _ _ _ _ ih => exact ih status winner

theorem Reached.command (h : Reached first line g) (command : Command) :
    (∃ e, command.run g = .error e g) ∨
      ∃ g', command.run g = .ok () g' ∧ Reached first (command.extend line g') g' := by
  cases command with
  | makeMove call =>
    rcases makeMove_spec (h.steady hfirst).playable call.start call.dest call.promotion
      call.expectedPly with ⟨e, hrun⟩ | ⟨p, dest, promoted, move, g', hrun, hturn⟩
    · exact Or.inl ⟨e, bind_error hrun⟩
    · exact Or.inr ⟨g', (bind_ok hrun).trans rfl, h.turn hturn⟩
  | undoLastMove =>
    rcases h.undo hfirst g.status g.winner with ⟨e, hrun⟩ | ⟨move, before, hrun, hbefore⟩
    · exact Or.inl ⟨e, bind_error hrun⟩
    · exact Or.inr ⟨before, (bind_ok hrun).trans rfl, hbefore⟩
  | resign =>
    rw [Command.run, resign, get_bind]
    by_cases hover : g.status.isOver = true
    · rw [if_pos hover]
      exact Or.inl ⟨_, rfl⟩
    · rw [if_neg hover]
      exact Or.inr ⟨_, rfl, h.ended _ _ rfl⟩
  | claimDraw =>
    rw [Command.run, claimDraw, get_bind]
    by_cases hover : g.status.isOver = true
    · rw [if_pos hover]
      exact Or.inl ⟨_, rfl⟩
    rw [if_neg hover]
    by_cases hclaim : (!g.canClaimDraw) = true
    · rw [if_pos hclaim]
      exact Or.inl ⟨_, rfl⟩
    · rw [if_neg hclaim]
      exact Or.inr ⟨_, rfl, h.ended .draw g.winner rfl⟩

theorem after_reached (commands : List Command) :
    Reached first (Session.after first commands).line (Session.after first commands).game := by
  induction commands using List.reverseRecOn with
  | nil => exact .first
  | append_singleton commands command ih =>
    rw [Session.after, foldl_append]
    change Reached first ((Session.after first commands).step command).line
      ((Session.after first commands).step command).game
    rcases ih.command hfirst command with ⟨e, hrun⟩ | ⟨g', hrun, h⟩
    · rw [Session.step, hrun]
      exact ih
    · rw [Session.step, hrun]
      exact h

theorem Reached.sound {s : Session} (h : Reached first s.line s.game) : Sound first s where
  current := h.current
  oneKing := (h.regular hfirst).oneKing
  placed := (h.regular hfirst).placed
  safe := (h.regular hfirst).safe
  unmoved square p hp hunmoved pos hpos := h.older pos hpos square p hp hunmoved
  fresh := h.fresh hfirst
  counter key n := by
    have hcount := h.count_eq hfirst key
    have hcounted := (h.steady hfirst).counted key
    rw [← hcount, count]
    constructor
    · intro hn
      exact ⟨hcounted n hn, by rw [hn, Option.getD_some]⟩
    rintro ⟨hpos, hn⟩
    cases hkey : s.game.positions.get? key with
    | none =>
      rw [hkey, Option.getD_none] at hn
      omega
    | some =>
      rw [hkey, Option.getD_some] at hn
      rw [hn]
  rejected command e g' hrun := by
    rcases h.command hfirst command with ⟨e', hrun'⟩ | ⟨g'', hrun', -⟩
    · rw [hrun'] at hrun
      cases hrun
      rfl
    · rw [hrun'] at hrun
      cases hrun

end

theorem new_first (toMove : Color) (whiteName blackName : String) :
    ∃ first, new Board.setup toMove whiteName blackName = .ok () first ∧ First first ∧
      first.position = (Board.setup, toMove) := by
  obtain ⟨players, hnew⟩ := new_eq Board.setup toMove whiteName blackName
  let positions := increment Dict.empty (Board.setup.positionKey toMove)
  obtain ⟨status, winner, hrun, hwinner, hfresh⟩ := refreshStatus_spec
    (g := ⟨Board.setup, players, toMove, .active, none, [], 0, positions⟩)
    (Board.regular_setup toMove).playable
  rw [hnew]
  exact ⟨_, hrun, ⟨Board.regular_setup toMove, hwinner, rfl, rfl, hfresh⟩, rfl⟩

/-- Whatever calls are made of a game from the initial position, its state is sound. -/
theorem new_sound (toMove : Color) (whiteName blackName : String) :
    ∃ first, new Board.setup toMove whiteName blackName = .ok () first ∧
      first.position = (Board.setup, toMove) ∧
        ∀ commands, Sound first (Session.after first commands) := by
  obtain ⟨first, hnew, hfirst, hposition⟩ := new_first toMove whiteName blackName
  exact ⟨first, hnew, hposition, fun commands => (after_reached hfirst commands).sound hfirst⟩

end ChessGame

end InterviewPrep.Chess
