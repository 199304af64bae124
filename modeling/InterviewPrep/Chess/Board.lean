/-
  Squares, pieces and how they move (chess_game.py).  A square is (row, col) with row 0 the
  eighth rank and col 0 the a-file.

  A piece object stands on one square at most, so a board holds the records of its pieces;
  `id` is the object.  A promotion makes a new object, which is known by its pawn.

  Making and unmaking moves on the live board, and legality, which is decided by making a
  move, looking at the king and unmaking it (`Board` of chess_game.py).
-/
import Mathlib.Data.List.Basic

namespace InterviewPrep.Chess

/-- (row, col) -/
abbrev Square := Int × Int

instance Square.decidableMem (s : Square) (squares : List Square) : Decidable (s ∈ squares) :=
  List.instDecidableMemOfLawfulBEq s squares

/-! ## Enums -/

inductive Color where
  | white
  | black
deriving DecidableEq

def Color.opponent : Color → Color
  | white => black
  | black => white

inductive PieceType where
  | king
  | queen
  | rook
  | bishop
  | knight
  | pawn
deriving DecidableEq

/-- `PROMOTION_CHOICES` -/
def promotionChoices : List PieceType := [.queen, .rook, .bishop, .knight]

inductive GameStatus where
  | active
  | check
  | checkmate
  | stalemate
  | draw
  | resigned
deriving DecidableEq

def GameStatus.isOver (status : GameStatus) : Bool := status ≠ .active ∧ status ≠ .check

inductive ChessError where
  | chess (message : String)
  | invalidMove (message : String)
  | gameOver (status : GameStatus)
  | staleMove (expected : Int) (ply : Nat)
  /-- bad square -/
  | value (name : String)
  /-- `AttributeError`: there is no piece where the code takes one -/
  | attribute

/-! ## Coordinates -/

def onBoard (s : Square) : Bool := 0 ≤ s.1 ∧ s.1 < 8 ∧ 0 ≤ s.2 ∧ s.2 < 8

/-- 'e4' -> (4, 4) -/
def square (name : String) : Except ChessError Square :=
  match name.toList with
  | [file, rank] =>
    if file ∈ "abcdefgh".toList ∧ rank ∈ "12345678".toList then
      .ok (8 - ((rank.toNat : Int) - '0'.toNat), (file.toNat : Int) - 'a'.toNat)
    else .error (.value name)
  | _ => .error (.value name)

/-- The rows and columns, one row after the other. -/
def allSquares : List Square :=
  (List.range 8).flatMap fun (r : Nat) =>
    (List.range 8).map fun (c : Nat) => ((r : Int), (c : Int))

/-- The square a step away. -/
def Square.step (s d : Square) : Square := (s.1 + d.1, s.2 + d.2)

/-! ## Pieces -/

inductive PieceId where
  | placed (n : Nat)
  /-- the piece that replaced a pawn -/
  | promoted (pawn : PieceId)

structure Piece where
  id : PieceId
  color : Color
  pieceType : PieceType
  position : Square
  hasMoved : Bool := false

/-- The letter of a piece, upper case for white. -/
def Piece.symbol (p : Piece) : Char :=
  match p.pieceType, p.color with
  | .king, .white => 'K'
  | .queen, .white => 'Q'
  | .rook, .white => 'R'
  | .bishop, .white => 'B'
  | .knight, .white => 'N'
  | .pawn, .white => 'P'
  | .king, .black => 'k'
  | .queen, .black => 'q'
  | .rook, .black => 'r'
  | .bishop, .black => 'b'
  | .knight, .black => 'n'
  | .pawn, .black => 'p'

/-- The grid, and the one piece of state that is not on a square. -/
structure Board where
  grid : Square → Option Piece
  enPassantTarget : Option Square

namespace Board

variable (b : Board)

def getPieceAt (pos : Square) : Option Piece := if onBoard pos then b.grid pos else none

/-- The color of what stands on a square. -/
def colorAt (pos : Square) : Option Color := (b.getPieceAt pos).map Piece.color

/-- The pieces of a color, row by row. -/
def pieces (color : Color) : List Piece :=
  allSquares.filterMap fun s => (b.grid s).filter fun p => p.color = color

def allPieces : List Piece := allSquares.filterMap b.grid

def findKing (color : Color) : Option Piece :=
  (b.pieces color).find? fun p => p.pieceType = .king

end Board

/-! ## Attacks -/

def orthogonal : List Square := [(1, 0), (-1, 0), (0, 1), (0, -1)]

def diagonal : List Square := [(1, 1), (1, -1), (-1, 1), (-1, -1)]

def jumps : List Square := [(2, 1), (2, -1), (-2, 1), (-2, -1), (1, 2), (1, -2), (-1, 2), (-1, -2)]

/-- The directions of a sliding piece. -/
def PieceType.directions : PieceType → List Square
  | .queen => orthogonal ++ diagonal
  | .rook => orthogonal
  | .bishop => diagonal
  | _ => []

section

variable (colorAt : Square → Option Color)

/-- Slide until blocked, from `s` on. -/
def slide (color : Color) (d : Square) : Nat → Square → List Square
  | 0, _ => []
  | n + 1, s =>
    if onBoard s then
      match colorAt s with
      | none => s :: slide color d n (s.step d)
      | some c => if c ≠ color then [s] else []
    else []

/-- A piece that slides leaves the board after eight squares. -/
def slidingMoves (p : Piece) : List Square :=
  p.pieceType.directions.flatMap fun d => slide colorAt p.color d 8 (p.position.step d)

/-- The squares of a list of steps that are on the board and not of the piece's own color. -/
def stepMoves (steps : List Square) (p : Piece) : List Square :=
  (steps.map p.position.step).filter fun s => onBoard s ∧ colorAt s ≠ some p.color

/-- A pawn of this color moves up or down. -/
def Color.direction : Color → Int
  | .white => -1
  | .black => 1

def pawnAttacks (p : Piece) : List Square :=
  let nr := p.position.1 + p.color.direction
  [(nr, p.position.2 - 1), (nr, p.position.2 + 1)].filter fun s => onBoard s

/-- The squares that a piece attacks: castling is no attack, nor is a pawn's step. -/
def attacks (p : Piece) : List Square :=
  match p.pieceType with
  | .king => stepMoves colorAt (orthogonal ++ diagonal) p
  | .knight => stepMoves colorAt jumps p
  | .pawn => pawnAttacks p
  | .queen | .rook | .bishop => slidingMoves colorAt p

end

namespace Board

variable (b : Board)

def isSquareAttacked (pos : Square) (byColor : Color) : Bool :=
  (b.pieces byColor).any fun p => pos ∈ attacks b.colorAt p

def isInCheck (color : Color) : Bool :=
  match b.findKing color with
  | none => false
  | some king => b.isSquareAttacked king.position color.opponent

/-! ## Pseudo-legal moves -/

/-- `_can_castle` -/
def canCastle (king : Piece) (rookCol : Int) (empty safe : List Int) : Bool :=
  let r := king.position.1
  match b.getPieceAt (r, rookCol) with
  | none => false
  | some rook =>
    rook.pieceType = .rook ∧ rook.color = king.color ∧ rook.hasMoved = false ∧
      (∀ c ∈ empty, b.getPieceAt (r, c) = none) ∧
      ∀ c ∈ safe, b.isSquareAttacked (r, c) king.color.opponent = false

def castlingMoves (king : Piece) : List Square :=
  let (r, c) := king.position
  if king.hasMoved = false ∧ b.isInCheck king.color = false then
    (if b.canCastle king 7 [5, 6] [5, 6] then [(r, c + 2)] else []) ++
      if b.canCastle king 0 [1, 2, 3] [3, 2] then [(r, c - 2)] else []
  else []

def pawnSteps (p : Piece) : List Square :=
  let (r, c) := p.position
  let nr := r + p.color.direction
  let startRow := if p.color = .white then 6 else 1
  if onBoard (nr, c) ∧ b.getPieceAt (nr, c) = none then
    (nr, c) ::
      let two := nr + p.color.direction
      if r = startRow ∧ b.getPieceAt (two, c) = none then [(two, c)] else []
  else []

/-- A pawn takes on a square that it attacks, or in passing. -/
def pawnTakes (p : Piece) (target : Square) : Bool :=
  match b.getPieceAt target with
  | some t => t.color ≠ p.color ∨ takesInPassing
  | none => takesInPassing
where
  takesInPassing : Bool :=
    some target = b.enPassantTarget ∧
      (b.getPieceAt (p.position.1, target.2)).any fun victim =>
        victim.pieceType = .pawn ∧ victim.color ≠ p.color

/-- `get_possible_moves`: pseudo-legal destinations. -/
def possibleMoves (p : Piece) : List Square :=
  match p.pieceType with
  | .king => attacks b.colorAt p ++ b.castlingMoves p
  | .pawn => b.pawnSteps p ++ (attacks b.colorAt p).filter (b.pawnTakes p)
  | .queen | .rook | .bishop | .knight => attacks b.colorAt p

end Board

/-- What is needed to reverse a move. -/
structure Move where
  startPos : Square
  endPos : Square
  piece : Piece
  capturedPiece : Option Piece := none
  /-- differs from `endPos` for en passant -/
  capturedPos : Option Square := none
  promotion : Option PieceType := none
  promotedPiece : Option Piece := none
  isCastling : Bool := false
  isEnPassant : Bool := false
  rookFrom : Option Square := none
  rookTo : Option Square := none
  prevEnPassantTarget : Option Square := none
  prevHasMoved : Bool := false

/-- A method of the board, which may raise in the middle of its work. -/
abbrev BoardOp := EStateM ChessError Board

namespace Board

/-! ## Setup -/

/-- `_set` -/
def put (b : Board) (pos : Square) (piece : Option Piece) : Board :=
  { b with grid := Function.update b.grid pos piece }

/-- `Board(setup=False)` -/
def empty : Board := ⟨fun _ => none, none⟩

/-- `place`, with a new object. -/
def place (b : Board) (id : Nat) (pieceType : PieceType) (color : Color) (pos : Square)
    (hasMoved : Bool) : Board :=
  b.put pos (some ⟨.placed id, color, pieceType, pos, hasMoved⟩)

def backRank : List PieceType :=
  [.rook, .knight, .bishop, .queen, .king, .bishop, .knight, .rook]

/-- `_setup_pieces` -/
def setup : Board :=
  [(Color.white, (7 : Int), (6 : Int), 0), (Color.black, 0, 1, 16)].foldl
    (fun b (color, back, pawns, ids) =>
      backRank.zipIdx.foldl (fun b (pieceType, c) =>
        (b.place (ids + 2 * c) pieceType color (back, c) false).place
          (ids + 2 * c + 1) .pawn color (pawns, c) false) b)
    empty

/-! ## Make -/

/-- Whether the move takes in passing, and the square of what it captures. -/
def capturedBy (b : Board) (piece : Piece) (start dest : Square) : Bool × Option Square :=
  if piece.pieceType = .pawn ∧ some dest = b.enPassantTarget ∧ start.2 ≠ dest.2 ∧
      b.getPieceAt dest = none then (true, some (start.1, dest.2))
  else if b.getPieceAt dest ≠ none then (false, some dest)
  else (false, none)

/-- The square of the piece, if there is one, is free. -/
def takeOff (b : Board) : Option Square → Board
  | none => b
  | some pos => b.put pos none

/-- Where the rook goes when the king moves two columns. -/
def rookHop (piece : Piece) (start dest : Square) : Option (Square × Square) :=
  if piece.pieceType = .king ∧ (dest.2 - start.2).natAbs = 2 then
    if start.2 < dest.2 then some ((start.1, 7), (start.1, 5))
    else some ((start.1, 0), (start.1, 3))
  else none

/-- A rook is taken from one square to the other. -/
def moveRook (source target : Square) (hasMoved : Bool) : BoardOp Unit := do
  let b ← get
  match b.getPieceAt source with
  | none => do
      modify fun b => (b.put source none).put target none
      throw .attribute
  | some rook =>
    modify fun b => (b.put source none).put target (some { rook with position := target, hasMoved })

def moveRookOf (hop : Option (Square × Square)) : BoardOp Unit :=
  match hop with
  | none => pure ()
  | some (source, target) => moveRook source target true

/-- The piece that a pawn becomes on the last row. -/
def promotedBy (piece : Piece) (dest : Square) (promotion : Option PieceType) :
    Except ChessError (Option Piece) :=
  let lastRow := if piece.color = .white then 0 else 7
  if piece.pieceType = .pawn ∧ dest.1 = lastRow then
    let choice := promotion.getD .queen
    if choice ∉ promotionChoices then .error (.invalidMove "Cannot promote")
    else .ok (some ⟨.promoted piece.id, piece.color, choice, dest, true⟩)
  else .ok none

def passedOver (piece : Piece) (start dest : Square) : Option Square :=
  if piece.pieceType = .pawn ∧ (dest.1 - start.1).natAbs = 2 then
    some ((start.1 + dest.1) / 2, start.2)
  else none

/-- `apply_move` -/
def applyMove (start dest : Square) (promotion : Option PieceType) : BoardOp Move := do
  let b ← get
  match b.getPieceAt start with
  | none => throw (.invalidMove "No piece")
  | some piece => do
      let captured := b.capturedBy piece start dest
      modify fun b => ((b.takeOff captured.2).put start none).put dest
        (some { piece with position := dest, hasMoved := true })
      let hop := rookHop piece start dest
      moveRookOf hop
      match promotedBy piece dest promotion with
      | .error e => throw e
      | .ok promoted => do
          modify fun b =>
            { (if promoted.isSome then b.put dest promoted else b) with
              enPassantTarget := passedOver piece start dest }
          pure
            { startPos := start, endPos := dest, piece
              capturedPiece := captured.2.bind b.getPieceAt, capturedPos := captured.2
              promotion := promoted.map Piece.pieceType, promotedPiece := promoted
              isCastling := hop.isSome, isEnPassant := captured.1
              rookFrom := hop.map Prod.fst, rookTo := hop.map Prod.snd
              prevEnPassantTarget := b.enPassantTarget, prevHasMoved := piece.hasMoved }

/-! ## Unmake -/

/-- The captured piece is back. -/
def putBack (b : Board) : Option Piece → Option Square → Board
  | some captured, some pos => b.put pos (some { captured with position := pos })
  | _, _ => b

/-- `undo_move` -/
def undoMove (move : Move) : BoardOp Unit := do
  modify fun b => ((b.put move.endPos none).put move.startPos
    (some { move.piece with position := move.startPos, hasMoved := move.prevHasMoved })).putBack
      move.capturedPiece move.capturedPos
  match move.rookTo, move.rookFrom with
  | some rookTo, some rookFrom => moveRook rookTo rookFrom false
  | _, _ => pure ()
  modify fun b => { b with enPassantTarget := move.prevEnPassantTarget }

/-! ## Legality -/

/-- Make, look at the king, unmake: whether the king is safe. -/
def probe (color : Color) (start dest : Square) : BoardOp Bool := do
  let move ← applyMove start dest none
  let b ← get
  let safe := !b.isInCheck color
  undoMove move
  pure safe

def isLegalMove (piece : Piece) (dest : Square) : BoardOp Bool := do
  let b ← get
  if dest ∈ b.possibleMoves piece then probe piece.color piece.position dest else pure false

/-- Whether one of the moves leaves the king safe; the ones after it are not tried. -/
def anySafe (color : Color) (start : Square) : List Square → BoardOp Bool
  | [] => pure false
  | dest :: dests => do
      let safe ← probe color start dest
      if safe then pure true else anySafe color start dests

/-- `has_legal_moves`, over the pieces that are left. -/
def anyLegal (color : Color) : List Piece → BoardOp Bool
  | [] => pure false
  | p :: ps => do
      let b ← get
      let found ← anySafe color p.position (b.possibleMoves p)
      if found then pure true else anyLegal color ps

def hasLegalMoves (color : Color) : BoardOp Bool := do
  let b ← get
  anyLegal color (b.pieces color)

def isCheckmate (color : Color) : BoardOp Bool := do
  let b ← get
  if b.isInCheck color then do
    let found ← hasLegalMoves color
    pure !found
  else pure false

def isStalemate (color : Color) : BoardOp Bool := do
  let b ← get
  if b.isInCheck color then pure false
  else do
    let found ← hasLegalMoves color
    pure !found

/-- K vs K, K and minor piece vs K, or bishops on squares of one color. -/
def hasInsufficientMaterial (b : Board) : Bool :=
  let others := b.allPieces.filter fun p => p.pieceType ≠ .king
  match others with
  | [] => true
  | [p] => p.pieceType = .bishop ∨ p.pieceType = .knight
  | p :: others =>
    (∀ q ∈ p :: others, q.pieceType = .bishop) ∧
      ∀ q ∈ others, (q.position.1 + q.position.2) % 2 = (p.position.1 + p.position.2) % 2

/-! ## Position keys -/

/-- Identity of a position for repetition. -/
structure PositionKey where
  placement : List Char
  sideToMove : Color
  rights : List (Color × Int)
  enPassant : Option Square
deriving DecidableEq

def unmoved (b : Board) (pos : Square) (pieceType : PieceType) (color : Color) : Bool :=
  (b.getPieceAt pos).any fun p => p.pieceType = pieceType ∧ p.color = color ∧ p.hasMoved = false

def castlingRights (b : Board) : List (Color × Int) :=
  [(Color.white, (7 : Int)), (.black, 0)].flatMap fun (color, r) =>
    if b.unmoved (r, 4) .king color then
      ([7, 0].filter fun rc => b.unmoved (r, rc) .rook color).map fun rc => (color, rc)
    else []

/-- Placement, side to move, castling rights, and the en-passant square of a possible capture. -/
def positionKey (b : Board) (sideToMove : Color) : PositionKey where
  placement := allSquares.map fun s => ((b.grid s).map Piece.symbol).getD '.'
  sideToMove := sideToMove
  rights := b.castlingRights
  enPassant :=
    match b.enPassantTarget with
    | none => none
    | some target =>
      if (b.pieces sideToMove).any fun p =>
        p.pieceType = .pawn ∧ target ∈ b.possibleMoves p then some target else none

end Board

end InterviewPrep.Chess
