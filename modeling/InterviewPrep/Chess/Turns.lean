/-
  Legality is decided on the live board.  Making a move keeps the board well formed, so each
  of the methods that try moves ends on the board it began on.

  `ChessGame` (chess_game.py): turns, status, draws and undo.

  What the commands of a game do.  `makeMove_spec` says it of `make_move`, once: a rejected
  call leaves the game as it was, and an accepted one is a `Turn`.  `Turn.undo` says that
  `undo_last_move` goes back over a turn, also when the game was ended after it.
-/
import InterviewPrep.Chess.Moves
import InterviewPrep.Lib.Dict

namespace InterviewPrep.Chess.Board

open Lib

variable {b b' : Board} {s t dest start : Square} {p q rook : Piece} {c : Color}
  {promotion : Option PieceType} {promoted : Option Piece}

/-! ## What a move puts on the board -/

theorem promotedBy_spec (h : promotedBy p dest promotion = .ok (some q)) :
    p.pieceType = .pawn ∧ q.pieceType ∈ promotionChoices ∧ q.color = p.color ∧
      q.position = dest ∧ q.hasMoved = true := by
  rw [promotedBy] at h
  dsimp only at h
  by_cases hlast : p.pieceType = .pawn ∧ dest.1 = if p.color = .white then 0 else 7
  · rw [if_pos hlast] at h
    by_cases hchoice : promotion.getD .queen ∈ promotionChoices
    · rw [if_neg (not_not.mpr hchoice)] at h
      cases h
      exact ⟨hlast.1, hchoice, rfl, rfl, rfl⟩
    · rw [if_pos hchoice] at h
      cases h
  · rw [if_neg hlast] at h
    cases h

theorem landed_spec (h : promotedBy p dest promotion = .ok promoted) :
    (landed p dest promoted).position = dest ∧ (landed p dest promoted).color = p.color ∧
      (landed p dest promoted).hasMoved = true ∧
        ((landed p dest promoted).pieceType = .king ↔ p.pieceType = .king) := by
  cases promoted with
  | none => exact ⟨rfl, rfl, rfl, Iff.rfl⟩
  | some q =>
    obtain ⟨hpawn, hchoice, hcolor, hposition, hmoved⟩ := promotedBy_spec h
    refine ⟨hposition, hcolor, hmoved, ?_⟩
    have hq : q.pieceType ≠ .king := by
      intro hking
      rw [hking] at hchoice
      exact absurd hchoice (by decide)
    simp [landed, hq, hpawn]

namespace Made

variable (h : Made b p dest promoted b')
include h

theorem onBoard_dest : onBoard dest = true := by
  cases h with
  | plain hon => exact hon
  | castling _ _ _ hop => exact hop.onBoard_dest

theorem grid_dest : b'.grid dest = some (landed p dest promoted) := by
  cases h with
  | plain => rw [played_grid, if_pos rfl]
  | castling _ _ _ hop hnone =>
    rw [hopped_grid, if_neg hop.target_ne.2.1.symm, if_neg hop.source_ne.2.symm, played_grid,
      if_pos rfl, hnone]

theorem old_or_new (hpromoted : promotedBy p dest promotion = .ok promoted)
    (hq : b'.grid t = some q) : (b.grid t = some q ∧ t ≠ p.position ∧ t ≠ dest) ∨
      (onBoard t = true ∧ q.position = t ∧ q.color = p.color ∧ q.hasMoved = true ∧
        (q.pieceType = .king → t = dest ∧ p.pieceType = .king)) := by
  have hlanded : b'.grid dest = some q → t = dest → onBoard t = true ∧ q.position = t ∧
      q.color = p.color ∧ q.hasMoved = true ∧
        (q.pieceType = .king → t = dest ∧ p.pieceType = .king) := by
    intro hq ht
    obtain rfl := Option.some.inj (h.grid_dest.symm.trans hq)
    obtain ⟨hposition, hcolor, hmoved, hking⟩ := landed_spec hpromoted
    exact ⟨ht ▸ h.onBoard_dest, ht ▸ hposition, hcolor, hmoved, fun e => ⟨ht, hking.mp e⟩⟩
  by_cases hd : t = dest
  · exact Or.inr (hlanded (hd ▸ hq) hd)
  have hplayed : ∀ promoted', (b.played p p.position dest promoted').grid t = some q →
      b.grid t = some q ∧ t ≠ p.position ∧ t ≠ dest := by
    intro promoted' hq
    rw [played_grid, if_neg hd] at hq
    split at hq
    next => cases hq
    next hs =>
      split at hq
      next => cases hq
      next => exact ⟨hq, hs, hd⟩
  cases h with
  | plain => exact Or.inl (hplayed _ hq)
  | castling _ _ _ hop =>
  rw [hopped_grid] at hq
  split at hq
  next htarget =>
    obtain rfl := Option.some.inj hq
    exact Or.inr ⟨htarget ▸ hop.onBoard_target, htarget.symm, hop.own, rfl,
      fun hking => by simp [hop.isRook] at hking⟩
  next =>
    split at hq
    next => cases hq
    next => exact Or.inl (hplayed _ hq)

theorem frame (hq : b.grid t = some q) (hs : t ≠ p.position) (hd : t ≠ dest)
    (htaken : (b.capturedBy p p.position dest).2 ≠ some t)
    (hrook : q.pieceType ≠ .rook ∨ q.color ≠ p.color) : b'.grid t = some q := by
  have hplayed : ∀ promoted', (b.played p p.position dest promoted').grid t = some q := by
    intro promoted'
    rw [played_grid, if_neg hd, if_neg hs, if_neg htaken, hq]
  cases h with
  | plain => exact hplayed _
  | castling _ source target hop =>
    have htarget : t ≠ target := by
      rintro rfl
      exact Option.some_ne_none q (hq.symm.trans hop.free)
    have hsource : t ≠ source := by
      rintro rfl
      obtain rfl := Option.some.inj (hq.symm.trans hop.rook_at)
      exact hrook.elim (absurd hop.isRook) (absurd hop.own)
    rw [hopped_grid, if_neg htarget, if_neg hsource, hplayed]

end Made

/-! ## Boards that moves keep well formed -/

/-- The unmoved pieces of `b'` stand where they stand on `b`. -/
def Older (b b' : Board) : Prop :=
  ∀ s p, b'.grid s = some p → p.hasMoved = false → b.grid s = some p

theorem Older.refl (b : Board) : Older b b := fun _ _ h _ => h

theorem Older.trans {b'' : Board} (h : Older b b') (h' : Older b' b'') : Older b b'' :=
  fun s p hp hunmoved => h s p (h' s p hp hunmoved) hunmoved

theorem HopFree.of_older (hfree : b.HopFree) (h : Older b b') : b'.HopFree := by
  intro s king rook hking htype hunmoved hrook hown hstill
  obtain ⟨hright, hleft⟩ :=
    hfree s king rook (h _ _ hking hunmoved) htype hunmoved hrook hown hstill
  exact ⟨fun e => hright ⟨e.1, h _ _ e.2 hstill⟩, fun e => hleft ⟨e.1, h _ _ e.2 hstill⟩⟩

/-- A board on which every move can be tried. -/
structure Playable (b : Board) : Prop where
  placed : b.Placed
  hopFree : b.HopFree

theorem Made.older (h : Made b p dest promoted b')
    (hpromoted : promotedBy p dest promotion = .ok promoted) : Older b b' := by
  intro s q hq hunmoved
  rcases h.old_or_new hpromoted hq with ⟨hold, -⟩ | ⟨-, -, -, hmoved, -⟩
  · exact hold
  · rw [hunmoved] at hmoved
    cases hmoved

theorem Made.placed (h : Made b p dest promoted b')
    (hpromoted : promotedBy p dest promotion = .ok promoted) (hplaced : b.Placed) : b'.Placed := by
  intro s q hq
  rcases h.old_or_new hpromoted hq with ⟨hold, -⟩ | ⟨hon, hposition, -⟩
  · exact hplaced s q hold
  · exact ⟨hon, hposition⟩

theorem Made.playable (h : Made b p dest promoted b')
    (hpromoted : promotedBy p dest promotion = .ok promoted) (hb : b.Playable) : b'.Playable :=
  ⟨h.placed hpromoted hb.placed, hb.hopFree.of_older (h.older hpromoted)⟩

/-! ## Trying moves -/

/-- The move leaves the king of a color safe. -/
def Safe (b : Board) (c : Color) (p : Piece) (dest : Square) : Prop :=
  ∃ promoted b', promotedBy p dest none = .ok promoted ∧ Made b p dest promoted b' ∧
    b'.isInCheck c = false

section

variable (hb : b.Playable) (hp : b.grid p.position = some p)
include hb hp

theorem probe_spec (hdest : dest ∈ b.possibleMoves p) :
    ∃ safe, probe c p.position dest b = .ok safe b ∧ (safe = true → b.Safe c p dest) := by
  obtain ⟨promoted, b', hpromoted, hmade, happly, hundo⟩ :=
    applyMove_spec hb.placed hb.hopFree hp hdest
      (show ∀ choice, (none : Option PieceType) = some choice → choice ∈ promotionChoices by simp)
  refine ⟨!b'.isInCheck c, ?_, ?_⟩
  · rw [probe]
    refine (bind_ok happly).trans ?_
    rw [get_bind]
    exact (bind_ok hundo).trans rfl
  · intro hsafe
    exact ⟨promoted, b', hpromoted, hmade, by simpa using hsafe⟩

theorem isLegalMove_spec (dest : Square) : ∃ legal, isLegalMove p dest b = .ok legal b ∧
      (legal = true → dest ∈ b.possibleMoves p ∧ b.Safe p.color p dest) := by
  rw [isLegalMove, get_bind]
  by_cases hdest : dest ∈ b.possibleMoves p
  · obtain ⟨safe, hprobe, hsafe⟩ := probe_spec hb hp hdest (c := p.color)
    rw [if_pos hdest]
    exact ⟨safe, hprobe, fun h => ⟨hdest, hsafe h⟩⟩
  · rw [if_neg hdest]
    exact ⟨false, rfl, by simp⟩

theorem anySafe_spec {dests : List Square} (hdests : ∀ dest ∈ dests, dest ∈ b.possibleMoves p) :
    ∃ found, anySafe p.color p.position dests b = .ok found b ∧
      (found = true → ∃ dest, isLegalMove p dest b = .ok true b) := by
  induction dests with
  | nil => exact ⟨false, rfl, by simp⟩
  | cons dest dests ih =>
    obtain ⟨hdest, hdests⟩ := List.forall_mem_cons.mp hdests
    obtain ⟨safe, hprobe, -⟩ := probe_spec hb hp hdest (c := p.color)
    obtain ⟨found, hrest, hfound⟩ := ih hdests
    have hrun : anySafe p.color p.position (dest :: dests) b =
        (if safe then pure true else anySafe p.color p.position dests : BoardOp Bool) b :=
      bind_ok hprobe
    rw [hrun]
    cases safe with
    | false => exact ⟨found, hrest, hfound⟩
    | true =>
      refine ⟨true, rfl, fun _ => ⟨dest, ?_⟩⟩
      rw [isLegalMove, get_bind, if_pos hdest]
      exact hprobe

end

def HasLegalMove (b : Board) (c : Color) : Prop :=
  ∃ p ∈ b.pieces c, ∃ dest, isLegalMove p dest b = .ok true b

theorem anyLegal_spec (hb : b.Playable) {ps : List Piece} (hps : ∀ p ∈ ps, p ∈ b.pieces c) :
    ∃ found, anyLegal c ps b = .ok found b ∧ (found = true → b.HasLegalMove c) := by
  induction ps with
  | nil => exact ⟨false, rfl, by simp⟩
  | cons p ps ih =>
    obtain ⟨hp, hps⟩ := List.forall_mem_cons.mp hps
    obtain ⟨hat, rfl⟩ := hb.placed.mem_pieces.mp hp
    obtain ⟨safe, htried, hsafe⟩ := anySafe_spec hb hat (fun dest h => h)
    obtain ⟨found, hrest, hfound⟩ := ih hps
    have hrun : anyLegal p.color (p :: ps) b =
        (if safe then pure true else anyLegal p.color ps : BoardOp Bool) b := by
      rw [anyLegal, get_bind]
      exact bind_ok htried
    rw [hrun]
    cases safe with
    | false => exact ⟨found, hrest, hfound⟩
    | true => exact ⟨true, rfl, fun _ => ⟨p, hp, hsafe rfl⟩⟩

theorem hasLegalMoves_spec (hb : b.Playable) (c : Color) :
    ∃ found, hasLegalMoves c b = .ok found b ∧ (found = true → b.HasLegalMove c) := by
  rw [hasLegalMoves, get_bind]
  exact anyLegal_spec hb fun p hp => hp

end InterviewPrep.Chess.Board

namespace InterviewPrep.Chess

open Lib Dict

structure Player where
  name : String
  color : Color

/-- `_Snapshot` -/
structure Snapshot where
  move : Move
  status : GameStatus
  halfmoveClock : Nat
  positionKey : Board.PositionKey

structure ChessGame where
  board : Board
  players : Color → Player
  toMove : Color
  status : GameStatus
  winner : Option Player
  /-- oldest first -/
  history : List Snapshot
  /-- plies since the last capture or pawn move -/
  halfmoveClock : Nat
  /-- how often each position was there -/
  positions : Dict Board.PositionKey Nat

/-- A method of the game, which may raise in the middle of its work. -/
abbrev GameOp := EStateM ChessError ChessGame

/-- A square, or its name. -/
inductive SquareLike where
  | named (name : String)
  | pos (pos : Square)

/-- `_sq` -/
def SquareLike.toSquare : SquareLike → Except ChessError Square
  | .named name => square name
  | .pos s => if onBoard s then .ok s else .error (.invalidMove "Off-board square")

/-! ## Validation -/

/-- `MoveValidator.validate` -/
def validate (color : Color) (start dest : Square) : BoardOp Piece := do
  let b ← get
  match b.getPieceAt start with
  | none => throw (.invalidMove "No piece")
  | some piece =>
    if piece.color ≠ color then throw (.invalidMove "is not the player's piece")
    else if dest ∉ b.possibleMoves piece then throw (.invalidMove "cannot move")
    else do
      let legal ← Board.isLegalMove piece dest
      if legal then pure piece else throw (.invalidMove "Move leaves own king in check")

namespace ChessGame

def liftExcept {α : Type} : Except ChessError α → GameOp α
  | .ok a => pure a
  | .error e => throw e

/-- A method of the game's board. -/
def onBoard {α : Type} (op : BoardOp α) : GameOp α := fun g =>
  match op g.board with
  | .ok a b => .ok a { g with board := b }
  | .error e b => .error e { g with board := b }

/-- `Counter.__getitem__` -/
def count (positions : Dict Board.PositionKey Nat) (key : Board.PositionKey) : Nat :=
  (positions.get? key).getD 0

/-- `_positions[key] += 1` -/
def increment (positions : Dict Board.PositionKey Nat) (key : Board.PositionKey) :
    Dict Board.PositionKey Nat :=
  positions.set key (count positions key + 1)

/-- `_positions[key] -= 1`, and a key with no positions is deleted. -/
def decrement (positions : Dict Board.PositionKey Nat) (key : Board.PositionKey) :
    Dict Board.PositionKey Nat :=
  let positions := positions.set key (count positions key - 1)
  if count positions key = 0 then positions.erase key else positions

/-! ## Status -/

/-- A draw that nobody has to claim. -/
def isDrawn (g : ChessGame) : Bool :=
  g.board.hasInsufficientMaterial ∨ 150 ≤ g.halfmoveClock ∨
    5 ≤ count g.positions (g.board.positionKey g.toMove)

/-- `_refresh_status` -/
def refreshStatus : GameOp Unit := do
  let g ← get
  let side := g.toMove
  let mated ← onBoard (Board.isCheckmate side)
  if mated then
    modify fun g => { g with status := .checkmate, winner := some (g.players side.opponent) }
  else do
    let stale ← onBoard (Board.isStalemate side)
    if stale then modify fun g => { g with status := .stalemate }
    else modify fun g => { g with status :=
      if g.isDrawn then .draw else if g.board.isInCheck side then .check else .active }

/-- `ChessGame(board, to_move)` -/
def new (board : Board) (toMove : Color) (whiteName blackName : String) :
    EStateM.Result ChessError ChessGame Unit :=
  let players := fun
    | Color.white => ⟨whiteName, .white⟩
    | .black => ⟨blackName, .black⟩
  refreshStatus
    { board, players, toMove, status := .active, winner := none, history := [], halfmoveClock := 0
      positions := increment Dict.empty (board.positionKey toMove) }

/-! ## Commands -/

/-- The move is made and written down; `piece` is what moved. -/
def play (piece : Piece) (start dest : Square) (promotion : Option PieceType) : GameOp Move := do
  let g ← get
  let move ← onBoard (Board.applyMove start dest promotion)
  modify fun t =>
    let resets := piece.pieceType = .pawn ∨ move.capturedPiece.isSome
    let toMove := t.toMove.opponent
    let key := t.board.positionKey toMove
    { t with
      halfmoveClock := if resets then 0 else t.halfmoveClock + 1
      toMove
      positions := increment t.positions key
      history := t.history ++ [⟨move, g.status, g.halfmoveClock, key⟩] }
  refreshStatus
  pure move

/-- `make_move` -/
def makeMove (start dest : SquareLike) (promotion : Option PieceType) (expectedPly : Option Int) :
    GameOp Move := do
  let start ← liftExcept start.toSquare
  let dest ← liftExcept dest.toSquare
  let g ← get
  if g.status.isOver then throw (.gameOver g.status)
  else if expectedPly.any fun ply => ply ≠ (g.history.length : Int) then
    throw (.staleMove (expectedPly.getD 0) g.history.length)
  else if promotion.any fun choice => choice ∉ promotionChoices then
    throw (.invalidMove "Cannot promote")
  else do
    let piece ← onBoard (validate g.toMove start dest)
    play piece start dest promotion

/-- `undo_last_move` -/
def undoLastMove : GameOp Move := do
  let g ← get
  match g.history.getLast? with
  | none => throw (.chess "Nothing to undo")
  | some snap => do
      modify fun g => { g with
        history := g.history.dropLast
        positions := decrement g.positions snap.positionKey }
      onBoard (Board.undoMove snap.move)
      modify fun g => { g with
        toMove := g.toMove.opponent, halfmoveClock := snap.halfmoveClock
        status := snap.status, winner := none }
      pure snap.move

def resign (color : Color) : GameOp Unit := do
  let g ← get
  if g.status.isOver then throw (.gameOver g.status)
  else modify fun g => { g with status := .resigned, winner := some (g.players color.opponent) }

/-- Threefold repetition or fifty moves. -/
def canClaimDraw (g : ChessGame) : Bool :=
  3 ≤ count g.positions (g.board.positionKey g.toMove) ∨ 100 ≤ g.halfmoveClock

def claimDraw : GameOp Unit := do
  let g ← get
  if g.status.isOver then throw (.gameOver g.status)
  else if !g.canClaimDraw then throw (.chess "No draw claim available")
  else modify fun g => { g with status := .draw }

end ChessGame

/-! ## Validation -/

theorem validate_spec {b : Board} (hb : b.Playable) (color : Color) (start dest : Square) :
    (∃ e, validate color start dest b = .error e b) ∨
      ∃ p, validate color start dest b = .ok p b ∧ p.position = start ∧ p.color = color ∧
        b.grid p.position = some p ∧ dest ∈ b.possibleMoves p ∧ b.Safe color p dest := by
  rw [validate, get_bind]
  cases hp : b.getPieceAt start with
  | none => exact Or.inl ⟨_, rfl⟩
  | some p =>
  have hgrid := (Board.getPieceAt_eq_some.mp hp).2
  have hposition := (hb.placed _ _ hgrid).2
  rw [← hposition] at hgrid
  dsimp only
  by_cases hcolor : p.color ≠ color
  · rw [if_pos hcolor]
    exact Or.inl ⟨_, rfl⟩
  rw [if_neg hcolor]
  by_cases hdest : dest ∉ b.possibleMoves p
  · rw [if_pos hdest]
    exact Or.inl ⟨_, rfl⟩
  rw [if_neg hdest]
  obtain ⟨legal, hrun, hlegal⟩ := Board.isLegalMove_spec hb hgrid dest
  rw [bind_ok hrun]
  cases legal with
  | false => exact Or.inl ⟨_, rfl⟩
  | true =>
    obtain ⟨hpseudo, hsafe⟩ := hlegal rfl
    rw [not_not.mp hcolor] at hsafe
    exact Or.inr ⟨p, rfl, hposition, not_not.mp hcolor, hgrid, hpseudo, hsafe⟩

namespace Board

theorem isCheckmate_spec {b : Board} (hb : b.Playable) (c : Color) :
    ∃ mated, isCheckmate c b = .ok mated b ∧
      (mated = false → b.isInCheck c = true → b.HasLegalMove c) := by
  rw [isCheckmate, get_bind]
  cases hcheck : b.isInCheck c with
  | false => exact ⟨false, rfl, by simp⟩
  | true =>
    obtain ⟨found, hrun, hfound⟩ := hasLegalMoves_spec hb c
    refine ⟨!found, ?_, fun h _ => hfound (by simpa using h)⟩
    exact (bind_ok hrun).trans rfl

theorem isStalemate_spec {b : Board} (hb : b.Playable) (c : Color) :
    ∃ stale, isStalemate c b = .ok stale b ∧
      (stale = false → b.isInCheck c = false → b.HasLegalMove c) := by
  rw [isStalemate, get_bind]
  cases hcheck : b.isInCheck c with
  | true => exact ⟨false, rfl, by simp⟩
  | false =>
    obtain ⟨found, hrun, hfound⟩ := hasLegalMoves_spec hb c
    refine ⟨!found, ?_, fun h _ => hfound (by simpa using h)⟩
    exact (bind_ok hrun).trans rfl

end Board

namespace ChessGame

variable {g g' : ChessGame} {p : Piece} {dest : Square} {promotion : Option PieceType}
  {promoted : Option Piece} {move : Move}

/-! ## The counter of positions -/

/-- No key is kept with a count of zero. -/
def Counted (positions : Dict Board.PositionKey Nat) : Prop :=
  ∀ key n, positions.get? key = some n → 0 < n

theorem count_increment (positions : Dict Board.PositionKey Nat) (key key' : Board.PositionKey) :
    count (increment positions key) key' =
      count positions key' + if key' = key then 1 else 0 := by
  rw [count, increment, get?_set]
  by_cases h : key' = key
  · rw [if_pos h, if_pos h, h, Option.getD_some]
  · rw [if_neg h, if_neg h, count, Nat.add_zero]

variable {positions : Dict Board.PositionKey Nat}

theorem Counted.increment (h : Counted positions)
    (key : Board.PositionKey) : Counted (increment positions key) := by
  intro key' n hn
  rw [ChessGame.increment, get?_set] at hn
  split at hn
  next =>
    rw [← Option.some.inj hn]
    omega
  next => exact h key' n hn

theorem decrement_increment (h : Counted positions)
    (key : Board.PositionKey) : decrement (increment positions key) key = positions := by
  have hone : count (increment positions key) key - 1 = count positions key := by
    rw [count_increment, if_pos rfl, Nat.add_sub_cancel]
  simp only [decrement, hone]
  rw [increment, Dict.set_set]
  cases hkey : positions.get? key with
  | none =>
    have hzero : count positions key = 0 := by rw [count, hkey, Option.getD_none]
    rw [hzero, if_pos (by rw [count, get?_set_self, Option.getD_some])]
    exact erase_set_of_get?_none hkey
  | some n =>
    have hn : count positions key = n := by rw [count, hkey, Option.getD_some]
    have hpos := h key n hkey
    rw [hn, set_eq_self hkey, if_neg (by rw [hn]; omega)]

/-! ## The status -/

/-- The status of a game that is not over says how it stands. -/
def Fresh (g : ChessGame) : Prop :=
  g.status.isOver = false →
    g.board.HasLegalMove g.toMove ∧ (g.status = .check ↔ g.board.isInCheck g.toMove = true)

theorem onBoard_ok {α : Type} {op : BoardOp α} {a : α} {b : Board} (h : op g.board = .ok a b) :
    onBoard op g = .ok a { g with board := b } := by
  rw [onBoard, h]

theorem onBoard_error {α : Type} {op : BoardOp α} {e : ChessError} {b : Board}
    (h : op g.board = .error e b) : onBoard op g = .error e { g with board := b } := by
  rw [onBoard, h]

theorem refreshStatus_spec (hb : g.board.Playable) :
    ∃ status winner, refreshStatus g = .ok () { g with status, winner } ∧
      (status.isOver = false → winner = g.winner) ∧ Fresh { g with status, winner } := by
  obtain ⟨mated, hmated, hlegal⟩ := Board.isCheckmate_spec hb g.toMove
  obtain ⟨stale, hstale, hlegal'⟩ := Board.isStalemate_spec hb g.toMove
  rw [refreshStatus, get_bind, bind_ok (onBoard_ok hmated)]
  cases mated with
  | true => exact ⟨.checkmate, _, rfl, by simp [GameStatus.isOver], by simp [Fresh,
    GameStatus.isOver]⟩
  | false =>
  rw [if_neg (by decide), bind_ok (onBoard_ok hstale)]
  cases stale with
  | true =>
    exact ⟨.stalemate, g.winner, rfl, fun _ => rfl, by simp [Fresh, GameStatus.isOver]⟩
  | false =>
  refine ⟨_, g.winner, rfl, fun _ => rfl, ?_⟩
  intro hactive
  dsimp only at hactive ⊢
  have hdrawn : ¬ g.isDrawn = true := by
    intro hdrawn
    rw [if_pos hdrawn] at hactive
    cases hactive
  rw [if_neg hdrawn]
  cases hcheck : g.board.isInCheck g.toMove with
  | true => exact ⟨hlegal rfl hcheck, by simp⟩
  | false => exact ⟨hlegal' rfl hcheck, by simp⟩

/-! ## Turns -/

/-- An accepted move: `p` goes to `dest` and is replaced by `promoted`, if that is a piece. -/
structure Turn (g : ChessGame) (p : Piece) (dest : Square) (promotion : Option PieceType)
    (promoted : Option Piece) (move : Move) (g' : ChessGame) : Prop where
  active : g.status.isOver = false
  on_board : g.board.grid p.position = some p
  own : p.color = g.toMove
  pseudo : dest ∈ g.board.possibleMoves p
  safe : g.board.Safe g.toMove p dest
  promotedBy_eq : Board.promotedBy p dest promotion = .ok promoted
  made : Board.Made g.board p dest promoted g'.board
  undone : Board.undoMove move g'.board = .ok () g.board
  toMove_eq : g'.toMove = g.toMove.opponent
  players_eq : g'.players = g.players
  positions_eq :
    g'.positions = increment g.positions (g'.board.positionKey g'.toMove)
  history_eq : g'.history = g.history ++
    [⟨move, g.status, g.halfmoveClock, g'.board.positionKey g'.toMove⟩]
  fresh : Fresh g'
  winner_eq : g'.status.isOver = false → g'.winner = g.winner

theorem Turn.playable (h : Turn g p dest promotion promoted move g') (hb : g.board.Playable) :
    g'.board.Playable :=
  h.made.playable h.promotedBy_eq hb

theorem play_spec (hb : g.board.Playable) (hactive : g.status.isOver = false)
    (hp : g.board.grid p.position = some p) (hown : p.color = g.toMove)
    (hpseudo : dest ∈ g.board.possibleMoves p) (hsafe : g.board.Safe g.toMove p dest)
    (hpromotion : ∀ choice, promotion = some choice → choice ∈ promotionChoices) :
    ∃ move g' promoted, play p p.position dest promotion g = .ok move g' ∧
      Turn g p dest promotion promoted move g' := by
  obtain ⟨promoted, b', hpromoted, hmade, happly, hundo⟩ :=
    Board.applyMove_spec hb.placed hb.hopFree hp hpseudo hpromotion
  rw [play, get_bind, bind_ok (onBoard_ok happly), modify_bind]
  obtain ⟨status, winner, hrun, hwinner, hfresh⟩ := refreshStatus_spec
    (g := { g with
      board := b'
      halfmoveClock :=
        if p.pieceType = .pawn ∨
            (g.board.record p p.position dest promoted).capturedPiece.isSome = true then 0
        else g.halfmoveClock + 1
      toMove := g.toMove.opponent
      positions := increment g.positions (b'.positionKey g.toMove.opponent)
      history := g.history ++ [⟨g.board.record p p.position dest promoted, g.status,
        g.halfmoveClock, b'.positionKey g.toMove.opponent⟩] })
    (hmade.playable hpromoted hb)
  refine ⟨_, _, promoted, (bind_ok hrun).trans rfl, ?_⟩
  exact ⟨hactive, hp, hown, hpseudo, hsafe, hpromoted, hmade, hundo, rfl, rfl, rfl, rfl, hfresh,
    hwinner⟩

theorem makeMove_spec (hb : g.board.Playable) (start dest : SquareLike)
    (promotion : Option PieceType) (expectedPly : Option Int) :
    (∃ e, makeMove start dest promotion expectedPly g = .error e g) ∨
      ∃ p dest' promoted move g', makeMove start dest promotion expectedPly g = .ok move g' ∧
        Turn g p dest' promotion promoted move g' := by
  rw [makeMove]
  cases hs : start.toSquare with
  | error e => exact Or.inl ⟨e, rfl⟩
  | ok s =>
  cases hd : dest.toSquare with
  | error e => exact Or.inl ⟨e, rfl⟩
  | ok d =>
  rw [bind_ok (show liftExcept (.ok s) g = .ok s g from rfl),
    bind_ok (show liftExcept (.ok d) g = .ok d g from rfl), get_bind]
  by_cases hover : g.status.isOver = true
  · rw [if_pos hover]
    exact Or.inl ⟨_, rfl⟩
  rw [if_neg hover]
  by_cases hply : (expectedPly.any fun ply => ply ≠ (g.history.length : Int)) = true
  · rw [if_pos hply]
    exact Or.inl ⟨_, rfl⟩
  rw [if_neg hply]
  by_cases hchoice : (promotion.any fun choice => choice ∉ promotionChoices) = true
  · rw [if_pos hchoice]
    exact Or.inl ⟨_, rfl⟩
  rw [if_neg hchoice]
  have hpromotion : ∀ choice, promotion = some choice → choice ∈ promotionChoices := by
    rintro choice rfl
    simpa using hchoice
  rcases validate_spec hb g.toMove s d with ⟨e, hrun⟩ | ⟨p, hrun, rfl, hown, hp, hpseudo, hsafe⟩
  · exact Or.inl ⟨e, bind_error (onBoard_error hrun)⟩
  · obtain ⟨move, g', promoted, hplay, hturn⟩ :=
      play_spec hb (by simpa using hover) hp hown hpseudo hsafe hpromotion
    exact Or.inr ⟨p, d, promoted, move, g', (bind_ok (onBoard_ok hrun)).trans hplay, hturn⟩

theorem Turn.undo (h : Turn g p dest promotion promoted move g') (hcounted : Counted g.positions)
    (hwinner : g.winner = none) (status : GameStatus) (winner : Option Player) :
    undoLastMove { g' with status, winner } = .ok move g := by
  rw [undoLastMove, get_bind]
  simp only [h.history_eq, List.getLast?_concat, modify_bind, List.dropLast_concat]
  rw [h.positions_eq, decrement_increment hcounted]
  have hundo : onBoard (Board.undoMove move)
      { g' with status, winner, history := g.history, positions := g.positions } =
        .ok () { g' with
          board := g.board, status, winner, history := g.history, positions := g.positions } :=
    onBoard_ok h.undone
  refine (bind_ok hundo).trans ?_
  rw [modify_bind]
  simp only [h.toMove_eq, Color.opponent_opponent, h.players_eq, ← hwinner]
  rfl

end ChessGame

end InterviewPrep.Chess
