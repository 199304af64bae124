/-
  `Board` and `Game`.  The dice and the observers are parts of a turn: what was rolled, and
  whether a handler raises.

  On every board that the constructor accepts the tokens stay on cells without a jump, and
  the game is finished when one of them stands on the last cell (`run_onBoard`), unless a roll
  bounces off both ends of the board, or an observer raises on the winning turn.
-/
import InterviewPrep.Lib.Dict
import InterviewPrep.Lib.Run
import Mathlib.Algebra.Ring.Int.Defs
import Mathlib.Data.List.Dedup
import Mathlib.Data.List.Sort

namespace InterviewPrep.SnakesAndLadders

open Lib List

/-! ## The board -/

inductive GameStatus where
  | notStarted
  | inProgress
  | finished
  deriving DecidableEq

inductive OvershootPolicy where
  /-- A roll past the end does not move. -/
  | stay
  | bounce
  /-- Any roll that reaches or passes the end wins. -/
  | allow
  deriving DecidableEq

structure Jump where
  start : Int
  stop : Int

inductive BoardError where
  | tooSmall
  | snakeUp (head tail : Int)
  | ladderDown (bottom top : Int)
  | offBoard (jump : Jump)
  | onGoal (size : Int)
  | occupied (old : Jump)
  | chained (cells : List Int)

/-- Cells 1..size. -/
structure Board where
  size : Int
  jumps : Dict Int Jump

namespace Board

/-- `_add`. -/
def add (size : Int) (jumps : Dict Int Jump) (jump : Jump) : Except BoardError (Dict Int Jump) :=
  if ¬ (1 ≤ jump.start ∧ jump.start ≤ size) ∨ ¬ (1 ≤ jump.stop ∧ jump.stop ≤ size) then
    .error (.offBoard jump)
  else if jump.start = size then .error (.onGoal size)
  else
    match jumps.get? jump.start with
    | some old => .error (.occupied old)
    | none => .ok (jumps.set jump.start jump)

/-- A loop of the constructor: each jump is checked and added. -/
def addAll (check : Int → Int → Option BoardError) (size : Int) :
    List (Int × Int) → Dict Int Jump → Except BoardError (Dict Int Jump)
  | [], jumps => .ok jumps
  | (start, stop) :: rest, jumps =>
    match check start stop with
    | some e => .error e
    | none =>
      match add size jumps ⟨start, stop⟩ with
      | .error e => .error e
      | .ok jumps => addAll check size rest jumps

def addSnakes : Int → List (Int × Int) → Dict Int Jump → Except BoardError (Dict Int Jump) :=
  addAll fun head tail => if head ≤ tail then some (.snakeUp head tail) else none

def addLadders : Int → List (Int × Int) → Dict Int Jump → Except BoardError (Dict Int Jump) :=
  addAll fun bottom top => if top ≤ bottom then some (.ladderDown bottom top) else none

/-- The cells on which a jump ends and another one starts. -/
def chained (jumps : Dict Int Jump) : List Int :=
  (jumps.keys.filter fun cell => jumps.values.any fun j => j.stop = cell).insertionSort (· ≤ ·)

/-- The constructor. -/
def init (size : Int) (snakes ladders : List (Int × Int)) : Except BoardError Board :=
  if size < 2 then .error .tooSmall
  else
    match addSnakes size snakes Dict.empty with
    | .error e => .error e
    | .ok jumps =>
      match addLadders size ladders jumps with
      | .error e => .error e
      | .ok jumps =>
        match chained jumps with
        | [] => .ok ⟨size, jumps⟩
        | cell :: cells => .error (.chained (cell :: cells))

def jumpAt (b : Board) (cell : Int) : Option Jump := b.jumps.get? cell

def resolve (b : Board) (cell : Int) : Int :=
  match b.jumps.get? cell with
  | some jump => jump.stop
  | none => cell

/-- What the constructor ensures. -/
structure Proper (b : Board) : Prop where
  size : 2 ≤ b.size
  starts : ∀ cell jump, b.jumps.get? cell = some jump → 1 ≤ cell ∧ cell < b.size
  stops : ∀ cell jump, b.jumps.get? cell = some jump →
    1 ≤ jump.stop ∧ jump.stop ≤ b.size ∧ b.jumps.get? jump.stop = none

/-- Every jump starts and stops on the board, and none starts on the last cell. -/
def OnBoard (size : Int) (jumps : Dict Int Jump) : Prop :=
  ∀ cell jump, jumps.get? cell = some jump →
    1 ≤ cell ∧ cell < size ∧ 1 ≤ jump.stop ∧ jump.stop ≤ size

variable {size : Int}

theorem add_onBoard {jumps jumps' : Dict Int Jump} {jump : Jump} (h : OnBoard size jumps)
    (hadd : add size jumps jump = .ok jumps') : OnBoard size jumps' := by
  rw [add] at hadd
  split_ifs at hadd with hoff hgoal
  split at hadd
  · cases hadd
  · cases hadd
    intro cell jump' hget
    obtain ⟨rfl, rfl⟩ | ⟨-, hget⟩ := Dict.get?_set_some hget
    · omega
    · exact h cell jump' hget

theorem addAll_onBoard {check : Int → Int → Option BoardError} (js : List (Int × Int)) :
    ∀ {jumps jumps' : Dict Int Jump}, OnBoard size jumps →
      addAll check size js jumps = .ok jumps' → OnBoard size jumps' := by
  induction js with
  | nil =>
    intro jumps jumps' h hadd
    cases hadd
    exact h
  | cons _ _ ih =>
    intro jumps jumps' h hadd
    rw [addAll] at hadd
    split at hadd
    · cases hadd
    · split at hadd
      · cases hadd
      · next hok => exact ih (add_onBoard h hok) hadd

theorem init_proper {snakes ladders : List (Int × Int)} {b : Board}
    (h : init size snakes ladders = .ok b) : b.Proper := by
  rw [init] at h
  split_ifs at h with hsize
  split at h
  · cases h
  next hsnakes =>
  split at h
  · cases h
  next jumps' hladders =>
  split at h
  · next hchained =>
    cases h
    have hon : OnBoard size jumps' := by
      apply addAll_onBoard ladders _ hladders
      apply addAll_onBoard snakes _ hsnakes
      rintro _ _ ⟨⟩
    refine ⟨not_lt.mp hsize, fun cell jump hget => ?_, fun cell jump hget => ?_⟩
    · obtain ⟨h1, h2, -⟩ := hon cell jump hget
      exact ⟨h1, h2⟩
    obtain ⟨-, -, h3, h4⟩ := hon cell jump hget
    refine ⟨h3, h4, Dict.get?_eq_none.mpr fun hmem => ?_⟩
    have hstop : jump.stop ∈ chained jumps' := by
      rw [chained, (perm_insertionSort _ _).mem_iff, mem_filter]
      refine ⟨hmem, any_eq_true.mpr ⟨jump, ?_, decide_eq_true rfl⟩⟩
      exact mem_map.mpr ⟨(cell, jump), Dict.mem_items.mpr hget, rfl⟩
    rw [hchained] at hstop
    cases hstop
  · cases h

end Board

/-! ## The game -/

/-- A roll with a positive total. -/
structure Roll where
  faces : List Int
  positive : 0 < faces.sum

def Roll.total (roll : Roll) : Int := roll.faces.sum

def Roll.isDoubles (roll : Roll) : Bool := 1 < roll.faces.length && roll.faces.dedup.length == 1

structure Player where
  name : String
  position : Int

structure TurnResult where
  turnNo : Nat
  player : String
  roll : Roll
  start : Int
  landed : Int
  stop : Int
  jump : Option Jump
  forfeited : Bool
  extraTurn : Bool
  won : Bool

/-- A call of `play_turn`: what the dice show, `none` if they raise, and whether an
    observer raises. -/
structure Turn where
  playerName : Option String
  roll : Option Roll
  turnRaises : Bool
  overRaises : Bool

inductive GameError where
  | tooFewPlayers
  | sameNames

inductive Answer where
  | played (result : TurnResult)
  | gameOver
  | notYourTurn
  | diceRaised
  | observerRaised

structure Game where
  board : Board
  players : List Player
  overshoot : OvershootPolicy
  extraTurnOnDoubles : Bool
  maxDoubles : Int
  status : GameStatus
  current : Nat
  doublesStreak : Int
  /-- The index of the winner. -/
  winner : Option Nat
  history : List TurnResult

namespace Game

def init (board : Board) (names : List String) (overshoot : OvershootPolicy)
    (extraTurnOnDoubles : Bool) (maxDoubles : Int) : Except GameError Game :=
  if names.length < 2 then .error .tooFewPlayers
  else if ¬ names.Nodup then .error .sameNames
  else .ok
    { board := board
      players := names.map fun name => ⟨name, 0⟩
      overshoot := overshoot
      extraTurnOnDoubles := extraTurnOnDoubles
      maxDoubles := maxDoubles
      status := .notStarted
      current := 0
      doublesStreak := 0
      winner := none
      history := [] }

variable (g : Game)

/-- `_advance`. -/
def advance (start steps : Int) : Int :=
  if start + steps ≤ g.board.size then start + steps
  else
    match g.overshoot with
    | .stay => start
    | .bounce => g.board.size - (start + steps - g.board.size)
    | .allow => g.board.size

/-- The doubles in a row, with this roll. -/
def streak (roll : Roll) : Int := if roll.isDoubles then g.doublesStreak + 1 else 0

def forfeits (roll : Roll) : Bool := decide (g.maxDoubles ≤ g.streak roll)

/-- Where a roll takes a token: the cell reached by the dice, the jump from it,
    and the last cell. -/
def move (start : Int) (roll : Roll) : Int × Option Jump × Int :=
  if g.forfeits roll then (start, none, start)
  else
    let landed := g.advance start roll.total
    match if landed ≠ start then g.board.jumpAt landed else none with
    | some jump => (landed, some jump, g.board.resolve landed)
    | none => (landed, none, landed)

/-- The token has moved, and the turn has passed on; the observers have not been told. -/
def moved (player : Player) (roll : Roll) : TurnResult × Game :=
  let (landed, jump, stop) := g.move player.position roll
  let won := decide (stop = g.board.size)
  let extra := g.extraTurnOnDoubles && roll.isDoubles && !g.forfeits roll && !won
  let result : TurnResult :=
    { turnNo := g.history.length + 1
      player := player.name
      roll := roll
      start := player.position
      landed := landed
      stop := stop
      jump := jump
      forfeited := g.forfeits roll
      extraTurn := extra
      won := won }
  (result,
    { g with
      status := .inProgress
      players := g.players.set g.current { player with position := stop }
      doublesStreak := if extra then g.streak roll else 0
      current := if extra then g.current else (g.current + 1) % g.players.length
      history := g.history ++ [result] })

/-- `play_turn`. -/
def playTurn (t : Turn) : Answer × Game :=
  if g.status = .finished then (.gameOver, g)
  else
    match g.players[g.current]? with
    -- The current player is one of the players.
    | none => (.gameOver, g)
    | some player =>
      if t.playerName.any fun name => name ≠ player.name then (.notYourTurn, g)
      else
        match t.roll with
        | none => (.diceRaised, { g with status := .inProgress })
        | some roll =>
          let (result, g') := g.moved player roll
          if t.turnRaises then (.observerRaised, g')
          else if result.won then
            (if t.overRaises then .observerRaised else .played result,
              { g' with status := .finished, winner := some g.current })
          else (.played result, g')

def step (g : Game) (t : Turn) : Except Empty (Answer × Game) := .ok (g.playTurn t)

theorem step_eq_playTurn (g : Game) (t : Turn) : g.step t = .ok (g.playTurn t) := rfl

/-! ## What every turn keeps -/

variable {g : Game} {g' : Game} {player : Player} {roll : Roll} {t : Turn}

/-- The tokens are on cells without a jump, and a game is finished with its winner
    on the last cell. -/
structure Sound (g : Game) : Prop where
  proper : g.board.Proper
  current : g.current < g.players.length
  positions : ∀ p ∈ g.players, 0 ≤ p.position ∧ p.position ≤ g.board.size ∧
    g.board.jumpAt p.position = none
  finished : g.status = .finished → ∃ w p, g.winner = some w ∧ g.players[w]? = some p ∧
    p.position = g.board.size ∧ ∀ i q, g.players[i]? = some q → q.position = g.board.size → i = w
  running : g.status ≠ .finished → g.winner = none ∧ ∀ p ∈ g.players, p.position ≠ g.board.size

/-- The roll bounces off both ends of the board. -/
def overbounces (g : Game) (start : Int) (roll : Roll) : Bool :=
  decide (g.overshoot = .bounce ∧ g.forfeits roll = false ∧ 2 * g.board.size < start + roll.total)

/-- An observer raises in `on_turn` when the roll wins. -/
def winUnheard (g : Game) (turnRaises : Bool) (start : Int) (roll : Roll) : Bool :=
  decide (turnRaises = true ∧ (g.move start roll).2.2 = g.board.size)

/-- If the turn is played, its roll does neither. -/
def safe (g : Game) (t : Turn) : Bool :=
  match g.players[g.current]?, t.roll with
  | some player, some roll =>
    decide (g.status = .finished) || (t.playerName.any fun name => name ≠ player.name) ||
      (!g.overbounces player.position roll && !g.winUnheard t.turnRaises player.position roll)
  | _, _ => true

variable {maxDoubles start : Int} {overshoot : OvershootPolicy} {names : List String}

theorem init_sound {board : Board} {extra : Bool} (hboard : board.Proper)
    (h : init board names overshoot extra maxDoubles = .ok g) : Sound g := by
  rw [init] at h
  split_ifs at h with hfew
  cases h
  have hpositions : ∀ p ∈ names.map fun name => (⟨name, 0⟩ : Player), p.position = 0 := by
    intro p hp
    obtain ⟨name, -, rfl⟩ := mem_map.mp hp
    rfl
  have hzero : board.jumps.get? 0 = none := by
    cases hjump : board.jumps.get? 0 with
    | none => rfl
    | some jump =>
      obtain ⟨h1, -⟩ := hboard.starts 0 jump hjump
      omega
  have hsize := hboard.size
  refine ⟨hboard, ?_, fun p hp => ?_, (by rintro ⟨⟩), fun _ => ⟨rfl, fun p hp => ?_⟩⟩
  · show 0 < (names.map _).length
    rw [length_map]
    omega
  · rw [hpositions p hp]
    refine ⟨le_rfl, ?_, hzero⟩
    show 0 ≤ board.size
    omega
  · rw [hpositions p hp]
    show 0 ≠ board.size
    omega

theorem move_sound (hboard : g.board.Proper) (hpos : 0 ≤ start)
    (hsize : start ≤ g.board.size) (hnone : g.board.jumpAt start = none)
    (hbounce : g.overbounces start roll = false) :
    0 ≤ (g.move start roll).2.2 ∧ (g.move start roll).2.2 ≤ g.board.size ∧
      g.board.jumpAt (g.move start roll).2.2 = none := by
  have htotal : 0 < roll.total := roll.positive
  rw [move]
  split
  · exact ⟨hpos, hsize, hnone⟩
  next hforfeits =>
  have hlanded : 0 ≤ g.advance start roll.total ∧ g.advance start roll.total ≤ g.board.size := by
    rw [advance]
    split
    · omega
    cases hpolicy : g.overshoot with
    | stay => exact ⟨hpos, hsize⟩
    | bounce =>
      have hle : ¬ 2 * g.board.size < start + roll.total :=
        fun hlt => of_decide_eq_false hbounce ⟨hpolicy, by simpa using hforfeits, hlt⟩
      dsimp only
      omega
    | allow =>
      dsimp only
      omega
  dsimp only
  split
  · next jump hjump =>
    have hget : g.board.jumps.get? (g.advance start roll.total) = some jump := by
      split at hjump
      · exact hjump
      · cases hjump
    obtain ⟨h1, h2, h3⟩ := hboard.stops _ jump hget
    rw [Board.resolve, hget]
    exact ⟨by change 0 ≤ jump.stop; omega, h2, h3⟩
  · next hjump =>
    refine ⟨hlanded.1, hlanded.2, ?_⟩
    split at hjump
    · exact hjump
    · next hsame =>
      rw [not_not.mp hsame]
      exact hnone

theorem safe_iff (hplayer : g.players[g.current]? = some player) (hroll : t.roll = some roll)
    (hstatus : g.status ≠ .finished)
    (hname : ¬ (t.playerName.any fun name => name ≠ player.name) = true) :
    g.safe t = true ↔ g.overbounces player.position roll = false ∧
      g.winUnheard t.turnRaises player.position roll = false := by
  rw [safe, hplayer, hroll]
  dsimp only
  rw [decide_eq_false hstatus, Bool.eq_false_iff.mpr hname, Bool.false_or, Bool.false_or,
    Bool.and_eq_true, Bool.not_eq_true', Bool.not_eq_true']

theorem positions_set (h : Sound g) (player : Player) {cell : Int}
    (hcell : 0 ≤ cell ∧ cell ≤ g.board.size ∧
    g.board.jumpAt cell = none) : ∀ p ∈ g.players.set g.current { player with position := cell },
      0 ≤ p.position ∧ p.position ≤ g.board.size ∧ g.board.jumpAt p.position = none := by
  intro p hp
  obtain hp | rfl := mem_or_eq_of_mem_set hp
  · exact h.positions p hp
  · exact hcell

theorem Sound.playTurn (h : Sound g) (hsafe : g.safe t = true) : Sound (g.playTurn t).2 := by
  rw [Game.playTurn]
  split
  · exact h
  next hstatus =>
  obtain ⟨hwinner, hlast⟩ := h.running hstatus
  split
  · exact h
  next player hplayer =>
  split
  · exact h
  next hname =>
  split
  · exact ⟨h.proper, h.current, h.positions, (by rintro ⟨⟩), fun _ => ⟨hwinner, hlast⟩⟩
  next roll hroll =>
  obtain ⟨hbounce, hraises⟩ := (safe_iff hplayer hroll hstatus hname).mp hsafe
  have hmem : player ∈ g.players := mem_of_getElem? hplayer
  obtain ⟨hpos, hsize, hnone⟩ := h.positions player hmem
  have hcell := move_sound h.proper hpos hsize hnone hbounce
  have hpositions := positions_set h player hcell
  have hcurrent : (if (g.moved player roll).1.extraTurn then g.current
      else (g.current + 1) % g.players.length) < g.players.length := by
    split
    · exact h.current
    · exact Nat.mod_lt _ (Nat.zero_lt_of_lt h.current)
  have hcurrent' : (g.moved player roll).2.current < (g.moved player roll).2.players.length := by
    show _ < (g.players.set _ _).length
    rw [length_set]
    exact hcurrent
  by_cases hwon : (g.move player.position roll).2.2 = g.board.size
  · have hquiet : ¬ t.turnRaises = true := fun hraise => of_decide_eq_false hraises ⟨hraise, hwon⟩
    have hresult : (g.moved player roll).1.won = true := decide_eq_true hwon
    dsimp only
    rw [if_neg hquiet, if_pos hresult]
    refine ⟨h.proper, hcurrent', hpositions, fun _ => ?_, fun hne => absurd rfl hne⟩
    refine ⟨g.current, { player with position := (g.move player.position roll).2.2 }, rfl, ?_,
      hwon, fun i q hq hqsize => ?_⟩
    · exact getElem?_set_self h.current
    · by_contra hne
      change (g.players.set _ _)[i]? = _ at hq
      rw [getElem?_set_ne (Ne.symm hne)] at hq
      exact hlast q (mem_of_getElem? hq) hqsize
  have hresult : ¬ (g.moved player roll).1.won = true := fun hw => hwon (of_decide_eq_true hw)
  have hmoved : Sound (g.moved player roll).2 := by
    refine ⟨h.proper, hcurrent', hpositions, (by rintro ⟨⟩), fun _ => ⟨hwinner, fun p hp => ?_⟩⟩
    obtain hp | rfl := mem_or_eq_of_mem_set hp
    · exact hlast p hp
    · exact hwon
  dsimp only
  rw [if_neg hresult]
  split
  · exact hmoved
  · exact hmoved

theorem move_overbounces (hboard : g.board.Proper)
    (hbounce : g.overbounces start roll = true) : (g.move start roll).2.2 < 0 := by
  obtain ⟨hpolicy, hforfeits, hlt⟩ := of_decide_eq_true hbounce
  have hboardSize := hboard.size
  have hlanded : g.advance start roll.total < 0 := by
    rw [advance, if_neg (by omega), hpolicy]
    dsimp only
    omega
  have hnone : g.board.jumpAt (g.advance start roll.total) = none := by
    cases hjump : g.board.jumpAt (g.advance start roll.total) with
    | none => rfl
    | some jump =>
      obtain ⟨h1, -⟩ := hboard.starts _ jump hjump
      omega
  rw [move, if_neg (by rw [hforfeits]; exact Bool.false_ne_true)]
  dsimp only
  rw [hnone, ite_self]
  exact hlanded

theorem playTurn_sound_iff (h : Sound g) : Sound (g.playTurn t).2 ↔ g.safe t = true := by
  refine ⟨fun hsound => ?_, h.playTurn⟩
  by_contra hunsafe
  rw [safe] at hunsafe
  split at hunsafe
  next player roll hplayer hroll =>
    rw [Bool.or_eq_true, Bool.or_eq_true, not_or, not_or] at hunsafe
    obtain ⟨⟨hstatus, hname⟩, hboth⟩ := hunsafe
    have hstatus : g.status ≠ .finished := fun heq => hstatus (decide_eq_true heq)
    have hmem : player ∈ g.players := mem_of_getElem? hplayer
    rw [Game.playTurn, if_neg hstatus, hplayer] at hsound
    dsimp only at hsound
    rw [if_neg hname, hroll] at hsound
    dsimp only at hsound
    have hmoved : { player with position := (g.move player.position roll).2.2 } ∈
        (g.moved player roll).2.players := mem_set h.current _
    cases hbounce : g.overbounces player.position roll with
    | true =>
      have hneg := move_overbounces h.proper hbounce
      have hrange : 0 ≤ (g.move player.position roll).2.2 := by
        split_ifs at hsound <;> exact (hsound.positions _ hmoved).1
      omega
    | false =>
      rw [hbounce, Bool.not_false, Bool.true_and] at hboth
      have hunheard : g.winUnheard t.turnRaises player.position roll = true := by simpa using hboth
      obtain ⟨hraises, hwon⟩ := of_decide_eq_true hunheard
      rw [if_pos hraises] at hsound
      exact (hsound.running (by rintro ⟨⟩)).2 _ hmoved hwon
  · exact hunsafe rfl

/-! ## Games -/

/-- On a board that the constructor accepts, as long as the turns are safe: the tokens stay on cells
    without a jump; the game is finished when one of them, the winner's, stands on the last cell;
    after that, and out of turn, nothing changes; and a turn that is not safe breaks this. -/
theorem run_onBoard {size : Int} {snakes ladders : List (Int × Int)} {board : Board}
    {extra : Bool} {turns : List Turn}
    {answers : List Answer} (hboard : Board.init size snakes ladders = .ok board)
    (hgame : init board names overshoot extra maxDoubles = .ok g)
    (hsafe : Guarded (fun g t => g.safe t = true) step g turns)
    (hrun : runSteps step g turns = .ok (answers, g')) :
    (∀ p ∈ g'.players, 0 ≤ p.position ∧ p.position ≤ g'.board.size ∧
      g'.board.jumpAt p.position = none) ∧
    (g'.status = .finished ↔ ∃ p ∈ g'.players, p.position = g'.board.size) ∧
    (g'.status = .finished → ∃ w p, g'.winner = some w ∧ g'.players[w]? = some p ∧
      p.position = g'.board.size ∧
      ∀ i q, g'.players[i]? = some q → q.position = g'.board.size → i = w) ∧
    (g'.status = .finished → ∀ t, (g'.playTurn t).2 = g') ∧
    (∀ t name p, t.playerName = some name → g'.players[g'.current]? = some p → name ≠ p.name →
      (g'.playTurn t).2 = g') ∧ ∀ t, Sound (g'.playTurn t).2 ↔ g'.safe t = true := by
  have h : Sound g' := by
    refine runSteps_keeps (fun _ _ g => Sound g) ?_
      (init_sound (Board.init_proper hboard) hgame) hsafe hrun
    rintro - - s t o s' - h hsafe hstep
    rw [step_eq_playTurn] at hstep
    obtain ⟨-, rfl⟩ := Prod.mk.inj (Except.ok.inj hstep)
    exact h.playTurn hsafe
  refine ⟨h.positions, ⟨fun hfinished => ?_, fun hlast => ?_⟩, h.finished, fun hfinished t => ?_,
    fun t name p hname hplayer hne => ?_, fun t => playTurn_sound_iff h⟩
  · obtain ⟨w, p, -, hp, hsize, -⟩ := h.finished hfinished
    exact ⟨p, mem_of_getElem? hp, hsize⟩
  · obtain ⟨p, hp, hsize⟩ := hlast
    by_contra hrunning
    exact (h.running hrunning).2 p hp hsize
  · rw [Game.playTurn, if_pos hfinished]
  · rw [Game.playTurn]
    split
    · rfl
    · rw [hplayer]
      dsimp only
      rw [hname, if_pos (by simpa using hne)]

/-- One die shows `n`. -/
def die (n : Int) (h : 0 < n) : Roll := ⟨[n], by simpa using h⟩

/-- Nobody in particular rolls `n`, and no observer raises. -/
def rolls (n : Int) (h : 0 < n) : Turn := ⟨none, some (die n h), false, false⟩

/-- On a board of ten cells with the ladder 3 to 7, Alice climbs it, Bob moves, and Alice wins. -/
theorem run_onBoard_ladder : ∃ board g g' answers, Board.init 10 [(9, 2)] [(3, 7)] = .ok board ∧
    init board ["Alice", "Bob"] .stay true 3 = .ok g ∧
    runSteps step g [rolls 3 (by decide), rolls 4 (by decide), rolls 3 (by decide)] =
      .ok (answers, g') ∧ g'.status = .finished ∧ ∃ p ∈ g'.players, p.position = g'.board.size := by
  obtain ⟨board, hboard, hgame⟩ := exists_ok_of_observe (x := Board.init 10 [(9, 2)] [(3, 7)])
    (f := fun (board : Board) =>
      (init board ["Alice", "Bob"] .stay true 3).toOption.map fun (g : Game) =>
        (decide (Guarded (fun (g : Game) (t : Turn) => g.safe t = true) step g
            [rolls 3 (by decide), rolls 4 (by decide), rolls 3 (by decide)]),
          (runSteps step g [rolls 3 (by decide), rolls 4 (by decide),
            rolls 3 (by decide)]).toOption.map fun (r : List Answer × Game) => r.2.status))
    (b := some (true, some .finished)) (by decide +kernel)
  obtain ⟨g, hg, hobserve⟩ := exists_ok_of_observe hgame
  obtain ⟨hsafe, hstatus⟩ := Prod.mk.inj hobserve
  obtain ⟨⟨answers, g'⟩, hrun, hfinished⟩ := exists_ok_of_observe hstatus
  have hsound := run_onBoard hboard hg (of_decide_eq_true hsafe) hrun
  exact ⟨board, g, g', answers, hboard, hg, hrun, hfinished, hsound.2.1.mp hfinished⟩

/-- On a board of two cells a six bounces off both ends. -/
theorem run_offBoard : ∃ board g g' answers, Board.init 2 [] [] = .ok board ∧
    init board ["Alice", "Bob"] .bounce true 3 = .ok g ∧
    runSteps step g [rolls 6 (by decide)] = .ok (answers, g') ∧
    ∃ p ∈ g'.players, p.position = -2 := by
  obtain ⟨board, hboard, hgame⟩ := exists_ok_of_observe (x := Board.init 2 [] [])
    (f := fun (board : Board) =>
      (init board ["Alice", "Bob"] .bounce true 3).toOption.map fun (g : Game) =>
        (runSteps step g [rolls 6 (by decide)]).toOption.map fun (r : List Answer × Game) =>
          r.2.players.map Player.position)
    (b := some (some [-2, 0])) (by decide +kernel)
  obtain ⟨g, hg, hobserve⟩ := exists_ok_of_observe hgame
  obtain ⟨⟨answers, g'⟩, hrun, hpositions⟩ := exists_ok_of_observe hobserve
  have hmem : (-2 : Int) ∈ g'.players.map Player.position := by
    rw [hpositions]
    exact mem_cons_self
  obtain ⟨p, hp, hposition⟩ := mem_map.mp hmem
  exact ⟨board, g, g', answers, hboard, hg, hrun, p, hp, hposition⟩

end Game

end InterviewPrep.SnakesAndLadders
