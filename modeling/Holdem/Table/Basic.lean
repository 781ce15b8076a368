import Holdem.Deck
import Holdem.Hand.Evaluate
import Holdem.Pot
import Holdem.Table.Config
import Holdem.Table.Rule
import Holdem.Table.Seat

/-!
# The table

The state of one hand of no-limit hold'em (`NoLimitHoldem`), and how its betting rounds open, close
and end (`with_seed`, `rotation`, `open_betting`, `close_round`, `finish`).

* `Table.create` seats one player per stack and posts the forced bets.
* `openBetting` starts the betting of a street: it lists the seats that act, in turn. A lone seat
  with chips behind acts only if it owes some.
* `closeRound` collects the bets, and then waits for a burn card or ends the hand. `finish` pays
  the pots out: the hand is complete.

A step of the table also says what is worth noting of it (`Note`), in order.

Out of scope here: amounts that do not fit, and a table that is changed before an operation on it is
refused. Both are looked at in the form of the table whose fields are written in place, `InPlace`.
-/

namespace Holdem

/-- What a table is waiting for. -/
inductive Phase
  | dealing
  | betting
  | burning
  /-- Board cards, of which `remaining` are still to come. -/
  | revealing (remaining : Nat)
  | complete
  deriving DecidableEq

/-- The phase without its count. -/
def Phase.name : Phase → PhaseName
  | dealing => .dealing
  | betting => .betting
  | burning => .burning
  | revealing _ => .revealing
  | complete => .complete

/-- What is worth noting of a step. -/
inductive Note
  /-- A card was dealt that is no longer in the deck. -/
  | reusedCard (card : Card)
  | roundOpened
  | actionApplied
  | handComplete
  deriving DecidableEq

/-- The state of one hand. -/
structure Table where
  config : TableConfig
  deck : Deck
  seats : List Seat
  board : List Card
  /-- 0 before the flop, then 1, 2, and 3 on the river. -/
  street : Nat
  phase : Phase
  /-- The seats still to act in this round, the next one first. -/
  actors : List Nat
  /-- The least increment of a full raise. -/
  minIncrement : Int
  /-- The seats that acted since the street opened or was last fully raised. -/
  acted : List Nat
  /-- The seats that may not raise, having acted before a short all-in. -/
  raiseClosed : List Nat
  deriving DecidableEq

/-- A value with what was noted on the way to it. -/
abbrev Noted (α : Type) := α × List Note

namespace Table

/-- The street after which the hand is shown down. -/
def river : Nat := 3

/-- How many board cards open a street. -/
def boardCount (street : Nat) : Nat := [0, 3, 1, 1].getD street 0

/-- A table at which nobody sits. -/
def vacant : Table := ⟨.standard, ⟨[]⟩, [], [], 0, .dealing, [], 0, [], []⟩

/-! ## Views -/

/-- The highest bet on this street. -/
def maxBet (t : Table) : Int := (t.seats.map (·.bet)).max?.getD 0

/-- Chips behind, per seat. -/
def behind (t : Table) : List Int := t.seats.map (·.stack)

/-- Chips put in during the hand, per seat. -/
def contributions (t : Table) : List Int := t.seats.map (·.contribution)

/-- Which seats are still in the hand. -/
def live (t : Table) : List Bool := t.seats.map (·.inHand)

/-- How many seats are still in the hand. -/
def liveCount (t : Table) : Nat := t.seats.countP (·.inHand)

/-- Whether a seat exists and is able to decide. -/
def canAct (t : Table) (seat : Nat) : Bool := (t.seats[seat]?).any (·.canAct)

/-- The seats after `seat` in table order, around to `seat` itself. -/
def rotation (t : Table) (seat : Nat) : List Nat :=
  (List.range t.seats.length).map fun k => (seat + k + 1) % t.seats.length

/-- The seat that has to act. -/
def actor? (t : Table) : Option Nat := t.actors.head?

/-- The table with one seat changed. -/
def updateSeat (t : Table) (seat : Nat) (f : Seat → Seat) : Table :=
  { t with seats := t.seats.modify seat f }

/-! ## Rounds -/

/-- The strength that a seat shows down, if it holds cards and the board is whole. -/
def strength (t : Table) (seat : Nat) : Option Strength :=
  if t.board.length = 5 then
    ((t.seats[seat]?).bind (·.hole)).map fun (a, b) => Hand.evaluateHolding a b t.board
  else none

/-- The pots of what is in. -/
def pots (t : Table) : List Pot := Pot.sidePots t.contributions t.live

/-- What each seat wins. -/
def winnings (t : Table) : List Int := Pot.award t.pots t.seats.length t.strength

/-- Pays the pots out. -/
def finish (t : Table) : Noted Table :=
  ({ t with
      seats := t.seats.zipWith (·.addChips ·) t.winnings
      actors := []
      phase := .complete }, [.handComplete])

/-- Collects the bets; the hand goes on while two seats are in it and streets remain. -/
def closeRound (t : Table) : Noted Table :=
  let t := { t with seats := t.seats.map Seat.collect }
  if t.liveCount ≤ 1 ∨ t.street = river then t.finish
  else ({ t with phase := .burning }, [])

/-- The seat from which a street is bet. -/
def opener (t : Table) : Nat := if t.street = 0 then preflopOpener t.seats.length else 0

/-- The seats that act in a new round, in turn. -/
def openingActors (t : Table) : List Nat :=
  let able := (t.rotation (t.opener + t.seats.length - 1)).filter t.canAct
  if able.length ≤ 1 then
    able.filter fun i => decide (((t.seats[i]?).map (·.bet)).getD 0 < t.maxBet)
  else able

/-- Opens the betting of a street; a round without actors closes at once. -/
def openBetting (t : Table) : Noted Table :=
  let t := { t with
    phase := .betting
    minIncrement := t.config.minBet
    acted := []
    raiseClosed := []
    actors := t.openingActors }
  if t.actors = [] then
    let (t, notes) := t.closeRound
    (t, .roundOpened :: notes)
  else (t, [.roundOpened])

/-! ## Creation -/

/-- A seat after the ante. -/
def ante (config : TableConfig) (s : Seat) : Seat :=
  if 0 < config.ante then (s.putIn config.ante).collect else s

/-- The first seat without chips, and its stack. -/
def badStack? (starts : List Int) : Option (Int × Nat) := starts.zipIdx.find? fun (s, _) => s ≤ 0

/-- Whether the stacks add up to more than can be counted. -/
def overflows (starts : List Int) : Bool := !Chips.fits (Chips.total starts)

/-- Seats one player per stack, posts antes and blinds, and waits for hole cards. -/
def create (config : TableConfig) (starts : List Int) (seed : UInt64) : Except TableError Table :=
  if starts.length < 2 then .error (.notEnoughSeats starts.length)
  else
    match badStack? starts with
    | some (stack, seat) => .error (.invalidStack seat stack)
    | none =>
      if overflows starts then .error .chipOverflow
      else
        let (small, big) := blindSeats starts.length
        let seats := starts.map fun s => ante config (Seat.ofStack s)
        let seats := seats.modify small (·.putIn config.smallBlind)
        let seats := seats.modify big (·.putIn config.bigBlind)
        .ok ⟨config, Deck.ofSeed seed, seats, [], 0, .dealing, [], config.minBet, [], []⟩

end Table

end Holdem
