import Holdem.Card
import Holdem.Chips

/-!
# Seats

A `Seat` holds a player's chips for the length of a hand: those behind, those bet on this street,
and those collected on earlier streets. It has the operations `give_cards`, `fold`, `put_in`,
`collect_bet`, `add_chips` and `payoff` of the program. `Seat.putIn` never moves more chips than
there are behind and never moves any back; `putIn_balance` says that nothing is lost on the way.
-/

namespace Holdem

/-- One seat at the table for the length of a hand. -/
structure Seat where
  /-- Chips before the hand. -/
  start : Int
  /-- Chips behind. -/
  stack : Int
  /-- Chips put in on this street. -/
  bet : Int
  /-- Chips collected on earlier streets. -/
  committed : Int
  folded : Bool
  hole : Option (Card × Card)
  deriving DecidableEq

namespace Seat

/-- A seat with its chips, before anything is bet or dealt. -/
def ofStack (stack : Int) : Seat := ⟨stack, stack, 0, 0, false, none⟩

/-- Chips put in during the hand. -/
def contribution (s : Seat) : Int := s.committed + s.bet

/-- Still contesting the pot. -/
def inHand (s : Seat) : Bool := !s.folded

/-- Still able to decide. -/
def canAct (s : Seat) : Bool := !s.folded && decide (0 < s.stack)

/-- The chips that move when `amount` is put in. -/
def moved (s : Seat) (amount : Int) : Int := Chips.clamp 0 s.stack amount

/-- Moves up to `amount` chips from behind into the bet. -/
def putIn (s : Seat) (amount : Int) : Seat :=
  { s with stack := s.stack - s.moved amount, bet := s.bet + s.moved amount }

/-- Collects the bet. -/
def collect (s : Seat) : Seat := { s with committed := s.committed + s.bet, bet := 0 }

/-- Adds chips won. -/
def addChips (s : Seat) (amount : Int) : Seat := { s with stack := s.stack + amount }

/-- Gives up the hand. -/
def fold (s : Seat) : Seat := { s with folded := true }

/-- Gives hole cards to a seat that has none. -/
def giveCards? (s : Seat) (cards : Card × Card) : Option Seat :=
  match s.hole with
  | none => some { s with hole := some cards }
  | some _ => none

/-- The net result so far. -/
def payoff (s : Seat) : Int := s.stack - s.start

@[simp]
theorem ofStack_stack (stack : Int) : (ofStack stack).stack = stack := rfl

@[simp]
theorem ofStack_bet (stack : Int) : (ofStack stack).bet = 0 := rfl

@[simp]
theorem ofStack_committed (stack : Int) : (ofStack stack).committed = 0 := rfl

@[simp]
theorem putIn_stack (s : Seat) (amount : Int) :
    (s.putIn amount).stack = s.stack - s.moved amount := rfl

@[simp]
theorem putIn_bet (s : Seat) (amount : Int) : (s.putIn amount).bet = s.bet + s.moved amount := rfl

@[simp]
theorem collect_bet (s : Seat) : s.collect.bet = 0 := rfl

@[simp]
theorem collect_committed (s : Seat) : s.collect.committed = s.committed + s.bet := rfl

theorem putIn_balance (s : Seat) (amount : Int) :
    (s.putIn amount).stack + (s.putIn amount).contribution = s.stack + s.contribution := by
  simp only [putIn, contribution]
  omega

theorem collect_contribution (s : Seat) : s.collect.contribution = s.contribution := by
  simp [collect, contribution]

end Seat

end Holdem
