import Holdem.Chips

/-!
# What a table refuses

The causes for which a table refuses an operation (`EngineError`), with their wording. A cause that
has to do with the phase has two free texts: what was tried, and what the table was doing.
`Operation` and `PhaseName` are the words that a table of hold'em has for them; other engines may
use words of their own.
-/

namespace Holdem

/-- The operations that belong to one phase. -/
inductive Operation
  | act
  | dealHole
  | burn
  | dealBoard
  deriving DecidableEq

/-- The words for an operation. -/
def Operation.text : Operation → String
  | act => "act"
  | dealHole => "deal hole cards"
  | burn => "burn a card"
  | dealBoard => "deal a board card"

/-- What a table is doing. -/
inductive PhaseName
  | dealing
  | betting
  | burning
  | revealing
  | complete
  deriving DecidableEq

/-- The words for what a table is doing. -/
def PhaseName.text : PhaseName → String
  | dealing => "dealing hole cards"
  | betting => "betting"
  | burning => "waiting for a burn card"
  | revealing => "dealing the board"
  | complete => "the hand is complete"

/-- Why a table refused an operation. -/
inductive TableError
  | notEnoughSeats (seats : Nat)
  | invalidStack (seat : Nat) (stack : Int)
  | chipOverflow
  | noSuchSeat (seat : Nat)
  | holeCardsAlreadyDealt (seat : Nat)
  /-- What was tried, and what the table was doing. -/
  | wrongPhase (operation phase : String)
  | noActor
  | needlessFold (seat : Nat)
  | raiseTooSmall (amount minimum : Int)
  | insufficientChips (seat : Nat) (amount available : Int)
  | noOneToRaise (seat : Nat)
  | raiseNotReopened (seat : Nat)
  | deckExhausted
  | handNotComplete
  deriving DecidableEq

/-- The wording of a refusal. -/
def TableError.message : TableError → String
  | notEnoughSeats seats => "a table needs at least two seats, got " ++ toString seats
  | invalidStack seat stack =>
    "seat " ++ toString seat ++ " has a non-positive starting stack " ++ Chips.digits stack
  | chipOverflow => "the stacks at this table add up to more chips than can be counted"
  | noSuchSeat seat => "seat " ++ toString seat ++ " does not exist"
  | holeCardsAlreadyDealt seat => "seat " ++ toString seat ++ " already holds hole cards"
  | wrongPhase operation phase => "cannot " ++ operation ++ " while " ++ phase
  | noActor => "there is no player to act"
  | needlessFold seat => "seat " ++ toString seat ++ " has no reason to fold"
  | raiseTooSmall amount minimum =>
    "raise to " ++ Chips.digits amount ++ " is below the minimum of " ++ Chips.digits minimum
  | insufficientChips seat amount available =>
    "raise to " ++ Chips.digits amount ++ " exceeds the " ++ Chips.digits available ++
      " chips seat " ++ toString seat ++ " can commit"
  | noOneToRaise seat =>
    "seat " ++ toString seat ++ " cannot raise: no other player can respond"
  | raiseNotReopened seat =>
    "seat " ++ toString seat ++ " cannot raise: a short all-in does not reopen the betting"
  | deckExhausted => "deck is exhausted"
  | handNotComplete => "payoffs are not final until the hand is complete"

end Holdem
