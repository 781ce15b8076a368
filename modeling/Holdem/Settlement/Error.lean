import Holdem.Sequence.Check
import Holdem.Table.Error

/-!
# Why a hand is not settled

A hand is refused for its text (`SequenceError`), for stacks and hole cards that describe no table
(`InputError`), or because the table refused an operation at some `Stage` of the replay. These are
the types `SettleError`, `InputError` and `Stage`, with their wording.
-/

namespace Holdem

/-- Stacks and hole cards that describe no table. -/
inductive InputError
  | tooFewPlayers (players : Nat)
  | playerCountMismatch (withChips withCards : Nat)
  | nonPositiveStack (player : String) (stack : Int)
  | unknownPlayer (player : String)
  | holeCardCount (player : String) (count : Nat)
  | totalStackOverflow
  deriving DecidableEq

/-- The wording of a refusal. -/
def InputError.message : InputError → String
  | tooFewPlayers players => "a hand needs at least two players, got " ++ toString players
  | playerCountMismatch withChips withCards =>
    toString withChips ++ " players have stacks but " ++ toString withCards ++ " have hole cards"
  | nonPositiveStack player stack =>
    "stack for " ++ player ++ " must be positive, got " ++ Chips.digits stack
  | unknownPlayer player => "hole cards given for unknown player " ++ player
  | holeCardCount player count =>
    player ++ " must hold exactly two hole cards, got " ++ toString count
  | totalStackOverflow => "stacks add up to more than " ++ Chips.digits Chips.most ++ " chips"

/-- The stages of a replay. -/
inductive Stage
  | stateCreation
  | holeCardDealing
  | actionProcessing
  | payoffExtraction
  deriving DecidableEq

/-- The words for a stage. -/
def Stage.text : Stage → String
  | stateCreation => "state creation"
  | holeCardDealing => "hole-card dealing"
  | actionProcessing => "action processing"
  | payoffExtraction => "payoff extraction"

/-- Why a hand is not settled. -/
inductive SettleError
  | sequence (cause : SequenceError)
  | input (cause : InputError)
  | engine (stage : Stage) (cause : TableError)
  deriving DecidableEq

namespace SettleError

/-- The wording of a refusal. -/
def message : SettleError → String
  | sequence cause => "invalid action sequence: " ++ cause.message
  | input cause => "inconsistent hand input: " ++ cause.message
  | engine stage cause => "engine rejected " ++ stage.text ++ ": " ++ cause.message

/-- The stage of a refusal; there is none before the replay starts. -/
def stage? : SettleError → Option Stage
  | engine stage _ => some stage
  | _ => none

end SettleError

end Holdem
