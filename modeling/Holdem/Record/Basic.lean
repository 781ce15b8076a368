import Holdem.Record.Instant
import Holdem.Record.Roles
import Holdem.Record.Uuid
import Holdem.Settlement.Settle

/-!
# Hands and their records

A `HandInput` is a hand as submitted, a `HandRecord` a settled one with its identifier and the time
of its creation. `HandInput.process` settles a hand and makes its record; a hand that is not
settled has none. These are the types `HandInput` and `HandRecord`, with `check_schema` and
`process_hand`.

Out of scope: where the identifier and the time of a record come from. They are given as a `Stamp`.
-/

namespace Holdem

/-- A hand as submitted. -/
structure HandInput where
  stackSettings : Stacks
  playerRoles : Roles
  holeCards : HoleCards
  actionSequence : String
  deriving DecidableEq

/-- A settled hand. -/
structure HandRecord where
  id : Uuid
  createdAt : Instant
  stackSettings : Stacks
  playerRoles : Roles
  holeCards : HoleCards
  actionSequence : String
  winnings : Winnings
  deriving DecidableEq

/-- What a new record is stamped with. -/
structure Stamp where
  id : Uuid
  createdAt : Instant
  deriving DecidableEq

namespace HandInput

/-- Whether every stack is positive and every hole has two cards. -/
def check (input : HandInput) : Except InputError Unit :=
  checkEntries input.stackSettings input.holeCards

/-- The record of the hand with its winnings. -/
def toRecord (input : HandInput) (stamp : Stamp) (winnings : Winnings) : HandRecord where
  id := stamp.id
  createdAt := stamp.createdAt
  stackSettings := input.stackSettings
  playerRoles := input.playerRoles
  holeCards := input.holeCards
  actionSequence := input.actionSequence
  winnings := winnings

/-- The settlement of the hand. -/
def settle (input : HandInput) : Settled Table Note :=
  Holdem.settle input.stackSettings input.holeCards input.actionSequence

/-- The record of the hand, if it is settled, and the log of its settlement. -/
def process (input : HandInput) (stamp : Stamp) :
    Except SettleError HandRecord × List (Entry Note) :=
  let settled := input.settle
  (settled.result.map (input.toRecord stamp), settled.log)

end HandInput

end Holdem
