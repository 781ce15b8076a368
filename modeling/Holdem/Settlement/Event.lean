import Holdem.Settlement.Error

/-!
# What happens while a hand is settled

A settlement reports what it does as `Event`s (`SettlementEvent`, given to an `EventSink`). The
notes of the engine it plays on stand between them, so an `Entry` of its log is one or the other.
-/

namespace Holdem

/-- A step of a settlement. -/
inductive Event
  | sequenceValidated (streets : Nat)
  | shortcutApplied
  | replayStarted (players : Nat)
  | holeCardsDealt (player : String) (seat : Nat)
  | boardDealt (kind : BoardKind) (cards : List Card)
  | actionApplied (seat : Nat) (action : Action)
  | settled (winnings : List (String × Int))
  | failed (stage : Option Stage) (reason : String)
  deriving DecidableEq

/-- A line of the log of a settlement. -/
inductive Entry (ν : Type)
  | event (e : Event)
  | note (n : ν)

/-- The event of an entry, if it is one. -/
def Entry.event? {ν : Type} : Entry ν → Option Event
  | event e => some e
  | note _ => none

end Holdem
