import Holdem.Settlement.Settle

/-!
# Log lines

A `LogLine` is a level, a message and the fields that go with it. `Note.line` and `Event.line` are
the lines for what a table notes and for what a settlement reports, and `Entry.line` is the line
for either. The first are the lines that `NoLimitHoldem` logs, the second those of the event sink
`TracingSink`.

Out of scope: how lines are filtered, laid out and written, and where in the program they come from.
-/

namespace Holdem

/-- How much a log line matters. -/
inductive LogLevel
  | trace
  | debug
  | info
  | warn
  | error
  deriving DecidableEq

/-- The name of a level. -/
def LogLevel.name : LogLevel → String
  | trace => "TRACE"
  | debug => "DEBUG"
  | info => "INFO"
  | warn => "WARN"
  | error => "ERROR"

/-- One line of a log. -/
structure LogLine where
  level : LogLevel
  message : String
  fields : List (String × String) := []
  deriving DecidableEq

/-- The line for a note of a table. -/
def Note.line : Note → LogLine
  | reusedCard card =>
    ⟨.warn, "card is not in the deck, dealing it anyway", [("card", card.text)]⟩
  | roundOpened => ⟨.debug, "betting round opened", []⟩
  | actionApplied => ⟨.debug, "action applied", []⟩
  | handComplete => ⟨.debug, "hand complete", []⟩

/-- The line for an event of a settlement. -/
def Event.line : Event → LogLine
  | sequenceValidated streets =>
    ⟨.debug, "action sequence validated", [("streets", toString streets)]⟩
  | shortcutApplied => ⟨.info, "all-fold shortcut applied", []⟩
  | replayStarted players => ⟨.debug, "replaying hand", [("players", toString players)]⟩
  | holeCardsDealt player seat =>
    ⟨.trace, "hole cards dealt", [("player", player), ("seat", toString seat)]⟩
  | boardDealt kind cards =>
    ⟨.debug, "board dealt",
      [("street", kind.text), ("cards", " ".intercalate (cards.map Card.text))]⟩
  | actionApplied seat action =>
    ⟨.trace, "action applied", [("seat", toString seat), ("action", action.text)]⟩
  | settled winnings =>
    ⟨.info, "hand settled", winnings.map fun (player, amount) => (player, Chips.digits amount)⟩
  | failed stage reason =>
    ⟨.warn, "settlement failed",
      (stage.map fun s => ("stage", s.text)).toList ++ [("reason", reason)]⟩

/-- The line for an entry of the log of a settlement. -/
def Entry.line : Entry Note → LogLine
  | event e => e.line
  | note n => n.line

end Holdem
