import Holdem.Card

/-!
# Action sequences

The types `BoardKind`, `Action`, `Street` and `ActionSequence`.

A hand is played street by street. A `Street` is either the betting of one street, a list of
`Action`s, or the board cards that open the next one. An `ActionSequence` is the list of streets of
a hand, and its opening betting is `ActionSequence.preflop`.

`Action.text` and `BoardKind.text` are the words in which they are written.
-/

namespace Holdem

/-- The three times at which board cards are dealt. -/
inductive BoardKind
  | flop
  | turn
  | river
  deriving DecidableEq

namespace BoardKind

/-- The name of a board street. -/
def text : BoardKind → String
  | flop => "Flop"
  | turn => "Turn"
  | river => "River"

/-- How many cards a board street shows. -/
def cardCount : BoardKind → Nat
  | flop => 3
  | turn => 1
  | river => 1

end BoardKind

/-- One betting decision. -/
inductive Action
  | fold
  | checkOrCall
  /-- Commit up to `amount` chips on this street. -/
  | raiseTo (amount : Int)
  /-- Raise to the chips that the actor has behind. -/
  | allIn
  deriving DecidableEq

/-- The shortest token of an action. -/
def Action.text : Action → String
  | fold => "f"
  | checkOrCall => "c"
  | raiseTo amount => "r" ++ Chips.digits amount
  | allIn => "allin"

/-- One street of a hand. -/
inductive Street
  | betting (actions : List Action)
  | board (kind : BoardKind) (cards : List Card)
  deriving DecidableEq

/-- The streets of a hand, in order. -/
structure ActionSequence where
  streets : List Street
  deriving DecidableEq

/-- The actions of the opening betting street. -/
def ActionSequence.preflop (s : ActionSequence) : List Action :=
  match s.streets with
  | .betting actions :: _ => actions
  | _ => []

end Holdem
