import Holdem.Sequence.Raw

/-!
# Checking a sequence

The functions `validate_sequence`, `validate`, `validate_street` and `parse_action`, and the causes
`ValidationError`.

`ActionSequence.ofText` reads the text of a hand and reports the first offence, in street order:
an empty text, a board before any betting, then in each street the first bad item. In a board
street a missing list comes before a wrong count, and the count before a bad card.

An action is `f`, `x` or `c`, `allin`, or `b` or `r` followed by a positive amount.
-/

namespace Holdem

/-- Why the text of a hand was refused. -/
inductive SequenceError
  | empty
  | boardBeforePreflop (text : String)
  | missingCardList (text : String)
  | wrongCardCount (street : BoardKind) (expected found : Nat)
  | invalidCard (token : String)
  | invalidAction (token : String)
  | invalidAmount (token : String)
  | nonPositiveAmount (token : String)
  deriving DecidableEq

/-- The wording of a refusal. -/
def SequenceError.message : SequenceError → String
  | empty => "action sequence is empty"
  | boardBeforePreflop text => "first street must be a betting street, found `" ++ text ++ "`"
  | missingCardList text => "board street `" ++ text ++ "` has no bracketed card list"
  | wrongCardCount street expected found =>
    street.text ++ " needs " ++ toString expected ++ " card(s), found " ++ toString found
  | invalidCard token => "invalid card `" ++ token ++ "`"
  | invalidAction token => "invalid action `" ++ token ++ "`"
  | invalidAmount token => "invalid amount format in action `" ++ token ++ "`"
  | nonPositiveAmount token => "amount must be positive in action `" ++ token ++ "`"

/-- The raise whose amount is written after the first letter of `token`. -/
def Action.ofAmount (token : String) (amount : List Char) : Except SequenceError Action :=
  match Chips.ofText? amount with
  | none => .error (.invalidAmount token)
  | some n => if n ≤ 0 then .error (.nonPositiveAmount token) else .ok (.raiseTo n)

/-- The action of a token. -/
def Action.ofToken (token : String) : Except SequenceError Action :=
  if token = "f" then .ok .fold
  else if token = "x" ∨ token = "c" then .ok .checkOrCall
  else if token = "allin" then .ok .allIn
  else
    match token.toList with
    | 'b' :: amount => ofAmount token amount
    | 'r' :: amount => ofAmount token amount
    | _ => .error (.invalidAction token)

/-- The card of a list item. -/
def Card.ofItem (item : String) : Except SequenceError Card :=
  match Card.ofText? item.toList with
  | some card => .ok card
  | none => .error (.invalidCard item)

/-- The results of a check on every member of a list, or the first offence. -/
def checkEach {α β ε : Type} (check : α → Except ε β) : List α → Except ε (List β)
  | [] => .ok []
  | a :: l =>
    match check a with
    | .error e => .error e
    | .ok b => (checkEach check l).map (b :: ·)

/-- Checks one street. -/
def Street.ofRaw : RawStreet → Except SequenceError Street
  | .betting tokens => (checkEach Action.ofToken tokens).map .betting
  | .board _ text none => .error (.missingCardList text)
  | .board kind _ (some items) =>
    if items.length = kind.cardCount then (checkEach Card.ofItem items).map (.board kind)
    else .error (.wrongCardCount kind kind.cardCount items.length)

/-- Checks the streets of a hand, the first of which has to be betting. -/
def ActionSequence.ofRaw (streets : List RawStreet) : Except SequenceError ActionSequence :=
  match streets with
  | [] => .error .empty
  | .board _ text _ :: _ => .error (.boardBeforePreflop text)
  | .betting _ :: _ => (checkEach Street.ofRaw streets).map (⟨·⟩)

/-- Reads and checks the text of a hand. -/
def ActionSequence.ofText (text : String) : Except SequenceError ActionSequence :=
  ofRaw (RawStreet.ofText text)

end Holdem
