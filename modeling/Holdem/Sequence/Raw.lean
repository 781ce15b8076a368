import Holdem.Sequence.Basic
import Holdem.Text.Blank

/-!
# Streets as written

The functions `parse_sequence`, `parse_street` and `bracketed`, and the type `RawStreet`.

The streets of a hand are separated by slashes: `r80 c / Flop: [2s,3d,5h] / x x / Turn: [9c]`.
`RawStreet.ofText` only cuts the text; no token is checked here.

* A piece that names a board street anywhere is that board street (`boardKind?`). Its cards are the
  items of its first bracketed list (`bracketed?`), if it has one.
* Any other piece is betting, one token per word.
-/

namespace Holdem

/-- A street before its tokens are checked. -/
inductive RawStreet
  | betting (tokens : List String)
  /-- A board street, its trimmed text, and the items of its card list, if there is one. -/
  | board (kind : BoardKind) (text : String) (cards : Option (List String))
  deriving DecidableEq

namespace RawStreet

/-- The board street a piece names: the flop before the turn, the turn before the river. -/
def boardKind? (piece : List Char) : Option BoardKind :=
  [BoardKind.flop, .turn, .river].find? fun kind => Text.occurs kind.text.toList piece

/-- What stands before the first closing bracket, if there is one. -/
def untilClose? : List Char → Option (List Char)
  | [] => none
  | c :: s => if c == ']' then some [] else (untilClose? s).map (c :: ·)

/-- What stands in brackets: from the first opening bracket for which a closing one follows with
at least one character in between, up to the nearest such. -/
def bracketed? : List Char → Option (List Char)
  | [] => none
  | c :: s =>
    if c == '[' then
      match s with
      | [] => none
      | d :: t =>
        match untilClose? t with
        | some inner => some (d :: inner)
        | none => bracketed? (d :: t)
    else bracketed? s

/-- The items of a comma-separated list, each trimmed. -/
def items (list : List Char) : List String :=
  (Text.pieces (· == ',') list).map fun item => String.ofList (Text.trim item)

/-- The street of one trimmed piece of text. -/
def ofPiece (piece : List Char) : RawStreet :=
  match boardKind? piece with
  | some kind => .board kind (String.ofList piece) ((bracketed? piece).map items)
  | none => .betting ((Text.words piece).map String.ofList)

/-- The streets of a text: its pieces between slashes, trimmed, the empty ones dropped. -/
def ofText (text : String) : List RawStreet :=
  (((Text.pieces (· == '/') text.toList).map Text.trim).filter (· ≠ [])).map ofPiece

end RawStreet

end Holdem
