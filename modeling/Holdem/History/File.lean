import Holdem.History.Row

/-!
# Histories in files

A history in a file is a line that says what the file is, and then a line for each row: the JSON
array of its texts, in the order of the fields. `Row.fileText` writes such a text and
`Row.ofFileText?` reads it. An empty text is an empty history.

Out of scope: the file format of the database, for which this one stands.
-/

namespace Holdem.Row

/-- The texts of a row. -/
def texts (r : Row) : List String :=
  [r.id, r.createdAt, r.stackSettings, r.playerRoles, r.holeCards, r.actionSequence, r.winnings]

/-- The row of some texts. -/
def ofTexts? : List String → Option Row
  | [id, createdAt, stackSettings, playerRoles, holeCards, actionSequence, winnings] =>
    some ⟨id, createdAt, stackSettings, playerRoles, holeCards, actionSequence, winnings⟩
  | _ => none

/-- The first line of a file. -/
def heading : String := "hand history"

/-- The line of a row. -/
def line (r : Row) : String := (Json.arr (r.texts.map Json.str)).compact

/-- Reads the line of a row. -/
def ofLine? (line : List Char) : Option Row :=
  match Json.parse (Json.list Json.string) (String.ofList line) with
  | .ok texts => ofTexts? texts
  | .error _ => none

/-- The text of some rows. -/
def fileText (rows : List Row) : String :=
  String.join ((heading :: rows.map line).map (· ++ "\n"))

/-- Reads the text of a file. -/
def ofFileText? (text : String) : Option (List Row) :=
  if text = "" then some []
  else
    match Text.pieces (· == '\n') text.toList with
    | [] => none
    | first :: lines =>
      if first = heading.toList then (lines.filter (· ≠ [])).mapM ofLine? else none

end Holdem.Row
