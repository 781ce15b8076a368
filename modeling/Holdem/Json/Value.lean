import Holdem.Json.Real

/-!
# JSON values and their text

`Json` is a JSON value; the members of an object keep their order. `Json.render` writes one in a
`Layout`: `Layout.compact` without any space, `Layout.indented` with a line for every item and two
spaces for every level. A quote, a backslash and the control characters below the space are escaped
in strings, and nothing else is. These are the two layouts in which the JSON library writes values.
-/

namespace Holdem

/-- A JSON value. -/
inductive Json
  | null
  | bool (b : Bool)
  | int (n : Int)
  | real (x : Json.Real)
  | str (s : String)
  | arr (items : List Json)
  | obj (members : List (String × Json))

namespace Json

/-! ## Strings -/

/-- A hexadecimal digit below 16, in lower case. -/
def hexDigit (n : Nat) : Char :=
  if n < 10 then Char.ofNat (48 + n) else Char.ofNat (87 + n)

/-- The text of a character in a string. -/
def escape (c : Char) : List Char :=
  if c = '\x22' then ['\\', '\x22']
  else if c = '\\' then ['\\', '\\']
  else if c = '\x08' then ['\\', 'b']
  else if c = '\x0c' then ['\\', 'f']
  else if c = '\n' then ['\\', 'n']
  else if c = '\r' then ['\\', 'r']
  else if c = '\t' then ['\\', 't']
  else if c.toNat < 32 then
    ['\\', 'u', '0', '0', hexDigit (c.toNat / 16), hexDigit (c.toNat % 16)]
  else [c]

/-- The text of a string, in quotes. -/
def quoted (s : String) : List Char := '\x22' :: s.toList.flatMap escape ++ ['\x22']

/-! ## Values -/

/-- Where lines break, and what stands between a key and its value. -/
structure Layout where
  /-- The break before something at a level. -/
  lineBreak : Nat → List Char
  colon : List Char

/-- No space anywhere. -/
def Layout.compact : Layout := ⟨fun _ => [], [':']⟩

/-- A line for every item, two spaces for every level. -/
def Layout.indented : Layout := ⟨fun level => '\n' :: List.replicate (2 * level) ' ', [':', ' ']⟩

/-- Texts between brackets, one item each, at a level below the brackets. -/
def bracket (l : Layout) (level : Nat) (opening closing : Char) (items : List (List Char)) :
    List Char :=
  if items = [] then [opening, closing]
  else
    opening :: ((items.map (l.lineBreak (level + 1) ++ ·)).intersperse [',']).flatten ++
      l.lineBreak level ++ [closing]

mutual

/-- The text of a value at a level. -/
def render (l : Layout) (level : Nat) : Json → List Char
  | null => ['n', 'u', 'l', 'l']
  | bool true => ['t', 'r', 'u', 'e']
  | bool false => ['f', 'a', 'l', 's', 'e']
  | int n => Text.intDigits n
  | real x => x.chars
  | str s => quoted s
  | arr items => bracket l level '[' ']' (renderItems l (level + 1) items)
  | obj members => bracket l level '\x7b' '\x7d' (renderMembers l (level + 1) members)

/-- The texts of the items of an array. -/
def renderItems (l : Layout) (level : Nat) : List Json → List (List Char)
  | [] => []
  | item :: items => render l level item :: renderItems l level items

/-- The texts of the members of an object. -/
def renderMembers (l : Layout) (level : Nat) : List (String × Json) → List (List Char)
  | [] => []
  | (key, value) :: members =>
    (quoted key ++ l.colon ++ render l level value) :: renderMembers l level members

end

/-- The text of a value on one line. -/
def compact (j : Json) : String := String.ofList (render .compact 0 j)

/-- The text of a value on many lines. -/
def indented (j : Json) : String := String.ofList (render .indented 0 j)

/-! ## Sorted members -/

/-- Members with one more, sorted by key; it replaces a member with its key. -/
def insertMember {α : Type} (key : String) (value : α) : List (String × α) → List (String × α)
  | [] => [(key, value)]
  | (k, v) :: rest =>
    if key < k then (key, value) :: (k, v) :: rest
    else if key = k then (key, value) :: rest
    else (k, v) :: insertMember key value rest

end Json

end Holdem
