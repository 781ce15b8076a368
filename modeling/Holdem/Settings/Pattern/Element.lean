import Holdem.Json.Reader
import Holdem.Text.Blank

/-!
# Elements of a pattern

A pattern is a regular expression. Its elements are single characters, the dot, classes such as
`\d`, and anchors, of which a word boundary is one.

* `Modes` say how a stretch of a pattern is read. In the spaced mode blanks and comments are passed
  over.
* `Modes.allows` says which elements can be matched. A matcher has no tables of Unicode: with
  Unicode on, it knows neither classes nor word boundaries nor the other case of a letter. With
  Unicode off, it matches ASCII and characters that are written out, and nothing that needs other
  bytes.
* A `Row` measures how deep constructs are nested, which has a limit (`maxDepth`).
-/

namespace Holdem.Pattern

/-! ## Modes -/

/-- How a stretch of a pattern is read. -/
structure Modes where
  unicode : Bool := true
  /-- Letters stand for either case. -/
  anyCase : Bool := false
  /-- Blanks and comments are passed over. -/
  spaced : Bool := false
  deriving DecidableEq

/-- A text without the blanks and comments at its front, at which a comment may be open. -/
def skipFrom : Bool → List Char → List Char
  | _, [] => []
  | true, c :: s => skipFrom (c ≠ '\n') s
  | false, c :: s =>
    if Text.isBlank c then skipFrom false s else if c = '#' then skipFrom true s else c :: s

/-- A text without what is passed over at its front. -/
def Modes.skip (m : Modes) (s : List Char) : List Char := if m.spaced then skipFrom false s else s

/-! ## Elements -/

/-- An element of a pattern. -/
inductive Element
  /-- A character, and whether it is written as the number of a byte. -/
  | character (c : Char) (byte : Bool)
  | dot
  /-- A class of digits, blanks or word characters. -/
  | kind (negated : Bool)
  | wordBoundary
  /-- The start or the end of a line or a text. -/
  | edge
  deriving DecidableEq

/-- Whether an element can be matched. -/
def Modes.allows (m : Modes) : Element → Bool
  | .character c byte => if m.unicode then !m.anyCase else !byte || c.toNat < 128
  | .dot => m.unicode
  | .kind negated => !m.unicode && !negated
  | .wordBoundary => !m.unicode
  | .edge => true

/-- Whether a character can be matched as a member of a set. -/
def Modes.allowsMember (m : Modes) (c : Char) : Bool :=
  if m.unicode then !m.anyCase else c.toNat < 128

/-! ## Escapes -/

/-- A number of so many hexadecimal digits more. -/
def hexNumber (m : Modes) : Nat → Nat → List Char → Option (Nat × List Char)
  | 0, n, s => some (n, s)
  | _ + 1, _, [] => none
  | digits + 1, n, c :: s =>
    (Json.hexValue? c).bind fun d => hexNumber m digits (16 * n + d) (m.skip s)

/-- A character written as a number of so many digits. -/
def numbered (m : Modes) (digits : Nat) (byte : Bool) (s : List Char) :
    Option (Element × List Char) := do
  let (n, s) ← hexNumber m digits 0 (m.skip s)
  if n.isValidChar then some (.character (Char.ofNat n) byte, s) else none

/-- Whether a character after a backslash stands for itself: marks of ASCII but for angles. -/
def isEscapable (c : Char) : Bool :=
  c.toNat < 128 && !c.isAlphanum && c != '<' && c != '>'

/-- The element of an escape whose backslash is read. -/
def escape? (m : Modes) : List Char → Option (Element × List Char)
  | [] => none
  | c :: s =>
    let itself (d : Char) := some (Element.character d false, s)
    if isEscapable c then itself c
    else
      match c with
      | 'a' => itself '\x07'
      | 'f' => itself '\x0c'
      | 't' => itself '\t'
      | 'n' => itself '\n'
      | 'r' => itself '\r'
      | 'v' => itself '\x0b'
      | 'x' => numbered m 2 true s
      | 'u' => numbered m 4 false s
      | 'U' => numbered m 8 false s
      | 'd' | 's' | 'w' => some (.kind false, s)
      | 'D' | 'S' | 'W' => some (.kind true, s)
      | 'b' | 'B' | '<' | '>' => some (.wordBoundary, s)
      | 'A' | 'z' => some (.edge, s)
      | _ => none

/-- The element at the front of a text, outside of sets. -/
def element? (m : Modes) : List Char → Option (Element × List Char)
  | [] => none
  | '\\' :: s => escape? m s
  | '.' :: s => some (.dot, s)
  | '^' :: s => some (.edge, s)
  | '$' :: s => some (.edge, s)
  | c :: s => some (.character c false, s)

/-! ## Depth -/

/-- How deep constructs may be nested. -/
def maxDepth : Nat := 250

/-- Constructs beside each other. -/
structure Row where
  length : Nat := 0
  /-- The depth of the deepest. -/
  deepest : Nat := 0
  deriving DecidableEq

namespace Row

/-- A row with one more construct. -/
def add (r : Row) (depth : Nat) : Row := ⟨r.length + 1, max r.deepest depth⟩

/-- The depth of a row: a row of one is that one. -/
def depth (r : Row) : Nat := if r.length ≤ 1 then r.deepest else r.deepest + 1

end Row

end Holdem.Pattern
