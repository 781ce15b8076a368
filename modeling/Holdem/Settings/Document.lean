import Holdem.Json.Reader

/-!
# Settings documents

The texts that are read as `FileConfig`, the two settings of a configuration file.

A settings document is a text of lines. A line is empty, or it sets `database` or `log_filter` to a
string; a comment may stand at its end, and none of the two is set twice. `Document.ofText?` reads
a document, and refuses any other text.

* A key is written bare or as a string on one line.
* A string stands in double quotes, with escapes, or in single quotes, without any. In three quotes
  of either kind it may have line breaks, which are kept as they are; one directly after the opening
  quotes is dropped, and in double quotes a backslash at the end of a line drops all blanks that
  follow.

Out of scope: the wording for a text that is refused.
-/

namespace Holdem

/-- What a settings document sets. -/
structure Document where
  database : Option String := none
  logFilter : Option String := none
  deriving DecidableEq

namespace Document

/-- What is read off the front of a text, and the rest. -/
abbrev Scan (α : Type) := List Char → Option (α × List Char)

/-! ## Blanks and lines -/

/-- The blanks within a line. -/
def isBlank (c : Char) : Bool := c == ' ' || c == '\t'

/-- A text without the blanks at its front. -/
def blanks (s : List Char) : List Char := s.dropWhile isBlank

/-- Whether a character may not stand for itself: control characters, but for the tab. -/
def isControl (c : Char) : Bool := (c.toNat < 32 && c != '\t') || c.toNat == 127

/-- The line break at the front of a text, and what follows it. -/
def lineBreak : Scan (List Char)
  | '\n' :: s => some (['\n'], s)
  | '\r' :: '\n' :: s => some (['\r', '\n'], s)
  | _ => none

/-- What follows a line break, if a text starts with one. -/
def lineBreak? (s : List Char) : Option (List Char) := (lineBreak s).map Prod.snd

/-- A text without the comment at its front, if there is one. -/
def comment : List Char → List Char
  | '#' :: s => s.dropWhile fun c => !isControl c
  | s => s

/-- The end of a line: a comment, and then a line break or the end of the text. -/
def lineEnd? (s : List Char) : Option (List Char) :=
  match comment (blanks s) with
  | [] => some []
  | s => lineBreak? s

/-! ## Strings -/

/-- The four kinds of strings. -/
structure Quotes where
  mark : Char
  /-- Three marks at either end, and line breaks in between. -/
  tripled : Bool
  deriving DecidableEq

/-- Whether escapes are read in a string. -/
def Quotes.escapes (q : Quotes) : Bool := q.mark == '\x22'

/-- The character of a number written in so many hexadecimal digits. -/
def numbered (digits : Nat) : Scan Char := fun s => do
  let values ← (s.take digits).mapM Json.hexValue?
  let n := values.foldl (fun n d => 16 * n + d) 0
  if values.length = digits ∧ n.isValidChar then some (Char.ofNat n, s.drop digits) else none

/-- The character of an escape whose backslash is read. -/
def escaped : Scan Char
  | 'b' :: s => some ('\x08', s)
  | 't' :: s => some ('\t', s)
  | 'n' :: s => some ('\n', s)
  | 'f' :: s => some ('\x0c', s)
  | 'r' :: s => some ('\r', s)
  | 'e' :: s => some ('\x1b', s)
  | '\x22' :: s => some ('\x22', s)
  | '\\' :: s => some ('\\', s)
  | 'x' :: s => numbered 2 s
  | 'u' :: s => numbered 4 s
  | 'U' :: s => numbered 8 s
  | _ => none

/-- A text without the blanks and line breaks at its front. -/
def blankLines : List Char → List Char
  | [] => []
  | '\r' :: '\n' :: s => blankLines s
  | c :: s => if isBlank c || c == '\n' then blankLines s else c :: s

/-- What follows a backslash at the end of a line: blanks and line breaks are dropped. -/
def continuation? (s : List Char) : Option (List Char) := (lineBreak? (blanks s)).map blankLines

/-- How many of the next characters are `mark`, up to five. -/
def marks (mark : Char) (s : List Char) : Nat := ((s.take 5).takeWhile (· == mark)).length

/-- The rest of a string and what follows it. -/
def bodyFrom (q : Quotes) : Nat → Scan (List Char)
  | 0, _ => none
  | _ + 1, [] => none
  | fuel + 1, c :: s =>
    let after (read : List Char) (s : List Char) : Option (List Char × List Char) :=
      (bodyFrom q fuel s).map fun (body, rest) => (read ++ body, rest)
    if c = q.mark then
      if q.tripled then
        let n := marks q.mark (c :: s)
        if 3 ≤ n then some (List.replicate (n - 3) c, (c :: s).drop n) else after [c] s
      else some ([], s)
    else if c = '\\' ∧ q.escapes then
      match if q.tripled then continuation? s else none with
      | some s => after [] s
      | none =>
        match escaped s with
        | some (d, s) => after [d] s
        | none => none
    else if isControl c then
      match if q.tripled then lineBreak (c :: s) else none with
      | some (read, s) => after read s
      | none => none
    else after [c] s

/-- A string whose opening quotes are read. -/
def body (q : Quotes) : Scan String := fun s =>
  let s := if q.tripled then (lineBreak? s).getD s else s
  (bodyFrom q (s.length + 1) s).map fun (chars, rest) => (String.ofList chars, rest)

/-- A string on one line. -/
def lineString : Scan String
  | '\x22' :: s => body ⟨'\x22', false⟩ s
  | '\'' :: s => body ⟨'\'', false⟩ s
  | _ => none

/-- A string of any kind. -/
def string : Scan String
  | '\x22' :: '\x22' :: '\x22' :: s => body ⟨'\x22', true⟩ s
  | '\'' :: '\'' :: '\'' :: s => body ⟨'\'', true⟩ s
  | s => lineString s

/-! ## Lines -/

/-- Whether a character may stand in a bare key. -/
def isKeyChar (c : Char) : Bool :=
  ('0' ≤ c && c ≤ '9') || ('A' ≤ c && c ≤ 'Z') || ('a' ≤ c && c ≤ 'z') || c == '_' || c == '-'

/-- A key. -/
def key : Scan String := fun s =>
  match s.takeWhile isKeyChar with
  | [] => lineString s
  | chars => some (String.ofList chars, s.dropWhile isKeyChar)

/-- An equals sign with blanks around it. -/
def equals? (s : List Char) : Option (List Char) :=
  match blanks s with
  | '=' :: s => some (blanks s)
  | _ => none

/-- Sets a key that is not set yet. -/
def set? (d : Document) (key value : String) : Option Document :=
  if key = "database" ∧ d.database = none then some { d with database := some value }
  else if key = "log_filter" ∧ d.logFilter = none then some { d with logFilter := some value }
  else none

/-- Reads a line, and changes what is read so far. -/
def line (d : Document) : Scan Document := fun s =>
  match lineEnd? s with
  | some rest => some (d, rest)
  | none => do
    let (k, s) ← key (blanks s)
    let (v, s) ← string (← equals? s)
    some (← d.set? k v, ← lineEnd? s)

/-- Reads all lines. -/
def lines : Nat → Document → List Char → Option Document
  | 0, _, _ => none
  | fuel + 1, d, s =>
    if s = [] then some d
    else (line d s).bind fun (d, rest) => lines fuel d rest

/-- A text without the mark of its encoding at its front. -/
def unmarked : List Char → List Char
  | '\uFEFF' :: s => s
  | s => s

/-- Reads a document. -/
def ofText? (text : String) : Option Document :=
  let s := unmarked text.toList
  lines (s.length + 1) {} s

end Document

end Holdem
