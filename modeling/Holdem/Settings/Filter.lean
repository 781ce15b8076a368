import Holdem.Chips
import Holdem.Settings.Pattern

/-!
# Log filters

The texts that `validate` accepts for `log_filter`, which are those that the logging library reads
as a filter.

A log filter is a list of directives separated by commas, such as `warn,table=debug`. A directive
is a level, a target, or a target with a span in brackets, which may have one field in braces, and
with a level after an equals sign: `table[hand{seat=1}]=trace`. The value of a field is a number or
a pattern.

`Filter.isValid` says whether a text is a filter. White space around a directive is passed over
when its parts are found. Their places are counted from there, but the field and the level are cut
from the whole directive, so white space at its front shifts what is read as either.

Out of scope: which log lines a filter lets through.
-/

namespace Holdem.Filter

/-! ## Parts -/

/-- Where the parts of a directive stand that have a form of their own; places count bytes. -/
structure Parts where
  /-- The start and the end of the field. -/
  field : Option (Nat × Nat) := none
  /-- The start of the level. -/
  level : Option Nat := none
  deriving DecidableEq

/-- What may follow a span. -/
def afterSpan (field : Option (Nat × Nat)) (place : Nat) : List Char → Option Parts
  | [] => some ⟨field, none⟩
  | '=' :: _ => some ⟨field, some (place + 1)⟩
  | _ :: _ => none

/-- A field that starts at a place, up to its closing brace; then the span ends. -/
def inField (start place : Nat) : List Char → Option Parts
  | [] => none
  | c :: s =>
    if c = '\x7d' then
      match s with
      | ']' :: s => if start < place then afterSpan (some (start, place)) (place + 2) s else none
      | _ => none
    else inField start (place + c.utf8Size) s

/-- A span up to its closing bracket, or to a field. -/
def inSpan (place : Nat) : List Char → Option Parts
  | [] => none
  | c :: s =>
    if c = ']' then afterSpan none (place + 1) s
    else if c = '\x7b' then inField (place + 1) (place + 1) s
    else inSpan (place + c.utf8Size) s

/-- A name up to an equals sign or a span. -/
def inName (place : Nat) : List Char → Option Parts
  | [] => some {}
  | c :: s =>
    if c = '=' then some ⟨none, some (place + 1)⟩
    else if c = '[' then inSpan (place + 1) s
    else inName (place + c.utf8Size) s

/-- The parts of a directive, if it is one. -/
def parts? : List Char → Option Parts
  | [] => none
  | c :: s =>
    if c = '[' then inSpan 1 s
    else if c = '-' ∨ c = ':' ∨ c = '_' ∨ Text.isAlphanumeric c then inName c.utf8Size s
    else none

/-- A text from a place on. -/
def textFrom : Nat → List Char → List Char
  | _, [] => []
  | n, c :: s => if n = 0 then c :: s else textFrom (n - c.utf8Size) s

/-- A text up to a place. -/
def textUpTo : Nat → List Char → List Char
  | _, [] => []
  | n, c :: s => if n = 0 then [] else c :: textUpTo (n - c.utf8Size) s

/-! ## Levels -/

/-- The names of the levels. -/
def levelNames : List (List Char) :=
  ["error", "warn", "info", "debug", "trace", "off"].map String.toList

/-- A number without its plus sign. -/
def unsigned : List Char → List Char
  | '+' :: s => s
  | s => s

/-- Whether a text is a level: nothing, a name in any case, or a number from 0 to 5. -/
def isLevel (s : List Char) : Bool :=
  s = [] || levelNames.contains (s.map Char.toLower) ||
    ((Text.nat? (unsigned s)).any fun n => n ≤ 5)

/-! ## Fields -/

/-- Whether a text is an exponent with its mark, or nothing. -/
def isExponent : List Char → Bool
  | [] => true
  | c :: s =>
    let digits := if s.head? = some '-' then s.drop 1 else unsigned s
    (c = 'e' || c = 'E') && digits ≠ [] && digits.all Text.isAsciiDigit

/-- Whether a text is a number in decimals: digits with a point or none, and an exponent. -/
def isDecimal (s : List Char) : Bool :=
  let whole := s.takeWhile Text.isAsciiDigit
  let rest := s.dropWhile Text.isAsciiDigit
  let fraction := if rest.head? = some '.' then rest.drop 1 else []
  let digits := fraction.takeWhile Text.isAsciiDigit
  let rest := if rest.head? = some '.' then fraction.dropWhile Text.isAsciiDigit else rest
  (whole ≠ [] || digits ≠ []) && isExponent rest

/-- The names of numbers that have no digits. -/
def numberNames : List (List Char) := ["inf", "infinity", "nan"].map String.toList

/-- Whether a text is a number, with a sign or none. -/
def isNumber (s : List Char) : Bool :=
  let magnitude := if s.head? = some '-' then s.drop 1 else unsigned s
  isDecimal magnitude || numberNames.contains (magnitude.map Char.toLower)

/-- Whether a text is a field: a name, which may have a value after an equals sign. What follows a
second equals sign does not count. -/
def isField (s : List Char) : Bool :=
  match Text.pieces (· == '=') s with
  | _ :: value :: _ => isNumber value || Pattern.isValid value
  | _ => true

/-! ## Filters -/

/-- Whether a text is a directive. -/
def isDirective (s : List Char) : Bool :=
  match parts? (Text.trim s) with
  | none => false
  | some parts =>
    (parts.field.all fun (first, last) => isField (textUpTo (last - first) (textFrom first s))) &&
      parts.level.all fun first => isLevel (textFrom first s)

/-- Whether a text is a log filter; nothing is one, and so are empty directives. -/
def isValid (filter : String) : Bool :=
  ((Text.pieces (· == ',') filter.toList).filter (· ≠ [])).all isDirective

end Holdem.Filter
