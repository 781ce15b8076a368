import Holdem.Card
import Holdem.Json.Value

/-!
# Reading JSON

A `Reader α` takes a value of type `α` off the front of a text, or stops at the first `Fault`. Texts
are read from front to back by what is expected, and the first fault in text order counts: of type
and value as well as of JSON itself.

* A fault is that the text ends too early, that it is not JSON, or that it is JSON of the wrong
  type or value. Some of the last kind have a wording of their own. A reader does not say where a
  fault is; where that is known, it goes with the fault in a `Misread`.
* `nextItem` and `nextKey` walk through arrays and objects; `list` and `object` read whole ones.
* `skip` passes over a value that nobody wants, however deep it is.

A reader that meets the wrong type still reads a string, number or word to its end, as that may be
no JSON; it does not look into an array or object.
-/

namespace Holdem.Json

/-- Why a text was not read. -/
inductive Fault
  /-- The text ends too early. -/
  | truncated
  /-- The text is not JSON. -/
  | malformed
  /-- The text is JSON of the wrong type or value. -/
  | unsuitable
  | duplicatePlayer (player : String)
  | invalidCard (token : String)
  | missingField (field : String)
  | duplicateField (field : String)
  | unknownVariant (variant : String) (known : List String)
  deriving DecidableEq

/-- A name in the quotes of messages. -/
def ticked (name : String) : String := "`" ++ name ++ "`"

/-- The wording of a fault; the kinds without a wording of their own have a tag. -/
def Fault.message : Fault → String
  | truncated => "<eof>"
  | malformed => "<syntax>"
  | unsuitable => "<data>"
  | duplicatePlayer player => "duplicate player " ++ ticked player
  | invalidCard token => Card.refusal token
  | missingField field => "missing field " ++ ticked field
  | duplicateField field => "duplicate field " ++ ticked field
  | unknownVariant variant known =>
    let expected :=
      match known with
      | [a, b] => ticked a ++ " or " ++ ticked b
      | _ => "one of " ++ ", ".intercalate (known.map ticked)
    "unknown variant " ++ ticked variant ++ ", expected " ++ expected

/-- A fault with the line and the column at which reading stopped, or with line 0 if that is not
known. -/
structure Misread where
  fault : Fault
  line : Nat
  column : Nat
  deriving DecidableEq

/-- A fault of which it is not known where it is. -/
def Fault.unplaced (fault : Fault) : Misread := ⟨fault, 0, 0⟩

/-- The wording of a fault, and where it is. -/
def Misread.message (m : Misread) : String :=
  if m.line = 0 then m.fault.message
  else m.fault.message ++ " at line " ++ toString m.line ++ " column " ++ toString m.column

/-- Reads a value off the front of a text. -/
abbrev Reader (α : Type) := List Char → Except Fault (α × List Char)

/-- The blanks of JSON. -/
def isBlank (c : Char) : Bool := c == ' ' || c == '\n' || c == '\r' || c == '\t'

/-- A text without the blanks at its front. -/
def blanks (s : List Char) : List Char := s.dropWhile isBlank

/-! ## Words and strings -/

/-- The rest of a word whose first letter is read. -/
def word : List Char → List Char → Except Fault (List Char)
  | [], s => .ok s
  | _ :: _, [] => .error .truncated
  | w :: ws, c :: s => if w = c then word ws s else .error .malformed

/-- The value of a hexadecimal digit. -/
def hexValue? (c : Char) : Option Nat :=
  if '0' ≤ c ∧ c ≤ '9' then some (c.toNat - 48)
  else if 'a' ≤ c ∧ c ≤ 'f' then some (c.toNat - 87)
  else if 'A' ≤ c ∧ c ≤ 'F' then some (c.toNat - 55)
  else none

/-- Four hexadecimal digits. With fewer than four bytes left the text ends too early. -/
def hexFour : Reader Nat
  | a :: b :: c :: d :: s =>
    match hexValue? a, hexValue? b, hexValue? c, hexValue? d with
    | some a, some b, some c, some d => .ok (((a * 16 + b) * 16 + c) * 16 + d, s)
    | _, _, _, _ => .error .malformed
  | s =>
    if (String.ofList s).utf8ByteSize < 4 then .error .truncated else .error .malformed

/-- The second half of a pair of surrogates, given the first. -/
def lowSurrogate (high : Nat) : Reader Char
  | [] => .error .truncated
  | c :: s =>
    if c ≠ '\\' then .error .malformed
    else
      match s with
      | [] => .error .truncated
      | d :: s =>
        if d ≠ 'u' then .error .malformed
        else do
          let (low, s) ← hexFour s
          if 0xDC00 ≤ low ∧ low ≤ 0xDFFF then
            .ok (Char.ofNat ((high - 0xD800) * 1024 + (low - 0xDC00) + 0x10000), s)
          else .error .malformed

/-- A character by number; surrogates only come in pairs. -/
def numberedChar : Reader Char := fun s => do
  let (n, s) ← hexFour s
  if 0xDC00 ≤ n ∧ n ≤ 0xDFFF then .error .malformed
  else if 0xD800 ≤ n ∧ n ≤ 0xDBFF then lowSurrogate n s
  else .ok (Char.ofNat n, s)

/-- The character of a one-letter escape. -/
def shortEscape? (c : Char) : Option Char :=
  if c = '\x22' ∨ c = '\\' ∨ c = '/' then some c
  else if c = 'b' then some '\x08'
  else if c = 'f' then some '\x0c'
  else if c = 'n' then some '\n'
  else if c = 'r' then some '\r'
  else if c = 't' then some '\t'
  else none

/-- The character of an escape whose backslash is read. -/
def escaped : Reader Char
  | [] => .error .truncated
  | c :: s =>
    if c = 'u' then numberedChar s
    else
      match shortEscape? c with
      | some d => .ok (d, s)
      | none => .error .malformed

/-- The characters of a string up to its closing quote, after those in `done`, last first. -/
def stringFrom : Nat → List Char → Reader (List Char)
  | 0, _, _ => .error .truncated
  | _ + 1, _, [] => .error .truncated
  | fuel + 1, done, c :: s =>
    if c = '\x22' then .ok (done.reverse, s)
    else if c = '\\' then
      match escaped s with
      | .ok (d, s) => stringFrom fuel (d :: done) s
      | .error e => .error e
    else if c.toNat < 32 then .error .malformed
    else stringFrom fuel (c :: done) s

/-- A string whose opening quote is read. -/
def stringBody : Reader String := fun s => do
  let (chars, rest) ← stringFrom (s.length + 1) [] s
  .ok (String.ofList chars, rest)

/-! ## Numbers -/

/-- A number, as a whole number if it is written as one and fits 64 bits, with or without sign. -/
inductive Numeral
  | whole (n : Int)
  | real (x : Real)

/-- The greatest number of 64 bits without sign. -/
def mostSignificand : Nat := 18446744073709551615

/-- Whether a character is an ASCII digit. -/
def isDigit (c : Char) : Bool := (Text.digit? c).isSome

/-- A significand under construction. -/
structure Significand where
  value : Nat
  /-- The power of ten of its last digit. -/
  power : Int
  /-- Whether digits were left out for want of room. -/
  full : Bool

/-- A digit before the point. Once there is no room for one, the others only count. -/
def Significand.addWhole (s : Significand) (c : Char) : Significand :=
  let d := (Text.digit? c).getD 0
  if s.full || decide (mostSignificand < s.value * 10 + d) then
    { s with power := s.power + 1, full := true }
  else { s with value := s.value * 10 + d }

/-- A digit after the point. Once there is no room for one, the others are dropped. -/
def Significand.addPart (s : Significand) (c : Char) : Significand :=
  let d := (Text.digit? c).getD 0
  if s.full || decide (mostSignificand < s.value * 10 + d) then { s with full := true }
  else { s with value := s.value * 10 + d, power := s.power - 1 }

/-- The number of a significand, unless it is too great. -/
def Significand.finish (negative : Bool) (s : Significand) (rest : List Char) :
    Except Fault (Numeral × List Char) :=
  match Real.ofDecimal? negative s.value s.power with
  | some x => .ok (.real x, rest)
  | none => .error .malformed

/-- The digits at the front of a text, and what follows them. -/
def digitsOf (s : List Char) : List Char × List Char := (s.takeWhile isDigit, s.dropWhile isDigit)

/-- An exponent whose letter is read. -/
def exponentPart (negative : Bool) (sig : Significand) (s : List Char) :
    Except Fault (Numeral × List Char) :=
  let (minus, s) :=
    match s with
    | '+' :: s => (false, s)
    | '-' :: s => (true, s)
    | s => (false, s)
  let (digits, rest) := digitsOf s
  match Text.nat? digits with
  | none => .error (if s = [] then .truncated else .malformed)
  | some n =>
    let shift : Int := if minus then -n else n
    { sig with power := sig.power + shift }.finish negative rest

/-- What may follow the digits after the point. -/
def afterPart (negative : Bool) (sig : Significand) (s : List Char) :
    Except Fault (Numeral × List Char) :=
  match s with
  | 'e' :: s => exponentPart negative sig s
  | 'E' :: s => exponentPart negative sig s
  | s => sig.finish negative s

/-- The digits after the point. -/
def fractionPart (negative : Bool) (sig : Significand) (s : List Char) :
    Except Fault (Numeral × List Char) :=
  let (digits, rest) := digitsOf s
  if digits = [] then .error (if rest = [] then .truncated else .malformed)
  else afterPart negative (digits.foldl Significand.addPart { sig with full := false }) rest

/-- A number written without point and exponent. A negative zero is no whole number. -/
def wholeNumeral (negative : Bool) (sig : Significand) (rest : List Char) :
    Except Fault (Numeral × List Char) :=
  if sig.full then sig.finish negative rest
  else if negative then
    if 1 ≤ sig.value ∧ sig.value ≤ 9223372036854775808 then .ok (.whole (-(sig.value : Int)), rest)
    else sig.finish negative rest
  else .ok (.whole sig.value, rest)

/-- A number whose sign is read. -/
def numberBody (negative : Bool) (s : List Char) : Except Fault (Numeral × List Char) :=
  let (digits, rest) := digitsOf s
  if digits = [] then .error (if rest = [] then .truncated else .malformed)
  else if digits.head? = some '0' ∧ digits ≠ ['0'] then .error .malformed
  else
    let sig := digits.foldl Significand.addWhole ⟨0, 0, false⟩
    match rest with
    | '.' :: rest => fractionPart negative sig rest
    | 'e' :: rest => exponentPart negative sig rest
    | 'E' :: rest => exponentPart negative sig rest
    | rest => wholeNumeral negative sig rest

/-! ## Wrong types -/

/-- The fault of a value of a type that is not expected, at its first character. -/
def wrongType : List Char → Fault
  | [] => .truncated
  | c :: s =>
    let outcome {α : Type} (r : Except Fault α) : Fault :=
      match r with
      | .ok _ => .unsuitable
      | .error e => e
    if c = 'n' then outcome (word ['u', 'l', 'l'] s)
    else if c = 't' then outcome (word ['r', 'u', 'e'] s)
    else if c = 'f' then outcome (word ['a', 'l', 's', 'e'] s)
    else if c = '-' then outcome (numberBody true s)
    else if isDigit c then outcome (numberBody false (c :: s))
    else if c = '\x22' then outcome (stringBody s)
    else if c = '[' ∨ c = '\x7b' then .unsuitable
    else .malformed

/-! ## Scalars -/

/-- A string. -/
def string : Reader String := fun s =>
  match blanks s with
  | '\x22' :: s => stringBody s
  | s => .error (wrongType s)

/-- A whole number of 64 signed bits. -/
def integer : Reader Int := fun s =>
  let amount (r : Except Fault (Numeral × List Char)) : Except Fault (Int × List Char) :=
    match r with
    | .error e => .error e
    | .ok (.whole n, s) => if Chips.fits n then .ok (n, s) else .error .unsuitable
    | .ok (.real _, _) => .error .unsuitable
  match blanks s with
  | '-' :: s => amount (numberBody true s)
  | c :: s => if isDigit c then amount (numberBody false (c :: s)) else .error (wrongType (c :: s))
  | [] => .error .truncated

/-- The word `null`. -/
def nothing : Reader Unit := fun s =>
  match blanks s with
  | 'n' :: s => (word ['u', 'l', 'l'] s).map fun s => ((), s)
  | s => .error (wrongType s)

/-- A string that has a meaning. -/
def meaning {α : Type} (of : String → Except Fault α) : Reader α := fun s => do
  let (text, s) ← string s
  let a ← of text
  .ok (a, s)

/-! ## Arrays -/

/-- Goes to the next item of an array, the first if none is read yet; `false` at its end. -/
def nextItem (first : Bool) (s : List Char) : Except Fault (Bool × List Char) :=
  match blanks s with
  | [] => .error .truncated
  | c :: s =>
    if c = ']' then .ok (false, s)
    else if first then .ok (true, c :: s)
    else if c = ',' then
      match blanks s with
      | [] => .error .truncated
      | d :: s => if d = ']' then .error .malformed else .ok (true, d :: s)
    else .error .malformed

/-- The end of an array all of whose items are read. -/
def endItems (s : List Char) : Except Fault (List Char) :=
  match blanks s with
  | [] => .error .truncated
  | c :: s => if c = ']' then .ok s else .error .malformed

/-- The items of an array from the next one on. -/
def itemsFrom {α : Type} (item : Reader α) : Nat → Bool → Reader (List α)
  | 0, _, _ => .error .truncated
  | fuel + 1, first, s => do
    let (more, s) ← nextItem first s
    if more then
      let (a, s) ← item s
      let (l, s) ← itemsFrom item fuel false s
      .ok (a :: l, s)
    else .ok ([], s)

/-- The items of an array whose opening bracket is read. -/
def items {α : Type} (item : Reader α) : Reader (List α) := fun s =>
  itemsFrom item (s.length + 1) true s

/-- An array. -/
def list {α : Type} (item : Reader α) : Reader (List α) := fun s =>
  match blanks s with
  | '[' :: s => items item s
  | s => .error (wrongType s)

/-! ## Objects -/

/-- Goes to the next key of an object and reads it; `none` at its end. -/
def nextKey (first : Bool) (s : List Char) : Except Fault (Option String × List Char) :=
  let key (s : List Char) : Except Fault (Option String × List Char) := do
    let (k, s) ← stringBody s
    .ok (some k, s)
  match blanks s with
  | [] => .error .truncated
  | c :: s =>
    if c = '\x7d' then .ok (none, s)
    else if first then if c = '\x22' then key s else .error .malformed
    else if c = ',' then
      match blanks s with
      | [] => .error .truncated
      | d :: s => if d = '\x22' then key s else .error .malformed
    else .error .malformed

/-- The colon between a key and its value. -/
def colon (s : List Char) : Except Fault (List Char) :=
  match blanks s with
  | [] => .error .truncated
  | c :: s => if c = ':' then .ok s else .error .malformed

/-- The value of a key that is read. -/
def valueOf {α : Type} (value : Reader α) : Reader α := fun s => do value (← colon s)

/-- Reads the members of an object from the next one on. After a key, `step` reads the member and
changes what is built. -/
def membersFrom {β : Type} (step : β → String → Reader β) : Nat → Bool → β → Reader β
  | 0, _, _, _ => .error .truncated
  | fuel + 1, first, b, s => do
    match ← nextKey first s with
    | (none, s) => .ok (b, s)
    | (some key, s) => do
      let (b, s) ← step b key s
      membersFrom step fuel false b s

/-- The members of an object whose opening brace is read. -/
def members {β : Type} (step : β → String → Reader β) (b : β) : Reader β := fun s =>
  membersFrom step (s.length + 1) true b s

/-- An object. -/
def object {β : Type} (step : β → String → Reader β) (b : β) : Reader β := fun s =>
  match blanks s with
  | '\x7b' :: s => members step b s
  | s => .error (wrongType s)

/-! ## Passing over a value -/

/-- What comes next while a value is passed over. -/
inductive Expected
  | value
  | key
  /-- What follows a value. -/
  | tail

/-- A string, or a key, that nobody wants: its surrogates need no partner. -/
def skipString : Nat → List Char → Except Fault (List Char)
  | 0, _ => .error .truncated
  | _ + 1, [] => .error .truncated
  | fuel + 1, c :: s =>
    if c = '\x22' then .ok s
    else if c = '\\' then
      match s with
      | [] => .error .truncated
      | d :: s =>
        if d = 'u' then
          match hexFour s with
          | .ok (_, s) => skipString fuel s
          | .error e => .error e
        else if (shortEscape? d).isSome then skipString fuel s
        else .error .malformed
    else if c.toNat < 32 then .error .malformed
    else skipString fuel s

/-- An exponent that nobody wants, after its letter. -/
def skipExponent (s : List Char) : Except Fault (List Char) :=
  let s :=
    match s with
    | '+' :: s => s
    | '-' :: s => s
    | s => s
  let (digits, rest) := digitsOf s
  if digits = [] then .error .malformed else .ok rest

/-- A number that nobody wants, after its sign; it may be of any size. -/
def skipNumber (s : List Char) : Except Fault (List Char) :=
  let (digits, rest) := digitsOf s
  if digits = [] ∨ digits.head? = some '0' ∧ digits ≠ ['0'] then .error .malformed
  else
    match rest with
    | '.' :: rest =>
      let (digits, rest) := digitsOf rest
      if digits = [] then .error .malformed
      else
        match rest with
        | 'e' :: rest => skipExponent rest
        | 'E' :: rest => skipExponent rest
        | rest => .ok rest
    | 'e' :: rest => skipExponent rest
    | 'E' :: rest => skipExponent rest
    | rest => .ok rest

/-- Passes over what is left of a value inside some open brackets, innermost first; `true` stands
for an object. Every step reads something. -/
def skipFrom : Nat → Expected → List Bool → List Char → Except Fault (List Char)
  | 0, _, _, _ => .error .truncated
  | _ + 1, .tail, [], s => .ok s
  | fuel + 1, .tail, inner :: outer, s =>
    match blanks s with
    | [] => .error .truncated
    | c :: s =>
      if c = ',' then skipFrom fuel (if inner then .key else .value) (inner :: outer) s
      else if c = (if inner then '\x7d' else ']') then skipFrom fuel .tail outer s
      else .error .malformed
  | fuel + 1, .key, open', s =>
    match blanks s with
    | [] => .error .truncated
    | c :: s =>
      if c ≠ '\x22' then .error .malformed
      else
        match skipString (s.length + 1) s with
        | .error e => .error e
        | .ok s =>
          match colon s with
          | .error e => .error e
          | .ok s => skipFrom fuel .value open' s
  | fuel + 1, .value, open', s =>
    let go (r : Except Fault (List Char)) : Except Fault (List Char) :=
      match r with
      | .error e => .error e
      | .ok s => skipFrom fuel .tail open' s
    match blanks s with
    | [] => .error .truncated
    | c :: s =>
      if c = 'n' then go (word ['u', 'l', 'l'] s)
      else if c = 't' then go (word ['r', 'u', 'e'] s)
      else if c = 'f' then go (word ['a', 'l', 's', 'e'] s)
      else if c = '-' then go (skipNumber s)
      else if isDigit c then go (skipNumber (c :: s))
      else if c = '\x22' then go (skipString (s.length + 1) s)
      else if c = '[' then
        match blanks s with
        | [] => .error .truncated
        | d :: s' =>
          if d = ']' then skipFrom fuel .tail open' s'
          else skipFrom fuel .value (false :: open') (d :: s')
      else if c = '\x7b' then
        match blanks s with
        | [] => .error .truncated
        | d :: s' =>
          if d = '\x7d' then skipFrom fuel .tail open' s'
          else skipFrom fuel .key (true :: open') (d :: s')
      else .error .malformed

/-- Passes over a value. -/
def skip : Reader Unit := fun s => (skipFrom (s.length + 1) .value [] s).map fun s => ((), s)

/-! ## Any value -/

/-- A value, given how to read an array or object at its opening bracket. -/
def scalarOr (composite : Char → Reader Json) : Reader Json := fun s =>
  let numeral (r : Except Fault (Numeral × List Char)) : Except Fault (Json × List Char) :=
    match r with
    | .error e => .error e
    | .ok (.whole n, s) => .ok (.int n, s)
    | .ok (.real x, s) => .ok (.real x, s)
  match blanks s with
  | [] => .error .truncated
  | c :: s =>
    if c = 'n' then (word ['u', 'l', 'l'] s).map (Json.null, ·)
    else if c = 't' then (word ['r', 'u', 'e'] s).map (Json.bool true, ·)
    else if c = 'f' then (word ['a', 'l', 's', 'e'] s).map (Json.bool false, ·)
    else if c = '-' then numeral (numberBody true s)
    else if isDigit c then numeral (numberBody false (c :: s))
    else if c = '\x22' then (stringBody s).map fun (t, s) => (Json.str t, s)
    else composite c s

/-- A member of an object whose members are sorted; of those with one key the last counts. -/
def sortedMember (value : Reader Json) (l : List (String × Json)) (key : String) :
    Reader (List (String × Json)) := fun s =>
  (valueOf value s).map fun (v, s) => (insertMember key v l, s)

/-- A value with at most so many brackets around one another. -/
def value : Nat → Reader Json
  | 0 => scalarOr fun _ _ => .error .malformed
  | levels + 1 =>
    scalarOr fun c s =>
      if c = '[' then (items (value levels) s).map fun (l, s) => (Json.arr l, s)
      else if c = '\x7b' then
        (members (sortedMember (value levels)) [] s).map fun (l, s) => (Json.obj l, s)
      else .error .malformed

/-! ## Whole texts -/

/-- Reads a text that holds one value and nothing else. -/
def parse {α : Type} (reader : Reader α) (text : String) : Except Fault α := do
  let (a, s) ← reader text.toList
  if blanks s = [] then .ok a else .error .malformed

end Holdem.Json
