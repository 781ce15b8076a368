import Holdem.Json.Reader

/-!
# Identifiers of 128 bits

A `Uuid` is 32 hexadecimal digits. It is written hyphenated, in groups of 8, 4, 4, 4 and 12 digits
in lower case (`Uuid.text`), and read (`Uuid.ofText?`) in either case as bare digits, hyphenated,
hyphenated in braces, or hyphenated after `urn:uuid:` in letters of either case. These are the texts
of the library for identifiers. Out of scope: how a new one is made.
-/

namespace Holdem

/-- An identifier: 32 hexadecimal digits, most significant first. -/
structure Uuid where
  digits : List (Fin 16)
  length_digits : digits.length = 32
  deriving DecidableEq

namespace Uuid

/-- The value of a hexadecimal digit of either case. -/
def digit? (c : Char) : Option (Fin 16) :=
  (Json.hexValue? c).map fun n => Fin.ofNat 16 n

/-- The values of some hexadecimal digits. -/
def digits? (s : List Char) : Option (List (Fin 16)) := s.mapM digit?

/-- The identifier of 32 digits. -/
def ofDigits? (digits : List (Fin 16)) : Option Uuid :=
  if h : digits.length = 32 then some ⟨digits, h⟩ else none

/-- The digits of a hyphenated text: hyphens stand at four places and nowhere else. -/
def dehyphenate? (s : List Char) : Option (List Char) :=
  let part (start length : Nat) := (s.drop start).take length
  if s.length = 36 ∧ [8, 13, 18, 23].all (fun i => s[i]? = some '-') then
    some (part 0 8 ++ part 9 4 ++ part 14 4 ++ part 19 4 ++ part 24 12)
  else none

/-- What stands in braces, or after the name of the scheme. -/
def unwrap (s : List Char) : List Char :=
  if s.length = 38 ∧ s.head? = some '\x7b' ∧ s.getLast? = some '\x7d' then (s.drop 1).dropLast
  else if s.length = 45 ∧ (s.take 9).map Char.toLower = "urn:uuid:".toList then s.drop 9
  else s

/-- Reads an identifier in one of its spellings. -/
def ofText? (text : String) : Option Uuid :=
  let s := text.toList
  let digits := if s.length = 32 then some s else dehyphenate? (unwrap s)
  (digits.bind digits?).bind ofDigits?

/-- Some digits in lower case. -/
def chars (l : List (Fin 16)) : List Char := l.map fun d => Json.hexDigit d.val

/-- The hyphenated text of an identifier. -/
def text (u : Uuid) : String :=
  let part (start length : Nat) := chars ((u.digits.drop start).take length)
  String.ofList (part 0 8 ++ '-' :: part 8 4 ++ '-' :: part 12 4 ++ '-' :: part 16 4 ++
    '-' :: part 20 12)

/-- The version of an identifier: its thirteenth digit. -/
def version (u : Uuid) : Nat := ((u.digits[12]?).map Fin.val).getD 0

/-- The digits of a number, so many of them, most significant first. -/
def digitsOf : Nat → Nat → List (Fin 16)
  | 0, _ => []
  | n + 1, x => digitsOf n (x / 16) ++ [Fin.ofNat 16 x]

theorem length_digitsOf (n x : Nat) : (digitsOf n x).length = n := by
  induction n generalizing x with
  | zero => rfl
  | succ n ih => simp [digitsOf, ih]

/-- An identifier of version 4 with the bits of a random number, of which six are not used. -/
def random (x : Nat) : Uuid :=
  ⟨((digitsOf 32 x).set 12 4).modify 16 fun d => Fin.ofNat 16 (8 + d.val % 4), by
    simp [length_digitsOf]⟩

end Uuid

end Holdem
