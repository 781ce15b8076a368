/-!
# Chip amounts

The amounts of the program (`Chips`) are integers of 64 signed bits. Here chips are integers without
bounds, of which those that enter from outside are amounts of that kind. That no amount of a hand
ever leaves their range is proved of the table, of which there is a form with bounded arithmetic.

* `Chips.fits` says that an amount is one of those, and `Chips.saturate` brings any amount to the
  nearest of them.
* `Chips.total` adds amounts up, without any bound.
* `Chips.ofText?` reads a decimal amount: an optional sign, then ASCII digits only, leading zeros
  allowed, and nothing that does not fit.
* `Chips.digits` is the decimal text of an amount.
-/

namespace Holdem

namespace Chips

/-- The least amount of 64 signed bits. -/
def least : Int := -9223372036854775808

/-- The greatest amount of 64 signed bits. -/
def most : Int := 9223372036854775807

/-- Whether an amount has 64 signed bits. -/
def fits (n : Int) : Bool := least ≤ n && n ≤ most

/-- An amount brought into a range, the lower bound winning over the upper one. -/
def clamp (low high n : Int) : Int := max low (min n high)

/-- The amount of 64 signed bits nearest to `n`. -/
def saturate (n : Int) : Int := clamp least most n

/-- The sum of some amounts. -/
def total : List Int → Int
  | [] => 0
  | n :: l => n + total l

theorem total_append (l l' : List Int) : total (l ++ l') = total l + total l' := by
  induction l with
  | nil => simp [total]
  | cons n l ih => simp only [List.cons_append, total, ih]; omega

end Chips

/-! ## Decimal text -/

namespace Text

/-- The value of an ASCII digit. -/
def digit? (c : Char) : Option Nat :=
  if '0' ≤ c ∧ c ≤ '9' then some (c.toNat - 48) else none

/-- The number written by a list of ASCII digits after `n`, if all of them are digits. -/
def appendDigits? (n : Nat) : List Char → Option Nat
  | [] => some n
  | c :: s => (digit? c).bind fun d => appendDigits? (10 * n + d) s

/-- A number written in ASCII digits, one at least. -/
def nat? : List Char → Option Nat
  | [] => none
  | s => appendDigits? 0 s

/-- An integer with an optional sign. -/
def int? : List Char → Option Int
  | '+' :: s => (nat? s).map Int.ofNat
  | '-' :: s => (nat? s).map fun n => -(n : Int)
  | s => (nat? s).map Int.ofNat

/-- The decimal digits of a number. -/
def natDigits (n : Nat) : List Char := Nat.toDigits 10 n

/-- The decimal text of an integer, with a sign if it is negative. -/
def intDigits (n : Int) : List Char :=
  if n < 0 then '-' :: natDigits n.natAbs else natDigits n.natAbs

/-- The decimal text of an integer with a sign always. -/
def signedDigits (n : Int) : List Char :=
  if n < 0 then intDigits n else '+' :: intDigits n

/-- A number in at least `width` digits, zeros in front. -/
def padded (width n : Nat) : List Char :=
  List.replicate (width - (natDigits n).length) '0' ++ natDigits n

end Text

namespace Chips

/-- Reads an amount of 64 signed bits. -/
def ofText? (s : List Char) : Option Int :=
  (Text.int? s).filter fits

/-- The decimal text of an amount. -/
def digits (n : Int) : String := String.ofList (Text.intDigits n)

end Chips

end Holdem
