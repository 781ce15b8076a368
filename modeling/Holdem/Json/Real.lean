import Holdem.Chips

/-!
# Binary floating-point numbers and their shortest text

The numbers with a point or an exponent in the field `details` of a record, which are read and
written back.

A `Real` is a finite number of 64-bit binary floating point: `mantissa * 2 ^ exponent` with a sign.

* `roundRatio` rounds a positive ratio to the nearest such number, a tie to the even mantissa.
* `ofDecimal?` is the number of a significand and a power of ten. It rounds the significand, and
  then scales it by rounded powers of ten, so the last bit may differ from the nearest number.
* `Real.chars` writes the fewest digits that read back to the number, and of those the nearest to
  it, a tie to the even digit. The point is written out for magnitudes from `1e-5` below `1e16`;
  others have an exponent with its sign.
-/

namespace Holdem.Json

/-- A finite binary floating-point number. -/
structure Real where
  negative : Bool
  mantissa : Nat
  exponent : Int
  deriving DecidableEq

namespace Real

/-! ## Rounding -/

/-- The number of mantissas. -/
def mantissaEnd : Nat := 9007199254740992

/-- The exponent of the least positive number. -/
def leastExponent : Int := -1074

/-- A ratio divided by a power of two, as a ratio. -/
def scaleDown (num den : Nat) (e : Int) : Nat × Nat :=
  if 0 ≤ e then (num, den * Nat.pow 2 e.toNat) else (num * Nat.pow 2 (-e).toNat, den)

/-- The quotient rounded to the nearest number, a tie to the even one. -/
def roundDiv (num den : Nat) : Nat :=
  let q := num / den
  let r := num % den
  if den < 2 * r ∨ 2 * r = den ∧ q % 2 = 1 then q + 1 else q

/-- The exponent for which the mantissa of a ratio has 53 bits, or the least one. -/
def exponentFor (num den : Nat) : Int :=
  let e : Int := (num.log2 : Int) - (den.log2 : Int) - 52
  let (n, d) := scaleDown num den e
  let e := if 2 * (n / d) < mantissaEnd then e - 1 else e
  max leastExponent e

/-- Mantissa and exponent nearest to a ratio. -/
def roundRatio (num den : Nat) : Nat × Int :=
  if num = 0 then (0, leastExponent)
  else
    let e := exponentFor num den
    let (n, d) := scaleDown num den e
    let m := roundDiv n d
    if m = mantissaEnd then (m / 2, e + 1) else (m, e)

/-- Whether a mantissa and an exponent are beyond the greatest number. -/
def isHuge (x : Nat × Int) : Bool := decide (971 < x.2)

/-- The ratio of a mantissa and an exponent. -/
def ratio (x : Nat × Int) : Nat × Nat :=
  if 0 ≤ x.2 then (x.1 * Nat.pow 2 x.2.toNat, 1) else (x.1, Nat.pow 2 (-x.2).toNat)

/-- The rounded power of ten. -/
def tenPower (k : Nat) : Nat × Int := roundRatio (Nat.pow 10 k) 1

/-- The rounded product. -/
def times (x y : Nat × Int) : Nat × Int :=
  let (a, b) := ratio x
  let (c, d) := ratio y
  roundRatio (a * c) (b * d)

/-- The rounded quotient. -/
def quotient (x y : Nat × Int) : Nat × Int :=
  let (a, b) := ratio x
  let (c, d) := ratio y
  roundRatio (a * d) (b * c)

/-- Scales by a power of ten, in steps of at most 308; `none` if the result is too great. -/
def scale? : Nat → Nat × Int → Int → Option (Nat × Int)
  | 0, _, _ => some (0, leastExponent)
  | fuel + 1, x, k =>
    if k.natAbs ≤ 308 then
      if 0 ≤ k then
        let y := times x (tenPower k.toNat)
        if isHuge y then none else some y
      else some (quotient x (tenPower k.natAbs))
    else if x.1 = 0 then some x
    else if 0 ≤ k then none
    else scale? fuel (quotient x (tenPower 308)) (k + 308)

/-- The number of a significand and a power of ten, unless it is too great. -/
def ofDecimal? (negative : Bool) (significand : Nat) (k : Int) : Option Real :=
  (scale? 8 (roundRatio significand 1) k).map fun (m, e) => ⟨negative, m, e⟩

/-! ## Text -/

/-- The ratio divided by a power of ten, as a ratio. -/
def scaleTen (x : Nat × Nat) (k : Int) : Nat × Nat :=
  if 0 ≤ k then (x.1, x.2 * Nat.pow 10 k.toNat) else (x.1 * Nat.pow 10 (-k).toNat, x.2)

/-- The place of the first digit of a positive ratio below one, counted from `k`. -/
def placeBelow : Nat → Nat × Nat → Nat → Nat
  | 0, _, k => k
  | fuel + 1, x, k =>
    if x.2 ≤ x.1 * Nat.pow 10 k then k else placeBelow fuel x (k + 1)

/-- The power of ten of the first digit of a positive ratio. -/
def place (x : Nat × Nat) : Int :=
  if x.2 ≤ x.1 then ((Text.natDigits (x.1 / x.2)).length : Int) - 1
  else -(placeBelow 400 x 1 : Int)

/-- The decimal of `n` digits that reads back to the number; of two that do the nearer one, and of
two equally near the even one. -/
def decimalOf? (m : Nat) (e : Int) (n : Nat) : Option (Nat × Int) :=
  let x := ratio (m, e)
  let k := place x - (n : Int) + 1
  let (a, b) := scaleTen x k
  let low := a / b
  let near := roundDiv a b
  let readsBack := fun d => roundRatio (scaleTen (d, 1) (-k)).1 (scaleTen (d, 1) (-k)).2 = (m, e)
  if readsBack near then some (near, k)
  else if readsBack low then some (low, k)
  else if readsBack (low + 1) then some (low + 1, k)
  else none

/-- The shortest decimal that reads back to the number. -/
def shortest (m : Nat) (e : Int) : Nat × Int :=
  ((List.range 17).findSome? fun n => decimalOf? m e (n + 1)).getD (m, e)

/-- Digits without the zeros at their end, and how many those were. -/
def stripZeros (digits : List Char) : List Char × Nat :=
  let kept := (digits.reverse.dropWhile (· == '0')).reverse
  (kept, digits.length - kept.length)

/-- An exponent with its sign. -/
def signedExponent (e : Int) : List Char :=
  if 0 ≤ e then '+' :: Text.intDigits e else Text.intDigits e

/-- The text of `digits * 10 ^ k`. -/
def layOut (digits : List Char) (k : Int) : List Char :=
  let n : Int := digits.length + k
  if 0 ≤ k ∧ n ≤ 16 then digits ++ List.replicate k.toNat '0' ++ ['.', '0']
  else if 0 < n ∧ n ≤ 16 then digits.take n.toNat ++ '.' :: digits.drop n.toNat
  else if -5 < n ∧ n ≤ 0 then '0' :: '.' :: (List.replicate (-n).toNat '0' ++ digits)
  else
    let first := digits.take 1
    let rest := digits.drop 1
    let mark := 'e' :: signedExponent (n - 1)
    if rest = [] then first ++ mark else first ++ '.' :: rest ++ mark

/-- The shortest text of a number. -/
def chars (x : Real) : List Char :=
  let magnitude :=
    if x.mantissa = 0 then ['0', '.', '0']
    else
      let (d, k) := shortest x.mantissa x.exponent
      let (digits, zeros) := stripZeros (Text.natDigits d)
      layOut digits (k + zeros)
  if x.negative then '-' :: magnitude else magnitude

end Real

end Holdem.Json
