import Holdem.Chips
import Holdem.Text.Blank

/-!
# Instants

The field `created_at` of a record, with the texts that the library for dates reads and writes.

An `Instant` is a point in time as date and time of day in UTC, to the nanosecond. Second 60 is a
leap second.

* `Instant.text` is the RFC 3339 text with as many fraction digits as are needed: none, 3, 6 or 9.
* `Instant.ofText?` reads a date and a time with any offset. The separator is a `T` of either case
  or a space, white space may stand around the numbers, and a year may have a sign and any number
  of digits. `Instant.minus` takes the offset off.
-/

namespace Holdem

namespace Calendar

/-- Whether a year has a leap day. -/
def isLeap (year : Int) : Bool := year % 4 = 0 && (year % 100 ≠ 0 || year % 400 = 0)

/-- The number of days of a month. -/
def daysIn (year : Int) (month : Nat) : Nat :=
  if month = 2 then if isLeap year then 29 else 28
  else if month = 4 ∨ month = 6 ∨ month = 9 ∨ month = 11 then 30
  else 31

/-- The years that can be represented. -/
def firstYear : Int := -262143

/-- The last of them. -/
def lastYear : Int := 262142

end Calendar

open Calendar

/-- A day. -/
structure Date where
  year : Int
  month : Nat
  day : Nat
  deriving DecidableEq

namespace Date

/-- Whether a day exists. -/
def IsValid (d : Date) : Prop :=
  firstYear ≤ d.year ∧ d.year ≤ lastYear ∧ 1 ≤ d.month ∧ d.month ≤ 12 ∧ 1 ≤ d.day ∧
    d.day ≤ daysIn d.year d.month

instance (d : Date) : Decidable d.IsValid := by unfold IsValid; infer_instance

/-- The day after. -/
def next (d : Date) : Date :=
  if d.day < daysIn d.year d.month then { d with day := d.day + 1 }
  else if d.month < 12 then ⟨d.year, d.month + 1, 1⟩
  else ⟨d.year + 1, 1, 1⟩

/-- The day before. -/
def previous (d : Date) : Date :=
  if 1 < d.day then { d with day := d.day - 1 }
  else if 1 < d.month then ⟨d.year, d.month - 1, daysIn d.year (d.month - 1)⟩
  else ⟨d.year - 1, 12, 31⟩

end Date

/-- A time of day. -/
structure TimeOfDay where
  hour : Nat
  minute : Nat
  second : Nat
  nanosecond : Nat
  deriving DecidableEq

/-- Whether a time of day exists; any minute may have a second 60. -/
def TimeOfDay.IsValid (t : TimeOfDay) : Prop :=
  t.hour < 24 ∧ t.minute < 60 ∧ t.second ≤ 60 ∧ t.nanosecond < 1000000000

instance (t : TimeOfDay) : Decidable t.IsValid := by unfold TimeOfDay.IsValid; infer_instance

/-- A point in time, in UTC. -/
structure Instant where
  date : Date
  time : TimeOfDay
  date_valid : date.IsValid
  time_valid : time.IsValid
  deriving DecidableEq

namespace Instant

/-- The instant of a date and a time, if they exist. -/
def of? (date : Date) (time : TimeOfDay) : Option Instant :=
  if h : date.IsValid ∧ time.IsValid then some ⟨date, time, h.1, h.2⟩ else none

/-! ## Offsets -/

/-- The instant at which it is `date` and `time` at an offset of some minutes from UTC. -/
def minus (date : Date) (time : TimeOfDay) (offset : Int) : Option Instant :=
  let minutes : Int := (time.hour * 60 + time.minute : Nat) - offset
  let date' :=
    if minutes < 0 then date.previous else if 1440 ≤ minutes then date.next else date
  let minutes := (minutes % 1440).toNat
  if date.IsValid then of? date' { time with hour := minutes / 60, minute := minutes % 60 }
  else none

/-! ## Writing -/

/-- A year: four digits, or a sign and five digits at least. -/
def yearChars (year : Int) : List Char :=
  if 0 ≤ year ∧ year ≤ 9999 then Text.padded 4 year.toNat
  else (if year < 0 then '-' else '+') :: Text.padded 4 year.natAbs

/-- The fraction of a second, with its point. -/
def fractionChars (nanosecond : Nat) : List Char :=
  if nanosecond = 0 then []
  else if nanosecond % 1000000 = 0 then '.' :: Text.padded 3 (nanosecond / 1000000)
  else if nanosecond % 1000 = 0 then '.' :: Text.padded 6 (nanosecond / 1000)
  else '.' :: Text.padded 9 nanosecond

/-- The text up to whole seconds, without the mark of UTC. -/
def secondChars (t : Instant) : List Char :=
  yearChars t.date.year ++ '-' :: Text.padded 2 t.date.month ++ '-' :: Text.padded 2 t.date.day ++
    'T' :: Text.padded 2 t.time.hour ++ ':' :: Text.padded 2 t.time.minute ++
    ':' :: Text.padded 2 t.time.second

/-- The RFC 3339 text with the fewest fraction digits that lose nothing. -/
def text (t : Instant) : String :=
  String.ofList (t.secondChars ++ fractionChars t.time.nanosecond ++ ['Z'])

/-- The RFC 3339 text of the whole second. -/
def secondText (t : Instant) : String := String.ofList (t.secondChars ++ ['Z'])

/-! ## Reading -/

/-- What is read off the front of a text, and the rest. -/
abbrev Scan (α : Type) := List Char → Option (α × List Char)

/-- A number of at most `width` digits, one at least. -/
def number (width : Nat) : Scan Nat := fun s =>
  let digits := (s.take width).takeWhile fun c => (Text.digit? c).isSome
  (Text.nat? digits).map (·, s.drop digits.length)

/-- A number after white space. -/
def spaced (width : Nat) : Scan Nat := fun s => number width (Text.trimLeft s)

/-- A year: up to four digits, or a sign and any number of them. -/
def year : Scan Int := fun s =>
  match Text.trimLeft s with
  | '-' :: s => (number s.length s).map fun (n, s) => (-(n : Int), s)
  | '+' :: s => (number s.length s).map fun (n, s) => ((n : Int), s)
  | s => (number 4 s).map fun (n, s) => ((n : Int), s)

/-- A character after white space. -/
def mark (c : Char) (s : List Char) : Option (List Char) :=
  match Text.trimLeft s with
  | d :: s => if c = d then some s else none
  | [] => none

/-- The fraction of a second, if there is one; digits after the ninth are dropped. -/
def fraction : Scan Nat
  | '.' :: s =>
    (number 9 s).map fun (n, rest) =>
      (n * Nat.pow 10 (9 - (s.length - rest.length)),
        rest.dropWhile fun c => (Text.digit? c).isSome)
  | s => some (0, s)

/-- Two digits, the first of which is below `limit`. -/
def twoDigits (limit : Nat) : Scan Nat
  | a :: b :: s =>
    match Text.digit? a, Text.digit? b with
    | some a, some b => if a < limit then some (10 * a + b, s) else none
    | _, _ => none
  | _ => none

/-- An offset from UTC in minutes: `Z` or `UTC` of any case, or a sign, hours and minutes, which a
colon or white space may separate. -/
def offset : Scan Int := fun s =>
  let signed (negative : Bool) (s : List Char) : Option (Int × List Char) := do
    let (hours, s) ← twoDigits 10 s
    let (minutes, s) ← twoDigits 6 (s.dropWhile fun c => c == ':' || Text.isBlank c)
    let total : Int := (hours * 60 + minutes : Nat)
    some (if negative then -total else total, s)
  if ((s.take 3).map Char.toUpper) = ['U', 'T', 'C'] then some (0, s.drop 3)
  else
    match s with
    | 'Z' :: s => some (0, s)
    | 'z' :: s => some (0, s)
    | '+' :: s => signed false s
    | '-' :: s => signed true s
    | '\u2212' :: s => signed true s
    | _ => none

/-- The separator of date and time. -/
def separator : List Char → Option (List Char)
  | c :: s => if c = 'T' ∨ c = 't' ∨ c = ' ' then some s else none
  | [] => none

/-- Reads a date and time with an offset. Offsets stay below a day. -/
def ofText? (text : String) : Option Instant := do
  let (y, s) ← year text.toList
  let (mo, s) ← spaced 2 (← mark '-' s)
  let (d, s) ← spaced 2 (← mark '-' s)
  let (h, s) ← spaced 2 (← separator s)
  let (mi, s) ← spaced 2 (← mark ':' s)
  let (sec, s) ← spaced 2 (← mark ':' s)
  let (nano, s) ← fraction s
  let (off, s) ← offset (Text.trimLeft s)
  if Text.trimLeft s = [] ∧ off.natAbs < 1440 ∧ h < 24 ∧ mi < 60 then
    minus ⟨y, mo, d⟩ ⟨h, mi, sec, nano⟩ off
  else none

end Instant

end Holdem
