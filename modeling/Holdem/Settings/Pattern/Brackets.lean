import Holdem.Settings.Pattern.Element

/-!
# Sets in brackets

A set of characters is written in brackets, with a caret first if it is the complement. Its members
are characters, ranges, classes such as `\d` or `[:alpha:]`, and further sets in brackets; two sets
may be combined by `&&`, `--` or `~~`.

* Hyphens at the start of a set are members, and so is a closing bracket that comes first.
* With Unicode off, a complement would have members beyond ASCII and is refused.
-/

namespace Holdem.Pattern

/-! ## Members -/

/-- The names of the classes of ASCII. -/
def classNames : List (List Char) :=
  ["alnum", "alpha", "ascii", "blank", "cntrl", "digit", "graph", "lower", "print", "punct",
    "space", "upper", "word", "xdigit"].map String.toList

/-- Whether a class of ASCII is negated, if one is named after the opening bracket. -/
def namedClass? : List Char → Option (Bool × List Char)
  | ':' :: s =>
    let negated := s.head? = some '^'
    let s := if negated then s.drop 1 else s
    match s.dropWhile (· ≠ ':') with
    | ':' :: ']' :: rest =>
      if classNames.contains (s.takeWhile (· ≠ ':')) then some (negated, rest) else none
    | _ => none
  | _ => none

/-- The character at the front of a text, or the class of an escape. -/
def member? (m : Modes) : List Char → Option (Element × List Char)
  | [] => none
  | '\\' :: s => escape? m s
  | c :: s => some (.character c false, s)

/-- Whether an element may be a member of a set. -/
def isMember (m : Modes) : Element → Bool
  | .character c _ => m.allowsMember c
  | .kind negated => m.allows (.kind negated)
  | _ => false

/-- The first character of a text that is not passed over, with the sign of a comment if need be. -/
def following? (m : Modes) (s : List Char) : Option Char :=
  if m.spaced then
    match s.dropWhile Text.isBlank with
    | '#' :: s => (s.dropWhile Text.isBlank).head?
    | s => s.head?
  else s.head?

/-- Whether two elements are the ends of a range. -/
def isRange (m : Modes) : Element → Element → Bool
  | .character c _, .character d _ => c ≤ d && m.allowsMember c && m.allowsMember d
  | _, _ => false

/-- What follows a member or a range. -/
def memberOrRange? (m : Modes) (s : List Char) : Option (List Char) := do
  let (first, s) ← member? m s
  let alone := if isMember m first then some s else none
  match m.skip s with
  | '-' :: rest =>
    if following? m rest = some ']' ∨ following? m rest = some '-' then alone
    else do
      let (last, s) ← member? m (m.skip rest)
      if isRange m first last then some s else none
  | _ => alone

/-! ## Sets -/

/-- A set of which a part is read. -/
structure OpenSet where
  /-- The depth of the set on the left of the last operator. -/
  left : Option Nat := none
  members : Row := {}
  /-- Only hyphens are read so far. -/
  atStart : Bool := true
  deriving DecidableEq

namespace OpenSet

/-- A set with one more member. -/
def add (o : OpenSet) (depth : Nat) : OpenSet := { o with members := o.members.add depth }

/-- The depth of a set. -/
def depth (o : OpenSet) : Nat :=
  match o.left with
  | none => o.members.depth
  | some d => max d o.members.depth + 1

/-- A set whose members read so far are the left side of an operator. -/
def operator (o : OpenSet) : OpenSet := ⟨some o.depth, {}, false⟩

end OpenSet

/-- What follows an opening bracket and its caret, if that can be matched. -/
def opened? (m : Modes) (s : List Char) : Option (List Char) :=
  match m.skip s with
  | '^' :: s => if m.unicode then some s else none
  | s => some s

/-- The depth of a set within others, and what follows the outermost. -/
def setFrom (m : Modes) : Nat → List OpenSet → OpenSet → List Char → Option (Nat × List Char)
  | 0, _, _, _ => none
  | fuel + 1, outer, o, s =>
    match m.skip s with
    | [] => none
    | c :: s =>
      if o.atStart ∧ (c = '-' ∨ c = ']' ∧ o.members.length = 0) then
        if m.allowsMember c then setFrom m fuel outer { o.add 0 with atStart := c = '-' } s
        else none
      else
        let o := { o with atStart := false }
        if c = '[' then
          match namedClass? s with
          | some (negated, s) =>
            let allowed := if m.unicode then !m.anyCase else !negated
            if allowed then setFrom m fuel outer (o.add 0) s else none
          | none => (opened? m s).bind fun s => setFrom m fuel (o :: outer) {} s
        else if c = ']' then
          match outer with
          | [] => some (o.depth, s)
          | p :: outer => setFrom m fuel outer (p.add (o.depth + 1)) s
        else if (c = '&' ∨ c = '-' ∨ c = '~') ∧ s.head? = some c then
          setFrom m fuel outer o.operator (s.drop 1)
        else (memberOrRange? m (c :: s)).bind fun s => setFrom m fuel outer (o.add 0) s

/-- The depth of a set whose opening bracket is read, and what follows it. -/
def set? (m : Modes) (s : List Char) : Option (Nat × List Char) :=
  (opened? m s).bind fun rest => setFrom m (s.length + 1) [] {} rest

end Holdem.Pattern
