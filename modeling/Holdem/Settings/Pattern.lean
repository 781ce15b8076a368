import Holdem.Settings.Pattern.Brackets
import Holdem.Text.Alphanumeric

/-!
# Patterns

The values of fields in a log filter that are no numbers.

`Pattern.isValid` says whether a text is a regular expression that can be matched. One is made of
alternatives between bars, each a row of elements, sets and groups, of which any may be repeated.

* A group may have a name, which no other group has, or set modes; a group of modes alone sets them
  for what follows in the group around it.
* `?`, `*` and `+` repeat what stands before them, and a `?` after one of them makes it reluctant.
* A brace that opens is refused: it would have to be closed, and a closing brace ends the field in
  which a pattern stands.

Out of scope: which texts a pattern matches, and tables of Unicode properties, as they are left out
of the program.
-/

namespace Holdem.Pattern

/-! ## Groups -/

/-- Whether a text may be the name of a group. -/
def isGroupName : List Char → Bool
  | [] => false
  | c :: s =>
    (c = '_' || Text.isAlphabetic c) &&
      s.all fun d => ['_', '.', '[', ']'].contains d || Text.isAlphanumeric d

/-- The modes that are set up to a colon or a closing bracket, which is given too. -/
def modesFrom : List Char → Modes → List Char → Option (Modes × Char × List Char)
  | _, _, [] => none
  | seen, m, c :: s =>
    let on := !seen.contains '-'
    if c = ':' ∨ c = ')' then if seen.head? = some '-' then none else some (m, c, s)
    else if seen.contains c then none
    else
      match c with
      | 'u' => modesFrom (c :: seen) { m with unicode := on } s
      | 'i' => modesFrom (c :: seen) { m with anyCase := on } s
      | 'x' => modesFrom (c :: seen) { m with spaced := on } s
      | '-' | 'm' | 's' | 'U' | 'R' => modesFrom (c :: seen) m s
      | _ => none

/-- The start of a group. -/
inductive Opening
  /-- A group of modes alone. -/
  | modes (m : Modes)
  | group (m : Modes) (name : Option (List Char))
  deriving DecidableEq

/-- A group whose name follows. -/
def named? (m : Modes) (s : List Char) : Option (Opening × List Char) :=
  let name := s.takeWhile (· ≠ '>')
  match s.dropWhile (· ≠ '>') with
  | _ :: rest => if isGroupName name then some (.group m (some name), rest) else none
  | [] => none

/-- The start of a group whose opening bracket is read. -/
def opening? (m : Modes) (s : List Char) : Option (Opening × List Char) :=
  match m.skip s with
  | '?' :: 'P' :: '<' :: s => named? m s
  | '?' :: '<' :: s => named? m s
  | '?' :: s =>
    (modesFrom [] m s).bind fun (n, last, rest) =>
      if last = ':' then some (.group n none, rest)
      else if s.head? = some ')' then none
      else some (.modes n, rest)
  | s => some (.group m none, s)

/-! ## Rows and alternatives -/

/-- A group of which a part is read. -/
structure OpenGroup where
  /-- The greatest depth of the alternatives before the last bar. -/
  before : Option Nat := none
  row : Row := {}
  /-- The depth of what a repetition would repeat. -/
  last : Option Nat := none
  deriving DecidableEq

namespace OpenGroup

/-- A group with one more construct in its row. -/
def add (g : OpenGroup) (depth : Nat) : OpenGroup :=
  { g with row := g.row.add depth, last := some depth }

/-- A group with modes in its row. -/
def addModes (g : OpenGroup) : OpenGroup := { g with row := g.row.add 0, last := none }

/-- A group whose last construct is repeated. -/
def repeat? (g : OpenGroup) : Option OpenGroup :=
  g.last.map fun d =>
    { g with row := ⟨g.row.length, max g.row.deepest (d + 1)⟩, last := some (d + 1) }

/-- The depth of the row, and of the alternatives before it. -/
def rows (g : OpenGroup) : Nat := max (g.before.getD 0) g.row.depth

/-- A group after a bar. -/
def bar (g : OpenGroup) : OpenGroup := ⟨some g.rows, {}, none⟩

/-- The depth of a group's content. -/
def depth (g : OpenGroup) : Nat := if g.before.isSome then g.rows + 1 else g.rows

end OpenGroup

/-! ## Patterns -/

/-- How far a pattern is read. -/
structure State where
  modes : Modes := {}
  names : List (List Char) := []
  group : OpenGroup := {}
  /-- The groups around the present one, with the modes that hold in them. -/
  outer : List (Modes × OpenGroup) := []
  deriving DecidableEq

namespace State

/-- A state with one more construct in the present row. -/
def add (t : State) (depth : Nat) : State := { t with group := t.group.add depth }

/-- Starts a group, or sets modes. -/
def opens? (t : State) : Opening → Option State
  | .modes m => some { t with modes := m, group := t.group.addModes }
  | .group m name =>
    if name.any t.names.contains then none
    else some ⟨m, name.toList ++ t.names, {}, (t.modes, t.group) :: t.outer⟩

/-- Ends a group. -/
def close? (t : State) : Option State :=
  match t.outer with
  | [] => none
  | (m, g) :: outer => some ⟨m, t.names, g.add (t.group.depth + 1), outer⟩

end State

/-- Whether the rest of a text completes a pattern. -/
def readFrom : Nat → State → List Char → Bool
  | 0, _, _ => false
  | fuel + 1, t, s =>
    let m := t.modes
    match m.skip s with
    | [] => decide (t.outer = [] ∧ t.group.depth ≤ maxDepth)
    | c :: s =>
      if c = '(' then
        match opening? m s with
        | none => false
        | some (o, s) => (t.opens? o).any fun t => readFrom fuel t s
      else if c = ')' then t.close?.any fun t => readFrom fuel t s
      else if c = '|' then readFrom fuel { t with group := t.group.bar } s
      else if c = '[' then (set? m s).any fun (depth, s) => readFrom fuel (t.add (depth + 1)) s
      else if c = '?' ∨ c = '*' ∨ c = '+' then
        let rest := if s.head? = some '?' then s.drop 1 else s
        t.group.repeat?.any fun g => readFrom fuel { t with group := g } rest
      else if c = '\x7b' then false
      else
        (element? m (c :: s)).any fun (e, s) => m.allows e && readFrom fuel (t.add 0) s

/-- Whether a text is a regular expression that can be matched. -/
def isValid (s : List Char) : Bool := readFrom (s.length + 1) {} s

end Holdem.Pattern
