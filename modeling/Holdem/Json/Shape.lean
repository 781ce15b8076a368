import Holdem.Json.Reader
import Holdem.PlayerMap

/-!
# Records, variants and maps in JSON

What the derived readers of structures, enumerations and maps accept, and in which order they find
fault. The last, for players, is that of `PlayerMap`.

* `record` reads a record from an object, whose members may stand in any order and among others, or
  from an array of its fields in their order. A field that comes twice is a fault as soon as its
  key is read; a missing one is a fault at the end, the first in the order of fields.
* `variant` reads one of several variants: its name in a string, or an object with the name as its
  only key and the content as value.
* `playerMap` refuses a player that comes twice, after its value. In `sortedMap` the last value of
  a key counts.
-/

namespace Holdem.Json

/-! ## Records -/

/-- A field of a record of which `β` is the part read so far. -/
structure Field (β : Type) where
  name : String
  isRead : β → Bool
  read : β → Reader β

/-- A field whose value is put in place by `put`. -/
def field {β γ : Type} (name : String) (value : Reader γ) (get : β → Option γ)
    (put : β → γ → β) : Field β where
  name := name
  isRead b := (get b).isSome
  read b s := (value s).map fun (v, s) => (put b v, s)

/-- A field that has to be there. -/
def need {γ : Type} (name : String) : Option γ → Except Fault γ
  | some v => .ok v
  | none => .error (.missingField name)

/-- Reads the member of a key that is read. -/
def recordMember {β : Type} (fields : List (Field β)) (b : β) (key : String) : Reader β := fun s =>
  match fields.find? (·.name = key) with
  | some f => if f.isRead b then .error (.duplicateField key) else valueOf (f.read b) s
  | none => (valueOf skip s).map fun (_, s) => (b, s)

/-- Reads fields from the items of an array, in order. -/
def recordItems {β : Type} : List (Field β) → Bool → β → Reader β
  | [], _, b, s => (endItems s).map (b, ·)
  | f :: fields, first, b, s => do
    let (more, s) ← nextItem first s
    if more then
      let (b, s) ← f.read b s
      recordItems fields false b s
    else .error .unsuitable

/-- A record: its fields, the record of which none is read, and what is made of the fields. -/
def record {α β : Type} (fields : List (Field β)) (none : β) (finish : β → Except Fault α) :
    Reader α := fun s => do
  let (b, s) ←
    match blanks s with
    | '\x7b' :: s => members (recordMember fields) none s
    | '[' :: s => recordItems fields true none s
    | s => .error (wrongType s)
  .ok (← finish b, s)

/-- A value, or `null` for none. -/
def optional {α : Type} (value : Reader α) : Reader (Option α) := fun s =>
  match blanks s with
  | 'n' :: s => (word ['u', 'l', 'l'] s).map (none, ·)
  | s => (value s).map fun (v, s) => (some v, s)

/-! ## Variants -/

/-- The name of a variant, which has to be known. -/
def variantName (known : List String) : Reader String :=
  meaning fun name => if name ∈ known then .ok name else .error (.unknownVariant name known)

/-- One of several variants, with or without content. -/
def variant {α : Type} (known : List String) (bare : String → Except Fault α)
    (content : String → Reader α) : Reader α := fun s =>
  match blanks s with
  | '\x7b' :: s =>
    match blanks s with
    | '\x22' :: s => do
      let (name, s) ← variantName known ('\x22' :: s)
      let (a, s) ← valueOf (content name) s
      match blanks s with
      | '\x7d' :: s => .ok (a, s)
      | [] => .error .truncated
      | _ => .error .malformed
    | [] => .error .truncated
    | _ => .error .malformed
  | '\x22' :: s => do
    let (name, s) ← variantName known ('\x22' :: s)
    .ok (← bare name, s)
  | [] => .error .truncated
  | _ => .error .malformed

/-! ## Maps -/

/-- A member of a map keyed by player. -/
def playerMember {α : Type} (value : Reader α) (m : PlayerMap α) (player : String) :
    Reader (PlayerMap α) := fun s => do
  let (v, s) ← valueOf value s
  match m.insert? player v with
  | some m => .ok (m, s)
  | none => .error (.duplicatePlayer player)

/-- A map keyed by player. -/
def playerMap {α : Type} (value : Reader α) : Reader (PlayerMap α) :=
  object (playerMember value) .empty

/-- The object of a map keyed by player. -/
def ofPlayerMap {α : Type} (value : α → Json) (m : PlayerMap α) : Json :=
  .obj (m.entries.map fun (player, v) => (player, value v))

end Holdem.Json
