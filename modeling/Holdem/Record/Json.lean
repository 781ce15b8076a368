import Holdem.Record.Basic

/-!
# The JSON form of hands

How cards, actions, streets, hands (`HandInput`) and records (`HandRecord`) are written and read as
JSON. Fields are written in
the order of the record; `toJson` writes and `reader` reads.

An action is its name, or an object with a name and an amount: `"Fold"`, an object of `RaiseTo`. A
street is an object of `Betting` with a list of actions, or of `Board` with its kind and cards.
-/

namespace Holdem

open Json (Reader field need record variant)

/-! ## Cards -/

/-- The token of a card. -/
def Card.toJson (c : Card) : Json := .str c.text

/-- Reads the token of a card. -/
def Card.reader : Reader Card :=
  Json.meaning fun token =>
    match Card.ofText? token.toList with
    | some c => .ok c
    | none => .error (.invalidCard token)

/-- A list of cards. -/
def Card.listToJson (cards : List Card) : Json := .arr (cards.map Card.toJson)

/-! ## Sequences -/

namespace BoardKind

/-- The names of the board streets. -/
def names : List String := ["Flop", "Turn", "River"]

/-- The board street of a name. -/
def ofName (name : String) : Except Json.Fault BoardKind :=
  if name = "Flop" then .ok flop
  else if name = "Turn" then .ok turn
  else if name = "River" then .ok river
  else .error .unsuitable

/-- The name of a board street. -/
def toJson (kind : BoardKind) : Json := .str kind.text

/-- Reads the name of a board street. -/
def reader : Reader BoardKind :=
  variant names ofName fun name s => do
    let ((), s) ← Json.nothing s
    .ok (← ofName name, s)

end BoardKind

namespace Action

/-- The names of the actions. -/
def names : List String := ["Fold", "CheckOrCall", "RaiseTo", "AllIn"]

/-- The action of a name, if it has no amount. -/
def ofName (name : String) : Except Json.Fault Action :=
  if name = "Fold" then .ok fold
  else if name = "CheckOrCall" then .ok checkOrCall
  else if name = "AllIn" then .ok allIn
  else .error .unsuitable

/-- The name of an action, with the amount of a raise. -/
def toJson : Action → Json
  | fold => .str "Fold"
  | checkOrCall => .str "CheckOrCall"
  | raiseTo amount => .obj [("RaiseTo", .int amount)]
  | allIn => .str "AllIn"

/-- Reads an action. -/
def reader : Reader Action :=
  variant names ofName fun name s =>
    if name = "RaiseTo" then do
      let (amount, s) ← Json.integer s
      .ok (.raiseTo amount, s)
    else do
      let ((), s) ← Json.nothing s
      .ok (← ofName name, s)

end Action

namespace Street

/-- The names of the kinds of streets. -/
def names : List String := ["Betting", "Board"]

/-- A board street of which some fields are read. -/
structure BoardFields where
  kind : Option BoardKind := none
  cards : Option (List Card) := none

/-- The content of a board street. -/
def boardReader : Reader Street :=
  record
    [ field "kind" BoardKind.reader BoardFields.kind fun b v => { b with kind := some v },
      field "cards" (Json.list Card.reader) BoardFields.cards
        fun b v => { b with cards := some v } ]
    {} fun b => do .ok (.board (← need "kind" b.kind) (← need "cards" b.cards))

/-- The object of a street, by its kind. -/
def toJson : Street → Json
  | betting actions => .obj [("Betting", .arr (actions.map Action.toJson))]
  | board kind cards =>
    .obj [("Board", .obj [("kind", kind.toJson), ("cards", Card.listToJson cards)])]

/-- Reads a street. -/
def reader : Reader Street :=
  variant names (fun _ => .error .unsuitable) fun name s =>
    if name = "Betting" then do
      let (actions, s) ← Json.list Action.reader s
      .ok (.betting actions, s)
    else boardReader s

end Street

namespace ActionSequence

/-- The object of the streets of a hand. -/
def toJson (a : ActionSequence) : Json := .obj [("streets", .arr (a.streets.map Street.toJson))]

/-- Reads the streets of a hand, unchecked. -/
def reader : Reader ActionSequence :=
  record [field "streets" (Json.list Street.reader) id fun _ v => some v] none fun b => do
    .ok ⟨← need "streets" b⟩

end ActionSequence

/-! ## Tables -/

namespace TableConfig

/-- A configuration of which some fields are read. -/
structure Fields where
  ante : Option Int := none
  smallBlind : Option Int := none
  bigBlind : Option Int := none
  minBet : Option Int := none

/-- The object of a table configuration. -/
def toJson (c : TableConfig) : Json :=
  .obj [("ante", .int c.ante), ("small_blind", .int c.smallBlind), ("big_blind", .int c.bigBlind),
    ("min_bet", .int c.minBet)]

/-- Reads a table configuration. -/
def reader : Reader TableConfig :=
  record
    [ field "ante" Json.integer Fields.ante fun b v => { b with ante := some v },
      field "small_blind" Json.integer Fields.smallBlind fun b v => { b with smallBlind := some v },
      field "big_blind" Json.integer Fields.bigBlind fun b v => { b with bigBlind := some v },
      field "min_bet" Json.integer Fields.minBet fun b v => { b with minBet := some v } ]
    {} fun b => do
      .ok ⟨← need "ante" b.ante, ← need "small_blind" b.smallBlind, ← need "big_blind" b.bigBlind,
        ← need "min_bet" b.minBet⟩

end TableConfig

/-! ## Maps by player -/

/-- The object of some amounts. -/
def Stacks.toJson (m : PlayerMap Int) : Json := Json.ofPlayerMap .int m

/-- Reads amounts by player. -/
def Stacks.reader : Reader (PlayerMap Int) := Json.playerMap Json.integer

/-- The object of some cards. -/
def HoleCards.toJson (m : HoleCards) : Json := Json.ofPlayerMap Card.listToJson m

/-- Reads cards by player. -/
def HoleCards.reader : Reader HoleCards := Json.playerMap (Json.list Card.reader)

/-! ## Hands -/

namespace HandInput

/-- A hand of which some fields are read. -/
structure Fields where
  stackSettings : Option Stacks := none
  playerRoles : Option Roles := none
  holeCards : Option HoleCards := none
  actionSequence : Option String := none

/-- The object of a submitted hand. -/
def toJson (h : HandInput) : Json :=
  .obj [("stack_settings", Stacks.toJson h.stackSettings), ("player_roles", h.playerRoles.toJson),
    ("hole_cards", HoleCards.toJson h.holeCards), ("action_sequence", .str h.actionSequence)]

/-- Reads a submitted hand. -/
def reader : Reader HandInput :=
  record
    [ field "stack_settings" Stacks.reader Fields.stackSettings
        fun b v => { b with stackSettings := some v },
      field "player_roles" Roles.reader Fields.playerRoles
        fun b v => { b with playerRoles := some v },
      field "hole_cards" HoleCards.reader Fields.holeCards
        fun b v => { b with holeCards := some v },
      field "action_sequence" Json.string Fields.actionSequence
        fun b v => { b with actionSequence := some v } ]
    {} fun b => do
      .ok ⟨← need "stack_settings" b.stackSettings, ← need "player_roles" b.playerRoles,
        ← need "hole_cards" b.holeCards, ← need "action_sequence" b.actionSequence⟩

end HandInput

/-- The text of an identifier. -/
def Uuid.toJson (u : Uuid) : Json := .str u.text

/-- Reads an identifier in any of its spellings. -/
def Uuid.reader : Reader Uuid :=
  Json.meaning fun s =>
    match Uuid.ofText? s with
    | some u => .ok u
    | none => .error .unsuitable

/-- The text of an instant. -/
def Instant.toJson (t : Instant) : Json := .str t.text

/-- Reads an instant with any offset. -/
def Instant.reader : Reader Instant :=
  Json.meaning fun s =>
    match Instant.ofText? s with
    | some t => .ok t
    | none => .error .unsuitable

namespace HandRecord

/-- A record of which some fields are read. -/
structure Fields where
  id : Option Uuid := none
  createdAt : Option Instant := none
  stackSettings : Option Stacks := none
  playerRoles : Option Roles := none
  holeCards : Option HoleCards := none
  actionSequence : Option String := none
  winnings : Option Winnings := none

/-- The object of a record. -/
def toJson (r : HandRecord) : Json :=
  .obj [("id", r.id.toJson), ("created_at", r.createdAt.toJson),
    ("stack_settings", Stacks.toJson r.stackSettings), ("player_roles", r.playerRoles.toJson),
    ("hole_cards", HoleCards.toJson r.holeCards), ("action_sequence", .str r.actionSequence),
    ("winnings", Stacks.toJson r.winnings)]

/-- Reads a record. -/
def reader : Reader HandRecord :=
  record
    [ field "id" Uuid.reader Fields.id fun b v => { b with id := some v },
      field "created_at" Instant.reader Fields.createdAt fun b v => { b with createdAt := some v },
      field "stack_settings" Stacks.reader Fields.stackSettings
        fun b v => { b with stackSettings := some v },
      field "player_roles" Roles.reader Fields.playerRoles
        fun b v => { b with playerRoles := some v },
      field "hole_cards" HoleCards.reader Fields.holeCards
        fun b v => { b with holeCards := some v },
      field "action_sequence" Json.string Fields.actionSequence
        fun b v => { b with actionSequence := some v },
      field "winnings" Stacks.reader Fields.winnings fun b v => { b with winnings := some v } ]
    {} fun b => do
      .ok ⟨← need "id" b.id, ← need "created_at" b.createdAt,
        ← need "stack_settings" b.stackSettings, ← need "player_roles" b.playerRoles,
        ← need "hole_cards" b.holeCards, ← need "action_sequence" b.actionSequence,
        ← need "winnings" b.winnings⟩

/-- The object of a list of records. -/
def listToJson (hands : List HandRecord) : Json := .obj [("hands", .arr (hands.map toJson))]

/-- Reads a list of records. -/
def listReader : Reader (List HandRecord) :=
  record [field "hands" (Json.list reader) (fun hands => hands) fun _ v => some v] none
    fun hands => need "hands" hands

end HandRecord

end Holdem
