import Holdem.Settlement.Engine

/-!
# A scripted engine

An engine that judges nothing and writes down every call, for looking at the calls of a settlement
(`ScriptedEngine`).
Its `Script` may name a call that is refused, and what `behind` and `payoffs` answer. The actor
moves to the next seat after every action that is not refused.
-/

namespace Holdem

/-- What a scripted engine answers. -/
structure Script where
  /-- The number of the call that is refused. -/
  failAt : Option Nat := none
  behind : Option (List Int) := none
  payoffs : Option (List Int) := none

namespace Script

/-- The state of a scripted engine. -/
structure State where
  start : List Int := []
  actor : Nat := 0
  calls : List String := []

/-- Writes a call down, and refuses it if the script says so. -/
def reply {α : Type} (script : Script) (s : State) (text : String) (answer : α)
    (after : State → State) : Reply State Empty α :=
  let logged := { s with calls := s.calls ++ [text] }
  if script.failAt = some s.calls.length then ⟨.error .deckExhausted, logged, []⟩
  else ⟨.ok answer, after logged, []⟩

/-- An action of the actor, after which the next seat acts. -/
def action (script : Script) (s : State) (text : String) : Reply State Empty Unit :=
  script.reply s text () fun s => { s with actor := (s.actor + 1) % s.start.length }

/-- A list of amounts in brackets. -/
def amounts (l : List Int) : String := "[" ++ ", ".intercalate (l.map Chips.digits) ++ "]"

/-- The payoffs of a script that names none: the first seat wins five chips of every other. -/
def defaultPayoffs (seats : Nat) : List Int :=
  (List.range seats).map fun seat => if seat = 0 then 5 * ((seats : Int) - 1) else -5

/-- The engine of a script. -/
def engine (script : Script) : Engine State Empty where
  create config starts s :=
    let words := ["create", Chips.digits config.ante, Chips.digits config.smallBlind,
      Chips.digits config.bigBlind, Chips.digits config.minBet, amounts starts]
    script.reply s (" ".intercalate words) () fun s => { s with start := starts }
  dealHole seat first second s :=
    script.reply s ("hole " ++ toString seat ++ " " ++ first.text ++ second.text) () id
  burn s := script.reply s "burn" () id
  dealBoard c s := script.reply s ("board " ++ c.text) () id
  fold s := script.action s ("fold " ++ toString s.actor)
  checkOrCall s := script.action s ("call " ++ toString s.actor)
  raiseTo amount s :=
    script.action s ("raise " ++ toString s.actor ++ " " ++ Chips.digits amount)
  actor s := script.reply s "actor" s.actor id
  behind s := (script.behind.getD s.start, s)
  payoffs s := script.reply s "payoffs" (script.payoffs.getD (defaultPayoffs s.start.length)) id

end Script

end Holdem
