import Holdem.Table.Play

/-!
# Betting engines

Settlement plays a hand on a betting engine: something with a state that answers a fixed set of
calls. `Engine σ ν` is any such thing, with states of type `σ` and notes of type `ν`. Each call
answers a `Reply`: a result or a refusal, the state after it, also after a refusal, and notes.

`Table.engine` is the table as an engine. These are the trait `BettingEngine` and its implementation
for `NoLimitHoldem`; what an implementation logs on the way is its notes.
-/

namespace Holdem

/-- The answer of an engine to a call. -/
structure Reply (σ ν α : Type) where
  result : Except TableError α
  state : σ
  notes : List ν

/-- What settlement needs of a betting engine. -/
structure Engine (σ ν : Type) where
  /-- Seats one player per stack and posts the forced bets. -/
  create : TableConfig → List Int → σ → Reply σ ν Unit
  dealHole : Nat → Card → Card → σ → Reply σ ν Unit
  burn : σ → Reply σ ν Unit
  dealBoard : Card → σ → Reply σ ν Unit
  fold : σ → Reply σ ν Unit
  checkOrCall : σ → Reply σ ν Unit
  raiseTo : Int → σ → Reply σ ν Unit
  /-- The seat that has to act. -/
  actor : σ → Reply σ ν Nat
  /-- Chips behind, per seat; this is never refused. -/
  behind : σ → List Int × σ
  /-- Net results, per seat. -/
  payoffs : σ → Reply σ ν (List Int)

/-- The reply of a table to an operation that changes it. -/
def Table.reply (t : Table) : Except TableError (Noted Table) → Reply Table Note Unit
  | .ok (t', notes) => ⟨.ok (), t', notes⟩
  | .error e => ⟨.error e, t, []⟩

/-- The table as a betting engine, with the deck of a seed. -/
def Table.engine (seed : UInt64) : Engine Table Note where
  create config starts t := t.reply ((Table.create config starts seed).map (·, []))
  dealHole seat first second t := t.reply (t.dealHole seat first second)
  burn t := t.reply t.burn
  dealBoard c t := t.reply (t.dealBoard c)
  fold t := t.reply t.fold
  checkOrCall t := t.reply t.checkOrCall
  raiseTo amount t := t.reply (t.raiseTo amount)
  actor t := ⟨t.actor, t, []⟩
  behind t := (t.behind, t)
  payoffs t := ⟨t.payoffs, t, []⟩

end Holdem
