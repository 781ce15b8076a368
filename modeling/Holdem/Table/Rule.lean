import Holdem.Sequence.Basic
import Holdem.Table.Error

/-!
# What a seat may do

`BettingView` is what the acting seat sees when it decides, and `BettingView.decide` says what its
action comes to, or why it may not be done (`validate_action`, `validate_raise`, `ValidatedAction`).
A raise is full when it reaches the highest bet plus the least increment; an all-in that falls short
of that is allowed and is no full raise.
-/

namespace Holdem

/-- What the acting seat sees. -/
structure BettingView where
  seat : Nat
  /-- Chips the seat put in on this street. -/
  bet : Int
  /-- Chips the seat has behind. -/
  stack : Int
  /-- The highest bet on this street. -/
  maxBet : Int
  /-- The least increment of a full raise. -/
  minIncrement : Int
  /-- Whether another live seat has chips to answer a raise. -/
  othersCanRespond : Bool
  /-- Whether the betting is open to the seat. -/
  mayRaise : Bool
  deriving DecidableEq

/-- What an action comes to. -/
inductive Decision
  | fold
  | check
  | call (amount : Int)
  | raise (amount : Int) (full : Bool)
  deriving DecidableEq

namespace BettingView

/-- The chips that a call moves. -/
def toCall (v : BettingView) : Int := Chips.clamp 0 v.stack (v.maxBet - v.bet)

/-- All that the seat could have in on this street. -/
def available (v : BettingView) : Int := v.bet + v.stack

/-- The least full raise. -/
def minimum (v : BettingView) : Int := Chips.saturate (v.maxBet + v.minIncrement)

/-- A raise to `amount`. -/
def raiseTo (v : BettingView) (amount : Int) : Except TableError Decision :=
  if v.othersCanRespond = false then .error (.noOneToRaise v.seat)
  else if v.mayRaise = false then .error (.raiseNotReopened v.seat)
  else if v.available < amount then .error (.insufficientChips v.seat amount v.available)
  else if amount ≤ v.maxBet ∨ amount < v.minimum ∧ amount ≠ v.available then
    .error (.raiseTooSmall amount v.minimum)
  else .ok (.raise amount (decide (v.minimum ≤ amount)))

/-- What an action comes to; a seat that owes nothing may not fold. -/
def decide (v : BettingView) : Action → Except TableError Decision
  | .fold => if v.maxBet ≤ v.bet then .error (.needlessFold v.seat) else .ok .fold
  | .checkOrCall => .ok (if v.toCall = 0 then .check else .call v.toCall)
  | .raiseTo amount => v.raiseTo amount
  | .allIn => v.raiseTo v.available

end BettingView

end Holdem
