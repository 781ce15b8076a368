import Holdem.Table.Basic

/-!
# Playing a hand

The operations of a table (`deal_hole`, `burn_card`, `deal_board`, `fold`, `check_or_call`,
`raise_to`, `actor_index`, `payoffs`), of which the actions go through `apply`. Each answers the
table after it, with its notes, or the cause for which it was refused; a refusal leaves nothing
changed, as there is no table in it.

Hole cards come first, seat by seat in any order. Then streets of betting (`act`) alternate with a
burn card and board cards, until one seat is left or the river has been bet.
-/

namespace Holdem.Table

/-- Refuses an operation outside its phase. -/
def wrongPhase {α : Type} (t : Table) (operation : Operation) : Except TableError α :=
  .error (.wrongPhase operation.text t.phase.name.text)

/-! ## Cards -/

/-- Takes a named card out of the deck; one that is not there is dealt all the same. -/
def takeCard (t : Table) (c : Card) : Noted Table :=
  let taken := t.deck.take c
  ({ t with deck := taken.2 }, if taken.1 then [] else [.reusedCard c])

/-- Whether every seat holds cards. -/
def allDealt (t : Table) : Bool := t.seats.all (·.hole.isSome)

/-- Deals two hole cards to a seat. Betting opens when every seat has some. -/
def dealHole (t : Table) (seat : Nat) (first second : Card) : Except TableError (Noted Table) :=
  if t.phase = .dealing then
    match t.seats[seat]? with
    | none => .error (.noSuchSeat seat)
    | some s =>
      match s.giveCards? (first, second) with
      | none => .error (.holeCardsAlreadyDealt seat)
      | some s' =>
        let (t, notes) := t.takeCard first
        let (t, notes') := t.takeCard second
        let t := { t with seats := t.seats.set seat s' }
        if t.allDealt then
          let (t, opened) := t.openBetting
          .ok (t, notes ++ notes' ++ opened)
        else .ok (t, notes ++ notes')
  else t.wrongPhase .dealHole

/-- Burns the next card of the deck. -/
def burn (t : Table) : Except TableError (Noted Table) :=
  if t.phase = .burning then
    match t.deck.draw with
    | none => .error .deckExhausted
    | some (_, deck) =>
      .ok ({ t with deck, phase := .revealing (boardCount (t.street + 1)) }, [])
  else t.wrongPhase .burn

/-- Deals a board card. The betting of the next street opens after the last one. -/
def dealBoard (t : Table) (c : Card) : Except TableError (Noted Table) :=
  match t.phase with
  | .revealing remaining =>
    let (t, notes) := t.takeCard c
    let t := { t with board := t.board ++ [c] }
    if 1 < remaining then .ok ({ t with phase := .revealing (remaining - 1) }, notes)
    else
      let (t, opened) := { t with street := t.street + 1 }.openBetting
      .ok (t, notes ++ opened)
  | _ => t.wrongPhase .dealBoard

/-! ## Actions -/

/-- The seat that has to act. -/
def actor (t : Table) : Except TableError Nat :=
  match t.actor? with
  | some seat => .ok seat
  | none => .error .noActor

/-- What a seat sees when it has to act. -/
def viewOf (t : Table) (seat : Nat) (s : Seat) : BettingView where
  seat := seat
  bet := s.bet
  stack := s.stack
  maxBet := t.maxBet
  minIncrement := t.minIncrement
  othersCanRespond := (List.range t.seats.length).any fun i => i != seat && t.canAct i
  mayRaise := !t.raiseClosed.contains seat

/-- What the actor sees. -/
def view (t : Table) : Except TableError BettingView :=
  if t.phase = .betting then
    match t.actor? with
    | none => .error .noActor
    | some seat =>
      match t.seats[seat]? with
      | none => .error (.noSuchSeat seat)
      | some s => .ok (t.viewOf seat s)
  else t.wrongPhase .act

/-- The seats other than `seat` that can answer a raise, in turn. -/
def respondents (t : Table) (seat : Nat) : List Nat :=
  (t.rotation seat).filter fun i => i != seat && t.canAct i

/-- The table after a decision of the actor, before the round is looked at. -/
def carryOut (t : Table) (v : BettingView) : Decision → Table
  | .fold => { t.updateSeat v.seat (·.fold) with actors := t.actors.tail }
  | .check => { t with actors := t.actors.tail }
  | .call amount => { t.updateSeat v.seat (·.putIn amount) with actors := t.actors.tail }
  | .raise amount full =>
    let t := t.updateSeat v.seat (·.putIn (amount - v.bet))
    let t :=
      if full then
        { t with
          minIncrement := max t.minIncrement (amount - v.maxBet)
          acted := []
          raiseClosed := [] }
      else { t with raiseClosed := t.raiseClosed ++ t.acted }
    { t with actors := t.respondents v.seat }

/-- Carries a decision out, and closes the round if it was the last one. A fold that leaves one
seat ends the hand at once. -/
def advance (t : Table) (v : BettingView) (d : Decision) : Noted Table :=
  let t := t.carryOut v d
  if d = .fold ∧ t.liveCount = 1 then t.closeRound
  else
    let t := { t with acted := v.seat :: t.acted }
    if t.actors = [] then
      let (t, notes) := t.closeRound
      (t, .actionApplied :: notes)
    else (t, [.actionApplied])

/-- The actor acts. -/
def act (t : Table) (a : Action) : Except TableError (Noted Table) :=
  match t.view with
  | .error e => .error e
  | .ok v =>
    match v.decide a with
    | .error e => .error e
    | .ok d => .ok (t.advance v d)

/-- The actor folds. -/
def fold (t : Table) : Except TableError (Noted Table) := t.act .fold

/-- The actor checks, or calls the highest bet. -/
def checkOrCall (t : Table) : Except TableError (Noted Table) := t.act .checkOrCall

/-- The actor bets or raises to `amount` chips on this street. -/
def raiseTo (t : Table) (amount : Int) : Except TableError (Noted Table) := t.act (.raiseTo amount)

/-! ## Result -/

/-- Whether the hand is over. -/
def isComplete (t : Table) : Bool := t.phase = .complete

/-- The net result of each seat, once the hand is over. -/
def payoffs (t : Table) : Except TableError (List Int) :=
  if t.isComplete then .ok (t.seats.map (·.payoff)) else .error .handNotComplete

end Holdem.Table
