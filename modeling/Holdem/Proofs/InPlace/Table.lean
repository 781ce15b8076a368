import Holdem.Proofs.InPlace.Pots
import Holdem.Proofs.Table.Run

/-!
# A table that is changed in place

The operations of a table as programs that change it step by step (`Program`). Every sum is made in
64 signed bits. A program that halts leaves the table as it was at that moment: what it changed
before is not taken back.

The checks of an operation stand where they are made, among the changes. Dealing hole cards checks
twice that the seat has none, the second time when the cards have left the deck already.

`play` does a move, `attempt` goes on with the table that is left, whether it was done or not, and
`create` seats the players.
-/

namespace Holdem.InPlace

/-- A program that changes a table. -/
abbrev Program (α : Type) := EStateM Halt Table α

variable {α β : Type} {t : Table}

/-- A computation that changes no table. -/
def compute : Except Halt α → Program α
  | .ok a => pure a
  | .error e => throw e

@[simp]
theorem run_compute_ok (a : α) (t : Table) : (compute (.ok a)).run t = .ok a t := rfl

theorem run_compute_bind {x : Except Halt α} {a : α} (h : x = .ok a) (f : α → Program β)
    (t : Table) : (compute x >>= f).run t = (f a).run t := by
  rw [h]
  rfl

theorem run_get_bind (f : Table → Program α) (t : Table) :
    ((get : Program Table) >>= f).run t = (f t).run t := rfl

theorem run_modify_bind (g : Table → Table) (f : Unit → Program α) (t : Table) :
    ((modify g : Program Unit) >>= f).run t = (f ()).run (g t) := rfl

/-- Halts for a cause that the table gives. -/
def refuse (cause : TableError) : Program α := throw (.refused cause)

/-- Refuses an operation outside its phase. -/
def expect (operation : Operation) (ok : Bool) : Program Unit := do
  if ok then pure ()
  else refuse (.wrongPhase operation.text (← get).phase.name.text)

/-- The seat at a position. -/
def seatAt (i : Nat) : Program Seat := do
  match (← get).seats[i]? with
  | none => throw .outOfBounds
  | some s => pure s

/-- Changes the seat at a position. -/
def changeSeat (i : Nat) (f : Seat → Except Halt Seat) : Program Unit := do
  let seats ← compute (changeAt (← get).seats i f)
  modify fun t => { t with seats }

/-! ## Rounds -/

/-- Pays the pots out. -/
def finish : Program Unit := do
  let contributions ← compute ((← get).seats.mapM contribution)
  let pots ← compute (sidePots contributions (← get).live)
  let won ← compute (award pots (← get).seats.length (← get).strength)
  let seats ← compute (((← get).seats.zip won).mapM fun (s, amount) => addChips s amount)
  modify fun t => { t with seats }
  modify fun t => { t with actors := [] }
  modify fun t => { t with phase := .complete }

/-- Collects the bets; the hand goes on while two seats are in it and streets remain. -/
def closeRound : Program Unit := do
  let seats ← compute ((← get).seats.mapM collect)
  modify fun t => { t with seats }
  if (← get).liveCount ≤ 1 ∨ (← get).street = Table.river then finish
  else modify fun t => { t with phase := .burning }

/-- Opens the betting of a street; a round without actors closes at once. -/
def openBetting : Program Unit := do
  modify fun t => { t with phase := .betting }
  modify fun t => { t with minIncrement := t.config.minBet }
  modify fun t => { t with acted := [] }
  modify fun t => { t with raiseClosed := [] }
  modify fun t => { t with actors := t.openingActors }
  if (← get).actors = [] then closeRound

/-! ## Cards -/

/-- Takes a named card out of the deck, if it is there. -/
def takeCard (c : Card) : Program Unit := modify fun t => { t with deck := (t.deck.take c).2 }

/-- Gives hole cards to a seat. -/
def giveCards (seat : Nat) (cards : Card × Card) : Program Unit := do
  let s ← seatAt seat
  match s.giveCards? cards with
  | none => refuse (.holeCardsAlreadyDealt seat)
  | some s => modify fun t => { t with seats := t.seats.set seat s }

/-- Deals two hole cards to a seat. Betting opens when every seat has some. -/
def dealHole (seat : Nat) (first second : Card) : Program Unit := do
  expect .dealHole ((← get).phase = .dealing)
  match (← get).seats[seat]? with
  | none => refuse (.noSuchSeat seat)
  | some s =>
    if s.hole.isSome then refuse (.holeCardsAlreadyDealt seat)
    else
      takeCard first
      takeCard second
      giveCards seat (first, second)
      if (← get).allDealt then openBetting

/-- Burns the next card of the deck, and looks up how many board cards come next. -/
def burn : Program Unit := do
  expect .burn ((← get).phase = .burning)
  match (← get).deck.draw with
  | none => refuse .deckExhausted
  | some (_, deck) =>
    modify fun t => { t with deck }
    match [0, 3, 1, 1][(← get).street + 1]? with
    | none => throw .outOfBounds
    | some remaining => modify fun t => { t with phase := .revealing remaining }

/-- Deals a board card. The betting of the next street opens after the last one. -/
def dealBoard (c : Card) : Program Unit := do
  match (← get).phase with
  | .revealing remaining =>
    takeCard c
    modify fun t => { t with board := t.board ++ [c] }
    if 1 < remaining then modify fun t => { t with phase := .revealing (remaining - 1) }
    else
      modify fun t => { t with street := t.street + 1 }
      openBetting
  | _ => expect .dealBoard false

/-! ## Actions -/

/-- What the actor sees. -/
def view : Program BettingView := do
  expect .act ((← get).phase = .betting)
  match (← get).actor? with
  | none => refuse .noActor
  | some seat =>
    let s ← seatAt seat
    pure ((← get).viewOf seat s)

/-- The chips that a call moves. -/
def toCall (v : BettingView) : Except Halt Int := do
  let owed ← sub v.maxBet v.bet
  clamp 0 v.stack owed

/-- A raise to `amount`. -/
def raiseTo (v : BettingView) (amount : Int) : Except Halt Decision :=
  if v.othersCanRespond = false then .error (.refused (.noOneToRaise v.seat))
  else if v.mayRaise = false then .error (.refused (.raiseNotReopened v.seat))
  else do
    let available ← add v.bet v.stack
    if available < amount then .error (.refused (.insufficientChips v.seat amount available))
    else if amount ≤ v.maxBet ∨ amount < v.minimum ∧ amount ≠ available then
      .error (.refused (.raiseTooSmall amount v.minimum))
    else .ok (.raise amount (decide (v.minimum ≤ amount)))

/-- What an action comes to. -/
def decision (v : BettingView) : Action → Except Halt Decision
  | .fold => if v.maxBet ≤ v.bet then .error (.refused (.needlessFold v.seat)) else .ok .fold
  | .checkOrCall => do
    let owed ← toCall v
    pure (if owed = 0 then .check else .call owed)
  | .raiseTo amount => raiseTo v amount
  | .allIn => do
    let available ← add v.bet v.stack
    raiseTo v available

/-- The actor is done. -/
def passActor : Program Unit := modify fun t => { t with actors := t.actors.tail }

/-- Carries a decision out. -/
def carryOut (v : BettingView) : Decision → Program Unit
  | .fold => do
    changeSeat v.seat fun s => pure s.fold
    passActor
  | .check => passActor
  | .call amount => do
    changeSeat v.seat (putIn · amount)
    passActor
  | .raise amount full => do
    let more ← compute (sub amount v.bet)
    changeSeat v.seat (putIn · more)
    if full then
      let increment ← compute (sub amount v.maxBet)
      modify fun t => { t with minIncrement := max t.minIncrement increment }
      modify fun t => { t with acted := [] }
      modify fun t => { t with raiseClosed := [] }
    else modify fun t => { t with raiseClosed := t.raiseClosed ++ t.acted }
    modify fun t => { t with actors := t.respondents v.seat }

/-- The actor acts. A fold that leaves one seat ends the hand at once. -/
def act (a : Action) : Program Unit := do
  let v ← view
  let d ← compute (decision v a)
  carryOut v d
  if d = .fold ∧ (← get).liveCount = 1 then closeRound
  else
    modify fun t => { t with acted := v.seat :: t.acted }
    if (← get).actors = [] then closeRound

/-! ## Moves -/

/-- Does a move. -/
def play : Move → Program Unit
  | .hole seat first second => dealHole seat first second
  | .burn => burn
  | .board c => dealBoard c
  | .fold => act .fold
  | .checkOrCall => act .checkOrCall
  | .raiseTo amount => act (.raiseTo amount)

/-- The net result of each seat, once the hand is over. -/
def payoffs : Program (List Int) := do
  if (← get).isComplete then compute ((← get).seats.mapM payoff)
  else refuse .handNotComplete

/-- The table that a program leaves, done or halted. -/
def left : EStateM.Result Halt Table α → Table
  | .ok _ t => t
  | .error _ t => t

/-- Tries moves one after the other, each on the table that the last one left. -/
def attempt (t : Table) (moves : List Move) : Table :=
  moves.foldl (fun t m => left ((play m).run t)) t

/-! ## Creation -/

/-- A seat after the ante. -/
def ante (config : TableConfig) (s : Seat) : Except Halt Seat := do
  if 0 < config.ante then
    let s ← putIn s config.ante
    collect s
  else pure s

/-- Seats one player per stack, and posts antes and blinds. -/
def posted (config : TableConfig) (starts : List Int) : Except Halt (List Seat) := do
  let (small, big) := blindSeats starts.length
  let seats ← starts.mapM fun s => ante config (Seat.ofStack s)
  let seats ← changeAt seats small (putIn · config.smallBlind)
  changeAt seats big (putIn · config.bigBlind)

/-- Checks the stacks, adding them up once, and seats the players. -/
def create (config : TableConfig) (starts : List Int) (seed : UInt64) : Except Halt Table :=
  if starts.length < 2 then .error (.refused (.notEnoughSeats starts.length))
  else
    match Table.badStack? starts, sum starts with
    | some (stack, seat), _ => .error (.refused (.invalidStack seat stack))
    | none, .error _ => .error (.refused .chipOverflow)
    | none, .ok _ => do
      let seats ← posted config starts
      pure ⟨config, Deck.ofSeed seed, seats, [], 0, .dealing, [], config.minBet, [], []⟩

end Holdem.InPlace
