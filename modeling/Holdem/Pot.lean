import Holdem.Chips
import Holdem.Hand.Strength

/-!
# Main and side pots

The functions `side_pots` and `award`. The strengths of the hands come in from outside. Amounts have
no bounds here.

`sidePots` layers what the seats put in into pots, lowest level first: the pot of a level holds
what each seat put in between the level below and this one, and is contested by the live seats
that reached it. A level that no live seat reached belongs to the pot below it.

`award` shares every pot among the best hands that contest it. `Pot.contest` says who shares a pot
and whose strength was asked for on the way: nobody's if only one seat is eligible, else everyone's.
A split goes down to the chip; odd chips go to the first sharers in seat order.
-/

namespace Holdem

/-- Chips and the seats that contest them. -/
structure Pot where
  amount : Int
  eligible : List Nat
  deriving DecidableEq

namespace Pot

/-! ## Layering -/

/-- A level put into a strictly increasing list of levels. -/
def insertLevel (level : Int) : List Int → List Int
  | [] => [level]
  | l :: rest =>
    if level < l then level :: l :: rest
    else if level = l then l :: rest
    else l :: insertLevel level rest

/-- The distinct positive amounts put in, lowest first. -/
def levels (contributions : List Int) : List Int :=
  (contributions.filter (0 < ·)).foldr insertLevel []

/-- What all seats together put in between two levels. -/
def slice (contributions : List Int) (low high : Int) : Int :=
  Chips.total (contributions.map fun c => min c high - min c low)

/-- The live seats that put in at least `level`. -/
def reaching (contributions : List Int) (inHand : List Bool) (level : Int) : List Nat :=
  (List.range contributions.length).filter fun i =>
    inHand.getD i false && decide (level ≤ contributions.getD i 0)

/-- Pots under construction. -/
structure Layering where
  /-- The level reached so far. -/
  reached : Int
  /-- Chips of levels below the first that a live seat reached. -/
  carry : Int
  /-- The pots, highest first. -/
  pots : List Pot
  deriving DecidableEq

/-- Adds the next level. -/
def Layering.add (contributions : List Int) (inHand : List Bool) (l : Layering) (level : Int) :
    Layering :=
  let amount := slice contributions l.reached level
  match reaching contributions inHand level, l.pots with
  | seat :: seats, pots => ⟨level, 0, ⟨amount + l.carry, seat :: seats⟩ :: pots⟩
  | [], top :: lower => ⟨level, l.carry, { top with amount := top.amount + amount } :: lower⟩
  | [], [] => ⟨level, l.carry + amount, []⟩

/-- The seats still in the hand. -/
def live (inHand : List Bool) : List Nat :=
  (List.range inHand.length).filter fun i => inHand.getD i false

/-- The pots of a hand, lowest level first. Chips that no live seat matched are contested by all
live seats. -/
def sidePots (contributions : List Int) (inHand : List Bool) : List Pot :=
  let l := (levels contributions).foldl (Layering.add contributions inHand) ⟨0, 0, []⟩
  l.pots.reverse ++ if 0 < l.carry then [⟨l.carry, live inHand⟩] else []

/-! ## Awarding -/

/-- Who shares a pot, and whose strengths were asked for to tell. -/
structure Contest where
  sharers : List Nat
  asked : List Nat
  deriving DecidableEq

/-- The contest for a pot. A single eligible seat shares it unasked; else the best of the hands
that have a strength do, or everyone eligible if none has. -/
def contest (strength : Nat → Option Strength) (pot : Pot) : Contest :=
  if pot.eligible.length = 1 then ⟨pot.eligible, []⟩
  else
    let ranked := pot.eligible.map fun seat => (seat, strength seat)
    match Strength.best? (ranked.filterMap (·.2)) with
    | some best => ⟨(ranked.filter (·.2 = some best)).map (·.1), ranked.map (·.1)⟩
    | none => ⟨pot.eligible, ranked.map (·.1)⟩

/-- An amount split evenly: the first few sharers get one odd chip each. -/
def split (amount : Int) (sharers : List Nat) : List (Nat × Int) :=
  let share := amount.tdiv sharers.length
  let odd := amount.tmod sharers.length
  sharers.zipIdx.map fun (seat, k) => (seat, if (k : Int) < odd then share + 1 else share)

/-- What a seat gets of a pot. -/
def payout (strength : Nat → Option Strength) (pot : Pot) (seat : Nat) : Int :=
  Chips.total (((split pot.amount (contest strength pot).sharers).filter (·.1 = seat)).map (·.2))

/-- What each seat gets of all pots. -/
def award (pots : List Pot) (seats : Nat) (strength : Nat → Option Strength) : List Int :=
  (List.range seats).map fun seat => Chips.total (pots.map (payout strength · seat))

/-- The seats whose strength is asked for, in order. -/
def asked (pots : List Pot) (strength : Nat → Option Strength) : List Nat :=
  pots.flatMap fun pot => (contest strength pot).asked

end Pot

end Holdem
