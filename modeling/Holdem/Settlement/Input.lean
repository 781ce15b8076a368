import Holdem.PlayerMap
import Holdem.Settlement.Error

/-!
# Checking stacks and hole cards

`checkInput` (`check_input`) says whether stacks and hole cards describe one table: two players at
least, hole cards for as many players as have stacks, positive stacks that can be added up, and two
cards for each of those players. The first fault is reported, in that order.

`checkEntries` is the smaller check of a submitted hand (`check_schema`): each stack and each hole
on its own.
-/

namespace Holdem

/-- Chips before the hand, per player. -/
abbrev Stacks := PlayerMap Int

/-- Hole cards, per player. -/
abbrev HoleCards := PlayerMap (List Card)

/-- Net results, per player. -/
abbrev Winnings := PlayerMap Int

/-- The first player without chips. -/
def checkStacks : List (String × Int) → Except InputError Unit
  | [] => .ok ()
  | (player, stack) :: rest =>
    if stack ≤ 0 then .error (.nonPositiveStack player stack) else checkStacks rest

/-- The first player without exactly two cards. -/
def checkHoleCounts : List (String × List Card) → Except InputError Unit
  | [] => .ok ()
  | (player, cards) :: rest =>
    if cards.length = 2 then checkHoleCounts rest
    else .error (.holeCardCount player cards.length)

/-- The first player without a stack or without exactly two cards. -/
def checkHoles (chips : Stacks) : List (String × List Card) → Except InputError Unit
  | [] => .ok ()
  | (player, cards) :: rest =>
    if chips.position? player = none then .error (.unknownPlayer player)
    else if cards.length = 2 then checkHoles chips rest
    else .error (.holeCardCount player cards.length)

/-- Whether stacks and hole cards describe one table. -/
def checkInput (chips : Stacks) (holes : HoleCards) : Except InputError Unit :=
  if chips.size < 2 then .error (.tooFewPlayers chips.size)
  else if holes.size ≠ chips.size then .error (.playerCountMismatch chips.size holes.size)
  else
    match checkStacks chips.entries with
    | .error e => .error e
    | .ok () =>
      if Chips.fits (Chips.total chips.values) then checkHoles chips holes.entries
      else .error .totalStackOverflow

/-- Whether every stack is positive and every hole has two cards. -/
def checkEntries (chips : Stacks) (holes : HoleCards) : Except InputError Unit :=
  match checkStacks chips.entries with
  | .error e => .error e
  | .ok () => checkHoleCounts holes.entries

end Holdem
