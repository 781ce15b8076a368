import Holdem.Card
import Holdem.Hand.Strength

/-!
# Ranking the best five of some cards

The functions `evaluate_hand` and `evaluate_holding`, with `straight_high_from_mask` and
`highest_excluding`.

`evaluate` finds the strength of the best hand among some cards, seven at a showdown. It tries the
categories from the strongest down; each has a function of its own, which answers `none` if the
cards do not hold it. They look only at how often each rank occurs (`count`) and at the ranks held
in one suit (`hasSuited`).

A card may occur more than once, so a rank may be held more than four times. Such a rank makes no
pair, three or four of a kind. It still counts as a kicker of a pair, but not in a high card.
-/

namespace Holdem.Hand

/-- The values of all ranks, the ace first. -/
def ranksDown : List Nat := [14, 13, 12, 11, 10, 9, 8, 7, 6, 5, 4, 3, 2]

/-- How many of the cards have a rank. -/
def count (cards : List Card) (r : Nat) : Nat := cards.countP fun c => c.rank.value == r

/-- Whether some card has a rank. -/
def has (cards : List Card) (r : Nat) : Bool := 0 < count cards r

/-- Whether some card has a rank and a suit. -/
def hasSuited (cards : List Card) (s : Suit) (r : Nat) : Bool :=
  cards.any fun c => c.suit = s && c.rank.value == r

/-- The ranks held exactly `n` times, highest first. -/
def held (cards : List Card) (n : Nat) : List Nat := ranksDown.filter fun r => count cards r == n

/-- The `n` highest ranks held besides those in `used`. -/
def kickers (cards : List Card) (used : List Nat) (n : Nat) : List Nat :=
  (ranksDown.filter fun r => has cards r && !used.contains r).take n

/-- The high end of the best straight among some ranks; an ace also stands below the two. -/
def straightHigh? (held : Nat → Bool) : Option Nat :=
  [14, 13, 12, 11, 10, 9, 8, 7, 6, 5].find? fun high =>
    [high, high - 1, high - 2, high - 3, high - 4].all fun r => held (if r = 1 then 14 else r)

/-- The suit of five or more of the cards, the first in the order of suits. -/
def flushSuit? (cards : List Card) : Option Suit :=
  Suit.all.find? fun s => 5 ≤ cards.countP fun c => c.suit = s

/-! ## One function per category -/

/-- The best straight in the suit of the flush. -/
def straightFlush? (cards : List Card) : Option Strength :=
  (flushSuit? cards).bind fun s =>
    (straightHigh? (hasSuited cards s)).map fun high => .of .straightFlush [high]

/-- The highest rank held four times, with one kicker. -/
def fourOfAKind? (cards : List Card) : Option Strength :=
  (held cards 4).head?.map fun q => .of .fourOfAKind (q :: kickers cards [q] 1)

/-- A second three of a kind plays as the pair. -/
def fullHouse? (cards : List Card) : Option Strength :=
  match held cards 3 with
  | [] => none
  | t :: others =>
    (others.take 1 ++ (held cards 2).take 1).max?.map fun p => .of .fullHouse [t, p]

/-- The five highest ranks held in the suit of the flush. -/
def flush? (cards : List Card) : Option Strength :=
  (flushSuit? cards).map fun s => .of .flush (ranksDown.filter (hasSuited cards s))

/-- The best straight among all ranks held. -/
def straight? (cards : List Card) : Option Strength :=
  (straightHigh? (has cards)).map fun high => .of .straight [high]

/-- The highest rank held three times, with two kickers. -/
def threeOfAKind? (cards : List Card) : Option Strength :=
  (held cards 3).head?.map fun t => .of .threeOfAKind (t :: kickers cards [t] 2)

/-- The two highest ranks held twice, with one kicker. -/
def twoPair? (cards : List Card) : Option Strength :=
  match held cards 2 with
  | p :: q :: _ => some (.of .twoPair ([p, q] ++ kickers cards [p, q] 1))
  | _ => none

/-- The highest rank held twice, with three kickers. -/
def onePair? (cards : List Card) : Option Strength :=
  (held cards 2).head?.map fun p => .of .onePair (p :: kickers cards [p] 3)

/-- What is left counts by the ranks held once. -/
def highCard (cards : List Card) : Strength := .of .highCard (held cards 1)

/-- The strength of the best hand among some cards. -/
def evaluate (cards : List Card) : Strength :=
  ((straightFlush? cards).or <| (fourOfAKind? cards).or <| (fullHouse? cards).or <|
    (flush? cards).or <| (straight? cards).or <| (threeOfAKind? cards).or <|
    (twoPair? cards).or (onePair? cards)).getD (highCard cards)

/-- The strength of two hole cards with a board. -/
def evaluateHolding (first second : Card) (board : List Card) : Strength :=
  evaluate (first :: second :: board)

end Holdem.Hand
