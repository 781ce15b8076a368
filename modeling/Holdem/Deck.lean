import Holdem.Card
import Holdem.Deck.Shuffle

/-!
# The deck

The undealt cards of one hand (`Deck`), the next one first. A card that is named is taken out
wherever it lies (`take`); a burn draws the next one (`draw`). `Deck.ofSeed` (`new_with_seed`) is a
whole deck in the order that a seed decides.
-/

namespace Holdem

/-- The undealt cards, in the order in which they are drawn. -/
structure Deck where
  cards : List Card
  deriving DecidableEq

namespace Deck

/-- A whole deck, shuffled; cards are drawn from the end of the shuffled list. -/
def ofSeed (seed : UInt64) : Deck :=
  ⟨(Shuffle.shuffle (Keystream.word (Keystream.keyOfSeed seed)) Card.all).reverse⟩

/-- The seed of a table for which none is chosen. -/
def defaultSeed : UInt64 := 2711790500

/-- Takes a card out, and says whether it was there. -/
def take (d : Deck) (c : Card) : Bool × Deck :=
  if c ∈ d.cards then (true, ⟨d.cards.erase c⟩) else (false, d)

/-- Draws the next card. -/
def draw (d : Deck) : Option (Card × Deck) :=
  match d.cards with
  | [] => none
  | c :: rest => some (c, ⟨rest⟩)

/-- How many cards are left. -/
def remaining (d : Deck) : Nat := d.cards.length

end Deck

end Holdem
