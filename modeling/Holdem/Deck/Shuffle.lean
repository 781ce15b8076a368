import Holdem.Deck.Keystream

/-!
# Shuffling

`shuffle` exchanges each place `i` with a place `j ≤ i` chosen at random. The choices for several
places are drawn at once: a number below `m * (m + 1) * … * (m + k - 1)` holds one digit below each
factor, and `chunkOf` takes as many factors as fit a word. `below` draws a number below a bound
from one word of the stream, and looks at a second word when the first leaves it almost undecided.

This is the `shuffle` of a slice in the library for random numbers.
-/

namespace Holdem.Shuffle

/-- The number of values of a word. -/
def wordSize : Nat := 4294967296

/-- A number below `n`, and how many words were read, from word `i` of a stream on. -/
def below (stream : Nat → Nat) (i n : Nat) : Nat × Nat :=
  let p := stream i * n
  let high := p / wordSize
  let low := p % wordSize
  if wordSize - n < low then
    let next := stream (i + 1) * n / wordSize
    (if wordSize ≤ low + next then high + 1 else high, 2)
  else (high, 1)

/-- The longest product `m * (m + 1) * …` below the size of a word, at most `fuel` factors more,
and the number of its factors, given a product and its factors. -/
def chunkFrom : Nat → Nat → Nat → Nat → Nat × Nat
  | 0, _, product, factors => (product, factors)
  | fuel + 1, m, product, factors =>
    if product * m < wordSize then chunkFrom fuel (m + 1) (product * m) (factors + 1)
    else (product, factors)

/-- The longest product of successive factors from `m` that fits a word, and their number. -/
def chunkOf (m : Nat) : Nat × Nat := chunkFrom 32 (m + 1) m 1

/-- What is left of the number drawn last. -/
structure Choices where
  /-- The word of the stream that is read next. -/
  next : Nat
  /-- The digits not used yet. -/
  chunk : Nat
  /-- How many they are. -/
  left : Nat

/-- Before the first choice, which is always 0. -/
def Choices.start : Choices := ⟨0, 0, 1⟩

/-- The next choice, below `m`. -/
def Choices.choose (stream : Nat → Nat) (c : Choices) (m : Nat) : Nat × Choices :=
  let c :=
    if c.left = 0 then
      let (product, factors) := chunkOf m
      let (chunk, read) := below stream c.next product
      ⟨c.next + read, chunk, factors⟩
    else c
  if c.left = 1 then (c.chunk, ⟨c.next, c.chunk, 0⟩)
  else (c.chunk % m, ⟨c.next, c.chunk / m, c.left - 1⟩)

/-- Exchanges place `i` with a chosen one, for `n` places from `i` on. -/
def shuffleFrom {α : Type} (stream : Nat → Nat) : Nat → Nat → Choices → Array α → Array α
  | 0, _, _, xs => xs
  | n + 1, i, c, xs =>
    let (j, c) := c.choose stream (i + 1)
    shuffleFrom stream n (i + 1) c (xs.swapIfInBounds i j)

/-- Some values in an order that the stream decides. -/
def shuffle {α : Type} (stream : Nat → Nat) (xs : List α) : List α :=
  (shuffleFrom stream xs.length 0 .start xs.toArray).toList

end Holdem.Shuffle
