import Holdem.Chips

/-!
# Cards

The types `Card`, `Rank` and `Suit`, the token of a card (`Card::from_str` and its display), and the
deck in order (`full_deck`).

A card is a rank and a suit. Its token is two characters, rank then suit: `As`, `Td`, `2c`.
`Card.ofText?` reads exactly the texts that `Card.text` writes (`ofText?_eq_some_iff`).
`Card.all` lists the 52 cards suit by suit, each suit from two to ace.
-/

namespace Holdem

/-- The four suits, written `c`, `d`, `h`, `s`. -/
inductive Suit
  | clubs
  | diamonds
  | hearts
  | spades
  deriving DecidableEq

namespace Suit

/-- The letter of a suit. -/
def letter : Suit → Char
  | clubs => 'c'
  | diamonds => 'd'
  | hearts => 'h'
  | spades => 's'

/-- The suit of a letter. -/
def ofLetter? : Char → Option Suit
  | 'c' => some clubs
  | 'd' => some diamonds
  | 'h' => some hearts
  | 's' => some spades
  | _ => none

/-- The English name of a suit. -/
def name : Suit → String
  | clubs => "Clubs"
  | diamonds => "Diamonds"
  | hearts => "Hearts"
  | spades => "Spades"

/-- All suits, clubs first. -/
def all : List Suit := [clubs, diamonds, hearts, spades]

theorem mem_all (s : Suit) : s ∈ all := by cases s <;> simp [all]

theorem ofLetter?_letter (s : Suit) : ofLetter? s.letter = some s := by cases s <;> rfl

theorem letter_of_ofLetter? {c : Char} {s : Suit} (h : ofLetter? c = some s) : s.letter = c := by
  unfold ofLetter? at h
  split at h <;> simp_all <;> subst h <;> rfl

end Suit

/-- The thirteen ranks, written `2` to `9`, `T`, `J`, `Q`, `K`, `A`. -/
inductive Rank
  | two
  | three
  | four
  | five
  | six
  | seven
  | eight
  | nine
  | ten
  | jack
  | queen
  | king
  | ace
  deriving DecidableEq

namespace Rank

/-- The face value of a rank, an ace being 14. -/
def value : Rank → Nat
  | two => 2
  | three => 3
  | four => 4
  | five => 5
  | six => 6
  | seven => 7
  | eight => 8
  | nine => 9
  | ten => 10
  | jack => 11
  | queen => 12
  | king => 13
  | ace => 14

/-- The letter of a rank. -/
def letter : Rank → Char
  | two => '2'
  | three => '3'
  | four => '4'
  | five => '5'
  | six => '6'
  | seven => '7'
  | eight => '8'
  | nine => '9'
  | ten => 'T'
  | jack => 'J'
  | queen => 'Q'
  | king => 'K'
  | ace => 'A'

/-- The rank of a letter. -/
def ofLetter? : Char → Option Rank
  | '2' => some two
  | '3' => some three
  | '4' => some four
  | '5' => some five
  | '6' => some six
  | '7' => some seven
  | '8' => some eight
  | '9' => some nine
  | 'T' => some ten
  | 'J' => some jack
  | 'Q' => some queen
  | 'K' => some king
  | 'A' => some ace
  | _ => none

/-- The English name of a rank. -/
def name : Rank → String
  | two => "Two"
  | three => "Three"
  | four => "Four"
  | five => "Five"
  | six => "Six"
  | seven => "Seven"
  | eight => "Eight"
  | nine => "Nine"
  | ten => "Ten"
  | jack => "Jack"
  | queen => "Queen"
  | king => "King"
  | ace => "Ace"

/-- All ranks, the two first. -/
def all : List Rank :=
  [two, three, four, five, six, seven, eight, nine, ten, jack, queen, king, ace]

theorem mem_all (r : Rank) : r ∈ all := by cases r <;> simp [all]

theorem ofLetter?_letter (r : Rank) : ofLetter? r.letter = some r := by cases r <;> rfl

theorem letter_of_ofLetter? {c : Char} {r : Rank} (h : ofLetter? c = some r) : r.letter = c := by
  unfold ofLetter? at h
  split at h <;> simp_all <;> subst h <;> rfl

end Rank

/-- A playing card. -/
structure Card where
  rank : Rank
  suit : Suit
  deriving DecidableEq

namespace Card

/-- The token of a card, as characters. -/
def chars (c : Card) : List Char := [c.rank.letter, c.suit.letter]

/-- The token of a card: rank, then suit. -/
def text (c : Card) : String := String.ofList c.chars

/-- Reads a token. -/
def ofText? : List Char → Option Card
  | [r, s] => (Rank.ofLetter? r).bind fun rank => (Suit.ofLetter? s).map fun suit => ⟨rank, suit⟩
  | _ => none

theorem ofText?_chars (c : Card) : ofText? c.chars = some c := by
  simp [ofText?, chars, Rank.ofLetter?_letter, Suit.ofLetter?_letter]

/-- Reading accepts exactly what writing produces. -/
theorem ofText?_eq_some_iff {s : List Char} {c : Card} : ofText? s = some c ↔ s = c.chars := by
  constructor
  · intro h
    unfold ofText? at h
    split at h
    · obtain ⟨rank, hr, h⟩ := Option.bind_eq_some_iff.1 h
      obtain ⟨suit, hs, rfl⟩ := Option.map_eq_some_iff.1 h
      simp [chars, Rank.letter_of_ofLetter? hr, Suit.letter_of_ofLetter? hs]
    · simp at h
  · rintro rfl
    exact ofText?_chars c

/-- What is wrong with a text that is no card. -/
def refusal (token : String) : String :=
  "invalid card `" ++ token ++ "`: expected rank 2-9TJQKA followed by suit hdcs"

/-- The 52 cards, suit by suit, each suit from two to ace. -/
def all : List Card := Suit.all.flatMap fun suit => Rank.all.map fun rank => ⟨rank, suit⟩

theorem mem_all (c : Card) : c ∈ all := by
  simp only [all, List.mem_flatMap, List.mem_map]
  exact ⟨c.suit, Suit.mem_all _, c.rank, Rank.mem_all _, rfl⟩

theorem nodup_all : all.Nodup := by decide

theorem length_all : all.length = 52 := by decide

end Card

end Holdem
