/-!
# Hand strengths

The types `Category` and `HandStrength`, and their comparison (`compare_hands`).

A `Strength` is a category and the ranks that break ties in it, five of them, padded with zeros.
Strengths are compared by category and then by tie-breakers, highest first (`Strength.beats`).
-/

namespace Holdem

/-- The nine categories of five-card hands, weakest first. -/
inductive Category
  | highCard
  | onePair
  | twoPair
  | threeOfAKind
  | straight
  | flush
  | fullHouse
  | fourOfAKind
  | straightFlush
  deriving DecidableEq

namespace Category

/-- The place of a category, the weakest being 0. -/
def level : Category → Nat
  | highCard => 0
  | onePair => 1
  | twoPair => 2
  | threeOfAKind => 3
  | straight => 4
  | flush => 5
  | fullHouse => 6
  | fourOfAKind => 7
  | straightFlush => 8

/-- All categories, weakest first. -/
def all : List Category :=
  [highCard, onePair, twoPair, threeOfAKind, straight, flush, fullHouse, fourOfAKind,
    straightFlush]

/-- The name of a category. -/
def name : Category → String
  | highCard => "HighCard"
  | onePair => "OnePair"
  | twoPair => "TwoPair"
  | threeOfAKind => "ThreeOfAKind"
  | straight => "Straight"
  | flush => "Flush"
  | fullHouse => "FullHouse"
  | fourOfAKind => "FourOfAKind"
  | straightFlush => "StraightFlush"

theorem level_injective {a b : Category} (h : a.level = b.level) : a = b := by
  cases a <;> cases b <;> first | rfl | simp [level] at h

end Category

/-- How strong a hand is. -/
structure Strength where
  category : Category
  /-- The tie-breakers, most significant first. -/
  kickers : List Nat
  deriving DecidableEq

namespace Strength

/-- The strength with the given ranks, the first five, padded with zeros. -/
def of (category : Category) (ranks : List Nat) : Strength :=
  ⟨category, (ranks ++ List.replicate 5 0).take 5⟩

/-- The numbers by which strengths are compared, in lexicographic order. -/
def key (s : Strength) : List Nat := s.category.level :: s.kickers

theorem key_injective {a b : Strength} (h : a.key = b.key) : a = b := by
  cases a; cases b
  simp only [key, List.cons.injEq] at h
  simp [Category.level_injective h.1, h.2]

/-- Whether `a` is the stronger of two hands. -/
def beats (a b : Strength) : Bool := decide (b.key < a.key)

/-- The comparison of two strengths. -/
def compare (a b : Strength) : Ordering :=
  if a.beats b then .gt else if b.beats a then .lt else .eq

/-- The stronger of two hands, the second if they are equal. -/
def max (a b : Strength) : Strength := if a.beats b then a else b

/-- The strongest of some hands. -/
def best? : List Strength → Option Strength
  | [] => none
  | s :: rest => some (rest.foldl max s)

end Strength

end Holdem
