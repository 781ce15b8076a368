import Holdem.Hand.Evaluate
import Mathlib.Data.List.Dedup
import Mathlib.Data.List.Perm.Subperm
import Mathlib.Data.List.Sort
import Mathlib.Data.List.Sublists
import Mathlib.Algebra.BigOperators.Group.List.Lemmas
import Mathlib.Algebra.GroupWithZero.Nat

/-!
# Hands of five cards

The rules for five cards, said of the five cards themselves. Their ranks count in the order of
`ranking`: the one held most often first, and of ranks held equally often the highest. How often
they are held, in that order, is the *shape* of the hand. Five cards of four ranks or fewer are
ranked by their shape, five cards of five ranks by whether they are of one suit and in sequence
(`rankShape`), and the ranks in their order break ties. A sequence is ranked by its high end alone,
which is a five if the ace stands below the two (`straightTop?`).

`shape_mem` says that the shapes named there are all there are.
-/

namespace Holdem.Hand

/-- The values of the ranks of some cards. -/
def values (cards : List Card) : List Nat := cards.map fun c => c.rank.value

/-- Whether a rank counts before another, if each is held so many times. -/
def Before (n : Nat → Nat) (r r' : Nat) : Prop := n r' < n r ∨ n r' = n r ∧ r' ≤ r

instance (n : Nat → Nat) : DecidableRel (Before n) := fun _ _ => instDecidableOr

instance (n : Nat → Nat) : Std.Total (Before n) := ⟨fun r r' => by unfold Before; omega⟩

instance (n : Nat → Nat) : IsTrans Nat (Before n) := ⟨fun r r' r'' => by unfold Before; omega⟩

/-- The ranks of some cards, each of them once, in the order in which they count. -/
def ranking (l : List Nat) : List Nat := l.dedup.insertionSort (Before l.count)

/-- The high end of five different ranks in sequence, which are given highest first. -/
def straightTop? : List Nat → Option Nat
  | [14, 5, 4, 3, 2] => some 5
  | [a, b, c, d, e] => if a = b + 1 ∧ b = c + 1 ∧ c = d + 1 ∧ d = e + 1 then some a else none
  | _ => none

/-- The strength of five cards by whether they are of one suit, how often each rank is held, and
the ranks. -/
def rankShape (suited : Bool) (shape ranks : List Nat) : Strength :=
  match shape with
  | [4, 1] => .of .fourOfAKind ranks
  | [3, 2] => .of .fullHouse ranks
  | [3, 1, 1] => .of .threeOfAKind ranks
  | [2, 2, 1] => .of .twoPair ranks
  | [2, 1, 1, 1] => .of .onePair ranks
  | _ =>
    match suited, straightTop? ranks with
    | true, some high => .of .straightFlush [high]
    | true, none => .of .flush ranks
    | false, some high => .of .straight [high]
    | false, none => .of .highCard ranks

/-- Whether some cards are of one suit. -/
def oneSuit (cards : List Card) : Bool := Suit.all.any fun s => cards.all fun c => c.suit = s

/-- The strength of five cards. -/
def rankFive (five : List Card) : Strength :=
  let ranks := ranking (values five)
  rankShape (oneSuit five) (ranks.map (values five).count) ranks

example : rankFive [⟨.ace, .spades⟩, ⟨.two, .clubs⟩, ⟨.three, .spades⟩, ⟨.four, .hearts⟩,
    ⟨.five, .spades⟩] = ⟨.straight, [5, 0, 0, 0, 0]⟩ := by decide

/-! ## The order of the ranks -/

variable {l ranks : List Nat} {r : Nat}

theorem nodup_ranking (l : List Nat) : (ranking l).Nodup :=
  (List.perm_insertionSort _ _).nodup_iff.mpr (List.nodup_dedup l)

theorem mem_ranking : r ∈ ranking l ↔ r ∈ l :=
  (List.perm_insertionSort _ _).mem_iff.trans List.mem_dedup

/-- There is one order only in which the ranks count. -/
theorem ranking_eq (hmem : ∀ r, r ∈ ranks ↔ r ∈ l) (hnodup : ranks.Nodup)
    (hsorted : ranks.Pairwise (Before l.count)) : ranking l = ranks := by
  refine List.Perm.eq_of_pairwise (fun a b _ _ hab hba => ?_) (List.pairwise_insertionSort _ _)
    hsorted ?_
  · unfold Before at hab hba
    omega
  · exact (List.perm_ext_iff_of_nodup (nodup_ranking l) hnodup).mpr fun r => by
      rw [mem_ranking, hmem]

theorem sum_shape (l : List Nat) : ((ranking l).map l.count).sum = l.length := by
  rw [← List.sum_map_count_dedup_eq_length l]
  exact ((List.perm_insertionSort _ _).map _).sum_eq

/-! ## The counts of distinct cards -/

variable {cards : List Card}

theorem count_values (cards : List Card) (r : Nat) : (values cards).count r = count cards r :=
  List.countP_map

theorem Rank.value_injective : Function.Injective Rank.value := by
  intro a b h
  cases a <;> cases b <;> first | rfl | cases h

/-- No rank is held more than four times. -/
theorem count_le_four (hnodup : cards.Nodup) (r : Nat) : count cards r ≤ 4 := by
  have hinj : ∀ c ∈ cards.filter (·.rank.value == r), ∀ c' ∈ cards.filter (·.rank.value == r),
      c.suit = c'.suit → c = c' := by
    intro c hc c' hc' hsuit
    have hvalue : c.rank.value = c'.rank.value := by
      rw [beq_iff_eq.mp (List.mem_filter.mp hc).2, beq_iff_eq.mp (List.mem_filter.mp hc').2]
    cases c
    cases c'
    exact Card.mk.injEq .. ▸ ⟨Rank.value_injective hvalue, hsuit⟩
  have hsuits := (List.Nodup.map_on hinj (hnodup.filter _)).subperm
    fun s _ => Suit.mem_all s
  have hlength := hsuits.length_le
  rw [List.length_map, ← List.countP_eq_length_filter] at hlength
  exact hlength

/-! ## Shapes -/

/-- The shapes of five cards. -/
def shapes : List (List Nat) := [[4, 1], [3, 2], [3, 1, 1], [2, 2, 1], [2, 1, 1, 1], [1, 1, 1, 1, 1]]

/-- These are the ways to make five of falling parts, four at most. -/
theorem mem_shapes {shape : List Nat} (hsum : shape.sum = 5)
    (hpart : ∀ k ∈ shape, 0 < k ∧ k ≤ 4) (hsorted : shape.Pairwise (· ≥ ·)) : shape ∈ shapes := by
  unfold shapes
  match shape with
  | [] => cases hsum
  | [a] =>
    simp at hsum hpart
    omega
  | [a, b] | [a, b, c] | [a, b, c, d] | [a, b, c, d, e] =>
    simp at hsum hpart hsorted ⊢
    omega
  | a :: b :: c :: d :: e :: f :: shape =>
    simp only [List.sum_cons, List.forall_mem_cons] at hsum hpart
    omega

/-- **Five distinct cards** have one of the shapes. -/
theorem shape_mem {five : List Card} (hnodup : five.Nodup) (hlen : five.length = 5) :
    (ranking (values five)).map (values five).count ∈ shapes := by
  refine mem_shapes ?_ ?_ ?_
  · rw [sum_shape, values, List.length_map, hlen]
  · rw [List.forall_mem_map]
    intro r hr
    rw [List.count_pos_iff, count_values]
    exact ⟨mem_ranking.mp hr, count_le_four hnodup r⟩
  · rw [List.pairwise_map]
    refine (List.pairwise_insertionSort _ _).imp fun {r r'} h => ?_
    rcases h with h | ⟨h, -⟩
    · exact h.le
    · exact h.le

end Holdem.Hand
