import Holdem.Proofs.Hand.Held
import Holdem.Table.Basic
import Mathlib.Data.Option.Basic

/-!
# Suits have no order, and neither have cards

`evaluate` goes through the suits in their order and looks for the first one with five cards. With
nine cards or fewer at most one has five, so it matters neither which suit it is nor how the cards
are laid out.

* `SameBut f cards cards'` says that `cards'` are `cards` in some order, with each suit `s` replaced
  by `f s`.
* Such cards hold each rank equally often (`SameBut.count_eq`), and those of a suit `s` become cards
  of the suit `f s` (`SameBut.suited`). So the suit of the flush is renamed as well
  (`SameBut.flushSuit?_eq`), and nothing else is asked of suits.

Result: **`showdown_symmetric`**, for seven cards, for two hole cards with a board, and for what all
seats win at a showdown.
-/

namespace Holdem

/-- A card with its suit renamed. -/
def Card.recolored (f : Suit → Suit) (c : Card) : Card := ⟨c.rank, f c.suit⟩

namespace Hand

variable {f : Suit → Suit} {cards cards' : List Card}

/-- The same cards in some order, but for a renaming of suits. -/
def SameBut (f : Suit → Suit) (cards cards' : List Card) : Prop :=
  cards'.Perm (cards.map (Card.recolored f))

theorem recolored_id (cards : List Card) : cards.map (Card.recolored id) = cards :=
  List.map_id cards

theorem sameBut_of_perm (h : cards'.Perm cards) : SameBut id cards cards' := by
  unfold SameBut
  rwa [recolored_id]

/-! ## Counts -/

theorem SameBut.length_eq (h : SameBut f cards cards') : cards'.length = cards.length := by
  rw [List.Perm.length_eq h, List.length_map]

/-- A rank is held as often as before. -/
theorem SameBut.count_eq (h : SameBut f cards cards') : count cards' = count cards := by
  funext r
  unfold count
  rw [List.Perm.countP_eq _ h, List.countP_map]
  rfl

/-- The cards of a suit become those of its new name. -/
theorem SameBut.suited (h : SameBut f cards cards') (hf : Function.Injective f) (s : Suit) :
    SameBut f (suited cards s) (suited cards' (f s)) := by
  have hmapped : (cards.map (Card.recolored f)).filter (fun c => c.suit = f s) =
      (Hand.suited cards s).map (Card.recolored f) := by
    unfold Hand.suited
    rw [List.filter_map]
    congr 2
    funext c
    exact decide_eq_decide.mpr hf.eq_iff
  show (cards'.filter fun c => c.suit = f s).Perm ((Hand.suited cards s).map (Card.recolored f))
  rw [← hmapped]
  exact List.Perm.filter _ h

theorem SameBut.hasSuited_eq (h : SameBut f cards cards') (hf : Function.Injective f) (s : Suit) :
    hasSuited cards' (f s) = hasSuited cards s := by
  rw [Hand.hasSuited_eq, Hand.hasSuited_eq]
  funext r
  unfold has
  rw [(h.suited hf s).count_eq]

/-! ## The suit of the flush -/

/-- Of nine cards or fewer, the suit of the flush is the one with five cards. -/
theorem flushSuit?_eq_some_iff (hlen : cards.length ≤ 9) {s : Suit} :
    flushSuit? cards = some s ↔ 5 ≤ (suited cards s).length :=
  ⟨length_suited, flushSuit?_eq hlen⟩

/-- **The suit of the flush** is renamed with the cards. -/
theorem SameBut.flushSuit?_eq (h : SameBut f cards cards') (hf : Function.Bijective f)
    (hlen : cards.length ≤ 9) : flushSuit? cards' = (flushSuit? cards).map f := by
  have hlen' : cards'.length ≤ 9 := h.length_eq.trans_le hlen
  ext s'
  obtain ⟨s, rfl⟩ := hf.2 s'
  rw [flushSuit?_eq_some_iff hlen', (h.suited hf.1 s).length_eq, ← flushSuit?_eq_some_iff hlen,
    Option.map_eq_some_iff]
  constructor
  · exact fun hs => ⟨s, hs, rfl⟩
  · rintro ⟨s', hs', heq⟩
    rwa [← hf.1 heq]

/-! ## All categories -/

theorem SameBut.straightFlush?_eq (h : SameBut f cards cards') (hf : Function.Bijective f)
    (hlen : cards.length ≤ 9) : straightFlush? cards' = straightFlush? cards := by
  unfold straightFlush?
  rw [h.flushSuit?_eq hf hlen, Option.bind_map]
  congr 1
  funext s
  rw [Function.comp_apply, h.hasSuited_eq hf.1]

theorem SameBut.flush?_eq (h : SameBut f cards cards') (hf : Function.Bijective f)
    (hlen : cards.length ≤ 9) : flush? cards' = flush? cards := by
  unfold flush?
  rw [h.flushSuit?_eq hf hlen, Option.map_map]
  congr 1
  funext s
  rw [Function.comp_apply, h.hasSuited_eq hf.1]

/-- All categories but the two of one suit look at counts alone. -/
theorem evaluate_congr (hcount : count cards' = count cards)
    (hstraightFlush : straightFlush? cards' = straightFlush? cards)
    (hflush : flush? cards' = flush? cards) : evaluate cards' = evaluate cards := by
  have hheld : held cards' = held cards := by
    funext n
    unfold held
    rw [hcount]
  have hhas : has cards' = has cards := by
    funext r
    unfold has
    rw [hcount]
  have hkickers : kickers cards' = kickers cards := by
    funext used n
    unfold kickers
    rw [hhas]
  unfold evaluate fourOfAKind? fullHouse? straight? threeOfAKind? twoPair? onePair? highCard
  rw [hstraightFlush, hflush, hheld, hhas, hkickers]

/-- **The strength of nine cards or fewer** depends neither on their order nor on the names of the
suits. -/
theorem SameBut.evaluate_eq (h : SameBut f cards cards') (hf : Function.Bijective f)
    (hlen : cards.length ≤ 9) : evaluate cards' = evaluate cards :=
  evaluate_congr h.count_eq (h.straightFlush?_eq hf hlen) (h.flush?_eq hf hlen)

end Hand

/-! ## Showdowns -/

namespace Table

variable {t t' : Table}

/-- The cards that a seat shows down, its own first, if it holds cards and the board is whole. -/
def faceUp (t : Table) (seat : Nat) : Option (List Card) :=
  if t.board.length = 5 then ((t.seats[seat]?).bind (·.hole)).map fun (a, b) => a :: b :: t.board
  else none

theorem strength_eq (t : Table) (seat : Nat) :
    t.strength seat = (t.faceUp seat).map Hand.evaluate := by
  unfold strength faceUp
  split
  · rw [Option.map_map]
    rfl
  · rfl

theorem length_of_faceUp {seat : Nat} {cards : List Card} (h : t.faceUp seat = some cards) :
    cards.length = 7 := by
  unfold faceUp at h
  split at h
  · rename_i hboard
    obtain ⟨hole, -, rfl⟩ := Option.map_eq_some_iff.mp h
    rw [List.length_cons, List.length_cons, hboard]
  · cases h

/-- The cards that are shown down are the same, seat by seat, but for their order and a renaming of
suits. -/
def ShowsSame (t t' : Table) : Prop :=
  ∀ seat, Option.Rel (fun cards cards' => ∃ f, Function.Bijective f ∧ Hand.SameBut f cards cards')
    (t.faceUp seat) (t'.faceUp seat)

theorem ShowsSame.strength_eq (h : ShowsSame t t') : t'.strength = t.strength := by
  funext seat
  have hseat := h seat
  rw [Table.strength_eq, Table.strength_eq]
  generalize hshown : t.faceUp seat = shown, t'.faceUp seat = shown' at hseat ⊢
  cases hseat with
  | none => rfl
  | @some cards cards' hsame =>
    obtain ⟨f, hf, hsame⟩ := hsame
    have hlen : cards.length ≤ 9 := by
      rw [length_of_faceUp hshown]
      decide
    exact congrArg some (hsame.evaluate_eq hf hlen)

/-- What the seats win at a showdown hangs on the cards through the strengths alone. -/
theorem ShowsSame.winnings_eq (h : ShowsSame t t') (hchips : t'.contributions = t.contributions)
    (hlive : t'.live = t.live) : t'.winnings = t.winnings := by
  have hlen : t'.seats.length = t.seats.length := by
    have := congrArg List.length hlive
    unfold live at this
    rwa [List.length_map, List.length_map] at this
  unfold winnings pots
  rw [hchips, hlive, hlen, h.strength_eq]

end Table

/-- **A showdown depends neither on the order of cards nor on the names of suits.**
* Seven cards, some of them perhaps the same, are as strong in any order, and with the suits renamed
  in any way that keeps them apart.
* Two hole cards with a board are as strong as two other ones with another board that are the same
  seven cards, whichever of them lie on the board.
* If the seats of two tables put in the same, the same are still in the hand, and each shows down
  the same seven cards but for order and names of suits, then each seat wins the same. -/
theorem showdown_symmetric :
    (∀ (cards cards' : List Card) (f : Suit → Suit), cards.length = 7 → Function.Bijective f →
      cards'.Perm (cards.map (Card.recolored f)) → Hand.evaluate cards' = Hand.evaluate cards) ∧
    (∀ (a b a' b' : Card) (board board' : List Card), board.length = 5 →
      (a' :: b' :: board').Perm (a :: b :: board) →
        Hand.evaluateHolding a' b' board' = Hand.evaluateHolding a b board) ∧
    ∀ t t' : Table, t'.contributions = t.contributions → t'.live = t.live → t.ShowsSame t' →
      t'.winnings = t.winnings := by
  refine ⟨fun cards cards' f hlen hf h => ?_, fun a b a' b' board board' hboard h => ?_,
    fun t t' hchips hlive h => h.winnings_eq hchips hlive⟩
  · have hsame : Hand.SameBut f cards cards' := h
    exact hsame.evaluate_eq hf (by omega)
  · have hlen : (a :: b :: board).length ≤ 9 := by
      rw [List.length_cons, List.length_cons]
      omega
    exact (Hand.sameBut_of_perm h).evaluate_eq Function.bijective_id hlen

/-- Each suit takes the name of the next one. -/
def Suit.next : Suit → Suit
  | clubs => diamonds
  | diamonds => hearts
  | hearts => spades
  | spades => clubs

theorem Suit.next_bijective : Function.Bijective Suit.next := by
  constructor
  · intro s s' h
    cases s <;> cases s' <;> first | rfl | cases h
  · intro s
    cases s
    exacts [⟨spades, rfl⟩, ⟨clubs, rfl⟩, ⟨diamonds, rfl⟩, ⟨hearts, rfl⟩]

/-- A board with three spades. -/
def spadeBoard : List Card :=
  [⟨.ace, .spades⟩, ⟨.nine, .spades⟩, ⟨.four, .spades⟩, ⟨.four, .hearts⟩, ⟨.two, .diamonds⟩]

/-- Two seats that show down on a board. -/
def spadeTable (mine yours : Card × Card) (board : List Card) : Table :=
  { Table.vacant with
    seats := [⟨100, 60, 0, 40, false, some mine⟩, ⟨100, 60, 0, 40, false, some yours⟩]
    board }

/-- The ace of spades is dealt twice. In another order, with a hole card exchanged for one of the
board, and with other names of suits, the five spades are the same flush. Two seats that turn their
cards around, on a board dealt from its end, win what they won. -/
theorem showdown_symmetric_spades :
    Hand.evaluate ((⟨.king, .spades⟩ :: ⟨.ace, .spades⟩ :: spadeBoard).reverse.map
      (Card.recolored Suit.next)) = ⟨.flush, [14, 13, 9, 4, 0]⟩ ∧
    Hand.evaluateHolding ⟨.two, .diamonds⟩ ⟨.ace, .spades⟩ [⟨.four, .hearts⟩, ⟨.four, .spades⟩,
      ⟨.nine, .spades⟩, ⟨.ace, .spades⟩, ⟨.king, .spades⟩] = ⟨.flush, [14, 13, 9, 4, 0]⟩ ∧
    (spadeTable (⟨.ace, .spades⟩, ⟨.king, .spades⟩) (⟨.nine, .clubs⟩, ⟨.nine, .hearts⟩)
      spadeBoard.reverse).winnings = [0, 80] := by
  obtain ⟨hseven, hholding, htables⟩ := showdown_symmetric
  have hflush : Hand.evaluate (⟨.king, .spades⟩ :: ⟨.ace, .spades⟩ :: spadeBoard) =
      ⟨.flush, [14, 13, 9, 4, 0]⟩ := by decide
  refine ⟨?_, ?_, ?_⟩
  · rw [hseven (⟨.king, .spades⟩ :: ⟨.ace, .spades⟩ :: spadeBoard) _ Suit.next rfl
      Suit.next_bijective ((List.reverse_perm _).map _), hflush]
  · rw [hholding ⟨.king, .spades⟩ ⟨.ace, .spades⟩ _ _ spadeBoard _ rfl (by decide)]
    exact hflush
  · have hperm : ∀ a b : Card, Hand.SameBut id (a :: b :: spadeBoard)
        (b :: a :: spadeBoard.reverse) := fun a b =>
      Hand.sameBut_of_perm ((List.Perm.swap a b _).trans
        (((List.reverse_perm spadeBoard).cons b).cons a))
    have hshown : (spadeTable (⟨.king, .spades⟩, ⟨.ace, .spades⟩)
        (⟨.nine, .hearts⟩, ⟨.nine, .clubs⟩) spadeBoard).ShowsSame
          (spadeTable (⟨.ace, .spades⟩, ⟨.king, .spades⟩) (⟨.nine, .clubs⟩, ⟨.nine, .hearts⟩)
            spadeBoard.reverse)
      | 0 => .some ⟨id, Function.bijective_id, hperm _ _⟩
      | 1 => .some ⟨id, Function.bijective_id, hperm _ _⟩
      | _ + 2 => .none
    refine (htables _ _ ?_ ?_ hshown).trans (by decide)
    · rfl
    · rfl

end Holdem
