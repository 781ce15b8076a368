import Holdem.Proofs.Settlement.Rehearsal
import Holdem.Proofs.Settlement.Told
import Holdem.Proofs.Settlement.ZeroSum

/-!
# The board streets of a settled hand

A hand that is replayed to its end has dealt each of its board streets as a whole
(`board_of_conduct`), whatever name it has. So the first board street is a flop, and no other is;
whether a later one is named turn or river makes no difference.

Result: **`settle_board_streets`**. The names need not be in their order (`river_before_turn`).
-/

namespace Holdem

/-! ## Lists of names -/

/-- What a filter picks stands somewhere in the list, after what it picked before. -/
theorem exists_split_of_filterMap {α β : Type} {f : α → Option β} {l : List α} {i : Nat} {b : β}
    (h : (l.filterMap f)[i]? = some b) :
    ∃ before a after, l = before ++ a :: after ∧ f a = some b ∧
      (before.filterMap f).length = i := by
  induction l generalizing i with
  | nil => cases h
  | cons a l ih =>
    cases hfa : f a with
    | none =>
      rw [List.filterMap_cons_none hfa] at h
      obtain ⟨before, a', after, rfl, hb, hlen⟩ := ih h
      exact ⟨a :: before, a', after, rfl, hb, by rw [List.filterMap_cons_none hfa, hlen]⟩
    | some b' =>
      rw [List.filterMap_cons_some hfa] at h
      cases i with
      | zero =>
        cases h
        exact ⟨[], a, l, rfl, hfa, rfl⟩
      | succ i =>
        obtain ⟨before, a', after, rfl, hb, hlen⟩ := ih h
        refine ⟨a :: before, a', after, rfl, hb, ?_⟩
        rw [List.filterMap_cons_some hfa, List.length_cons, hlen]

/-- Three names at most, of which the first is the flop and no other. -/
theorem flop_first {kinds : List BoardKind}
    (h : ∀ (i : Nat) kind, kinds[i]? = some kind → i < 3 ∧ (kind = .flop ↔ i = 0)) :
    ∃ second third, second ≠ .flop ∧ third ≠ .flop ∧
      kinds <+: [BoardKind.flop, second, third] := by
  match kinds, h with
  | [], _ => exact ⟨.turn, .river, by decide, by decide, List.nil_prefix⟩
  | [first], h =>
    obtain rfl := (h 0 first rfl).2.mpr rfl
    exact ⟨.turn, .river, by decide, by decide, ⟨_, rfl⟩⟩
  | [first, second], h =>
    obtain rfl := (h 0 first rfl).2.mpr rfl
    have hsecond : second ≠ .flop := fun heq => absurd ((h 1 second rfl).2.mp heq) (by decide)
    exact ⟨second, .river, hsecond, by decide, ⟨_, rfl⟩⟩
  | [first, second, third], h =>
    obtain rfl := (h 0 first rfl).2.mpr rfl
    have hsecond : second ≠ .flop := fun heq => absurd ((h 1 second rfl).2.mp heq) (by decide)
    have hthird : third ≠ .flop := fun heq => absurd ((h 2 third rfl).2.mp heq) (by decide)
    exact ⟨second, third, hsecond, hthird, List.prefix_refl _⟩
  | _ :: _ :: _ :: fourth :: _, h => exact absurd (h 3 fourth rfl).1 (by decide)

namespace Settlement

variable {chips : Stacks} {holes : HoleCards} {seed : UInt64} {t : Table}

/-- When the hole cards are dealt there is no board yet. -/
theorem laid_of_dealAll (h : dealAll seed chips holes = .ok t) : t.laid = (0, []) := by
  obtain ⟨t₀, hcreate, hdeal⟩ := bind_eq_ok.mp h
  refine foldlM_keeps (P := fun x : Table => x.laid = (0, [])) (fun x e x' hx hstep => ?_) ?_ hdeal
  · obtain ⟨m, hmove, hafter⟩ := bind_eq_ok.mp hstep
    have hboard : ∀ c, m ≠ .board c := by
      rintro c rfl
      unfold dealMove at hmove
      split at hmove <;> cases hmove
    exact (Table.laid_of_after (mapError_eq_ok.mp hafter) hboard).trans hx
  · obtain ⟨-, rfl⟩ := Table.create_eq_ok (mapError_eq_ok.mp hcreate)
    rfl

/-- **The board streets of a replay that leads to a complete hand.** -/
theorem board_of_conduct {streets before after : List Street} {kind : BoardKind} {cards : List Card}
    (hplay : conduct seed chips holes streets = .ok t) (hphase : t.phase = .complete)
    (hshaped : ∀ street ∈ streets, street.Shaped)
    (hsplit : streets = before ++ .board kind cards :: after) :
    ∃ t₁ t₂, conduct seed chips holes before = .ok t₁ ∧
      t₁.street = (before.filterMap Street.board?).length ∧ t₁.DealsStreet kind cards t₂ := by
  subst hsplit
  obtain ⟨t₀, hdeal, hstreets⟩ := bind_eq_ok.mp hplay
  have hend : ¬ t.Revealing := by
    rintro ⟨n, hn⟩
    rw [hphase] at hn
    cases hn
  obtain ⟨t₁, t₂, hbefore, hrest⟩ := Table.board_of_split (played_dealAll hdeal)
    (congrArg Prod.fst (laid_of_dealAll hdeal)) hshaped (mapError_eq_ok.mp hstreets) hend
  exact ⟨t₁, t₂, bind_eq_ok.mpr ⟨t₀, hdeal, mapError_eq_ok.mpr hbefore⟩, hrest⟩

end Settlement

/-- **Board streets by name.** Let a hand be accepted by replay. Then
* its board streets are named like those of a hand but for the turn and the river: the first is the
  flop, and two at most follow it, of one card each, which may have either of the other names;
* the log tells of these board streets, in this order;
* each of them is dealt as a whole on the table that the streets before it lead to; that table has
  gone through as many streets as there are board streets before, and the next one is the flop
  exactly if it is named so. -/
theorem settle_board_streets {chips : Stacks} {holes : HoleCards} {text : String}
    {sequence : ActionSequence} {winnings : Winnings}
    (h : (settle chips holes text).result = .ok winnings)
    (hsequence : ActionSequence.ofText text = .ok sequence)
    (hnone : Settlement.shortcut? chips sequence = none) :
    (∃ second third, second ≠ .flop ∧ third ≠ .flop ∧
      sequence.boards.map Prod.fst <+: [BoardKind.flop, second, third]) ∧
    (settle chips holes text).events.filterMap Event.boardDealt? = sequence.boards ∧
    ∀ before kind cards after, sequence.streets = before ++ .board kind cards :: after →
      ∃ t t', Settlement.conduct Deck.defaultSeed chips holes before = .ok t ∧
        t.street = (before.filterMap Street.board?).length ∧ t.DealsStreet kind cards t' := by
  have hevents := settleOn_boards h hsequence hnone
  rw [settle_result] at h
  obtain ⟨sequence', hsequence', -, hwinnings⟩ := Settlement.answer_eq_ok h
  obtain rfl := Except.ok.inj (hsequence.symm.trans hsequence')
  rcases hwinnings with hshort | ⟨-, t, hplay, hread⟩
  · rw [hnone] at hshort
    cases hshort
  · have hphase := (Settlement.results_eq_ok hread).1
    have hshaped := shaped_of_ofText hsequence
    refine ⟨flop_first fun i kind hkind => ?_, hevents, fun before kind cards after hsplit =>
      Settlement.board_of_conduct hplay hphase hshaped hsplit⟩
    -- A name is that of a street with as many board streets before it as names.
    rw [List.getElem?_map] at hkind
    obtain ⟨⟨kind, cards⟩, hboard, rfl⟩ := Option.map_eq_some_iff.mp hkind
    obtain ⟨before, street, after, hsplit, hstreet, hlen⟩ := exists_split_of_filterMap hboard
    cases street with
    | betting actions => cases hstreet
    | board kind cards =>
      cases hstreet
      obtain ⟨t₁, t₂, -, hnumber, hdeals⟩ :=
        Settlement.board_of_conduct hplay hphase hshaped hsplit
      have hriver := hdeals.street_lt
      unfold Table.river at hriver
      rw [hdeals.flop, hdeals.street_eq, hnumber, hlen]
      omega

/-- A hand that is checked down, with the river named before the turn. -/
def swappedText : String :=
  "c x / Flop: [2s,3d,5h] / x x / River: [9c] / x x / Turn: [Kd] / x x"

def swappedStreets : List Street :=
  [.betting [.checkOrCall, .checkOrCall],
    .board .flop [⟨.two, .spades⟩, ⟨.three, .diamonds⟩, ⟨.five, .hearts⟩],
    .betting [.checkOrCall, .checkOrCall], .board .river [⟨.nine, .clubs⟩],
    .betting [.checkOrCall, .checkOrCall], .board .turn [⟨.king, .diamonds⟩],
    .betting [.checkOrCall, .checkOrCall]]

def swappedChips : Stacks := ⟨[("A", 1000), ("B", 1000)], by decide⟩

def swappedHoles : HoleCards :=
  ⟨[("A", [⟨.ace, .spades⟩, ⟨.ace, .diamonds⟩]), ("B", [⟨.seven, .clubs⟩, ⟨.two, .diamonds⟩])],
    by decide⟩

theorem ofText_swapped : ActionSequence.ofText swappedText = .ok ⟨swappedStreets⟩ := by
  decide +kernel

/-- The hand is accepted: the table is told no names. -/
theorem settle_swapped : (settle swappedChips swappedHoles swappedText).result =
    .ok (⟨[("A", 40), ("B", -40)], by decide⟩ : Winnings) := by
  have hplay : (Settlement.rehearse swappedChips swappedHoles swappedStreets >>=
      Settlement.results swappedChips) = .ok (⟨[("A", 40), ("B", -40)], by decide⟩ : Winnings) := by
    decide +kernel
  have hinput : checkInput swappedChips swappedHoles = .ok () := by decide +kernel
  obtain ⟨t, hrehearsed, hread⟩ := bind_eq_ok.mp hplay
  rw [settle_result, ← hread]
  exact Settlement.answer_of_rehearsal ofText_swapped hinput rfl hrehearsed (by decide) _

/-- The log tells of the river when the table of the hand, played up to there, is dealt its second
street. -/
theorem settle_board_streets_swapped :
    ((settle swappedChips swappedHoles swappedText).events.filterMap
      Event.boardDealt?).map Prod.fst = [.flop, .river, .turn] ∧
    ∃ t t' : Table, Settlement.conduct Deck.defaultSeed swappedChips swappedHoles
        (swappedStreets.take 3) = .ok t ∧
      t.playStreet (.board .river [⟨.nine, .clubs⟩]) = .ok t' ∧ t'.street = 2 := by
  obtain ⟨-, hevents, hdealt⟩ := settle_board_streets settle_swapped ofText_swapped rfl
  obtain ⟨t, t', hconduct, hnumber, hdeals⟩ :=
    hdealt (swappedStreets.take 3) _ _ (swappedStreets.drop 4) rfl
  refine ⟨congrArg (List.map Prod.fst) hevents, t, t', hconduct, hdeals.played, ?_⟩
  rw [hdeals.street_eq, hnumber]
  rfl

/-- It is not so that the board streets of an accepted hand are named flop, turn and river. -/
theorem river_before_turn : ¬ ∀ (chips : Stacks) (holes : HoleCards) (text : String)
    (sequence : ActionSequence) (winnings : Winnings),
      (settle chips holes text).result = .ok winnings →
        ActionSequence.ofText text = .ok sequence → Settlement.shortcut? chips sequence = none →
          sequence.boards.map Prod.fst <+: [BoardKind.flop, .turn, .river] := by
  intro h
  have hnames := h _ _ _ _ _ settle_swapped ofText_swapped rfl
  exact absurd hnames (by decide)

end Holdem
