import Holdem.Proofs.Settlement.Input
import Holdem.Proofs.Settlement.Replay

/-!
# Rehearsals

A replay plays with the deck of a seed, and the deck decides nothing as long as it lasts. So a
replay can be rehearsed on a deck in its first order (`rehearse`): what is accepted there, of a hand
that uses no more than 52 cards, is accepted with any seed, and leads to the same table but for the
deck (`conduct_of_rehearsal`). As payoffs do not look at the deck, the answers are the same
(**`answer_of_rehearsal`**).
-/

namespace Holdem

/-! ## Another deck -/

namespace Table

/-- What `f` does with a table it does with another deck too, of which it takes `cost` cards at
most. -/
def Lifts {ε α : Type} (f : Table → α → Except ε Table) (cost : α → Nat) : Prop :=
  ∀ (t t' : Table) (a : α) (d : Deck), f t a = .ok t' → cost a ≤ d.remaining →
    ∃ d', f (t.withDeck d) a = .ok (t'.withDeck d') ∧ d.remaining ≤ d'.remaining + cost a

theorem lifts_after : Lifts after Move.cards := by
  intro t t' m d h hd
  obtain ⟨d', hstep, hrest⟩ := transition_withDeck (transition_of_after h) hd
  exact ⟨d', after_eq_ok.mpr (play_of_transition hstep), hrest⟩

theorem lifts_playAction : Lifts playAction fun _ => 0 := by
  intro t t' a d h hd
  obtain ⟨seat, hactor, hrest⟩ := bind_eq_ok.mp h
  obtain ⟨m, hmove, hafter⟩ := bind_eq_ok.mp hrest
  have hfree : m.cards = 0 := by
    obtain ⟨a', ha'⟩ := moveOf_eq_ok hmove
    cases m <;> first | rfl | cases ha'
  obtain ⟨d', hplay, hd'⟩ := lifts_after t t' m d hafter (hfree ▸ hd)
  exact ⟨d', bind_eq_ok.mpr ⟨seat, hactor, bind_eq_ok.mpr ⟨m, hmove, hplay⟩⟩, hfree ▸ hd'⟩

/-- A loop takes what its rounds take. -/
theorem Lifts.foldlM {ε α : Type} {f : Table → α → Except ε Table} {cost : α → Nat}
    (h : Lifts f cost) {t t' : Table} {l : List α} {d : Deck} (hfold : l.foldlM f t = .ok t')
    (hd : (l.map cost).sum ≤ d.remaining) :
    ∃ d', l.foldlM f (t.withDeck d) = .ok (t'.withDeck d') ∧
      d.remaining ≤ d'.remaining + (l.map cost).sum := by
  induction l generalizing t d with
  | nil =>
    cases hfold
    exact ⟨d, rfl, Nat.le_add_right _ _⟩
  | cons a l ih =>
    rw [List.foldlM_cons] at hfold
    obtain ⟨t₁, hfirst, hrest⟩ := bind_eq_ok.mp hfold
    rw [List.map_cons, List.sum_cons] at hd ⊢
    obtain ⟨d₁, hfirst', hd₁⟩ := h t t₁ a d hfirst (by omega)
    obtain ⟨d', hrest', hd'⟩ := ih hrest (d := d₁) (by omega)
    refine ⟨d', ?_, by omega⟩
    rw [List.foldlM_cons, hfirst']
    exact hrest'

end Table

/-- How many cards a street takes out of the deck, at most. -/
def Street.cost : Street → Nat
  | .board _ cards => cards.length + 1
  | .betting _ => 0

namespace Table

theorem cost_board (cards : List Card) :
    ((Move.burn :: cards.map .board).map Move.cards).sum = cards.length + 1 := by
  have hone : (cards.map Move.board).map Move.cards = cards.map fun _ => 1 := List.map_map
  rw [List.map_cons, List.sum_cons, hone]
  simp [Move.cards, Nat.add_comm]

theorem lifts_playStreet : Lifts playStreet Street.cost := by
  intro t t' street d h hd
  cases street with
  | board kind cards =>
    have hlift := lifts_after.foldlM (d := d) h
    rw [cost_board] at hlift
    exact hlift hd
  | betting actions =>
    have hfree : (actions.map fun _ => 0).sum = 0 := by simp
    have hlift := lifts_playAction.foldlM (d := d) h
    rw [hfree] at hlift
    exact hlift hd

end Table

namespace Settlement

variable {chips : Stacks} {holes : HoleCards} {t : Table}

theorem lifts_dealEntry (chips : Stacks) : Table.Lifts (dealEntry chips) fun _ => 2 := by
  intro t t' e d h hd
  obtain ⟨m, hmove, hafter⟩ := bind_eq_ok.mp h
  have hcards : m.cards ≤ 2 := by cases m <;> simp [Move.cards]
  obtain ⟨d', hplay, hd'⟩ :=
    Table.lifts_after t t' m d (mapError_eq_ok.mp hafter) (hcards.trans hd)
  exact ⟨d', bind_eq_ok.mpr ⟨m, hmove, mapError_eq_ok.mpr hplay⟩,
    hd'.trans (Nat.add_le_add_left hcards _)⟩

/-! ## Rehearsals -/

/-- A replay on a deck in its first order. -/
def rehearse (chips : Stacks) (holes : HoleCards) (streets : List Street) :
    Except SettleError Table := do
  let t ← holes.entries.foldlM (dealEntry chips) (Table.seated .standard chips.values)
  (t.playStreets streets).mapError (.engine .actionProcessing)

/-- How many cards a hand takes out of the deck, at most. -/
def cost (holes : HoleCards) (streets : List Street) : Nat :=
  (holes.entries.map fun _ => 2).sum + (streets.map Street.cost).sum

/-- **What is rehearsed is a replay** with any seed, but for the deck. -/
theorem conduct_of_rehearsal {streets : List Street} (hplayable : Playable chips.values)
    (h : rehearse chips holes streets = .ok t) (hcost : cost holes streets ≤ 52) (seed : UInt64) :
    ∃ d, conduct seed chips holes streets = .ok (t.withDeck d) := by
  obtain ⟨t₀, hdeal, hplay⟩ := bind_eq_ok.mp h
  have hdeck := Deck.remaining_ofSeed seed
  unfold cost at hcost
  obtain ⟨d₀, hdeal', hd₀⟩ :=
    (lifts_dealEntry chips).foldlM (d := Deck.ofSeed seed) hdeal (by omega)
  obtain ⟨d, hplay', -⟩ :=
    Table.lifts_playStreet.foldlM (d := d₀) (mapError_eq_ok.mp hplay) (by omega)
  refine ⟨d, bind_eq_ok.mpr ⟨_, ?_, mapError_eq_ok.mpr hplay'⟩⟩
  exact bind_eq_ok.mpr ⟨_, mapError_eq_ok.mpr (Table.create_of_playable .standard hplayable seed),
    hdeal'⟩

/-- **The answer does not depend on the seed** where a hand uses no more cards than there are. -/
theorem answer_of_rehearsal {text : String} {sequence : ActionSequence}
    (hsequence : ActionSequence.ofText text = .ok sequence)
    (hinput : checkInput chips holes = .ok ()) (hnone : shortcut? chips sequence = none)
    (h : rehearse chips holes sequence.streets = .ok t)
    (hcost : cost holes sequence.streets ≤ 52) (seed : UInt64) :
    answer seed chips holes text = results chips t := by
  obtain ⟨d, hconduct⟩ :=
    conduct_of_rehearsal (checkInput_eq_ok_iff.mp hinput).playable h hcost seed
  rw [answer_of_replayed hsequence hinput hnone, hconduct]
  rfl

end Settlement

end Holdem
