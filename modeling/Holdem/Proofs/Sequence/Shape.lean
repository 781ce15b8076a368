import Holdem.Proofs.Except
import Holdem.Proofs.Text.Cut
import Holdem.Sequence.Check

/-!
# The shape of a checked sequence

What the check of a text promises of the streets that it lets through (`Street.Shaped`): a betting
street has an action at least, as the piece that it is read from is not blank, and a board street
shows as many cards as its name says. `ActionSequence.boards` are the board streets of a sequence.

Result: **`shaped_of_ofText`**.
-/

namespace Holdem

/-! ## Checks on every member of a list -/

section checkEach

variable {α β ε : Type} {check : α → Except ε β} {l : List α} {r : List β}

theorem length_checkEach (h : checkEach check l = .ok r) : r.length = l.length := by
  induction l generalizing r with
  | nil =>
    cases h
    rfl
  | cons a l ih =>
    unfold checkEach at h
    split at h
    · cases h
    · cases hrest : checkEach check l with
      | error e =>
        rw [hrest] at h
        cases h
      | ok rest =>
        rw [hrest] at h
        cases h
        exact congrArg Nat.succ (ih hrest)

/-- Every result is that of a member. -/
theorem mem_checkEach (h : checkEach check l = .ok r) {b : β} (hb : b ∈ r) :
    ∃ a ∈ l, check a = .ok b := by
  induction l generalizing r with
  | nil =>
    cases h
    exact absurd hb List.not_mem_nil
  | cons a l ih =>
    unfold checkEach at h
    split at h
    · cases h
    · rename_i first hfirst
      cases hrest : checkEach check l with
      | error e =>
        rw [hrest] at h
        cases h
      | ok rest =>
        rw [hrest] at h
        cases h
        rcases List.mem_cons.mp hb with rfl | hb
        · exact ⟨a, List.mem_cons_self, hfirst⟩
        · obtain ⟨a', ha', hcheck⟩ := ih hrest hb
          exact ⟨a', List.mem_cons_of_mem a ha', hcheck⟩

end checkEach

/-! ## Streets -/

/-- A betting street has an action, and a board street the cards that its name says. -/
def Street.Shaped : Street → Prop
  | .betting actions => actions ≠ []
  | .board kind cards => cards.length = kind.cardCount

/-- The kind and the cards of a board street. -/
def Street.board? : Street → Option (BoardKind × List Card)
  | board kind cards => some (kind, cards)
  | betting _ => none

/-- The board streets of a hand, in order. -/
def ActionSequence.boards (s : ActionSequence) : List (BoardKind × List Card) :=
  s.streets.filterMap Street.board?

/-- No piece of a text is a betting street without tokens. -/
theorem RawStreet.tokens_ne_nil {text : String} {tokens : List String}
    (h : RawStreet.betting tokens ∈ RawStreet.ofText text) : tokens ≠ [] := by
  obtain ⟨piece, hpiece, hstreet⟩ := List.mem_map.mp h
  obtain ⟨hmem, hne⟩ := List.mem_filter.mp hpiece
  obtain ⟨raw, -, rfl⟩ := List.mem_map.mp hmem
  obtain ⟨c, hc, hblank⟩ := Text.exists_not_blank (of_decide_eq_true hne)
  unfold RawStreet.ofPiece at hstreet
  split at hstreet
  · cases hstreet
  · cases hstreet
    exact fun hnil => Text.words_ne_nil hc hblank (List.map_eq_nil_iff.mp hnil)

theorem Street.shaped_of_ofRaw {raw : RawStreet} {street : Street}
    (h : Street.ofRaw raw = .ok street) (hraw : ∀ tokens, raw = .betting tokens → tokens ≠ []) :
    street.Shaped := by
  unfold Street.ofRaw at h
  split at h
  · rename_i tokens
    obtain ⟨actions, hactions, rfl⟩ := map_eq_ok.mp h
    have hlen := length_checkEach hactions
    have hne := List.length_pos_iff.mpr (hraw tokens rfl)
    exact List.ne_nil_of_length_pos (hlen ▸ hne)
  · cases h
  · split at h
    · rename_i hcount
      obtain ⟨cards, hcards, rfl⟩ := map_eq_ok.mp h
      exact (length_checkEach hcards).trans hcount
    · cases h

/-- **Every street of a checked text** has its actions or its cards. -/
theorem shaped_of_ofText {text : String} {sequence : ActionSequence}
    (h : ActionSequence.ofText text = .ok sequence) :
    ∀ street ∈ sequence.streets, street.Shaped := by
  intro street hstreet
  have hchecked : ∃ streets, checkEach Street.ofRaw (RawStreet.ofText text) = .ok streets ∧
      sequence = ⟨streets⟩ := by
    unfold ActionSequence.ofText ActionSequence.ofRaw at h
    split at h
    · cases h
    · cases h
    · rename_i hraw
      obtain ⟨streets, hstreets, rfl⟩ := map_eq_ok.mp h
      exact ⟨streets, hraw ▸ hstreets, rfl⟩
  obtain ⟨streets, hstreets, rfl⟩ := hchecked
  obtain ⟨raw, hmem, hraw⟩ := mem_checkEach hstreets hstreet
  exact Street.shaped_of_ofRaw hraw fun tokens heq => RawStreet.tokens_ne_nil (heq ▸ hmem)

end Holdem
