import Holdem.Proofs.Sequence.Grammar

/-!
# The texts of hands

A text is cut at its slashes, and its pieces are what is left of the parts when they are trimmed
and the empty ones are dropped (`PiecesOf`). `ActionSequence.Means` and `ActionSequence.Fault` are
put together from those of the pieces: a text without pieces is empty, a hand does not start with a
board street, and any other fault is that of the first piece that has one.

Result: **`sequence_language`**, that `ActionSequence.ofText` accepts exactly the texts that mean a
hand, with that hand as its result, and reports exactly the faults.
-/

namespace Holdem

/-- The pieces of a text: what stands between its slashes, trimmed, the empty ones dropped. -/
def PiecesOf (text : String) (pieces : List (List Char)) : Prop :=
  ∃ parts trimmed, Text.CutAt '/' text.toList parts ∧ List.Forall₂ Text.TrimmedTo parts trimmed ∧
    pieces = trimmed.filter (· ≠ [])

theorem piecesOf_iff {text : String} {pieces : List (List Char)} :
    PiecesOf text pieces ↔
      pieces = ((Text.pieces (· == '/') text.toList).map Text.trim).filter (· ≠ []) := by
  simp only [PiecesOf, Text.cutAt_iff, Text.forall₂_trimmedTo_iff]
  constructor
  · rintro ⟨_, _, rfl, rfl, rfl⟩
    rfl
  · rintro rfl
    exact ⟨_, _, rfl, rfl, rfl⟩

theorem PiecesOf.ofText_eq {text : String} {pieces : List (List Char)} (h : PiecesOf text pieces) :
    RawStreet.ofText text = pieces.map .ofPiece := by
  rw [piecesOf_iff.mp h]
  rfl

namespace ActionSequence

variable {text : String} {first : List Char} {rest : List (List Char)}

/-- What a text means. -/
inductive Means (text : String) : ActionSequence → Prop
  | intro {first : List Char} {rest : List (List Char)} {streets : List Street}
      (hpieces : PiecesOf text (first :: rest)) (hfirst : ∀ kind, ¬ BoardKind.Of first kind)
      (hstreets : List.Forall₂ Street.Means (first :: rest) streets) : Means text ⟨streets⟩

/-- What is wrong with a text. -/
inductive Fault (text : String) : SequenceError → Prop
  | empty (hpieces : PiecesOf text []) : Fault text .empty
  | board {first : List Char} {rest : List (List Char)} {kind : BoardKind}
      (hpieces : PiecesOf text (first :: rest)) (hfirst : kind.Of first) :
      Fault text (.boardBeforePreflop (String.ofList first))
  | street {first : List Char} {rest : List (List Char)} {e : SequenceError}
      (hpieces : PiecesOf text (first :: rest)) (hfirst : ∀ kind, ¬ BoardKind.Of first kind)
      (hfault : FirstFault Street.Means Street.Fault (first :: rest) e) : Fault text e

/-- A hand that starts with betting is checked street by street. -/
theorem ofText_of_betting (hpieces : PiecesOf text (first :: rest))
    (hfirst : ∀ kind, ¬ BoardKind.Of first kind) :
    ofText text =
      (checkEach (fun piece => Street.ofRaw (.ofPiece piece)) (first :: rest)).map (⟨·⟩) := by
  have hraw : RawStreet.ofPiece first = .betting ((Text.words first).map String.ofList) := by
    rw [RawStreet.ofPiece, RawStreet.boardKind?_eq_none hfirst]
  rw [ofText, hpieces.ofText_eq, ← checkEach_map, List.map_cons, hraw]
  rfl

theorem ofText_of_means {sequence : ActionSequence} (h : Means text sequence) :
    ofText text = .ok sequence := by
  obtain ⟨hpieces, hfirst, hstreets⟩ := h
  rw [ofText_of_betting hpieces hfirst, Street.decides.each.means hstreets]
  rfl

theorem ofText_of_fault {e : SequenceError} (h : Fault text e) : ofText text = .error e := by
  cases h with
  | empty hpieces =>
    rw [ofText, hpieces.ofText_eq]
    rfl
  | board hpieces hfirst =>
    rw [ofText, hpieces.ofText_eq, List.map_cons, RawStreet.ofPiece, RawStreet.boardKind?_of hfirst]
    rfl
  | street hpieces hfirst hfault =>
    rw [ofText_of_betting hpieces hfirst, Street.decides.each.fault hfault]
    rfl

/-- Each text means a hand or has a fault. -/
theorem means_or_fault (text : String) :
    (∃ sequence, Means text sequence) ∨ ∃ e, Fault text e := by
  obtain ⟨pieces, hpieces⟩ : ∃ pieces, PiecesOf text pieces := ⟨_, piecesOf_iff.mpr rfl⟩
  cases pieces with
  | nil => exact Or.inr ⟨_, .empty hpieces⟩
  | cons first rest =>
    by_cases hboard : ∃ kind, BoardKind.Of first kind
    · obtain ⟨kind, hkind⟩ := hboard
      exact Or.inr ⟨_, .board hpieces hkind⟩
    · have hfirst := not_exists.mp hboard
      rcases Street.decides.each.total (first :: rest) with ⟨streets, hstreets⟩ | ⟨e, hfault⟩
      · exact Or.inl ⟨_, .intro hpieces hfirst hstreets⟩
      · exact Or.inr ⟨e, .street hpieces hfirst hfault⟩

/-- **The check of a text.** -/
theorem decides : Decides ofText Means Fault :=
  ⟨ofText_of_means, ofText_of_fault, means_or_fault⟩

end ActionSequence

/-- **The language of hands.** A text is accepted exactly if it means a hand, which is then the
result, and it is refused with an error exactly if that is its fault. -/
theorem sequence_language (text : String) :
    (∀ sequence, ActionSequence.ofText text = .ok sequence ↔ ActionSequence.Means text sequence) ∧
      (∀ e, ActionSequence.ofText text = .error e ↔ ActionSequence.Fault text e) :=
  ⟨fun _ => ActionSequence.decides.ok_iff, fun _ => ActionSequence.decides.error_iff⟩

end Holdem
