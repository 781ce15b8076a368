import Holdem.Proofs.Sequence.Language
import Holdem.Proofs.Sequence.Shape

/-!
# Printed hands

A hand is written by its tokens: the actions of a betting street with white space between them, the
cards of a board street in brackets behind its name, and slashes between the streets. Where white
space may stand, how much of it does is left open, and so is the number of empty streets:
`ActionSequence.Printed` holds of all the texts that a hand has.

* Few characters are used in a betting street and in a card list (`Street.not_mem_betting`,
  `Cards.not_mem_list`), so no name, bracket, comma or slash is found where none was written.
* **`Street.Printed.means`**: a printed street means that street.

Result: **`read_printed`**, that each text of a hand is read as that hand.
-/

namespace Holdem

open Text (Blank Solid Tight Padded TrimmedTo Worded CutAt isBlank)

/-! ## Texts of a hand -/

/-- Tokens with white space between them. -/
inductive Spaced : List (List Char) → List Char → Prop
  | last (token : List Char) : Spaced [token] token
  | cons {token gap s : List Char} {tokens : List (List Char)} (hgap : Blank gap) (hne : gap ≠ [])
      (hrest : Spaced tokens s) : Spaced (token :: tokens) (token ++ gap ++ s)

/-- The cards of a list, each with any white space around it. -/
def Cards (cards : List Card) (items : List (List Char)) : Prop :=
  List.Forall₂ (fun card item => Padded card.text.toList item) cards items

/-- The texts of a street. -/
inductive Street.Printed : Street → List Char → Prop
  | betting {actions : List Action} {s : List Char}
      (h : Spaced (actions.map fun action => action.text.toList) s) : Printed (.betting actions) s
  | board {cards : List Card} {items : List (List Char)} (kind : BoardKind)
      (h : Cards cards items) :
      Printed (.board kind cards)
        (kind.text.toList ++ ": [".toList ++ [','].intercalate items ++ "]".toList)

/-- The streets of a hand between slashes, with any white space around each and any empty streets
in between. -/
inductive LaidOut : List Street → List (List Char) → Prop
  | nil : LaidOut [] []
  | empty {streets : List Street} {s : List Char} {parts : List (List Char)} (h : Blank s)
      (hrest : LaidOut streets parts) : LaidOut streets (s :: parts)
  | street {street : Street} {streets : List Street} {s part : List Char}
      {parts : List (List Char)} (h : street.Printed s) (hpart : Padded s part)
      (hrest : LaidOut streets parts) : LaidOut (street :: streets) (part :: parts)

/-- The texts of a hand. -/
def ActionSequence.Printed (sequence : ActionSequence) (text : String) : Prop :=
  ∃ parts, LaidOut sequence.streets parts ∧ text.toList = ['/'].intercalate parts

/-- The amounts of an action are positive and have 64 signed bits. -/
def Action.Payable (action : Action) : Prop :=
  ∀ n, action = .raiseTo n → 0 < n ∧ n ≤ Chips.most

/-- A street that can be read: not empty or with the right number of cards, with payable actions. -/
structure Street.Printable (street : Street) : Prop where
  shaped : street.Shaped
  payable : ∀ actions, street = .betting actions → ∀ action ∈ actions, action.Payable

theorem Street.Printable.cards_ne_nil {street : Street} (h : street.Printable) {kind : BoardKind}
    {cards : List Card} (heq : street = .board kind cards) : cards ≠ [] := by
  rintro rfl
  subst heq
  have hcount := h.shaped
  cases kind <;> cases hcount

/-- A hand that can be read: it starts with betting, and each of its streets can be read. -/
structure ActionSequence.Printable (sequence : ActionSequence) : Prop where
  opens : ∃ actions streets, sequence.streets = .betting actions :: streets
  streets : ∀ street ∈ sequence.streets, street.Printable

/-! ## Tokens -/

namespace Action

variable {action : Action} {c : Char}

/-- The characters in which actions are written. -/
def ink (c : Char) : Bool := c.isDigit || "fcralin".toList.contains c

theorem means_text (h : action.Payable) : Means action.text.toList action := by
  cases action with
  | fold => exact .fold
  | checkOrCall => exact .call
  | allIn => exact .allIn
  | raiseTo n =>
    obtain ⟨hpos, hmost⟩ := h n rfl
    have hbet : Bet (text (.raiseTo n)).toList (Chips.digits n).toList := by
      rw [text, String.toList_append]
      exact .raise _
    exact .raise hbet (Chips.written_digits hpos hmost) hpos

theorem ink_text (h : action.Payable) (hc : c ∈ action.text.toList) : ink c = true := by
  have hletters : ∀ c ∈ "fcralin".toList, ink c = true := List.all_eq_true.mp (by decide)
  cases action with
  | raiseTo n =>
    rw [text, String.toList_append, List.mem_append, Chips.toList_digits (h n rfl).1] at hc
    rcases hc with hr | hdigit
    · exact hletters c ((by decide : _ ⊆ "fcralin".toList) hr)
    · simp [ink, (Text.digits_natDigits n.natAbs).digit c hdigit]
  | fold | checkOrCall | allIn =>
    exact hletters c ((by decide : _ ⊆ "fcralin".toList) hc)

theorem text_ne_nil (action : Action) : action.text.toList ≠ [] := by
  cases action <;> simp [text]

theorem isBlank_of_ink (h : ink c = true) : isBlank c = false := by
  have hletters : Solid "fcralin".toList := by decide
  simp only [ink, Bool.or_eq_true, List.contains_iff_mem] at h
  exact h.elim Text.isBlank_of_isDigit (hletters c)

/-- A token has no white space. -/
theorem solid_text (h : action.Payable) : Solid action.text.toList :=
  fun _ hc => isBlank_of_ink (ink_text h hc)

end Action

namespace Spaced

variable {tokens : List (List Char)} {token s : List Char} {c : Char}

/-- The tokens are the words. -/
theorem words_eq (h : Spaced tokens s) (hsolid : ∀ token ∈ tokens, token ≠ [] ∧ Solid token) :
    Text.words s = tokens := by
  induction h with
  | last token =>
    obtain ⟨hne, hsolid⟩ := hsolid token List.mem_cons_self
    exact Text.words_of_solid hne hsolid
  | @cons token gap s tokens hgap hne hrest ih =>
    obtain ⟨⟨htoken, hsolid⟩, htokens⟩ := List.forall_mem_cons.mp hsolid
    have hhead : ∀ c, (gap ++ s).head? = some c → isBlank c = true := by
      intro c hc
      rw [List.head?_append_of_ne_nil _ hne] at hc
      exact hgap c (List.mem_of_head? hc)
    rw [List.append_assoc, Text.words_append_of_solid htoken hsolid hhead,
      Text.words_append_of_blank hgap, ih htokens]

theorem ne_nil (h : Spaced tokens s) (hne : ∀ token ∈ tokens, token ≠ []) : s ≠ [] := by
  cases h with
  | last => exact hne _ List.mem_cons_self
  | cons =>
    have htoken := hne _ List.mem_cons_self
    simp [htoken]

theorem tight (h : Spaced tokens s) (hsolid : ∀ token ∈ tokens, token ≠ [] ∧ Solid token) :
    Tight s := by
  induction h with
  | last token => exact (hsolid token List.mem_cons_self).2.tight
  | @cons token gap s tokens _ _ hrest ih =>
    obtain ⟨⟨htoken, hsolid⟩, htokens⟩ := List.forall_mem_cons.mp hsolid
    have hs := hrest.ne_nil fun token htoken => (htokens token htoken).1
    exact hsolid.tight.append htoken (ih htokens) hs gap

/-- A character stands in a token or is white space. -/
theorem mem (h : Spaced tokens s) (hc : c ∈ s) :
    isBlank c = true ∨ ∃ token ∈ tokens, c ∈ token := by
  induction h with
  | last token => exact Or.inr ⟨token, List.mem_cons_self, hc⟩
  | cons hgap _ _ ih =>
    simp only [List.mem_append] at hc
    rcases hc with (hc | hc) | hc
    · exact Or.inr ⟨_, List.mem_cons_self, hc⟩
    · exact Or.inl (hgap c hc)
    · exact (ih hc).imp_right fun ⟨token, htoken, hc⟩ => ⟨token, List.mem_cons_of_mem _ htoken, hc⟩

end Spaced

/-! ## Betting streets -/

namespace Street

variable {actions : List Action} {s : List Char} {c : Char}

theorem tokens_of_payable (hpay : ∀ action ∈ actions, action.Payable) :
    ∀ token ∈ actions.map fun action => action.text.toList, token ≠ [] ∧ Solid token := by
  intro token htoken
  obtain ⟨action, haction, rfl⟩ := List.mem_map.mp htoken
  exact ⟨action.text_ne_nil, Action.solid_text (hpay action haction)⟩

/-- A printed betting street has no other characters than white space and those of its tokens. -/
theorem not_mem_betting (h : Spaced (actions.map fun action => action.text.toList) s)
    (hpay : ∀ action ∈ actions, action.Payable) (hc : (isBlank c || Action.ink c) = false) :
    c ∉ s := by
  intro hmem
  rw [Bool.or_eq_false_iff] at hc
  rcases h.mem hmem with hblank | ⟨token, htoken, hmem⟩
  · simp [hblank] at hc
  · obtain ⟨action, haction, rfl⟩ := List.mem_map.mp htoken
    simp [Action.ink_text (hpay action haction) hmem] at hc

/-- A name that starts with a character that is not there is not there. -/
theorem not_board {s : List Char} (hF : 'F' ∉ s) (hT : 'T' ∉ s) (hR : 'R' ∉ s) (kind : BoardKind) :
    ¬ kind.Of s := by
  rintro (h | ⟨-, h⟩ | ⟨-, -, h⟩)
  · exact hF (h.subset (by decide))
  · exact hT (h.subset (by decide))
  · exact hR (h.subset (by decide))

theorem means_betting (h : Spaced (actions.map fun action => action.text.toList) s)
    (hpay : ∀ action ∈ actions, action.Payable) : Means s (.betting actions) := by
  have hwords := Text.worded_iff.mpr (h.words_eq (tokens_of_payable hpay)).symm
  have hkind := not_board (not_mem_betting h hpay (by decide)) (not_mem_betting h hpay (by decide))
    (not_mem_betting h hpay (by decide))
  refine .betting hkind hwords ?_
  rw [List.forall₂_map_left_iff, List.forall₂_same]
  exact fun action haction => Action.means_text (hpay action haction)

end Street

/-! ## Card lists -/

/-- The characters in which cards are written. -/
def Card.ink (c : Char) : Bool := "23456789TJQKAhdcs".toList.contains c

theorem Card.toList_text (card : Card) : card.text.toList = card.chars := String.toList_ofList

theorem Card.ink_chars {card : Card} {c : Char} (hc : c ∈ card.chars) : ink c = true := by
  have hrank : ∀ c ∈ "23456789TJQKA".toList, ink c = true := List.all_eq_true.mp (by decide)
  have hsuit : ∀ c ∈ "hdcs".toList, ink c = true := List.all_eq_true.mp (by decide)
  obtain ⟨hr, hs⟩ := card.letter_mem
  rcases List.mem_pair.mp hc with rfl | rfl
  · exact hrank _ hr
  · exact hsuit _ hs

theorem Card.solid_chars (card : Card) : Solid card.chars := by
  have hink : Solid "23456789TJQKAhdcs".toList := by decide
  exact fun c hc => hink c (List.contains_iff_mem.mp (Card.ink_chars hc))

namespace Cards

variable {cards : List Card} {items : List (List Char)} {item : List Char} {c : Char}

/-- An item has no other characters than white space and those of its card. -/
theorem not_mem_item (h : Cards cards items) (hitem : item ∈ items)
    (hc : (isBlank c || Card.ink c) = false) : c ∉ item := by
  rw [Bool.or_eq_false_iff] at hc
  induction h with
  | nil => exact absurd hitem List.not_mem_nil
  | @cons card _ cards items hcard _ ih =>
    rcases List.mem_cons.mp hitem with rfl | hitem
    · obtain ⟨l, r, hl, hr, rfl⟩ := hcard
      simp only [List.mem_append, not_or]
      refine ⟨⟨fun hmem => ?_, fun hmem => ?_⟩, fun hmem => ?_⟩
      · simp [hl c hmem] at hc
      · simp [Card.ink_chars (card.toList_text ▸ hmem)] at hc
      · simp [hr c hmem] at hc
    · exact ih hitem

theorem cutAt (h : Cards cards items) (hne : cards ≠ []) :
    CutAt ',' ([','].intercalate items) items := by
  refine ⟨fun hnil => ?_, fun item hitem => h.not_mem_item hitem (by decide), rfl⟩
  exact hne (List.length_eq_zero_iff.mp (by simpa [hnil] using h.length_eq))

/-- A card list has no other characters than commas, white space and those of cards. -/
theorem not_mem_list (h : Cards cards items) (hne : cards ≠ []) (hcomma : c ≠ ',')
    (hc : (isBlank c || Card.ink c) = false) : c ∉ [','].intercalate items := by
  intro hmem
  rcases (h.cutAt hne).eq_or_mem hmem with heq | ⟨item, hitem, hmem⟩
  · exact hcomma heq
  · exact h.not_mem_item hitem hc hmem

/-- The items of a printed list are the tokens of its cards. -/
theorem itemsOf (h : Cards cards items) (hne : cards ≠ []) :
    ItemsOf ([','].intercalate items) (cards.map Card.chars) := by
  refine ⟨items, h.cutAt hne, ?_⟩
  rw [List.forall₂_map_right_iff]
  refine List.Forall₂.flip (h.imp fun card item hitem => ?_)
  rw [card.toList_text] at hitem
  exact ⟨hitem, card.solid_chars.tight⟩

theorem list_ne_nil (h : Cards cards items) (hne : cards ≠ []) : [','].intercalate items ≠ [] := by
  intro hnil
  cases h with
  | nil => exact hne rfl
  | @cons card item cards items hcard hrest =>
    obtain ⟨l, r, -, -, rfl⟩ := hcard
    cases items with
    | nil => simp [card.toList_text, Card.chars] at hnil
    | cons => simp [List.intercalate_cons_cons, card.toList_text, Card.chars] at hnil

end Cards

/-! ## Board streets -/

/-- The name of a street is found at its front, if the others are nowhere. -/
theorem BoardKind.of_text {s : List Char} (hF : 'F' ∉ s) (hu : 'u' ∉ s) (kind : BoardKind) :
    kind.Of (kind.text.toList ++ s) := by
  have hflop : ∀ name, 'F' ∉ name → ¬ "Flop".toList <:+: name ++ s := fun name hname h =>
    (List.mem_append.mp (h.subset (by decide : 'F' ∈ "Flop".toList))).elim hname hF
  -- A list may hold a ten, written `T`, so it is the `u` that tells that no turn is named.
  have hturn : ∀ name, 'u' ∉ name → ¬ "Turn".toList <:+: name ++ s := fun name hname h =>
    (List.mem_append.mp (h.subset (by decide : 'u' ∈ "Turn".toList))).elim hname hu
  have hname := (List.prefix_append kind.text.toList s).isInfix
  cases kind with
  | flop => exact .flop hname
  | turn => exact .turn (hflop _ (by decide)) hname
  | river => exact .river (hflop _ (by decide)) (hturn _ (by decide)) hname

theorem Bracketed.of_not_mem {before list : List Char} (hopen : '[' ∉ before) (hne : list ≠ [])
    (hclose : ']' ∉ list) : Bracketed (before ++ '[' :: list ++ [']']) list := by
  obtain ⟨first, rest, rfl⟩ := List.exists_cons_of_ne_nil hne
  exact .intro hopen fun h => hclose (List.mem_cons_of_mem first h)

namespace Street

variable {cards : List Card} {items : List (List Char)} {kind : BoardKind} {street : Street}
  {s : List Char}

theorem means_board (h : Cards cards items) (hne : cards ≠ [])
    (hcount : cards.length = kind.cardCount) :
    Means (kind.text.toList ++ ": [".toList ++ [','].intercalate items ++ "]".toList)
      (.board kind cards) := by
  have hnot := fun c => h.not_mem_list (c := c) hne
  have hkind :
      kind.Of (kind.text.toList ++ ": [".toList ++ [','].intercalate items ++ "]".toList) := by
    simp only [List.append_assoc]
    refine BoardKind.of_text ?_ ?_ kind
    · simp [hnot 'F' (by decide) (by decide)]
    · simp [hnot 'u' (by decide) (by decide)]
  have hlist : Bracketed (kind.text.toList ++ ": [".toList ++ [','].intercalate items ++ "]".toList)
      ([','].intercalate items) := by
    have hopen : '[' ∉ kind.text.toList ++ ": ".toList := by cases kind <;> decide
    have hclose := hnot ']' (by decide) (by decide)
    simpa using Bracketed.of_not_mem hopen (h.list_ne_nil hne) hclose
  refine .board hkind hlist (h.itemsOf hne) (by simpa using hcount) ?_
  rw [List.forall₂_map_left_iff, List.forall₂_same]
  exact fun card _ => rfl

/-- **A printed street** means that street. -/
theorem Printed.means (h : street.Printed s) (hstreet : street.Printable) : Means s street := by
  cases h with
  | betting h => exact means_betting h (hstreet.payable _ rfl)
  | board kind h => exact means_board h (hstreet.cards_ne_nil rfl) hstreet.shaped

/-- No slash is printed in a street. -/
theorem Printed.no_slash (h : street.Printed s) (hstreet : street.Printable) : '/' ∉ s := by
  cases h with
  | betting h => exact not_mem_betting h (hstreet.payable _ rfl) (by decide)
  | @board cards items kind h =>
    have hlist := h.not_mem_list (c := '/') (hstreet.cards_ne_nil rfl) (by decide) (by decide)
    have hkind : '/' ∉ kind.text.toList := by cases kind <;> decide
    simp [hlist, hkind]

theorem Printed.ne_nil (h : street.Printed s) : s ≠ [] := by
  cases h with
  | betting h =>
    refine h.ne_nil fun token htoken => ?_
    obtain ⟨action, -, rfl⟩ := List.mem_map.mp htoken
    exact action.text_ne_nil
  | board kind h => simp

/-- A street is printed without white space at its ends. -/
theorem Printed.tight (h : street.Printed s) (hstreet : street.Printable) : Tight s := by
  cases h with
  | betting h => exact h.tight (tokens_of_payable (hstreet.payable _ rfl))
  | @board cards items kind h =>
    have hkind : Solid kind.text.toList := by cases kind <;> decide
    have hclose : Solid "]".toList := by decide
    have hne : kind.text.toList ≠ [] := by cases kind <;> decide
    rw [List.append_assoc kind.text.toList]
    exact hkind.tight.append hne hclose.tight (by decide) _

end Street

/-! ## Hands -/

namespace LaidOut

variable {streets : List Street} {parts : List (List Char)}

theorem no_slash (h : LaidOut streets parts) (hstreets : ∀ street ∈ streets, street.Printable) :
    ∀ part ∈ parts, '/' ∉ part := by
  have hblank : ∀ {s}, Blank s → '/' ∉ s := fun hs hmem => absurd (hs '/' hmem) (by decide)
  induction h with
  | nil => exact fun _ h => absurd h List.not_mem_nil
  | empty hs _ ih => exact List.forall_mem_cons.mpr ⟨hblank hs, ih hstreets⟩
  | street hprinted hpart _ ih =>
    obtain ⟨hstreet, hstreets⟩ := List.forall_mem_cons.mp hstreets
    obtain ⟨l, r, hl, hr, rfl⟩ := hpart
    refine List.forall_mem_cons.mpr ⟨?_, ih hstreets⟩
    simp only [List.mem_append, not_or]
    exact ⟨⟨hblank hl, hprinted.no_slash hstreet⟩, hblank hr⟩

/-- Trimmed, the parts are the streets and nothing. -/
theorem exists_trimmed (h : LaidOut streets parts)
    (hstreets : ∀ street ∈ streets, street.Printable) :
    ∃ trimmed, List.Forall₂ TrimmedTo parts trimmed ∧
      List.Forall₂ Street.Means (trimmed.filter (· ≠ [])) streets := by
  induction h with
  | nil => exact ⟨[], .nil, .nil⟩
  | empty hs _ ih =>
    obtain ⟨trimmed, htrimmed, hmeans⟩ := ih hstreets
    exact ⟨[] :: trimmed, .cons hs.trimmedTo htrimmed, by simpa using hmeans⟩
  | @street street streets s part parts hprinted hpart _ ih =>
    obtain ⟨hstreet, hstreets⟩ := List.forall_mem_cons.mp hstreets
    obtain ⟨trimmed, htrimmed, hmeans⟩ := ih hstreets
    refine ⟨s :: trimmed, .cons ⟨hpart, hprinted.tight hstreet⟩ htrimmed, ?_⟩
    rw [List.filter_cons_of_pos (by simpa using hprinted.ne_nil)]
    exact .cons (hprinted.means hstreet) hmeans

end LaidOut

namespace ActionSequence

variable {sequence : ActionSequence} {text : String}

/-- **A text of a hand** means that hand. -/
theorem Printed.means (h : sequence.Printed text) (hsequence : sequence.Printable) :
    Means text sequence := by
  obtain ⟨parts, hlaid, htext⟩ := h
  obtain ⟨streets⟩ := sequence
  obtain ⟨⟨actions, others, rfl⟩, hstreets⟩ := hsequence
  obtain ⟨trimmed, htrimmed, hmeans⟩ := hlaid.exists_trimmed hstreets
  have hne : parts ≠ [] := by
    rintro rfl
    cases hlaid
  have hcut : CutAt '/' text.toList parts := ⟨hne, hlaid.no_slash hstreets, htext.symm⟩
  generalize hpieces : trimmed.filter (· ≠ []) = pieces at hmeans
  cases hmeans with
  | cons hfirst hrest =>
    refine .intro ⟨parts, trimmed, hcut, htrimmed, hpieces.symm⟩ ?_ (.cons hfirst hrest)
    cases hfirst with
    | betting hkind _ _ => exact hkind

end ActionSequence

/-! ## Each hand has a text -/

theorem exists_spaced {tokens : List (List Char)} (hne : tokens ≠ []) : ∃ s, Spaced tokens s := by
  induction tokens with
  | nil => exact absurd rfl hne
  | cons token tokens ih =>
    by_cases hlast : tokens = []
    · subst hlast
      exact ⟨token, .last token⟩
    · obtain ⟨s, hs⟩ := ih hlast
      exact ⟨token ++ " ".toList ++ s, .cons (by decide) (by decide) hs⟩

theorem Street.exists_printed {street : Street} (h : street.Shaped) : ∃ s, street.Printed s := by
  cases street with
  | betting actions =>
    obtain ⟨s, hs⟩ := exists_spaced (List.map_eq_nil_iff.not.mpr h)
    exact ⟨s, .betting hs⟩
  | board kind cards =>
    have hcards : Cards cards (cards.map fun card => card.text.toList) :=
      List.forall₂_map_right_iff.mpr (List.forall₂_same.mpr fun card _ => .refl _)
    exact ⟨_, .board kind hcards⟩

theorem exists_laidOut {streets : List Street} (h : ∀ street ∈ streets, street.Shaped) :
    ∃ parts, LaidOut streets parts := by
  induction streets with
  | nil => exact ⟨[], .nil⟩
  | cons street streets ih =>
    obtain ⟨hstreet, hstreets⟩ := List.forall_mem_cons.mp h
    obtain ⟨s, hs⟩ := Street.exists_printed hstreet
    obtain ⟨parts, hparts⟩ := ih hstreets
    exact ⟨s :: parts, .street hs (.refl s) hparts⟩

/-- **Printing, then reading.** A hand that starts with betting, whose betting streets have actions
with positive amounts, and whose board streets have the right number of cards can be printed, and
each of its texts is read as that hand, whatever the layout. -/
theorem read_printed (sequence : ActionSequence) (h : sequence.Printable) :
    (∃ text, sequence.Printed text) ∧
      ∀ text, sequence.Printed text → ActionSequence.ofText text = .ok sequence := by
  constructor
  · obtain ⟨parts, hparts⟩ := exists_laidOut fun street hstreet => (h.streets street hstreet).shaped
    exact ⟨String.ofList (['/'].intercalate parts), parts, hparts, String.toList_ofList⟩
  · exact fun text htext => ActionSequence.decides.means (htext.means h)

/-- A hand with the greatest amount there is. -/
def greatestRaise : ActionSequence :=
  ⟨[.betting [.raiseTo Chips.most, .checkOrCall],
    .board .flop [⟨.two, .spades⟩, ⟨.three, .diamonds⟩, ⟨.five, .hearts⟩],
    .betting [.allIn, .fold]]⟩

/-- A text of `greatestRaise` with white space of several kinds and empty streets. -/
def greatestRaiseText : String :=
  "\t/ r9223372036854775807 \u2003c/Flop: [2s , 3d,\n5h]//allin f /"

theorem read_printed_greatestRaise :
    greatestRaise.Printable ∧ greatestRaise.Printed greatestRaiseText ∧
      ActionSequence.ofText greatestRaiseText = .ok greatestRaise := by
  have hprintable : greatestRaise.Printable := by
    refine ⟨⟨_, _, rfl⟩, fun street hstreet => ?_⟩
    simp only [greatestRaise, List.mem_cons, List.not_mem_nil, or_false] at hstreet
    rcases hstreet with rfl | rfl | rfl
    · refine ⟨List.cons_ne_nil _ _, ?_⟩
      rintro _ ⟨⟩ action haction n rfl
      simp only [List.mem_cons, List.not_mem_nil, reduceCtorEq, or_false, Action.raiseTo.injEq]
        at haction
      subst haction
      decide
    · exact ⟨rfl, nofun⟩
    · refine ⟨List.cons_ne_nil _ _, ?_⟩
      rintro _ ⟨⟩ action haction n rfl
      simp at haction
  have hwide : Blank " \u2003".toList := by decide
  have hblank : Blank " ".toList := by decide
  have hnone : Blank [] := by decide
  have hopening : Street.Printed (.betting [.raiseTo Chips.most, .checkOrCall]) _ :=
    .betting (.cons hwide (by decide) (.last _))
  have hcards : Cards [⟨.two, .spades⟩, ⟨.three, .diamonds⟩, ⟨.five, .hearts⟩] _ :=
    .cons ⟨[], " ".toList, hnone, hblank, rfl⟩ (.cons ⟨" ".toList, [], hblank, hnone, rfl⟩
      (.cons ⟨"\n".toList, [], by decide, hnone, rfl⟩ .nil))
  have hclosing : Street.Printed (.betting [.allIn, .fold]) _ :=
    .betting (.cons hblank (by decide) (.last _))
  have hprinted : greatestRaise.Printed greatestRaiseText :=
    ⟨_, .empty (s := "\t".toList) (by decide)
      (.street hopening ⟨" ".toList, [], hblank, hnone, rfl⟩
        (.street (.board .flop hcards) (.refl _)
          (.empty hnone
            (.street hclosing ⟨[], " ".toList, hnone, hblank, rfl⟩ (.empty hnone .nil))))),
      by decide +kernel⟩
  exact ⟨hprintable, hprinted, (read_printed greatestRaise hprintable).2 _ hprinted⟩

end Holdem
