import Holdem.Proofs.Text.Cut
import Holdem.Proofs.Text.Literal
import Holdem.Sequence.Check
import Mathlib.Data.List.Forall2
import Mathlib.Data.String.Basic

/-!
# The notation of a street

What a token, a list item and a piece of text mean, and what is wrong with one that means nothing:

* `Action.Means` and `Action.Fault` for the tokens of a betting street.
* `Card.Means` and `Card.Fault` for the items of a card list.
* `Street.Means` and `Street.Fault` for a trimmed piece of text. A fault in a list is its first
  (`FirstFault`); a missing card list is reported before a wrong count, and that before a bad card.

None of them mentions how a text is searched. `Decides` says of a check that it answers with the
meaning where there is one and with the fault where there is one, and that there always is one or
the other. It carries over from the members of a list to the list (`Decides.each`).

Result: **`Street.decides`**.
-/

namespace Holdem

/-! ## Checks and what they decide -/

/-- A check answers with the meaning of a text or with the fault in it, and each text has either. -/
structure Decides {α β ε : Type} (check : α → Except ε β) (Means : α → β → Prop)
    (Fault : α → ε → Prop) : Prop where
  means : ∀ {a b}, Means a b → check a = .ok b
  fault : ∀ {a e}, Fault a e → check a = .error e
  total : ∀ a, (∃ b, Means a b) ∨ ∃ e, Fault a e

/-- The first fault in a list: what stands before it has a meaning. -/
inductive FirstFault {α β ε : Type} (Means : α → β → Prop) (Fault : α → ε → Prop) :
    List α → ε → Prop
  | here {a : α} {e : ε} (l : List α) (hfault : Fault a e) : FirstFault Means Fault (a :: l) e
  | later {a : α} {b : β} {e : ε} {l : List α} (hmeans : Means a b)
      (hrest : FirstFault Means Fault l e) : FirstFault Means Fault (a :: l) e

section Decides

variable {α β ε : Type} {check : α → Except ε β} {Means : α → β → Prop} {Fault : α → ε → Prop}
  {a : α} {b : β} {e : ε} {l : List α} {r : List β}

theorem Decides.ok_iff (h : Decides check Means Fault) : check a = .ok b ↔ Means a b := by
  constructor
  · intro hok
    rcases h.total a with ⟨b', hmeans⟩ | ⟨e, hfault⟩
    · cases hok.symm.trans (h.means hmeans)
      exact hmeans
    · cases hok.symm.trans (h.fault hfault)
  · exact h.means

theorem Decides.error_iff (h : Decides check Means Fault) : check a = .error e ↔ Fault a e := by
  constructor
  · intro herror
    rcases h.total a with ⟨b, hmeans⟩ | ⟨e', hfault⟩
    · cases herror.symm.trans (h.means hmeans)
    · cases herror.symm.trans (h.fault hfault)
      exact hfault
  · exact h.fault

theorem Decides.each_of_means (h : Decides check Means Fault) (hl : List.Forall₂ Means l r) :
    checkEach check l = .ok r := by
  induction hl with
  | nil => rfl
  | cons ha _ ih => simp only [checkEach, h.means ha, ih, Except.map]

theorem Decides.each_of_fault (h : Decides check Means Fault)
    (hl : FirstFault Means Fault l e) : checkEach check l = .error e := by
  induction hl with
  | here l ha => simp only [checkEach, h.fault ha]
  | later ha _ ih => simp only [checkEach, h.means ha, ih, Except.map]

/-- A list means what its members mean, or it has a first fault. -/
theorem Decides.means_or_firstFault (h : Decides check Means Fault) (l : List α) :
    (∃ r, List.Forall₂ Means l r) ∨ ∃ e, FirstFault Means Fault l e := by
  induction l with
  | nil => exact Or.inl ⟨[], .nil⟩
  | cons a l ih =>
    rcases h.total a with ⟨b, ha⟩ | ⟨e, ha⟩
    · rcases ih with ⟨r, hl⟩ | ⟨e, hl⟩
      · exact Or.inl ⟨b :: r, .cons ha hl⟩
      · exact Or.inr ⟨e, .later ha hl⟩
    · exact Or.inr ⟨e, .here l ha⟩

/-- **A check on every member** decides what the list means. -/
theorem Decides.each (h : Decides check Means Fault) :
    Decides (checkEach check) (List.Forall₂ Means) (FirstFault Means Fault) :=
  ⟨h.each_of_means, h.each_of_fault, h.means_or_firstFault⟩

theorem checkEach_map {γ : Type} (f : γ → α) (l : List γ) :
    checkEach check (l.map f) = checkEach (fun c => check (f c)) l := by
  induction l with
  | nil => rfl
  | cons c l ih => simp only [List.map_cons, checkEach, ih]

end Decides

/-! ## Actions -/

/-- A token of a bet or a raise, and what stands after its letter. -/
inductive Bet : List Char → List Char → Prop
  | bet (amount : List Char) : Bet ('b' :: amount) amount
  | raise (amount : List Char) : Bet ('r' :: amount) amount

namespace Action

/-- What a token means. -/
inductive Means : List Char → Action → Prop
  | fold : Means "f".toList .fold
  | check : Means "x".toList .checkOrCall
  | call : Means "c".toList .checkOrCall
  | allIn : Means "allin".toList .allIn
  | raise {token amount : List Char} {n : Int} (hbet : Bet token amount)
      (hn : Chips.Written amount n) (hpos : 0 < n) : Means token (.raiseTo n)

/-- What is wrong with a token. -/
inductive Fault : List Char → SequenceError → Prop
  | action {token : List Char} (hmeans : ∀ action, ¬ Means token action)
      (hbet : ∀ amount, ¬ Bet token amount) :
      Fault token (.invalidAction (String.ofList token))
  | amount {token amount : List Char} (hbet : Bet token amount)
      (hn : ∀ n, ¬ Chips.Written amount n) : Fault token (.invalidAmount (String.ofList token))
  | sign {token amount : List Char} {n : Int} (hbet : Bet token amount)
      (hn : Chips.Written amount n) (hneg : n ≤ 0) :
      Fault token (.nonPositiveAmount (String.ofList token))

variable {token amount : List Char}

/-- What is no word is read by its first letter. -/
theorem ofToken_of_ne :
    token ≠ "f".toList → token ≠ "x".toList → token ≠ "c".toList → token ≠ "allin".toList →
      ofToken (String.ofList token) =
        match token with
        | 'b' :: amount => ofAmount (String.ofList token) amount
        | 'r' :: amount => ofAmount (String.ofList token) amount
        | _ => .error (.invalidAction (String.ofList token)) := by
  intro hfold hcheck hcall hallIn
  simp only [ofToken, String.ofList_eq, String.toList_ofList]
  exact (if_neg hfold).trans ((if_neg (not_or.mpr ⟨hcheck, hcall⟩)).trans (if_neg hallIn))

theorem ofToken_of_bet (h : Bet token amount) :
    ofToken (String.ofList token) = ofAmount (String.ofList token) amount := by
  cases h <;> exact ofToken_of_ne (by simp) (by simp) (by simp) (by simp)

theorem ofToken_of_means {action : Action} (h : Means token action) :
    ofToken (String.ofList token) = .ok action := by
  cases h with
  | fold => rfl
  | check => rfl
  | call => rfl
  | allIn => rfl
  | raise hbet hn hpos =>
    rw [ofToken_of_bet hbet, ofAmount, Chips.ofText?_eq_some_iff.mpr hn]
    exact if_neg (by omega)

theorem ofToken_of_fault {e : SequenceError} (h : Fault token e) :
    ofToken (String.ofList token) = .error e := by
  cases h with
  | action hmeans hbet =>
    have hne : ∀ {word action}, Means word action → token ≠ word := by
      rintro word action hword rfl
      exact hmeans action hword
    rw [ofToken_of_ne (hne .fold) (hne .check) (hne .call) (hne .allIn)]
    split
    · exact absurd (.bet _) (hbet _)
    · exact absurd (.raise _) (hbet _)
    · rfl
  | amount hbet hn => rw [ofToken_of_bet hbet, ofAmount, Chips.ofText?_eq_none_iff.mpr hn]
  | sign hbet hn hneg =>
    rw [ofToken_of_bet hbet, ofAmount, Chips.ofText?_eq_some_iff.mpr hn]
    exact if_pos hneg

/-- Each token means an action or has a fault. -/
theorem means_or_fault (token : List Char) :
    (∃ action, Means token action) ∨ ∃ e, Fault token e := by
  by_cases hmeans : ∃ action, Means token action
  · exact Or.inl hmeans
  · refine Or.inr ?_
    by_cases hbet : ∃ amount, Bet token amount
    · obtain ⟨amount, hbet⟩ := hbet
      by_cases hn : ∃ n, Chips.Written amount n
      · obtain ⟨n, hn⟩ := hn
        have hneg : n ≤ 0 := by
          by_contra hpos
          exact hmeans ⟨_, .raise hbet hn (by omega)⟩
        exact ⟨_, .sign hbet hn hneg⟩
      · exact ⟨_, .amount hbet (not_exists.mp hn)⟩
    · exact ⟨_, .action (not_exists.mp hmeans) (not_exists.mp hbet)⟩

/-- **The check of a token.** -/
theorem decides : Decides (fun token => ofToken (String.ofList token)) Means Fault :=
  ⟨ofToken_of_means, ofToken_of_fault, means_or_fault⟩

end Action

/-! ## Cards -/

namespace Card

/-- What an item of a card list means. -/
def Means (item : List Char) (card : Card) : Prop := item = card.chars

/-- A letter of a rank and a letter of a suit. -/
def Lettered (item : List Char) : Prop :=
  ∃ rank ∈ "23456789TJQKA".toList, ∃ suit ∈ "hdcs".toList, item = [rank, suit]

/-- What is wrong with an item of a card list. -/
inductive Fault : List Char → SequenceError → Prop
  | card {item : List Char} (h : ¬ Lettered item) :
      Fault item (.invalidCard (String.ofList item))

theorem letter_mem (card : Card) :
    card.rank.letter ∈ "23456789TJQKA".toList ∧ card.suit.letter ∈ "hdcs".toList := by
  have hrank : ∀ r : Rank, r.letter ∈ "23456789TJQKA".toList := by rintro ⟨⟩ <;> decide
  have hsuit : ∀ s : Suit, s.letter ∈ "hdcs".toList := by rintro ⟨⟩ <;> decide
  exact ⟨hrank card.rank, hsuit card.suit⟩

/-- The letters in this list are those of ranks and suits. -/
theorem lettered_iff {item : List Char} : Lettered item ↔ ∃ card, Means item card := by
  have hranks : ∀ r ∈ "23456789TJQKA".toList, (Rank.ofLetter? r).isSome = true :=
    List.all_eq_true.mp (by decide)
  have hsuits : ∀ s ∈ "hdcs".toList, (Suit.ofLetter? s).isSome = true :=
    List.all_eq_true.mp (by decide)
  constructor
  · rintro ⟨r, hr, s, hs, rfl⟩
    obtain ⟨rank, hrank⟩ := Option.isSome_iff_exists.mp (hranks r hr)
    obtain ⟨suit, hsuit⟩ := Option.isSome_iff_exists.mp (hsuits s hs)
    refine ⟨⟨rank, suit⟩, ?_⟩
    simp only [Means, chars, Rank.letter_of_ofLetter? hrank, Suit.letter_of_ofLetter? hsuit]
  · rintro ⟨card, rfl⟩
    exact ⟨_, (letter_mem card).1, _, (letter_mem card).2, rfl⟩

/-- **The check of an item.** -/
theorem decides : Decides (fun item => ofItem (String.ofList item)) Means Fault where
  means := by
    rintro item card rfl
    simp only [ofItem, String.toList_ofList, ofText?_chars]
  fault := by
    rintro item e ⟨h⟩
    have hnone : ofText? item = none := by
      rw [Option.eq_none_iff_forall_ne_some]
      exact fun card hcard => h (lettered_iff.mpr ⟨card, ofText?_eq_some_iff.mp hcard⟩)
    simp only [ofItem, String.toList_ofList, hnone]
  total item := by
    by_cases h : Lettered item
    · exact Or.inl (lettered_iff.mp h)
    · exact Or.inr ⟨_, .card h⟩

end Card

/-! ## Board streets -/

/-- The board street that a piece of text is: the first of the three names to stand in it. -/
inductive BoardKind.Of (piece : List Char) : BoardKind → Prop
  | flop (h : "Flop".toList <:+: piece) : Of piece .flop
  | turn (hflop : ¬ "Flop".toList <:+: piece) (h : "Turn".toList <:+: piece) : Of piece .turn
  | river (hflop : ¬ "Flop".toList <:+: piece) (hturn : ¬ "Turn".toList <:+: piece)
      (h : "River".toList <:+: piece) : Of piece .river

/-- The card list of a piece: from behind its leftmost opening bracket to the nearest closing one
that leaves a character in between. -/
inductive Bracketed : List Char → List Char → Prop
  | intro {before rest after : List Char} {first : Char} (hopen : '[' ∉ before)
      (hclose : ']' ∉ rest) :
      Bracketed (before ++ '[' :: first :: rest ++ ']' :: after) (first :: rest)

/-- The items of a card list: what stands between its commas, trimmed. -/
def ItemsOf (list : List Char) (items : List (List Char)) : Prop :=
  ∃ parts, Text.CutAt ',' list parts ∧ List.Forall₂ Text.TrimmedTo parts items

theorem itemsOf_iff {list : List Char} {items : List (List Char)} :
    ItemsOf list items ↔ items = (Text.pieces (· == ',') list).map Text.trim := by
  simp only [ItemsOf, Text.cutAt_iff, Text.forall₂_trimmedTo_iff, exists_eq_left]

namespace RawStreet

open Text (occurs_iff occurs_eq_false_iff)

variable {piece list s before : List Char} {kind : BoardKind}

theorem boardKind?_of (h : kind.Of piece) : boardKind? piece = some kind := by
  cases h with
  | flop h => simp only [boardKind?, List.find?_cons, BoardKind.text, occurs_iff.mpr h]
  | turn hflop h =>
    simp only [boardKind?, List.find?_cons, BoardKind.text, occurs_eq_false_iff.mpr hflop,
      occurs_iff.mpr h]
  | river hflop hturn h =>
    simp only [boardKind?, List.find?_cons, BoardKind.text, occurs_eq_false_iff.mpr hflop,
      occurs_eq_false_iff.mpr hturn, occurs_iff.mpr h]

/-- A piece that is no board street has none of the names. -/
theorem boardKind?_eq_none (h : ∀ kind, ¬ BoardKind.Of piece kind) : boardKind? piece = none := by
  have hflop : ¬ "Flop".toList <:+: piece := fun hocc => h _ (.flop hocc)
  have hturn : ¬ "Turn".toList <:+: piece := fun hocc => h _ (.turn hflop hocc)
  have hriver : ¬ "River".toList <:+: piece := fun hocc => h _ (.river hflop hturn hocc)
  simp only [boardKind?, List.find?_cons, BoardKind.text, occurs_eq_false_iff.mpr hflop,
    occurs_eq_false_iff.mpr hturn, occurs_eq_false_iff.mpr hriver, List.find?_nil]

/-! ## Brackets -/

theorem untilClose?_append (h : ']' ∉ s) (after : List Char) :
    untilClose? (s ++ ']' :: after) = some s := by
  induction s with
  | nil => rfl
  | cons c s ih =>
    obtain ⟨hc, hs⟩ := List.ne_and_not_mem_of_not_mem_cons h
    simp [untilClose?, Ne.symm hc, ih hs]

theorem untilClose?_eq_none (h : ']' ∉ s) : untilClose? s = none := by
  induction s with
  | nil => rfl
  | cons c s ih =>
    obtain ⟨hc, hs⟩ := List.ne_and_not_mem_of_not_mem_cons h
    simp [untilClose?, Ne.symm hc, ih hs]

theorem bracketed?_append (h : '[' ∉ before) (s : List Char) :
    bracketed? (before ++ s) = bracketed? s := by
  induction before with
  | nil => rfl
  | cons c before ih =>
    obtain ⟨hc, hbefore⟩ := List.ne_and_not_mem_of_not_mem_cons h
    rw [List.cons_append, bracketed?.eq_def]
    simp [Ne.symm hc, ih hbefore]

/-- Where no closing bracket follows, no opening one helps: the search goes on behind a bracket that
stays open, but it needs a closing one in any case. -/
theorem bracketed?_cons_eq_none (h : ']' ∉ s) (c : Char) : bracketed? (c :: s) = none := by
  induction s generalizing c with
  | nil => simp [bracketed?]
  | cons d s ih =>
    obtain ⟨-, hs⟩ := List.ne_and_not_mem_of_not_mem_cons h
    unfold bracketed?
    simp [untilClose?_eq_none hs, ih hs]

theorem bracketed?_of (h : Bracketed piece list) : bracketed? piece = some list := by
  obtain ⟨hopen, hclose⟩ := h
  rw [List.append_assoc, bracketed?_append hopen]
  simp [bracketed?, untilClose?_append hclose]

/-- A piece without a card list has no opening bracket, or none that is closed. -/
theorem bracketed?_eq_none (h : ∀ list, ¬ Bracketed piece list) : bracketed? piece = none := by
  by_cases hopen : '[' ∈ piece
  · obtain ⟨before, s, rfl, hbefore⟩ := List.eq_append_cons_of_mem hopen
    rw [bracketed?_append hbefore]
    cases s with
    | nil => rfl
    | cons first rest =>
      have hrest : ']' ∉ rest := by
        intro hclose
        obtain ⟨inner, after, rfl, hinner⟩ := List.eq_append_cons_of_mem hclose
        have hlist : Bracketed (before ++ '[' :: first :: inner ++ ']' :: after) (first :: inner) :=
          .intro hbefore hinner
        exact h _ (by simpa using hlist)
      simp [bracketed?, untilClose?_eq_none hrest, bracketed?_cons_eq_none hrest]
  · simpa [bracketed?] using bracketed?_append hopen []

end RawStreet

/-! ## Streets -/

namespace Street

/-- What a piece of text means. -/
inductive Means : List Char → Street → Prop
  | betting {piece : List Char} {words : List (List Char)} {actions : List Action}
      (hkind : ∀ kind, ¬ BoardKind.Of piece kind) (hwords : Text.Worded piece words)
      (hactions : List.Forall₂ Action.Means words actions) : Means piece (.betting actions)
  | board {piece list : List Char} {kind : BoardKind} {items : List (List Char)} {cards : List Card}
      (hkind : kind.Of piece) (hlist : Bracketed piece list) (hitems : ItemsOf list items)
      (hcount : items.length = kind.cardCount) (hcards : List.Forall₂ Card.Means items cards) :
      Means piece (.board kind cards)

/-- What is wrong with a piece of text, the first fault of each list. -/
inductive Fault : List Char → SequenceError → Prop
  | action {piece : List Char} {words : List (List Char)} {e : SequenceError}
      (hkind : ∀ kind, ¬ BoardKind.Of piece kind) (hwords : Text.Worded piece words)
      (hfault : FirstFault Action.Means Action.Fault words e) : Fault piece e
  | list {piece : List Char} {kind : BoardKind} (hkind : kind.Of piece)
      (hlist : ∀ list, ¬ Bracketed piece list) :
      Fault piece (.missingCardList (String.ofList piece))
  | count {piece list : List Char} {kind : BoardKind} {items : List (List Char)}
      (hkind : kind.Of piece) (hlist : Bracketed piece list) (hitems : ItemsOf list items)
      (hcount : items.length ≠ kind.cardCount) :
      Fault piece (.wrongCardCount kind kind.cardCount items.length)
  | card {piece list : List Char} {kind : BoardKind} {items : List (List Char)} {e : SequenceError}
      (hkind : kind.Of piece) (hlist : Bracketed piece list) (hitems : ItemsOf list items)
      (hcount : items.length = kind.cardCount)
      (hfault : FirstFault Card.Means Card.Fault items e) : Fault piece e

variable {piece list : List Char} {kind : BoardKind} {words items : List (List Char)}

/-- The check of a betting street. -/
theorem ofRaw_betting (hkind : ∀ kind, ¬ BoardKind.Of piece kind)
    (hwords : Text.Worded piece words) :
    ofRaw (.ofPiece piece) =
      (checkEach (fun word => Action.ofToken (String.ofList word)) words).map .betting := by
  rw [Text.worded_iff.mp hwords, ← checkEach_map, RawStreet.ofPiece,
    RawStreet.boardKind?_eq_none hkind]
  rfl

/-- The check of a board street. -/
theorem ofRaw_board (hkind : kind.Of piece) (hlist : Bracketed piece list)
    (hitems : ItemsOf list items) :
    ofRaw (.ofPiece piece) =
      if items.length = kind.cardCount then
        (checkEach (fun item => Card.ofItem (String.ofList item)) items).map (.board kind)
      else .error (.wrongCardCount kind kind.cardCount items.length) := by
  have hraw : (RawStreet.bracketed? piece).map RawStreet.items =
      some (items.map String.ofList) := by
    rw [RawStreet.bracketed?_of hlist, itemsOf_iff.mp hitems, Option.map_some, RawStreet.items,
      List.map_map]
    rfl
  rw [RawStreet.ofPiece, RawStreet.boardKind?_of hkind]
  simp only [hraw, ofRaw, List.length_map, checkEach_map]

theorem ofRaw_of_means {street : Street} (h : Means piece street) :
    ofRaw (.ofPiece piece) = .ok street := by
  cases h with
  | betting hkind hwords hactions =>
    rw [ofRaw_betting hkind hwords, Action.decides.each.means hactions]
    rfl
  | board hkind hlist hitems hcount hcards =>
    rw [ofRaw_board hkind hlist hitems, if_pos hcount, Card.decides.each.means hcards]
    rfl

theorem ofRaw_of_fault {e : SequenceError} (h : Fault piece e) :
    ofRaw (.ofPiece piece) = .error e := by
  cases h with
  | action hkind hwords hfault =>
    rw [ofRaw_betting hkind hwords, Action.decides.each.fault hfault]
    rfl
  | list hkind hlist =>
    rw [RawStreet.ofPiece, RawStreet.boardKind?_of hkind, RawStreet.bracketed?_eq_none hlist]
    rfl
  | count hkind hlist hitems hcount =>
    rw [ofRaw_board hkind hlist hitems, if_neg hcount]
  | card hkind hlist hitems hcount hfault =>
    rw [ofRaw_board hkind hlist hitems, if_pos hcount, Card.decides.each.fault hfault]
    rfl

/-- Each piece means a street or has a fault. -/
theorem means_or_fault (piece : List Char) :
    (∃ street, Means piece street) ∨ ∃ e, Fault piece e := by
  by_cases hboard : ∃ kind, BoardKind.Of piece kind
  · obtain ⟨kind, hkind⟩ := hboard
    by_cases hlist : ∃ list, Bracketed piece list
    · obtain ⟨list, hlist⟩ := hlist
      obtain ⟨items, hitems⟩ : ∃ items, ItemsOf list items := ⟨_, itemsOf_iff.mpr rfl⟩
      by_cases hcount : items.length = kind.cardCount
      · rcases Card.decides.each.total items with ⟨cards, hcards⟩ | ⟨e, hfault⟩
        · exact Or.inl ⟨_, .board hkind hlist hitems hcount hcards⟩
        · exact Or.inr ⟨e, .card hkind hlist hitems hcount hfault⟩
      · exact Or.inr ⟨_, .count hkind hlist hitems hcount⟩
    · exact Or.inr ⟨_, .list hkind (not_exists.mp hlist)⟩
  · have hkind := not_exists.mp hboard
    have hwords := Text.worded_words piece
    rcases Action.decides.each.total (Text.words piece) with ⟨actions, hactions⟩ | ⟨e, hfault⟩
    · exact Or.inl ⟨_, .betting hkind hwords hactions⟩
    · exact Or.inr ⟨e, .action hkind hwords hfault⟩

/-- **The check of a piece of text.** -/
theorem decides : Decides (fun piece => ofRaw (.ofPiece piece)) Means Fault :=
  ⟨ofRaw_of_means, ofRaw_of_fault, means_or_fault⟩

end Street

end Holdem
