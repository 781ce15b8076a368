import Holdem.Proofs.Deck.Pulls
import Holdem.Proofs.Table.Supply

/-!
# Cards that are dealt again

A table asks its deck for every card that it is told to deal, and notes those that are not there.
What it asks for at a move are the pulls of the move (`Move.pulls`), and nothing else that a table
does touches its deck or notes a card (`pulls_of_play`). So the deck after a run is what the pulls of
its moves leave of the deck of a seed (`Run.exists_pulls`), and a card is in it unless it was seen
(`Run.mem_deck_iff`).

**`deck_law`** is the order of a deck, the account of any steps on it, and what follows for a table:
a card is noted exactly if it was dealt or burned earlier in the hand.
-/

namespace Holdem

/-- The card that a note says was not in the deck. -/
def Note.reused? : Note → Option Card
  | reusedCard card => some card
  | _ => none

/-- What a move does to the deck. -/
def Move.pulls : Move → List Deck.Pull
  | hole _ first second => [.take first, .take second]
  | burn => [.draw]
  | board c => [.take c]
  | _ => []

/-- The cards that a move deals or burns. -/
def Turn.cards (turn : Turn) : List Card :=
  match turn.move with
  | .hole _ first second => [first, second]
  | .burn => (turn.before.deck.draw.map Prod.fst).toList
  | .board c => [c]
  | _ => []

/-- The cards that were dealt or burned. -/
def seenCards (turns : List Turn) : List Card := turns.flatMap Turn.cards

namespace Table

variable {t t' : Table} {notes : List Note}

/-! ## What is noted of cards -/

theorem closeRound_reused (t : Table) : t.closeRound.2.filterMap Note.reused? = [] := by
  unfold closeRound
  dsimp only
  split <;> rfl

theorem openBetting_reused (t : Table) : t.openBetting.2.filterMap Note.reused? = [] := by
  unfold openBetting
  dsimp only
  split
  · exact closeRound_reused _
  · rfl

theorem advance_reused (t : Table) (v : BettingView) (d : Decision) :
    (t.advance v d).2.filterMap Note.reused? = [] := by
  unfold advance
  dsimp only
  split
  · exact closeRound_reused _
  · split
    · exact closeRound_reused _
    · rfl

theorem openBetting_deck (t : Table) : t.openBetting.1.deck = t.deck :=
  (Prod.mk.inj (openBetting_handed t)).1

theorem advance_deck (t : Table) (v : BettingView) (d : Decision) :
    (t.advance v d).1.deck = t.deck :=
  (Prod.mk.inj (advance_handed t v d)).1

theorem takeCard_reused (t : Table) (c : Card) : (t.takeCard c).2.filterMap Note.reused? =
    (t.deck.pull (.take c)).1.missed?.toList := by
  unfold takeCard Deck.pull
  dsimp only [Deck.Outcome.missed?]
  cases (t.deck.take c).1 <;> rfl

/-- **A card that is asked for** is noted where the deck has it no more. -/
theorem missed_one (t : Table) (c : Card) : (t.takeCard c).2.filterMap Note.reused? =
    (t.deck.pulls [.take c]).1.filterMap Deck.Outcome.missed? := by
  rw [takeCard_reused, Deck.filterMap_pulls_cons]
  exact (List.append_nil _).symm

theorem missed_two (t : Table) (first second : Card) :
    ((t.takeCard first).2 ++ ((t.takeCard first).1.takeCard second).2).filterMap Note.reused? =
      (t.deck.pulls [.take first, .take second]).1.filterMap Deck.Outcome.missed? := by
  rw [List.filterMap_append, takeCard_reused, missed_one,
    Deck.filterMap_pulls_cons _ t.deck (.take first)]
  rfl

/-! ## One move -/

theorem pulls_of_dealHole {seat : Nat} {first second : Card}
    (h : t.dealHole seat first second = .ok (t', notes)) :
    (t.deck.pulls [.take first, .take second]).2 = t'.deck ∧
      notes.filterMap Note.reused? =
        (t.deck.pulls [.take first, .take second]).1.filterMap Deck.Outcome.missed? := by
  unfold dealHole at h
  split at h
  · split at h
    · cases h
    · split at h
      · cases h
      · dsimp only at h
        split at h
        · cases h
          constructor
          · rw [openBetting_deck]
            rfl
          · rw [List.filterMap_append, openBetting_reused, List.append_nil, missed_two]
        · cases h
          exact ⟨rfl, missed_two t first second⟩
  · cases h

theorem pulls_of_dealBoard {c : Card} (h : t.dealBoard c = .ok (t', notes)) :
    (t.deck.pulls [.take c]).2 = t'.deck ∧ notes.filterMap Note.reused? =
      (t.deck.pulls [.take c]).1.filterMap Deck.Outcome.missed? := by
  unfold dealBoard at h
  split at h
  · dsimp only at h
    split at h
    · cases h
      exact ⟨rfl, missed_one t c⟩
    · cases h
      constructor
      · rw [openBetting_deck]
        rfl
      · rw [List.filterMap_append, openBetting_reused, List.append_nil, missed_one]
  · cases h

theorem pulls_of_burn (h : t.burn = .ok (t', notes)) :
    (t.deck.pulls [.draw]).2 = t'.deck ∧ notes.filterMap Note.reused? =
      (t.deck.pulls [.draw]).1.filterMap Deck.Outcome.missed? := by
  unfold burn at h
  unfold Deck.pulls Deck.pull Deck.pulls
  split at h
  · split at h
    · cases h
    · rename_i c rest hdraw
      cases h
      rw [hdraw]
      exact ⟨rfl, rfl⟩
  · cases h

theorem pulls_of_act (a : Action) (h : t.act a = .ok (t', notes)) :
    t.deck = t'.deck ∧ notes.filterMap Note.reused? = [] := by
  unfold act at h
  split at h
  · cases h
  · split at h
    · cases h
    · rename_i v _ _ d _
      have hdeck := advance_deck t v d
      have hreused := advance_reused t v d
      rw [Except.ok.inj h] at hdeck hreused
      exact ⟨hdeck.symm, hreused⟩

/-- **A move does its pulls**, and notes the cards that they miss. -/
theorem pulls_of_play {m : Move} (h : t.play m = .ok (t', notes)) :
    (t.deck.pulls m.pulls).2 = t'.deck ∧ notes.filterMap Note.reused? =
      (t.deck.pulls m.pulls).1.filterMap Deck.Outcome.missed? := by
  cases m with
  | hole => exact pulls_of_dealHole h
  | burn => exact pulls_of_burn h
  | board => exact pulls_of_dealBoard h
  | fold => exact pulls_of_act .fold h
  | checkOrCall => exact pulls_of_act .checkOrCall h
  | raiseTo amount => exact pulls_of_act (.raiseTo amount) h

/-- A burn draws what is there, and an action asks for no card. -/
theorem missed_none (t : Table) {m : Move} (h : m = .burn ∨ m.action?.isSome = true) :
    (t.deck.pulls m.pulls).1.filterMap Deck.Outcome.missed? = [] := by
  cases m with
  | hole => simp [Move.action?] at h
  | board => simp [Move.action?] at h
  | burn =>
    unfold Move.pulls Deck.pulls Deck.pull Deck.pulls
    dsimp only
    cases t.deck.draw <;> rfl
  | _ => rfl

/-- The cards that are given at a move. -/
theorem given_at (t : Table) (m : Move) :
    (t.deck.pulls m.pulls).1.filterMap Deck.Outcome.card? = Turn.cards ⟨t, m⟩ := by
  cases m with
  | burn =>
    unfold Move.pulls Turn.cards Deck.pulls Deck.pull Deck.pulls
    dsimp only
    cases t.deck.draw <;> rfl
  | _ => rfl

end Table

namespace Run

variable {config : TableConfig} {starts : List Int} {turns : List Turn} {t : Table}

/-! ## A whole run -/

/-- **The deck of a run** is what the pulls of its moves leave of the deck of a seed. -/
theorem exists_pulls (h : Run config starts turns t) :
    ∃ seed ps, ((Deck.ofSeed seed).pulls ps).2 = t.deck ∧
      ∀ c, c ∈ ((Deck.ofSeed seed).pulls ps).1.filterMap Deck.Outcome.card? ↔
        c ∈ seenCards turns := by
  induction h with
  | @create seed t hcreate =>
    obtain ⟨-, rfl⟩ := Table.create_eq_ok hcreate
    exact ⟨seed, [], rfl, fun _ => Iff.rfl⟩
  | @move turns t m r _ hm ih =>
    obtain ⟨seed, ps, hdeck, hseen⟩ := ih
    obtain ⟨hnext, -⟩ := Table.pulls_of_play hm
    refine ⟨seed, ps ++ m.pulls, ?_, fun c => ?_⟩
    · rw [Deck.pulls_append, hdeck]
      exact hnext
    · rw [Deck.pulls_append, hdeck, List.filterMap_append, Table.given_at, List.mem_append, hseen]
      unfold seenCards
      rw [List.flatMap_cons, List.mem_append]
      exact or_comm

/-- **A card is in the deck unless it was seen.** -/
theorem mem_deck_iff (h : Run config starts turns t) (c : Card) :
    c ∈ t.deck.cards ↔ c ∉ seenCards turns := by
  obtain ⟨seed, ps, hdeck, hseen⟩ := h.exists_pulls
  have hwhole := Deck.mem_ofSeed seed c
  rw [← hdeck, ← hseen, ← Deck.mem_gone_iff hwhole]
  exact Deck.mem_iff_not_gone (Deck.nodup_ofSeed seed) hwhole

theorem nodup_deck (h : Run config starts turns t) : t.deck.cards.Nodup := by
  obtain ⟨seed, ps, hdeck, -⟩ := h.exists_pulls
  rw [← hdeck]
  exact Deck.nodup_pulls (Deck.nodup_ofSeed seed) ps

/-- What is noted of a card that is asked for, said of what was seen. -/
theorem missed_iff (h : Run config starts turns t) (c : Card) :
    (t.deck.pull (.take c)).1.missed?.toList = if c ∈ seenCards turns then [c] else [] := by
  rw [Deck.missed_take]
  by_cases hseen : c ∈ seenCards turns
  · rw [if_pos hseen, if_neg fun hc => (h.mem_deck_iff c).mp hc hseen]
  · rw [if_neg hseen, if_pos ((h.mem_deck_iff c).mpr hseen)]

/-- The second of two cards is missed where it was seen, or where it is the first again. -/
theorem missed_second_iff (h : Run config starts turns t) (first second : Card) :
    ((t.deck.take first).2.pull (.take second)).1.missed?.toList =
      if second = first ∨ second ∈ seenCards turns then [second] else [] := by
  have hmem : second ∈ (t.deck.take first).2.cards ↔
      ¬ (second = first ∨ second ∈ seenCards turns) := by
    rw [Deck.mem_take h.nodup_deck, h.mem_deck_iff, not_or]
  rw [Deck.missed_take]
  by_cases hseen : second = first ∨ second ∈ seenCards turns
  · rw [if_pos hseen, if_neg fun hc => hmem.mp hc hseen]
  · rw [if_neg hseen, if_pos (hmem.mpr hseen)]

end Run

/-- **The law of the deck.**
* Every seed orders a whole deck as `Deck.Shuffled` says.
* Whatever is drawn and taken out of it, what came of that and what is left are `Deck.Accounted`.
* So in every run of a table a hole card or a board card is noted as not in the deck exactly if it
  was dealt or burned earlier in the hand, the second hole card of a seat also where it is the first
  again; no other move notes a card. -/
theorem deck_law :
    (∀ seed, Deck.Shuffled seed) ∧
    (∀ seed ps, Deck.Accounted seed ((Deck.ofSeed seed).pulls ps).1
      ((Deck.ofSeed seed).pulls ps).2) ∧
    ∀ {config : TableConfig} {starts : List Int} {turns : List Turn} {t : Table},
      Run config starts turns t → ∀ {m : Move} {t' : Table} {notes : List Note},
        t.play m = .ok (t', notes) →
        (∀ seat first second, m = .hole seat first second → notes.filterMap Note.reused? =
          (if first ∈ seenCards turns then [first] else []) ++
            if second = first ∨ second ∈ seenCards turns then [second] else []) ∧
        (∀ c, m = .board c → notes.filterMap Note.reused? =
          if c ∈ seenCards turns then [c] else []) ∧
        (m = .burn ∨ m.action?.isSome = true → notes.filterMap Note.reused? = []) := by
  refine ⟨Deck.shuffled, Deck.accounted, ?_⟩
  intro config starts turns t h m t' notes hplay
  obtain ⟨-, hnoted⟩ := Table.pulls_of_play hplay
  refine ⟨?_, ?_, ?_⟩
  · rintro seat first second rfl
    rw [hnoted]
    unfold Move.pulls
    rw [Deck.filterMap_pulls_cons, Deck.filterMap_pulls_cons, h.missed_iff]
    exact congrArg _ ((List.append_nil _).trans (h.missed_second_iff first second))
  · rintro c rfl
    rw [hnoted]
    unfold Move.pulls
    rw [Deck.filterMap_pulls_cons, h.missed_iff]
    exact List.append_nil _
  · intro hm
    rw [hnoted]
    exact Table.missed_none t hm

/-- Two seats are dealt the ace of spades three times. -/
def threeAces : List Move :=
  [.hole 0 ⟨.ace, .spades⟩ ⟨.ace, .hearts⟩, .hole 1 ⟨.ace, .spades⟩ ⟨.ace, .spades⟩]

/-- Of the cards of the second seat the one was seen and the other is the first again. -/
theorem deck_law_three_aces : ∃ turns t t' notes, Run .standard [100, 100] turns t ∧
    t.play (.hole 1 ⟨.ace, .spades⟩ ⟨.ace, .spades⟩) = .ok (t', notes) ∧
      notes.filterMap Note.reused? = [⟨.ace, .spades⟩, ⟨.ace, .spades⟩] := by
  obtain ⟨turns, t, d, hrun, -, hmoves⟩ := exists_run .standard [100, 100] threeAces
    (fun _ => True) ⟨by decide, by decide, by decide⟩ (by decide +kernel) (by decide)
  generalize t.withDeck d = t' at hrun
  cases hrun with
  | create => cases hmoves
  | @move turns t₀ m r h hm =>
    obtain ⟨hlast, hfirst⟩ := List.cons.inj hmoves
    obtain rfl : m = .hole 1 ⟨.ace, .spades⟩ ⟨.ace, .spades⟩ := hlast
    obtain ⟨-, -, hlaw⟩ := deck_law
    obtain ⟨hhole, -, -⟩ := hlaw h hm
    have hseen : ⟨.ace, .spades⟩ ∈ seenCards turns := by
      obtain ⟨turn, rest, rfl, hmove, -⟩ := List.map_eq_cons_iff.mp hfirst
      refine List.mem_flatMap.mpr ⟨turn, List.mem_cons_self, ?_⟩
      unfold Turn.cards
      rw [hmove]
      exact List.mem_cons_self
    refine ⟨turns, t₀, r.1, r.2, h, hm, ?_⟩
    rw [hhole _ _ _ rfl, if_pos hseen, if_pos (Or.inl rfl)]
    rfl

end Holdem
