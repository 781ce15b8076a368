import Holdem.Proofs.Table.Invariant

/-!
# Runs without their deck

The deck of a table decides nothing but whether a card can be burned. `withDeck` exchanges it, and
`transition_withDeck` says that a table goes on in the same way with any deck that has enough cards.
So a hand can be played out on a deck in its first order (`Table.playAll`), and **`exists_run`**
says that there is a run which agrees with it but for the deck.
-/

namespace Holdem

/-! ## How many cards a deck has -/

namespace Deck

theorem size_shuffleFrom {α : Type} (stream : Nat → Nat) (n i : Nat) (c : Shuffle.Choices)
    (xs : Array α) : (Shuffle.shuffleFrom stream n i c xs).size = xs.size := by
  induction n generalizing i c xs with
  | zero => rfl
  | succ n ih =>
    unfold Shuffle.shuffleFrom
    rw [ih, Array.size_swapIfInBounds]

theorem length_shuffle {α : Type} (stream : Nat → Nat) (xs : List α) :
    (Shuffle.shuffle stream xs).length = xs.length := by
  unfold Shuffle.shuffle
  rw [Array.length_toList, size_shuffleFrom, List.size_toArray]

/-- A shuffled deck is whole. -/
theorem remaining_ofSeed (seed : UInt64) : (ofSeed seed).remaining = 52 := by
  have hlen := length_shuffle (Keystream.word (Keystream.keyOfSeed seed)) Card.all
  rw [Card.length_all] at hlen
  simp only [ofSeed, remaining, List.length_reverse, hlen]

theorem remaining_take (d : Deck) (c : Card) : d.remaining ≤ (d.take c).2.remaining + 1 := by
  unfold take
  split
  · rename_i hmem
    have := List.length_erase_of_mem hmem
    show d.cards.length ≤ (d.cards.erase c).length + 1
    omega
  · exact Nat.le_succ _

theorem draw_of_remaining {d : Deck} (h : 0 < d.remaining) :
    ∃ c rest, d.draw = some (c, rest) ∧ d.remaining = rest.remaining + 1 := by
  unfold remaining at h
  unfold draw
  cases hd : d.cards with
  | nil =>
    rw [hd] at h
    exact absurd h (Nat.lt_irrefl 0)
  | cons c rest => exact ⟨c, ⟨rest⟩, rfl, by rw [remaining, hd]; rfl⟩

end Deck

/-- How many cards a move takes out of the deck, at most. -/
def Move.cards : Move → Nat
  | .hole .. => 2
  | .burn => 1
  | .board _ => 1
  | _ => 0

namespace Table

variable {t t' : Table}

/-! ## Another deck -/

/-- The table with another deck. -/
def withDeck (t : Table) (d : Deck) : Table := { t with deck := d }

theorem carryOut_withDeck (t : Table) (d : Deck) (v : BettingView) (dec : Decision) :
    (t.withDeck d).carryOut v dec = (t.carryOut v dec).withDeck d := by
  cases dec with
  | raise amount full => cases full <;> rfl
  | _ => rfl

theorem closeRound_withDeck (t : Table) (d : Deck) :
    (t.withDeck d).closeRound.1 = t.closeRound.1.withDeck d := by
  rw [closeRound_fst, closeRound_fst]
  by_cases h : t.collected.liveCount ≤ 1 ∨ t.street = river
  · rw [if_pos h]
    exact if_pos h
  · rw [if_neg h]
    exact if_neg h

theorem openBetting_withDeck (t : Table) (d : Deck) :
    (t.withDeck d).openBetting.1 = t.openBetting.1.withDeck d := by
  rw [openBetting_fst, openBetting_fst]
  by_cases h : t.openingActors = []
  · rw [if_pos h, ← closeRound_withDeck]
    exact if_pos h
  · rw [if_neg h]
    exact if_neg h

theorem advance_withDeck (t : Table) (d : Deck) (v : BettingView) (dec : Decision) :
    ((t.withDeck d).advance v dec).1 = (t.advance v dec).1.withDeck d := by
  have hcarry := carryOut_withDeck t d v dec
  have hdecided : (t.withDeck d).decided v dec = (t.decided v dec).withDeck d := by
    unfold decided
    rw [hcarry]
    rfl
  have hout : (t.withDeck d).FoldsOut v dec ↔ t.FoldsOut v dec := by
    unfold FoldsOut
    rw [hcarry]
    rfl
  have hactors : ((t.withDeck d).carryOut v dec).actors = (t.carryOut v dec).actors := by
    rw [hcarry]
    rfl
  rw [advance_fst, advance_fst]
  by_cases h : t.FoldsOut v dec
  · rw [if_pos h, if_pos (hout.mpr h), hcarry, closeRound_withDeck]
  · rw [if_neg h, if_neg (mt hout.mp h), hactors, hdecided]
    split
    · exact closeRound_withDeck _ d
    · rfl

/-- **A table goes on in the same way with another deck** that has enough cards. -/
theorem transition_withDeck {m : Move} (h : Transition t m t') {d : Deck}
    (hd : m.cards ≤ d.remaining) :
    ∃ d', Transition (t.withDeck d) m (t'.withDeck d') ∧ d.remaining ≤ d'.remaining + m.cards := by
  cases h with
  | @hole seat s first second hphase hs hhole hmore =>
    have h1 := d.remaining_take first
    have h2 := (d.take first).2.remaining_take second
    exact ⟨((d.take first).2.take second).2,
      .hole (t := t.withDeck d) hphase hs hhole hmore, by show _ ≤ _ + 2; omega⟩
  | @lastHole seat s first second hphase hs hhole hall =>
    have h1 := d.remaining_take first
    have h2 := (d.take first).2.remaining_take second
    refine ⟨((d.take first).2.take second).2, ?_, by show _ ≤ _ + 2; omega⟩
    rw [← openBetting_withDeck]
    exact .lastHole (t := t.withDeck d) hphase hs hhole hall
  | burn hphase _ =>
    obtain ⟨c, rest, hdraw, hlen⟩ := Deck.draw_of_remaining hd
    exact ⟨rest, .burn (t := t.withDeck d) hphase hdraw, hlen.le⟩
  | @board c n hphase hmore =>
    exact ⟨(d.take c).2, .board (t := t.withDeck d) hphase hmore, d.remaining_take c⟩
  | @lastBoard c n hphase hlast =>
    refine ⟨(d.take c).2, ?_, d.remaining_take c⟩
    rw [← openBetting_withDeck]
    exact .lastBoard (t := t.withDeck d) hphase hlast
  | act hphase hm hactor hs hdec =>
    refine ⟨d, ?_, Nat.le_add_right _ _⟩
    rw [← advance_withDeck]
    exact .act (t := t.withDeck d) hphase hm hactor hs hdec

/-! ## Several moves -/

/-- Plays moves in a row, if all are accepted. -/
def playAll (t : Table) : List Move → Option Table
  | [] => some t
  | m :: moves =>
    match t.play m with
    | .ok r => r.1.playAll moves
    | .error _ => none

/-- A table with its players seated and the deck in its first order. -/
def seated (config : TableConfig) (starts : List Int) : Table :=
  ⟨config, ⟨Card.all⟩, posted config starts, [], 0, .dealing, [], config.minBet, [], []⟩

theorem create_of_playable (config : TableConfig) {starts : List Int} (h : Playable starts)
    (seed : UInt64) :
    create config starts seed = .ok ((seated config starts).withDeck (Deck.ofSeed seed)) := by
  have htwo := h.two
  have hfits : overflows starts = false := by
    have hnonneg := Chips.total_nonneg fun s hs => (h.pos s hs).le
    have hmost := h.fits
    have hleast : Chips.least ≤ 0 := by decide
    unfold overflows Chips.fits
    simp only [Bool.not_eq_false', Bool.and_eq_true, decide_eq_true_eq]
    omega
  unfold create
  rw [if_neg (by omega), badStack?_eq_none_iff.mpr h.pos]
  simp only [hfits]
  rfl

end Table

variable {config : TableConfig} {starts : List Int} {turns : List Turn}

theorem Run.playAll {t t' : Table} {d : Deck} (h : Run config starts turns (t.withDeck d))
    {moves : List Move} (hplay : t.playAll moves = some t')
    (hcards : (moves.map Move.cards).sum ≤ d.remaining) :
    ∃ turns' d', Run config starts turns' (t'.withDeck d') ∧
      turns'.map (·.move) = moves.reverse ++ turns.map (·.move) := by
  induction moves generalizing t d turns with
  | nil =>
    rw [← Option.some.inj hplay]
    exact ⟨turns, d, h, rfl⟩
  | cons m moves ih =>
    rw [List.map_cons, List.sum_cons] at hcards
    rw [Table.playAll] at hplay
    split at hplay
    · rename_i r hr
      obtain ⟨d', hstep, hd⟩ := Table.transition_withDeck (d := d) (Table.transition_of_play hr)
        (by omega)
      obtain ⟨notes, hm⟩ := Table.play_of_transition hstep
      have hnext : Run config starts (⟨t.withDeck d, m⟩ :: turns) (r.1.withDeck d') := .move h hm
      obtain ⟨turns', d'', hrun, hmoves⟩ := ih hnext hplay (by omega)
      refine ⟨turns', d'', hrun, ?_⟩
      rw [hmoves, List.map_cons, List.reverse_cons, List.append_assoc]
      rfl
    · exact absurd hplay (by simp)

/-- **What can be played on a deck in its first order is a run**, but for the deck: whatever holds
at its end holds at the end of a run. -/
theorem exists_run (config : TableConfig) (starts : List Int) (moves : List Move)
    (P : Table → Prop) [DecidablePred P] (h : Playable starts)
    (hplay : ((Table.seated config starts).playAll moves).any (fun t => decide (P t)) = true)
    (hcards : (moves.map Move.cards).sum ≤ 52) :
    ∃ turns t d, Run config starts turns (t.withDeck d) ∧ P t ∧
      turns.map (·.move) = moves.reverse := by
  rw [Option.any_eq_true] at hplay
  obtain ⟨t, ht, hp⟩ := hplay
  have hstart := Run.create (Table.create_of_playable config h Deck.defaultSeed)
  obtain ⟨turns, d, hrun, hmoves⟩ := hstart.playAll ht (by rwa [Deck.remaining_ofSeed])
  exact ⟨turns, t, d, hrun, of_decide_eq_true hp, by rw [hmoves]; exact List.append_nil _⟩

end Holdem
