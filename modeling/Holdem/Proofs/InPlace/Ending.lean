import Holdem.Proofs.InPlace.Safety
import Holdem.Proofs.Table.Length

/-!
# Every hand ends

Whatever is tried on a table, and however often it is refused, only so many moves are done: what is
done makes a run (`Run.accepted`), and a run has no more moves than its seats, its streets and its
chips allow (`Run.tally_le`).

Result: **`hand_ends`**.
-/

namespace Holdem

variable {config : TableConfig} {starts : List Int} {seed : UInt64} {t : Table}

/-- **Every hand ends.** Whatever the forced bets and the least increment, of the moves that are
tried on a created table
* those that are done make a run, which leads to the table that is left;
* among them are no more deals than there are seats, three burns at most and five board cards;
* and no more actions than four for each seat, and one of every seat for each chip. -/
theorem hand_ends (h : Table.create config starts seed = .ok t) (moves : List Move) :
    (∃ turns, Run config starts turns (InPlace.attempt t moves) ∧
      turns.map (·.move) = (InPlace.accepted t moves).reverse) ∧
    tally .dealHole (InPlace.accepted t moves) ≤ starts.length ∧
    tally .burn (InPlace.accepted t moves) ≤ 3 ∧
    tally .dealBoard (InPlace.accepted t moves) ≤ 5 ∧
    tally .act (InPlace.accepted t moves) ≤ starts.length * (Chips.total starts + 4) := by
  obtain ⟨turns, hrun, hmoves⟩ := (Run.create h).accepted moves
  rw [List.append_nil] at hrun
  have hle := hrun.tally_le
  rw [hmoves] at hle
  simp only [tally_reverse] at hle
  exact ⟨⟨turns, hrun, hmoves⟩, hle⟩

/-- Deals, a burn and raises, some of them out of turn or for chips that are not there. -/
def raiseWar : List Move :=
  [.hole 0 ⟨.ace, .spades⟩ ⟨.ace, .hearts⟩, .hole 0 ⟨.two, .clubs⟩ ⟨.two, .hearts⟩, .fold,
    .hole 1 ⟨.king, .spades⟩ ⟨.king, .hearts⟩, .burn, .raiseTo 1, .raiseTo 1, .raiseTo 2,
    .raiseTo 9, .raiseTo 3, .raiseTo 4, .raiseTo 5, .checkOrCall, .checkOrCall]

/-- Without blinds and with a least increment below zero, four chips are raised one by one. -/
theorem hand_ends_raise_war : ∃ t, Table.create ⟨0, 0, 0, -1⟩ [4, 6] 1 = .ok t ∧
    InPlace.accepted t raiseWar = [.hole 0 ⟨.ace, .spades⟩ ⟨.ace, .hearts⟩,
      .hole 1 ⟨.king, .spades⟩ ⟨.king, .hearts⟩, .raiseTo 1, .raiseTo 2, .raiseTo 3, .raiseTo 4,
      .checkOrCall] ∧
    tally .act (InPlace.accepted t raiseWar) = 5 ∧
    (tally .act (InPlace.accepted t raiseWar) : Int) ≤ 28 := by
  have hplayable : Playable [4, 6] := ⟨by decide, by decide, by decide⟩
  have ht := Table.create_of_playable ⟨0, 0, 0, -1⟩ hplayable 1
  obtain ⟨-, -, -, -, hact⟩ := hand_ends ht raiseWar
  exact ⟨_, ht, by decide +kernel, by decide +kernel, hact.trans (by decide)⟩

end Holdem
