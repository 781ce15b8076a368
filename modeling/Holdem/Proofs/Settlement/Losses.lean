import Holdem.Proofs.Settlement.Input
import Holdem.Proofs.Settlement.Replay
import Holdem.Proofs.Settlement.ZeroSum

/-!
# What a player can lose

A replay takes no more from a player than he brought (`payoff_ge`). The shortcut looks at no stack:
it takes 20 from seat 1, also where less is there. So a player loses more than he brought in one
case alone, and **`overdrawn_iff`** says which.
-/

namespace Holdem

namespace Settlement

variable {chips : Stacks} {holes : HoleCards} {seed : UInt64} {t : Table}

/-- **At the end of a hand** no seat has lost more than it started with. -/
theorem payoff_ge {starts : List Int} (h : Table.Finished starts t) {i : Nat} {stack : Int}
    (hstack : starts[i]? = some stack) :
    ∃ s, t.seats[i]? = some s ∧ -stack ≤ s.payoff := by
  rw [← h.starts_eq, List.getElem?_map] at hstack
  obtain ⟨s, hs, rfl⟩ := Option.map_eq_some_iff.mp hstack
  refine ⟨s, hs, ?_⟩
  have hnonneg := h.stack_nonneg hs
  unfold Seat.payoff
  omega

/-- The winnings of a replay: to each player, in order, no less than what he loses with all his
chips. -/
theorem winnings_of_conduct {streets : List Street} {winnings : Winnings}
    (hplay : conduct seed chips holes streets = .ok t) (hread : results chips t = .ok winnings) :
    winnings.keys = chips.keys ∧ ∀ (i : Nat) player stack,
      chips.entries[i]? = some (player, stack) →
        ∃ amount, winnings.entries[i]? = some (player, amount) ∧ -stack ≤ amount := by
  obtain ⟨turns, hrun⟩ := played_conduct hplay
  obtain ⟨hphase, rfl⟩ := results_eq_ok hread
  have hfin := hrun.inv.finished_of_phase hphase
  have hlen : (t.seats.map (·.payoff)).length = chips.keys.length := by
    rw [List.length_map, ← PlayerMap.length_values, ← hfin.starts_eq, List.length_map]
  refine ⟨PlayerMap.keys_ofList_zip hlen, fun i player stack hentry => ?_⟩
  have hstack : chips.values[i]? = some stack := by
    unfold PlayerMap.values
    rw [List.getElem?_map, hentry]
    rfl
  obtain ⟨s, hs, hge⟩ := payoff_ge hfin hstack
  refine ⟨s.payoff, PlayerMap.getElem?_ofList_zip hentry ?_, hge⟩
  rw [List.getElem?_map, hs]
  rfl

/-- The winnings of the shortcut: to each player, in order, the fixed result of his seat. -/
theorem winnings_of_shortcut {sequence : ActionSequence} {winnings : Winnings}
    (h : shortcut? chips sequence = some winnings) :
    winnings.keys = chips.keys ∧ ∀ i player stack, chips.entries[i]? = some (player, stack) →
      winnings.entries[i]? = some (player, shortcutResult i) := by
  refine ⟨(zeroSum_shortcut h).1, fun i player stack hentry => ?_⟩
  obtain ⟨-, rfl⟩ := shortcut?_eq_some h
  have hi : i < chips.keys.length := by
    rw [PlayerMap.length_keys]
    exact (List.getElem?_eq_some_iff.mp hentry).1
  refine PlayerMap.getElem?_ofList_zip hentry ?_
  rw [List.getElem?_map, List.getElem?_range hi]
  rfl

/-- Of the fixed results only that of seat 1 can be more than a player has. -/
theorem shortcutResult_lt_iff {seat : Nat} {stack : Int} (hpos : 0 < stack) :
    shortcutResult seat < -stack ↔ seat = 1 ∧ stack < shortcutLoss := by
  unfold shortcutResult shortcutLoss
  by_cases h1 : seat = 1
  · rw [if_pos h1, and_iff_right h1]
    omega
  · rw [if_neg h1]
    by_cases h2 : seat = 2
    · rw [if_pos h2]
      omega
    · rw [if_neg h2]
      omega

end Settlement

/-- **Who loses more than he brought.** A settlement that is accepted has an amount for each player.
It is below what the player loses with all his chips in one case alone: the shortcut applies, he
sits in seat 1, and he has less than the 20 chips that the shortcut takes from that seat. In a
replay, then, nobody loses more than he brought. -/
theorem overdrawn_iff {chips : Stacks} {holes : HoleCards} {text : String} {winnings : Winnings}
    (h : (settle chips holes text).result = .ok winnings) :
    ∃ sequence, ActionSequence.ofText text = .ok sequence ∧ winnings.keys = chips.keys ∧
      ∀ i player stack, chips.entries[i]? = some (player, stack) →
        ∃ amount, winnings.entries[i]? = some (player, amount) ∧
          (amount < -stack ↔
            (Settlement.shortcut? chips sequence).isSome = true ∧ i = 1 ∧ stack < 20) ∧
          ((Settlement.shortcut? chips sequence).isSome = true → i = 1 → amount = -20) := by
  rw [settle_result] at h
  obtain ⟨sequence, hsequence, hinput, hwinnings⟩ := Settlement.answer_eq_ok h
  have hpos := (checkInput_eq_ok_iff.mp hinput).pos
  refine ⟨sequence, hsequence, ?_⟩
  rcases hwinnings with hshort | ⟨hnone, t, hplay, hread⟩
  · obtain ⟨hkeys, hentries⟩ := Settlement.winnings_of_shortcut hshort
    refine ⟨hkeys, fun i player stack hentry => ⟨_, hentries i player stack hentry, ?_, ?_⟩⟩
    · have hstack := hpos stack (List.mem_map_of_mem (List.mem_of_getElem? hentry))
      rw [hshort, Settlement.shortcutResult_lt_iff hstack]
      exact (and_iff_right rfl).symm
    · rintro - rfl
      rfl
  · obtain ⟨hkeys, hentries⟩ := Settlement.winnings_of_conduct hplay hread
    refine ⟨hkeys, fun i player stack hentry => ?_⟩
    obtain ⟨amount, hamount, hge⟩ := hentries i player stack hentry
    refine ⟨amount, hamount, ?_, ?_⟩
    · rw [hnone]
      constructor
      · intro hlt
        omega
      · rintro ⟨hsome, -⟩
        cases hsome
    · rw [hnone]
      rintro hsome
      cases hsome

/-- Seat 1 has five chips. -/
def shortChips : Stacks := ⟨[("A", 1000), ("B", 5), ("C", 1000)], by decide⟩

def shortHoles : HoleCards :=
  ⟨[("A", [⟨.ace, .spades⟩, ⟨.king, .diamonds⟩]), ("B", [⟨.seven, .clubs⟩, ⟨.two, .diamonds⟩]),
    ("C", [⟨.queen, .hearts⟩, ⟨.queen, .spades⟩])], by decide⟩

theorem settle_shortChips : (settle shortChips shortHoles "c c c f").result =
    .ok (⟨[("A", 0), ("B", -20), ("C", 20)], by decide⟩ : Winnings) := by decide +kernel

/-- The shortcut applies, so the player in seat 1 loses 20 of his five chips. The others bring 1000
each and do not lose more. -/
theorem overdrawn_iff_short_stack : ∃ (sequence : ActionSequence) (winnings : Winnings),
    ActionSequence.ofText "c c c f" = .ok sequence ∧
      (Settlement.shortcut? shortChips sequence).isSome = true ∧
      (settle shortChips shortHoles "c c c f").result = .ok winnings ∧
      shortChips.entries[1]? = some ("B", 5) ∧ winnings.entries[1]? = some ("B", -20) ∧
      ∀ i player stack, i ≠ 1 → shortChips.entries[i]? = some (player, stack) →
        ∃ amount, winnings.entries[i]? = some (player, amount) ∧ -stack ≤ amount := by
  obtain ⟨sequence, hsequence, -, hentries⟩ := overdrawn_iff settle_shortChips
  have hshort : (Settlement.shortcut? shortChips sequence).isSome = true := by
    obtain ⟨amount, hamount, hiff, -⟩ := hentries 1 "B" 5 rfl
    obtain rfl : -20 = amount := by cases hamount; rfl
    exact (hiff.mp (by decide)).1
  obtain ⟨amount, hamount, -, hfixed⟩ := hentries 1 "B" 5 rfl
  refine ⟨sequence, _, hsequence, hshort, settle_shortChips, rfl, hfixed hshort rfl ▸ hamount,
    fun i player stack hne hentry => ?_⟩
  obtain ⟨amount, hamount, hiff, -⟩ := hentries i player stack hentry
  exact ⟨amount, hamount, not_lt.mp fun hlt => hne (hiff.mp hlt).2.1⟩

/-- It is not so that nobody loses more than he brought. -/
theorem exists_overdrawn : ¬ ∀ (chips : Stacks) (holes : HoleCards) (text : String)
    (winnings : Winnings), (settle chips holes text).result = .ok winnings →
      ∀ (i : Nat) (player : String) (stack amount : Int),
        chips.entries[i]? = some (player, stack) →
          winnings.entries[i]? = some (player, amount) → -stack ≤ amount := by
  intro h
  have hge := h _ _ _ _ settle_shortChips 1 "B" 5 (-20) rfl rfl
  exact absurd hge (by decide)

end Holdem
