import Holdem.Proofs.InPlace.Amount
import Holdem.Proofs.PlayerMap
import Holdem.Proofs.Table.Decks
import Holdem.Record.Basic

/-!
# Input that describes one table

`Admissible` is what stacks and hole cards have to be, said of the two maps as a whole: the players
with cards are those with stacks, in some order, and nothing is compared one by one.
**`checkInput_eq_ok_iff`** says that this is what `checkInput` accepts. It never compares the two
lists of players: as many players, each of them known, are all of them.

What is admissible passes the smaller check of a submitted hand (`Admissible.check`), and a table is
made of it (`Admissible.playable`). `sum_ok_iff` is the check of the total as it is made on 64 bits.
-/

namespace Holdem

/-- Stacks and hole cards of one table. -/
structure Admissible (chips : Stacks) (holes : HoleCards) : Prop where
  two : 2 ≤ chips.size
  players : holes.keys.Perm chips.keys
  pos : ∀ stack ∈ chips.values, 0 < stack
  fits : Chips.total chips.values ≤ Chips.most
  cards : ∀ cards ∈ holes.values, cards.length = 2

/-! ## The checks, one by one -/

theorem checkStacks_eq_ok_iff {l : List (String × Int)} :
    checkStacks l = .ok () ↔ ∀ stack ∈ l.map Prod.snd, 0 < stack := by
  induction l with
  | nil => simp [checkStacks]
  | cons e l ih =>
    unfold checkStacks
    split
    · rename_i hle
      simp only [List.map_cons, List.mem_cons, forall_eq_or_imp, reduceCtorEq, false_iff, not_and]
      intro hpos
      omega
    · rename_i hpos
      rw [ih, List.map_cons, List.forall_mem_cons]
      exact (and_iff_right (Int.not_le.mp hpos)).symm

theorem checkHoleCounts_eq_ok_iff {l : List (String × List Card)} :
    checkHoleCounts l = .ok () ↔ ∀ cards ∈ l.map Prod.snd, cards.length = 2 := by
  induction l with
  | nil => simp [checkHoleCounts]
  | cons e l ih =>
    unfold checkHoleCounts
    rw [List.map_cons, List.forall_mem_cons]
    split
    · rename_i htwo
      rw [ih]
      exact (and_iff_right htwo).symm
    · rename_i hother
      simp [hother]

/-- The check of the hole cards: every player is known, and holds two cards. -/
theorem checkHoles_eq_ok_iff {chips : Stacks} {l : List (String × List Card)} :
    checkHoles chips l = .ok () ↔
      (∀ player ∈ l.map Prod.fst, player ∈ chips.keys) ∧
        ∀ cards ∈ l.map Prod.snd, cards.length = 2 := by
  induction l with
  | nil => simp [checkHoles]
  | cons e l ih =>
    unfold checkHoles
    rw [List.map_cons, List.map_cons, List.forall_mem_cons, List.forall_mem_cons]
    split
    · rename_i hunknown
      have hnot := PlayerMap.position?_eq_none_iff.mp hunknown
      simp [hnot]
    · rename_i hknown
      have hmem := not_not.mp (mt PlayerMap.position?_eq_none_iff.mpr hknown)
      split
      · rename_i htwo
        rw [ih]
        constructor
        · exact fun h => ⟨⟨hmem, h.1⟩, htwo, h.2⟩
        · exact fun h => ⟨h.1.2, h.2.2⟩
      · rename_i hother
        simp [hother]

/-- A total of positive stacks can be counted if it is not too large. -/
theorem fits_total_iff {amounts : List Int} (hpos : ∀ n ∈ amounts, 0 < n) :
    Chips.fits (Chips.total amounts) = true ↔ Chips.total amounts ≤ Chips.most := by
  have hnonneg := Chips.total_nonneg fun n hn => (hpos n hn).le
  have hleast : Chips.least ≤ 0 := by decide
  rw [InPlace.fits_iff]
  exact and_iff_right (by omega)

/-- **On 64 bits** positive stacks are added up, one after the other, without overflow exactly if
their total can be counted. -/
theorem sum_ok_iff {amounts : List Int} (hpos : ∀ n ∈ amounts, 0 < n) :
    (∃ sum, InPlace.sum amounts = .ok sum) ↔ Chips.total amounts ≤ Chips.most := by
  have hnonneg : ∀ n ∈ amounts, 0 ≤ n := fun n hn => (hpos n hn).le
  constructor
  · rintro ⟨sum, hsum⟩
    by_contra hover
    rw [InPlace.sum_overflow hnonneg (Int.not_le.mp hover)] at hsum
    cases hsum
  · exact fun hfits => ⟨_, InPlace.sum_eq hnonneg hfits⟩

/-! ## The whole check -/

variable {chips : Stacks} {holes : HoleCards}

/-- **What the check accepts.** As no player occurs twice, as many players as there are stacks, each
with a stack, are the players with stacks. -/
theorem checkInput_eq_ok_iff : checkInput chips holes = .ok () ↔ Admissible chips holes := by
  unfold checkInput
  constructor
  · intro h
    split at h
    · cases h
    · rename_i htwo
      split at h
      · cases h
      · rename_i hsize
        cases hstacks : checkStacks chips.entries with
        | error e =>
          rw [hstacks] at h
          cases h
        | ok _ =>
          rw [hstacks] at h
          have hpos := checkStacks_eq_ok_iff.mp hstacks
          dsimp only at h
          split at h
          · rename_i hfits
            obtain ⟨hknown, hcards⟩ := checkHoles_eq_ok_iff.mp h
            exact ⟨Nat.le_of_not_lt htwo, PlayerMap.keys_perm hknown (not_not.mp hsize), hpos,
              (fits_total_iff hpos).mp hfits, hcards⟩
          · cases h
  · intro h
    have hsize : holes.size = chips.size := by
      rw [← PlayerMap.length_keys, ← PlayerMap.length_keys, h.players.length_eq]
    have hstacks : checkStacks chips.entries = .ok () := checkStacks_eq_ok_iff.mpr h.pos
    rw [if_neg (Nat.not_lt.mpr h.two), if_neg (not_not.mpr hsize), hstacks]
    dsimp only
    rw [if_pos ((fits_total_iff h.pos).mpr h.fits)]
    exact checkHoles_eq_ok_iff.mpr ⟨fun _ hplayer => h.players.mem_iff.mp hplayer, h.cards⟩

namespace Admissible

/-- A submitted hand with this input passes its own check. -/
theorem check (h : Admissible chips holes) (roles : Roles) (text : String) :
    HandInput.check ⟨chips, roles, holes, text⟩ = .ok () := by
  have hstacks : checkStacks chips.entries = .ok () := checkStacks_eq_ok_iff.mpr h.pos
  show checkEntries chips holes = .ok ()
  unfold checkEntries
  rw [hstacks]
  exact checkHoleCounts_eq_ok_iff.mpr h.cards

/-- A table accepts the stacks. -/
theorem playable (h : Admissible chips holes) : Playable chips.values where
  two := by
    rw [PlayerMap.length_values, PlayerMap.length_keys]
    exact h.two
  pos := h.pos
  fits := h.fits

theorem create (h : Admissible chips holes) (config : TableConfig) (seed : UInt64) :
    ∃ t, Table.create config chips.values seed = .ok t :=
  ⟨_, Table.create_of_playable config h.playable seed⟩

end Admissible

end Holdem
