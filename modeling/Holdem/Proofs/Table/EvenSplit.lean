import Holdem.Proofs.Pot.Sharing
import Holdem.Proofs.Table.Completion
import Mathlib.Data.Finset.Card
import Mathlib.Data.Finset.Dedup

/-!
# Equal hands that contest everything

A hand is split pot by pot. Where all seats in the hand put in the same, each of them contests every
pot (`Finished.eligible_eq_live`), so two equal hands share the same pots and get the same of each,
but for an odd chip that the lower seat may get (`Pot.payout_of_tie`).

The odd chips are those of single pots, though, and what folded seats put in makes pots of its own:
one for each amount at which a folded seat stopped short of the others (`shortStops`), as
`Finished.length_pots_le` says.

Results:
* **`Run.payoff_of_tie`**: two equal hands differ by one chip in a pot at most, and so by one chip
  for the last pot and one more for each amount at which a folded seat stopped.
* **`uneven_split`**: they can differ by more than one chip.
-/

namespace Holdem

namespace Chips

/-- Terms that differ by one at most differ, all together, by their number at most. -/
theorem total_map_le_add_length {α : Type} {l : List α} {f g : α → Int}
    (h : ∀ a ∈ l, f a ≤ g a + 1) : total (l.map f) ≤ total (l.map g) + l.length := by
  induction l with
  | nil => exact le_refl _
  | cons a l ih =>
    have ha := h a List.mem_cons_self
    have hl := ih fun b hb => h b (List.mem_cons_of_mem a hb)
    simp only [List.map_cons, total_cons, List.length_cons]
    push_cast
    omega

end Chips

namespace Pot

variable {cs : List Int} {inHand : List Bool}

theorem length_layers (low : Int) (ls : List Int) :
    (layers cs inHand low ls).length = ls.length := by
  induction ls generalizing low with
  | nil => rfl
  | cons level ls ih => exact congrArg (· + 1) (ih level)

/-- A level that every live seat reached is contested by all of them. -/
theorem reaching_eq_live (h0 : ∀ c ∈ cs, 0 ≤ c) (hlen : inHand.length = cs.length) {level : Int}
    (hall : ∀ i, IsLive cs inHand i → level ≤ cs.getD i 0) :
    reaching cs inHand level = live inHand := by
  rw [live_eq_reaching h0 hlen]
  unfold reaching
  refine List.filter_congr fun i hi => ?_
  have hlt := List.mem_range.mp hi
  have hnonneg := h0 _ (getD_mem hlt)
  cases hlive : inHand.getD i false with
  | false => rfl
  | true => rw [decide_eq_true (hall i ⟨hlt, hlive⟩), decide_eq_true hnonneg]

end Pot

namespace Table

variable {starts : List Int} {t : Table} {c : Int}

theorem mem_live {i : Nat} :
    i ∈ Pot.live t.live ↔ ∃ s, t.seats[i]? = some s ∧ s.inHand = true := by
  rw [← isLive_iff]
  unfold Pot.live Pot.IsLive live contributions
  rw [List.mem_filter, List.mem_range, List.length_map, List.length_map]

/-- The amounts that folded seats put in, apart from nothing and from a full share. -/
def shortStops (t : Table) (full : Int) : Finset Int :=
  ((t.seats.filter fun s =>
    !s.inHand && decide (0 < s.contribution ∧ s.contribution < full)).map (·.contribution)).toFinset

theorem mem_shortStops {full x : Int} : x ∈ t.shortStops full ↔
    ∃ s ∈ t.seats, s.inHand = false ∧ 0 < s.contribution ∧ s.contribution < full ∧
      s.contribution = x := by
  unfold shortStops
  simp [and_assoc]

namespace Finished

/-- **Every seat in the hand contests every pot**, where all of them put in the same. -/
theorem eligible_eq_live (h : Finished starts t)
    (hequal : ∀ s ∈ t.seats, s.inHand = true → s.contribution = c) {p : Pot} (hp : p ∈ t.pots) :
    p.eligible = Pot.live t.live := by
  have hsame : ∀ i, Pot.IsLive t.contributions t.live i → t.contributions.getD i 0 = c := by
    intro i hi
    obtain ⟨s, hs, hlive⟩ := isLive_iff.mp hi
    rw [contribution_getD hs]
    exact hequal s (List.mem_of_getElem? hs) hlive
  obtain ⟨hne, level, -, hel⟩ := h.eligible_pot hp
  obtain ⟨j, hj⟩ := List.exists_mem_of_ne_nil _ hne
  rw [hel] at hj ⊢
  obtain ⟨hjlive, hreach⟩ := Pot.mem_reaching.mp hj
  refine Pot.reaching_eq_live h.contributions_nonneg (by simp [live, contributions]) fun i hi => ?_
  rwa [hsame i hi, ← hsame j hjlive]

/-- **How many pots there are**: the last one, and one for each amount at which a folded seat
stopped. -/
theorem length_pots_le (h : Finished starts t) (hled : Pot.Led t.contributions t.live)
    (hequal : ∀ s ∈ t.seats, s.inHand = true → s.contribution = c) :
    t.pots.length ≤ (t.shortStops c).card + 1 := by
  obtain ⟨w, hw, hwlive, hmost⟩ := h.led
  have hsub : (Pot.levels t.contributions).toFinset ⊆ insert c (t.shortStops c) := by
    intro x hx
    obtain ⟨hmem, hpos⟩ := Pot.mem_levels.mp (List.mem_toFinset.mp hx)
    obtain ⟨s, hs, rfl⟩ := List.mem_map.mp hmem
    by_cases hc : s.contribution = c
    · exact Finset.mem_insert.mpr (Or.inl hc)
    · have hfold : s.inHand = false := by
        by_contra hlive
        exact hc (hequal s hs (Bool.not_eq_false _ ▸ hlive))
      have hle := hmost s hs
      rw [hequal w hw hwlive] at hle
      exact Finset.mem_insert.mpr (Or.inr (mem_shortStops.mpr
        ⟨s, hs, hfold, hpos, lt_of_le_of_ne hle hc, rfl⟩))
  have hnodup : (Pot.levels t.contributions).Nodup := Pot.sorted_levels.imp fun hlt => hlt.ne
  unfold pots
  rw [Pot.sidePots_of_led hled, Pot.length_layers, ← List.toFinset_card_of_nodup hnodup]
  exact (Finset.card_le_card hsub).trans (Finset.card_insert_le _ _)

/-- The seats that contest a pot are listed in seat order. -/
theorem sorted_eligible (h : Finished starts t) {p : Pot} (hp : p ∈ t.pots) :
    p.eligible.Pairwise (· < ·) := by
  obtain ⟨-, level, -, hel⟩ := h.eligible_pot hp
  rw [hel]
  exact Pot.sorted_reaching level

theorem won_eq (h : Finished starts t) {i : Nat} {s : Seat} (hs : t.seats[i]? = some s) :
    s.payoff = Chips.total (t.pots.map (Pot.payout t.strength · i)) - s.contribution := by
  rw [h.paid i s hs]
  unfold winnings
  rw [Pot.award_getD t.pots (lt_length hs)]

end Finished

end Table

/-- **Two equal hands.** Where a hand is complete and all seats in it put in the same, two of them
that are equally strong
* contest every pot, as do all others;
* get the same of each pot, but for an odd chip that only the lower seat gets;
* are paid the same all in all, but for so many chips to the lower seat's favour at most as there
  are pots. There is one, and at most one more for each amount at which a folded seat stopped. -/
theorem Run.payoff_of_tie {config : TableConfig} {starts : List Int} {turns : List Turn} {t : Table}
    (h : Run config starts turns t) (hcomplete : t.isComplete = true) {c : Int}
    (hequal : ∀ s ∈ t.seats, s.inHand = true → s.contribution = c) {i j : Nat} (hij : i < j)
    {s s' : Seat} (hs : t.seats[i]? = some s) (hs' : t.seats[j]? = some s')
    (hlive : s.inHand = true) (hlive' : s'.inHand = true) (htie : t.strength i = t.strength j) :
    (∀ p ∈ t.pots, p.eligible = Pot.live t.live ∧
      Pot.payout t.strength p j ≤ Pot.payout t.strength p i ∧
      Pot.payout t.strength p i ≤ Pot.payout t.strength p j + 1) ∧
    s.payoff - s'.payoff =
      Chips.total (t.pots.map fun p => Pot.payout t.strength p i - Pot.payout t.strength p j) ∧
    s'.payoff ≤ s.payoff ∧ s.payoff ≤ s'.payoff + t.pots.length ∧
    t.pots.length ≤ (t.shortStops c).card + 1 := by
  have hphase : t.phase = .complete := by simpa [Table.isComplete] using hcomplete
  have hfin := h.inv.finished_of_phase hphase
  have hpots : ∀ p ∈ t.pots, p.eligible = Pot.live t.live ∧
      Pot.payout t.strength p j ≤ Pot.payout t.strength p i ∧
      Pot.payout t.strength p i ≤ Pot.payout t.strength p j + 1 := by
    intro p hp
    have hel := hfin.eligible_eq_live hequal hp
    have hi : i ∈ p.eligible := hel ▸ Table.mem_live.mpr ⟨s, hs, hlive⟩
    have hj : j ∈ p.eligible := hel ▸ Table.mem_live.mpr ⟨s', hs', hlive'⟩
    exact ⟨hel, Pot.payout_of_tie (hfin.contested p hp).1 (hfin.sorted_eligible hp) hi hj htie hij⟩
  have hwon := hfin.won_eq hs
  have hwon' := hfin.won_eq hs'
  have hin := hequal s (List.mem_of_getElem? hs) hlive
  have hin' := hequal s' (List.mem_of_getElem? hs') hlive'
  have hlow := Chips.total_map_le fun p hp => (hpots p hp).2.1
  have hhigh := Chips.total_map_le_add_length fun p hp => (hpots p hp).2.2
  have hcount := hfin.length_pots_le h.inv.led hequal
  have hsplit := Chips.total_map_add t.pots
    (fun p => Pot.payout t.strength p i - Pot.payout t.strength p j) (Pot.payout t.strength · j)
  simp only [Int.sub_add_cancel] at hsplit
  refine ⟨hpots, ?_, ?_, ?_, hcount⟩ <;> omega

/-- Five players of whom the blinds fold to a raise, one after the other, and two of the other three
are equally strong. -/
def blindsFoldedMoves : List Move :=
  [.hole 0 ⟨.two, .clubs⟩ ⟨.seven, .diamonds⟩, .hole 1 ⟨.two, .diamonds⟩ ⟨.seven, .hearts⟩,
    .hole 2 ⟨.three, .clubs⟩ ⟨.four, .diamonds⟩, .hole 3 ⟨.three, .diamonds⟩ ⟨.four, .hearts⟩,
    .hole 4 ⟨.three, .hearts⟩ ⟨.four, .clubs⟩, .raiseTo 80, .checkOrCall, .checkOrCall, .fold,
    .fold, .burn, .board ⟨.ten, .spades⟩, .board ⟨.jack, .spades⟩, .board ⟨.queen, .spades⟩, .burn,
    .board ⟨.king, .spades⟩, .burn, .board ⟨.ace, .spades⟩]

/-- Seats 2 and 4 have the same hand and put in the same. The blinds make a pot each besides the one
of the callers, and two of the three pots do not split evenly. -/
theorem payoff_of_tie_blinds_folded : ∃ turns t s s',
    Run .standard [100, 100, 80, 80, 80] turns t ∧ t.isComplete = true ∧
      t.seats[2]? = some s ∧ t.seats[4]? = some s' ∧ t.strength 2 = t.strength 4 ∧
      t.shortStops 80 = {20, 40} ∧ t.pots.length ≤ 3 ∧ s.payoff ≤ s'.payoff + 3 := by
  obtain ⟨turns, t, d, hrun, ⟨hcomplete, hequal, hs, hs', htie, hstops⟩, -⟩ :=
    exists_run .standard [100, 100, 80, 80, 80] blindsFoldedMoves
      (fun t => t.isComplete = true ∧
        (∀ s ∈ t.seats, s.inHand = true → s.contribution = 80) ∧
        (t.seats[2]?).any (·.inHand) = true ∧ (t.seats[4]?).any (·.inHand) = true ∧
        t.strength 2 = t.strength 4 ∧ t.shortStops 80 = {20, 40})
      ⟨by decide, by decide, by decide⟩ (by decide +kernel) (by decide)
  obtain ⟨s, hs, hlive⟩ := (Option.any_eq_true _ _).mp hs
  obtain ⟨s', hs', hlive'⟩ := (Option.any_eq_true _ _).mp hs'
  obtain ⟨-, -, -, hpaid, hpots⟩ :=
    hrun.payoff_of_tie hcomplete hequal (by decide) hs hs' hlive hlive' htie
  have hcard : ((t.withDeck d).shortStops 80).card = 2 := by
    show (t.shortStops 80).card = 2
    rw [hstops]
    decide
  rw [hcard] at hpots
  exact ⟨turns, _, s, s', hrun, hcomplete, hs, hs', htie, hstops, hpots, by omega⟩

/-- **An uneven split**: two equal hands of the same contribution that are paid two chips apart. -/
theorem uneven_split : ∃ turns t s s',
    Run .standard [100, 100, 80, 80, 80] turns t ∧ t.isComplete = true ∧
      (∀ w ∈ t.seats, w.inHand = true → w.contribution = 80) ∧
      t.seats[2]? = some s ∧ t.seats[4]? = some s' ∧ s.inHand = true ∧ s'.inHand = true ∧
      t.strength 2 = t.strength 4 ∧ s.payoff = 21 ∧ s'.payoff = 19 := by
  obtain ⟨turns, t, d, hrun, ⟨hcomplete, hequal, hs, hs', htie⟩, -⟩ :=
    exists_run .standard [100, 100, 80, 80, 80] blindsFoldedMoves
      (fun t => t.isComplete = true ∧
        (∀ s ∈ t.seats, s.inHand = true → s.contribution = 80) ∧
        (t.seats[2]?).any (fun s => s.inHand && s.payoff = 21) = true ∧
        (t.seats[4]?).any (fun s => s.inHand && s.payoff = 19) = true ∧
        t.strength 2 = t.strength 4)
      ⟨by decide, by decide, by decide⟩ (by decide +kernel) (by decide)
  obtain ⟨s, hs, hpaid⟩ := (Option.any_eq_true _ _).mp hs
  obtain ⟨s', hs', hpaid'⟩ := (Option.any_eq_true _ _).mp hs'
  rw [Bool.and_eq_true, decide_eq_true_eq] at hpaid hpaid'
  exact ⟨turns, _, s, s', hrun, hcomplete, hequal, hs, hs', hpaid.1, hpaid'.1, htie, hpaid.2,
    hpaid'.2⟩

end Holdem
