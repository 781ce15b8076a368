import Holdem.Proofs.Table.Decks

/-!
# What a hand pays

The net results of a complete hand, seat by seat. A seat can win from each opponent at most what
both of them put in: `matched` adds that up.

* `Finished.won_folded`, `Finished.won_beaten`: a folded seat wins nothing, nor does one that is
  beaten by a seat that put in as much.
* `Finished.won_le`, `Finished.won_best`: a seat wins at most its own chips and what was matched
  of them, and exactly that if it is alone in the hand or beats all others in it.

Results: `Finished.total_payoff` says that the net results add up to zero, and
**`Run.payoff_bounds`** is the whole account of a payoff, over every run that completes a
hand. It rests on `Finished.led`: as no folded seat is ever above every live one, the pots of the
highest live seat hold everything.
-/

namespace Holdem

namespace Table

variable {starts : List Int} {t : Table} {i : Nat} {s : Seat}

/-- What the other seats matched of a seat's chips: with each of them the lesser of the two
contributions. -/
def matched (t : Table) (i : Nat) : Int :=
  Chips.total ((t.contributions.eraseIdx i).map fun c => min c (t.contributions.getD i 0))

/-- One seat's hand is strictly stronger than another's. -/
def Beats (t : Table) (i j : Nat) : Prop :=
  ∃ a b, t.strength i = some a ∧ t.strength j = some b ∧ a.beats b = true

/-- A seat is alone in the hand, or beats every other seat in it. -/
def Prevails (t : Table) (i : Nat) : Prop :=
  ∀ (j : Nat) (s : Seat), t.seats[j]? = some s → s.inHand = true → j ≠ i → t.Beats i j

theorem contribution_getD (hs : t.seats[i]? = some s) :
    t.contributions.getD i 0 = s.contribution := by
  unfold contributions
  rw [List.getD_eq_getElem?_getD, List.getElem?_map, hs]
  rfl

theorem matched_eq (hs : t.seats[i]? = some s) :
    Chips.total (t.contributions.map fun c => min c (t.contributions.getD i 0)) =
      s.contribution + t.matched i := by
  have hlt : i < (t.contributions.map fun c => min c (t.contributions.getD i 0)).length := by
    unfold contributions
    rw [List.length_map, List.length_map]
    exact (List.getElem?_eq_some_iff.mp hs).1
  have hself : (t.contributions.map fun c => min c (t.contributions.getD i 0)).getD i 0 =
      s.contribution := by
    rw [List.getD_eq_getElem?_getD, List.getElem?_map, contribution_getD hs]
    unfold contributions
    rw [List.getElem?_map, hs]
    exact min_self _
  rw [Chips.total_eraseIdx hlt, hself, List.eraseIdx_map]
  rfl

/-- The seats still in the hand, as the pots see them. -/
theorem isLive_iff {j : Nat} :
    Pot.IsLive t.contributions t.live j ↔ ∃ s, t.seats[j]? = some s ∧ s.inHand = true := by
  unfold Pot.IsLive contributions live
  rw [List.length_map, List.getD_eq_getElem?_getD, List.getElem?_map]
  constructor
  · rintro ⟨hlt, hlive⟩
    rw [List.getElem?_eq_getElem hlt] at hlive ⊢
    exact ⟨_, rfl, hlive⟩
  · rintro ⟨s, hs, hlive⟩
    rw [hs]
    exact ⟨(List.getElem?_eq_some_iff.mp hs).1, hlive⟩

namespace Finished

theorem contributions_nonneg (h : Finished starts t) : ∀ c ∈ t.contributions, 0 ≤ c := by
  intro c hc
  obtain ⟨s, hs, rfl⟩ := List.mem_map.mp hc
  exact (h.staked s hs).1

theorem exists_live (h : Finished starts t) :
    ∃ j, Pot.IsLive t.contributions t.live j := by
  obtain ⟨s, hs, hlive, -⟩ := h.led
  obtain ⟨j, hj⟩ := List.mem_iff_getElem?.mp hs
  exact ⟨j, isLive_iff.mpr ⟨s, hj, hlive⟩⟩

theorem eligible_pot (h : Finished starts t) {p : Pot} (hp : p ∈ t.pots) :
    p.eligible ≠ [] ∧
      ∃ level, 0 ≤ level ∧ p.eligible = Pot.reaching t.contributions t.live level :=
  Pot.sidePots_eligible h.contributions_nonneg (by simp [live, contributions]) h.exists_live hp

/-- The pots of a complete hand can be awarded. -/
theorem contested (h : Finished starts t) : Pot.Contested t.pots t.seats.length := by
  intro p hp
  obtain ⟨hne, level, -, hel⟩ := h.eligible_pot hp
  refine ⟨(Pot.sidePots_amount_pos h.contributions_nonneg hp).le, hne, fun j hj => ?_⟩
  rw [hel] at hj
  have hlt := (Pot.mem_reaching.mp hj).1.1
  unfold contributions at hlt
  rwa [List.length_map] at hlt

/-- Who contests a pot is still in the hand. -/
theorem live_of_eligible (h : Finished starts t) {p : Pot} (hp : p ∈ t.pots) {j : Nat}
    (hj : j ∈ p.eligible) : ∃ s, t.seats[j]? = some s ∧ s.inHand = true := by
  obtain ⟨-, level, -, hel⟩ := h.eligible_pot hp
  rw [hel] at hj
  exact isLive_iff.mp (Pot.mem_reaching.mp hj).1

theorem lt_length (hs : t.seats[i]? = some s) : i < t.seats.length :=
  (List.getElem?_eq_some_iff.mp hs).1

/-- **What a live seat contests**: its own chips and what was matched of them. A seat that no live
seat is above contests everything, and that is no more, for a live seat is above all others. -/
theorem staked_live (h : Finished starts t) (hs : t.seats[i]? = some s) (hlive : s.inHand = true) :
    Pot.staked t.pots i = s.contribution + t.matched i := by
  have h0 := h.contributions_nonneg
  have hi : Pot.IsLive t.contributions t.live i := isLive_iff.mpr ⟨s, hs, hlive⟩
  rw [← matched_eq hs]
  by_cases htop : Pot.Top t.contributions t.live i
  · obtain ⟨w, hw, hwlive, hmost⟩ := h.led
    obtain ⟨j, hj⟩ := List.mem_iff_getElem?.mp hw
    have hle : w.contribution ≤ t.contributions.getD i 0 := by
      rw [← contribution_getD hj]
      exact htop j (isLive_iff.mpr ⟨w, hj, hwlive⟩)
    have hall : ∀ c ∈ t.contributions, min c (t.contributions.getD i 0) = c := by
      intro c hc
      obtain ⟨s', hs', rfl⟩ := List.mem_map.mp hc
      exact min_eq_left ((hmost s' hs').trans hle)
    rw [List.map_congr_left hall, List.map_id']
    exact Pot.staked_top h0 (by simp [live, contributions]) hi htop
  · exact Pot.staked_other h0 hi htop

/-- A folded seat wins nothing. -/
theorem won_folded (h : Finished starts t) (hs : t.seats[i]? = some s)
    (hfold : s.inHand = false) : t.winnings.getD i 0 = 0 := by
  refine Pot.won_eq_zero t.pots (lt_length hs) fun p hp hm => ?_
  obtain ⟨s', hs', hlive⟩ := h.live_of_eligible hp (Pot.mem_sharers hm)
  rw [hs] at hs'
  rw [← Option.some.inj hs', hfold] at hlive
  exact absurd hlive (by simp)

/-- A seat that is beaten by one with as many chips in wins nothing. -/
theorem won_beaten (h : Finished starts t) (hs : t.seats[i]? = some s) {k : Nat} {w : Seat}
    (hw : t.seats[k]? = some w) (hwlive : w.inHand = true)
    (hle : s.contribution ≤ w.contribution) (hbeats : t.Beats k i) :
    t.winnings.getD i 0 = 0 := by
  obtain ⟨a, b, ha, hb, hab⟩ := hbeats
  refine Pot.won_eq_zero t.pots (lt_length hs) fun p hp hm => ?_
  have hi := Pot.mem_sharers hm
  obtain ⟨-, level, -, hel⟩ := h.eligible_pot hp
  -- whatever level the seat reached, the stronger one did too
  have hk : k ∈ p.eligible := by
    rw [hel] at hi ⊢
    have hreach := (Pot.mem_reaching.mp hi).2
    rw [contribution_getD hs] at hreach
    refine Pot.mem_reaching.mpr ⟨isLive_iff.mpr ⟨w, hw, hwlive⟩, ?_⟩
    rw [contribution_getD hw]
    exact hreach.trans hle
  exact Pot.not_mem_sharers hk hi hb ha hab hm

theorem won_nonneg (h : Finished starts t) (hs : t.seats[i]? = some s) :
    0 ≤ t.winnings.getD i 0 :=
  Pot.won_nonneg h.contested t.strength (lt_length hs)

theorem matched_nonneg (h : Finished starts t) (hs : t.seats[i]? = some s) : 0 ≤ t.matched i := by
  refine Chips.total_map_nonneg fun c hc => le_min ?_ ?_
  · exact h.contributions_nonneg c (List.mem_of_mem_eraseIdx hc)
  · rw [contribution_getD hs]
    exact (h.staked s (List.mem_of_getElem? hs)).1

/-- No seat wins more than its own chips and what was matched of them. -/
theorem won_le (h : Finished starts t) (hs : t.seats[i]? = some s) :
    t.winnings.getD i 0 ≤ s.contribution + t.matched i := by
  cases hlive : s.inHand with
  | true =>
    rw [← h.staked_live hs hlive]
    exact Pot.won_le_staked h.contested t.strength (lt_length hs)
  | false =>
    rw [h.won_folded hs hlive]
    exact add_nonneg (h.staked s (List.mem_of_getElem? hs)).1 (h.matched_nonneg hs)

/-- A seat that prevails shares no pot. -/
theorem won_best (h : Finished starts t) (hs : t.seats[i]? = some s) (hlive : s.inHand = true)
    (hbest : t.Prevails i) : t.winnings.getD i 0 = s.contribution + t.matched i := by
  rw [← h.staked_live hs hlive]
  refine Pot.won_eq_staked h.contested (lt_length hs) fun p hp hi => ?_
  obtain ⟨-, level, -, hel⟩ := h.eligible_pot hp
  refine Pot.sharers_of_best (hel ▸ Pot.nodup_reaching level) hi fun j hj hne => ?_
  obtain ⟨w, hw, hwlive⟩ := h.live_of_eligible hp hj
  exact hbest j w hw hwlive hne

/-- At a showdown every live seat has a hand to show. -/
theorem strength_isSome (h : Finished starts t) (hlive : 2 ≤ t.liveCount)
    (hs : t.seats[i]? = some s) : (t.strength i).isSome = true := by
  obtain ⟨hboard, hdealt⟩ := h.shown hlive
  have hhole := List.all_eq_true.mp hdealt s (List.mem_of_getElem? hs)
  obtain ⟨cards, hcards⟩ := Option.isSome_iff_exists.mp hhole
  unfold strength
  rw [if_pos hboard, hs, Option.bind_some, hcards]
  rfl

/-- **Nothing is lost or made**: the net results add up to zero. -/
theorem total_payoff (h : Finished starts t) : Chips.total (t.seats.map (·.payoff)) = 0 := by
  have hlen : t.winnings.length = t.contributions.length := by
    rw [length_winnings]
    exact (List.length_map _).symm
  have hpayoffs : t.seats.map (·.payoff) = List.zipWith (· - ·) t.winnings t.contributions := by
    apply List.ext_getElem?
    intro i
    unfold contributions
    rw [List.getElem?_map, List.getElem?_zipWith, List.getElem?_map]
    cases hs : t.seats[i]? with
    | none => cases t.winnings[i]? <;> rfl
    | some s =>
      have hlt : i < t.winnings.length := by
        rw [length_winnings]
        exact lt_length hs
      rw [Option.map_some, h.paid i s hs, List.getD_eq_getElem?_getD, List.getElem?_eq_getElem hlt]
      rfl
  have hwon : Chips.total t.winnings = Chips.total t.contributions := by
    unfold winnings
    rw [Pot.total_award h.contested]
    exact Pot.total_sidePots h.contributions_nonneg t.live
  rw [hpayoffs, Chips.total_zipWith_sub hlen, hwon, sub_self]

theorem stack_nonneg (h : Finished starts t) (hs : t.seats[i]? = some s) : 0 ≤ s.stack := by
  have hpaid := h.paid i s hs
  have hwon := h.won_nonneg hs
  have hstaked := (h.staked s (List.mem_of_getElem? hs)).2
  unfold Seat.payoff at hpaid
  omega

/-- In the end the seats have what they came with, all together. -/
theorem total_stack (h : Finished starts t) :
    Chips.total (t.seats.map (·.stack)) = Chips.total starts := by
  have hsplit : t.seats.map (·.stack) = t.seats.map fun s => s.payoff + s.start :=
    List.map_congr_left fun s _ => (Int.sub_add_cancel s.stack s.start).symm
  rw [hsplit, Chips.total_map_add, h.total_payoff, h.starts_eq, zero_add]

end Finished

end Table

/-- **What a complete hand pays a seat.** The net results can be read, and
* a folded seat loses what it put in;
* no seat loses more than it put in, nor wins more than the others matched of it;
* a seat that is alone in the hand, or whose hand beats all others in it, wins just that;
* a seat beaten by one that put in as much loses what it put in.

Where two seats are left in the hand, each of them has a strength. -/
theorem Run.payoff_bounds {config : TableConfig} {starts : List Int} {turns : List Turn} {t : Table}
    (h : Run config starts turns t) (hcomplete : t.isComplete = true) {i : Nat} {s : Seat}
    (hs : t.seats[i]? = some s) :
    t.payoffs = .ok (t.seats.map (·.payoff)) ∧
    (s.inHand = false → s.payoff = -s.contribution) ∧
    (-s.contribution ≤ s.payoff ∧ s.payoff ≤ t.matched i) ∧
    (s.inHand = true → t.Prevails i → s.payoff = t.matched i) ∧
    (s.inHand = true → (∃ (k : Nat) (w : Seat), t.seats[k]? = some w ∧ w.inHand = true ∧
      s.contribution ≤ w.contribution ∧ t.Beats k i) → s.payoff = -s.contribution) ∧
    (2 ≤ t.liveCount → (t.strength i).isSome = true) := by
  have hphase : t.phase = .complete := by simpa [Table.isComplete] using hcomplete
  have hfin := h.inv.finished_of_phase hphase
  have hpaid := hfin.paid i s hs
  refine ⟨if_pos hcomplete, fun hfold => ?_, ⟨?_, ?_⟩, fun hlive hbest => ?_, ?_, fun hlive => ?_⟩
  · rw [hpaid, hfin.won_folded hs hfold, zero_sub]
  · have := hfin.won_nonneg hs
    omega
  · have := hfin.won_le hs
    omega
  · have := hfin.won_best hs hlive hbest
    omega
  · rintro - ⟨k, w, hw, hwlive, hle, hbeats⟩
    rw [hpaid, hfin.won_beaten hs hw hwlive hle hbeats, zero_sub]
  · exact hfin.strength_isSome hlive hs

/-- Four players of whom three are all in before the flop, for different amounts, and the fourth
folds after he called. -/
def sidePotMoves : List Move :=
  [.hole 0 ⟨.ace, .spades⟩ ⟨.ace, .hearts⟩, .hole 1 ⟨.king, .spades⟩ ⟨.king, .hearts⟩,
    .hole 2 ⟨.two, .spades⟩ ⟨.seven, .hearts⟩, .hole 3 ⟨.nine, .spades⟩ ⟨.nine, .clubs⟩,
    .raiseTo 100, .checkOrCall, .checkOrCall, .raiseTo 300, .checkOrCall, .fold, .burn,
    .board ⟨.three, .clubs⟩, .board ⟨.four, .clubs⟩, .board ⟨.eight, .diamonds⟩, .burn,
    .board ⟨.ten, .diamonds⟩, .burn, .board ⟨.jack, .hearts⟩]

/-- The seat with the second best hand wins the side pots, and no more than was matched there. -/
theorem payoff_bounds_side_pots : ∃ turns t s,
    Run .standard [60, 300, 300, 500] turns t ∧ t.isComplete = true ∧ t.seats[1]? = some s ∧
      -s.contribution ≤ s.payoff ∧ s.payoff ≤ t.matched 1 ∧ s.payoff = 220 ∧ t.matched 1 = 460 := by
  obtain ⟨turns, t, d, hrun, ⟨hcomplete, hseat, hmatched⟩, -⟩ :=
    exists_run .standard [60, 300, 300, 500] sidePotMoves
      (fun t => t.isComplete = true ∧ (t.seats[1]?).map (·.payoff) = some 220 ∧ t.matched 1 = 460)
      ⟨by decide, by decide, by decide⟩ (by decide +kernel) (by decide)
  obtain ⟨s, hs, hpayoff⟩ := Option.map_eq_some_iff.mp hseat
  obtain ⟨-, -, ⟨hlow, hhigh⟩, -⟩ := hrun.payoff_bounds hcomplete hs
  exact ⟨turns, _, s, hrun, hcomplete, hs, hlow, hhigh, hpayoff, hmatched⟩

end Holdem
