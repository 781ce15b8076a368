import Holdem.Proofs.InPlace.Pots

/-!
# How the pots divide the chips

The pots of a hand lie on each other like steps: whoever contests a pot contests every pot below it
as well. This file proves that, and adds up what each seat contests of the chips that are in.

* `Layering.Stacked` is the invariant of the loop over the levels: the pots made so far are nested,
  and a seat that reaches a level still to come contests all of them. `Layering.Stacked.add` is the
  step, `stacked_foldl` the run.
* `matchedBy` is what the seats put in up to the chips of one of them, and `excess` what they put
  in beyond that. The two make up everything (`matchedBy_add_excess`).

Results, for contributions of which none is negative:
* **`nested_sidePots`**: the seats that contest a pot are among those that contest the one before.
* **`staked_live`**: a live seat contests what is matched by its chips, and a top seat what is in
  excess of them, too.
* **`sidePots_partition`** puts the account together, for sums made in 64 signed bits.
-/

namespace Holdem.Pot

variable {cs : List Int} {inHand : List Bool}

/-! ## Who is listed -/

/-- The seats that reach a level reach every lower one. -/
theorem reaching_subset {low high : Int} (h : low ≤ high) :
    reaching cs inHand high ⊆ reaching cs inHand low := by
  intro i hi
  obtain ⟨hlive, hle⟩ := mem_reaching.mp hi
  exact mem_reaching.mpr ⟨hlive, h.trans hle⟩

theorem isLive_iff_flag (h : inHand.length = cs.length) {i : Nat} :
    IsLive cs inHand i ↔ inHand[i]? = some true := by
  unfold IsLive
  rw [← h, List.getD_eq_getElem?_getD]
  constructor
  · rintro ⟨hlt, hflag⟩
    rw [List.getElem?_eq_getElem hlt] at hflag ⊢
    exact congrArg some hflag
  · intro hflag
    rw [hflag]
    exact ⟨(List.getElem?_eq_some_iff.mp hflag).1, rfl⟩

/-! ## The order of the pots -/

/-- The pots under construction, highest first, are nested, and whoever reaches a level that is not
below the one reached contests all of them. -/
structure Layering.Stacked (cs : List Int) (inHand : List Bool) (l : Layering) : Prop where
  nested : l.pots.Pairwise fun upper lower => upper.eligible ⊆ lower.eligible
  above : ∀ p ∈ l.pots, ∀ level, l.reached ≤ level → reaching cs inHand level ⊆ p.eligible

theorem Layering.stacked_start : Layering.Stacked cs inHand ⟨0, 0, []⟩ where
  nested := List.Pairwise.nil
  above := fun _ h => absurd h List.not_mem_nil

/-- **One more level** makes a pot on top of the others, or changes amounts only. -/
theorem Layering.Stacked.add {l : Layering} {level : Int} (h : l.Stacked cs inHand)
    (hlt : l.reached < level) : (l.add cs inHand level).Stacked cs inHand := by
  have habove : ∀ p ∈ l.pots, ∀ high, level ≤ high → reaching cs inHand high ⊆ p.eligible :=
    fun p hp high hle => h.above p hp high (hlt.le.trans hle)
  by_cases hr : reaching cs inHand level = []
  · cases hp : l.pots with
    | nil =>
      rw [Layering.add_carried hr hp]
      exact ⟨List.Pairwise.nil, fun _ hq => absurd hq List.not_mem_nil⟩
    | cons p rest =>
      rw [Layering.add_merged hr hp]
      have hnested := h.nested
      rw [hp] at hnested habove
      obtain ⟨htop, hrest⟩ := List.pairwise_cons.mp hnested
      refine ⟨List.pairwise_cons.mpr ⟨htop, hrest⟩, fun q hq => ?_⟩
      rcases List.mem_cons.mp hq with rfl | hq
      · exact habove p List.mem_cons_self
      · exact habove q (List.mem_cons_of_mem p hq)
  · rw [Layering.add_reached hr]
    refine ⟨List.pairwise_cons.mpr ⟨fun p hp => habove p hp level (le_refl _), h.nested⟩,
      fun q hq high hle => ?_⟩
    rcases List.mem_cons.mp hq with rfl | hq
    · exact reaching_subset hle
    · exact habove q hq high hle

theorem stacked_foldl {ls : List Int} {l : Layering} (h : l.Stacked cs inHand)
    (ha : Ahead cs l.reached ls) : (ls.foldl (Layering.add cs inHand) l).Stacked cs inHand := by
  induction ls generalizing l with
  | nil => exact h
  | cons level ls ih =>
    refine ih (h.add (ha.above level List.mem_cons_self).1) ?_
    rw [Layering.reached_add]
    exact ha.tail

/-- Chips that no live seat matched are contested by all of them, and so is every other pot. -/
theorem Layering.Sound.live_subset {l : Layering} (hs : l.Sound cs inHand) (h0 : ∀ c ∈ cs, 0 ≤ c)
    (hlen : inHand.length = cs.length) (hcarry : 0 < l.carry) {p : Pot} (hp : p ∈ l.pots) :
    live inHand ⊆ p.eligible := by
  obtain ⟨hne, level, -, hel⟩ := hs.eligible p hp
  obtain ⟨j, hj⟩ := List.exists_mem_of_ne_nil _ hne
  rw [hel] at hj
  obtain ⟨hjlive, hle⟩ := mem_reaching.mp hj
  rw [live_eq_reaching h0 hlen, hel]
  exact reaching_subset (hle.trans (hs.carry_unreached hcarry j hjlive))

/-- **Whoever contests a pot contests every pot below it.** -/
theorem nested_sidePots (h0 : ∀ c ∈ cs, 0 ≤ c) (hlen : inHand.length = cs.length) :
    (sidePots cs inHand).Pairwise fun lower upper => upper.eligible ⊆ lower.eligible := by
  obtain ⟨hs, -⟩ := sound_layering h0 inHand
  have hstart : Layering.Stacked cs inHand ⟨0, 0, []⟩ := Layering.stacked_start
  have hnested := (stacked_foldl hstart ahead_levels).nested
  unfold sidePots
  refine List.pairwise_append.mpr ⟨List.pairwise_reverse.mpr hnested, ?_, fun p hp q hq => ?_⟩
  · split
    · exact List.pairwise_singleton _ _
    · exact List.Pairwise.nil
  · split at hq
    · rename_i hcarry
      rw [List.mem_singleton.mp hq]
      exact Layering.Sound.live_subset hs h0 hlen hcarry (List.mem_reverse.mp hp)
    · exact absurd hq List.not_mem_nil

/-! ## What a seat contests -/

/-- What the seats put in up to the chips of one of them. -/
def matchedBy (cs : List Int) (i : Nat) : Int :=
  Chips.total (cs.map fun c => min c (cs.getD i 0))

/-- What the seats put in beyond the chips of one of them. -/
def excess (cs : List Int) (i : Nat) : Int :=
  Chips.total (cs.map fun c => max 0 (c - cs.getD i 0))

theorem matchedBy_add_excess (cs : List Int) (i : Nat) :
    matchedBy cs i + excess cs i = Chips.total cs := by
  unfold matchedBy excess
  rw [← Chips.total_map_add, List.map_congr_left fun c _ => ?_, List.map_id']
  omega

/-- **What a live seat contests.** -/
theorem staked_live (h0 : ∀ c ∈ cs, 0 ≤ c) (hlen : inHand.length = cs.length) {i : Nat}
    (hi : IsLive cs inHand i) :
    (Top cs inHand i → staked (sidePots cs inHand) i = matchedBy cs i + excess cs i) ∧
      (¬ Top cs inHand i → staked (sidePots cs inHand) i = matchedBy cs i) := by
  constructor
  · intro htop
    rw [matchedBy_add_excess]
    exact staked_top h0 hlen hi htop
  · exact staked_other h0 hi

/-- **The pots of a hand**, for contributions that are not negative and fit together in 64 signed
bits, with a seat in the hand at least:
* they are cut without overflow;
* each holds something, and together they hold what the seats put in;
* each is contested by some seats, in seat order, that are all in the hand;
* whoever contests a pot contests every pot before it;
* a seat in the hand contests, over all pots, what each seat put in up to its own chips; if it is
  one of those with the most chips in, then also what each seat put in beyond them. -/
theorem sidePots_partition (h : Payable cs) (hlen : inHand.length = cs.length)
    (hlive : true ∈ inHand) :
    InPlace.sidePots cs inHand = .ok (sidePots cs inHand) ∧
    ((∀ p ∈ sidePots cs inHand, 0 < p.amount) ∧
      Chips.total ((sidePots cs inHand).map (·.amount)) = Chips.total cs) ∧
    (∀ p ∈ sidePots cs inHand, p.eligible ≠ [] ∧ p.eligible.Pairwise (· < ·) ∧
      ∀ i ∈ p.eligible, inHand[i]? = some true) ∧
    (sidePots cs inHand).Pairwise (fun lower upper => upper.eligible ⊆ lower.eligible) ∧
    (∀ i, inHand[i]? = some true →
      let isTop := ∀ j, inHand[j]? = some true → cs.getD j 0 ≤ cs.getD i 0
      (isTop → staked (sidePots cs inHand) i = matchedBy cs i + excess cs i) ∧
        (¬ isTop → staked (sidePots cs inHand) i = matchedBy cs i)) := by
  have h0 := h.nonneg
  obtain ⟨k, hk⟩ := List.mem_iff_getElem?.mp hlive
  have hsome : ∃ i, IsLive cs inHand i := ⟨k, (isLive_iff_flag hlen).mpr hk⟩
  refine ⟨InPlace.sidePots_eq h inHand, ⟨fun p hp => sidePots_amount_pos h0 hp,
    total_sidePots h0 inHand⟩, fun p hp => ?_, nested_sidePots h0 hlen, fun i hi => ?_⟩
  · obtain ⟨hne, level, -, hel⟩ := sidePots_eligible h0 hlen hsome hp
    refine ⟨hne, hel ▸ sorted_reaching level, fun i hi => ?_⟩
    rw [hel] at hi
    exact (isLive_iff_flag hlen).mp (mem_reaching.mp hi).1
  · have htop : Top cs inHand i ↔
        ∀ j, inHand[j]? = some true → cs.getD j 0 ≤ cs.getD i 0 := by
      unfold Top
      simp only [isLive_iff_flag hlen]
    have hstaked := staked_live h0 hlen ((isLive_iff_flag hlen).mpr hi)
    rwa [htop] at hstaked

/-- Folded seats above, between and at the live ones: seat 2 alone contests the upper pot, with what
seat 0 put in beyond its chips. -/
theorem sidePots_partition_folded_above :
    Payable [120, 40, 80, 0, 80] ∧
    sidePots [120, 40, 80, 0, 80] [false, true, true, true, false] =
      [⟨160, [1, 2]⟩, ⟨160, [2]⟩] ∧
    matchedBy [120, 40, 80, 0, 80] 2 = 280 ∧ excess [120, 40, 80, 0, 80] 2 = 40 ∧
    staked (sidePots [120, 40, 80, 0, 80] [false, true, true, true, false]) 2 = 280 + 40 := by
  have hpay : Payable [120, 40, 80, 0, 80] := ⟨by decide, by decide⟩
  obtain ⟨-, -, -, -, hstaked⟩ :=
    @sidePots_partition _ [false, true, true, true, false] hpay rfl (by decide)
  have htop : ∀ j < 5, [false, true, true, true, false][j]? = some true →
      [120, 40, 80, 0, 80].getD j 0 ≤ (80 : Int) := by decide
  exact ⟨hpay, by decide, by decide, by decide,
    (hstaked 2 rfl).1 fun j hj => htop j (List.getElem?_eq_some_iff.mp hj).1 hj⟩

end Holdem.Pot
