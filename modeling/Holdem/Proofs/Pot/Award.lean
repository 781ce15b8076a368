import Holdem.Proofs.Hand.Order
import Holdem.Proofs.Pot.Layers
import Mathlib.Data.List.Nodup

/-!
# Who wins a pot

`award` shares every pot among the best hands that contest it. This file says who the sharers are
and that no chip is lost in the split.

* `mem_sharers`, `sharers_ne_nil`: the sharers contest the pot, and there are some.
* `sharers_of_best`, `not_mem_sharers`: a hand that beats all others in the pot shares it with
  nobody, and a beaten hand has no share.
* `total_split`: the shares of a pot add up to it.

Results, for a whole award:
* **`total_award`**: the seats win what the pots hold.
* `won_nonneg`, `won_le_staked`: a seat wins something between nothing and what it contests.
* `won_eq_staked`, `won_eq_zero`: it wins all of that if it shares no pot, and nothing if it has
  no share in any.
-/

namespace Holdem.Pot

variable {strength : Nat → Option Strength} {pot : Pot}

/-! ## The sharers -/

theorem sharers_single (h : pot.eligible.length = 1) :
    (contest strength pot).sharers = pot.eligible := by
  unfold contest
  rw [if_pos h]

theorem sharers_ranked (h : pot.eligible.length ≠ 1) {best : Strength}
    (hb : Strength.best? (pot.eligible.filterMap strength) = some best) :
    (contest strength pot).sharers = pot.eligible.filter (strength · = some best) := by
  unfold contest
  rw [if_neg h]
  simp only [List.filterMap_map, Function.comp_def]
  rw [hb]
  simp only [List.filter_map, List.map_map, Function.comp_def, List.map_id']

theorem sharers_unranked (h : pot.eligible.length ≠ 1)
    (hb : Strength.best? (pot.eligible.filterMap strength) = none) :
    (contest strength pot).sharers = pot.eligible := by
  unfold contest
  rw [if_neg h]
  simp only [List.filterMap_map, Function.comp_def]
  rw [hb]

theorem sharers_sublist (strength : Nat → Option Strength) (pot : Pot) :
    (contest strength pot).sharers.Sublist pot.eligible := by
  by_cases h : pot.eligible.length = 1
  · rw [sharers_single h]
  · cases hb : Strength.best? (pot.eligible.filterMap strength) with
    | none => rw [sharers_unranked h hb]
    | some best =>
      rw [sharers_ranked h hb]
      exact List.filter_sublist

theorem mem_sharers {seat : Nat} (h : seat ∈ (contest strength pot).sharers) :
    seat ∈ pot.eligible :=
  (sharers_sublist strength pot).mem h

/-- A pot that somebody contests has a sharer. -/
theorem sharers_ne_nil (strength : Nat → Option Strength) (h : pot.eligible ≠ []) :
    (contest strength pot).sharers ≠ [] := by
  by_cases h1 : pot.eligible.length = 1
  · rwa [sharers_single h1]
  · cases hb : Strength.best? (pot.eligible.filterMap strength) with
    | none => rwa [sharers_unranked h1 hb]
    | some best =>
      rw [sharers_ranked h1 hb]
      obtain ⟨seat, hseat, hs⟩ := List.mem_filterMap.mp (Strength.best?_spec hb).1
      exact List.ne_nil_of_mem (List.mem_filter.mpr ⟨hseat, by simpa using hs⟩)

/-- A hand that beats every other hand in a pot. -/
def Wins (strength : Nat → Option Strength) (pot : Pot) (seat : Nat) : Prop :=
  ∀ other ∈ pot.eligible, other ≠ seat →
    ∃ s s', strength seat = some s ∧ strength other = some s' ∧ s.beats s' = true

/-- The best hand in a pot shares it with nobody. -/
theorem sharers_of_best (hnd : pot.eligible.Nodup) {seat : Nat} (hseat : seat ∈ pot.eligible)
    (hwins : Wins strength pot seat) : (contest strength pot).sharers = [seat] := by
  by_cases h1 : pot.eligible.length = 1
  · obtain ⟨a, ha⟩ := List.length_eq_one_iff.mp h1
    rw [sharers_single h1, ha]
    rw [ha] at hseat
    rw [List.mem_singleton.mp hseat]
  · -- a second seat contests the pot, so `seat` has a strength
    obtain ⟨other, hother, hne⟩ : ∃ other ∈ pot.eligible, other ≠ seat := by
      by_contra hno
      push Not at hno
      have hall : pot.eligible = List.replicate pot.eligible.length seat :=
        List.eq_replicate_iff.mpr ⟨rfl, hno⟩
      rw [hall, List.nodup_replicate] at hnd
      have := List.length_pos_of_mem hseat
      omega
    obtain ⟨s, -, hs, -, -⟩ := hwins other hother hne
    have hbest : Strength.best? (pot.eligible.filterMap strength) = some s := by
      refine Strength.best?_eq_some (List.mem_filterMap.mpr ⟨seat, hseat, hs⟩) fun x hx hxs => ?_
      obtain ⟨a, ha, hax⟩ := List.mem_filterMap.mp hx
      have hane : a ≠ seat := by
        rintro rfl
        rw [hs] at hax
        exact hxs (Option.some.inj hax).symm
      obtain ⟨t, t', ht, ht', hb⟩ := hwins a ha hane
      rw [hs] at ht
      rw [hax] at ht'
      rw [Option.some.inj ht, Option.some.inj ht']
      exact hb
    rw [sharers_ranked h1 hbest]
    have honly : ∀ a ∈ pot.eligible, decide (strength a = some s) = decide (a = seat) := by
      intro a ha
      by_cases he : a = seat
      · simp [he, hs]
      · obtain ⟨t, t', ht, ht', hb⟩ := hwins a ha he
        rw [hs] at ht
        have hts : t' ≠ s := by
          rintro rfl
          rw [Option.some.inj ht] at hb
          exact Strength.not_beats_self _ hb
        rw [decide_eq_false he, decide_eq_false (by rw [ht']; simpa using hts)]
    rw [List.filter_congr honly, List.filter_eq, List.count_eq_one_of_mem hnd hseat,
      List.replicate_one]

/-- A beaten hand has no share. -/
theorem not_mem_sharers {seat other : Nat} {s s' : Strength} (hother : other ∈ pot.eligible)
    (hseat : seat ∈ pot.eligible) (hs : strength seat = some s) (hs' : strength other = some s')
    (hb : s'.beats s = true) : seat ∉ (contest strength pot).sharers := by
  have hne : seat ≠ other := by
    rintro rfl
    rw [hs] at hs'
    rw [Option.some.inj hs'] at hb
    exact Strength.not_beats_self _ hb
  have h1 : pot.eligible.length ≠ 1 := by
    intro h1
    obtain ⟨a, ha⟩ := List.length_eq_one_iff.mp h1
    rw [ha, List.mem_singleton] at hother hseat
    exact hne (hseat.trans hother.symm)
  cases hbest : Strength.best? (pot.eligible.filterMap strength) with
  | none =>
    have : s ∈ pot.eligible.filterMap strength := List.mem_filterMap.mpr ⟨seat, hseat, hs⟩
    rw [Strength.best?_eq_none_iff.mp hbest] at this
    exact absurd this List.not_mem_nil
  | some best =>
    rw [sharers_ranked h1 hbest]
    intro hm
    have he := (List.mem_filter.mp hm).2
    rw [decide_eq_true_eq, hs] at he
    rw [Option.some.inj he] at hb
    exact (Strength.best?_spec hbest).2 s' (List.mem_filterMap.mpr ⟨other, hother, hs'⟩) hb

/-! ## The shares -/

/-- The share of the `k`-th sharer: the first few get an odd chip. -/
def shareAt (amount : Int) (sharers k : Nat) : Int :=
  if (k : Int) < amount.tmod sharers then amount.tdiv sharers + 1 else amount.tdiv sharers

theorem split_eq (amount : Int) (sharers : List Nat) :
    split amount sharers = sharers.zipIdx.map fun e => (e.1, shareAt amount sharers.length e.2) :=
  rfl

theorem shareAt_nonneg {amount : Int} (h : 0 ≤ amount) (sharers k : Nat) :
    0 ≤ shareAt amount sharers k := by
  have := Int.tdiv_nonneg h (Int.natCast_nonneg sharers)
  unfold shareAt
  split <;> omega

/-- The shares from the `k`-th on: an even part each, and the odd chips that are left. -/
theorem total_shareAt (amount : Int) (sharers : Nat) (l : List Nat) (k : Nat) :
    Chips.total ((l.zipIdx k).map fun e => shareAt amount sharers e.2) =
      l.length * amount.tdiv sharers + max 0 (min (amount.tmod sharers - k) l.length) := by
  induction l generalizing k with
  | nil => simp
  | cons seat l ih =>
    rw [List.zipIdx_cons, List.map_cons, Chips.total_cons, ih, List.length_cons]
    unfold shareAt
    push_cast
    rw [add_mul, one_mul]
    split <;> omega

/-- **A split keeps every chip.** -/
theorem total_split {amount : Int} (h : 0 ≤ amount) {sharers : List Nat} (hne : sharers ≠ []) :
    Chips.total ((split amount sharers).map (·.2)) = amount := by
  have hpos : (0 : Int) < sharers.length := by
    exact_mod_cast List.length_pos_iff.mpr hne
  have hmod := Int.tmod_lt_of_pos amount hpos
  have hmod' := Int.tmod_nonneg (sharers.length : Int) h
  have hdiv := Int.mul_tdiv_add_tmod amount sharers.length
  rw [split_eq, List.map_map]
  have ht := total_shareAt amount sharers.length sharers 0
  simp only [Function.comp_def]
  rw [ht]
  push_cast
  omega

theorem mem_split {amount : Int} {sharers : List Nat} {e : Nat × Int}
    (he : e ∈ split amount sharers) : e.1 ∈ sharers ∧ (0 ≤ amount → 0 ≤ e.2) := by
  rw [split_eq] at he
  obtain ⟨⟨seat, k⟩, hk, rfl⟩ := List.mem_map.mp he
  exact ⟨List.fst_mem_of_mem_zipIdx hk, fun h => shareAt_nonneg h _ _⟩

/-! ## What a seat gets of a pot -/

theorem payout_nonneg (h : 0 ≤ pot.amount) (seat : Nat) : 0 ≤ payout strength pot seat := by
  unfold payout
  refine Chips.total_map_nonneg fun e he => ?_
  exact (mem_split (List.mem_filter.mp he).1).2 h

/-- A seat without a share gets nothing. -/
theorem payout_of_not_mem {seat : Nat} (h : seat ∉ (contest strength pot).sharers) :
    payout strength pot seat = 0 := by
  unfold payout
  rw [List.filter_eq_nil_iff.mpr]
  · rfl
  · intro e he hs
    rw [decide_eq_true_eq] at hs
    exact h (hs ▸ (mem_split he).1)

theorem payout_le (h : 0 ≤ pot.amount) (hne : pot.eligible ≠ []) (seat : Nat) :
    payout strength pot seat ≤ pot.amount := by
  have hle := Chips.total_filter_le (l := split pot.amount (contest strength pot).sharers)
    (fun e he => (mem_split he).2 h) (·.1 = seat)
  rwa [total_split h (sharers_ne_nil strength hne)] at hle

/-- A pot that is not shared goes to one seat. -/
theorem payout_of_single (h : 0 ≤ pot.amount) {seat : Nat}
    (hs : (contest strength pot).sharers = [seat]) : payout strength pot seat = pot.amount := by
  have ht := total_split h (List.cons_ne_nil seat [])
  unfold payout
  rw [hs, List.filter_eq_self.mpr]
  · exact ht
  · intro e he
    rw [decide_eq_true_eq]
    exact List.mem_singleton.mp (mem_split he).1

/-- A pot that one seat contests needs no strengths. -/
theorem payout_of_eligible (h : pot.eligible.length = 1) (strength' : Nat → Option Strength)
    (seat : Nat) : payout strength pot seat = payout strength' pot seat := by
  unfold payout
  rw [sharers_single h, sharers_single h]

/-- All that the seats get of a pot is the pot. -/
theorem total_payout (h : 0 ≤ pot.amount) (hne : pot.eligible ≠ []) {seats : Nat}
    (hlt : ∀ seat ∈ pot.eligible, seat < seats) :
    Chips.total ((List.range seats).map (payout strength pot)) = pot.amount := by
  unfold payout
  rw [Chips.total_by_seat, total_split h (sharers_ne_nil strength hne)]
  intro e he
  exact hlt e.1 (mem_sharers (mem_split he).1)

/-! ## The whole award -/

theorem length_award (pots : List Pot) (seats : Nat) (strength : Nat → Option Strength) :
    (award pots seats strength).length = seats := by
  unfold award
  rw [List.length_map, List.length_range]

theorem award_getD (pots : List Pot) {seats i : Nat} (h : i < seats)
    (strength : Nat → Option Strength) :
    (award pots seats strength).getD i 0 = Chips.total (pots.map (payout strength · i)) := by
  unfold award
  rw [List.getD_eq_getElem?_getD, List.getElem?_map, List.getElem?_range h]
  rfl

/-- Pots as an award takes them: of positive amounts, each contested by some of the seats. -/
def Contested (pots : List Pot) (seats : Nat) : Prop :=
  ∀ p ∈ pots, 0 ≤ p.amount ∧ p.eligible ≠ [] ∧ ∀ seat ∈ p.eligible, seat < seats

/-- **The seats win what the pots hold.** -/
theorem total_award {pots : List Pot} {seats : Nat} (h : Contested pots seats)
    (strength : Nat → Option Strength) :
    Chips.total (award pots seats strength) = Chips.total (pots.map (·.amount)) := by
  unfold award
  induction pots with
  | nil => exact Chips.total_map_zero fun _ _ => rfl
  | cons p pots ih =>
    obtain ⟨hpos, hne, hlt⟩ := h p List.mem_cons_self
    simp only [List.map_cons, Chips.total_cons]
    rw [Chips.total_map_add, ih fun q hq => h q (List.mem_cons_of_mem p hq)]
    rw [total_payout hpos hne hlt]

theorem won_nonneg {pots : List Pot} {seats : Nat} (h : Contested pots seats)
    (strength : Nat → Option Strength) {i : Nat} (hi : i < seats) :
    0 ≤ (award pots seats strength).getD i 0 := by
  rw [award_getD pots hi]
  exact Chips.total_map_nonneg fun p hp => payout_nonneg (h p hp).1 i

/-- Nobody wins less than nothing. -/
theorem award_nonneg {pots : List Pot} {seats : Nat} (h : Contested pots seats)
    (strength : Nat → Option Strength) : ∀ n ∈ award pots seats strength, 0 ≤ n := by
  intro n hn
  obtain ⟨i, -, rfl⟩ := List.mem_map.mp hn
  exact Chips.total_map_nonneg fun p hp => payout_nonneg (h p hp).1 i

/-- A seat wins nothing of the pots that it does not contest. -/
theorem payout_le_ite {pots : List Pot} {seats : Nat} (h : Contested pots seats)
    (strength : Nat → Option Strength) (i : Nat) {p : Pot} (hp : p ∈ pots) :
    payout strength p i ≤ if i ∈ p.eligible then p.amount else 0 := by
  split
  · exact payout_le (h p hp).1 (h p hp).2.1 i
  · rename_i hno
    rw [payout_of_not_mem fun hm => hno (mem_sharers hm)]

theorem staked_eq (pots : List Pot) (i : Nat) :
    staked pots i = Chips.total (pots.map fun p => if i ∈ p.eligible then p.amount else 0) := by
  unfold staked
  rw [Chips.total_filter]
  simp only [decide_eq_true_eq]

/-- **A seat wins at most what it contests.** -/
theorem won_le_staked {pots : List Pot} {seats : Nat} (h : Contested pots seats)
    (strength : Nat → Option Strength) {i : Nat} (hi : i < seats) :
    (award pots seats strength).getD i 0 ≤ staked pots i := by
  rw [award_getD pots hi, staked_eq]
  exact Chips.total_map_le fun p hp => payout_le_ite h strength i hp

/-- **A seat that shares no pot wins all that it contests.** -/
theorem won_eq_staked {pots : List Pot} {seats : Nat} (h : Contested pots seats)
    {i : Nat} (hi : i < seats)
    (hall : ∀ p ∈ pots, i ∈ p.eligible → (contest strength p).sharers = [i]) :
    (award pots seats strength).getD i 0 = staked pots i := by
  rw [award_getD pots hi, staked_eq]
  congr 1
  refine List.map_congr_left fun p hp => ?_
  by_cases hm : i ∈ p.eligible
  · rw [if_pos hm, payout_of_single (h p hp).1 (hall p hp hm)]
  · rw [if_neg hm, payout_of_not_mem fun hs => hm (mem_sharers hs)]

/-- **A seat that has no share of any pot wins nothing.** -/
theorem won_eq_zero (pots : List Pot) {seats i : Nat} (hi : i < seats)
    (hnone : ∀ p ∈ pots, i ∉ (contest strength p).sharers) :
    (award pots seats strength).getD i 0 = 0 := by
  rw [award_getD pots hi]
  exact Chips.total_map_zero fun p hp => payout_of_not_mem (hnone p hp)

end Holdem.Pot
