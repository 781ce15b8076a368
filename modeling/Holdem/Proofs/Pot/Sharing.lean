import Holdem.Proofs.Except
import Holdem.Proofs.InPlace.Pots

/-!
# What each seat gets of the pots

An award of any pots whatsoever, also of some that nobody contests, and for hands of which some have
no strength.

* `Shares` says which seats share a pot, in terms of the strengths alone: the only eligible seat,
  else those of which no ranked hand in the pot is the stronger, else all of them. The sharers are
  just these (`mem_sharers_iff`), in seat order (`sorted_sharers`).
* `portion` is an even part of an amount, and an odd chip for the first few. What a loop over the
  sharers files under a seat is its portion (`gain_eq`, `payout_eq_portion`).
* `payout_of_tie`: of two equal hands in a pot the lower seat gets an odd chip more at most.
* In 64 signed bits no seat's winnings ever go down, so an award overflows only if some seat wins
  more than fits in the end (`payPot_keeps` is the step, `award_eq_iff` the run).

Result:
* **`award_account`**: who wins what, and whose strength is asked for.
-/

namespace Holdem.Pot

variable {strength : Nat → Option Strength} {pot : Pot} {pots : List Pot} {seats : Nat}

/-- Pots that list some of the seats in seat order. Nobody has to contest them. -/
def Listed (pots : List Pot) (seats : Nat) : Prop :=
  ∀ p ∈ pots, 0 ≤ p.amount ∧ p.eligible.Pairwise (· < ·) ∧ ∀ seat ∈ p.eligible, seat < seats

/-! ## The sharers -/

/-- A seat that shares a pot: it contests the pot, and
* nobody else does, or
* it has a strength that nobody's strength beats, or
* nobody has a strength. -/
def Shares (strength : Nat → Option Strength) (pot : Pot) (seat : Nat) : Prop :=
  seat ∈ pot.eligible ∧
    (pot.eligible.length = 1 ∨
      (∃ s, strength seat = some s ∧
        ∀ other ∈ pot.eligible, ∀ s', strength other = some s' → ¬ s'.beats s = true) ∨
      ∀ other ∈ pot.eligible, strength other = none)

theorem best?_strengths_eq_none_iff :
    Strength.best? (pot.eligible.filterMap strength) = none ↔
      ∀ other ∈ pot.eligible, strength other = none := by
  rw [Strength.best?_eq_none_iff, List.filterMap_eq_nil_iff]

/-- The strengths equal to the best one are those that none beats. -/
theorem eq_best_iff {best : Strength}
    (hb : Strength.best? (pot.eligible.filterMap strength) = some best) {seat : Nat}
    (hseat : seat ∈ pot.eligible) :
    strength seat = some best ↔ ∃ s, strength seat = some s ∧
      ∀ other ∈ pot.eligible, ∀ s', strength other = some s' → ¬ s'.beats s = true := by
  obtain ⟨hmem, hmax⟩ := Strength.best?_spec hb
  constructor
  · exact fun hs => ⟨best, hs, fun other ho s' hs' =>
      hmax s' (List.mem_filterMap.mpr ⟨other, ho, hs'⟩)⟩
  · rintro ⟨s, hs, hnone⟩
    obtain ⟨other, ho, hother⟩ := List.mem_filterMap.mp hmem
    have hle := hmax s (List.mem_filterMap.mpr ⟨seat, hseat, hs⟩)
    rw [hs, Strength.eq_of_not_beats hle (hnone other ho best hother)]

/-- **Who shares a pot.** -/
theorem mem_sharers_iff {seat : Nat} :
    seat ∈ (contest strength pot).sharers ↔ Shares strength pot seat := by
  unfold Shares
  by_cases h1 : pot.eligible.length = 1
  · rw [sharers_single h1]
    exact ⟨fun h => ⟨h, Or.inl h1⟩, And.left⟩
  · simp only [h1, false_or]
    cases hb : Strength.best? (pot.eligible.filterMap strength) with
    | none =>
      rw [sharers_unranked h1 hb]
      exact ⟨fun h => ⟨h, Or.inr (best?_strengths_eq_none_iff.mp hb)⟩, And.left⟩
    | some best =>
      have hranked : ¬ ∀ other ∈ pot.eligible, strength other = none := fun hno => by
        rw [best?_strengths_eq_none_iff.mpr hno] at hb
        cases hb
      rw [sharers_ranked h1 hb, List.mem_filter, decide_eq_true_eq]
      simp only [hranked, or_false]
      exact and_congr_right fun hseat => eq_best_iff hb hseat

/-- The sharers are listed in seat order. -/
theorem sorted_sharers (h : pot.eligible.Pairwise (· < ·)) :
    (contest strength pot).sharers.Pairwise (· < ·) :=
  h.sublist (sharers_sublist strength pot)

theorem nodup_sharers (h : pot.eligible.Pairwise (· < ·)) : (contest strength pot).sharers.Nodup :=
  (sorted_sharers h).imp Nat.ne_of_lt

theorem asked_contest :
    (contest strength pot).asked = if pot.eligible.length = 1 then [] else pot.eligible := by
  unfold contest
  split
  · rfl
  · simp only [List.map_map, Function.comp_def, List.map_id']
    split <;> rfl

/-! ## Portions -/

/-- What a seat gets of an amount: if it is one of the sharers, an even part, and an odd chip if
fewer sharers stand before it than there are odd chips. -/
def portion (amount : Int) (sharers : List Nat) (seat : Nat) : Int :=
  if seat ∈ sharers then
    amount / sharers.length + if (sharers.idxOf seat : Int) < amount % sharers.length then 1 else 0
  else 0

theorem shareAt_eq {amount : Int} (h : 0 ≤ amount) (sharers k : Nat) :
    shareAt amount sharers k = amount / sharers + if (k : Int) < amount % sharers then 1 else 0 := by
  unfold shareAt
  rw [Int.tdiv_eq_ediv_of_nonneg h, Int.tmod_eq_emod_of_nonneg h]
  split <;> omega

/-- Where each sharer occurs once, its share is the only one filed under it. -/
theorem gain_eq {amount : Int} {sharers k : Nat} {l : List Nat} (hnd : l.Nodup) (seat : Nat) :
    InPlace.gain amount sharers l k seat =
      if seat ∈ l then shareAt amount sharers (k + l.idxOf seat) else 0 := by
  induction l generalizing k with
  | nil => rfl
  | cons a l ih =>
    obtain ⟨ha, hl⟩ := List.nodup_cons.mp hnd
    rw [InPlace.gain_cons, ih hl]
    by_cases he : a = seat
    · subst he
      rw [if_pos rfl, if_neg ha, if_pos List.mem_cons_self, List.idxOf_cons_self, Nat.add_zero,
        add_zero]
    · have hplace : k + 1 + l.idxOf seat = k + (l.idxOf seat).succ := by omega
      rw [if_neg he, zero_add, List.idxOf_cons_ne l he, hplace]
      simp only [List.mem_cons, Ne.symm he, false_or]

/-- **What a seat gets of a pot.** -/
theorem payout_eq_portion (h0 : 0 ≤ pot.amount) (hsorted : pot.eligible.Pairwise (· < ·))
    (seat : Nat) :
    payout strength pot seat = portion pot.amount (contest strength pot).sharers seat := by
  have hgain : payout strength pot seat =
      InPlace.gain pot.amount (contest strength pot).sharers.length
        (contest strength pot).sharers 0 seat := rfl
  rw [hgain, gain_eq (nodup_sharers hsorted)]
  unfold portion
  rw [shareAt_eq h0, Nat.zero_add]

/-! ## Ties -/

/-- Of two seats with equal strengths in a pot, both share it or neither does. -/
theorem shares_congr {i j : Nat} (hi : i ∈ pot.eligible) (hj : j ∈ pot.eligible)
    (htie : strength i = strength j) : Shares strength pot i ↔ Shares strength pot j := by
  unfold Shares
  simp only [hi, hj, htie, true_and]

theorem idxOf_lt_idxOf {l : List Nat} (h : l.Pairwise (· < ·)) {i j : Nat} (hi : i ∈ l)
    (hj : j ∈ l) (hij : i < j) : l.idxOf i < l.idxOf j := by
  by_contra hle
  rcases Nat.lt_or_eq_of_le (Nat.not_lt.mp hle) with hlt | heq
  · have := List.pairwise_iff_getElem.mp h _ _ (List.idxOf_lt_length_iff.mpr hj)
      (List.idxOf_lt_length_iff.mpr hi) hlt
    rw [List.getElem_idxOf, List.getElem_idxOf] at this
    omega
  · exact hij.ne' ((List.idxOf_inj hj).mp heq)

/-- **Two equal hands in a pot** get the same of it, but that the lower seat may get an odd chip
which the higher one does not get. -/
theorem payout_of_tie (h0 : 0 ≤ pot.amount) (hsorted : pot.eligible.Pairwise (· < ·)) {i j : Nat}
    (hi : i ∈ pot.eligible) (hj : j ∈ pot.eligible) (htie : strength i = strength j)
    (hij : i < j) :
    payout strength pot j ≤ payout strength pot i ∧
      payout strength pot i ≤ payout strength pot j + 1 := by
  rw [payout_eq_portion h0 hsorted, payout_eq_portion h0 hsorted]
  unfold portion
  by_cases hshares : Shares strength pot i
  · have hmem : i ∈ (contest strength pot).sharers := mem_sharers_iff.mpr hshares
    have hmem' : j ∈ (contest strength pot).sharers :=
      mem_sharers_iff.mpr ((shares_congr hi hj htie).mp hshares)
    have hbefore := idxOf_lt_idxOf (sorted_sharers hsorted) hmem hmem' hij
    rw [if_pos hmem, if_pos hmem']
    split <;> split <;> omega
  · rw [if_neg fun hm => hshares (mem_sharers_iff.mp hm),
      if_neg fun hm => hshares ((shares_congr hi hj htie).mpr (mem_sharers_iff.mp hm))]
    omega

/-! ## The whole award -/

theorem award_getElem? {seat : Nat} (h : seat < seats) :
    (award pots seats strength)[seat]? = some (Chips.total (pots.map (payout strength · seat))) := by
  unfold award
  rw [List.getElem?_map, List.getElem?_range h]
  rfl

/-- A pot that nobody contests pays nobody. -/
theorem payout_uncontested (h : pot.eligible = []) (seat : Nat) : payout strength pot seat = 0 :=
  payout_of_not_mem fun hm => by
    have := mem_sharers hm
    rw [h] at this
    exact absurd this List.not_mem_nil

theorem award_contested (pots : List Pot) (seats : Nat) (strength : Nat → Option Strength) :
    award (pots.filter (·.eligible ≠ [])) seats strength = award pots seats strength := by
  unfold award
  refine List.map_congr_left fun seat _ => ?_
  rw [Chips.total_filter]
  congr 1
  refine List.map_congr_left fun p _ => ?_
  by_cases h : p.eligible = []
  · simp [h, payout_uncontested h]
  · simp [h]

/-- **The seats win what the contested pots hold.** -/
theorem total_award_contested (h : Listed pots seats) (strength : Nat → Option Strength) :
    Chips.total (award pots seats strength) =
      Chips.total ((pots.filter (·.eligible ≠ [])).map (·.amount)) := by
  rw [← award_contested]
  refine total_award (fun p hp => ?_) strength
  obtain ⟨hmem, hne⟩ := List.mem_filter.mp hp
  obtain ⟨h0, -, hlt⟩ := h p hmem
  exact ⟨h0, of_decide_eq_true hne, hlt⟩

end Pot

/-! ## In 64 signed bits -/

namespace InPlace

variable {strength : Nat → Option Strength} {won won' : List Int}

theorem credit_keeps {seat : Nat} {more : Int} (hwon : ∀ n ∈ won, n ≤ Chips.most)
    (h : credit won seat more = .ok won') : ∀ n ∈ won', n ≤ Chips.most := by
  unfold credit changeAt at h
  split at h
  · cases h
  · rename_i a ha
    obtain ⟨b, hb, rfl⟩ := map_eq_ok.mp h
    have hfit : b ≤ Chips.most := by
      simp only [add, fitting] at hb
      split at hb
      · cases hb
        rename_i hfits
        exact (fits_iff.mp hfits).2
      · cases hb
    intro n hn
    rcases List.mem_or_eq_of_mem_set hn with hn | rfl
    · exact hwon n hn
    · exact hfit

theorem handOut_keeps {share odd : Int} {l : List Nat} (hwon : ∀ n ∈ won, n ≤ Chips.most)
    (h : handOut share l odd won = .ok won') : ∀ n ∈ won', n ≤ Chips.most := by
  induction l generalizing odd won with
  | nil =>
    cases h
    exact hwon
  | cons seat l ih =>
    obtain ⟨won₁, h₁, hrest⟩ := bind_eq_ok.mp h
    have hwon₁ := credit_keeps hwon h₁
    split at hrest
    · obtain ⟨won₂, h₂, hrest⟩ := bind_eq_ok.mp hrest
      obtain ⟨odd', -, hrest⟩ := bind_eq_ok.mp hrest
      exact ih (credit_keeps hwon₁ h₂) hrest
    · exact ih hwon₁ hrest

/-- **One pot** leaves every seat with an amount that fits. -/
theorem payPot_keeps {pot : Pot} (hwon : ∀ n ∈ won, n ≤ Chips.most)
    (h : payPot strength won pot = .ok won') : ∀ n ∈ won', n ≤ Chips.most := by
  unfold payPot at h
  simp only at h
  split at h
  · cases h
    exact hwon
  · exact handOut_keeps hwon h

/-- **An award overflows only if a seat wins more than fits.** -/
theorem award_eq_iff {pots : List Pot} {seats : Nat} (h : Pot.Listed pots seats)
    (hfit : ∀ p ∈ pots, p.amount ≤ Chips.most) (strength : Nat → Option Strength) :
    award pots seats strength = .ok (Pot.award pots seats strength) ↔
      ∀ n ∈ Pot.award pots seats strength, n ≤ Chips.most := by
  constructor
  · refine fun hok => foldlM_keeps (fun _ _ _ => payPot_keeps) (fun n hn => ?_) hok
    rw [List.eq_of_mem_replicate hn]
    exact most_nonneg
  · intro hwon
    have hstart : List.replicate seats (0 : Int) = (List.range seats).map fun _ => 0 := by simp
    unfold award
    rw [hstart, foldlM_payPot (fun p hp => ⟨(h p hp).1, (h p hp).2.2⟩) hfit
      (fun _ => le_refl 0) fun i => ?_]
    · simp only [zero_add]
      rfl
    · rw [zero_add]
      by_cases hi : i < seats
      · exact hwon _ (List.mem_of_getElem? (Pot.award_getElem? hi))
      · rw [Chips.total_map_zero fun p hp => Pot.payout_of_not_mem fun hm => ?_]
        · exact most_nonneg
        · exact hi ((h p hp).2.2 i (Pot.mem_sharers hm))

end InPlace

namespace Pot

variable {pots : List Pot} {seats : Nat}

/-- **An award**, of pots that list some of the seats in seat order, for hands with or without a
strength:
* each seat gets, over all pots, its portion among the sharers;
* the sharers of a pot are those that `Shares` names, in seat order;
* together the seats get what the pots hold that somebody contests;
* who does not share a pot gets nothing of it;
* whoever contests a pot is asked for a strength, pot by pot and in seat order, but for those who
  are alone in it;
* in 64 signed bits all this is computed without overflow just if every seat's winnings fit. -/
theorem award_account (h : Listed pots seats) (strength : Nat → Option Strength) :
    ((award pots seats strength).length = seats ∧
      ∀ seat < seats, (award pots seats strength)[seat]? = some (Chips.total
        (pots.map fun p => portion p.amount (contest strength p).sharers seat))) ∧
    (∀ p ∈ pots, (contest strength p).sharers.Pairwise (· < ·) ∧
      ∀ seat, seat ∈ (contest strength p).sharers ↔ Shares strength p seat) ∧
    Chips.total (award pots seats strength) =
      Chips.total ((pots.filter (·.eligible ≠ [])).map (·.amount)) ∧
    (∀ p ∈ pots, ∀ seat, ¬ Shares strength p seat → payout strength p seat = 0) ∧
    asked pots strength =
      pots.flatMap (fun p => if p.eligible.length = 1 then [] else p.eligible) ∧
    ((∀ p ∈ pots, p.amount ≤ Chips.most) →
      (InPlace.award pots seats strength = .ok (award pots seats strength) ↔
        ∀ n ∈ award pots seats strength, n ≤ Chips.most)) := by
  refine ⟨⟨length_award pots seats strength, fun seat hseat => ?_⟩, fun p hp => ?_,
    total_award_contested h strength, fun p _ seat hno => ?_, ?_,
    fun hfit => InPlace.award_eq_iff h hfit strength⟩
  · rw [award_getElem? hseat]
    congr 2
    refine List.map_congr_left fun p hp => ?_
    obtain ⟨h0, hsorted, -⟩ := h p hp
    exact payout_eq_portion h0 hsorted seat
  · exact ⟨sorted_sharers (h p hp).2.1, fun seat => mem_sharers_iff⟩
  · exact payout_of_not_mem fun hm => hno (mem_sharers_iff.mp hm)
  · unfold asked
    simp only [asked_contest]

/-- Seats 0 and 2 tie for an odd pot, nobody contests the next one, seat 1 has no strength but is
alone in the third, and two seats without a strength split the last. -/
theorem award_account_odd_chips :
    let pots : List Pot := [⟨7, [0, 1, 2]⟩, ⟨5, []⟩, ⟨4, [1]⟩, ⟨3, [1, 3]⟩]
    let strength : Nat → Option Strength := fun seat =>
      if seat = 1 ∨ seat = 3 then none else some (.of .straight [9])
    Listed pots 4 ∧ award pots 4 strength = [4, 6, 3, 1] ∧
      (award pots 4 strength)[2]? = some (Chips.total
        (pots.map fun p => portion p.amount (contest strength p).sharers 2)) ∧
      Chips.total (award pots 4 strength) = 7 + 4 + 3 ∧
      asked pots strength = [0, 1, 2, 1, 3] ∧
      InPlace.award pots 4 strength = .ok [4, 6, 3, 1] := by
  intro pots strength
  have hlisted : Listed pots 4 := by unfold Listed; decide
  have hwon : award pots 4 strength = [4, 6, 3, 1] := by decide
  obtain ⟨⟨-, hseats⟩, -, htotal, -, hasked, hfits⟩ := award_account hlisted strength
  refine ⟨hlisted, hwon, hseats 2 (by decide), htotal, hasked, ?_⟩
  rw [(hfits (by decide)).mpr (hwon ▸ by decide), hwon]

end Pot

end Holdem
