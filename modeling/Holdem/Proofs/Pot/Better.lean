import Holdem.Proofs.Pot.Sharing
import Mathlib.Data.List.Sort

/-!
# A better hand

Two awards of the same pots, for hands that are all known, of which one seat's is better in the
second award.

* The seats that share a pot hold the best hands in it (`mem_sharers_known_iff`). With a better hand
  a seat keeps its share of every pot (`keeps_share`) and shares the pots that it won with nobody
  (`shares_alone`). Nobody else comes in (`shared_before`), and as long as anybody else has a share,
  nobody has left (`sharers_grow`).
* An even part with its odd chip grows as sharers leave (`portion_anti`).
* So of every single pot the seat gets no less (`payout_own`) and nobody else more
  (`payout_others`).
* An award in 64 signed bits that does not halt is the award (`award_exact`).

Result:
* **`award_better`**: a better hand never lowers what its seat wins, nor raises what others win.
-/

namespace Holdem.Pot

variable {strength : Nat → Strength} {pot : Pot} {pots : List Pot} {i j : Nat} {better : Strength}

/-- A change of the winnings in a seat's favour: it wins no less, and nobody else wins more. -/
structure Favours (i : Nat) (won won' : List Int) : Prop where
  length_eq : won.length = won'.length
  own : ∀ a b, won[i]? = some a → won'[i]? = some b → a ≤ b
  others : ∀ seat, seat ≠ i → ∀ a b, won[seat]? = some a → won'[seat]? = some b → b ≤ a

/-! ## The sharers -/

/-- Of hands that are all known, those share a pot that no hand in it beats. -/
theorem mem_sharers_known_iff {seat : Nat} :
    seat ∈ (contest (some ∘ strength) pot).sharers ↔
      seat ∈ pot.eligible ∧
        ∀ other ∈ pot.eligible, (strength other).key ≤ (strength seat).key := by
  rw [mem_sharers_iff]
  unfold Shares
  simp only [Function.comp_apply, Option.some.injEq, exists_eq_left', forall_eq',
    Strength.not_beats_iff, reduceCtorEq]
  refine and_congr_right fun hseat => ⟨?_, fun hbest => .inr (.inl hbest)⟩
  rintro (hone | hbest | hnone) other hother
  · obtain ⟨a, ha⟩ := List.length_eq_one_iff.mp hone
    rw [ha, List.mem_singleton] at hseat hother
    rw [hseat, hother]
  · exact hbest other hother
  · exact (hnone other hother).elim

section Better

variable (hbetter : better.beats (strength i) = true)

include hbetter

/-- The seat holds on to its share. -/
theorem keeps_share (hi : i ∈ (contest (some ∘ strength) pot).sharers) :
    i ∈ (contest (some ∘ Function.update strength i better) pot).sharers := by
  obtain ⟨hmem, hbest⟩ := mem_sharers_known_iff.mp hi
  refine mem_sharers_known_iff.mpr ⟨hmem, fun other hother => ?_⟩
  rw [Function.update_self]
  by_cases he : other = i
  · rw [he, Function.update_self]
  · rw [Function.update_of_ne he]
    exact (hbest other hother).trans (Strength.beats_iff.mp hbetter).le

/-- A pot that the seat had a share of is all its own. -/
theorem shares_alone (hi : i ∈ (contest (some ∘ strength) pot).sharers)
    (hj : j ∈ (contest (some ∘ Function.update strength i better) pot).sharers) : j = i := by
  obtain ⟨hmem, hbest⟩ := mem_sharers_known_iff.mp hi
  obtain ⟨hjmem, hjbest⟩ := mem_sharers_known_iff.mp hj
  by_contra hne
  have hover := hjbest i hmem
  rw [Function.update_self, Function.update_of_ne hne] at hover
  exact ((hbest j hjmem).trans_lt (Strength.beats_iff.mp hbetter)).not_ge hover

/-- No other seat has a share that it did not have before. -/
theorem shared_before (hne : j ≠ i)
    (hj : j ∈ (contest (some ∘ Function.update strength i better) pot).sharers) :
    j ∈ (contest (some ∘ strength) pot).sharers := by
  obtain ⟨hmem, hbest⟩ := mem_sharers_known_iff.mp hj
  rw [Function.update_of_ne hne] at hbest
  refine mem_sharers_known_iff.mpr ⟨hmem, fun other hother => ?_⟩
  have hle := hbest other hother
  by_cases he : other = i
  · rw [he, Function.update_self] at hle
    rw [he]
    exact (Strength.beats_iff.mp hbetter).le.trans hle
  · rwa [Function.update_of_ne he] at hle

/-- As long as another seat has a share, all the former sharers have theirs. -/
theorem sharers_grow (hne : j ≠ i)
    (hj : j ∈ (contest (some ∘ Function.update strength i better) pot).sharers) :
    (contest (some ∘ strength) pot).sharers ⊆
      (contest (some ∘ Function.update strength i better) pot).sharers := by
  intro k hk
  obtain ⟨hkmem, hkbest⟩ := mem_sharers_known_iff.mp hk
  obtain ⟨hjmem, hjbest⟩ := mem_sharers_known_iff.mp hj
  have hki : k ≠ i := fun he => hne (shares_alone hbetter (he ▸ hk) hj)
  rw [Function.update_of_ne hne] at hjbest
  refine mem_sharers_known_iff.mpr ⟨hkmem, fun other hother => ?_⟩
  rw [Function.update_of_ne hki]
  exact (hjbest other hother).trans (hkbest j hjmem)

end Better

/-! ## Portions of more and of fewer sharers -/

/-- A share is the greater the fewer sharers there are and the earlier its turn is. -/
theorem share_anti {amount : Int} (h0 : 0 ≤ amount) {few many k l : Nat} (hfew : 0 < few)
    (hle : few ≤ many) (hkl : k ≤ l) :
    (amount / many + if (l : Int) < amount % many then 1 else 0) ≤
      amount / few + if (k : Int) < amount % few then 1 else 0 := by
  have hpart : amount / many ≤ amount / few :=
    Int.le_ediv_of_mul_le (by omega) ((mul_le_mul_of_nonneg_left (by omega)
      (Int.ediv_nonneg h0 (by omega))).trans (Int.ediv_mul_le amount (by omega)))
  rcases hpart.lt_or_eq with hlt | heq
  · split <;> split <;> omega
  · -- the even parts are equal, so fewer of them leave no fewer odd chips
    have hmany := Int.mul_ediv_add_emod amount many
    have hsum := Int.mul_ediv_add_emod amount few
    have hprod : (few : Int) * (amount / few) ≤ many * (amount / few) :=
      Int.mul_le_mul_of_nonneg_right (by omega) (Int.ediv_nonneg h0 (by omega))
    rw [heq] at hmany ⊢
    split <;> split <;> omega

/-- In a part of a list without repetitions everything comes no later. -/
theorem idxOf_le_of_sublist {l l' : List Nat} (h : l.Sublist l') (hnd : l'.Nodup) {a : Nat}
    (ha : a ∈ l) : l.idxOf a ≤ l'.idxOf a := by
  induction h with
  | slnil => exact absurd ha List.not_mem_nil
  | cons b h ih =>
    obtain ⟨hb, hnd⟩ := List.nodup_cons.mp hnd
    rw [List.idxOf_cons_ne _ fun he : b = a => hb (he ▸ h.mem ha)]
    exact (ih hnd ha).trans (Nat.le_succ _)
  | cons_cons b h ih =>
    obtain ⟨-, hnd⟩ := List.nodup_cons.mp hnd
    by_cases he : b = a
    · rw [he, List.idxOf_cons_self, List.idxOf_cons_self]
    · rw [List.idxOf_cons_ne _ he, List.idxOf_cons_ne _ he]
      exact Nat.succ_le_succ (ih hnd (List.mem_of_ne_of_mem (Ne.symm he) ha))

/-- **A sharer's portion does not shrink** when other sharers leave. -/
theorem portion_anti {amount : Int} (h0 : 0 ≤ amount) {few many : List Nat}
    (hfew : few.Pairwise (· < ·)) (hmany : many.Pairwise (· < ·)) (hsub : few ⊆ many) {seat : Nat}
    (hseat : seat ∈ few) : portion amount many seat ≤ portion amount few seat := by
  have hnd : few.Nodup := hfew.imp Nat.ne_of_lt
  have hpart : few.Sublist many :=
    List.sublist_of_subperm_of_pairwise (List.subperm_of_subset hnd hsub) hfew hmany
  unfold portion
  rw [if_pos hseat, if_pos (hsub hseat)]
  exact share_anti h0 (List.length_pos_of_mem hseat) hpart.length_le
    (idxOf_le_of_sublist hpart (hmany.imp Nat.ne_of_lt) hseat)

/-! ## One pot -/

/-- **The seat with the better hand** gets no less of a pot. -/
theorem payout_own (h0 : 0 ≤ pot.amount) (hsorted : pot.eligible.Pairwise (· < ·))
    (hbetter : better.beats (strength i) = true) :
    payout (some ∘ strength) pot i ≤ payout (some ∘ Function.update strength i better) pot i := by
  by_cases hi : i ∈ (contest (some ∘ strength) pot).sharers
  · rw [payout_eq_portion h0 hsorted, payout_eq_portion h0 hsorted]
    refine portion_anti h0 (sorted_sharers hsorted) (sorted_sharers hsorted) (fun j hj => ?_)
      (keeps_share hbetter hi)
    rwa [shares_alone hbetter hi hj]
  · rw [payout_of_not_mem hi]
    exact payout_nonneg h0 i

/-- **Nobody else** gets more of it. -/
theorem payout_others (h0 : 0 ≤ pot.amount) (hsorted : pot.eligible.Pairwise (· < ·))
    (hbetter : better.beats (strength i) = true) (hne : j ≠ i) :
    payout (some ∘ Function.update strength i better) pot j ≤ payout (some ∘ strength) pot j := by
  by_cases hj : j ∈ (contest (some ∘ Function.update strength i better) pot).sharers
  · rw [payout_eq_portion h0 hsorted, payout_eq_portion h0 hsorted]
    exact portion_anti h0 (sorted_sharers hsorted) (sorted_sharers hsorted)
      (sharers_grow hbetter hne hj) (shared_before hbetter hne hj)
  · rw [payout_of_not_mem hj]
    exact payout_nonneg h0 j

end Holdem.Pot

/-! ## In 64 signed bits -/

namespace Holdem.InPlace

variable {n k sharers seat : Nat} {g : Nat → Int} {amount more : Int} {l : List Nat}
  {won : List Int} {strength : Nat → Option Strength} {pots : List Pot}

theorem add_exact {a b c : Int} (h : add a b = .ok c) : c = a + b := by
  unfold add fitting at h
  split at h
  · exact (Except.ok.inj h).symm
  · cases h

theorem sub_exact {a b c : Int} (h : sub a b = .ok c) : c = a - b := by
  unfold sub fitting at h
  split at h
  · exact (Except.ok.inj h).symm
  · cases h

theorem credit_exact (h : credit ((List.range n).map g) seat more = .ok won) :
    won = (List.range n).map fun i => g i + if seat = i then more else 0 := by
  unfold credit changeAt at h
  split at h
  · cases h
  · rename_i a ha
    obtain ⟨b, hb, rfl⟩ := map_eq_ok.mp h
    rw [add_exact hb, ← modify_won]
    exact set_eq_modify ha (· + more)

theorem handOut_exact
    (h : handOut (amount.tdiv sharers) l (max 0 (amount.tmod sharers - k)) ((List.range n).map g) =
      .ok won) :
    won = (List.range n).map fun i => g i + gain amount sharers l k i := by
  induction l generalizing k g with
  | nil =>
    have hzero : ∀ i, gain amount sharers [] k i = 0 := fun _ => rfl
    simp only [hzero, add_zero]
    exact (Except.ok.inj h).symm
  | cons seat l ih =>
    rw [handOut] at h
    obtain ⟨won₁, h₁, h⟩ := bind_eq_ok.mp h
    obtain rfl := credit_exact h₁
    -- the odd chips that are left go to the next sharers, one each
    by_cases hodd : (k : Int) < amount.tmod sharers
    · rw [if_pos (by omega)] at h
      obtain ⟨won₂, h₂, h⟩ := bind_eq_ok.mp h
      obtain rfl := credit_exact h₂
      obtain ⟨left, hleft, h⟩ := bind_eq_ok.mp h
      have hnext : left = max 0 (amount.tmod sharers - (k + 1 : Nat)) := by
        rw [sub_exact hleft]
        push_cast
        omega
      rw [hnext] at h
      rw [ih h]
      refine List.map_congr_left fun i _ => ?_
      rw [gain_cons]
      unfold Pot.shareAt
      rw [if_pos hodd]
      split <;> omega
    · rw [if_neg (by omega)] at h
      have hnext : max 0 (amount.tmod sharers - k) =
          max 0 (amount.tmod sharers - (k + 1 : Nat)) := by
        push_cast
        omega
      rw [hnext] at h
      rw [ih h]
      refine List.map_congr_left fun i _ => ?_
      rw [gain_cons]
      unfold Pot.shareAt
      rw [if_neg hodd]
      omega

/-- **One pot**, if it is paid at all, is paid as it should be. -/
theorem payPot_exact {pot : Pot} (h0 : 0 ≤ pot.amount)
    (h : payPot strength ((List.range n).map g) pot = .ok won) :
    won = (List.range n).map fun i => g i + Pot.payout strength pot i := by
  unfold payPot at h
  simp only at h
  split at h
  · rename_i hnone
    have hzero : ∀ i, Pot.payout strength pot i = 0 := fun i =>
      Pot.payout_of_not_mem (hnone ▸ List.not_mem_nil)
    simp only [hzero, add_zero]
    exact (Except.ok.inj h).symm
  · have hodd : pot.amount.tmod (Pot.contest strength pot).sharers.length =
        max 0 (pot.amount.tmod (Pot.contest strength pot).sharers.length - (0 : Nat)) := by
      have := Int.tmod_nonneg ((Pot.contest strength pot).sharers.length : Int) h0
      push_cast
      omega
    rw [hodd] at h
    exact handOut_exact h

theorem foldlM_payPot_exact (h0 : ∀ p ∈ pots, 0 ≤ p.amount)
    (h : pots.foldlM (payPot strength) ((List.range n).map g) = .ok won) :
    won = (List.range n).map fun i => g i + Chips.total (pots.map (Pot.payout strength · i)) := by
  induction pots generalizing g with
  | nil =>
    simp only [List.map_nil, Chips.total_nil, add_zero]
    exact (Except.ok.inj h).symm
  | cons p pots ih =>
    rw [List.foldlM_cons] at h
    obtain ⟨won₁, h₁, h⟩ := bind_eq_ok.mp h
    obtain rfl := payPot_exact (h0 p List.mem_cons_self) h₁
    rw [ih (fun q hq => h0 q (List.mem_cons_of_mem p hq)) h]
    simp only [List.map_cons, Chips.total_cons, add_assoc]

/-- **An award that does not halt** is the award. -/
theorem award_exact {seats : Nat} (h0 : ∀ p ∈ pots, 0 ≤ p.amount)
    (h : award pots seats strength = .ok won) : won = Pot.award pots seats strength := by
  have hstart : List.replicate seats (0 : Int) = (List.range seats).map fun _ => 0 := by simp
  unfold award at h
  rw [hstart] at h
  rw [foldlM_payPot_exact h0 h]
  simp only [zero_add]
  rfl

/-- Pots that hold no more than fits are awarded without overflow. -/
theorem exists_award {seats : Nat} (h : Pot.Listed pots seats)
    (hfit : Chips.total (pots.map (·.amount)) ≤ Chips.most) (strength : Nat → Option Strength) :
    ∃ won, award pots seats strength = .ok won := by
  have hamounts : ∀ n ∈ pots.map (·.amount), 0 ≤ n := by
    intro n hn
    obtain ⟨p, hp, rfl⟩ := List.mem_map.mp hn
    exact (h p hp).1
  have hpot : ∀ p ∈ pots, p.amount ≤ Chips.most := fun p hp =>
    (Chips.le_total hamounts (List.mem_map_of_mem hp)).trans hfit
  refine ⟨_, (award_eq_iff h hpot strength).mpr fun n hn => ?_⟩
  obtain ⟨i, -, rfl⟩ := List.mem_map.mp hn
  refine (Chips.total_map_le fun p hp => ?_).trans hfit
  by_cases he : p.eligible = []
  · rw [Pot.payout_uncontested he]
    exact (h p hp).1
  · exact Pot.payout_le (h p hp).1 he i

end Holdem.InPlace

/-! ## The whole award -/

namespace Holdem.Pot

variable {strength : Nat → Strength} {pots : List Pot} {i : Nat} {better : Strength}

theorem favours_award (hpots : ∀ p ∈ pots, 0 ≤ p.amount ∧ p.eligible.Pairwise (· < ·)) (seats : Nat)
    (hbetter : better.beats (strength i) = true) :
    Favours i (award pots seats (some ∘ strength))
      (award pots seats (some ∘ Function.update strength i better)) where
  length_eq := by rw [length_award, length_award]
  own a b ha hb := by
    have hi : i < seats := by
      rw [← length_award pots seats (some ∘ strength)]
      exact (List.getElem?_eq_some_iff.mp ha).1
    rw [award_getElem? hi, Option.some.injEq] at ha hb
    rw [← ha, ← hb]
    exact Chips.total_map_le fun p hp => payout_own (hpots p hp).1 (hpots p hp).2 hbetter
  others seat hne a b ha hb := by
    have hseat : seat < seats := by
      rw [← length_award pots seats (some ∘ strength)]
      exact (List.getElem?_eq_some_iff.mp ha).1
    rw [award_getElem? hseat, Option.some.injEq] at ha hb
    rw [← ha, ← hb]
    exact Chips.total_map_le fun p hp => payout_others (hpots p hp).1 (hpots p hp).2 hbetter hne

/-- **A better hand**, all others being the same, is in its seat's favour over all pots together,
odd chips included. The same holds of two awards in 64 signed bits that do not halt, and such an
award halts for no hands if the pots list seats and hold no more than fits. -/
theorem award_better (hpots : ∀ p ∈ pots, 0 ≤ p.amount ∧ p.eligible.Pairwise (· < ·)) (seats : Nat)
    (strength : Nat → Strength) (hbetter : better.beats (strength i) = true) :
    Favours i (award pots seats (some ∘ strength))
      (award pots seats (some ∘ Function.update strength i better)) ∧
    (∀ won won', InPlace.award pots seats (some ∘ strength) = .ok won →
      InPlace.award pots seats (some ∘ Function.update strength i better) = .ok won' →
      Favours i won won') ∧
    ((∀ p ∈ pots, ∀ seat ∈ p.eligible, seat < seats) →
      Chips.total (pots.map (·.amount)) ≤ Chips.most →
      ∀ strength, ∃ won, InPlace.award pots seats strength = .ok won) := by
  have h0 : ∀ p ∈ pots, 0 ≤ p.amount := fun p hp => (hpots p hp).1
  refine ⟨favours_award hpots seats hbetter, fun won won' h h' => ?_, fun hlt hfit strength => ?_⟩
  · rw [InPlace.award_exact h0 h, InPlace.award_exact h0 h']
    exact favours_award hpots seats hbetter
  · exact InPlace.exists_award (fun p hp => ⟨h0 p hp, (hpots p hp).2, hlt p hp⟩) hfit strength

/-- Seat 1 goes from a loser to a tie in the first pot, where the odd chips are dealt anew, and to
the only winner of the second. -/
theorem award_better_odd_chips :
    let pots : List Pot := [⟨11, [0, 1, 2, 3]⟩, ⟨5, [1, 3]⟩]
    let strength : Nat → Strength := fun seat =>
      if seat = 0 ∨ seat = 2 then .of .straight [9] else .of .onePair [seat]
    (∀ p ∈ pots, 0 ≤ p.amount ∧ p.eligible.Pairwise (· < ·)) ∧
      (Strength.of .straight [9]).beats (strength 1) = true ∧
      award pots 4 (some ∘ strength) = [6, 0, 5, 5] ∧
      award pots 4 (some ∘ Function.update strength 1 (.of .straight [9])) = [4, 9, 3, 0] ∧
      Favours 1 [6, 0, 5, 5] [4, 9, 3, 0] := by
  intro pots strength
  have hpots : ∀ p ∈ pots, 0 ≤ p.amount ∧ p.eligible.Pairwise (· < ·) := by decide
  have hbetter : (Strength.of .straight [9]).beats (strength 1) = true := by decide
  have hwon : award pots 4 (some ∘ strength) = [6, 0, 5, 5] := by decide
  have hwon' : award pots 4 (some ∘ Function.update strength 1 (.of .straight [9])) =
      [4, 9, 3, 0] := by decide
  refine ⟨hpots, hbetter, hwon, hwon', ?_⟩
  rw [← hwon, ← hwon']
  exact (award_better hpots 4 strength hbetter).1

end Holdem.Pot
