import Holdem.Proofs.InPlace.Amount
import Holdem.Proofs.Pot.Award

/-!
# Pots in 64 signed bits

Layering and awarding as loops that add, carry and pay out step by step in 64 signed bits.

* `sidePots` cuts the levels one by one. Every sum on the way is part of what the seats put in, by
  the soundness of the layering (`Layering.Sound.fits`); so **`sidePots_eq`**: it does not halt, if
  that fits.
* `award` credits the shares of each pot to the seats, with an odd chip for the first sharers. What
  a seat has won so far is never above what it wins in the end; so **`award_eq`**: it does not halt
  either.
-/

namespace Holdem

open Pot (Layering Ahead Contested)

/-- Contributions that can be counted: of none a negative amount, and all of them together fit. -/
structure Payable (cs : List Int) : Prop where
  nonneg : ∀ c ∈ cs, 0 ≤ c
  fits : Chips.total cs ≤ Chips.most

namespace InPlace

variable {cs : List Int} {inHand : List Bool}

/-! ## Layering -/

/-- What all seats together put in between two levels. -/
def slice (cs : List Int) (low high : Int) : Except Halt Int := do
  let parts ← cs.mapM fun c => sub (min c high) (min c low)
  sum parts

/-- Adds the next level. -/
def addLevel (cs : List Int) (inHand : List Bool) (l : Layering) (level : Int) :
    Except Halt Layering := do
  let amount ← slice cs l.reached level
  match Pot.reaching cs inHand level, l.pots with
  | seat :: seats, pots => do
    let amount ← add amount l.carry
    pure ⟨level, 0, ⟨amount, seat :: seats⟩ :: pots⟩
  | [], top :: lower => do
    let amount ← add top.amount amount
    pure ⟨level, l.carry, { top with amount } :: lower⟩
  | [], [] => do
    let carry ← add l.carry amount
    pure ⟨level, carry, []⟩

/-- The pots of a hand, lowest level first. -/
def sidePots (cs : List Int) (inHand : List Bool) : Except Halt (List Pot) := do
  let l ← (Pot.levels cs).foldlM (addLevel cs inHand) ⟨0, 0, []⟩
  pure (l.pots.reverse ++ if 0 < l.carry then [⟨l.carry, Pot.live inHand⟩] else [])

theorem slice_bounds (h : Payable cs) {low high : Int} (h0 : 0 ≤ low) (hle : low ≤ high) :
    0 ≤ Pot.slice cs low high ∧ Pot.slice cs low high ≤ Chips.most := by
  constructor
  · exact Chips.total_map_nonneg fun c _ => by omega
  · have hparts := Chips.total_map_le (l := cs) (f := fun c => min c high - min c low) (g := id)
      fun c hc => by
        have := h.nonneg c hc
        show min c high - min c low ≤ c
        omega
    rw [List.map_id] at hparts
    exact hparts.trans h.fits

theorem slice_eq (h : Payable cs) {low high : Int} (h0 : 0 ≤ low) (hle : low ≤ high) :
    slice cs low high = .ok (Pot.slice cs low high) := by
  have hparts : cs.mapM (fun c => sub (min c high) (min c low)) =
      .ok (cs.map fun c => min c high - min c low) := by
    refine mapM_eq fun c hc => ?_
    have hc0 := h.nonneg c hc
    have hcfit := (Chips.le_total h.nonneg hc).trans h.fits
    exact sub_eq (by omega) (by omega)
  unfold slice
  rw [hparts]
  refine sum_eq (fun n hn => ?_) (slice_bounds h h0 hle).2
  obtain ⟨c, -, rfl⟩ := List.mem_map.mp hn
  omega

/-- Under construction, too, no pot holds more than fits, nor is more carried. -/
theorem Layering.Sound.fits {l : Layering} (hs : l.Sound cs inHand) (h : Payable cs) :
    l.carry ≤ Chips.most ∧ ∀ p ∈ l.pots, p.amount ≤ Chips.most := by
  have hamounts : ∀ n ∈ l.pots.map (·.amount), 0 ≤ n := by
    intro n hn
    obtain ⟨p, hp, rfl⟩ := List.mem_map.mp hn
    exact (hs.amount_pos p hp).le
  have htotal := hs.total
  have hnonneg := Chips.total_nonneg hamounts
  have hcarry := hs.carry_nonneg
  have hslice := (slice_bounds h (le_refl 0) hs.reached_nonneg).2
  refine ⟨by omega, fun p hp => ?_⟩
  have hle := Chips.le_total hamounts (List.mem_map_of_mem hp)
  omega

/-- **One more level** does not halt. -/
theorem addLevel_eq (h : Payable cs) {l : Layering} (hs : l.Sound cs inHand) {level : Int}
    {ls : List Int} (ha : Ahead cs l.reached (level :: ls)) :
    addLevel cs inHand l level = .ok (l.add cs inHand level) := by
  have hlt := (ha.above level List.mem_cons_self).1
  have hnext := hs.add_next ha
  obtain ⟨hcarry, hpots⟩ := Layering.Sound.fits hnext h
  have hpos := hnext.amount_pos
  have hcarry0 := hnext.carry_nonneg
  have hmost := most_nonneg
  unfold addLevel
  rw [slice_eq h hs.reached_nonneg hlt.le]
  unfold Pot.Layering.add at hcarry hpots hpos hcarry0 ⊢
  cases hr : Pot.reaching cs inHand level with
  | cons seat seats =>
    simp only [hr] at hpots hpos ⊢
    have hfit := hpots _ List.mem_cons_self
    have hpot := hpos _ List.mem_cons_self
    simp only at hfit hpot
    show (add (Pot.slice cs l.reached level) l.carry >>= _) = _
    rw [add_eq (by omega) hfit]
    rfl
  | nil =>
    cases hp : l.pots with
    | nil =>
      simp only [hr, hp] at hcarry hcarry0 ⊢
      show (add l.carry (Pot.slice cs l.reached level) >>= _) = _
      rw [add_eq (by omega) hcarry]
      rfl
    | cons top lower =>
      simp only [hr, hp] at hpots hpos ⊢
      have hfit := hpots _ List.mem_cons_self
      have hpot := hpos _ List.mem_cons_self
      simp only at hfit hpot
      show (add top.amount (Pot.slice cs l.reached level) >>= _) = _
      rw [add_eq (by omega) hfit]
      rfl

theorem foldlM_addLevel (h : Payable cs) {ls : List Int} {l : Layering} (hs : l.Sound cs inHand)
    (ha : Ahead cs l.reached ls) :
    ls.foldlM (addLevel cs inHand) l = .ok (ls.foldl (Pot.Layering.add cs inHand) l) := by
  induction ls generalizing l with
  | nil => rfl
  | cons level ls ih =>
    rw [List.foldlM_cons, addLevel_eq h hs ha, List.foldl_cons]
    exact ih (hs.add_next ha) (by rw [Pot.Layering.reached_add]; exact ha.tail)

/-- **Cutting the pots does not halt.** -/
theorem sidePots_eq (h : Payable cs) (inHand : List Bool) :
    sidePots cs inHand = .ok (Pot.sidePots cs inHand) := by
  unfold sidePots
  rw [foldlM_addLevel h (Pot.Layering.sound_start h.nonneg) Pot.ahead_levels]
  rfl

/-! ## Awarding -/

/-- Adds an amount to what a seat has won. -/
def credit (won : List Int) (seat : Nat) (amount : Int) : Except Halt (List Int) :=
  changeAt won seat (add · amount)

/-- Hands shares out, with an odd chip each as long as there are some. -/
def handOut (share : Int) : List Nat → Int → List Int → Except Halt (List Int)
  | [], _, won => .ok won
  | seat :: rest, odd, won => do
    let won ← credit won seat share
    if 0 < odd then
      let won ← credit won seat 1
      let odd ← sub odd 1
      handOut share rest odd won
    else handOut share rest odd won

/-- Pays one pot. -/
def payPot (strength : Nat → Option Strength) (won : List Int) (pot : Pot) :
    Except Halt (List Int) :=
  let sharers := (Pot.contest strength pot).sharers
  if sharers = [] then .ok won
  else handOut (pot.amount.tdiv sharers.length) sharers (pot.amount.tmod sharers.length) won

/-- What each seat gets of all pots. -/
def award (pots : List Pot) (seats : Nat) (strength : Nat → Option Strength) :
    Except Halt (List Int) :=
  pots.foldlM (payPot strength) (List.replicate seats 0)

/-- What the sharers from the `k`-th on file under a seat. -/
def gain (amount : Int) (sharers : Nat) (l : List Nat) (k seat : Nat) : Int :=
  Chips.total ((((l.zipIdx k).map fun e => (e.1, Pot.shareAt amount sharers e.2)).filter
    (·.1 = seat)).map (·.2))

variable {amount : Int} {sharers : Nat} {l : List Nat} {k n : Nat} {g : Nat → Int}

theorem gain_cons (seat : Nat) (i : Nat) :
    gain amount sharers (seat :: l) k i =
      (if seat = i then Pot.shareAt amount sharers k else 0) + gain amount sharers l (k + 1) i := by
  unfold gain
  rw [List.zipIdx_cons, List.map_cons, List.filter_cons]
  by_cases h : seat = i <;> simp [h]

theorem gain_nonneg (h : 0 ≤ amount) (i : Nat) : 0 ≤ gain amount sharers l k i := by
  refine Chips.total_map_nonneg fun e he => ?_
  obtain ⟨x, -, rfl⟩ := List.mem_map.mp (List.mem_filter.mp he).1
  exact Pot.shareAt_nonneg h _ _

/-- What the seats have won, with more for one of them. -/
theorem modify_won (n : Nat) (g : Nat → Int) (seat : Nat) (more : Int) :
    ((List.range n).map g).modify seat (· + more) =
      (List.range n).map fun i => g i + if seat = i then more else 0 := by
  apply List.ext_getElem?
  intro i
  rw [List.getElem?_modify, List.getElem?_map, List.getElem?_map]
  by_cases hi : i < n
  · rw [List.getElem?_range hi]
    by_cases hs : seat = i <;> simp [hs]
  · rw [List.getElem?_eq_none (by simpa using hi)]
    rfl

theorem credit_eq {seat : Nat} (hseat : seat < n) {more : Int}
    (hlow : -Chips.most ≤ g seat + more) (hhigh : g seat + more ≤ Chips.most) :
    credit ((List.range n).map g) seat more =
      .ok ((List.range n).map fun i => g i + if seat = i then more else 0) := by
  have ha : ((List.range n).map g)[seat]? = some (g seat) := by
    rw [List.getElem?_map, List.getElem?_range hseat]
    rfl
  unfold credit
  rw [changeAt_eq (g := (· + more)) ha (add_eq hlow hhigh), modify_won]

/-- The odd chips are no more than the amount. -/
theorem tmod_le (hpos : 0 ≤ amount) : amount.tmod sharers ≤ amount := by
  have hmul := Int.mul_tdiv_add_tmod amount sharers
  have hnonneg := mul_nonneg (Int.natCast_nonneg sharers)
    (Int.tdiv_nonneg hpos (Int.natCast_nonneg sharers))
  omega

/-- **One sharer** gets its share, and an odd chip if there is one left. -/
theorem handOut_cons {seat : Nat} (hpos : 0 ≤ amount) (hfit : amount ≤ Chips.most)
    (hseat : seat < n) (hg : 0 ≤ g seat)
    (hself : g seat + Pot.shareAt amount sharers k ≤ Chips.most) :
    handOut (amount.tdiv sharers) (seat :: l) (max 0 (amount.tmod sharers - k))
        ((List.range n).map g) =
      handOut (amount.tdiv sharers) l (max 0 (amount.tmod sharers - (k + 1 : Nat)))
        ((List.range n).map fun i =>
          g i + if seat = i then Pot.shareAt amount sharers k else 0) := by
  have hshare := Int.tdiv_nonneg hpos (Int.natCast_nonneg sharers)
  have hodd : amount.tmod sharers ≤ amount := tmod_le hpos
  have hmost := most_nonneg
  unfold Pot.shareAt at hself ⊢
  rw [handOut]
  by_cases hk : (k : Int) < amount.tmod sharers
  · rw [if_pos hk] at hself ⊢
    rw [credit_eq hseat (by omega) (by omega)]
    show (if _ then _ else _) = _
    rw [if_pos (by omega), credit_eq hseat (by simp; omega) (by simp; omega)]
    show (sub _ 1 >>= _) = _
    rw [sub_eq (by omega) (by omega)]
    show handOut _ l _ _ = _
    congr 1
    · push_cast
      omega
    · refine List.map_congr_left fun i _ => ?_
      by_cases hs : seat = i <;> simp [hs]
      omega
  · rw [if_neg hk] at hself ⊢
    rw [credit_eq hseat (by omega) (by omega)]
    show (if _ then _ else _) = _
    rw [if_neg (by omega)]
    congr 1
    push_cast
    omega

/-- **Handing shares out** does not halt, if what each seat has in the end fits. -/
theorem handOut_eq (hpos : 0 ≤ amount) (hfit : amount ≤ Chips.most) (hlt : ∀ seat ∈ l, seat < n)
    (hg : ∀ i, 0 ≤ g i) (hend : ∀ i, g i + gain amount sharers l k i ≤ Chips.most) :
    handOut (amount.tdiv sharers) l (max 0 (amount.tmod sharers - k)) ((List.range n).map g) =
      .ok ((List.range n).map fun i => g i + gain amount sharers l k i) := by
  induction l generalizing k g with
  | nil =>
    have hzero : ∀ i, gain amount sharers [] k i = 0 := fun _ => rfl
    simp only [handOut, hzero, add_zero]
  | cons seat l ih =>
    have hrest : 0 ≤ gain amount sharers l (k + 1) seat := gain_nonneg hpos seat
    have hself := hend seat
    rw [gain_cons, if_pos rfl] at hself
    rw [handOut_cons hpos hfit (hlt seat List.mem_cons_self) (hg seat) (by omega),
      ih fun s hs => hlt s (List.mem_cons_of_mem seat hs)]
    · congr 1
      refine List.map_congr_left fun i _ => ?_
      rw [gain_cons]
      omega
    · intro i
      have := hg i
      have := Pot.shareAt_nonneg hpos sharers k
      split <;> omega
    · intro i
      have := hend i
      rw [gain_cons] at this
      omega

variable {strength : Nat → Option Strength}

/-- **Paying a pot** does not halt. -/
theorem payPot_eq {pot : Pot} (hpos : 0 ≤ pot.amount) (hfit : pot.amount ≤ Chips.most)
    (hlt : ∀ seat ∈ pot.eligible, seat < n) (hg : ∀ i, 0 ≤ g i)
    (hend : ∀ i, g i + Pot.payout strength pot i ≤ Chips.most) :
    payPot strength ((List.range n).map g) pot =
      .ok ((List.range n).map fun i => g i + Pot.payout strength pot i) := by
  have hgain : ∀ i, gain pot.amount (Pot.contest strength pot).sharers.length
      (Pot.contest strength pot).sharers 0 i = Pot.payout strength pot i := fun _ => rfl
  unfold payPot
  simp only
  split
  · rename_i hnone
    have hzero : ∀ i, Pot.payout strength pot i = 0 := fun i =>
      Pot.payout_of_not_mem (hnone ▸ List.not_mem_nil)
    simp only [hzero, add_zero]
  · have hodd : max 0 (pot.amount.tmod (Pot.contest strength pot).sharers.length - (0 : Nat)) =
        pot.amount.tmod (Pot.contest strength pot).sharers.length := by
      have := Int.tmod_nonneg ((Pot.contest strength pot).sharers.length : Int) hpos
      push_cast
      omega
    have heq := handOut_eq (k := 0) hpos hfit (fun seat hs => hlt seat (Pot.mem_sharers hs)) hg
      (fun i => (hgain i).symm ▸ hend i)
    rw [hodd] at heq
    simpa only [hgain] using heq

theorem foldlM_payPot {pots : List Pot}
    (h : ∀ p ∈ pots, 0 ≤ p.amount ∧ ∀ seat ∈ p.eligible, seat < n)
    (hfit : ∀ p ∈ pots, p.amount ≤ Chips.most) (hg : ∀ i, 0 ≤ g i)
    (hend : ∀ i, g i + Chips.total (pots.map (Pot.payout strength · i)) ≤ Chips.most) :
    pots.foldlM (payPot strength) ((List.range n).map g) =
      .ok ((List.range n).map fun i => g i + Chips.total (pots.map (Pot.payout strength · i))) := by
  induction pots generalizing g with
  | nil => simp [pure, Except.pure]
  | cons p pots ih =>
    obtain ⟨hpos, hlt⟩ := h p List.mem_cons_self
    have hpots : ∀ q ∈ pots, 0 ≤ q.amount ∧ ∀ seat ∈ q.eligible, seat < n :=
      fun q hq => h q (List.mem_cons_of_mem p hq)
    have hpaid : ∀ i, 0 ≤ Pot.payout strength p i := fun i => Pot.payout_nonneg hpos i
    have hrest : ∀ i, 0 ≤ Chips.total (pots.map (Pot.payout strength · i)) := fun i =>
      Chips.total_map_nonneg fun q hq => Pot.payout_nonneg (hpots q hq).1 i
    simp only [List.map_cons, Chips.total_cons] at hend ⊢
    rw [List.foldlM_cons, payPot_eq hpos (hfit p List.mem_cons_self) hlt hg fun i => by
      have := hend i
      have := hrest i
      omega]
    show pots.foldlM (payPot strength) _ = _
    rw [ih hpots (fun q hq => hfit q (List.mem_cons_of_mem p hq))]
    · congr 1
      exact List.map_congr_left fun i _ => by omega
    · intro i
      have := hg i
      have := hpaid i
      omega
    · intro i
      have := hend i
      omega

/-- **Awarding the pots does not halt.** -/
theorem award_eq {pots : List Pot} {seats : Nat} (h : Contested pots seats)
    (hfit : Chips.total (pots.map (·.amount)) ≤ Chips.most) (strength : Nat → Option Strength) :
    award pots seats strength = .ok (Pot.award pots seats strength) := by
  have hamounts : ∀ n ∈ pots.map (·.amount), 0 ≤ n := by
    intro n hn
    obtain ⟨p, hp, rfl⟩ := List.mem_map.mp hn
    exact (h p hp).1
  have hstart : List.replicate seats (0 : Int) = (List.range seats).map fun _ => 0 := by simp
  unfold award
  rw [hstart, foldlM_payPot (fun p hp => ⟨(h p hp).1, (h p hp).2.2⟩) (fun p hp => ?_)
    (fun _ => le_refl 0) fun i => ?_]
  · simp only [zero_add]
    rfl
  · exact (Chips.le_total hamounts (List.mem_map_of_mem hp)).trans hfit
  · rw [zero_add]
    refine (Chips.total_map_le fun p hp => ?_).trans hfit
    exact Pot.payout_le (h p hp).1 (h p hp).2.1 i

end InPlace

end Holdem
