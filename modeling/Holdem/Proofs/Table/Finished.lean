import Holdem.Proofs.Pot.Award
import Holdem.Proofs.Table.Level

/-!
# Paying a hand out

What the end of a hand leaves of its seats. Collecting bets and paying pots move chips, but not a
seat's *stake*: what it put in, whether it is still in the hand, and its cards. As the pots and
their winners are made of the stakes and the board alone, a finished table has the same pots as
before (`winnings_congr`).

`Finished` says what is known of a complete hand, and `finished_of_inPlay` that it holds of every
hand that was in play until its end.
-/

namespace Holdem

/-- What a seat has at stake: chips, whether it is still in the hand, and its cards. -/
def Seat.stake (s : Seat) : Int × Bool × Option (Card × Card) := (s.contribution, s.inHand, s.hole)

namespace Table

variable {t t' : Table}

/-! ## Stakes -/

theorem stake_getElem? (h : t.seats.map Seat.stake = t'.seats.map Seat.stake) (i : Nat) :
    (t.seats[i]?).map Seat.stake = (t'.seats[i]?).map Seat.stake := by
  rw [← List.getElem?_map, h, List.getElem?_map]

theorem map_of_stake {α : Type} (h : t.seats.map Seat.stake = t'.seats.map Seat.stake)
    (f : Int × Bool × Option (Card × Card) → α) :
    t.seats.map (fun s => f s.stake) = t'.seats.map (fun s => f s.stake) := by
  have := congrArg (List.map f) h
  rwa [List.map_map, List.map_map] at this

theorem contributions_congr (h : t.seats.map Seat.stake = t'.seats.map Seat.stake) :
    t.contributions = t'.contributions :=
  map_of_stake h fun e => e.1

theorem live_congr (h : t.seats.map Seat.stake = t'.seats.map Seat.stake) : t.live = t'.live :=
  map_of_stake h fun e => e.2.1

theorem pots_congr (h : t.seats.map Seat.stake = t'.seats.map Seat.stake) : t.pots = t'.pots := by
  unfold pots
  rw [contributions_congr h, live_congr h]

theorem liveCount_eq (t : Table) : t.liveCount = t.live.countP id := by
  unfold liveCount live
  rw [List.countP_map]
  rfl

theorem liveCount_congr (h : t.live = t'.live) : t.liveCount = t'.liveCount := by
  rw [liveCount_eq, h, ← liveCount_eq]

theorem allDealt_eq (t : Table) : t.allDealt = (t.seats.map (·.hole)).all (·.isSome) := by
  unfold allDealt
  rw [List.all_map]
  rfl

theorem allDealt_congr (h : t.seats.map (·.hole) = t'.seats.map (·.hole)) :
    t.allDealt = t'.allDealt := by
  rw [allDealt_eq, h, ← allDealt_eq]

theorem strength_congr (h : t.seats.map Seat.stake = t'.seats.map Seat.stake)
    (hboard : t.board = t'.board) : t.strength = t'.strength := by
  funext i
  have hhole : (t.seats[i]?).bind (·.hole) = (t'.seats[i]?).bind (·.hole) := by
    have := congrArg (Option.bind · fun e : Int × Bool × Option (Card × Card) => e.2.2)
      (stake_getElem? h i)
    rw [Option.bind_map, Option.bind_map] at this
    exact this
  unfold strength
  rw [hboard, hhole]

/-- **Who wins what** depends on the stakes and the board alone. -/
theorem winnings_congr (h : t.seats.map Seat.stake = t'.seats.map Seat.stake)
    (hboard : t.board = t'.board) : t.winnings = t'.winnings := by
  have hlen : t.seats.length = t'.seats.length := by
    have := congrArg List.length h
    rwa [List.length_map, List.length_map] at this
  unfold winnings
  rw [pots_congr h, hlen, strength_congr h hboard]

/-! ## The table after the pots were paid -/

/-- The table of a hand that ends: bets collected and pots paid. -/
def paidOut (t : Table) : Table := t.collected.finish.1

theorem collected_stake (t : Table) :
    t.collected.seats.map Seat.stake = t.seats.map Seat.stake := by
  unfold collected
  rw [List.map_map]
  refine List.map_congr_left fun s _ => ?_
  unfold Seat.stake
  rw [Function.comp_apply, Seat.collect_contribution]
  rfl

theorem length_winnings (t : Table) : t.winnings.length = t.seats.length :=
  Pot.length_award _ _ _

/-- A seat after the end: its bet collected, and its winnings added. -/
theorem paidOut_getElem? (t : Table) (i : Nat) :
    t.paidOut.seats[i]? =
      (t.seats[i]?).map fun s => s.collect.addChips (t.winnings.getD i 0) := by
  have hw : t.collected.winnings = t.winnings := winnings_congr (collected_stake t) rfl
  show (t.collected.seats.zipWith (·.addChips ·) t.collected.winnings)[i]? = _
  rw [hw, List.getElem?_zipWith]
  show _ = (t.seats[i]?).map _
  unfold collected
  rw [List.getElem?_map]
  cases hs : t.seats[i]? with
  | none => rfl
  | some s =>
    have hlt : i < t.winnings.length := by
      rw [length_winnings]
      exact (List.getElem?_eq_some_iff.mp hs).1
    rw [List.getD_eq_getElem?_getD, List.getElem?_eq_getElem hlt]
    rfl

theorem paidOut_stake (t : Table) : t.paidOut.seats.map Seat.stake = t.seats.map Seat.stake := by
  apply List.ext_getElem?
  intro i
  rw [List.getElem?_map, List.getElem?_map, paidOut_getElem?]
  cases t.seats[i]? with
  | none => rfl
  | some s =>
    have hc := Seat.collect_contribution s
    simp only [Option.map_some, Seat.stake, Option.some.injEq, Prod.mk.injEq]
    exact ⟨hc, rfl, rfl⟩

/-! ## Complete hands -/

/-- What is known of a complete hand: every seat put in some of its chips, and its net result is
what it won less that; some live seat put in as much as any; and a hand that is shown down has all
its cards. -/
structure Finished (starts : List Int) (t : Table) : Prop where
  starts_eq : t.seats.map (·.start) = starts
  staked : ∀ s ∈ t.seats, 0 ≤ s.contribution ∧ s.contribution ≤ s.start
  paid : ∀ (i : Nat) (s : Seat), t.seats[i]? = some s →
    s.payoff = t.winnings.getD i 0 - s.contribution
  led : ∃ s ∈ t.seats, s.inHand = true ∧ ∀ s' ∈ t.seats, s'.contribution ≤ s.contribution
  shown : 2 ≤ t.liveCount → t.board.length = 5 ∧ t.allDealt = true

variable {starts : List Int}

theorem mem_paidOut {s' : Seat} (h : s' ∈ t.paidOut.seats) :
    ∃ s ∈ t.seats, ∃ won, s' = s.collect.addChips won := by
  obtain ⟨i, hi⟩ := List.mem_iff_getElem?.mp h
  rw [paidOut_getElem?] at hi
  obtain ⟨s, hs, rfl⟩ := Option.map_eq_some_iff.mp hi
  exact ⟨s, List.mem_of_getElem? hs, _, rfl⟩

theorem contribution_addChips_collect (s : Seat) (won : Int) :
    (s.collect.addChips won).contribution = s.contribution :=
  Seat.collect_contribution s

/-- **A hand that was in play until its end is finished**, whoever won it. -/
theorem finished_of_inPlay (h : InPlay starts t.seats)
    (hshown : 2 ≤ t.liveCount → t.board.length = 5 ∧ t.allDealt = true) :
    Finished starts t.paidOut := by
  have hstake := paidOut_stake t
  refine ⟨?_, fun s' hs' => ?_, fun i s' hs' => ?_, ?_, fun hlive => ?_⟩
  · rw [← h.starts_eq]
    apply List.ext_getElem?
    intro i
    rw [List.getElem?_map, List.getElem?_map, paidOut_getElem?]
    cases t.seats[i]? <;> rfl
  · obtain ⟨s, hs, won, rfl⟩ := mem_paidOut hs'
    have hbal := h.balanced s hs
    have hbalance := hbal.balance
    have hstack := hbal.stack_nonneg
    rw [contribution_addChips_collect]
    refine ⟨Seat.contribution_nonneg hbal, ?_⟩
    show s.contribution ≤ s.start
    omega
  · rw [winnings_congr hstake rfl]
    rw [paidOut_getElem?] at hs'
    obtain ⟨s, hs, rfl⟩ := Option.map_eq_some_iff.mp hs'
    have hbalance := (h.balanced s (List.mem_of_getElem? hs)).balance
    rw [contribution_addChips_collect]
    show s.stack + t.winnings.getD i 0 - s.start = _
    omega
  · obtain ⟨level, hl, ht⟩ := h.level
    obtain ⟨s, hs, hlive, hmost⟩ := leads_contribution hl ht
    obtain ⟨i, hi⟩ := List.mem_iff_getElem?.mp hs
    have hi' := paidOut_getElem? t i
    rw [hi] at hi'
    refine ⟨_, List.mem_of_getElem? hi', hlive, fun s' hs' => ?_⟩
    obtain ⟨s₀, hs₀, won, rfl⟩ := mem_paidOut hs'
    rw [contribution_addChips_collect, contribution_addChips_collect]
    exact hmost s₀ hs₀
  · rw [liveCount_congr (live_congr hstake)] at hlive
    obtain ⟨hboard, hdealt⟩ := hshown hlive
    refine ⟨hboard, ?_⟩
    rw [← hdealt]
    exact allDealt_congr (map_of_stake hstake fun e => e.2.2)

end Table

end Holdem
