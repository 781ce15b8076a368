import Holdem.Proofs.Pot.Reached
import Holdem.Proofs.Table.Payoff

/-!
# How a hand is completed

A hand is complete exactly when a closing round was paid out: `Ending` is such a round, and
**`Run.ending`** says that every complete table of a run came from one. The pots are made of the
collected bets, on the table that `finish` is called for; its stakes are those of the table after
it, so what holds of the one is read off the other.

**`Run.levels_reached`**: at every time some seat in the hand has put in as much as any seat. So
the pots of a complete hand have no dead level, and each is paid out in full.
-/

namespace Holdem

/-- What a move is called when it is refused outside its phase. -/
def Move.operation : Move → Operation
  | hole .. => .dealHole
  | burn => .burn
  | board _ => .dealBoard
  | _ => .act

/-- The phase that a move belongs to. -/
def Move.due : Move → PhaseName
  | hole .. => .dealing
  | burn => .burning
  | board _ => .revealing
  | _ => .betting

namespace Table

variable {starts : List Int} {t t' : Table}

/-- A round whose close ends the hand. -/
structure Ending (starts : List Int) (t : Table) : Prop where
  closing : Closing starts t
  final : t.liveCount ≤ 1 ∨ t.street = river

/-- A round whose close completes the hand pays it out. -/
theorem ending_of_closeRound (h : Closing starts t) (hphase : t.closeRound.1.phase = .complete) :
    Ending starts t ∧ t.closeRound.1 = t.paidOut := by
  rw [closeRound_fst, collected_liveCount] at hphase ⊢
  split at hphase
  · rename_i hfinal
    exact ⟨⟨h, hfinal⟩, if_pos hfinal⟩
  · exact absurd hphase (by simp [paused])

theorem ending_of_openBetting (h : Opening starts t)
    (hphase : t.openBetting.1.phase = .complete) :
    ∃ x, Ending starts x ∧ t.openBetting.1 = x.paidOut := by
  rw [openBetting_fst] at hphase ⊢
  split at hphase
  · rename_i hnone
    rw [if_pos hnone]
    exact ⟨_, ending_of_closeRound (h.closing hnone) hphase⟩
  · exact absurd hphase (by simp [opened])

/-- A transition that completes the hand pays a round out. -/
theorem ending_of_transition {m : Move} (hstep : Transition t m t') (hinv : Inv starts t)
    (hphase : t'.phase = .complete) : ∃ x, Ending starts x ∧ t' = x.paidOut := by
  cases hstep with
  | hole hp => exact absurd (hp.symm.trans hphase) (by simp)
  | burn => exact absurd hphase (by simp)
  | board => exact absurd hphase (by simp)
  | lastHole hp hs _ hall => exact ending_of_openBetting (opening_dealt hinv hp hs hall) hphase
  | lastBoard hp hlast => exact ending_of_openBetting (opening_shown hinv hp hlast _) hphase
  | @act m a seat s d hp _ hactor hs hd =>
    have hallows := allows_of_decide hd
    rcases t.advance_cases (t.viewOf seat s) d with ⟨hout, heq⟩ | ⟨-, hnone, heq⟩ | ⟨-, -, heq⟩
    · rw [heq] at hphase ⊢
      exact ⟨_, ending_of_closeRound
        (closing_carryOut hinv hp hactor hs hallows (Or.inl hout)) hphase⟩
    · rw [heq] at hphase ⊢
      exact ⟨_, ending_of_closeRound
        (closing_carryOut hinv hp hactor hs hallows (Or.inr hnone)).decided hphase⟩
    · rw [heq] at hphase
      exact absurd (((carryOut_phase t _ d).trans hp).symm.trans hphase) (by simp)

/-- A move outside its phase is refused for that. -/
theorem play_of_not_due {m : Move} (h : t.phase.name ≠ m.due) :
    t.play m = .error (.wrongPhase m.operation.text t.phase.name.text) := by
  have hview (hphase : t.phase.name ≠ .betting) :
      t.view = .error (.wrongPhase Operation.act.text t.phase.name.text) := by
    refine if_neg fun hbetting => hphase ?_
    rw [hbetting]
    rfl
  cases m with
  | hole seat first second =>
    refine if_neg fun hdealing => h ?_
    rw [hdealing]
    rfl
  | burn =>
    refine if_neg fun hburning => h ?_
    rw [hburning]
    rfl
  | board c =>
    show t.dealBoard c = _
    unfold dealBoard
    cases hphase : t.phase with
    | revealing n => exact absurd (by rw [hphase]; rfl) h
    | _ => simp [wrongPhase, hphase, Move.operation]
  | fold => simp [play, fold, act, hview h, Move.operation]
  | checkOrCall => simp [play, checkOrCall, act, hview h, Move.operation]
  | raiseTo amount => simp [play, raiseTo, act, hview h, Move.operation]

/-- **A complete hand refuses every move.** -/
theorem play_of_complete (hphase : t.phase = .complete) (m : Move) :
    t.play m = .error (.wrongPhase m.operation.text PhaseName.complete.text) := by
  have hnot : t.phase.name ≠ m.due := by
    rw [hphase]
    cases m <;> simp [Move.due, Phase.name]
  rw [play_of_not_due hnot, hphase]
  rfl

/-! ## Some live seat is at the top -/

/-- Some seat in the hand put in as much as any seat. -/
theorem Inv.exists_top (h : Inv starts t) :
    ∃ s ∈ t.seats, s.inHand = true ∧ ∀ s' ∈ t.seats, s'.contribution ≤ s.contribution := by
  cases h with
  | underway h =>
    obtain ⟨level, hl, ht⟩ := h.inPlay.level
    exact leads_contribution hl ht
  | finished _ _ h => exact h.led

theorem Inv.led (h : Inv starts t) : Pot.Led t.contributions t.live := by
  obtain ⟨s, hs, hlive, hmost⟩ := h.exists_top
  obtain ⟨i, hi⟩ := List.mem_iff_getElem?.mp hs
  refine ⟨i, isLive_iff.mpr ⟨s, hi, hlive⟩, fun c hc => ?_⟩
  obtain ⟨s', hs', rfl⟩ := List.mem_map.mp hc
  rw [contribution_getD hi]
  exact hmost s' hs'

end Table

namespace Run

variable {config : TableConfig} {starts : List Int} {turns : List Turn} {t : Table}

/-- **Every complete hand was paid out at the end of a round.** -/
theorem ending (h : Run config starts turns t) (hphase : t.phase = .complete) :
    ∃ x, Table.Ending starts x ∧ t = x.paidOut := by
  cases h with
  | create h =>
    obtain ⟨-, rfl⟩ := Table.create_eq_ok h
    exact absurd hphase (by simp)
  | move h hm => exact Table.ending_of_transition (Table.transition_of_play hm) h.inv hphase

/-- The table for which a complete hand was paid out has the same stakes and the same pots. -/
theorem finish_of_complete (h : Run config starts turns t) (hphase : t.phase = .complete) :
    ∃ y : Table, t = y.finish.1 ∧ y.board = t.board ∧
      y.seats.map Seat.stake = t.seats.map Seat.stake := by
  obtain ⟨x, -, rfl⟩ := h.ending hphase
  exact ⟨x.collected, rfl, rfl, (Table.collected_stake x).trans (Table.paidOut_stake x).symm⟩

/-- **No dead levels.** At every time some seat in the hand has put in as much as any seat, folded
ones included. When the hand completes, then, of the table that is paid out
* every level is reached by a live seat;
* nothing is carried past any level;
* the pots are one per level, each of the slice that ends there;
* each pot is contested, and all of it is paid to seats. -/
theorem levels_reached (h : Run config starts turns t) :
    (∃ s ∈ t.seats, s.inHand = true ∧ ∀ s' ∈ t.seats, s'.contribution ≤ s.contribution) ∧
    (t.isComplete = true → ∃ y : Table, t = y.finish.1 ∧
      y.contributions = t.contributions ∧ y.live = t.live ∧
      (∀ level ∈ Pot.levels y.contributions, Pot.reaching y.contributions y.live level ≠ []) ∧
      (∀ before after, Pot.levels y.contributions = before ++ after →
        (before.foldl (Pot.Layering.add y.contributions y.live) ⟨0, 0, []⟩).carry = 0) ∧
      y.pots = Pot.layers y.contributions y.live 0 (Pot.levels y.contributions) ∧
      (∀ p ∈ y.pots, p.eligible ≠ [] ∧
        Chips.total ((List.range y.seats.length).map (Pot.payout y.strength p)) = p.amount) ∧
      Chips.total y.winnings = Chips.total y.contributions) := by
  refine ⟨h.inv.exists_top, fun hcomplete => ?_⟩
  have hphase : t.phase = .complete := by simpa [Table.isComplete] using hcomplete
  have hfin := h.inv.finished_of_phase hphase
  obtain ⟨y, heq, -, hstake⟩ := h.finish_of_complete hphase
  have hcs := Table.contributions_congr hstake
  have hlive := Table.live_congr hstake
  have hlen : y.seats.length = t.seats.length := by simpa using congrArg List.length hstake
  have hled : Pot.Led y.contributions y.live := by
    rw [hcs, hlive]
    exact h.inv.led
  have hcontested : Pot.Contested y.pots y.seats.length := by
    rw [Table.pots_congr hstake, hlen]
    exact hfin.contested
  have hnonneg : ∀ c ∈ y.contributions, 0 ≤ c := by
    rw [hcs]
    exact hfin.contributions_nonneg
  refine ⟨y, heq, hcs, hlive, fun _ => hled.reaching_ne_nil, fun _ _ => hled.carry_eq_zero,
    Pot.sidePots_of_led hled, fun p hp => ?_, ?_⟩
  · obtain ⟨hpos, hne, hlt⟩ := hcontested p hp
    exact ⟨hne, Pot.total_payout hpos hne hlt⟩
  · exact (Pot.total_award hcontested _).trans (Pot.total_sidePots hnonneg _)

/-- With two levels of seats all in, and a third level where a seat called and then folded, each level
has a pot of its own. -/
theorem levels_reached_side_pots : ∃ turns t, Run .standard [60, 300, 300, 500] turns t ∧
    t.isComplete = true ∧ Pot.levels t.contributions = [60, 100, 300] ∧
      t.pots = Pot.layers t.contributions t.live 0 [60, 100, 300] := by
  obtain ⟨turns, t, d, hrun, ⟨hcomplete, hlevels⟩, -⟩ :=
    exists_run .standard [60, 300, 300, 500] sidePotMoves
      (fun t => t.isComplete = true ∧ Pot.levels t.contributions = [60, 100, 300])
      ⟨by decide, by decide, by decide⟩ (by decide +kernel) (by decide)
  obtain ⟨-, hpots⟩ := hrun.levels_reached
  obtain ⟨y, -, hcs, hlive, -, -, hlayers, -⟩ := hpots hcomplete
  refine ⟨turns, _, hrun, hcomplete, hlevels, ?_⟩
  unfold Table.pots at hlayers ⊢
  rw [hcs, hlive] at hlayers
  rw [hlayers]
  exact congrArg _ hlevels

end Run

end Holdem
