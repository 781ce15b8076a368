import Holdem.Proofs.PlayerMap
import Holdem.Proofs.Settlement.Conversation
import Holdem.Settlement.Scripted

/-!
# The calls of a settlement

A settlement that is refused before its replay, or that applies the shortcut, makes no call. A
replay makes its calls in one fixed order, whatever engine answers them, and stops after the first
that is refused.

Results: **`settle_calls`**, and `settle_calls_no_such_seat`, where the engine names an actor for
whom it has no stack.
-/

namespace Holdem

open Settlement

/-- **What a settlement asks of its engine.** For every engine, from every state of it, and for
every input, the exchanges are those that a recorded engine writes down, which answers the same
otherwise; and
* there is none if the text is not that of a hand, if the input is inconsistent, or if the shortcut
  applies;
* else they keep to the plan of the hand: a table of the standard config and the stacks in seat
  order, a deal for each entry of the hole cards at the seat of its player, then street by street a
  burn and the cards of the board, or for each action the actor and the action, which all in is a
  raise to the stack that the engine has for the actor, and in the end the payoffs;
* they stop where a call is refused, or where there is no such stack, and the settlement is refused
  for that, as the stage of the call; or they are all made, and each player gets his payoff, in the
  order of the seats, as far as there are payoffs. -/
theorem settle_calls {σ ν : Type} (E : Engine σ ν) (state : σ) (chips : Stacks) (holes : HoleCards)
    (text : String) :
    settleOn E.recorded ⟨state, []⟩ chips holes text =
      ⟨(settleOn E state chips holes text).result,
        ⟨(settleOn E state chips holes text).state, exchanges E state chips holes text⟩,
        (settleOn E state chips holes text).log⟩ ∧
    (∀ cause, ActionSequence.ofText text = .error cause →
      exchanges E state chips holes text = []) ∧
    (∀ cause, checkInput chips holes = .error cause → exchanges E state chips holes text = []) ∧
    (∀ sequence winnings, ActionSequence.ofText text = .ok sequence →
      shortcut? chips sequence = some winnings → exchanges E state chips holes text = []) ∧
    ∀ sequence, ActionSequence.ofText text = .ok sequence → checkInput chips holes = .ok () →
      shortcut? chips sequence = none →
      ∃ deals : List Deal,
        (holes.entries.map fun e => (chips.position? e.1, e.2)) =
          (deals.map fun d => (some d.seat, [d.first, d.second])) ∧
        ((∃ e, Keeps [] ((plan chips holes deals sequence).flatMap Step.cues)
            (exchanges E state chips holes text) (some e) ∧
          (settleOn E state chips holes text).result = .error e) ∨
        ∃ payoffs winnings, Keeps [] ((plan chips holes deals sequence).flatMap Step.cues)
            (exchanges E state chips holes text) none ∧
          (exchanges E state chips holes text).getLast? = some ⟨.payoffs, .ok payoffs⟩ ∧
          (settleOn E state chips holes text).result = .ok winnings ∧
          winnings.entries = chips.keys.zip payoffs) := by
  obtain ⟨before, -, haccount⟩ := settleOn_account E state chips holes text
  have hinconsistent : ∀ cause, checkInput chips holes = .error cause →
      exchanges E state chips holes text = [] := by
    intro cause hinput
    cases htext : ActionSequence.ofText text with
    | error _ => exact (haccount.of_malformed htext).2.1
    | ok sequence => exact (haccount.of_inconsistent htext hinput).2.1
  refine ⟨?_, fun cause htext => (haccount.of_malformed htext).2.1, hinconsistent,
    fun sequence winnings htext hshort => ?_, fun sequence htext hinput hnone => ?_⟩
  · rw [settleOn_recorded E ⟨state, []⟩]
    rfl
  · cases hinput : checkInput chips holes with
    | error cause => exact hinconsistent cause hinput
    | ok _ => exact (haccount.of_shortcut htext hinput hshort).2.1
  · obtain ⟨deals, _, hdeals, hcourse, hvalue, -⟩ := haccount.of_replay htext hinput hnone
    refine ⟨deals, hdeals, ?_⟩
    cases hr : (settleOn E state chips holes text).result with
    | error e =>
      rw [hr] at hcourse
      exact Or.inl ⟨e, hcourse.keeps, rfl⟩
    | ok winnings =>
      rw [hr] at hcourse
      obtain ⟨payoffs, hlast, rfl⟩ := hvalue winnings hr
      exact Or.inr ⟨payoffs, _, hcourse.keeps, List.singleton_suffix_iff_getLast?_eq_some.mp hlast,
        rfl, PlayerMap.entries_ofList_zip _ _⟩

/-- A script with a stack for seat 0 alone. -/
def shortScript : Script := { behind := some [100] }

/-- Seat 1 is all in, and there is no stack to raise to. -/
theorem settle_calls_no_such_seat :
    (exchanges shortScript.engine {} crosswiseChips crosswiseHoles "c allin").map Exchange.call =
        [.create .standard [100, 250], .dealHole 1 ⟨.king, .spades⟩ ⟨.king, .hearts⟩,
          .dealHole 0 ⟨.ace, .spades⟩ ⟨.ace, .hearts⟩, .actor, .checkOrCall, .actor, .behind] ∧
      ∃ deals : List Deal, deals.map Deal.seat = [1, 0] ∧
        Keeps [] ((plan crosswiseChips crosswiseHoles deals
            ⟨[.betting [.checkOrCall, .allIn]]⟩).flatMap Step.cues)
          (exchanges shortScript.engine {} crosswiseChips crosswiseHoles "c allin")
          (some (.engine .actionProcessing (.noSuchSeat 1))) := by
  have hrefused : (settleOn shortScript.engine {} crosswiseChips crosswiseHoles "c allin").result =
      .error (.engine .actionProcessing (.noSuchSeat 1)) := by decide +kernel
  obtain ⟨-, -, -, -, hreplay⟩ :=
    settle_calls shortScript.engine {} crosswiseChips crosswiseHoles "c allin"
  obtain ⟨deals, hdeals, hend⟩ :=
    hreplay ⟨[.betting [.checkOrCall, .allIn]]⟩ (by decide +kernel) (by decide +kernel) rfl
  have hsome : (deals.map Deal.seat).map some = [1, 0].map some := map_seat_of_deals hdeals
  refine ⟨by decide +kernel, deals,
    List.map_injective_iff.mpr (Option.some_injective Nat) hsome, ?_⟩
  rcases hend with ⟨e, hkeeps, he⟩ | ⟨_, _, -, -, hok, -⟩
  · cases hrefused.symm.trans he
    exact hkeeps
  · cases hrefused.symm.trans hok

end Holdem
