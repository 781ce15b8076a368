import Holdem.Proofs.Settlement.Conversation
import Holdem.Settlement.Scripted

/-!
# The events of a settlement

The last event reports the answer, and no other one does. Before it come the events of the course
that a replay takes: each deal, action and board street that is done tells of itself, and nothing
tells of the one that is refused.

* `Event.step?` reads the action or the board street off an event.
* A `Narration` has the events of deals first, and only after all of them those of actions and board
  streets; where the payoffs are asked for, it is of the whole hand. **`Course.narration`**: the
  events of a replay are one.

Results: **`settle_events`**, and `settle_events_refused_board`, where the board is refused midway.
-/

namespace Holdem

namespace Event

/-- An event that reports an answer. -/
def final : Event → Bool
  | settled _ => true
  | failed .. => true
  | _ => false

/-- An event between the first, on the text, and the report. -/
def between : Event → Bool
  | sequenceValidated _ => false
  | e => !e.final

/-- The action or the board street that an event tells of. -/
def step? : Event → Option Settlement.Step
  | actionApplied _ a => some (.action a)
  | boardDealt kind cards => some (.board kind cards)
  | _ => none

theorem final_of_between {e : Event} (h : e.between = true) : e.final = false := by
  cases e <;> first | rfl | cases h

end Event

namespace Settlement

variable {chips : Stacks} {holes : HoleCards} {deals : List Deal} {sequence : ActionSequence}
  {before tr : List Exchange} {evs : List Event} {step : Step} {steps : List Step}
  {stop : Option SettleError}

/-- The payoffs are asked for in the last step alone. -/
theorem Step.eq_reading_of_calls {cue : Cue} (hcue : cue ∈ step.cues)
    (h : cue.Calls before .payoffs) : step = .reading := by
  cases h
  cases step with
  | reading => rfl
  | action a => cases a <;> simp [Step.cues, Step.actionCues] at hcue
  | _ => simp [Step.cues] at hcue

theorem Course.not_read (h : Course steps tr evs stop) (hsteps : .reading ∉ steps) :
    Call.payoffs ∉ tr.map Exchange.call := by
  intro hmem
  obtain ⟨x, hx, hcall⟩ := List.mem_map.mp hmem
  obtain ⟨earlier, cue, hcue, hcalls⟩ := h.keeps.exists_cue x hx
  rw [hcall] at hcalls
  obtain ⟨step, hstep, hcue⟩ := List.mem_flatMap.mp hcue
  exact hsteps (Step.eq_reading_of_calls hcue hcalls ▸ hstep)

theorem reading_not_mem_deals {players : List String} : .reading ∉ dealSteps players deals := by
  intro h
  obtain ⟨_, -, heq⟩ := List.mem_map.mp h
  cases heq

theorem reading_not_mem_plays {streets : List Street} :
    .reading ∉ streets.flatMap streetSteps := by
  intro h
  obtain ⟨street, -, hstep⟩ := List.mem_flatMap.mp h
  cases street <;> simp [streetSteps] at hstep

/-- A step that tells of nothing. -/
theorem Course.quiet (h : Course [step] tr evs stop) (hstep : ∀ seg, step.events seg = []) :
    evs = [] := by
  cases h with
  | done _ h =>
    cases h
    rw [hstep]
    rfl
  | stopped => rfl

theorem between_events (step : Step) (seg : List Exchange) :
    ∀ e ∈ step.events seg, e.between = true := by
  unfold Step.events
  split <;> simp [Event.between, Event.final]

theorem Course.between (h : Course steps tr evs stop) : ∀ e ∈ evs, e.between = true := by
  induction h with
  | nil => exact fun e he => absurd he List.not_mem_nil
  | done _ _ ih =>
    intro e he
    exact (List.mem_append.mp he).elim (between_events _ _ e) (ih e)
  | stopped => exact fun e he => absurd he List.not_mem_nil

/-! ## The events of a hand -/

/-- The events of some deals. -/
def dealtEvents (players : List String) (deals : List Deal) : List Event :=
  (players.zip deals).map fun e => .holeCardsDealt e.1 e.2.seat

/-- **Deals that are done** tell of themselves. -/
theorem Course.spells_deals {players : List String}
    (h : Course (dealSteps players deals) tr evs stop) :
    evs <+: dealtEvents players deals ∧ (stop = none → evs = dealtEvents players deals) := by
  have hspells := h.spells (f := fun step => step.events []) (g := id) ?_
  · rw [List.map_id] at hspells
    have hevents : (dealSteps players deals).flatMap (fun step => step.events []) =
        dealtEvents players deals := by
      unfold dealSteps dealtEvents
      rw [List.flatMap_map, List.map_eq_flatMap]
      rfl
    rwa [hevents] at hspells
  · intro step hstep seg _
    obtain ⟨_, -, rfl⟩ := List.mem_map.mp hstep
    rfl

/-- **Actions and board streets that are done** tell of themselves. -/
theorem Course.spells_plays {streets : List Street}
    (h : Course (streets.flatMap streetSteps) tr evs stop) :
    evs.map Event.step? <+: (streets.flatMap streetSteps).map some ∧
      (stop = none → evs.map Event.step? = (streets.flatMap streetSteps).map some) := by
  rw [List.map_eq_flatMap (f := some)]
  refine h.spells fun step hstep seg hseg => ?_
  obtain ⟨street, -, hstep⟩ := List.mem_flatMap.mp hstep
  cases street with
  | board kind cards =>
    obtain rfl := List.mem_singleton.mp hstep
    rfl
  | betting actions =>
    obtain ⟨a, -, rfl⟩ := List.mem_map.mp hstep
    -- The first exchange of an action names the actor.
    cases hseg with
    | answered hc _ =>
      cases hc
      rfl

/-- The plays of a replay, and all of them where the payoffs are asked for. -/
theorem Course.plays_told {streets : List Street}
    (h : Course (streets.flatMap streetSteps ++ [.reading]) tr evs stop) :
    evs.map Event.step? <+: (streets.flatMap streetSteps).map some ∧
      (.payoffs ∈ tr.map Exchange.call →
        evs.map Event.step? = (streets.flatMap streetSteps).map some) := by
  rcases h.split with ⟨tr₁, tr₂, evs₁, evs₂, rfl, rfl, hplayed, hreading⟩ | ⟨hplayed, -⟩
  · obtain rfl := hreading.quiet fun _ => rfl
    rw [List.append_nil, hplayed.spells_plays.2 rfl]
    exact ⟨List.prefix_rfl, fun _ => rfl⟩
  · exact ⟨hplayed.spells_plays.1,
      fun hread => absurd hread (hplayed.not_read reading_not_mem_plays)⟩

/-- What is told of a replay, by the events of deals and by those after them. -/
structure Narration (holes : HoleCards) (deals : List Deal) (sequence : ActionSequence)
    (tr : List Exchange) (dealt played : List Event) : Prop where
  /-- Deals come in the order of the entries. -/
  inOrder : dealt <+: dealtEvents holes.keys deals
  /-- Nothing is played before all are dealt. -/
  first : played ≠ [] → dealt = dealtEvents holes.keys deals
  /-- Actions and board streets come as the text has them. -/
  asWritten : played.map Event.step? <+: (sequence.streets.flatMap streetSteps).map some
  /-- Where the payoffs are asked for, all of the hand is told. -/
  whole : .payoffs ∈ tr.map Exchange.call → dealt = dealtEvents holes.keys deals ∧
    played.map Event.step? = (sequence.streets.flatMap streetSteps).map some

/-- The hand after the seating. -/
theorem Course.narration_of_hand
    (h : Course (dealSteps holes.keys deals ++ (sequence.streets.flatMap streetSteps ++ [.reading]))
      tr evs stop) :
    ∃ dealt played, evs = dealt ++ played ∧ Narration holes deals sequence tr dealt played := by
  rcases h.split with ⟨tr₁, tr₂, dealt, played, rfl, rfl, hdealt, hplayed⟩ | ⟨hdealt, -⟩
  · have hall := hdealt.spells_deals.2 rfl
    obtain ⟨hplays, hwhole⟩ := hplayed.plays_told
    refine ⟨dealt, played, rfl, hdealt.spells_deals.1, fun _ => hall, hplays, fun hread => ?_⟩
    rw [List.map_append, List.mem_append] at hread
    exact ⟨hall, hwhole (hread.resolve_left (hdealt.not_read reading_not_mem_deals))⟩
  · refine ⟨evs, [], (List.append_nil _).symm, hdealt.spells_deals.1, fun h => absurd rfl h, ?_,
      fun hread => absurd hread (hdealt.not_read reading_not_mem_deals)⟩
    exact List.nil_prefix

/-- **The events of a replay** tell of it, deal by deal and then play by play. -/
theorem Course.narration (h : Course (plan chips holes deals sequence) tr evs stop) :
    ∃ dealt played, evs = dealt ++ played ∧ Narration holes deals sequence tr dealt played := by
  rcases h.split with ⟨tr₁, tr₂, evs₁, evs₂, rfl, rfl, hseating, hhand⟩ | ⟨hseating, -⟩
  · have hunread := hseating.not_read (by simp)
    obtain rfl := hseating.quiet fun _ => rfl
    obtain ⟨dealt, played, rfl, htold⟩ := hhand.narration_of_hand
    refine ⟨dealt, played, rfl, htold.inOrder, htold.first, htold.asWritten, fun hread => ?_⟩
    rw [List.map_append, List.mem_append] at hread
    exact htold.whole (hread.resolve_left hunread)
  · have hunread := hseating.not_read (by simp)
    obtain rfl := hseating.quiet fun _ => rfl
    refine ⟨[], [], rfl, ?_, fun h => absurd rfl h, ?_, fun hread => absurd hread hunread⟩
    · exact List.nil_prefix
    · exact List.nil_prefix

/-! ## The whole -/

section Account

variable {text : String} {r : Except SettleError Winnings}

/-- **The text is reported valid** before all else, and once. -/
theorem Account.opening (h : Account chips holes text r tr evs)
    (htext : ActionSequence.ofText text = .ok sequence) :
    ∃ rest, evs = .sequenceValidated sequence.streets.length :: rest ∧
      ∀ e ∈ rest, e.between = true := by
  cases h with
  | malformed h => cases htext.symm.trans h
  | inconsistent h =>
    cases htext.symm.trans h
    exact ⟨[], rfl, by simp⟩
  | foldedOut h =>
    cases htext.symm.trans h
    exact ⟨[.shortcutApplied], rfl, by simp [Event.between, Event.final]⟩
  | replayed h _ _ _ hcourse =>
    cases htext.symm.trans h
    exact ⟨_, rfl, List.forall_mem_cons.mpr ⟨rfl, hcourse.between⟩⟩

/-- Before the last event nothing is reported. -/
theorem Account.unreported (h : Account chips holes text r tr evs) :
    ∀ e ∈ evs, e.final = false := by
  cases htext : ActionSequence.ofText text with
  | error cause =>
    obtain ⟨-, -, rfl⟩ := h.of_malformed htext
    simp
  | ok sequence =>
    obtain ⟨rest, rfl, hrest⟩ := h.opening htext
    exact List.forall_mem_cons.mpr ⟨rfl, fun e he => Event.final_of_between (hrest e he)⟩

end Account

end Settlement

open Settlement

theorem sequenceValidated_ne_reported (n : Nat) (r : Except SettleError Winnings) :
    .sequenceValidated n ≠ reported r := by
  cases r <;> exact Event.noConfusion

/-- **What a settlement tells.** For every engine, from every state of it, and for every input
* the last event reports the answer, with the winnings in their order, or with the stage and the
  text of the refusal, and no other event reports one;
* the text is reported valid exactly if it is that of a hand, once and before all else; if it is
  not, the report of that is the only event;
* if the input is inconsistent, nothing stands between that and the report, and if the shortcut
  applies, that it does so;
* else the replay is started, and the deals, the actions and the board streets tell of themselves as
  they are done, each action with the actor that the engine named for it, up to the step where a
  call is refused, which is what the settlement is refused for; all of the hand is told where the
  payoffs are asked for. -/
theorem settle_events {σ ν : Type} (E : Engine σ ν) (state : σ) (chips : Stacks) (holes : HoleCards)
    (text : String) :
    (∃ before, (settleOn E state chips holes text).events =
        before ++ [reported (settleOn E state chips holes text).result] ∧
      ∀ e ∈ before, e.final = false) ∧
    (∀ cause, ActionSequence.ofText text = .error cause →
      (settleOn E state chips holes text).events = [reported (.error (.sequence cause))]) ∧
    ∀ sequence, ActionSequence.ofText text = .ok sequence →
      (∃ rest, (settleOn E state chips holes text).events =
          .sequenceValidated sequence.streets.length :: rest ∧
        ∀ n, .sequenceValidated n ∉ rest) ∧
      (∀ cause, checkInput chips holes = .error cause →
        (settleOn E state chips holes text).events =
          [.sequenceValidated sequence.streets.length, reported (.error (.input cause))]) ∧
      (checkInput chips holes = .ok () →
        (∀ winnings, shortcut? chips sequence = some winnings →
          (settleOn E state chips holes text).events =
            [.sequenceValidated sequence.streets.length, .shortcutApplied,
              .settled winnings.entries]) ∧
        (shortcut? chips sequence = none →
          ∃ deals dealt played,
            (holes.entries.map fun e => (chips.position? e.1, e.2)) =
              (deals.map fun d => (some d.seat, [d.first, d.second])) ∧
            (settleOn E state chips holes text).events =
              .sequenceValidated sequence.streets.length :: .replayStarted chips.size ::
                (dealt ++ played ++ [reported (settleOn E state chips holes text).result]) ∧
            Course (plan chips holes deals sequence) (exchanges E state chips holes text)
              (dealt ++ played) (refusal (settleOn E state chips holes text).result) ∧
            Narration holes deals sequence (exchanges E state chips holes text) dealt played)) := by
  obtain ⟨before, hevents, haccount⟩ := settleOn_account E state chips holes text
  rw [hevents]
  refine ⟨⟨before, rfl, haccount.unreported⟩, fun cause htext => ?_, fun sequence htext =>
    ⟨?_, fun cause hinput => ?_, fun hinput => ⟨fun winnings hshort => ?_, fun hnone => ?_⟩⟩⟩
  · obtain ⟨hr, -, rfl⟩ := haccount.of_malformed htext
    rw [hr]
    rfl
  · obtain ⟨rest, rfl, hrest⟩ := haccount.opening htext
    refine ⟨_, rfl, fun n hn => ?_⟩
    rcases List.mem_append.mp hn with hn | hn
    · cases hrest _ hn
    · exact sequenceValidated_ne_reported _ _ (List.mem_singleton.mp hn)
  · obtain ⟨hr, -, rfl⟩ := haccount.of_inconsistent htext hinput
    rw [hr]
    rfl
  · obtain ⟨hr, -, rfl⟩ := haccount.of_shortcut htext hinput hshort
    rw [hr]
    rfl
  · obtain ⟨deals, rest, hdeals, hcourse, -, rfl⟩ := haccount.of_replay htext hinput hnone
    obtain ⟨dealt, played, rfl, htold⟩ := hcourse.narration
    exact ⟨deals, dealt, played, hdeals, rfl, hcourse, htold⟩

/-- A script that refuses the second card of the first board. -/
def refusingScript : Script := { failAt := some 9 }

/-- A hand with one board street. -/
def flopText : String := "c x / Flop: [2s,3d,5h] / x x"

def flopSequence : ActionSequence :=
  ⟨[.betting [.checkOrCall, .checkOrCall],
    .board .flop [⟨.two, .spades⟩, ⟨.three, .diamonds⟩, ⟨.five, .hearts⟩],
    .betting [.checkOrCall, .checkOrCall]]⟩

/-- Nothing is told of a board that is refused midway. -/
theorem settle_events_refused_board :
    ((exchanges refusingScript.engine {} crosswiseChips crosswiseHoles flopText).map
        Exchange.call).drop 7 =
      [.burn, .dealBoard ⟨.two, .spades⟩, .dealBoard ⟨.three, .diamonds⟩] ∧
      ∃ deals dealt played,
        dealt ++ played = [.holeCardsDealt "B" 1, .holeCardsDealt "A" 0,
          .actionApplied 0 .checkOrCall, .actionApplied 1 .checkOrCall] ∧
        Course (plan crosswiseChips crosswiseHoles deals flopSequence)
          (exchanges refusingScript.engine {} crosswiseChips crosswiseHoles flopText)
          (dealt ++ played) (some (.engine .actionProcessing .deckExhausted)) := by
  have hrefused :
      (settleOn refusingScript.engine {} crosswiseChips crosswiseHoles flopText).result =
        .error (.engine .actionProcessing .deckExhausted) := by decide +kernel
  have hevents : (settleOn refusingScript.engine {} crosswiseChips crosswiseHoles flopText).events =
      .sequenceValidated 3 :: .replayStarted 2 ::
        ([.holeCardsDealt "B" 1, .holeCardsDealt "A" 0, .actionApplied 0 .checkOrCall,
          .actionApplied 1 .checkOrCall] ++
        [reported (.error (.engine .actionProcessing .deckExhausted))]) := by decide +kernel
  obtain ⟨-, -, hvalid⟩ :=
    settle_events refusingScript.engine {} crosswiseChips crosswiseHoles flopText
  obtain ⟨-, -, hsound⟩ := hvalid flopSequence (by decide +kernel)
  obtain ⟨-, hreplay⟩ := hsound (by decide +kernel)
  obtain ⟨deals, dealt, played, -, htold, hcourse, -⟩ := hreplay rfl
  rw [hrefused] at htold hcourse
  rw [hevents] at htold
  obtain ⟨-, htold⟩ := List.cons.inj htold
  obtain ⟨-, htold⟩ := List.cons.inj htold
  exact ⟨by decide +kernel, deals, dealt, played, (List.append_cancel_right htold).symm, hcourse⟩

end Holdem
