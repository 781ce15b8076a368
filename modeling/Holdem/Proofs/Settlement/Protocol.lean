import Holdem.Proofs.Settlement.Dealing
import Holdem.Proofs.Settlement.Recording

/-!
# The protocol of a replay

Which calls a replay makes, in which order, and what it tells of them, with no settlement in sight.

* A `Cue` is a call that is due. All in, it is made from the answers to the two calls before it
  (`Cue.Calls`). `Keeps` says that exchanges keep to some cues one after the other, and stop where a
  call is refused, or where there is no stack to raise to.
* A hand is replayed in `Step`s, each with its cues and with the event that tells of it. `Course`
  says that steps are taken one after the other, an event for each that is done, and none for the
  one that stops.
* `plan` are the steps of a hand.

The cues of all steps in a row are kept to by a course (`Course.keeps`), and a course of two lists
of steps splits into the two (`Course.split`). **`Course.spells`**: if every step that is done tells of
itself, the events of a course spell a prefix of its steps, and all of them if it is not stopped.
-/

namespace Holdem.Settlement

/-- A call that is due. -/
inductive Cue
  | make (c : Call)
  /-- A raise to the stack of the actor. -/
  | raiseAll

/-- The call that a cue comes to after some exchanges, the latest first. -/
inductive Cue.Calls : List Exchange → Cue → Call → Prop
  | make {before : List Exchange} {c : Call} : Calls before (.make c) c
  | raiseAll {before : List Exchange} {amounts : List Int} {seat : Nat} {stack : Int}
      (h : amounts[seat]? = some stack) :
      Calls (⟨.behind, .ok amounts⟩ :: ⟨.actor, .ok seat⟩ :: before) .raiseAll (.raiseTo stack)

/-- Exchanges that keep to some cues, after earlier ones, the latest first; and for what they stop
before the cues are done, if they do. -/
inductive Keeps : List Exchange → List Cue → List Exchange → Option SettleError → Prop
  | done {before : List Exchange} : Keeps before [] [] none
  | answered {before tr : List Exchange} {cue : Cue} {cues : List Cue} {c : Call} {a : c.Answer}
      {stop : Option SettleError} (hc : cue.Calls before c)
      (h : Keeps (⟨c, .ok a⟩ :: before) cues tr stop) :
      Keeps before (cue :: cues) (⟨c, .ok a⟩ :: tr) stop
  | refused {before : List Exchange} {cue : Cue} {cues : List Cue} {c : Call} {cause : TableError}
      (hc : cue.Calls before c) :
      Keeps before (cue :: cues) [⟨c, .error cause⟩] (some (.engine c.stage cause))
  | noStack {before : List Exchange} {cues : List Cue} {amounts : List Int} {seat : Nat}
      (h : amounts[seat]? = none) :
      Keeps (⟨.behind, .ok amounts⟩ :: ⟨.actor, .ok seat⟩ :: before) (.raiseAll :: cues) []
        (some (.engine .actionProcessing (.noSuchSeat seat)))

/-- A step of a replay. -/
inductive Step
  | seating (starts : List Int)
  | deal (player : String) (d : Deal)
  | action (a : Action)
  | board (kind : BoardKind) (cards : List Card)
  | reading

namespace Step

/-- The calls that an action takes, once it is known who acts. -/
def actionCues : Action → List Cue
  | .fold => [.make .fold]
  | .checkOrCall => [.make .checkOrCall]
  | .raiseTo amount => [.make (.raiseTo amount)]
  | .allIn => [.make .behind, .raiseAll]

/-- The calls that a step takes. -/
def cues : Step → List Cue
  | seating starts => [.make (.create .standard starts)]
  | deal _ d => [.make (.dealHole d.seat d.first d.second)]
  | action a => .make .actor :: actionCues a
  | board _ cards => .make .burn :: cards.map fun c => .make (.dealBoard c)
  | reading => [.make .payoffs]

/-- What tells of a step that is done, with the actor that the engine named for it. -/
def events : Step → List Exchange → List Event
  | deal player d, _ => [.holeCardsDealt player d.seat]
  | action a, ⟨.actor, .ok seat⟩ :: _ => [.actionApplied seat a]
  | board kind cards, _ => [.boardDealt kind cards]
  | _, _ => []

end Step

/-- Steps that are taken in order, with the exchanges and the events that they lead to; and for what
the last of them stops, if it does. -/
inductive Course : List Step → List Exchange → List Event → Option SettleError → Prop
  | nil : Course [] [] [] none
  | done {step : Step} {steps : List Step} {seg tr : List Exchange} {evs : List Event}
      {stop : Option SettleError} (hseg : Keeps [] step.cues seg none)
      (h : Course steps tr evs stop) :
      Course (step :: steps) (seg ++ tr) (step.events seg ++ evs) stop
  | stopped {step : Step} {steps : List Step} {seg : List Exchange} {e : SettleError}
      (hseg : Keeps [] step.cues seg (some e)) : Course (step :: steps) seg [] (some e)

/-- The steps of a street. -/
def streetSteps : Street → List Step
  | .board kind cards => [.board kind cards]
  | .betting actions => actions.map .action

/-- The deals to some players. -/
def dealSteps (players : List String) (deals : List Deal) : List Step :=
  (players.zip deals).map fun e => .deal e.1 e.2

/-- The steps of a replay. -/
def plan (chips : Stacks) (holes : HoleCards) (deals : List Deal) (sequence : ActionSequence) :
    List Step :=
  [.seating chips.values] ++ (dealSteps holes.keys deals ++
    (sequence.streets.flatMap streetSteps ++ [.reading]))

/-! ## Cues in a row -/

section Keeps

variable {before tr tr' : List Exchange} {cues cues' : List Cue} {stop : Option SettleError}

theorem Cue.Calls.append {cue : Cue} {c : Call} (h : cue.Calls before c)
    (earlier : List Exchange) : cue.Calls (before ++ earlier) c := by
  cases h with
  | make => exact .make
  | raiseAll h => exact .raiseAll h

/-- What was exchanged still earlier makes no difference. -/
theorem Keeps.older (h : Keeps before cues tr stop) (earlier : List Exchange) :
    Keeps (before ++ earlier) cues tr stop := by
  induction h with
  | done => exact .done
  | answered hc _ ih => exact .answered (hc.append earlier) ih
  | refused hc => exact .refused (hc.append earlier)
  | noStack h => exact .noStack h

theorem Keeps.append (h : Keeps before cues tr none)
    (h' : Keeps (tr.reverse ++ before) cues' tr' stop) :
    Keeps before (cues ++ cues') (tr ++ tr') stop := by
  generalize hstop : none = stopped at h
  induction h with
  | done => exact h'
  | answered hc _ ih =>
    refine .answered hc (ih ?_ hstop)
    simpa using h'
  | refused => cases hstop
  | noStack => cases hstop

/-- Cues that stop are followed by no others. -/
theorem Keeps.append_of_stop {e : SettleError} (h : Keeps before cues tr (some e))
    (cues' : List Cue) : Keeps before (cues ++ cues') tr (some e) := by
  generalize hstop : some e = stopped at h
  induction h with
  | done => cases hstop
  | answered hc _ ih => exact .answered hc (ih hstop)
  | refused hc => exact .refused hc
  | noStack h => exact .noStack h

/-- Every call comes from a cue. -/
theorem Keeps.exists_cue (h : Keeps before cues tr stop) :
    ∀ x ∈ tr, ∃ earlier, ∃ cue ∈ cues, cue.Calls earlier x.call := by
  induction h with
  | done => exact fun x hx => absurd hx List.not_mem_nil
  | answered hc _ ih =>
    intro x hx
    rcases List.mem_cons.mp hx with rfl | hx
    · exact ⟨_, _, List.mem_cons_self, hc⟩
    · obtain ⟨earlier, cue, hcue, hcalls⟩ := ih x hx
      exact ⟨earlier, cue, List.mem_cons_of_mem _ hcue, hcalls⟩
  | refused hc =>
    intro x hx
    obtain rfl := List.mem_singleton.mp hx
    exact ⟨_, _, List.mem_cons_self, hc⟩
  | noStack => exact fun x hx => absurd hx List.not_mem_nil

end Keeps

/-! ## Courses -/

section Course

variable {steps steps' : List Step} {tr tr' : List Exchange} {evs evs' : List Event}
  {stop : Option SettleError}

theorem course_single {step : Step} {seg : List Exchange} (h : Keeps [] step.cues seg none) :
    Course [step] seg (step.events seg) none := by
  simpa using Course.done h .nil

theorem Course.append (h : Course steps tr evs none) (h' : Course steps' tr' evs' stop) :
    Course (steps ++ steps') (tr ++ tr') (evs ++ evs') stop := by
  generalize hstop : none = stopped at h
  induction h with
  | nil => exact h'
  | done hseg _ ih =>
    rw [List.append_assoc, List.append_assoc]
    exact .done hseg (ih hstop)
  | stopped => cases hstop

theorem Course.append_of_stop {e : SettleError} (h : Course steps tr evs (some e))
    (steps' : List Step) : Course (steps ++ steps') tr evs (some e) := by
  generalize hstop : some e = stopped at h
  induction h with
  | nil => cases hstop
  | done hseg _ ih => exact .done hseg (ih hstop)
  | stopped hseg => exact .stopped hseg

/-- **A course keeps to the cues of its steps**, one after the other. -/
theorem Course.keeps (h : Course steps tr evs stop) :
    Keeps [] (steps.flatMap Step.cues) tr stop := by
  induction h with
  | nil => exact .done
  | done hseg _ ih =>
    rw [List.flatMap_cons]
    refine hseg.append ?_
    simpa using ih.older _
  | stopped hseg =>
    rw [List.flatMap_cons]
    exact hseg.append_of_stop _

/-- **A course of two lists of steps** is one of the first, and then one of the second unless the
first was stopped. -/
theorem Course.split (h : Course (steps ++ steps') tr evs stop) :
    (∃ tr₁ tr₂ evs₁ evs₂, tr = tr₁ ++ tr₂ ∧ evs = evs₁ ++ evs₂ ∧ Course steps tr₁ evs₁ none ∧
      Course steps' tr₂ evs₂ stop) ∨
      Course steps tr evs stop ∧ stop ≠ none := by
  induction steps generalizing tr evs with
  | nil => exact Or.inl ⟨[], tr, [], evs, rfl, rfl, .nil, h⟩
  | cons step steps ih =>
    cases h with
    | done hseg hrest =>
      rcases ih hrest with ⟨tr₁, tr₂, evs₁, evs₂, rfl, rfl, h₁, h₂⟩ | ⟨h₁, hstop⟩
      · refine Or.inl ⟨_, tr₂, _, evs₂, ?_, ?_, .done hseg h₁, h₂⟩
        · rw [List.append_assoc]
        · rw [List.append_assoc]
      · exact Or.inr ⟨.done hseg h₁, hstop⟩
    | stopped hseg => exact Or.inr ⟨.stopped hseg, by simp⟩

/-- **The events of a course** spell the steps that are done, if each of those tells of itself. -/
theorem Course.spells {γ : Type} {f : Step → List γ} {g : Event → γ} (h : Course steps tr evs stop)
    (htells : ∀ step ∈ steps, ∀ seg, Keeps [] step.cues seg none →
      (step.events seg).map g = f step) :
    evs.map g <+: steps.flatMap f ∧ (stop = none → evs.map g = steps.flatMap f) := by
  induction h with
  | nil => exact ⟨List.prefix_rfl, fun _ => rfl⟩
  | @done step steps seg tr evs stop hseg _ ih =>
    obtain ⟨hsome, hall⟩ := ih fun s hs => htells s (List.mem_cons_of_mem step hs)
    rw [List.map_append, htells step List.mem_cons_self seg hseg, List.flatMap_cons]
    exact ⟨(List.prefix_append_right_inj _).mpr hsome, fun hstop => by rw [hall hstop]⟩
  | stopped =>
    refine ⟨?_, fun hstop => by cases hstop⟩
    exact List.nil_prefix

end Course

end Holdem.Settlement
