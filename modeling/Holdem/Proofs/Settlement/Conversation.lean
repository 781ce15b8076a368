import Holdem.Proofs.Settlement.Protocol

/-!
# A settlement keeps to the protocol

`Leaves x R` says of a part of a settlement on a recorded engine: begun anywhere, the exchanges and
the events that it adds stand in `R` with its answer. As a part may be refused, what it leaves then
is said as well. There is one rule for each way in which a settlement is put together.

`Follows x steps V` says that a part leaves a course of some steps, which stops for what the part is
refused for, and that `V` holds of its value and of the exchanges at the end. Parts in a row follow
the steps of the one and then of the other (`follows_seq`).

An `Account` is what there is to say of a settlement: one of four ways in which it goes, with its
exchanges and its events. **`settleOn_account`** gives one for every settlement.
-/

namespace Holdem

/-- What was not accepted, if anything. -/
def refusal {ε α : Type} : Except ε α → Option ε
  | .ok _ => none
  | .error e => some e

namespace Settlement

variable {σ ν α β : Type}

/-- What a part adds to the record and to the events stands in `R` with its answer. -/
def Leaves (x : Settling (Transcript σ) ν α)
    (R : Except SettleError α → List Exchange → List Event → Prop) : Prop :=
  ∀ p, ∃ tr evs, (x.run p).2.state.exchanges = p.state.exchanges ++ tr ∧
    eventsOf (x.run p).2.log = eventsOf p.log ++ evs ∧ R (x.run p).1 tr evs

section Rules

variable {R : Except SettleError α → List Exchange → List Event → Prop}
  {S : Except SettleError β → List Exchange → List Event → Prop}

theorem Leaves.mono {x : Settling (Transcript σ) ν α}
    {R' : Except SettleError α → List Exchange → List Event → Prop} (h : Leaves x R)
    (himp : ∀ r tr evs, R r tr evs → R' r tr evs) : Leaves x R' := by
  intro p
  obtain ⟨tr, evs, hexchanges, hevents, hR⟩ := h p
  exact ⟨tr, evs, hexchanges, hevents, himp _ _ _ hR⟩

theorem leaves_pure {a : α} (h : R (.ok a) [] []) :
    Leaves (pure a : Settling (Transcript σ) ν α) R :=
  fun _ => ⟨[], [], (List.append_nil _).symm, (List.append_nil _).symm, h⟩

theorem leaves_throw {e : SettleError} (h : R (.error e) [] []) :
    Leaves (throw e : Settling (Transcript σ) ν α) R :=
  fun _ => ⟨[], [], (List.append_nil _).symm, (List.append_nil _).symm, h⟩

theorem leaves_emit {e : Event} {R : Except SettleError Unit → List Exchange → List Event → Prop}
    (h : R (.ok ()) [] [e]) : Leaves (emit e : Settling (Transcript σ) ν Unit) R :=
  fun _ => ⟨[], [e], (List.append_nil _).symm, eventsOf_append _ _, h⟩

/-- **A call** adds its exchange. -/
theorem leaves_call (c : Call) {op : Transcript σ → Reply (Transcript σ) ν c.Answer}
    {bareOp : σ → Reply σ ν c.Answer} (hop : ∀ r, op r = r.note c (bareOp r.state))
    {R : Except SettleError c.Answer → List Exchange → List Event → Prop}
    (hrefused : ∀ cause, R (.error (.engine c.stage cause)) [⟨c, .error cause⟩] [])
    (hdone : ∀ a, R (.ok a) [⟨c, .ok a⟩] []) : Leaves (call c.stage op) R := by
  intro p
  have hnotes : ∀ log : List (Entry ν),
      eventsOf (log ++ (bareOp p.state.state).notes.map Entry.note) = eventsOf log ++ [] := by
    intro log
    rw [eventsOf_append, eventsOf_notes]
  rw [run_call, hop]
  unfold Transcript.note
  dsimp only
  cases (bareOp p.state.state).result with
  | error cause => exact ⟨_, [], rfl, hnotes _, hrefused cause⟩
  | ok a => exact ⟨_, [], rfl, hnotes _, hdone a⟩

/-- The chips behind are read. -/
theorem leaves_readBehind (E : Engine σ ν)
    {R : Except SettleError (List Int) → List Exchange → List Event → Prop}
    (h : ∀ amounts, R (.ok amounts) [⟨.behind, .ok amounts⟩] []) :
    Leaves (readBehind E.recorded) R :=
  fun _ => ⟨_, [], rfl, (List.append_nil _).symm, h _⟩

/-- What has to hold after a part for `S` to hold after what follows it. -/
def After (f : α → Settling (Transcript σ) ν β)
    (S : Except SettleError β → List Exchange → List Event → Prop) :
    Except SettleError α → List Exchange → List Event → Prop
  | .ok a, tr, evs => Leaves (f a) fun r tr' evs' => S r (tr ++ tr') (evs ++ evs')
  | .error e, tr, evs => S (.error e) tr evs

/-- **One part after another.** -/
theorem leaves_bind {x : Settling (Transcript σ) ν α} {f : α → Settling (Transcript σ) ν β}
    (h : Leaves x (After f S)) : Leaves (x >>= f) S := by
  intro p
  obtain ⟨tr, evs, hexchanges, hevents, hafter⟩ := h p
  rw [run_bind]
  generalize x.run p = ended at hexchanges hevents hafter
  obtain ⟨_ | a, q⟩ := ended
  · exact ⟨tr, evs, hexchanges, hevents, hafter⟩
  · obtain ⟨tr', evs', hexchanges', hevents', hS⟩ := hafter q
    refine ⟨tr ++ tr', evs ++ evs', ?_, ?_, hS⟩
    · rw [← List.append_assoc, ← hexchanges]
      exact hexchanges'
    · rw [← List.append_assoc, ← hevents]
      exact hevents'

/-- What comes after an event. -/
theorem leaves_emit_bind {e : Event} {f : Unit → Settling (Transcript σ) ν β}
    (h : Leaves (f ()) fun r tr evs => S r tr (e :: evs)) : Leaves (emit e >>= f) S :=
  leaves_bind (leaves_emit h)

/-- What comes after a call. -/
theorem leaves_call_bind (c : Call) {op : Transcript σ → Reply (Transcript σ) ν c.Answer}
    {bareOp : σ → Reply σ ν c.Answer} (hop : ∀ r, op r = r.note c (bareOp r.state))
    {f : c.Answer → Settling (Transcript σ) ν β}
    (hrefused : ∀ cause, S (.error (.engine c.stage cause)) [⟨c, .error cause⟩] [])
    (hdone : ∀ a, Leaves (f a) fun r tr evs => S r (⟨c, .ok a⟩ :: tr) evs) :
    Leaves (call c.stage op >>= f) S :=
  leaves_bind (leaves_call c hop hrefused hdone)

/-- What comes after the chips behind are read. -/
theorem leaves_readBehind_bind (E : Engine σ ν) {f : List Int → Settling (Transcript σ) ν β}
    (h : ∀ amounts, Leaves (f amounts) fun r tr evs => S r (⟨.behind, .ok amounts⟩ :: tr) evs) :
    Leaves (readBehind E.recorded >>= f) S :=
  leaves_bind (leaves_readBehind E h)

end Rules

/-! ## Parts that follow steps -/

/-- A part leaves a course of some steps, and `V` holds of its value and its last exchanges. -/
def Follows (x : Settling (Transcript σ) ν α) (steps : List Step)
    (V : α → List Exchange → Prop) : Prop :=
  Leaves x fun r tr evs => Course steps tr evs (refusal r) ∧
    ∀ a, r = .ok a → ∃ last, last <:+ tr ∧ V a last

/-- A part follows some steps, and its value is of no interest. -/
abbrev Takes (x : Settling (Transcript σ) ν α) (steps : List Step) : Prop :=
  Leaves x fun r tr evs => Course steps tr evs (refusal r)

section Follows

variable {steps steps' : List Step}

/-- **Parts in a row** follow the steps of the one and then of the other. -/
theorem follows_seq {V : β → List Exchange → Prop} {x : Settling (Transcript σ) ν α}
    {f : α → Settling (Transcript σ) ν β} (hx : Takes x steps)
    (hf : ∀ a, Follows (f a) steps' V) : Follows (x >>= f) (steps ++ steps') V := by
  refine leaves_bind (hx.mono fun r tr evs h => ?_)
  cases r with
  | error e => exact ⟨h.append_of_stop _, fun _ hok => by cases hok⟩
  | ok a =>
    unfold After
    refine (hf a).mono ?_
    rintro r tr' evs' ⟨h', hV⟩
    refine ⟨h.append h', fun b hb => ?_⟩
    obtain ⟨last, hsuffix, hlast⟩ := hV b hb
    exact ⟨last, hsuffix.trans (List.suffix_append _ _), hlast⟩

theorem takes_seq {x : Settling (Transcript σ) ν α} {f : α → Settling (Transcript σ) ν β}
    (hx : Takes x steps) (hf : ∀ a, Takes (f a) steps') : Takes (x >>= f) (steps ++ steps') := by
  refine leaves_bind (hx.mono fun r tr evs h => ?_)
  cases r with
  | error e => exact h.append_of_stop _
  | ok a => exact (hf a).mono fun _ _ _ h' => h.append h'

theorem takes_forM {l : List β} {x : β → Settling (Transcript σ) ν PUnit} {steps : β → List Step}
    (h : ∀ b ∈ l, Takes (x b) (steps b)) : Takes (l.forM x) (l.flatMap steps) := by
  induction l with
  | nil => exact leaves_pure .nil
  | cons b l ih =>
    rw [List.flatMap_cons]
    exact takes_seq (h b List.mem_cons_self) fun _ =>
      ih fun c hc => h c (List.mem_cons_of_mem b hc)

end Follows

/-! ## The parts of a settlement -/

section Parts

variable (E : Engine σ ν)

/-- The deal of an entry whose player has a seat and two cards. -/
theorem takes_dealHole {chips : Stacks} {player : String} {d : Deal}
    (hseat : chips.position? player = some d.seat) :
    Takes (dealHole E.recorded chips player [d.first, d.second]) [.deal player d] := by
  unfold dealHole
  rw [hseat]
  refine leaves_call_bind (.dealHole d.seat d.first d.second) (fun _ => rfl)
    (fun _ => .stopped (.refused .make)) fun _ => leaves_emit ?_
  exact course_single (.answered .make .done)

/-- **The deals of a replay** follow the entries of the hole cards. -/
theorem takes_deals {chips : Stacks} {l : List (String × List Card)} {deals : List Deal}
    (h : (l.map fun e => (chips.position? e.1, e.2)) =
      deals.map fun d => (some d.seat, [d.first, d.second])) :
    Takes (l.forM fun e => dealHole E.recorded chips e.1 e.2)
      (dealSteps (l.map Prod.fst) deals) := by
  induction l generalizing deals with
  | nil => exact leaves_pure .nil
  | cons e l ih =>
    cases deals with
    | nil => cases h
    | cons d deals =>
      obtain ⟨hentry, hrest⟩ := List.cons.inj h
      obtain ⟨hseat, hcards⟩ := Prod.mk.inj hentry
      show Takes _ ([Step.deal e.1 d] ++ dealSteps (l.map Prod.fst) deals)
      have hdeal := takes_dealHole E hseat
      rw [← hcards] at hdeal
      exact takes_seq hdeal fun _ => ih hrest

/-- The call that carries out an action, after the exchanges `seg`, and the event that tells of
it. -/
theorem leaves_act {a : Action} {seat : Nat} {cue : Cue} {before : List Exchange}
    (seg : List Exchange) (c : Call) {op : Transcript σ → Reply (Transcript σ) ν c.Answer}
    {bareOp : σ → Reply σ ν c.Answer} (hop : ∀ r, op r = r.note c (bareOp r.state))
    (hc : cue.Calls before c)
    (hkeeps : ∀ tr stop, Keeps before [cue] tr stop →
      Keeps [] (Step.action a).cues (⟨.actor, .ok seat⟩ :: (seg ++ tr)) stop) :
    Leaves (call c.stage op >>= fun _ => emit (.actionApplied seat a)) fun r tr evs =>
      Course [.action a] (⟨.actor, .ok seat⟩ :: (seg ++ tr)) evs (refusal r) :=
  leaves_call_bind c hop (fun _ => .stopped (hkeeps _ _ (.refused hc)))
    fun _ => leaves_emit (course_single (hkeeps _ _ (.answered hc .done)))

theorem takes_playAction (a : Action) : Takes (playAction E.recorded a) [.action a] := by
  unfold playAction
  refine leaves_call_bind .actor (fun _ => rfl) (fun _ => .stopped (.refused .make))
    fun seat => ?_
  cases a with
  | fold => exact leaves_act [] .fold (fun _ => rfl) .make fun _ _ h => .answered .make h
  | checkOrCall =>
    exact leaves_act [] .checkOrCall (fun _ => rfl) .make fun _ _ h => .answered .make h
  | raiseTo amount =>
    exact leaves_act [] (.raiseTo amount) (fun _ => rfl) .make
      fun _ _ h => .answered .make h
  | allIn =>
    refine leaves_readBehind_bind E fun amounts => ?_
    split
    · rename_i stack hstack
      exact leaves_act [⟨.behind, .ok amounts⟩] (.raiseTo stack) (fun _ => rfl)
        (.raiseAll hstack) fun _ _ h => .answered .make (.answered .make h)
    · rename_i hnone
      have hstop : Keeps [] (Step.action .allIn).cues
          [⟨.actor, .ok seat⟩, ⟨.behind, .ok amounts⟩] _ :=
        .answered .make (.answered .make (.noStack hnone))
      exact leaves_bind (leaves_throw (.stopped hstop))

/-- The cards of a board street, card by card. -/
theorem leaves_cards (cards : List Card) (before : List Exchange) :
    Leaves (cards.forM fun c => call .actionProcessing (E.recorded.dealBoard c))
      fun r tr evs => Keeps before (cards.map fun c => .make (.dealBoard c)) tr (refusal r) ∧
        evs = [] := by
  induction cards generalizing before with
  | nil => exact leaves_pure ⟨.done, rfl⟩
  | cons c cards ih =>
    exact leaves_call_bind (.dealBoard c) (fun _ => rfl) (fun _ => ⟨.refused .make, rfl⟩)
      fun _ => (ih _).mono fun _ _ _ ⟨h, hevs⟩ => ⟨.answered .make h, hevs⟩

theorem takes_playStreet (street : Street) :
    Takes (playStreet E.recorded street) (streetSteps street) := by
  cases street with
  | board kind cards =>
    refine leaves_call_bind .burn (fun _ => rfl) (fun _ => .stopped (.refused .make)) fun _ => ?_
    refine leaves_bind ((leaves_cards E cards [⟨.burn, .ok ()⟩]).mono ?_)
    rintro r tr _ ⟨h, rfl⟩
    have hboard : Keeps [] (Step.board kind cards).cues (⟨.burn, .ok ()⟩ :: tr) (refusal r) :=
      .answered .make h
    cases r with
    | error e => exact .stopped hboard
    | ok _ =>
      unfold After
      refine leaves_emit ?_
      rw [List.append_nil]
      exact course_single hboard
  | betting actions =>
    have hactions := takes_forM fun a (_ : a ∈ actions) => takes_playAction E a
    rwa [← List.map_eq_flatMap] at hactions

/-- The payoffs of a hand, given to its players. -/
theorem follows_reading (chips : Stacks) :
    Follows (call .payoffExtraction E.recorded.payoffs >>= fun payoffs =>
      pure (PlayerMap.ofList (chips.keys.zip payoffs))) [.reading] fun winnings last =>
        ∃ payoffs, last = [⟨.payoffs, .ok payoffs⟩] ∧
          winnings = .ofList (chips.keys.zip payoffs) := by
  refine leaves_call_bind .payoffs (fun _ => rfl) (fun _ => ⟨.stopped (.refused .make), ?_⟩)
    fun payoffs => leaves_pure ⟨course_single (.answered .make .done), ?_⟩
  · rintro _ ⟨⟩
  · rintro _ ⟨⟩
    exact ⟨_, List.suffix_rfl, payoffs, rfl, rfl⟩

/-- **A replay follows its plan**, and gives the payoffs that it reads at the end. -/
theorem leaves_replay {chips : Stacks} {holes : HoleCards} {deals : List Deal}
    (hdeals : (holes.entries.map fun e => (chips.position? e.1, e.2)) =
      deals.map fun d => (some d.seat, [d.first, d.second])) (sequence : ActionSequence) :
    Leaves (replay E.recorded chips holes sequence) fun r tr evs =>
      ∃ rest, evs = .replayStarted chips.size :: rest ∧
        Course (plan chips holes deals sequence) tr rest (refusal r) ∧
        ∀ winnings, r = .ok winnings → ∃ payoffs, [⟨.payoffs, .ok payoffs⟩] <:+ tr ∧
          winnings = .ofList (chips.keys.zip payoffs) := by
  have hseating : Takes (call .stateCreation (E.recorded.create .standard chips.values))
      [.seating chips.values] :=
    leaves_call (.create .standard chips.values) (fun _ => rfl)
      (fun _ => .stopped (.refused .make)) fun _ => course_single (.answered .make .done)
  have hstreets := takes_forM fun street (_ : street ∈ sequence.streets) =>
    takes_playStreet E street
  refine leaves_emit_bind ((follows_seq hseating fun _ => follows_seq (takes_deals E hdeals)
    fun _ => follows_seq hstreets fun _ => follows_reading E chips).mono ?_)
  rintro r tr evs ⟨hcourse, hvalue⟩
  refine ⟨evs, rfl, hcourse, fun winnings hr => ?_⟩
  obtain ⟨_, hsuffix, payoffs, rfl, hwinnings⟩ := hvalue winnings hr
  exact ⟨payoffs, hsuffix, hwinnings⟩

end Parts

/-! ## The whole -/

/-- How a settlement goes: its answer, its exchanges, and its events before the last. -/
inductive Account (chips : Stacks) (holes : HoleCards) (text : String) :
    Except SettleError Winnings → List Exchange → List Event → Prop
  | malformed {cause : SequenceError} (htext : ActionSequence.ofText text = .error cause) :
      Account chips holes text (.error (.sequence cause)) [] []
  | inconsistent {sequence : ActionSequence} {cause : InputError}
      (htext : ActionSequence.ofText text = .ok sequence)
      (hinput : checkInput chips holes = .error cause) :
      Account chips holes text (.error (.input cause)) []
        [.sequenceValidated sequence.streets.length]
  | foldedOut {sequence : ActionSequence} {winnings : Winnings}
      (htext : ActionSequence.ofText text = .ok sequence)
      (hinput : checkInput chips holes = .ok ())
      (hshort : shortcut? chips sequence = some winnings) :
      Account chips holes text (.ok winnings) []
        [.sequenceValidated sequence.streets.length, .shortcutApplied]
  | replayed {sequence : ActionSequence} {deals : List Deal} {r : Except SettleError Winnings}
      {tr : List Exchange} {evs : List Event} (htext : ActionSequence.ofText text = .ok sequence)
      (hinput : checkInput chips holes = .ok ()) (hshort : shortcut? chips sequence = none)
      (hdeals : (holes.entries.map fun e => (chips.position? e.1, e.2)) =
        deals.map fun d => (some d.seat, [d.first, d.second]))
      (hcourse : Course (plan chips holes deals sequence) tr evs (refusal r))
      (hvalue : ∀ winnings, r = .ok winnings → ∃ payoffs, [⟨.payoffs, .ok payoffs⟩] <:+ tr ∧
        winnings = .ofList (chips.keys.zip payoffs)) :
      Account chips holes text r tr
        (.sequenceValidated sequence.streets.length :: .replayStarted chips.size :: evs)

section Account

variable {chips : Stacks} {holes : HoleCards} {text : String} {sequence : ActionSequence}
  {r : Except SettleError Winnings} {tr : List Exchange} {evs : List Event}

theorem Account.of_malformed {cause : SequenceError} (h : Account chips holes text r tr evs)
    (htext : ActionSequence.ofText text = .error cause) :
    r = .error (.sequence cause) ∧ tr = [] ∧ evs = [] := by
  cases h with
  | malformed h =>
    cases htext.symm.trans h
    exact ⟨rfl, rfl, rfl⟩
  | inconsistent h => cases htext.symm.trans h
  | foldedOut h => cases htext.symm.trans h
  | replayed h => cases htext.symm.trans h

theorem Account.of_inconsistent {cause : InputError} (h : Account chips holes text r tr evs)
    (htext : ActionSequence.ofText text = .ok sequence)
    (hinput : checkInput chips holes = .error cause) :
    r = .error (.input cause) ∧ tr = [] ∧ evs = [.sequenceValidated sequence.streets.length] := by
  cases h with
  | malformed h => cases htext.symm.trans h
  | inconsistent h h' =>
    cases htext.symm.trans h
    cases hinput.symm.trans h'
    exact ⟨rfl, rfl, rfl⟩
  | foldedOut _ h' => cases hinput.symm.trans h'
  | replayed _ h' => cases hinput.symm.trans h'

theorem Account.of_shortcut {winnings : Winnings} (h : Account chips holes text r tr evs)
    (htext : ActionSequence.ofText text = .ok sequence) (hinput : checkInput chips holes = .ok ())
    (hshort : shortcut? chips sequence = some winnings) :
    r = .ok winnings ∧ tr = [] ∧
      evs = [.sequenceValidated sequence.streets.length, .shortcutApplied] := by
  cases h with
  | malformed h => cases htext.symm.trans h
  | inconsistent _ h' => cases hinput.symm.trans h'
  | foldedOut h _ hsome =>
    cases htext.symm.trans h
    cases hshort.symm.trans hsome
    exact ⟨rfl, rfl, rfl⟩
  | replayed h _ hnone =>
    cases htext.symm.trans h
    cases hshort.symm.trans hnone

theorem Account.of_replay (h : Account chips holes text r tr evs)
    (htext : ActionSequence.ofText text = .ok sequence) (hinput : checkInput chips holes = .ok ())
    (hshort : shortcut? chips sequence = none) :
    ∃ deals rest, (holes.entries.map fun e => (chips.position? e.1, e.2)) =
        (deals.map fun d => (some d.seat, [d.first, d.second])) ∧
      Course (plan chips holes deals sequence) tr rest (refusal r) ∧
      (∀ winnings, r = .ok winnings → ∃ payoffs, [⟨.payoffs, .ok payoffs⟩] <:+ tr ∧
        winnings = .ofList (chips.keys.zip payoffs)) ∧
      evs = .sequenceValidated sequence.streets.length :: .replayStarted chips.size :: rest := by
  cases h with
  | malformed h => cases htext.symm.trans h
  | inconsistent _ h' => cases hinput.symm.trans h'
  | foldedOut h _ hsome =>
    cases htext.symm.trans h
    cases hshort.symm.trans hsome
  | replayed h _ _ hdeals hcourse hvalue =>
    cases htext.symm.trans h
    exact ⟨_, _, hdeals, hcourse, hvalue, rfl⟩

end Account

/-- The event of an answer that is given; a refusal is reported only at the very end. -/
def given : Except SettleError Winnings → List Event
  | .ok winnings => [.settled winnings.entries]
  | .error _ => []

theorem leaves_given {x : Settling (Transcript σ) ν Winnings}
    {R : Except SettleError Winnings → List Exchange → List Event → Prop} (h : Leaves x R) :
    Leaves (x >>= fun winnings => emit (.settled winnings.entries) >>= fun _ => pure winnings)
      fun r tr evs => ∃ before, R r tr before ∧ evs = before ++ given r := by
  refine leaves_bind (h.mono fun r tr evs hR => ?_)
  cases r with
  | error e => exact ⟨evs, hR, (List.append_nil _).symm⟩
  | ok winnings =>
    unfold After
    refine leaves_emit_bind (leaves_pure ⟨evs, ?_, rfl⟩)
    rwa [List.append_nil]

variable (E : Engine σ ν)

theorem leaves_run (chips : Stacks) (holes : HoleCards) (text : String) :
    Leaves (run E.recorded chips holes text) fun r tr evs =>
      ∃ before, Account chips holes text r tr before ∧ evs = before ++ given r := by
  unfold run
  cases htext : ActionSequence.ofText text with
  | error cause => exact leaves_throw ⟨[], .malformed htext, rfl⟩
  | ok sequence =>
    refine leaves_emit_bind ?_
    cases hinput : checkInput chips holes with
    | error cause => exact leaves_throw ⟨_, .inconsistent htext hinput, rfl⟩
    | ok _ =>
      cases hshort : shortcut? chips sequence with
      | some winnings =>
        refine leaves_emit_bind ((leaves_given (leaves_pure (R := fun r tr evs =>
          r = .ok winnings ∧ tr = [] ∧ evs = []) ⟨rfl, rfl, rfl⟩)).mono ?_)
        rintro _ _ _ ⟨_, ⟨rfl, rfl, rfl⟩, rfl⟩
        exact ⟨_, .foldedOut htext hinput hshort, rfl⟩
      | none =>
        obtain ⟨deals, hdeals, -⟩ := exists_deals (checkInput_eq_ok_iff.mp hinput)
        refine (leaves_given (leaves_replay E hdeals sequence)).mono ?_
        rintro r tr _ ⟨_, ⟨evs, rfl, hcourse, hvalue⟩, rfl⟩
        exact ⟨_, .replayed htext hinput hshort hdeals hcourse hvalue, rfl⟩

end Settlement

/-- The event that reports an answer. -/
def reported : Except SettleError Winnings → Event
  | .ok winnings => .settled winnings.entries
  | .error e => .failed e.stage? e.message

/-- The calls of a settlement with their answers, as a recorded engine writes them down. -/
def exchanges {σ ν : Type} (E : Engine σ ν) (state : σ) (chips : Stacks) (holes : HoleCards)
    (text : String) : List Exchange :=
  (settleOn E.recorded ⟨state, []⟩ chips holes text).state.exchanges

/-- **Every settlement has an account**, and then reports its answer. -/
theorem settleOn_account {σ ν : Type} (E : Engine σ ν) (state : σ) (chips : Stacks)
    (holes : HoleCards) (text : String) :
    ∃ before, (settleOn E state chips holes text).events =
        before ++ [reported (settleOn E state chips holes text).result] ∧
      Settlement.Account chips holes text (settleOn E state chips holes text).result
        (exchanges E state chips holes text) before := by
  obtain ⟨tr, evs, hexchanges, hevents, before, haccount, rfl⟩ :=
    Settlement.leaves_run E chips holes text ⟨⟨state, []⟩, []⟩
  rw [settleOn_recorded E ⟨state, []⟩]
  unfold exchanges settleOn
  generalize (Settlement.run E.recorded chips holes text).run ⟨⟨state, []⟩, []⟩ = ended at *
  obtain ⟨e | winnings, p⟩ := ended
  · refine ⟨before, ?_, hexchanges ▸ haccount⟩
    show Settlement.eventsOf (p.log ++ _) = _
    rw [Settlement.eventsOf_append, hevents]
    simp [Settlement.eventsOf, Settlement.given, Entry.event?, reported]
  · exact ⟨before, hevents, hexchanges ▸ haccount⟩

end Holdem
