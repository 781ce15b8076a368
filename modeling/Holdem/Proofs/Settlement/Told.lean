import Holdem.Proofs.Sequence.Shape
import Holdem.Proofs.Settlement.Yields
import Mathlib.Data.List.Basic

/-!
# What parts of a settlement tell

`Tells f x l` says of a part of a settlement that is not refused: of the events that it appends to
the log, `f` picks `l`, in this order. There is one rule for each way in which a settlement is put
together. Calls tell nothing, as their notes are no events.

`boardDealt?` picks the board streets, and **`tells_boards`** says that a replay tells those of its
sequence, each of them once and in their order, whatever engine it is played on.
-/

namespace Holdem

/-- The board street of an event, if it tells of one. -/
def Event.boardDealt? : Event → Option (BoardKind × List Card)
  | boardDealt kind cards => some (kind, cards)
  | _ => none

namespace Settlement

variable {σ ν α β γ : Type} {f : Event → Option γ}

/-- What `f` picks of the events of a log. -/
def told (f : Event → Option γ) (log : List (Entry ν)) : List γ :=
  (log.filterMap Entry.event?).filterMap f

theorem told_append (f : Event → Option γ) (log log' : List (Entry ν)) :
    told f (log ++ log') = told f log ++ told f log' := by
  show (eventsOf (log ++ log')).filterMap f = _
  rw [eventsOf_append, List.filterMap_append]
  rfl

theorem told_notes (f : Event → Option γ) (notes : List ν) :
    told f (notes.map Entry.note) = [] := by
  show (eventsOf (notes.map Entry.note)).filterMap f = []
  rw [eventsOf_notes]
  rfl

theorem told_event (f : Event → Option γ) (e : Event) :
    told f [(Entry.event e : Entry ν)] = (f e).toList := by
  cases h : f e <;> simp [told, Entry.event?, h]

/-- A part that is not refused appends events of which `f` picks `l`. -/
def Tells (f : Event → Option γ) (x : Settling σ ν α) (l : List γ) : Prop :=
  ∀ p a p', x.run p = (.ok a, p') → told f p'.log = told f p.log ++ l

theorem tells_pure (a : α) : Tells f (pure a : Settling σ ν α) [] := by
  rintro p b p' hrun
  cases hrun
  exact (List.append_nil _).symm

theorem tells_throw (e : SettleError) (l : List γ) : Tells f (throw e : Settling σ ν α) l := by
  rintro p b p' hrun
  cases hrun

theorem tells_emit (e : Event) : Tells f (emit e : Settling σ ν Unit) (f e).toList := by
  rintro p a p' hrun
  cases hrun
  show told f (p.log ++ [.event e]) = _
  rw [told_append, told_event]

/-- An event that is not picked. -/
theorem tells_other {e : Event} (h : f e = none) : Tells f (emit e : Settling σ ν Unit) [] := by
  have htells : Tells f (emit e : Settling σ ν Unit) (f e).toList := tells_emit e
  rwa [h] at htells

/-- A call appends notes alone. -/
theorem tells_call (stage : Stage) (op : σ → Reply σ ν α) : Tells f (call stage op) [] := by
  intro p a p' hrun
  have hlog : p'.log = p.log ++ (op p.state).notes.map Entry.note := by
    rw [run_call] at hrun
    cases hr : (op p.state).result with
    | error e =>
      rw [hr] at hrun
      cases hrun
    | ok b =>
      rw [hr] at hrun
      cases hrun
      rfl
  rw [hlog, told_append, told_notes]

theorem tells_readBehind (E : Engine σ ν) : Tells f (readBehind E) [] := by
  rintro p a p' hrun
  cases hrun
  exact (List.append_nil _).symm

/-- **One part after another.** -/
theorem tells_bind {x : Settling σ ν α} {y : α → Settling σ ν β} {l l' : List γ}
    (hx : Tells f x l) (hy : ∀ a, Tells f (y a) l') : Tells f (x >>= y) (l ++ l') := by
  intro p b p' hrun
  rw [run_bind] at hrun
  cases hr : x.run p with
  | mk result q =>
    rw [hr] at hrun
    cases result with
    | error e => cases hrun
    | ok a => rw [hy a q b p' hrun, hx p a q hr, List.append_assoc]

/-- **A loop** tells what its rounds tell, one after the other. -/
theorem tells_forM {l : List β} {x : β → Settling σ ν PUnit} {g : β → List γ}
    (h : ∀ b ∈ l, Tells f (x b) (g b)) : Tells f (l.forM x) (l.flatMap g) := by
  induction l with
  | nil => exact tells_pure ()
  | cons b l ih =>
    rw [List.flatMap_cons]
    exact tells_bind (h b List.mem_cons_self) fun _ =>
      ih fun c hc => h c (List.mem_cons_of_mem b hc)

/-! ## Board streets -/

variable (E : Engine σ ν)

theorem tells_dealHole (chips : Stacks) (player : String) (cards : List Card) :
    Tells Event.boardDealt? (dealHole E chips player cards) [] := by
  unfold dealHole
  split
  · exact tells_throw _ _
  · exact tells_bind (tells_call _ _) fun _ => tells_other rfl
  · exact tells_throw _ _

theorem tells_playAction (a : Action) : Tells Event.boardDealt? (playAction E a) [] := by
  have hdone : ∀ (seat : Nat) (op : σ → Reply σ ν Unit), Tells Event.boardDealt?
      (call .actionProcessing op >>= fun _ => emit (.actionApplied seat a)) [] :=
    fun seat op => tells_bind (tells_call _ op) fun _ => tells_other rfl
  unfold playAction
  refine tells_bind (l := []) (tells_call _ _) fun seat => ?_
  cases a with
  | fold => exact hdone seat E.fold
  | checkOrCall => exact hdone seat E.checkOrCall
  | raiseTo amount => exact hdone seat (E.raiseTo amount)
  | allIn =>
    refine tells_bind (l := []) (tells_readBehind E) fun behind => ?_
    split
    · exact hdone seat _
    · exact tells_bind (l := []) (tells_throw _ _) fun _ => tells_other rfl

theorem tells_playStreet (street : Street) :
    Tells Event.boardDealt? (playStreet E street) street.board?.toList := by
  cases street with
  | board kind cards =>
    have hcards := tells_forM (f := Event.boardDealt?) fun c (_ : c ∈ cards) =>
      tells_call .actionProcessing (E.dealBoard c)
    rw [List.flatMap_eq_nil_iff.mpr fun _ _ => rfl] at hcards
    exact tells_bind (l := []) (tells_call _ _) fun _ =>
      tells_bind hcards fun _ => tells_emit (.boardDealt kind cards)
  | betting actions =>
    have hactions := tells_forM fun a (_ : a ∈ actions) => tells_playAction E a
    rwa [List.flatMap_eq_nil_iff.mpr fun _ _ => rfl] at hactions

/-- **A replay tells the board streets** of its sequence, in their order. -/
theorem tells_boards (chips : Stacks) (holes : HoleCards) (sequence : ActionSequence) :
    Tells Event.boardDealt? (replay E chips holes sequence) sequence.boards := by
  have hholes := tells_forM fun e (_ : e ∈ holes.entries) => tells_dealHole E chips e.1 e.2
  rw [List.flatMap_eq_nil_iff.mpr fun _ _ => rfl] at hholes
  have hstreets := tells_forM fun street (_ : street ∈ sequence.streets) =>
    tells_playStreet E street
  have hboards : sequence.streets.flatMap (fun street => street.board?.toList) = sequence.boards :=
    (List.filterMap_eq_flatMap_toList _ _).symm
  rw [hboards] at hstreets
  have hread : Tells Event.boardDealt? (call .payoffExtraction E.payoffs >>= fun payoffs =>
      pure (PlayerMap.ofList (chips.keys.zip payoffs))) [] :=
    tells_bind (tells_call _ _) fun _ => tells_pure _
  rw [← List.append_nil sequence.boards]
  exact tells_bind (l := []) (tells_other rfl) fun _ =>
    tells_bind (l := []) (tells_call _ _) fun _ =>
      tells_bind (l := []) hholes fun _ => tells_bind hstreets fun _ => hread

/-- **The board streets that a settlement tells of**, if it replays the hand and accepts it, are
those of its sequence. -/
theorem tells_run {chips : Stacks} {holes : HoleCards} {text : String} {sequence : ActionSequence}
    (hsequence : ActionSequence.ofText text = .ok sequence)
    (hnone : shortcut? chips sequence = none) :
    Tells Event.boardDealt? (run E chips holes text) sequence.boards := by
  unfold run
  rw [hsequence]
  dsimp only
  show Tells _ _ ([] ++ sequence.boards)
  refine tells_bind (tells_other rfl) fun _ => ?_
  split
  · exact tells_throw _ _
  · rw [hnone]
    dsimp only
    rw [← List.append_nil sequence.boards]
    exact tells_bind (tells_boards E chips holes sequence) fun winnings =>
      tells_bind (l := []) (tells_other rfl) fun _ => tells_pure _

end Settlement

/-- The board streets in the log of a hand that is replayed and accepted. -/
theorem settleOn_boards {σ ν : Type} {E : Engine σ ν} {state : σ} {chips : Stacks}
    {holes : HoleCards} {text : String} {sequence : ActionSequence} {winnings : Winnings}
    (h : (settleOn E state chips holes text).result = .ok winnings)
    (hsequence : ActionSequence.ofText text = .ok sequence)
    (hnone : Settlement.shortcut? chips sequence = none) :
    (settleOn E state chips holes text).events.filterMap Event.boardDealt? = sequence.boards := by
  have htells : Settlement.Tells _ (Settlement.run E chips holes text) _ :=
    Settlement.tells_run E hsequence hnone
  unfold settleOn at h ⊢
  split at h
  · rename_i w p hrun
    exact htells _ w p hrun
  · cases h

end Holdem
