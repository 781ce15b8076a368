import Holdem.Proofs.Settlement.Yields

/-!
# Recorded calls

`Engine.recorded` plays on a given engine and writes down every call with its answer, an `Exchange`.
So what a settlement asks of an engine can be read off the state that it leaves.

Recording changes nothing: `Mirrors x y` says of a part of a settlement on the recorded engine that
it answers and logs what the same part does on the bare one. There is one rule for each way in which
a settlement is put together, and **`settleOn_recorded`** is the result.
-/

namespace Holdem

/-- The calls to a betting engine. -/
inductive Call
  | create (config : TableConfig) (starts : List Int)
  | dealHole (seat : Nat) (first second : Card)
  | burn
  | dealBoard (card : Card)
  | fold
  | checkOrCall
  | raiseTo (amount : Int)
  | actor
  | behind
  | payoffs
  deriving DecidableEq

/-- What a call answers if it is not refused. -/
@[reducible]
def Call.Answer : Call → Type
  | actor => Nat
  | behind => List Int
  | payoffs => List Int
  | _ => Unit

/-- The stage with which a settlement tags a refusal of a call. -/
def Call.stage : Call → Stage
  | create .. => .stateCreation
  | dealHole .. => .holeCardDealing
  | payoffs => .payoffExtraction
  | _ => .actionProcessing

/-- A call with its answer. -/
structure Exchange where
  call : Call
  answer : Except TableError call.Answer

/-- The state of an engine, with the exchanges that led to it. -/
structure Transcript (σ : Type) where
  state : σ
  exchanges : List Exchange

variable {σ ν : Type}

/-- Writes a call down with its reply. -/
def Transcript.note (r : Transcript σ) (c : Call) (reply : Reply σ ν c.Answer) :
    Reply (Transcript σ) ν c.Answer :=
  ⟨reply.result, ⟨reply.state, r.exchanges ++ [⟨c, reply.result⟩]⟩, reply.notes⟩

/-- An engine that writes its calls down. -/
def Engine.recorded (E : Engine σ ν) : Engine (Transcript σ) ν where
  create config starts r := r.note (.create config starts) (E.create config starts r.state)
  dealHole seat first second r :=
    r.note (.dealHole seat first second) (E.dealHole seat first second r.state)
  burn r := r.note .burn (E.burn r.state)
  dealBoard c r := r.note (.dealBoard c) (E.dealBoard c r.state)
  fold r := r.note .fold (E.fold r.state)
  checkOrCall r := r.note .checkOrCall (E.checkOrCall r.state)
  raiseTo amount r := r.note (.raiseTo amount) (E.raiseTo amount r.state)
  actor r := r.note .actor (E.actor r.state)
  behind r :=
    let (amounts, state) := E.behind r.state
    (amounts, ⟨state, r.exchanges ++ [⟨.behind, .ok amounts⟩]⟩)
  payoffs r := r.note .payoffs (E.payoffs r.state)

namespace Settlement

variable {α β : Type}

/-- A progress without its record. -/
def bare (p : Progress (Transcript σ) ν) : Progress σ ν := ⟨p.state.state, p.log⟩

/-- A part on a recorded engine answers and logs what another one does on the bare engine. -/
def Mirrors (x : Settling (Transcript σ) ν α) (y : Settling σ ν α) : Prop :=
  ∀ p, y.run (bare p) = ((x.run p).1, bare (x.run p).2)

theorem mirrors_pure (a : α) : Mirrors (pure a : Settling (Transcript σ) ν α) (pure a) :=
  fun _ => rfl

theorem mirrors_throw (e : SettleError) :
    Mirrors (throw e : Settling (Transcript σ) ν α) (throw e) :=
  fun _ => rfl

theorem mirrors_emit (e : Event) : Mirrors (emit e : Settling (Transcript σ) ν Unit) (emit e) :=
  fun _ => rfl

/-- A call that is written down. -/
theorem mirrors_call (stage : Stage) (c : Call)
    {op : Transcript σ → Reply (Transcript σ) ν c.Answer} {bareOp : σ → Reply σ ν c.Answer}
    (h : ∀ r, op r = r.note c (bareOp r.state)) :
    Mirrors (call stage op) (call stage bareOp) := by
  intro p
  rw [run_call, run_call, h]
  unfold Transcript.note bare
  dsimp only
  cases (bareOp p.state.state).result <;> rfl

theorem mirrors_readBehind (E : Engine σ ν) : Mirrors (readBehind E.recorded) (readBehind E) :=
  fun _ => rfl

/-- **One part after another.** -/
theorem mirrors_bind {x : Settling (Transcript σ) ν α} {y : Settling σ ν α}
    {f : α → Settling (Transcript σ) ν β} {g : α → Settling σ ν β} (hx : Mirrors x y)
    (hf : ∀ a, Mirrors (f a) (g a)) : Mirrors (x >>= f) (y >>= g) := by
  intro p
  rw [run_bind, run_bind, hx p]
  cases hr : x.run p with
  | mk result q =>
    cases result with
    | error e => rfl
    | ok a => exact hf a q

theorem mirrors_forM {l : List β} {f : β → Settling (Transcript σ) ν PUnit}
    {g : β → Settling σ ν PUnit} (h : ∀ b ∈ l, Mirrors (f b) (g b)) :
    Mirrors (l.forM f) (l.forM g) := by
  induction l with
  | nil => exact mirrors_pure _
  | cons b l ih =>
    exact mirrors_bind (h b List.mem_cons_self) fun _ =>
      ih fun c hc => h c (List.mem_cons_of_mem b hc)

/-! ## The parts of a settlement -/

variable (E : Engine σ ν)

theorem mirrors_dealHole (chips : Stacks) (player : String) (cards : List Card) :
    Mirrors (dealHole E.recorded chips player cards) (dealHole E chips player cards) := by
  unfold dealHole
  split
  · exact mirrors_throw _
  · exact mirrors_bind (mirrors_call _ (.dealHole _ _ _) fun _ => rfl) fun _ => mirrors_emit _
  · exact mirrors_throw _

theorem mirrors_playAction (a : Action) : Mirrors (playAction E.recorded a) (playAction E a) := by
  unfold playAction
  refine mirrors_bind (mirrors_call _ .actor fun _ => rfl) fun seat => ?_
  cases a with
  | fold => exact mirrors_bind (mirrors_call _ .fold fun _ => rfl) fun _ => mirrors_emit _
  | checkOrCall =>
    exact mirrors_bind (mirrors_call _ .checkOrCall fun _ => rfl) fun _ => mirrors_emit _
  | raiseTo amount =>
    exact mirrors_bind (mirrors_call _ (.raiseTo amount) fun _ => rfl) fun _ => mirrors_emit _
  | allIn =>
    refine mirrors_bind (mirrors_readBehind E) fun amounts => ?_
    split
    · exact mirrors_bind (mirrors_call _ (.raiseTo _) fun _ => rfl) fun _ => mirrors_emit _
    · exact mirrors_bind (mirrors_throw _) fun _ => mirrors_emit _

theorem mirrors_playStreet (street : Street) :
    Mirrors (playStreet E.recorded street) (playStreet E street) := by
  cases street with
  | board kind cards =>
    exact mirrors_bind (mirrors_call _ .burn fun _ => rfl) fun _ =>
      mirrors_bind (mirrors_forM fun c _ => mirrors_call _ (.dealBoard c) fun _ => rfl) fun _ =>
        mirrors_emit _
  | betting actions => exact mirrors_forM fun a _ => mirrors_playAction E a

theorem mirrors_replay (chips : Stacks) (holes : HoleCards) (sequence : ActionSequence) :
    Mirrors (replay E.recorded chips holes sequence) (replay E chips holes sequence) :=
  mirrors_bind (mirrors_emit _) fun _ =>
    mirrors_bind (mirrors_call _ (.create _ _) fun _ => rfl) fun _ =>
      mirrors_bind (mirrors_forM fun e _ => mirrors_dealHole E chips e.1 e.2) fun _ =>
        mirrors_bind (mirrors_forM fun street _ => mirrors_playStreet E street) fun _ =>
          mirrors_bind (mirrors_call _ .payoffs fun _ => rfl) fun _ => mirrors_pure _

theorem mirrors_run (chips : Stacks) (holes : HoleCards) (text : String) :
    Mirrors (run E.recorded chips holes text) (run E chips holes text) := by
  unfold run
  split
  · exact mirrors_throw _
  · refine mirrors_bind (mirrors_emit _) fun _ => ?_
    split
    · exact mirrors_throw _
    · split
      · exact mirrors_bind (mirrors_emit _) fun _ => mirrors_bind (mirrors_pure _) fun _ =>
          mirrors_bind (mirrors_emit _) fun _ => mirrors_pure _
      · exact mirrors_bind (mirrors_replay E chips holes _) fun _ =>
          mirrors_bind (mirrors_emit _) fun _ => mirrors_pure _

end Settlement

/-- **Recording changes nothing**: a settlement on a recorded engine ends as it does on the bare
one, with the same state, the same answer and the same log. -/
theorem settleOn_recorded (E : Engine σ ν) (r : Transcript σ) (chips : Stacks) (holes : HoleCards)
    (text : String) :
    settleOn E r.state chips holes text =
      ⟨(settleOn E.recorded r chips holes text).result,
        (settleOn E.recorded r chips holes text).state.state,
        (settleOn E.recorded r chips holes text).log⟩ := by
  have hrun : (Settlement.run E chips holes text).run ⟨r.state, []⟩ = _ :=
    Settlement.mirrors_run E chips holes text ⟨r, []⟩
  unfold settleOn
  rw [hrun]
  generalize (Settlement.run E.recorded chips holes text).run ⟨r, []⟩ = ended
  obtain ⟨_ | _, _⟩ := ended <;> rfl

end Holdem
