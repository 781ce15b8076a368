import Holdem.Proofs.Except
import Holdem.Proofs.Settlement.Yields

/-!
# What parts of a settlement come to

A settlement writes a log, but never reads it. `outcome` forgets the log of a part that was run, and
`Computes x f` says that `x` comes to what `f` makes of the engine state, whatever is in the log:
a value and the state after it, or the error with which it is refused.

There is one rule for each way in which a settlement is put together. A loop whose rounds only
change the state comes to a fold over its list (`computes_forM`), and `steps` is the form of
such a part.
-/

namespace Holdem

namespace Settlement

variable {σ ν α β : Type}

/-! ## Outcomes -/

/-- What a part that was run came to, but for its log. -/
def outcome : Except SettleError α × Progress σ ν → Except SettleError (α × σ)
  | (.ok a, p) => .ok (a, p.state)
  | (.error e, _) => .error e

/-- A part of a settlement comes to `f` of the engine state, whatever is in the log. -/
def Computes (x : Settling σ ν α) (f : σ → Except SettleError (α × σ)) : Prop :=
  ∀ p, outcome (x.run p) = f p.state

/-- A change of the engine state as what a part without a value comes to. -/
def steps (g : σ → Except SettleError σ) (s : σ) : Except SettleError (Unit × σ) :=
  (g s).map ((), ·)

theorem fst_run (x : Settling σ ν α) (p : Progress σ ν) :
    (x.run p).1 = (outcome (x.run p)).map Prod.fst := by
  rcases x.run p with ⟨_ | _, _⟩ <;> rfl

/-- The result of a part that comes to `f`. -/
theorem Computes.result {x : Settling σ ν α} {f : σ → Except SettleError (α × σ)}
    (h : Computes x f) (p : Progress σ ν) : (x.run p).1 = (f p.state).map Prod.fst := by
  rw [fst_run, h p]

theorem computes_pure (a : α) : Computes (pure a : Settling σ ν α) fun s => .ok (a, s) :=
  fun _ => rfl

theorem computes_emit (e : Event) : Computes (emit e : Settling σ ν Unit) fun s => .ok ((), s) :=
  fun _ => rfl

theorem computes_readBehind (E : Engine σ ν) :
    Computes (readBehind E) fun s => .ok (E.behind s) :=
  fun _ => rfl

/-- A call comes to the reply of the engine; its refusal is tagged with the stage. -/
theorem computes_call (stage : Stage) (op : σ → Reply σ ν α) :
    Computes (call stage op) fun s =>
      ((op s).result.mapError (.engine stage)).map (·, (op s).state) := by
  intro p
  rw [run_call]
  show _ = ((op p.state).result.mapError (SettleError.engine stage)).map _
  cases (op p.state).result <;> rfl

/-- **One part after another.** -/
theorem computes_bind {x : Settling σ ν α} {f : σ → Except SettleError (α × σ)}
    {y : α → Settling σ ν β} {g : α → σ → Except SettleError (β × σ)} (hx : Computes x f)
    (hy : ∀ a, Computes (y a) (g a)) : Computes (x >>= y) fun s => f s >>= fun r => g r.1 r.2 := by
  intro p
  have hp := hx p
  rw [run_bind]
  cases hr : x.run p with
  | mk result q =>
    rw [hr] at hp
    show _ = f p.state >>= fun r => g r.1 r.2
    rw [← hp]
    cases result with
    | error e => rfl
    | ok a => exact hy a q

/-- A change of the state, and what follows. -/
theorem computes_then {x : Settling σ ν Unit} {f : σ → Except SettleError σ} {y : Settling σ ν β}
    {g : σ → Except SettleError (β × σ)} (hx : Computes x (steps f)) (hy : Computes y g) :
    Computes (x >>= fun _ => y) fun s => f s >>= g := by
  intro p
  rw [computes_bind hx (fun _ => hy) p]
  show (f p.state).map _ >>= _ = f p.state >>= g
  cases f p.state <;> rfl

/-- Two changes of the state, one after the other. -/
theorem computes_seq {x y : Settling σ ν Unit} {f g : σ → Except SettleError σ}
    (hx : Computes x (steps f)) (hy : Computes y (steps g)) :
    Computes (x >>= fun _ => y) (steps fun s => f s >>= g) := by
  intro p
  rw [computes_then hx hy p]
  show f p.state >>= _ = (f p.state >>= g).map _
  cases f p.state <;> rfl

theorem computes_done : Computes (pure () : Settling σ ν Unit) (steps .ok) :=
  computes_pure ()

theorem computes_told (e : Event) : Computes (emit e : Settling σ ν Unit) (steps .ok) :=
  computes_emit e

/-- A change of the state that is told of. -/
theorem computes_seq_emit {x : Settling σ ν Unit} {f : σ → Except SettleError σ}
    (hx : Computes x (steps f)) (e : Event) : Computes (x >>= fun _ => emit e) (steps f) := by
  intro p
  rw [computes_seq hx (computes_told e) p]
  show (f p.state >>= .ok).map _ = (f p.state).map _
  cases f p.state <;> rfl

/-- **A loop** whose rounds change the state comes to a fold. -/
theorem computes_forM {l : List β} {x : β → Settling σ ν PUnit}
    {f : σ → β → Except SettleError σ} (h : ∀ b ∈ l, Computes (x b) (steps (f · b))) :
    Computes (l.forM x) (steps (l.foldlM f)) := by
  induction l with
  | nil => exact computes_done
  | cons b l ih =>
    have hl := ih fun c hc => h c (List.mem_cons_of_mem b hc)
    exact computes_seq (h b List.mem_cons_self) hl

end Settlement

end Holdem
