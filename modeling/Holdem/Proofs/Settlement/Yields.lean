import Holdem.Settlement.Settle

/-!
# What parts of a settlement lead to

`Yields P x Q` says of a part of a settlement: begun in an engine state with `P`, it answers, if it
is not refused, a value and an engine state with `Q`. There is one rule for each way in which a
settlement is put together: `pure`, `bind`, `emit`, `call`, `forM`, and a refusal.
-/

namespace Holdem.Settlement

variable {σ ν α β : Type} {P : σ → Prop}

/-- From a state with `P` a part that is not refused leads to a value and a state with `Q`. -/
def Yields (P : σ → Prop) (x : Settling σ ν α) (Q : α → σ → Prop) : Prop :=
  ∀ p a p', x.run p = (.ok a, p') → P p.state → Q a p'.state

theorem yields_pure {Q : α → σ → Prop} {a : α} (h : ∀ s, P s → Q a s) :
    Yields P (pure a : Settling σ ν α) Q := by
  rintro p b p' hrun hp
  cases hrun
  exact h _ hp

theorem yields_throw {Q : α → σ → Prop} (e : SettleError) :
    Yields P (throw e : Settling σ ν α) Q := by
  rintro p b p' hrun -
  cases hrun

theorem run_bind (x : Settling σ ν α) (f : α → Settling σ ν β) (p : Progress σ ν) :
    (x >>= f).run p =
      (match (x.run p).1 with
        | .ok a => (f a).run
        | .error e => pure (.error e) : StateM (Progress σ ν) (Except SettleError β))
        (x.run p).2 := by
  show StateT.bind (m := Id) x.run (ExceptT.bindCont f) p = _
  unfold StateT.bind ExceptT.bindCont
  generalize x.run p = r
  obtain ⟨result, q⟩ : Except SettleError α × Progress σ ν := r
  cases result <;> rfl

/-- **One part after another.** -/
theorem yields_bind {Q : α → σ → Prop} {R : β → σ → Prop} {x : Settling σ ν α}
    {f : α → Settling σ ν β} (hx : Yields P x Q) (hf : ∀ a, Yields (Q a) (f a) R) :
    Yields P (x >>= f) R := by
  intro p b p' hrun hp
  rw [run_bind] at hrun
  cases hr : x.run p with
  | mk result q =>
    rw [hr] at hrun
    cases result with
    | error e => cases hrun
    | ok a => exact hf a q b p' hrun (hx p a q hr hp)

theorem yields_emit (e : Event) : Yields P (emit e : Settling σ ν Unit) fun _ => P := by
  rintro p a p' hrun hp
  cases hrun
  exact hp

theorem run_call (stage : Stage) (op : σ → Reply σ ν α) (p : Progress σ ν) :
    (call stage op).run p =
      (match (op p.state).result with
        | .ok a => pure a
        | .error e => throw (.engine stage e) : Settling σ ν α).run
        ⟨(op p.state).state, p.log ++ (op p.state).notes.map Entry.note⟩ :=
  rfl

/-- A call yields what its operation does where it is not refused. -/
theorem yields_call {Q : α → σ → Prop} {stage : Stage} {op : σ → Reply σ ν α}
    (h : ∀ s a, P s → (op s).result = .ok a → Q a (op s).state) : Yields P (call stage op) Q := by
  intro p a p' hrun hp
  rw [run_call] at hrun
  cases hr : (op p.state).result with
  | error e =>
    rw [hr] at hrun
    cases hrun
  | ok b =>
    rw [hr] at hrun
    cases hrun
    exact h p.state _ hp hr

/-- What every round of a loop keeps is kept by the loop. -/
theorem yields_forM {l : List β} {f : β → Settling σ ν PUnit}
    (h : ∀ b ∈ l, Yields P (f b) fun _ => P) : Yields P (l.forM f) fun _ => P := by
  induction l with
  | nil => exact yields_pure fun _ hp => hp
  | cons b l ih =>
    show Yields P (f b >>= fun _ => l.forM f) _
    exact yields_bind (h b List.mem_cons_self) fun _ =>
      ih fun c hc => h c (List.mem_cons_of_mem b hc)

/-! ## Events in a log -/

/-- The events of a log. -/
def eventsOf (log : List (Entry ν)) : List Event := log.filterMap Entry.event?

theorem eventsOf_notes (notes : List ν) : eventsOf (notes.map Entry.note) = [] := by
  unfold eventsOf
  rw [List.filterMap_map]
  exact List.filterMap_eq_nil_iff.mpr fun _ _ => rfl

theorem eventsOf_append (log log' : List (Entry ν)) :
    eventsOf (log ++ log') = eventsOf log ++ eventsOf log' :=
  List.filterMap_append

end Holdem.Settlement
