import Holdem.Proofs.InPlace.Agreement

/-!
# Chips in range, and refusals that change nothing

What the agreement of the two ways to play says of a whole run.

* **`Run.chips_in_range`**: no sum overflows, no range is empty and no position is missed, from the
  creation of the table to its results, and no chips are below zero, lost or made.
* A move that is refused leaves the table as it was, so it can be left out of what was tried
  (`attempt_of_refused`), and what was tried comes to a run of the moves that were done (`accepted`,
  `Run.accepted`). On a complete hand nothing that is tried has an effect.
  **`Run.refusal_changes_nothing`** puts this together.
-/

namespace Holdem

namespace InPlace

variable {starts : List Int} {t : Table} {m : Move}

/-- A program that answers as the table does halts only for a cause that the table gives. -/
theorem refused_of_error (hp : Playable starts) (hinv : Table.Inv starts t) {halt : Halt}
    {t' : Table} (h : (play m).run t = .error halt t') :
    t' = t ∧ ∃ cause, halt = .refused cause ∧ t.play m = .error cause := by
  rw [play_eq hp hinv] at h
  cases hplay : t.play m with
  | ok r =>
    rw [hplay] at h
    exact absurd h (by simp [answer])
  | error cause =>
    rw [hplay] at h
    obtain ⟨rfl, rfl⟩ := EStateM.Result.error.inj h
    exact ⟨rfl, cause, rfl, rfl⟩

/-! ## Trying moves -/

theorem attempt_of_accepted (hp : Playable starts) (hinv : Table.Inv starts t) {r : Noted Table}
    (h : t.play m = .ok r) (moves : List Move) : attempt t (m :: moves) = attempt r.1 moves := by
  unfold attempt
  rw [List.foldl_cons, play_eq hp hinv, h]
  rfl

/-- A move that is refused can be left out of what is tried. -/
theorem attempt_of_refused (hp : Playable starts) (hinv : Table.Inv starts t)
    (h : ¬ t.Accepts m) (moves : List Move) : attempt t (m :: moves) = attempt t moves := by
  unfold attempt
  rw [List.foldl_cons, play_eq hp hinv]
  cases hplay : t.play m with
  | ok r => exact absurd ⟨r, hplay⟩ h
  | error cause => rfl

/-- The moves that are done, of some that are tried one after the other. -/
def accepted (t : Table) : List Move → List Move
  | [] => []
  | m :: moves =>
    match (play m).run t with
    | .ok _ t' => m :: accepted t' moves
    | .error _ t' => accepted t' moves

theorem accepted_of_accepted (hp : Playable starts) (hinv : Table.Inv starts t) {r : Noted Table}
    (h : t.play m = .ok r) (moves : List Move) :
    accepted t (m :: moves) = m :: accepted r.1 moves := by
  rw [accepted, play_eq hp hinv, h]
  rfl

theorem accepted_of_refused (hp : Playable starts) (hinv : Table.Inv starts t)
    {cause : TableError} (h : t.play m = .error cause) (moves : List Move) :
    accepted t (m :: moves) = accepted t moves := by
  rw [accepted, play_eq hp hinv, h]
  rfl

/-- What is done is some of what is tried, in order. -/
theorem accepted_sublist (t : Table) (moves : List Move) :
    (accepted t moves).Sublist moves := by
  induction moves generalizing t with
  | nil => exact List.Sublist.refl _
  | cons m moves ih =>
    rw [accepted]
    split
    · exact (ih _).cons_cons m
    · exact (ih _).cons m

end InPlace

namespace Run

variable {config : TableConfig} {starts : List Int} {turns : List Turn} {t : Table}

/-- **What is tried comes to a run** of the moves that are done. -/
theorem accepted (h : Run config starts turns t) (moves : List Move) :
    ∃ turns', Run config starts (turns' ++ turns) (InPlace.attempt t moves) ∧
      turns'.map (·.move) = (InPlace.accepted t moves).reverse := by
  induction moves generalizing t turns with
  | nil => exact ⟨[], h, rfl⟩
  | cons m moves ih =>
    cases hplay : t.play m with
    | ok r =>
      obtain ⟨turns', hrun, hmoves⟩ := ih (.move h hplay)
      rw [InPlace.attempt_of_accepted h.playable h.inv hplay,
        InPlace.accepted_of_accepted h.playable h.inv hplay]
      exact ⟨turns' ++ [⟨t, m⟩], by simpa using hrun, by simp [hmoves]⟩
    | error cause =>
      rw [InPlace.attempt_of_refused h.playable h.inv (Table.not_accepts hplay),
        InPlace.accepted_of_refused h.playable h.inv hplay]
      exact ih h

theorem attempt (h : Run config starts turns t) (moves : List Move) :
    ∃ turns', Run config starts (turns' ++ turns) (InPlace.attempt t moves) ∧
      (turns'.map (·.move)).reverse.Sublist moves := by
  obtain ⟨turns', hrun, hmoves⟩ := h.accepted moves
  refine ⟨turns', hrun, ?_⟩
  rw [hmoves, List.reverse_reverse]
  exact InPlace.accepted_sublist t moves

/-- What is tried on a complete hand changes nothing. -/
theorem attempt_of_complete (h : Run config starts turns t) (hphase : t.phase = .complete)
    (moves : List Move) : InPlace.attempt t moves = t := by
  induction moves with
  | nil => rfl
  | cons m moves ih =>
    have hplay := Table.play_of_complete hphase m
    rw [InPlace.attempt_of_refused h.playable h.inv (Table.not_accepts hplay)]
    exact ih

/-- **Chips stay in range**, whatever the forced bets, the stacks and the amounts of raises.
* Until the hand is complete no seat has chips below zero, behind, bet or collected, and those
  behind and those put in are what it started with.
* In the end all seats together have what they started with.
* The table was created without overflow; each move comes to the same in 64 signed bits as without
  bounds, and halts only if it is refused; and the results can be read, and any seat's chips. -/
theorem chips_in_range (h : Run config starts turns t) :
    (t.isComplete = false → ∀ (i : Nat) (s : Seat), t.seats[i]? = some s →
      0 ≤ s.stack ∧ 0 ≤ s.bet ∧ 0 ≤ s.committed ∧
        starts[i]? = some (s.stack + s.contribution)) ∧
    (t.isComplete = true → Chips.total (t.seats.map (·.stack)) = Chips.total starts) ∧
    (∀ seed, ∃ t₀, Table.create config starts seed = .ok t₀ ∧
      InPlace.create config starts seed = .ok t₀) ∧
    (∀ m, (InPlace.play m).run t = InPlace.answer t (t.play m) ∧
      ∀ halt t', (InPlace.play m).run t = .error halt t' → ∃ cause, halt = .refused cause) ∧
    InPlace.payoffs.run t = InPlace.look t t.payoffs ∧
    ∀ s ∈ t.seats, InPlace.payoff s = .ok s.payoff ∧
      InPlace.contribution s = .ok s.contribution := by
  have hp := h.playable
  have hinv := h.inv
  refine ⟨fun hgo i s hs => ?_, fun hcomplete => ?_, fun seed => ?_, fun m => ⟨?_, ?_⟩,
    InPlace.payoffs_eq hp hinv, fun s hs => InPlace.payoff_eq_of_inv hp hinv hs⟩
  · have hphase : t.phase ≠ .complete := by simpa [Table.isComplete] using hgo
    have hplay := (hinv.underway_of_phase hphase).inPlay
    have hbal := hplay.balanced s (List.mem_of_getElem? hs)
    refine ⟨hbal.stack_nonneg, hbal.bet_nonneg, hbal.committed_nonneg, ?_⟩
    rw [hbal.balance, ← hplay.starts_eq, List.getElem?_map, hs]
    rfl
  · have hphase : t.phase = .complete := by simpa [Table.isComplete] using hcomplete
    exact (hinv.finished_of_phase hphase).total_stack
  · have hcreate := Table.create_of_playable config hp seed
    refine ⟨_, hcreate, ?_⟩
    rw [InPlace.create_eq, hcreate]
    rfl
  · exact InPlace.play_eq hp hinv m
  · intro halt t' herror
    obtain ⟨-, cause, rfl, -⟩ := InPlace.refused_of_error hp hinv herror
    exact ⟨cause, rfl⟩

/-- With all the chips that can be counted on the table, a negative ante, one blind as high and one as
low as can be, and a least increment above all stacks, the first caller is all in for two chips. -/
theorem chips_in_range_extreme : ∃ turns t,
    Run ⟨-5, Chips.most, Chips.least, Chips.most⟩ [Chips.most - 7, 5, 2] turns t ∧
      t.isComplete = false ∧ t.seats.map (·.stack) = [0, 5, 0] ∧
      (∀ (i : Nat) (s : Seat), t.seats[i]? = some s → 0 ≤ s.stack ∧ 0 ≤ s.bet ∧ 0 ≤ s.committed ∧
        [Chips.most - 7, 5, 2][i]? = some (s.stack + s.contribution)) ∧
      ∀ m halt t', (InPlace.play m).run t = .error halt t' → ∃ cause, halt = .refused cause := by
  obtain ⟨turns, t, d, hrun, ⟨hgo, hstacks⟩, -⟩ :=
    exists_run ⟨-5, Chips.most, Chips.least, Chips.most⟩ [Chips.most - 7, 5, 2]
      [.hole 0 ⟨.ace, .spades⟩ ⟨.ace, .hearts⟩, .hole 1 ⟨.king, .spades⟩ ⟨.king, .hearts⟩,
        .hole 2 ⟨.two, .spades⟩ ⟨.seven, .hearts⟩, .checkOrCall]
      (fun t => t.isComplete = false ∧ t.seats.map (·.stack) = [0, 5, 0])
      ⟨by decide, by decide, by decide⟩ (by decide +kernel) (by decide)
  obtain ⟨hseats, -, -, hmoves, -⟩ := hrun.chips_in_range
  exact ⟨turns, _, hrun, hgo, hstacks, hseats hgo, fun m => (hmoves m).2⟩

/-- **A refusal changes nothing.**
* A move that halts leaves the whole table as it was, and was refused.
* What is tried after a refused move goes as if it had not been tried.
* Whatever is tried, it comes to a run of those moves that were accepted.
* A complete hand refuses every move, so that nothing changes it or its results. -/
theorem refusal_changes_nothing (h : Run config starts turns t) :
    (∀ m halt t', (InPlace.play m).run t = .error halt t' →
      t' = t ∧ ∃ cause, halt = .refused cause ∧ t.play m = .error cause) ∧
    (∀ m moves, ¬ t.Accepts m → InPlace.attempt t (m :: moves) = InPlace.attempt t moves) ∧
    (∀ moves, ∃ turns', Run config starts (turns' ++ turns) (InPlace.attempt t moves) ∧
      (turns'.map (·.move)).reverse.Sublist moves) ∧
    (t.isComplete = true →
      (∀ m, ∃ operation : Operation, (InPlace.play m).run t =
        .error (.refused (.wrongPhase operation.text PhaseName.complete.text)) t) ∧
      ∀ moves, InPlace.attempt t moves = t ∧
        InPlace.payoffs.run (InPlace.attempt t moves) = .ok (t.seats.map (·.payoff)) t) := by
  have hp := h.playable
  have hinv := h.inv
  refine ⟨fun m halt t' herror => InPlace.refused_of_error hp hinv herror,
    fun m moves hno => InPlace.attempt_of_refused hp hinv hno moves, h.attempt,
    fun hcomplete => ?_⟩
  have hphase : t.phase = .complete := by simpa [Table.isComplete] using hcomplete
  refine ⟨fun m => ?_, fun moves => ?_⟩
  · refine ⟨m.operation, ?_⟩
    rw [InPlace.play_eq hp hinv, Table.play_of_complete hphase m]
    rfl
  · have hsame := h.attempt_of_complete hphase moves
    refine ⟨hsame, ?_⟩
    rw [hsame, InPlace.payoffs_eq hp hinv]
    unfold Table.payoffs
    rw [if_pos hcomplete]
    rfl

/-- After a fold before the flop, whatever is tried, the small blind is won. -/
theorem refusal_changes_nothing_fold : ∃ turns t, Run .standard [1000, 1000] turns t ∧
    InPlace.attempt t [.fold, .burn, .raiseTo 100] = t ∧
      InPlace.payoffs.run t = .ok [20, -20] t := by
  obtain ⟨turns, t, d, hrun, ⟨hcomplete, hpayoffs⟩, -⟩ :=
    exists_run .standard [1000, 1000]
      [.hole 0 ⟨.ace, .spades⟩ ⟨.ace, .diamonds⟩, .hole 1 ⟨.seven, .clubs⟩ ⟨.two, .diamonds⟩, .fold]
      (fun t => t.isComplete = true ∧ t.seats.map (·.payoff) = [20, -20])
      ⟨by decide, by decide, by decide⟩ (by decide +kernel) (by decide)
  obtain ⟨-, -, -, hover⟩ := hrun.refusal_changes_nothing
  obtain ⟨-, hsame⟩ := hover hcomplete
  refine ⟨turns, _, hrun, (hsame _).1, ?_⟩
  have hread := (hsame []).2
  rw [(hsame []).1] at hread
  rw [hread]
  exact congrArg (EStateM.Result.ok · _) hpayoffs

end Run

end Holdem
