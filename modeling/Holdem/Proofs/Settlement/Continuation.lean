import Holdem.Proofs.Settlement.Replay
import Holdem.Proofs.Settlement.ZeroSum

/-!
# Hands that go on

A sequence goes on where another stops (`ActionSequence.Continues`) if it has more actions on the
last street, or more streets. Its replay is then that of the other, and one street at least after
it: actions that are added to a street are played like a street of their own
(`exists_continuation`). A complete table begins no street. So a hand is complete at one point of
its sequence: before it the payoffs cannot be read, and after it no action is accepted.

Result: **`settle_prefix_free`**.
-/

namespace Holdem

/-- `T` goes on where `S` stops: with more actions on its last street, which is a betting street, or
with more streets, or with both. -/
def ActionSequence.Continues (S T : ActionSequence) : Prop :=
  (∃ rest, rest ≠ [] ∧ T.streets = S.streets ++ rest) ∨
    ∃ init actions more rest, more ≠ [] ∧ S.streets = init ++ [.betting actions] ∧
      T.streets = init ++ .betting (actions ++ more) :: rest

namespace Table

/-- **A complete hand has no more streets.** -/
theorem playStreets_of_complete {t : Table} (hphase : t.phase = .complete) {street : Street}
    (hshaped : street.Shaped) (rest : List Street) :
    ∃ cause, t.playStreets (street :: rest) = .error cause := by
  refine exists_error fun t' h => ?_
  obtain ⟨t₁, hfirst, -⟩ := playStreets_cons_eq_ok.mp h
  have hstart := hphase.symm.trans (phase_of_playStreet hshaped hfirst)
  cases street <;> cases hstart

/-- Actions after others on a street are played like a street of their own. -/
theorem playStreets_betting_append (t : Table) (actions more : List Action) (rest : List Street) :
    t.playStreets (.betting (actions ++ more) :: rest) =
      t.playStreets [.betting actions] >>= (·.playStreets (.betting more :: rest)) := by
  have hsplit : t.playStreet (.betting (actions ++ more)) =
      t.playStreet (.betting actions) >>= (·.playStreet (.betting more)) := List.foldlM_append
  have hlast : t.playStreets [.betting actions] = t.playStreet (.betting actions) := bind_pure _
  rw [playStreets_cons, hsplit, hlast, bind_assoc]
  rfl

/-- **A continuation plays the streets it continues**, and then one street more at least. -/
theorem exists_continuation {S T : ActionSequence} (h : S.Continues T)
    (hshaped : ∀ street ∈ T.streets, street.Shaped) :
    ∃ street rest, street.Shaped ∧ ∀ t : Table,
      t.playStreets T.streets = t.playStreets S.streets >>= (·.playStreets (street :: rest)) := by
  rcases h with ⟨rest, hmore, heq⟩ | ⟨init, actions, more, rest, hmore, hS, hT⟩
  · obtain ⟨street, rest, rfl⟩ := List.exists_cons_of_ne_nil hmore
    rw [heq] at hshaped ⊢
    refine ⟨street, rest, hshaped street ?_, fun t => playStreets_append t _ _⟩
    exact List.mem_append_right _ List.mem_cons_self
  · -- The actions that are added make up the first street that is added.
    refine ⟨.betting more, rest, hmore, fun t => ?_⟩
    rw [hS, hT, playStreets_append, playStreets_append, bind_assoc]
    exact congrArg _ (funext fun t' => playStreets_betting_append t' actions more rest)

end Table

namespace Settlement

variable {chips : Stacks}

theorem results_of_not_complete {t : Table} (hphase : t.phase ≠ .complete) :
    results chips t = .error (.engine .payoffExtraction .handNotComplete) := by
  have hread : t.payoffs = .error .handNotComplete := if_neg (by simpa [Table.isComplete])
  unfold results
  rw [hread]
  rfl

/-- A replay of a continuation is the replay it continues, and then one street more at least. -/
theorem conduct_of_continues (seed : UInt64) (chips : Stacks) (holes : HoleCards)
    {S T : ActionSequence} (h : S.Continues T) (hshaped : ∀ street ∈ T.streets, street.Shaped) :
    ∃ street rest, street.Shaped ∧ conduct seed chips holes T.streets =
      conduct seed chips holes S.streets >>= fun t =>
        (t.playStreets (street :: rest)).mapError (.engine .actionProcessing) := by
  obtain ⟨street, rest, hstreet, hplay⟩ := Table.exists_continuation h hshaped
  refine ⟨street, rest, hstreet, ?_⟩
  unfold conduct
  simp only [hplay, mapError_bind, bind_assoc]

end Settlement

/-- **Complete hands are prefix-free.** Let the input describe a table, let the texts be those of
two sequences to which the shortcut does not apply, and let the one go on where the other stops.
Then
* they are not both accepted;
* if the longer one is accepted, the payoffs of the shorter one are not final;
* if the shorter one is accepted, an action of the longer one is refused. -/
theorem settle_prefix_free {chips : Stacks} {holes : HoleCards} {s t : String}
    {S T : ActionSequence} (hinput : checkInput chips holes = .ok ())
    (hS : ActionSequence.ofText s = .ok S) (hT : ActionSequence.ofText t = .ok T)
    (hnoneS : Settlement.shortcut? chips S = none) (hnoneT : Settlement.shortcut? chips T = none)
    (hcontinues : S.Continues T) :
    (¬ ∃ w w', (settle chips holes s).result = .ok w ∧ (settle chips holes t).result = .ok w') ∧
    (∀ w, (settle chips holes t).result = .ok w →
      (settle chips holes s).result = .error (.engine .payoffExtraction .handNotComplete)) ∧
    (∀ w, (settle chips holes s).result = .ok w →
      ∃ cause, (settle chips holes t).result = .error (.engine .actionProcessing cause)) := by
  obtain ⟨street, rest, hstreet, hconduct⟩ :=
    Settlement.conduct_of_continues Deck.defaultSeed chips holes hcontinues (shaped_of_ofText hT)
  rw [settle_result, settle_result, Settlement.answer_of_replayed hS hinput hnoneS,
    Settlement.answer_of_replayed hT hinput hnoneT, hconduct]
  have hlonger : ∀ w, (Settlement.conduct Deck.defaultSeed chips holes S.streets >>=
      Settlement.results chips) = .ok w → ∃ cause,
        ((Settlement.conduct Deck.defaultSeed chips holes S.streets >>= fun t =>
          (t.playStreets (street :: rest)).mapError (.engine .actionProcessing)) >>=
            Settlement.results chips) = .error (.engine .actionProcessing cause) := by
    intro w hw
    obtain ⟨t', hshort, hread⟩ := bind_eq_ok.mp hw
    have hcomplete := (Settlement.results_eq_ok hread).1
    obtain ⟨cause, hcause⟩ := Table.playStreets_of_complete hcomplete hstreet rest
    refine ⟨cause, ?_⟩
    rw [hshort]
    show (t'.playStreets (street :: rest)).mapError _ >>= _ = _
    rw [hcause]
    rfl
  refine ⟨?_, fun w hw => ?_, hlonger⟩
  · rintro ⟨w, w', hw, hw'⟩
    obtain ⟨cause, hcause⟩ := hlonger w hw
    rw [hcause] at hw'
    cases hw'
  · obtain ⟨t'', hlong, -⟩ := bind_eq_ok.mp hw
    obtain ⟨t', hshort, hrest⟩ := bind_eq_ok.mp hlong
    have hphase : t'.phase ≠ .complete := by
      intro hcomplete
      obtain ⟨cause, hcause⟩ := Table.playStreets_of_complete hcomplete hstreet rest
      rw [hcause] at hrest
      cases hrest
    rw [hshort]
    exact Settlement.results_of_not_complete hphase

/-- Two players of which one has all his chips in after two raises. -/
def raisedChips : Stacks := ⟨[("A", 300), ("B", 500)], by decide⟩

def raisedHoles : HoleCards :=
  ⟨[("A", [⟨.ace, .spades⟩, ⟨.ace, .hearts⟩]), ("B", [⟨.king, .spades⟩, ⟨.king, .hearts⟩])],
    by decide⟩

/-- With the fold the hand is complete; without it the payoffs are not final, and a second fold is
one too many. -/
theorem settle_prefix_free_fold :
    (settle raisedChips raisedHoles "c r100 r300").result =
      .error (.engine .payoffExtraction .handNotComplete) ∧
    ∃ cause, (settle raisedChips raisedHoles "c r100 r300 f f").result =
      .error (.engine .actionProcessing cause) := by
  have hinput : checkInput raisedChips raisedHoles = .ok () := by decide +kernel
  have hopen : ActionSequence.ofText "c r100 r300" =
      .ok ⟨[.betting [.checkOrCall, .raiseTo 100, .raiseTo 300]]⟩ := by decide +kernel
  have hfolded : ActionSequence.ofText "c r100 r300 f" =
      .ok ⟨[.betting [.checkOrCall, .raiseTo 100, .raiseTo 300, .fold]]⟩ := by decide +kernel
  have htwice : ActionSequence.ofText "c r100 r300 f f" =
      .ok ⟨[.betting [.checkOrCall, .raiseTo 100, .raiseTo 300, .fold, .fold]]⟩ := by
    decide +kernel
  have hresult : (settle raisedChips raisedHoles "c r100 r300 f").result =
      .ok (⟨[("A", -100), ("B", 100)], by decide⟩ : Winnings) := by decide +kernel
  obtain ⟨-, hshorter, -⟩ := settle_prefix_free hinput hopen hfolded rfl rfl
    (Or.inr ⟨[], _, [.fold], [], by simp, rfl, rfl⟩)
  obtain ⟨-, -, hlonger⟩ := settle_prefix_free hinput hfolded htwice rfl rfl
    (Or.inr ⟨[], _, [.fold], [], by simp, rfl, rfl⟩)
  exact ⟨hshorter _ hresult, hlonger _ hresult⟩

end Holdem
