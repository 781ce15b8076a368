import Holdem.Proofs.Settlement.Conversation
import Holdem.Proofs.Settlement.Losses

/-!
# Which hands are settled without an engine

A hand is `FoldedOut` if three or more players have seats and the opening street has a fourth action
and nothing but folds from there on. This is what the shortcut tests (`shortcut?_isSome_iff`).

If it is, the settlement is over before an engine is asked for anything (`run_of_shortcut`). If not,
the hand is replayed, and a replay begins with a call, whatever the engine answers
(`Course.ne_nil`).

**`settled_without_engine_iff`** says both, and that the winnings of folded out hands depend on the
names of the players alone.
-/

namespace Holdem

/-- What it takes that a hand is not replayed. -/
structure FoldedOut (players : Nat) (sequence : ActionSequence) : Prop where
  /-- Two players who fold are replayed. -/
  three : 3 ≤ players
  /-- The first three actions may be any; all later ones are folds, and there is one. -/
  opening : ∃ actions later, sequence.streets = .betting actions :: later ∧ 4 ≤ actions.length ∧
    ∀ i a, actions[i]? = some a → 3 ≤ i → a = .fold

namespace Settlement

variable {σ ν : Type} {chips : Stacks} {holes : HoleCards} {text : String}
  {sequence : ActionSequence} {winnings : Winnings}

/-! ## The test -/

theorem foldsOut_iff {actions : List Action} :
    foldsOut actions = true ↔
      4 ≤ actions.length ∧ ∀ i a, actions[i]? = some a → 3 ≤ i → a = .fold := by
  unfold foldsOut
  rw [Bool.and_eq_true, decide_eq_true_iff, List.all_eq_true]
  refine and_congr_right fun _ => ⟨fun h i a hi hle => ?_, fun h a ha => ?_⟩
  · have hdrop : (actions.drop 3)[i - 3]? = some a := by
      rw [List.getElem?_drop, Nat.add_sub_cancel' hle]
      exact hi
    exact of_decide_eq_true (h a (List.mem_of_getElem? hdrop))
  · obtain ⟨i, hi⟩ := List.mem_iff_getElem?.mp ha
    rw [List.getElem?_drop] at hi
    exact decide_eq_true (h _ a hi (Nat.le_add_right 3 i))

/-- **The shortcut applies to the hands that are folded out.** -/
theorem shortcut?_isSome_iff :
    (shortcut? chips sequence).isSome = true ↔ FoldedOut chips.size sequence := by
  have htest : (shortcut? chips sequence).isSome = true ↔
      3 ≤ chips.size ∧ foldsOut sequence.preflop = true := by
    unfold shortcut?
    split <;> simp_all
  rw [htest]
  constructor
  · rintro ⟨hthree, hfolds⟩
    refine ⟨hthree, ?_⟩
    unfold ActionSequence.preflop at hfolds
    split at hfolds
    · rename_i actions later hstreets
      exact ⟨actions, later, hstreets, foldsOut_iff.mp hfolds⟩
    · cases hfolds
  · rintro ⟨hthree, actions, later, hstreets, hopening⟩
    refine ⟨hthree, ?_⟩
    unfold ActionSequence.preflop
    rw [hstreets]
    exact foldsOut_iff.mpr hopening

/-! ## No call, or a first one -/

/-- A hand that is folded out changes nothing but the log, on any engine. -/
theorem run_of_shortcut (E : Engine σ ν) (htext : ActionSequence.ofText text = .ok sequence)
    (hinput : checkInput chips holes = .ok ()) (hshort : shortcut? chips sequence = some winnings)
    (p : Progress σ ν) :
    (run E chips holes text).run p = (.ok winnings,
      { p with log := p.log ++ [.event (.sequenceValidated sequence.streets.length)] ++
        [.event .shortcutApplied] ++ [.event (.settled winnings.entries)] }) := by
  unfold run
  rw [htext]
  dsimp only
  rw [hinput]
  dsimp only
  rw [hshort]
  rfl

/-- The whole settlement of a hand that is folded out. -/
theorem settleOn_of_shortcut (E : Engine σ ν) (state : σ)
    (htext : ActionSequence.ofText text = .ok sequence) (hinput : checkInput chips holes = .ok ())
    (hshort : shortcut? chips sequence = some winnings) :
    settleOn E state chips holes text = ⟨.ok winnings, state,
      [.event (.sequenceValidated sequence.streets.length), .event .shortcutApplied,
        .event (.settled winnings.entries)]⟩ := by
  unfold settleOn
  rw [run_of_shortcut E htext hinput hshort]
  rfl

/-- Where a call is due that does not hang on earlier answers, one is made. -/
theorem Keeps.ne_nil {before tr : List Exchange} {c : Call} {cues : List Cue}
    {stop : Option SettleError} (h : Keeps before (.make c :: cues) tr stop) : tr ≠ [] := by
  cases h with
  | answered => exact List.cons_ne_nil _ _
  | refused => exact List.cons_ne_nil _ _

/-- **A replay calls the engine**, be it to no more than a refusal. -/
theorem Course.ne_nil {deals : List Deal} {tr : List Exchange} {evs : List Event}
    {stop : Option SettleError} (h : Course (plan chips holes deals sequence) tr evs stop) :
    tr ≠ [] :=
  h.keeps.ne_nil

theorem exchanges_eq_nil_iff (E : Engine σ ν) (state : σ)
    (htext : ActionSequence.ofText text = .ok sequence) (hinput : checkInput chips holes = .ok ()) :
    exchanges E state chips holes text = [] ↔ FoldedOut chips.size sequence := by
  obtain ⟨before, -, haccount⟩ := settleOn_account E state chips holes text
  rw [← shortcut?_isSome_iff]
  cases hshort : shortcut? chips sequence with
  | some winnings =>
    obtain ⟨-, hnone, -⟩ := haccount.of_shortcut htext hinput hshort
    exact iff_of_true hnone rfl
  | none =>
    obtain ⟨deals, rest, -, hcourse, -, -⟩ := haccount.of_replay htext hinput hshort
    exact iff_of_false hcourse.ne_nil Bool.noConfusion

/-! ## The result -/

/-- The winnings by the shortcut are those of the players in their order. -/
theorem shortcut?_congr {chips' : Stacks} {sequence' : ActionSequence} {winnings' : Winnings}
    (hkeys : chips'.keys = chips.keys) (h : shortcut? chips sequence = some winnings)
    (h' : shortcut? chips' sequence' = some winnings') : winnings' = winnings := by
  obtain ⟨-, rfl⟩ := shortcut?_eq_some h
  obtain ⟨-, rfl⟩ := shortcut?_eq_some h'
  rw [hkeys]

theorem getElem?_of_shortcut (h : shortcut? chips sequence = some winnings) {i : Nat}
    {player : String} (hplayer : chips.keys[i]? = some player) :
    winnings.entries[i]? =
      some (player, if i = 1 then -20 else if i = 2 then 20 else 0) := by
  obtain ⟨-, hentries⟩ := winnings_of_shortcut h
  unfold PlayerMap.keys at hplayer
  rw [List.getElem?_map] at hplayer
  obtain ⟨⟨_, stack⟩, hentry, rfl⟩ := Option.map_eq_some_iff.mp hplayer
  exact hentries i _ stack hentry

end Settlement

/-- **Which hands are settled without an engine**, and how. On any engine, from any state of it, for
a text and an input that pass the checks:
* no call is made exactly if the hand is folded out;
* if it is, seat 1 loses 20 to seat 2 and all others come out even, in the order of the stacks; the
  engine is left as it is, and the log holds three events;
* on another engine, with other stacks of the same players in their order, other hole cards and
  another text that is folded out as well, the winnings are the same, and so are the events but for
  the number of streets. -/
theorem settled_without_engine_iff {σ ν : Type} (E : Engine σ ν) (state : σ) {chips : Stacks}
    {holes : HoleCards} {text : String} {sequence : ActionSequence}
    (htext : ActionSequence.ofText text = .ok sequence)
    (hinput : checkInput chips holes = .ok ()) :
    (exchanges E state chips holes text = [] ↔ FoldedOut chips.size sequence) ∧
    (FoldedOut chips.size sequence →
      (∃ winnings : Winnings, winnings.keys = chips.keys ∧
        (∀ i player, chips.keys[i]? = some player → winnings.entries[i]? =
          some (player, if i = 1 then -20 else if i = 2 then 20 else 0)) ∧
        settleOn E state chips holes text = ⟨.ok winnings, state,
          [.event (.sequenceValidated sequence.streets.length), .event .shortcutApplied,
            .event (.settled winnings.entries)]⟩) ∧
      ∀ {σ' ν' : Type} (E' : Engine σ' ν') (state' : σ') (chips' : Stacks) (holes' : HoleCards)
        (text' : String) (sequence' : ActionSequence),
        ActionSequence.ofText text' = .ok sequence' → checkInput chips' holes' = .ok () →
        FoldedOut chips'.size sequence' → chips'.keys = chips.keys →
          (settleOn E' state' chips' holes' text').result =
              (settleOn E state chips holes text).result ∧
            ∃ rest, (settleOn E state chips holes text).events =
                .sequenceValidated sequence.streets.length :: rest ∧
              (settleOn E' state' chips' holes' text').events =
                .sequenceValidated sequence'.streets.length :: rest) := by
  refine ⟨Settlement.exchanges_eq_nil_iff E state htext hinput, fun hfolded => ?_⟩
  obtain ⟨winnings, hshort⟩ :=
    Option.isSome_iff_exists.mp (Settlement.shortcut?_isSome_iff.mpr hfolded)
  have hsettled := Settlement.settleOn_of_shortcut E state htext hinput hshort
  refine ⟨⟨winnings, (Settlement.winnings_of_shortcut hshort).1,
    fun i player => Settlement.getElem?_of_shortcut hshort, hsettled⟩, ?_⟩
  intro σ' ν' E' state' chips' holes' text' sequence' htext' hinput' hfolded' hkeys
  obtain ⟨winnings', hshort'⟩ :=
    Option.isSome_iff_exists.mp (Settlement.shortcut?_isSome_iff.mpr hfolded')
  have hsettled' := Settlement.settleOn_of_shortcut E' state' htext' hinput' hshort'
  obtain rfl := Settlement.shortcut?_congr hkeys hshort hshort'
  rw [hsettled, hsettled']
  exact ⟨rfl, _, rfl, rfl⟩

/-- The reply of an engine that will have nothing to do with a hand. -/
def refuse {α : Type} (state : Unit) : Reply Unit Empty α := ⟨.error .deckExhausted, state, []⟩

/-- An engine that refuses every call that can be refused. -/
def refusingEngine : Engine Unit Empty where
  create _ _ := refuse
  dealHole _ _ _ := refuse
  burn := refuse
  dealBoard _ := refuse
  fold := refuse
  checkOrCall := refuse
  raiseTo _ := refuse
  actor := refuse
  behind state := ([], state)
  payoffs := refuse

/-- The players of `shortChips` with other stacks. -/
def deepChips : Stacks := ⟨[("A", 40), ("B", 700), ("C", 9)], by decide⟩

/-- Cards of the same players, in another order. -/
def turnedHoles : HoleCards :=
  ⟨[("C", [⟨.two, .clubs⟩, ⟨.three, .clubs⟩]), ("A", [⟨.nine, .hearts⟩, ⟨.nine, .spades⟩]),
    ("B", [⟨.ace, .clubs⟩, ⟨.two, .hearts⟩])], by decide⟩

/-- A hand that folds out, and goes on to a flop. -/
def foldedOnText : String := "r50 f allin f f f / Flop: [2s,3d,5h] / x r9"

def foldedOnSequence : ActionSequence :=
  ⟨[.betting [.raiseTo 50, .fold, .allIn, .fold, .fold, .fold],
    .board .flop [⟨.two, .spades⟩, ⟨.three, .diamonds⟩, ⟨.five, .hearts⟩],
    .betting [.checkOrCall, .raiseTo 9]]⟩

/-- An engine that refuses everything settles a hand that is folded out, and comes to what the table
comes to from other stacks, other cards and a longer text. -/
theorem settled_without_engine_iff_refusing :
    exchanges refusingEngine () shortChips shortHoles "c c c f" = [] ∧
      (settleOn (Table.engine 7) .vacant deepChips turnedHoles foldedOnText).result =
        (settleOn refusingEngine () shortChips shortHoles "c c c f").result := by
  have htext : ActionSequence.ofText "c c c f" =
      .ok ⟨[.betting [.checkOrCall, .checkOrCall, .checkOrCall, .fold]]⟩ := by decide +kernel
  obtain ⟨hiff, hresult⟩ := settled_without_engine_iff refusingEngine () htext
    (show checkInput shortChips shortHoles = .ok () by decide +kernel)
  have hfolded := Settlement.shortcut?_isSome_iff.mp (show (Settlement.shortcut? shortChips
    ⟨[.betting [.checkOrCall, .checkOrCall, .checkOrCall, .fold]]⟩).isSome = true from rfl)
  have hfolded' := Settlement.shortcut?_isSome_iff.mp
    (show (Settlement.shortcut? deepChips foldedOnSequence).isSome = true from rfl)
  obtain ⟨-, hother⟩ := hresult hfolded
  refine ⟨hiff.mpr hfolded, ?_⟩
  exact (hother (Table.engine 7) .vacant deepChips turnedHoles foldedOnText foldedOnSequence
    (by decide +kernel) (by decide +kernel) hfolded' rfl).1

end Holdem
