import Holdem.Proofs.InPlace.Safety
import Holdem.Proofs.Table.Seen
import Holdem.Proofs.Table.Supply

/-!
# Hands with other cards

Two hands with the same seats, stacks and forced bets, in which the same is tried, but with other
decks and other cards named. They go alike, step after step: `attempt_seen` carries what is seen of
the one over to the other. A burn needs a card in both decks, which may differ in size, as a named
card may or may not have been burned before. With 22 seats at most there always is one.

Result: **`other_cards_alike`**. Cards decide showdowns and nothing else, and the deck decides
nothing.
-/

namespace Holdem

/-- What two hands agree in, whatever their cards. -/
structure Table.Alike (t u : Table) : Prop where
  /-- The same moves, whatever cards they name, are accepted or refused with the same error. -/
  answers : ∀ m m' : Move, m.veiled false = m'.veiled false →
    ((t.play m).map fun _ => ()) = (u.play m').map fun _ => ()
  actor : t.actor = u.actor
  phase : t.phase = u.phase
  bets : t.seats.map (·.bet) = u.seats.map (·.bet)
  contributions : t.contributions = u.contributions
  live : t.live = u.live
  board : t.board.length = u.board.length
  behind : t.isComplete = false → t.behind = u.behind
  /-- A hand that one seat is left in has the same results. -/
  payoffs : t.liveCount = 1 → t.payoffs = u.payoffs

variable {config : TableConfig} {starts : List Int} {turns turns' : List Turn} {t u : Table}
  {named : Bool}

/-- Answers that look alike are acceptances, or the same refusal. -/
theorem accepted_of_seen {x y : Except TableError Table}
    (h : x.map (Table.seen named) = y.map (Table.seen named)) :
    (x.map fun _ => ()) = y.map fun _ => () := by
  cases x with
  | error cause =>
    rw [map_eq_error.mp h.symm]
  | ok t =>
    obtain ⟨u, rfl, -⟩ := map_eq_ok.mp h.symm
    rfl

/-- Seeds make no difference to a created table but in its deck. -/
theorem create_seen (config : TableConfig) (starts : List Int) (seed seed' : UInt64)
    (named : Bool) :
    (Table.create config starts seed).map (Table.seen named) =
      (Table.create config starts seed').map (Table.seen named) := by
  unfold Table.create
  split
  · rfl
  · split
    · rfl
    · split
      · rfl
      · refine congrArg Except.ok (Table.seen_of_veiled ?_)
        simp only [Table.veiled]

namespace Run

/-- What two tables of a run answer, if they look alike. -/
theorem seen_after (h : Run config starts turns t) (h' : Run config starts turns' u)
    (hseats : starts.length ≤ 22) (hseen : t.seen named = u.seen named) {m m' : Move}
    (hm : m.veiled named = m'.veiled named) :
    (t.after m).map (Table.seen named) = (u.after m').map (Table.seen named) :=
  Table.seen_after hseen hm fun hphase =>
    ⟨h.burn_supply hseats hphase, h'.burn_supply hseats (Table.phase_of_seen hseen ▸ hphase)⟩

/-- **What is tried alike on tables that look alike** leaves tables that look alike. -/
theorem attempt_seen (h : Run config starts turns t) (h' : Run config starts turns' u)
    (hseats : starts.length ≤ 22) (hseen : t.seen named = u.seen named) {moves moves' : List Move}
    (hmoves : moves.map (·.veiled named) = moves'.map (·.veiled named)) :
    (InPlace.attempt t moves).seen named = (InPlace.attempt u moves').seen named := by
  induction moves generalizing moves' t u turns turns' with
  | nil =>
    rw [List.map_eq_nil_iff.mp hmoves.symm]
    exact hseen
  | cons m moves ih =>
    obtain ⟨m', moves', rfl, hm, hrest⟩ := List.map_eq_cons_iff.mp hmoves.symm
    have hafter := h.seen_after h' hseats hseen hm.symm
    unfold Table.after at hafter
    cases hplay : t.play m with
    | ok r =>
      rw [hplay] at hafter
      obtain ⟨u', hu', hsame⟩ := map_eq_ok.mp hafter.symm
      obtain ⟨r', hplay', rfl⟩ := map_eq_ok.mp hu'
      rw [InPlace.attempt_of_accepted h.playable h.inv hplay,
        InPlace.attempt_of_accepted h'.playable h'.inv hplay']
      exact ih (.move h hplay) (.move h' hplay') hsame.symm hrest.symm
    | error cause =>
      rw [hplay] at hafter
      have hplay' : u.play m' = .error cause :=
        map_eq_error.mp (map_eq_error.mp hafter.symm)
      rw [InPlace.attempt_of_refused h.playable h.inv (Table.not_accepts hplay),
        InPlace.attempt_of_refused h'.playable h'.inv (Table.not_accepts hplay')]
      exact ih h h' hseen hrest.symm

theorem payoffs_of_seen (h : Run config starts turns t) (h' : Run config starts turns' u)
    (hseen : t.seen named = u.seen named) (hcards : named = true ∨ t.liveCount = 1) :
    t.payoffs = u.payoffs := by
  have hphase := Table.phase_of_seen hseen
  by_cases hcomplete : t.phase = .complete
  · exact Table.payoffs_of_seen (h.inv.finished_of_phase hcomplete)
      (h'.inv.finished_of_phase (hphase ▸ hcomplete)) hseen hcards
  · have hcomplete' : u.phase ≠ .complete := hphase ▸ hcomplete
    simp [Table.payoffs, Table.isComplete, hcomplete, hcomplete']

/-- What can be played on one deck is left by trying it on another that has enough cards. -/
theorem attempt_withDeck {d : Deck} (h : Run config starts turns (t.withDeck d)) {moves : List Move}
    (hplay : t.playAll moves = some u) (hcards : (moves.map Move.cards).sum ≤ d.remaining) :
    ∃ d', InPlace.attempt (t.withDeck d) moves = u.withDeck d' := by
  induction moves generalizing t d turns with
  | nil =>
    rw [← Option.some.inj hplay]
    exact ⟨d, rfl⟩
  | cons m moves ih =>
    rw [List.map_cons, List.sum_cons] at hcards
    rw [Table.playAll] at hplay
    split at hplay
    · rename_i r hr
      obtain ⟨d', hstep, hd⟩ := Table.transition_withDeck (d := d) (Table.transition_of_play hr)
        (by omega)
      obtain ⟨notes, hm⟩ := Table.play_of_transition hstep
      rw [InPlace.attempt_of_accepted h.playable h.inv hm]
      exact ih (.move h hm) hplay (by omega)
    · exact absurd hplay (by simp)

/-- Tables that look alike with their cards face down are alike. -/
theorem alike (h : Run config starts turns t) (h' : Run config starts turns' u)
    (hseats : starts.length ≤ 22) (hseen : t.seen false = u.seen false) : t.Alike u where
  answers := fun m m' hm => by
    have hanswers := accepted_of_seen (h.seen_after h' hseats hseen hm)
    have hplay (x : Table) (m : Move) :
        ((x.after m).map fun _ => ()) = (x.play m).map fun _ => () := by
      unfold Table.after
      cases x.play m <;> rfl
    rwa [hplay, hplay] at hanswers
  actor := Table.actor_of_seen hseen
  phase := Table.phase_of_seen hseen
  bets := Table.map_of_seen (fun _ => rfl) (fun _ => rfl) hseen
  contributions := Table.contributions_of_seen hseen
  live := Table.live_of_seen hseen
  board := Table.length_board_of_seen hseen
  behind := fun hgo => Table.behind_of_seen hseen (by simpa [Table.isComplete] using hgo)
  payoffs := fun hone => h.payoffs_of_seen h' hseen (Or.inr hone)

end Run

/-- **Other cards, same hand.** With 22 seats at most, for the same forced bets and stacks and any
two seeds,
* a table is created with both or refused with the same error, and
* whatever is tried on the two tables, the same but for the cards it names, leaves tables that are
  alike: they answer whatever is tried next with the same acceptance or the same error, and agree in
  actor, phase, bets, contributions, who is in the hand and how many board cards lie there, in the
  stacks until the hand is complete, and in the results if one seat is left in it;
* if the same cards are named as well, they agree in the results of every hand. -/
theorem other_cards_alike (hseats : starts.length ≤ 22)
    (seed seed' : UInt64) :
    ((Table.create config starts seed).map fun _ => ()) =
      ((Table.create config starts seed').map fun _ => ()) ∧
    ∀ t u, Table.create config starts seed = .ok t → Table.create config starts seed' = .ok u →
      ∀ moves moves' : List Move,
        (moves.map (·.veiled false) = moves'.map (·.veiled false) →
          (InPlace.attempt t moves).Alike (InPlace.attempt u moves')) ∧
        (moves = moves' →
          (InPlace.attempt t moves).payoffs = (InPlace.attempt u moves').payoffs) := by
  refine ⟨accepted_of_seen (create_seen config starts seed seed' false),
    fun t u ht hu moves moves' => ?_⟩
  have hseen (named : Bool) : t.seen named = u.seen named := by
    have hcreate := create_seen config starts seed seed' named
    rw [ht, hu] at hcreate
    exact Except.ok.inj hcreate
  have hrun := Run.create ht
  have hrun' := Run.create hu
  obtain ⟨turns, hrun_t, -⟩ := hrun.attempt moves
  obtain ⟨turns', hrun_u, -⟩ := hrun'.attempt moves'
  refine ⟨fun hmoves => ?_, fun hsame => ?_⟩
  · exact hrun_t.alike hrun_u hseats (hrun.attempt_seen hrun' hseats (hseen false) hmoves)
  · exact hrun_t.payoffs_of_seen hrun_u
      (hrun.attempt_seen hrun' hseats (hseen true) (congrArg _ hsame)) (Or.inl rfl)

/-- The first to act folds, after somebody tried to burn a card. -/
def earlyFold (first second first' second' : Card) : List Move :=
  [.hole 0 first second, .hole 1 first' second', .burn, .fold]

/-- Aces are all in against kings. -/
def acesAllIn : List Move :=
  [.hole 0 ⟨.ace, .spades⟩ ⟨.ace, .hearts⟩, .hole 1 ⟨.king, .spades⟩ ⟨.king, .hearts⟩,
    .raiseTo 1000, .checkOrCall, .burn, .board ⟨.two, .clubs⟩, .board ⟨.three, .clubs⟩,
    .board ⟨.four, .clubs⟩, .burn, .board ⟨.six, .clubs⟩, .burn, .board ⟨.nine, .hearts⟩]

/-- On two decks, the small blind is lost with aces as with a deuce, and aces beat kings. -/
theorem other_cards_alike_two_decks : ∃ t u,
    Table.create .standard [1000, 1000] 1 = .ok t ∧
      Table.create .standard [1000, 1000] 2 = .ok u ∧
      (InPlace.attempt t (earlyFold ⟨.king, .clubs⟩ ⟨.king, .hearts⟩ ⟨.ace, .clubs⟩
        ⟨.ace, .hearts⟩)).payoffs = .ok [20, -20] ∧
      (InPlace.attempt u (earlyFold ⟨.king, .clubs⟩ ⟨.king, .hearts⟩ ⟨.seven, .clubs⟩
        ⟨.two, .hearts⟩)).payoffs = .ok [20, -20] ∧
      (InPlace.attempt t acesAllIn).payoffs = .ok [1000, -1000] ∧
      (InPlace.attempt u acesAllIn).payoffs = .ok [1000, -1000] := by
  have hplayable : Playable [1000, 1000] := ⟨by decide, by decide, by decide⟩
  have ht := Table.create_of_playable .standard hplayable 1
  have hu := Table.create_of_playable .standard hplayable 2
  have hseats : [(1000 : Int), 1000].length ≤ 22 := by decide
  obtain ⟨-, hpair⟩ := other_cards_alike hseats 1 2
  have halike := (hpair _ _ ht hu
    (earlyFold ⟨.king, .clubs⟩ ⟨.king, .hearts⟩ ⟨.ace, .clubs⟩ ⟨.ace, .hearts⟩)
    (earlyFold ⟨.king, .clubs⟩ ⟨.king, .hearts⟩ ⟨.seven, .clubs⟩ ⟨.two, .hearts⟩)).1 rfl
  have hsame := (hpair _ _ ht hu acesAllIn acesAllIn).2 rfl
  have hshow : (InPlace.attempt ((Table.seated .standard [1000, 1000]).withDeck (Deck.ofSeed 1))
      acesAllIn).payoffs = .ok [1000, -1000] := by
    have hplay : ((Table.seated .standard [1000, 1000]).playAll acesAllIn).map (·.payoffs) =
        some (.ok [1000, -1000]) := by decide +kernel
    obtain ⟨t', hend, hpayoffs⟩ := Option.map_eq_some_iff.mp hplay
    obtain ⟨d, hleft⟩ := (Run.create ht).attempt_withDeck hend (by
      rw [Deck.remaining_ofSeed]
      decide)
    rw [hleft]
    exact hpayoffs
  refine ⟨_, _, ht, hu, by decide +kernel, ?_, hshow, hsame.symm.trans hshow⟩
  rw [← halike.payoffs (by decide +kernel)]
  decide +kernel

end Holdem
