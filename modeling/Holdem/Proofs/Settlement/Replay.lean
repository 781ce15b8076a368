import Holdem.Proofs.Settlement.Outcome
import Holdem.Proofs.Table.Streets

/-!
# Replays of a table

What a replay does to a table, as a function of the table alone: `dealAll` is the table when the
hole cards are dealt, `conduct` the table when some streets have been played, and `results` are the
winnings read off it. A replay is a run of a table (`played_conduct`).

**`settle_result`**: what a settlement answers is made of these, whatever is in its log.
-/

namespace Holdem

namespace Settlement

/-- The move that deals a player his cards, if he has a seat and two cards. -/
def dealMove (chips : Stacks) (e : String × List Card) : Except InputError Move :=
  match chips.position? e.1, e.2 with
  | none, _ => .error (.unknownPlayer e.1)
  | some seat, [first, second] => .ok (.hole seat first second)
  | some _, cards => .error (.holeCardCount e.1 cards.length)

/-- Deals the hole cards of one player. -/
def dealEntry (chips : Stacks) (t : Table) (e : String × List Card) : Except SettleError Table := do
  let m ← (dealMove chips e).mapError .input
  (t.after m).mapError (.engine .holeCardDealing)

/-- The table when the hole cards are dealt. -/
def dealAll (seed : UInt64) (chips : Stacks) (holes : HoleCards) : Except SettleError Table := do
  let t ← (Table.create .standard chips.values seed).mapError (.engine .stateCreation)
  holes.entries.foldlM (dealEntry chips) t

/-- The table when some streets of a hand have been replayed. -/
def conduct (seed : UInt64) (chips : Stacks) (holes : HoleCards) (streets : List Street) :
    Except SettleError Table := do
  let t ← dealAll seed chips holes
  (t.playStreets streets).mapError (.engine .actionProcessing)

/-- The winnings that are read off a table. -/
def results (chips : Stacks) (t : Table) : Except SettleError Winnings :=
  (t.payoffs.mapError (.engine .payoffExtraction)).map fun payoffs =>
    .ofList (chips.keys.zip payoffs)

variable {seed : UInt64} {chips : Stacks} {holes : HoleCards} {t t' : Table}

theorem played_dealEntry {config : TableConfig} {starts : List Int} {e : String × List Card}
    (ht : Played config starts t) (h : dealEntry chips t e = .ok t') :
    Played config starts t' := by
  obtain ⟨m, -, hafter⟩ := bind_eq_ok.mp h
  exact ht.after (mapError_eq_ok.mp hafter)

theorem played_dealAll (h : dealAll seed chips holes = .ok t) :
    Played .standard chips.values t := by
  obtain ⟨t₀, hcreate, hdeal⟩ := bind_eq_ok.mp h
  exact foldlM_keeps (fun _ _ _ hb hstep => played_dealEntry hb hstep)
    (Played.create (mapError_eq_ok.mp hcreate)) hdeal

/-- **A replay is a run** of a table with the stacks of the hand. -/
theorem played_conduct {streets : List Street} (h : conduct seed chips holes streets = .ok t) :
    Played .standard chips.values t := by
  obtain ⟨t₀, hdeal, hplay⟩ := bind_eq_ok.mp h
  exact (played_dealAll hdeal).playStreets (mapError_eq_ok.mp hplay)

/-! ## Settlements on a table -/

/-- A call that changes the table. -/
theorem computes_reply (stage : Stage) (op : Table → Except TableError (Noted Table)) :
    Computes (call stage fun t : Table => t.reply (op t))
      (steps fun t => ((op t).map Prod.fst).mapError (.engine stage)) := by
  intro p
  rw [computes_call stage _ p]
  show Except.map _ (Except.mapError _ (p.state.reply (op p.state)).result) =
    Except.map _ (Except.mapError _ (Except.map Prod.fst (op p.state)))
  cases op p.state <;> rfl

/-- A call that does a move. -/
theorem computes_play (stage : Stage) (m : Move) :
    Computes (call stage fun t : Table => t.reply (t.play m))
      (steps fun t => (t.after m).mapError (.engine stage)) :=
  computes_reply stage (·.play m)

variable (seed)

theorem computes_create (stage : Stage) (config : TableConfig) (starts : List Int) :
    Computes (call stage ((Table.engine seed).create config starts))
      (steps fun _ => (Table.create config starts seed).mapError (.engine stage)) := by
  intro p
  refine (computes_reply stage (fun _ => (Table.create config starts seed).map (·, [])) p).trans ?_
  unfold steps
  cases Table.create config starts seed <;> rfl

theorem computes_dealHole (chips : Stacks) (e : String × List Card) :
    Computes (dealHole (Table.engine seed) chips e.1 e.2) (steps (dealEntry chips · e)) := by
  intro p
  obtain ⟨player, cards⟩ := e
  unfold dealHole steps dealEntry dealMove
  dsimp only
  cases chips.position? player with
  | none => rfl
  | some seat =>
    match cards with
    | [first, second] => exact computes_seq_emit (computes_play _ (.hole seat first second)) _ p
    | [] => rfl
    | [_] => rfl
    | _ :: _ :: _ :: _ => rfl

/-- The actor is asked, and then has one move to make. -/
theorem computes_playAction (a : Action) :
    Computes (playAction (Table.engine seed) a)
      (steps fun t => (t.playAction a).mapError (.engine .actionProcessing)) := by
  have hmove : ∀ (seat : Nat) (m : Move), Computes
      (call .actionProcessing (fun t : Table => t.reply (t.play m)) >>= fun _ =>
        emit (.actionApplied seat a) : Settling Table Note Unit)
      (steps fun t => (t.after m).mapError (.engine .actionProcessing)) :=
    fun seat m => computes_seq_emit (computes_play _ m) _
  intro p
  unfold playAction
  -- What is read on the way, the actor and for all in the chips behind, is passed on in `g`.
  refine (computes_bind (computes_call _ _) (g := fun seat => steps fun t =>
    (t.moveOf seat a >>= t.after).mapError (.engine .actionProcessing)) (fun seat => ?_) p).trans ?_
  · cases a with
    | fold => exact hmove seat .fold
    | checkOrCall => exact hmove seat .checkOrCall
    | raiseTo amount => exact hmove seat (.raiseTo amount)
    | allIn =>
      intro q
      refine (computes_bind (computes_readBehind _) (g := fun behind => steps fun t =>
        behind[seat]?.elim (.error (.engine .actionProcessing (.noSuchSeat seat))) fun stack =>
          (t.after (.raiseTo stack)).mapError (.engine .actionProcessing))
        (fun behind => ?_) q).trans ?_
      · cases behind[seat]? with
        | some stack => exact hmove seat (.raiseTo stack)
        | none => exact fun _ => rfl
      · show Except.map _ (q.state.behind[seat]?.elim _ _) =
          Except.map _ (Except.mapError _ (Table.moveOf _ _ .allIn >>= _))
        unfold Table.moveOf
        dsimp only
        cases q.state.behind[seat]? <;> rfl
  · show (Except.map _ (Except.mapError _ p.state.actor)) >>= _ =
      Except.map _ (Except.mapError _ (p.state.actor >>= _))
    cases p.state.actor <;> rfl

/-- A street is played move by move, and each refusal has the same stage. -/
theorem computes_playStreet (street : Street) :
    Computes (playStreet (Table.engine seed) street)
      (steps fun t => (t.playStreet street).mapError (.engine .actionProcessing)) := by
  intro p
  cases street with
  | board kind cards =>
    have hcards := computes_forM (l := cards) fun c _ =>
      computes_play .actionProcessing (.board c)
    have hstreet := computes_seq (computes_play .actionProcessing .burn)
      (computes_seq_emit hcards (.boardDealt kind cards))
    refine (hstreet p).trans ?_
    unfold Table.playStreet steps
    dsimp only
    rw [List.foldlM_cons, mapError_bind]
    simp only [List.foldlM_map, mapError_foldlM]
  | betting actions =>
    refine (computes_forM (fun a _ => computes_playAction seed a) p).trans ?_
    unfold Table.playStreet steps
    dsimp only
    rw [mapError_foldlM]

/-- The payoffs are read off the table. -/
theorem computes_results (chips : Stacks) :
    Computes (call .payoffExtraction (Table.engine seed).payoffs >>= fun payoffs =>
        pure (.ofList (chips.keys.zip payoffs)) : Settling Table Note Winnings)
      fun t => (results chips t).map (·, t) := by
  intro p
  refine (computes_bind (computes_call _ _) (fun _ => computes_pure _) p).trans ?_
  show (Except.map _ (Except.mapError _ p.state.payoffs)) >>= _ =
    Except.map _ (Except.map _ (Except.mapError _ p.state.payoffs))
  cases p.state.payoffs <;> rfl

/-- **A replay** seats the players, deals, plays the streets and reads the payoffs. -/
theorem computes_replay (chips : Stacks) (holes : HoleCards) (sequence : ActionSequence) :
    Computes (replay (Table.engine seed) chips holes sequence) fun _ =>
      conduct seed chips holes sequence.streets >>= fun t => (results chips t).map (·, t) := by
  have hdeal := computes_forM fun e (_ : e ∈ holes.entries) => computes_dealHole seed chips e
  have hplay := computes_forM fun street (_ : street ∈ sequence.streets) =>
    computes_playStreet seed street
  intro p
  refine (computes_then (computes_told _) (computes_then (computes_create seed _ _ _)
    (computes_then hdeal (computes_then hplay (computes_results seed chips)))) p).trans ?_
  unfold conduct dealAll Table.playStreets
  simp only [bind_assoc, mapError_foldlM]
  rfl

theorem replay_result (chips : Stacks) (holes : HoleCards) (sequence : ActionSequence)
    (p : Progress Table Note) :
    ((replay (Table.engine seed) chips holes sequence).run p).1 =
      conduct seed chips holes sequence.streets >>= results chips := by
  rw [(computes_replay seed chips holes sequence).result p]
  cases conduct seed chips holes sequence.streets with
  | error e => rfl
  | ok t =>
    show Except.map Prod.fst ((results chips t).map (·, t)) = results chips t
    cases results chips t <;> rfl

/-- What the settlement of a hand answers. -/
def answer (seed : UInt64) (chips : Stacks) (holes : HoleCards) (text : String) :
    Except SettleError Winnings := do
  let sequence ← (ActionSequence.ofText text).mapError .sequence
  (checkInput chips holes).mapError .input
  match shortcut? chips sequence with
  | some winnings => .ok winnings
  | none => conduct seed chips holes sequence.streets >>= results chips

/-- Winnings are read off a complete hand: the payoffs of its seats. -/
theorem results_eq_ok {winnings : Winnings} (h : results chips t = .ok winnings) :
    t.phase = .complete ∧ winnings = .ofList (chips.keys.zip (t.seats.map (·.payoff))) := by
  obtain ⟨payoffs, hpayoffs, hwinnings⟩ := map_eq_ok.mp h
  have hread := mapError_eq_ok.mp hpayoffs
  unfold Table.payoffs at hread
  split at hread
  · rename_i hcomplete
    cases hread
    exact ⟨of_decide_eq_true hcomplete, hwinnings.symm⟩
  · cases hread

/-- An answer with winnings: by the shortcut, or read off the table at the end of a replay. -/
theorem answer_eq_ok {seed : UInt64} {text : String} {winnings : Winnings}
    (h : answer seed chips holes text = .ok winnings) :
    ∃ sequence, ActionSequence.ofText text = .ok sequence ∧ checkInput chips holes = .ok () ∧
      (shortcut? chips sequence = some winnings ∨ shortcut? chips sequence = none ∧
        ∃ t, conduct seed chips holes sequence.streets = .ok t ∧
          results chips t = .ok winnings) := by
  obtain ⟨sequence, hsequence, hrest⟩ := bind_eq_ok.mp h
  obtain ⟨_, hinput, hwinnings⟩ := bind_eq_ok.mp hrest
  refine ⟨sequence, mapError_eq_ok.mp hsequence, mapError_eq_ok.mp hinput, ?_⟩
  split at hwinnings
  · rename_i hshort
    cases hwinnings
    exact Or.inl hshort
  · rename_i hnone
    exact Or.inr ⟨hnone, bind_eq_ok.mp hwinnings⟩

/-- The answer of a replay of a checked sequence. -/
theorem answer_of_replayed {seed : UInt64} {text : String} {sequence : ActionSequence}
    (hsequence : ActionSequence.ofText text = .ok sequence)
    (hinput : checkInput chips holes = .ok ()) (hnone : shortcut? chips sequence = none) :
    answer seed chips holes text = conduct seed chips holes sequence.streets >>= results chips := by
  unfold answer
  rw [hsequence, hinput]
  show (match shortcut? chips sequence with
    | some winnings => Except.ok winnings
    | none => conduct seed chips holes sequence.streets >>= results chips) = _
  rw [hnone]

theorem run_result (chips : Stacks) (holes : HoleCards) (text : String)
    (p : Progress Table Note) :
    ((run (Table.engine seed) chips holes text).run p).1 = answer seed chips holes text := by
  have hend : ∀ winnings : Winnings, Computes
      (emit (.settled winnings.entries) >>= fun _ => pure winnings : Settling Table Note Winnings)
      fun t => .ok (winnings, t) := fun winnings =>
    computes_then (computes_told _) (computes_pure winnings)
  unfold run answer
  cases ActionSequence.ofText text with
  | error e => rfl
  | ok sequence =>
    dsimp only
    cases checkInput chips holes with
    | error e => rfl
    | ok _ =>
      show _ = match shortcut? chips sequence with
        | some winnings => Except.ok winnings
        | none => conduct seed chips holes sequence.streets >>= results chips
      dsimp only
      cases shortcut? chips sequence with
      | some winnings => rfl
      | none =>
        refine ((computes_then (computes_told _) (computes_bind
          (computes_replay seed chips holes sequence) hend)).result p).trans ?_
        dsimp only
        cases conduct seed chips holes sequence.streets with
        | error e => rfl
        | ok t =>
          show Except.map Prod.fst ((results chips t).map (·, t) >>= fun r => .ok (r.1, r.2)) =
            results chips t
          cases results chips t <;> rfl

end Settlement

/-- **What a settlement answers** is made of the table alone, whatever is in its log. -/
theorem settle_result (chips : Stacks) (holes : HoleCards) (text : String) :
    (settle chips holes text).result = Settlement.answer Deck.defaultSeed chips holes text := by
  rw [← Settlement.run_result _ _ _ _ ⟨.vacant, []⟩]
  unfold settle settleOn
  generalize (Settlement.run _ chips holes text).run _ = r
  obtain ⟨_ | _, _⟩ := r <;> rfl

end Holdem
