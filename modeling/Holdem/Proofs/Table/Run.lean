import Holdem.Table.Play

/-!
# Runs of a table

`Move` names the operations of a table and `Table.play` does one. A `Run` starts with a created
table and goes on with moves that are accepted, whatever they are; a refused move changes nothing,
so it leaves no trace. `Turn` is what a run remembers of a move: the table before it.

`Transition` lists what an accepted move can do, one constructor per branch, and
**`transition_of_play`** says that there is nothing else. Every invariant of a table is proved by
cases on it. The tables on the way have names of their own: `dealt`, `shown`, `opened`,
`collected`, and for an action `carryOut` of the model.
-/

namespace Holdem

/-- The operations of a table. -/
inductive Move
  | hole (seat : Nat) (first second : Card)
  | burn
  | board (card : Card)
  | fold
  | checkOrCall
  | raiseTo (amount : Int)
  deriving DecidableEq

/-- The decision that a move carries, if it is one of the actor. -/
def Move.action? : Move → Option Action
  | fold => some .fold
  | checkOrCall => some .checkOrCall
  | raiseTo amount => some (.raiseTo amount)
  | _ => none

namespace Table

/-- Does an operation. -/
def play (t : Table) : Move → Except TableError (Noted Table)
  | .hole seat first second => t.dealHole seat first second
  | .burn => t.burn
  | .board c => t.dealBoard c
  | .fold => t.fold
  | .checkOrCall => t.checkOrCall
  | .raiseTo amount => t.raiseTo amount

/-- Whether an operation is accepted. -/
def Accepts (t : Table) (m : Move) : Prop := ∃ r, t.play m = .ok r

theorem not_accepts {t : Table} {m : Move} {cause : TableError} (h : t.play m = .error cause) :
    ¬ t.Accepts m := by
  rintro ⟨r, hr⟩
  rw [h] at hr
  exact absurd hr (by simp)

theorem play_of_action {m : Move} {a : Action} (h : m.action? = some a) (t : Table) :
    t.play m = t.act a := by
  cases m <;> simp only [Move.action?, Option.some.injEq, reduceCtorEq] at h <;> subst h <;> rfl

/-! ## The tables on the way -/

/-- The table after a seat got its cards. -/
def dealt (t : Table) (seat : Nat) (s : Seat) (first second : Card) : Table :=
  { t with
    deck := ((t.deck.take first).2.take second).2
    seats := t.seats.set seat { s with hole := some (first, second) } }

/-- The table after a board card was shown. -/
def shown (t : Table) (c : Card) : Table :=
  { t with deck := (t.deck.take c).2, board := t.board ++ [c] }

/-- The table when a round of betting opens. -/
def opened (t : Table) : Table :=
  { t with
    phase := .betting
    minIncrement := t.config.minBet
    acted := []
    raiseClosed := []
    actors := t.openingActors }

@[simp]
theorem opened_seats (t : Table) : t.opened.seats = t.seats := rfl

@[simp]
theorem opened_actors (t : Table) : t.opened.actors = t.openingActors := rfl

/-- The table with the bets collected. -/
def collected (t : Table) : Table := { t with seats := t.seats.map Seat.collect }

/-- A collected table that waits for a burn card. -/
def paused (t : Table) : Table := { t.collected with phase := .burning }

theorem closeRound_fst (t : Table) :
    t.closeRound.1 =
      if t.collected.liveCount ≤ 1 ∨ t.street = river then t.collected.finish.1 else t.paused := by
  show (if t.collected.liveCount ≤ 1 ∨ t.street = river then t.collected.finish
    else (t.paused, [])).1 = _
  split <;> rfl

theorem openBetting_fst (t : Table) :
    t.openBetting.1 = if t.openingActors = [] then t.opened.closeRound.1 else t.opened := by
  unfold openBetting
  simp only
  split <;> rfl

/-- The table after a decision was carried out and noted down. -/
def decided (t : Table) (v : BettingView) (d : Decision) : Table :=
  { t.carryOut v d with acted := v.seat :: (t.carryOut v d).acted }

@[simp]
theorem decided_actors (t : Table) (v : BettingView) (d : Decision) :
    (t.decided v d).actors = (t.carryOut v d).actors := rfl

@[simp]
theorem decided_minIncrement (t : Table) (v : BettingView) (d : Decision) :
    (t.decided v d).minIncrement = (t.carryOut v d).minIncrement := rfl

@[simp]
theorem decided_acted (t : Table) (v : BettingView) (d : Decision) :
    (t.decided v d).acted = v.seat :: (t.carryOut v d).acted := rfl

@[simp]
theorem decided_raiseClosed (t : Table) (v : BettingView) (d : Decision) :
    (t.decided v d).raiseClosed = (t.carryOut v d).raiseClosed := rfl

@[simp]
theorem viewOf_seat (t : Table) (seat : Nat) (s : Seat) : (t.viewOf seat s).seat = seat := rfl

@[simp]
theorem viewOf_maxBet (t : Table) (seat : Nat) (s : Seat) :
    (t.viewOf seat s).maxBet = t.maxBet := rfl

/-- Whether a decision ends the hand by leaving one seat. -/
def FoldsOut (t : Table) (v : BettingView) (d : Decision) : Prop :=
  d = .fold ∧ (t.carryOut v d).liveCount = 1

/-- **What a decision leads to**: the hand ends, the round ends, or it goes on. -/
theorem advance_cases (t : Table) (v : BettingView) (d : Decision) :
    t.FoldsOut v d ∧ (t.advance v d).1 = (t.carryOut v d).closeRound.1 ∨
      ¬ t.FoldsOut v d ∧ (t.carryOut v d).actors = [] ∧
        (t.advance v d).1 = (t.decided v d).closeRound.1 ∨
      ¬ t.FoldsOut v d ∧ (t.carryOut v d).actors ≠ [] ∧ (t.advance v d).1 = t.decided v d := by
  unfold advance FoldsOut
  simp only
  split
  · rename_i h
    exact Or.inl ⟨h, rfl⟩
  · rename_i h
    split
    · rename_i ha
      exact Or.inr (Or.inl ⟨h, ha, rfl⟩)
    · rename_i ha
      exact Or.inr (Or.inr ⟨h, ha, rfl⟩)

instance decidableFoldsOut (t : Table) (v : BettingView) (d : Decision) :
    Decidable (t.FoldsOut v d) :=
  inferInstanceAs (Decidable (d = .fold ∧ (t.carryOut v d).liveCount = 1))

theorem advance_fst (t : Table) (v : BettingView) (d : Decision) :
    (t.advance v d).1 =
      if t.FoldsOut v d then (t.carryOut v d).closeRound.1
      else if (t.carryOut v d).actors = [] then (t.decided v d).closeRound.1
      else t.decided v d := by
  rcases t.advance_cases v d with ⟨hout, heq⟩ | ⟨hno, hnone, heq⟩ | ⟨hno, hsome, heq⟩
  · rw [heq, if_pos hout]
  · rw [heq, if_neg hno, if_pos hnone]
  · rw [heq, if_neg hno, if_neg hsome]

/-! ## What a move can do -/

/-- The branches of an accepted move. -/
inductive Transition (t : Table) : Move → Table → Prop
  | hole {seat : Nat} {s : Seat} {first second : Card} (hphase : t.phase = .dealing)
      (hs : t.seats[seat]? = some s) (hhole : s.hole = none)
      (hmore : (t.dealt seat s first second).allDealt = false) :
      Transition t (.hole seat first second) (t.dealt seat s first second)
  | lastHole {seat : Nat} {s : Seat} {first second : Card} (hphase : t.phase = .dealing)
      (hs : t.seats[seat]? = some s) (hhole : s.hole = none)
      (hall : (t.dealt seat s first second).allDealt = true) :
      Transition t (.hole seat first second) (t.dealt seat s first second).openBetting.1
  | burn {c : Card} {rest : Deck} (hphase : t.phase = .burning)
      (hdraw : t.deck.draw = some (c, rest)) :
      Transition t .burn { t with deck := rest, phase := .revealing (boardCount (t.street + 1)) }
  | board {c : Card} {n : Nat} (hphase : t.phase = .revealing n) (hmore : 1 < n) :
      Transition t (.board c) { t.shown c with phase := .revealing (n - 1) }
  | lastBoard {c : Card} {n : Nat} (hphase : t.phase = .revealing n) (hlast : n ≤ 1) :
      Transition t (.board c) { t.shown c with street := t.street + 1 }.openBetting.1
  | act {m : Move} {a : Action} {seat : Nat} {s : Seat} {d : Decision}
      (hphase : t.phase = .betting) (hm : m.action? = some a) (hactor : t.actor? = some seat)
      (hs : t.seats[seat]? = some s) (hd : (t.viewOf seat s).decide a = .ok d) :
      Transition t m (t.advance (t.viewOf seat s) d).1

theorem transition_of_dealHole {t : Table} {seat : Nat} {first second : Card} {r : Noted Table}
    (h : t.dealHole seat first second = .ok r) : Transition t (.hole seat first second) r.1 := by
  unfold dealHole at h
  split at h
  · rename_i hphase
    cases hs : t.seats[seat]? with
    | none => rw [hs] at h; exact absurd h (by simp)
    | some s =>
      rw [hs] at h
      cases hhole : s.hole with
      | some cards => simp [Seat.giveCards?, hhole] at h
      | none =>
        simp only [Seat.giveCards?, hhole] at h
        split at h
        · rename_i hall
          cases h
          exact .lastHole hphase hs hhole hall
        · rename_i hmore
          cases h
          exact .hole hphase hs hhole (Bool.not_eq_true _ ▸ hmore)
  · exact absurd h (by simp [wrongPhase])

theorem transition_of_burn {t : Table} {r : Noted Table} (h : t.burn = .ok r) :
    Transition t .burn r.1 := by
  unfold burn at h
  split at h
  · rename_i hphase
    cases hdraw : t.deck.draw with
    | none => rw [hdraw] at h; exact absurd h (by simp)
    | some e =>
      rw [hdraw] at h
      cases h
      exact .burn hphase hdraw
  · exact absurd h (by simp [wrongPhase])

theorem transition_of_dealBoard {t : Table} {c : Card} {r : Noted Table}
    (h : t.dealBoard c = .ok r) : Transition t (.board c) r.1 := by
  unfold dealBoard at h
  split at h
  · rename_i n hphase
    simp only at h
    split at h
    · rename_i hmore
      cases h
      exact .board hphase hmore
    · rename_i hlast
      cases h
      exact .lastBoard hphase (Nat.le_of_not_lt hlast)
  · exact absurd h (by simp [wrongPhase])

/-- The view of the actor. -/
theorem view_eq_ok {t : Table} {v : BettingView} (h : t.view = .ok v) :
    t.phase = .betting ∧ ∃ seat s, t.actor? = some seat ∧ t.seats[seat]? = some s ∧
      v = t.viewOf seat s := by
  unfold view at h
  split at h
  · rename_i hphase
    cases hactor : t.actor? with
    | none => rw [hactor] at h; exact absurd h (by simp)
    | some seat =>
      rw [hactor] at h
      cases hs : t.seats[seat]? with
      | none => simp [hs] at h
      | some s =>
        simp only [hs, Except.ok.injEq] at h
        exact ⟨hphase, seat, s, rfl, hs, h.symm⟩
  · exact absurd h (by simp [wrongPhase])

theorem view_of_actor {t : Table} {seat : Nat} {s : Seat} (hphase : t.phase = .betting)
    (hactor : t.actor? = some seat) (hs : t.seats[seat]? = some s) :
    t.view = .ok (t.viewOf seat s) := by
  unfold view
  rw [if_pos hphase, hactor]
  simp only [hs]

theorem transition_of_act {t : Table} {m : Move} {a : Action} {r : Noted Table}
    (hm : m.action? = some a) (h : t.act a = .ok r) : Transition t m r.1 := by
  unfold act at h
  cases hv : t.view with
  | error e => rw [hv] at h; exact absurd h (by simp)
  | ok v =>
    obtain ⟨hphase, seat, s, hactor, hs, rfl⟩ := view_eq_ok hv
    simp only [hv] at h
    cases hd : (t.viewOf seat s).decide a with
    | error e => rw [hd] at h; exact absurd h (by simp)
    | ok d =>
      simp only [hd, Except.ok.injEq] at h
      rw [← h]
      exact .act hphase hm hactor hs hd

/-- **An accepted move is one of the transitions.** -/
theorem transition_of_play {t : Table} {m : Move} {r : Noted Table} (h : t.play m = .ok r) :
    Transition t m r.1 := by
  cases m with
  | hole seat first second => exact transition_of_dealHole h
  | burn => exact transition_of_burn h
  | board c => exact transition_of_dealBoard h
  | fold => exact transition_of_act rfl h
  | checkOrCall => exact transition_of_act rfl h
  | raiseTo amount => exact transition_of_act rfl h

/-- **Every transition is that of an accepted move.** -/
theorem play_of_transition {t t' : Table} {m : Move} (h : Transition t m t') :
    ∃ notes, t.play m = .ok (t', notes) := by
  cases h with
  | @hole seat s first second hphase hs hhole hmore =>
    refine ⟨(t.takeCard first).2 ++ ((t.takeCard first).1.takeCard second).2, ?_⟩
    show t.dealHole _ _ _ = _
    unfold dealHole Seat.giveCards?
    rw [if_pos hphase, hs]
    simp only [hhole]
    exact if_neg (ne_true_of_eq_false hmore)
  | @lastHole seat s first second hphase hs hhole hall =>
    refine ⟨(t.takeCard first).2 ++ ((t.takeCard first).1.takeCard second).2 ++
      (t.dealt seat s first second).openBetting.2, ?_⟩
    show t.dealHole _ _ _ = _
    unfold dealHole Seat.giveCards?
    rw [if_pos hphase, hs]
    simp only [hhole]
    exact if_pos hall
  | burn hphase hdraw =>
    refine ⟨[], ?_⟩
    show t.burn = _
    unfold burn
    rw [if_pos hphase, hdraw]
  | @board c n hphase hmore =>
    refine ⟨(t.takeCard c).2, ?_⟩
    show t.dealBoard _ = _
    unfold dealBoard
    rw [hphase]
    exact if_pos hmore
  | @lastBoard c n hphase hlast =>
    refine ⟨(t.takeCard c).2 ++ { t.shown c with street := t.street + 1 }.openBetting.2, ?_⟩
    show t.dealBoard _ = _
    unfold dealBoard
    rw [hphase]
    exact if_neg (Nat.not_lt.mpr hlast)
  | @act m a seat s d hphase hm hactor hs hd =>
    refine ⟨(t.advance (t.viewOf seat s) d).2, ?_⟩
    rw [play_of_action hm]
    unfold act
    simp only [view_of_actor hphase hactor hs, hd]

/-- The actor's move is accepted if the rules make a decision of it. -/
theorem accepts_iff_decide {t : Table} {m : Move} {a : Action} {seat : Nat} {s : Seat}
    (hphase : t.phase = .betting) (hactor : t.actor? = some seat) (hs : t.seats[seat]? = some s)
    (hm : m.action? = some a) : t.Accepts m ↔ ∃ d, (t.viewOf seat s).decide a = .ok d := by
  unfold Accepts
  rw [play_of_action hm]
  unfold act
  simp only [view_of_actor hphase hactor hs]
  cases (t.viewOf seat s).decide a with
  | error e => simp
  | ok d => simp

end Table

/-! ## Runs -/

/-- A move of a run, with the table before it. -/
structure Turn where
  before : Table
  move : Move

/-- **A run of a table**: its moves, the latest first, and the table that they lead to. -/
inductive Run (config : TableConfig) (starts : List Int) : List Turn → Table → Prop
  | create {seed : UInt64} {t : Table} (h : Table.create config starts seed = .ok t) :
      Run config starts [] t
  | move {turns : List Turn} {t : Table} {m : Move} {r : Noted Table}
      (h : Run config starts turns t) (hm : t.play m = .ok r) :
      Run config starts (⟨t, m⟩ :: turns) r.1

/-- The table was reached by a run. -/
def Played (config : TableConfig) (starts : List Int) (t : Table) : Prop :=
  ∃ turns, Run config starts turns t

/-- **What holds at the start and is kept by every transition holds throughout a run.** -/
theorem Run.invariant {config : TableConfig} {starts : List Int} {P : Table → Prop}
    (hstart : ∀ seed t, Table.create config starts seed = .ok t → P t)
    (hkeep : ∀ t m t', Table.Transition t m t' → P t → P t') {turns : List Turn} {t : Table}
    (h : Run config starts turns t) : P t := by
  induction h with
  | create h => exact hstart _ _ h
  | move _ hm ih => exact hkeep _ _ _ (Table.transition_of_play hm) ih

end Holdem
