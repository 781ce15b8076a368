import Holdem.Proofs.Table.Decks

/-!
# The betting of a street, read off a run

What the moves of a run say about the street being bet, without the state of the table:

* `streetTurns` are the actions since the street opened, the latest first. A card opens a street,
  so they reach back to the last card.
* `since` goes back to the last action of a kind, that one included.
* `seatsOf` are the seats that took the turns.

A move that leaves a table betting either opens a street (`opened_of_card`) or passes the turn on
(`advance_phase`), and **`Run.betting_induction`** is the induction that follows.
-/

namespace Holdem

/-! ## Turns -/

/-- Whether a turn is a raise. -/
def Turn.isRaise (u : Turn) : Bool :=
  match u.move with
  | .raiseTo _ => true
  | _ => false

/-- The turns since the street opened, the latest first. -/
def streetTurns (turns : List Turn) : List Turn := turns.takeWhile (·.move.action?.isSome)

/-- The turns back to the last one that `mark` picks out, given what came before it. -/
def since (mark : Turn → List Turn → Bool) : List Turn → List Turn
  | [] => []
  | u :: earlier => if mark u earlier then [u] else u :: since mark earlier

/-- The seats that took some turns. -/
def seatsOf (turns : List Turn) : List Nat := turns.filterMap (·.before.actor?)

theorem streetTurns_action {u : Turn} {a : Action} (h : u.move.action? = some a)
    (turns : List Turn) : streetTurns (u :: turns) = u :: streetTurns turns := by
  unfold streetTurns
  rw [List.takeWhile_cons, h]
  rfl

theorem streetTurns_card {u : Turn} (h : u.move.action? = none) (turns : List Turn) :
    streetTurns (u :: turns) = [] := by
  unfold streetTurns
  rw [List.takeWhile_cons, h]
  rfl

theorem seatsOf_cons {u : Turn} {i : Nat} (h : u.before.actor? = some i) (turns : List Turn) :
    seatsOf (u :: turns) = i :: seatsOf turns := by
  unfold seatsOf
  rw [List.filterMap_cons, h]

theorem since_marked {mark : Turn → List Turn → Bool} {u : Turn} {earlier : List Turn}
    (h : mark u earlier = true) : since mark (u :: earlier) = [u] := if_pos h

theorem since_unmarked {mark : Turn → List Turn → Bool} {u : Turn} {earlier : List Turn}
    (h : mark u earlier = false) : since mark (u :: earlier) = u :: since mark earlier :=
  if_neg (by simp [h])

namespace Table

variable {t t' : Table} {starts : List Int} {config : TableConfig}

/-! ## What moves keep -/

theorem closeRound_config (t : Table) : t.closeRound.1.config = t.config := by
  rw [closeRound_fst]
  split <;> rfl

theorem openBetting_config (t : Table) : t.openBetting.1.config = t.config := by
  rw [openBetting_fst]
  split
  · exact closeRound_config _
  · rfl

theorem advance_config (t : Table) (v : BettingView) (d : Decision) :
    (t.advance v d).1.config = t.config := by
  have hcarry := carryOut_config t v d
  rcases t.advance_cases v d with ⟨-, heq⟩ | ⟨-, -, heq⟩ | ⟨-, -, heq⟩
  · rw [heq, closeRound_config, hcarry]
  · rw [heq, closeRound_config]
    exact hcarry
  · rw [heq]
    exact hcarry

theorem config_transition {m : Move} (h : Transition t m t') : t'.config = t.config := by
  cases h with
  | hole => rfl
  | lastHole => exact openBetting_config _
  | burn => rfl
  | board => rfl
  | lastBoard => exact openBetting_config _
  | act => exact advance_config _ _ _

/-- A round that closes leaves no betting behind. -/
theorem closeRound_phase (t : Table) : t.closeRound.1.phase ≠ .betting := by
  rw [closeRound_fst]
  split
  · exact fun h => absurd (show Phase.complete = .betting from h) (by simp)
  · exact fun h => absurd (show Phase.burning = .betting from h) (by simp)

theorem openBetting_phase (h : t.openBetting.1.phase = .betting) :
    t.openingActors ≠ [] ∧ t.openBetting.1 = t.opened := by
  rw [openBetting_fst] at h ⊢
  split at h
  · exact absurd h (closeRound_phase _)
  · rename_i hsome
    exact ⟨hsome, if_neg hsome⟩

/-- A decision passes the turn on if the round goes on betting. -/
theorem advance_phase {v : BettingView} {d : Decision}
    (h : (t.advance v d).1.phase = .betting) :
    ¬ t.FoldsOut v d ∧ (t.carryOut v d).actors ≠ [] ∧ (t.advance v d).1 = t.decided v d := by
  rcases t.advance_cases v d with ⟨-, heq⟩ | ⟨-, -, heq⟩ | ⟨hno, hsome, heq⟩
  · rw [heq] at h
    exact absurd h (closeRound_phase _)
  · rw [heq] at h
    exact absurd h (closeRound_phase _)
  · exact ⟨hno, hsome, heq⟩

/-! ## Actions -/

/-- The actor takes a decision by a move. -/
structure Acting (t : Table) (m : Move) (seat : Nat) (s : Seat) (d : Decision) : Prop where
  phase : t.phase = .betting
  actor : t.actor? = some seat
  seated : t.seats[seat]? = some s
  decision : ∃ a, m.action? = some a ∧ (t.viewOf seat s).decide a = .ok d

namespace Acting

variable {m : Move} {seat : Nat} {s : Seat} {d : Decision}

theorem allows (h : Acting t m seat s d) : (t.viewOf seat s).Allows d := by
  obtain ⟨a, -, hd⟩ := h.decision
  exact allows_of_decide hd

theorem action (h : Acting t m seat s d) : ∃ a, m.action? = some a := by
  obtain ⟨a, hm, -⟩ := h.decision
  exact ⟨a, hm⟩

/-- A decision to raise is a move to raise to that amount. -/
theorem move_eq (h : Acting t m seat s d) {amount : Int} {full : Bool}
    (hd : d = .raise amount full) : m = .raiseTo amount := by
  obtain ⟨a, hm, hdecide⟩ := h.decision
  rw [hd] at hdecide
  cases m with
  | fold =>
    cases hm
    simp only [BettingView.decide] at hdecide
    split at hdecide <;> simp at hdecide
  | checkOrCall =>
    cases hm
    simp only [BettingView.decide, Except.ok.injEq] at hdecide
    split at hdecide <;> simp at hdecide
  | raiseTo n =>
    cases hm
    obtain ⟨_, heq, -⟩ := raiseTo_eq_ok_iff.mp hdecide
    rw [(Decision.raise.inj heq).1]
  | _ => simp [Move.action?] at hm

/-- A move to raise is a decision to raise. -/
theorem raises (h : Acting t m seat s d) {amount : Int} (hm : m = .raiseTo amount) :
    ∃ full, d = .raise amount full := by
  obtain ⟨a, hma, hdecide⟩ := h.decision
  rw [hm] at hma
  cases hma
  obtain ⟨full, heq, -⟩ := raiseTo_eq_ok_iff.mp hdecide
  exact ⟨full, heq⟩

theorem isRaise_iff (h : Acting t m seat s d) :
    (Turn.mk t m).isRaise = true ↔ ∃ amount full, d = .raise amount full := by
  constructor
  · intro hraise
    cases m with
    | raiseTo amount => exact ⟨amount, h.raises rfl⟩
    | _ => exact absurd hraise (by simp [Turn.isRaise])
  · rintro ⟨amount, full, hd⟩
    rw [h.move_eq hd]
    rfl

end Acting

/-- **What an accepted action does.** -/
theorem acting_of_play {m : Move} {a : Action} {r : Noted Table} (hm : m.action? = some a)
    (h : t.play m = .ok r) :
    ∃ seat s d, Acting t m seat s d ∧ r.1 = (t.advance (t.viewOf seat s) d).1 := by
  have hstep := transition_of_play h
  generalize r.1 = t' at hstep ⊢
  cases hstep with
  | act hphase hma hactor hs hd => exact ⟨_, _, _, ⟨hphase, hactor, hs, _, hma, hd⟩, rfl⟩
  | _ => exact absurd hm (by simp [Move.action?])

/-! ## How a table comes to bet -/

/-- A card that leaves a table betting opens a street, and after the first street no bet is open
then. -/
theorem opened_of_card {m : Move} (hstep : Transition t m t') (hm : m.action? = none)
    (hinv : Inv starts t) (hphase : t'.phase = .betting) :
    ∃ x : Table, x.config = t.config ∧ x.seats ≠ [] ∧ x.openingActors ≠ [] ∧
      (x.street ≠ 0 → ∀ s ∈ x.seats, s.bet = 0) ∧ t' = x.opened := by
  cases hstep with
  | hole hp => exact absurd (hp.symm.trans hphase) (by simp)
  | burn hp => exact absurd hphase (by simp)
  | board hp => exact absurd hphase (by simp)
  | act _ hma => exact absurd (hm.symm.trans hma) (by simp)
  | lastHole hp hs =>
    have hplay := (hinv.underway_of_phase (by rw [hp]; simp)).inPlay
    obtain ⟨hsome, heq⟩ := openBetting_phase hphase
    have hstreet : t.street = 0 := (hinv.of_dealing hp).2.1
    exact ⟨t.dealt _ _ _ _, rfl, seats_ne_nil (inPlay_dealt hplay hs _ _), hsome,
      fun hlater => absurd hstreet hlater, heq⟩
  | lastBoard hp =>
    have hplay := (hinv.underway_of_phase (by rw [hp]; simp)).inPlay
    obtain ⟨hsome, heq⟩ := openBetting_phase hphase
    obtain ⟨-, -, -, -, -, -, hbets⟩ := hinv.of_revealing hp
    exact ⟨{ t.shown _ with street := t.street + 1 }, rfl, seats_ne_nil hplay, hsome,
      fun _ => hbets, heq⟩

end Table

namespace Run

variable {config : TableConfig} {starts : List Int} {turns : List Turn} {t : Table}

/-- The forced bets are the same throughout a run. -/
theorem config_eq (h : Run config starts turns t) : t.config = config := by
  refine h.invariant (P := fun t => t.config = config) (fun seed t hcreate => ?_)
    fun t m t' hstep ht => (Table.config_transition hstep).trans ht
  obtain ⟨-, rfl⟩ := Table.create_eq_ok hcreate
  rfl

/-- **Induction over the betting of a street**: what holds when a street opens, and is kept when
the turn is passed on, holds of every betting table and the actions on its street. -/
theorem betting_induction {P : List Turn → Table → Prop}
    (hopen : ∀ x : Table, x.config = config → x.seats ≠ [] → x.openingActors ≠ [] →
      (x.street ≠ 0 → ∀ s ∈ x.seats, s.bet = 0) → P [] x.opened)
    (hpass : ∀ turns t m seat s d, Table.Inv starts t → Table.Acting t m seat s d → P turns t →
      P (⟨t, m⟩ :: turns) (t.decided (t.viewOf seat s) d))
    (h : Run config starts turns t) (hphase : t.phase = .betting) : P (streetTurns turns) t := by
  induction h with
  | create hcreate =>
    obtain ⟨-, rfl⟩ := Table.create_eq_ok hcreate
    exact absurd hphase (by simp)
  | @move turns t m r hrun hm ih =>
    cases ha : m.action? with
    | none =>
      obtain ⟨x, hconfig, hseats, hsome, hbets, heq⟩ :=
        Table.opened_of_card (Table.transition_of_play hm) ha hrun.inv hphase
      rw [streetTurns_card ha, heq]
      exact hopen x (hconfig.trans hrun.config_eq) hseats hsome hbets
    | some a =>
      obtain ⟨seat, s, d, hact, heq⟩ := Table.acting_of_play ha hm
      rw [heq] at hphase ⊢
      obtain ⟨-, -, hdecided⟩ := Table.advance_phase hphase
      rw [hdecided, streetTurns_action ha]
      exact hpass _ t m seat s d hrun.inv hact (ih hact.phase)

end Run

end Holdem
