import Holdem.Proofs.Table.Legality
import Holdem.Proofs.Table.Phases
import Holdem.Proofs.Table.TurnOrder

/-!
# Who is waited for without a choice

A seat to act has a decision to make if it owes chips, or if another seat in the hand has chips to
answer a raise (`HasDecision`). A round that opens asks no other seats. Later in the round the
question is not put again: seats stay in line while those before them call their last chips or fold.

* `Pressed` is what the actions on a street say about the seats in line: after a raise each of them
  owes; on a later street without a raise nobody has bet, and two seats at least have chips behind.
  `pressed_opened` is the start of a round, `Pressed.pass` one decision, `Run.pressed` the run.
* `Acting.check_without_decision`: a seat without a decision can only check. It is the last in line
  (`actors_eq_singleton`), so its check ends the round (`advance_last_check`).

Results:
* **`Run.decision_or_option`**: the actor has a decision to make at every opening, after every
  raise and on every later street; before the flop one that the others called or folded to may have
  none, and then it is the last to act and its check is the only move.
* **`lone_actor`**: there is such a table.
-/

namespace Holdem

/-- A seat that owes nothing changes nothing, unless it raises. -/
theorem Decision.change_eq_self {v : BettingView} {d : Decision} {s : Seat}
    (hmatched : v.maxBet ≤ v.bet) (hd : v.Allows d) (hno : ∀ amount full, d ≠ .raise amount full) :
    d.change v s = s := by
  cases d with
  | fold =>
    have howes : v.bet < v.maxBet := hd
    omega
  | check => rfl
  | call amount =>
    have hcall : amount = v.toCall := hd
    have hnone : s.moved amount = 0 := by
      unfold BettingView.toCall Chips.clamp at hcall
      unfold Seat.moved Chips.clamp
      omega
    show s.putIn amount = s
    unfold Seat.putIn
    rw [hnone, sub_zero, add_zero]
  | raise amount full => exact absurd rfl (hno amount full)

namespace Table

variable {t : Table} {starts : List Int} {street : List Turn} {m : Move} {seat : Nat} {s : Seat}
  {d : Decision}

/-- A seat owes chips, or another seat in the hand has chips behind. -/
def HasDecision (t : Table) (i : Nat) : Prop :=
  (∃ s, t.seats[i]? = some s ∧ s.bet < t.maxBet) ∨
    ∃ (j : Nat) (w : Seat), j ≠ i ∧ t.seats[j]? = some w ∧ w.inHand = true ∧ 0 < w.stack

theorem hasDecision_iff {i : Nat} (hs : t.seats[i]? = some s) :
    t.HasDecision i ↔ t.owes i = true ∨ ∃ j, j ≠ i ∧ t.canAct j = true := by
  unfold HasDecision
  refine or_congr ?_ (exists_congr fun j => ?_)
  · rw [owes_iff hs, hs]
    simp
  · rw [canAct_iff]
    simp only [Seat.canAct_iff, exists_and_left]

instance decidableHasDecision (t : Table) (i : Nat) : Decidable (t.HasDecision i) :=
  decidable_of_iff ((t.seats[i]?).any (fun s => s.bet < t.maxBet) = true ∨
      (t.viewOf i (.ofStack 0)).othersCanRespond = true) <| by
    unfold HasDecision
    rw [othersCanRespond_iff, Option.any_eq_true]
    simp only [decide_eq_true_eq]

/-! ## Opening -/

/-- Where two seats have chips behind, one of them is another than a given one. -/
theorem exists_other_able (h : 2 ≤ t.ableInTurn.length) (i : Nat) :
    ∃ j, j ≠ i ∧ t.canAct j = true := by
  by_contra hnone
  push Not at hnone
  have hsub : t.ableInTurn ⊆ [i] := fun j hj => List.mem_singleton.mpr <| by
    by_contra hne
    exact hnone j hne (mem_ableInTurn.mp hj)
  have hnodup : t.ableInTurn.Nodup := (nodup_clockwise t t.opener).filter _
  have hle := (List.subperm_of_subset hnodup hsub).length_le
  rw [List.length_singleton] at hle
  omega

/-- A round that opens asks seats with a decision only. -/
theorem opening_decides (h : t.seats ≠ []) {i : Nat} (hi : i ∈ t.openingActors) :
    t.owes i = true ∨ ∃ j, j ≠ i ∧ t.canAct j = true := by
  rw [openingActors_eq h] at hi
  split at hi
  · exact Or.inl (List.mem_filter.mp hi).2
  · exact Or.inr (exists_other_able (by omega) i)

theorem maxBet_eq_zero (h : t.seats ≠ []) (hbets : ∀ s ∈ t.seats, s.bet = 0) : t.maxBet = 0 := by
  obtain ⟨i, s, hs, hbet⟩ := (maxBet_spec h).2
  rw [← hbet]
  exact hbets s (List.mem_of_getElem? hs)

/-! ## Through a round -/

/-- What the actions on a street, the latest first, say about the seats still to act. -/
structure Pressed (street : List Turn) (t : Table) : Prop where
  /-- Nobody has acted yet. -/
  fresh : street = [] → ∀ i ∈ t.actors, t.owes i = true ∨ ∃ j, j ≠ i ∧ t.canAct j = true
  /-- Somebody has raised. -/
  raised : (∃ u ∈ street, u.isRaise = true) → ∀ i ∈ t.actors, t.owes i = true
  /-- Nobody has raised, and no blinds were posted on this street. -/
  quiet : t.street ≠ 0 → (∀ u ∈ street, u.isRaise = false) →
    (∀ s ∈ t.seats, s.bet = 0) ∧ ∀ i, ∃ j, j ≠ i ∧ t.canAct j = true

theorem pressed_opened (h : t.seats ≠ []) (hsome : t.openingActors ≠ [])
    (hbets : t.street ≠ 0 → ∀ s ∈ t.seats, s.bet = 0) : Pressed [] t.opened where
  fresh := fun _ _ hi => opening_decides h hi
  raised := fun ⟨_, hu, _⟩ => absurd hu List.not_mem_nil
  quiet := fun hlater _ => by
    have hzero := hbets hlater
    refine ⟨hzero, fun i => exists_other_able (t := t) ?_ i⟩
    by_contra hfew
    -- a lone seat would owe nothing
    rw [openingActors_eq h, if_pos (by omega)] at hsome
    obtain ⟨j, hj⟩ := List.exists_mem_of_ne_nil _ hsome
    obtain ⟨hable, howes⟩ := List.mem_filter.mp hj
    obtain ⟨s, hs, -⟩ := canAct_iff.mp (mem_ableInTurn.mp hable)
    rw [owes_iff hs, maxBet_eq_zero h hzero, hzero s (List.mem_of_getElem? hs)] at howes
    exact lt_irrefl 0 howes

/-- **After a raise the seats in line owe**, each of them. -/
theorem owes_of_raise {amount : Int} {full : Bool} (hs : t.seats[seat]? = some s)
    (hd : (t.viewOf seat s).Allows (.raise amount full)) {i : Nat}
    (hi : i ∈ (t.carryOut (t.viewOf seat s) (.raise amount full)).actors) :
    (t.carryOut (t.viewOf seat s) (.raise amount full)).owes i = true := by
  rw [carryOut_actors_raise, List.mem_filter, Bool.and_eq_true, bne_iff_ne] at hi
  obtain ⟨-, hne, hable⟩ := hi
  obtain ⟨w, hw, -⟩ := canAct_iff.mp hable
  have hgt : t.maxBet < amount := hd.2.2.1
  rw [owes_iff hw, maxBet_raise hs hd]
  rw [carryOut_other (v := t.viewOf seat s) hne] at hw
  exact (le_maxBet hw).trans_lt hgt

/-- Without a raise, what a seat owes does not depend on what another one decides. -/
theorem owes_carryOut_other (hs : t.seats[seat]? = some s) (hbal : s.Balanced)
    (hd : (t.viewOf seat s).Allows d) (hno : ∀ amount full, d ≠ .raise amount full) {i : Nat}
    (hi : i ≠ seat) : (t.carryOut (t.viewOf seat s) d).owes i = t.owes i := by
  unfold owes
  rw [maxBet_carryOut hs hbal hd hno, carryOut_other (v := t.viewOf seat s) hi]

/-- Where nobody has bet, a decision other than a raise leaves the seats as they are. -/
theorem carryOut_seats_quiet (hs : t.seats[seat]? = some s) (hbets : ∀ s ∈ t.seats, s.bet = 0)
    (hd : (t.viewOf seat s).Allows d) (hno : ∀ amount full, d ≠ .raise amount full) :
    (t.carryOut (t.viewOf seat s) d).seats = t.seats := by
  have hmem := List.mem_of_getElem? hs
  have hmatched : (t.viewOf seat s).maxBet ≤ (t.viewOf seat s).bet := by
    rw [viewOf_maxBet, maxBet_eq_zero (List.ne_nil_of_mem hmem) hbets]
    exact (hbets s hmem).ge
  have hsame := Decision.change_eq_self (s := s) hmatched hd hno
  apply List.ext_getElem?
  intro j
  rw [carryOut_getElem?, viewOf_seat]
  split
  · rename_i hj
    rw [← hj, hs, Option.map_some, hsame]
  · rfl

theorem Acting.ne_raise (h : Acting t m seat s d) (hfalse : (Turn.mk t m).isRaise = false) :
    ∀ amount full, d ≠ .raise amount full := by
  intro amount full hd
  rw [h.isRaise_iff.mpr ⟨amount, full, hd⟩] at hfalse
  cases hfalse

/-- A raise makes the seats in line owe, and no other decision makes up for them. -/
theorem Pressed.raised_pass (h : Pressed street t) (hinv : Inv starts t)
    (hact : Acting t m seat s d) (hraised : ∃ u ∈ ⟨t, m⟩ :: street, u.isRaise = true) {i : Nat}
    (hi : i ∈ (t.carryOut (t.viewOf seat s) d).actors) :
    (t.carryOut (t.viewOf seat s) d).owes i = true := by
  obtain ⟨hunder, -, -, -, hqueue⟩ := hinv.of_betting hact.phase
  have hbal := hunder.inPlay.balanced s (List.mem_of_getElem? hact.seated)
  cases hraise : (Turn.mk t m).isRaise with
  | true =>
    obtain ⟨amount, full, rfl⟩ := hact.isRaise_iff.mp hraise
    exact owes_of_raise hact.seated hact.allows hi
  | false =>
    have hno := hact.ne_raise hraise
    have hearlier : ∃ u ∈ street, u.isRaise = true := by
      obtain ⟨u, hu, hur⟩ := hraised
      rcases List.mem_cons.mp hu with rfl | hu
      · rw [hraise] at hur
        cases hur
      · exact ⟨u, hu, hur⟩
    rw [carryOut_actors hno] at hi
    have hne := hqueue.ne_of_mem_tail hact.actor hi
    rw [owes_carryOut_other hact.seated hbal hact.allows hno hne]
    exact h.raised hearlier i (List.mem_of_mem_tail hi)

/-- While nobody has bet on a later street, checks leave everything as it is. -/
theorem Pressed.quiet_pass (h : Pressed street t) (hact : Acting t m seat s d)
    (hlater : t.street ≠ 0) (hquiet : ∀ u ∈ ⟨t, m⟩ :: street, u.isRaise = false) :
    (∀ s' ∈ (t.carryOut (t.viewOf seat s) d).seats, s'.bet = 0) ∧
      ∀ i, ∃ j, j ≠ i ∧ (t.carryOut (t.viewOf seat s) d).canAct j = true := by
  obtain ⟨hbets, hothers⟩ := h.quiet hlater fun u hu => hquiet u (List.mem_cons_of_mem _ hu)
  have hno := hact.ne_raise (hquiet _ List.mem_cons_self)
  unfold canAct at hothers ⊢
  rw [carryOut_seats_quiet hact.seated hbets hact.allows hno]
  exact ⟨hbets, hothers⟩

/-- **One decision** keeps what the actions say. -/
theorem Pressed.pass (h : Pressed street t) (hinv : Inv starts t) (hact : Acting t m seat s d) :
    Pressed (⟨t, m⟩ :: street) (t.decided (t.viewOf seat s) d) where
  fresh := fun hnil => absurd hnil (List.cons_ne_nil _ _)
  raised := fun hraised _ hi => h.raised_pass hinv hact hraised hi
  quiet := fun hlater hquiet => by
    refine h.quiet_pass hact ?_ hquiet
    rw [← carryOut_street t (t.viewOf seat s) d]
    exact hlater

/-! ## A seat without a decision -/

/-- A seat without a decision is the last in line. -/
theorem actors_eq_singleton (hqueue : Queued t) {i : Nat} (hactor : t.actor? = some i)
    (hs : t.seats[i]? = some s) (hno : ¬ t.HasDecision i) : t.actors = [i] := by
  rw [hasDecision_iff hs] at hno
  push Not at hno
  have htail : t.actors.tail = [] := List.eq_nil_iff_forall_not_mem.mpr fun j hj =>
    hno.2 j (hqueue.ne_of_mem_tail hactor hj) (hqueue.able j (List.mem_of_mem_tail hj))
  rw [actors_eq_cons hactor, htail]

/-- While a round is bet only actions are accepted. -/
theorem action_of_betting (hphase : t.phase = .betting) {r : Noted Table} (h : t.play m = .ok r) :
    ∃ a, m.action? = some a := by
  by_cases hdue : t.phase.name = m.due
  · rw [hphase] at hdue
    cases m with
    | fold => exact ⟨_, rfl⟩
    | checkOrCall => exact ⟨_, rfl⟩
    | raiseTo amount => exact ⟨_, rfl⟩
    | _ => cases hdue
  · rw [play_of_not_due hdue] at h
    cases h

/-- **A seat without a decision decides to check**, whatever it tries. -/
theorem Acting.check_without_decision (h : Acting t m seat s d) (hno : ¬ t.HasDecision seat) :
    m = .checkOrCall ∧ d = .check := by
  rw [HasDecision, not_or] at hno
  obtain ⟨hmatched, hothers⟩ := hno
  have hle : (t.viewOf seat s).maxBet ≤ (t.viewOf seat s).bet :=
    not_lt.mp fun hlt => hmatched ⟨s, h.seated, hlt⟩
  obtain ⟨a, hm, hd⟩ := h.decision
  cases m with
  | fold =>
    cases hm
    rw [BettingView.decide, if_pos hle] at hd
    cases hd
  | checkOrCall =>
    cases hm
    have hzero : (t.viewOf seat s).toCall = 0 := by
      unfold BettingView.toCall Chips.clamp
      omega
    rw [BettingView.decide, if_pos hzero] at hd
    exact ⟨rfl, (Except.ok.inj hd).symm⟩
  | raiseTo amount =>
    cases hm
    obtain ⟨full, -, hallows⟩ := raiseTo_eq_ok_iff.mp hd
    exact absurd (othersCanRespond_iff.mp hallows.1) hothers
  | _ => cases hm

/-- The last check of a round, before the river: the bets are collected. -/
theorem advance_last_check {i : Nat} (hactors : t.actors = [i]) (hlive : 2 ≤ t.liveCount)
    (hstreet : t.street ≠ river) :
    (t.advance (t.viewOf i s) .check).1 = { t.paused with actors := [], acted := i :: t.acted } := by
  have hstay : ¬ t.FoldsOut (t.viewOf i s) .check := fun hout => by cases hout.1
  have hnone : (t.carryOut (t.viewOf i s) .check).actors = [] := congrArg List.tail hactors
  have hgo : ¬ ((t.decided (t.viewOf i s) .check).collected.liveCount ≤ 1 ∨
      (t.decided (t.viewOf i s) .check).street = river) := by
    rw [collected_liveCount]
    exact not_or.mpr ⟨Nat.not_le.mpr hlive, hstreet⟩
  rw [advance_fst, if_neg hstay, if_pos hnone, closeRound_fst, if_neg hgo]
  show { t.paused with actors := t.actors.tail, acted := i :: t.acted } = _
  rw [hactors]
  rfl

end Table

namespace Run

variable {config : TableConfig} {starts : List Int} {turns : List Turn} {t : Table}

theorem pressed (h : Run config starts turns t) (hphase : t.phase = .betting) :
    Table.Pressed (streetTurns turns) t :=
  h.betting_induction (fun _ _ hseats hsome hbets => Table.pressed_opened hseats hsome hbets)
    (fun _ _ _ _ _ _ hinv hact hpressed => hpressed.pass hinv hact) hphase

/-- **Who is waited for.** The actor of any table of a run has a decision to make, or the hand is
before the flop, somebody has acted, and nobody has raised. So it has one at every opening, after
every raise and on every later street.

If it has none, nobody else is waited for, and it may only check. Then the round is over: the bets
are collected, and a burn card is waited for. -/
theorem decision_or_option (h : Run config starts turns t) {i : Nat} (hactor : t.actor? = some i) :
    (t.HasDecision i ∨ t.street = 0 ∧ streetTurns turns ≠ [] ∧
      ∀ u ∈ streetTurns turns, u.isRaise = false) ∧
    (¬ t.HasDecision i → t.actors = [i] ∧ t.Accepts .checkOrCall ∧
      ∀ m r, t.play m = .ok r →
        m = .checkOrCall ∧ r.1 = { t.paused with actors := [], acted := i :: t.acted }) := by
  have hphase : t.phase = .betting := by
    by_contra hno
    rw [Table.actor?, h.inv.actors_of_not_betting hno] at hactor
    cases hactor
  obtain ⟨hunder, -, -, -, hqueue⟩ := h.inv.of_betting hphase
  obtain ⟨s, hs, -⟩ := Table.canAct_iff.mp (hqueue.able i (List.mem_of_head? hactor))
  have hpressed := h.pressed hphase
  have hdecides : t.HasDecision i ∨ t.street = 0 ∧ streetTurns turns ≠ [] ∧
      ∀ u ∈ streetTurns turns, u.isRaise = false := by
    rw [Table.hasDecision_iff hs]
    by_cases hraised : ∃ u ∈ streetTurns turns, u.isRaise = true
    · exact Or.inl (Or.inl (hpressed.raised hraised i (List.mem_of_head? hactor)))
    · have hquiet : ∀ u ∈ streetTurns turns, u.isRaise = false := fun u hu =>
        Bool.not_eq_true _ ▸ fun hur => hraised ⟨u, hu, hur⟩
      by_cases hstreet : t.street = 0
      · by_cases hfresh : streetTurns turns = []
        · exact Or.inl (hpressed.fresh hfresh i (List.mem_of_head? hactor))
        · exact Or.inr ⟨hstreet, hfresh, hquiet⟩
      · exact Or.inl (Or.inr ((hpressed.quiet hstreet hquiet).2 i))
  refine ⟨hdecides, fun hno => ?_⟩
  have hlast := Table.actors_eq_singleton hqueue hactor hs hno
  have hstreet : t.street ≠ Table.river := by
    rw [(hdecides.resolve_left hno).1]
    decide
  refine ⟨hlast, (Table.accepts_iff_decide hphase hactor hs rfl).mpr ⟨_, rfl⟩, fun m r hm => ?_⟩
  obtain ⟨a, ha⟩ := Table.action_of_betting hphase hm
  obtain ⟨j, w, d, hact, heq⟩ := Table.acting_of_play ha hm
  obtain rfl : i = j := Option.some.inj (hactor.symm.trans hact.actor)
  obtain ⟨hcheck, rfl⟩ := hact.check_without_decision hno
  exact ⟨hcheck, heq.trans (Table.advance_last_check hlast hunder.contested hstreet)⟩

/-- Two players of whom the small blind calls with its last chips. -/
def calledAllInMoves : List Move :=
  [.hole 0 ⟨.ace, .spades⟩ ⟨.ace, .diamonds⟩, .hole 1 ⟨.seven, .clubs⟩ ⟨.two, .diamonds⟩,
    .checkOrCall]

/-- The big blind is asked although nobody can answer it, and may only check. -/
theorem decision_or_option_called_all_in : ∃ turns t,
    Run .standard [1000, 40] turns t ∧ t.actor? = some 0 ∧ ¬ t.HasDecision 0 ∧ t.street = 0 ∧
      t.actors = [0] ∧ t.Accepts .checkOrCall ∧ ¬ t.Accepts .fold := by
  obtain ⟨turns, t, d, hrun, ⟨hactor, hno⟩, -⟩ :=
    exists_run .standard [1000, 40] calledAllInMoves
      (fun t => t.actor? = some 0 ∧ ¬ t.HasDecision 0)
      ⟨by decide, by decide, by decide⟩ (by decide +kernel) (by decide)
  obtain ⟨hdecides, honly⟩ := hrun.decision_or_option hactor
  obtain ⟨hactors, hcheck, hmoves⟩ := honly hno
  refine ⟨turns, _, hrun, hactor, hno, (hdecides.resolve_left hno).1, hactors, hcheck, ?_⟩
  rintro ⟨r, hr⟩
  cases (hmoves _ r hr).1

/-- **A lone actor**: the only seat with chips behind is to act, though it owes nothing. -/
theorem lone_actor : ∃ turns t s,
    Run .standard [1000, 40] turns t ∧ t.actor? = some 0 ∧ t.seats[0]? = some s ∧
      s.bet = t.maxBet ∧ s.stack = 960 ∧ ¬ t.HasDecision 0 := by
  obtain ⟨turns, t, d, hrun, ⟨hactor, hno, hseat⟩, -⟩ :=
    exists_run .standard [1000, 40] calledAllInMoves
      (fun t => t.actor? = some 0 ∧ ¬ t.HasDecision 0 ∧
        (t.seats[0]?).any (fun s => s.bet = t.maxBet && s.stack = 960) = true)
      ⟨by decide, by decide, by decide⟩ (by decide +kernel) (by decide)
  obtain ⟨s, hs, hchips⟩ := (Option.any_eq_true _ _).mp hseat
  rw [Bool.and_eq_true, decide_eq_true_eq, decide_eq_true_eq] at hchips
  exact ⟨turns, _, s, hrun, hactor, hs, hchips.1, hchips.2, hno⟩

end Run

end Holdem
