import Holdem.Proofs.Table.Trace

/-!
# Turn order

Whose turn it is, told by the seats and by the actions on the street. A seat is *pending* when it
is in the hand, has chips behind, and has not acted since the street opened or was last raised; a
raise counts as the raiser's action.

* `InTurn`: the list of actors holds the pending seats, clockwise from some seat. `inTurn_pass`
  says that after an action it does so clockwise from the seat that acted.
* `openBetting_turn`: who is the first to act when a street opens.

Results: `Run.inTurn` for every betting table; `Run.acted_nodup`: between two raises no seat acts
twice; and **`Run.turn_order`**, which puts the two together for every accepted move.
-/

namespace Holdem

/-- The seats that acted since the street opened or was last raised, from the actions on it. -/
def actedSinceRaise (street : List Turn) : List Nat := seatsOf (since (fun u _ => u.isRaise) street)

/-- Whether a seat has yet to act, after the given actions on the street. -/
def Table.pending (t : Table) (street : List Turn) (i : Nat) : Bool :=
  t.canAct i && !(actedSinceRaise street).contains i

/-- The seat from which the street is bet that a card opens: before the flop seat 1 of two, and else
the third, or the first of fewer; later the first. -/
def Move.opener (seats : Nat) : Move → Nat
  | .hole .. => if seats = 2 then 1 else 2 % seats
  | _ => 0

/-- The actors are the pending seats, in turn from some seat on. -/
def InTurn (street : List Turn) (t : Table) : Prop :=
  ∃ first, t.actors = (t.clockwise first).filter (t.pending street)

namespace Table

variable {t : Table} {street : List Turn} {m : Move} {seat : Nat} {s : Seat} {d : Decision}

theorem pending_iff {i : Nat} :
    t.pending street i = true ↔ t.canAct i = true ∧ i ∉ actedSinceRaise street := by
  unfold pending
  rw [Bool.and_eq_true, Bool.not_eq_true', List.contains_eq_mem, decide_eq_false_iff_not]

/-- Everybody able to is pending when a street opens. -/
theorem pending_nil (t : Table) : t.pending [] = t.canAct := by
  funext i
  unfold pending actedSinceRaise
  simp [since, seatsOf]

/-! ## Opening -/

/-- A round that has actors has all the seats able to for actors. -/
theorem openingActors_eq_able (h : t.seats ≠ []) (hsome : t.openingActors ≠ []) :
    t.openingActors = t.ableInTurn := by
  have hsub := openingActors_sublist h
  rw [openingActors_eq h] at hsome hsub ⊢
  split at hsome
  · rename_i hlone
    rw [if_pos hlone] at hsub ⊢
    have hpos := List.length_pos_iff.mpr hsome
    have hle := hsub.length_le
    exact hsub.eq_of_length (by omega)
  · rename_i hmany
    exact if_neg hmany

theorem inTurn_opened (h : t.seats ≠ []) (hsome : t.openingActors ≠ []) : InTurn [] t.opened := by
  refine ⟨t.opener, ?_⟩
  rw [opened_actors, openingActors_eq_able h hsome, pending_nil]
  rfl

/-- **Who is the first to act on a street**: of two or more seats able to, the first one from the
opener; else a seat that owes chips. -/
theorem openBetting_turn (h : t.seats ≠ []) :
    (2 ≤ t.ableInTurn.length →
      t.openBetting.1.phase = .betting ∧ t.openBetting.1.actor? = t.ableInTurn.head?) ∧
    (t.ableInTurn.length < 2 → ∀ i,
      (t.openBetting.1.phase = .betting ∧ t.openBetting.1.actor? = some i) ↔
        t.canAct i = true ∧ t.owes i = true) := by
  have hopened : t.openingActors ≠ [] → t.openBetting.1 = t.opened := fun hsome => by
    rw [openBetting_fst, if_neg hsome]
  constructor
  · intro htwo
    have hactors : t.openingActors = t.ableInTurn := by
      rw [openingActors_eq h, if_neg (by omega)]
    have hsome : t.openingActors ≠ [] := by
      rw [hactors]
      exact List.length_pos_iff.mp (by omega)
    rw [hopened hsome]
    refine ⟨rfl, ?_⟩
    rw [actor?, opened_actors, hactors]
  · intro hfew i
    have hactors : t.openingActors = t.ableInTurn.filter t.owes := by
      rw [openingActors_eq h, if_pos (by omega)]
    constructor
    · rintro ⟨hphase, hactor⟩
      rw [(openBetting_phase hphase).2] at hactor
      have hmem : i ∈ t.openingActors := List.mem_of_head? hactor
      rw [hactors, List.mem_filter] at hmem
      exact ⟨mem_ableInTurn.mp hmem.1, hmem.2⟩
    · rintro ⟨hact, howes⟩
      have hmem : i ∈ t.ableInTurn := mem_ableInTurn.mpr hact
      have hlone : t.ableInTurn = [i] := by
        have hpos := List.length_pos_of_mem hmem
        obtain ⟨j, hj⟩ := List.length_eq_one_iff.mp (show t.ableInTurn.length = 1 by omega)
        rw [hj, List.mem_singleton] at hmem
        rw [hj, hmem]
      have honly : t.openingActors = [i] := by
        rw [hactors, hlone, List.filter_cons, if_pos howes]
        rfl
      rw [hopened (by rw [honly]; simp)]
      refine ⟨rfl, ?_⟩
      rw [actor?, opened_actors, honly]
      rfl

/-! ## Passing the turn on -/

theorem carryOut_clockwise (t : Table) (v : BettingView) (d : Decision) (first : Nat) :
    (t.carryOut v d).clockwise first = t.clockwise first := by
  unfold clockwise
  rw [carryOut_seats, List.length_modify]

theorem Acting.isRaise_eq_false (h : Acting t m seat s d)
    (hno : ∀ amount full, d ≠ .raise amount full) : (Turn.mk t m).isRaise = false := by
  rw [← Bool.not_eq_true, h.isRaise_iff]
  rintro ⟨amount, full, hd⟩
  exact hno amount full hd

/-- Who has acted after a raise: the raiser. -/
theorem Acting.acted_raise (h : Acting t m seat s d) (hraise : (Turn.mk t m).isRaise = true) :
    actedSinceRaise (⟨t, m⟩ :: street) = [seat] := by
  unfold actedSinceRaise
  rw [since_marked hraise, seatsOf_cons h.actor]
  rfl

/-- Who has acted after another action: one more seat. -/
theorem Acting.acted_stay (h : Acting t m seat s d) (hno : (Turn.mk t m).isRaise = false) :
    actedSinceRaise (⟨t, m⟩ :: street) = seat :: actedSinceRaise street := by
  unfold actedSinceRaise
  rw [since_unmarked hno, seatsOf_cons h.actor]

theorem Acting.mem_acted (h : Acting t m seat s d) :
    seat ∈ actedSinceRaise (⟨t, m⟩ :: street) := by
  cases hraise : (Turn.mk t m).isRaise with
  | true =>
    rw [h.acted_raise hraise]
    exact List.mem_singleton_self seat
  | false =>
    rw [h.acted_stay hraise]
    exact List.mem_cons_self

/-- Who is pending after an action can be read off the seats before it: the action changes the seat
that takes it and no other, and that one has acted. -/
theorem Acting.pending_carryOut (h : Acting t m seat s d) (street : List Turn) :
    (t.carryOut (t.viewOf seat s) d).pending (⟨t, m⟩ :: street) =
      t.pending (⟨t, m⟩ :: street) := by
  funext i
  by_cases hi : i = seat
  · have hacted : seat ∈ actedSinceRaise (⟨t, m⟩ :: street) := h.mem_acted
    unfold pending
    rw [hi, List.contains_eq_mem, decide_eq_true hacted, Bool.not_true, Bool.and_false,
      Bool.and_false]
  · unfold pending
    rw [carryOut_canAct_other (v := t.viewOf seat s) hi]

/-- The actor is pending. -/
theorem pending_actor (hturn : InTurn street t) (hactor : t.actor? = some seat) :
    t.pending street seat = true := by
  obtain ⟨first, hactors⟩ := hturn
  have hmem : seat ∈ t.actors := List.mem_of_head? hactor
  rw [hactors] at hmem
  exact (List.mem_filter.mp hmem).2

/-- **After an action the pending seats act, clockwise from the seat that acted.** -/
theorem inTurn_pass (hturn : InTurn street t) (h : Acting t m seat s d) :
    (t.carryOut (t.viewOf seat s) d).actors =
      (t.clockwise (seat + 1)).filter (t.pending (⟨t, m⟩ :: street)) := by
  rw [← h.pending_carryOut street]
  by_cases hraise : ∃ amount full, d = .raise amount full
  · obtain ⟨amount, full, rfl⟩ := hraise
    have hacted : actedSinceRaise (⟨t, m⟩ :: street) = [seat] :=
      h.acted_raise (h.isRaise_iff.mpr ⟨amount, full, rfl⟩)
    rw [carryOut_actors_raise, carryOut_clockwise]
    refine List.filter_congr fun i _ => ?_
    unfold pending
    rw [hacted, Bool.and_comm]
    by_cases hi : i = seat <;> simp [hi, viewOf]
  · push Not at hraise
    obtain ⟨first, hactors⟩ := hturn
    have hacted : actedSinceRaise (⟨t, m⟩ :: street) = seat :: actedSinceRaise street :=
      h.acted_stay (h.isRaise_eq_false hraise)
    rw [carryOut_actors hraise]
    rw [actors_eq_cons h.actor] at hactors
    refine (filter_clockwise_split hactors.symm ?_ fun j hj => ?_).symm
    · rw [← Bool.not_eq_true, pending_iff, not_and, not_not]
      exact fun _ => h.mem_acted
    · unfold pending
      rw [carryOut_canAct_other (v := t.viewOf seat s) hj, hacted]
      simp [hj]

theorem closeRound_liveCount (t : Table) : t.closeRound.1.liveCount = t.liveCount := by
  rw [closeRound_fst]
  split
  · exact liveCount_congr (live_congr (paidOut_stake t))
  · exact liveCount_congr (live_congr (t := t.paused) (collected_stake t))

/-- **When an action leaves the round open**: somebody is to act, and two seats are in the hand. -/
theorem betting_after_iff {starts : List Int} (hinv : Inv starts t) (h : Acting t m seat s d) :
    (t.advance (t.viewOf seat s) d).1.phase = .betting ↔
      (t.carryOut (t.viewOf seat s) d).actors ≠ [] ∧
        (t.advance (t.viewOf seat s) d).1.liveCount ≠ 1 := by
  obtain ⟨hunder, -, -, -, hqueue⟩ := hinv.of_betting h.phase
  constructor
  · intro hphase
    obtain ⟨hno, hsome, heq⟩ := advance_phase hphase
    have hable := hqueue.able_actor h.actor h.seated
    have hplay := inPlay_carryOut hunder.inPlay h.seated hable h.allows
    have htwo : 2 ≤ (t.decided (t.viewOf seat s) d).liveCount :=
      contested_carryOut hplay hunder.contested hno
    refine ⟨hsome, ?_⟩
    rw [heq]
    omega
  · rintro ⟨hsome, hlive⟩
    rcases t.advance_cases (t.viewOf seat s) d with ⟨hout, heq⟩ | ⟨-, hnone, -⟩ | ⟨-, -, heq⟩
    · rw [heq, closeRound_liveCount] at hlive
      exact absurd hout.2 hlive
    · exact absurd hnone hsome
    · rw [heq]
      exact (carryOut_phase t _ d).trans h.phase

/-! ## Cards that open a street -/

theorem canAct_congr {t' : Table} (h : t.seats.map (·.canAct) = t'.seats.map (·.canAct)) :
    t.canAct = t'.canAct := by
  funext i
  have hi : (t.seats[i]?).map (·.canAct) = (t'.seats[i]?).map (·.canAct) := by
    rw [← List.getElem?_map, h, List.getElem?_map]
  have hany : ∀ o : Option Seat, o.any (·.canAct) = (o.map (·.canAct)).any id := fun o => by
    cases o <;> rfl
  unfold canAct
  rw [hany, hi, ← hany]

theorem owes_congr {t' : Table} (h : t.seats.map (·.bet) = t'.seats.map (·.bet)) :
    t.owes = t'.owes := by
  funext i
  unfold owes maxBet
  rw [← List.getElem?_map, h, List.getElem?_map]

theorem owes_iff {i : Nat} (hs : t.seats[i]? = some s) :
    t.owes i = true ↔ s.bet < t.maxBet := by
  unfold owes
  rw [hs, decide_eq_true_eq]
  rfl

/-- Whether a card opened a street: no other card of its kind is waited for. -/
def Opens : Move → Table → Prop
  | .hole .., t' => t'.phase ≠ .dealing
  | .board _, t' => ∀ n, t'.phase ≠ .revealing n
  | _, _ => False

/-- **How a card opens a street**: the betting opens on the seats as they were. -/
theorem opening_of_play {starts : List Int} {r : Noted Table} (hinv : Inv starts t)
    (h : t.play m = .ok r) (hopens : Opens m r.1) :
    ∃ x : Table, r.1 = x.openBetting.1 ∧ x.seats ≠ [] ∧ x.canAct = t.canAct ∧ x.owes = t.owes ∧
      x.ableInTurn = (t.clockwise (m.opener t.seats.length)).filter t.canAct := by
  have hstep := transition_of_play h
  generalize r.1 = t' at hstep hopens ⊢
  have hseats : t.phase ≠ .complete → t.seats ≠ [] := fun hp =>
    seats_ne_nil (hinv.underway_of_phase hp).inPlay
  cases hstep with
  | hole hp => exact absurd hp hopens
  | burn => exact absurd hopens id
  | board hp => exact absurd rfl (hopens _)
  | act _ hm => cases m <;> first | exact absurd hopens id | simp [Move.action?] at hm
  | @lastHole seat s first second hp hs =>
    have hstreet := (hinv.of_dealing hp).2.1
    have hmap : ∀ {α : Type} (g : Seat → α), (∀ s, g (holding (first, second) s) = g s) →
        (t.dealt seat s first second).seats.map g = t.seats.map g := fun g hg => by
      rw [dealt_seats hs, map_modify_of_eq seat hg]
    have hact := canAct_congr (hmap (·.canAct) fun _ => rfl)
    have hlen : (t.dealt seat s first second).seats.length = t.seats.length := List.length_set
    refine ⟨t.dealt seat s first second, rfl, ?_, hact, owes_congr (hmap (·.bet) fun _ => rfl), ?_⟩
    · rw [← List.length_pos_iff, hlen, List.length_pos_iff]
      exact hseats (by rw [hp]; simp)
    · have hopener : (t.dealt seat s first second).opener =
          (Move.hole seat first second).opener t.seats.length := by
        show (if t.street = 0 then preflopOpener _ else 0) = _
        rw [if_pos hstreet, hlen]
        rfl
      unfold ableInTurn clockwise
      rw [hact, hopener, hlen]
  | @lastBoard c n hp =>
    exact ⟨{ t.shown c with street := t.street + 1 }, rfl, hseats (by rw [hp]; simp), rfl, rfl, rfl⟩

end Table

/-! ## Throughout a run -/

namespace Run

variable {config : TableConfig} {starts : List Int} {turns : List Turn} {t : Table}

/-- On every betting table the actors are the pending seats, in turn. -/
theorem inTurn (h : Run config starts turns t) (hphase : t.phase = .betting) :
    InTurn (streetTurns turns) t := by
  refine h.betting_induction (fun x _ hseats hsome _ => Table.inTurn_opened hseats hsome)
    (fun street t m seat s d _ hact hturn => ⟨seat + 1, ?_⟩) hphase
  have hactors := Table.inTurn_pass hturn hact
  rw [← hact.pending_carryOut, ← Table.carryOut_clockwise t (t.viewOf seat s) d] at hactors
  exact hactors

/-- **Between two raises no seat acts twice.** -/
theorem acted_nodup (h : Run config starts turns t) :
    (actedSinceRaise (streetTurns turns)).Nodup := by
  induction h with
  | create => exact List.nodup_nil
  | @move turns t m r hrun hm ih =>
    cases ha : m.action? with
    | none =>
      rw [streetTurns_card ha]
      exact List.nodup_nil
    | some a =>
      obtain ⟨seat, s, d, hact, -⟩ := Table.acting_of_play ha hm
      rw [streetTurns_action ha]
      cases hraise : (Turn.mk t m).isRaise with
      | true =>
        rw [hact.acted_raise hraise]
        exact List.nodup_singleton seat
      | false =>
        rw [hact.acted_stay hraise]
        have hpending := Table.pending_actor (hrun.inTurn hact.phase) hact.actor
        exact List.nodup_cons.mpr ⟨(Table.pending_iff.mp hpending).2, ih⟩

/-- **Turn order and the closing of rounds.** Of an accepted move of any run:

If it is a card that opens a street, then of two or more seats able to act the first one from the
opener is to act; with fewer, a seat is to act iff it is able to and owes chips.

If it is an action, then the seat that took it was pending. Afterwards the next seat to act is the
first pending one clockwise from it, and the round is over exactly if none is pending or one seat
is left in the hand. The seats in the hand that are pending are the same before and after the
chips of the action have moved.

At no time has a seat acted twice since the street opened or was last raised. -/
theorem turn_order (h : Run config starts turns t) {m : Move} {r : Noted Table}
    (hm : t.play m = .ok r) :
    (Table.Opens m r.1 →
      let able := (t.clockwise (m.opener t.seats.length)).filter t.canAct
      (2 ≤ able.length → r.1.phase = .betting ∧ r.1.actor? = able.head?) ∧
      (able.length < 2 → ∀ i, (r.1.phase = .betting ∧ r.1.actor? = some i) ↔
        ∃ s, t.seats[i]? = some s ∧ s.inHand = true ∧ 0 < s.stack ∧ s.bet < t.maxBet)) ∧
    (∀ a, m.action? = some a →
      let pending := t.pending (streetTurns (⟨t, m⟩ :: turns))
      ∃ i, t.actor? = some i ∧ t.pending (streetTurns turns) i = true ∧
        (r.1.phase = .betting ↔ (∃ j, pending j = true) ∧ r.1.liveCount ≠ 1) ∧
        (r.1.phase = .betting → r.1.pending (streetTurns (⟨t, m⟩ :: turns)) = pending ∧
          r.1.actor? = (t.clockwise (i + 1)).find? pending)) ∧
    (actedSinceRaise (streetTurns (⟨t, m⟩ :: turns))).Nodup := by
  refine ⟨fun hopens => ?_, fun a ha => ?_, (Run.move h hm).acted_nodup⟩
  · obtain ⟨x, heq, hseats, hact, howes, hable⟩ := Table.opening_of_play h.inv hm hopens
    obtain ⟨hmany, hfew⟩ := Table.openBetting_turn hseats
    rw [heq, ← hable]
    refine ⟨hmany, fun hlone i => (hfew hlone i).trans ?_⟩
    rw [hact, howes, Table.canAct_iff]
    constructor
    · rintro ⟨⟨s, hs, hcan⟩, howe⟩
      obtain ⟨hlive, hstack⟩ := Seat.canAct_iff.mp hcan
      exact ⟨s, hs, hlive, hstack, (Table.owes_iff hs).mp howe⟩
    · rintro ⟨s, hs, hlive, hstack, hbet⟩
      exact ⟨⟨s, hs, Seat.canAct_iff.mpr ⟨hlive, hstack⟩⟩, (Table.owes_iff hs).mpr hbet⟩
  · obtain ⟨seat, s, d, hact, heq⟩ := Table.acting_of_play ha hm
    have hturn := h.inTurn hact.phase
    have hactors := Table.inTurn_pass hturn hact
    have hsome : (t.carryOut (t.viewOf seat s) d).actors ≠ [] ↔
        ∃ j, t.pending (⟨t, m⟩ :: streetTurns turns) j = true := by
      rw [hactors, ne_eq, List.filter_eq_nil_iff]
      push Not
      refine exists_congr fun j => and_iff_right_of_imp fun hj => ?_
      exact Table.mem_clockwise.mpr (Table.lt_of_canAct (Table.pending_iff.mp hj).1)
    rw [streetTurns_action (u := ⟨t, m⟩) ha, heq]
    refine ⟨seat, hact.actor, Table.pending_actor hturn hact.actor, ?_, fun hphase => ?_⟩
    · rw [← hsome]
      exact Table.betting_after_iff h.inv hact
    · obtain ⟨-, -, hdecided⟩ := Table.advance_phase hphase
      rw [hdecided]
      refine ⟨hact.pending_carryOut _, ?_⟩
      rw [Table.actor?, Table.decided_actors, hactors, List.head?_filter]

/-- Seat 2 raises and seats 0 and 1 call; the flop is checked by seat 0, and seat 1 bets. -/
def betFlopMoves : List Move :=
  [.hole 0 ⟨.ace, .spades⟩ ⟨.ace, .hearts⟩, .hole 1 ⟨.king, .spades⟩ ⟨.king, .hearts⟩,
    .hole 2 ⟨.two, .spades⟩ ⟨.seven, .hearts⟩, .raiseTo 100, .checkOrCall, .checkOrCall, .burn,
    .board ⟨.three, .clubs⟩, .board ⟨.four, .clubs⟩, .board ⟨.eight, .diamonds⟩, .checkOrCall,
    .raiseTo 50]

/-- After the bet seat 2 is the first pending seat. -/
theorem turn_order_flop_bet : ∃ turns t r,
    Run .standard [500, 500, 500] turns t ∧ t.play (.raiseTo 50) = .ok r ∧ r.1.phase = .betting ∧
      r.1.actor? = some 2 ∧ ∃ i, t.actor? = some i ∧
        (t.clockwise (i + 1)).find? (t.pending (streetTurns (⟨t, .raiseTo 50⟩ :: turns))) =
          some 2 := by
  obtain ⟨turns, t, d, hrun, ⟨hphase, hactor⟩, hmoves⟩ :=
    exists_run .standard [500, 500, 500] betFlopMoves
      (fun t => t.phase = .betting ∧ t.actor? = some 2)
      ⟨by decide, by decide, by decide⟩ (by decide +kernel) (by decide)
  generalize ht : t.withDeck d = t' at hrun
  cases hrun with
  | create => exact absurd hmoves (by simp [betFlopMoves])
  | @move turns t₀ m r h hm =>
    obtain rfl : m = .raiseTo 50 := (List.cons.inj hmoves).1
    obtain ⟨-, hact, -⟩ := h.turn_order hm
    obtain ⟨i, hi, -, -, hnext⟩ := hact _ rfl
    have hphase' : r.1.phase = .betting := ht ▸ hphase
    have hactor' : r.1.actor? = some 2 := ht ▸ hactor
    exact ⟨turns, t₀, r, h, hm, hphase', hactor', i, hi, (hnext hphase').2.symm.trans hactor'⟩

end Run

end Holdem
