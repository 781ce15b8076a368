import Holdem.Proofs.InPlace.Table
import Holdem.Proofs.Table.Completion

/-!
# A table in place does what the table does

Nothing overflows. The starting stacks are added up once, when the table is created; every later
amount is part of that total, by the invariant of the table.

* A round that opens or closes does so in place as it does on a copy (`openBetting_eq`,
  `closeRound_eq`); paying out is safe as nobody ends with more than the total (`finish_eq`).
* `dealHole_eq`, `burn_eq`, `dealBoard_eq`, `act_eq`: an operation either gives the same table or
  halts for the same cause, and then it has changed nothing.
* **`play_eq`** and **`create_eq`** are the agreement for every move and for every list of stacks.
-/

namespace Holdem.InPlace

open Table (Inv Closing Opening Finished)

variable {α : Type} {starts : List Int} {t : Table}

/-- What is to come of a move: the table after it, or the table itself and the cause for which it
was refused. -/
def answer (t : Table) : Except TableError (Noted Table) → EStateM.Result Halt Table Unit
  | .ok r => .ok () r.1
  | .error cause => .error (.refused cause) t

/-- What is to come of looking at a table. -/
def look (t : Table) : Except TableError α → EStateM.Result Halt Table α
  | .ok a => .ok a t
  | .error cause => .error (.refused cause) t

/-! ## Chips that fit -/

theorem funded_of_inPlay (hp : Playable starts) {seats : List Seat} (h : InPlay starts seats) :
    ∀ s ∈ seats, s.Funded := by
  intro s hs
  exact ⟨h.balanced s hs, (Table.start_lt_most hp (start_mem h.starts_eq hs)).le⟩

/-- The contributions of a hand in play can be counted. -/
theorem payable_of_inPlay (hp : Playable starts) (h : InPlay starts t.seats) :
    Payable t.contributions := by
  constructor
  · intro c hc
    obtain ⟨s, hs, rfl⟩ := List.mem_map.mp hc
    exact Seat.contribution_nonneg (h.balanced s hs)
  · have hle : Chips.total t.contributions ≤ Chips.total (t.seats.map (·.start)) :=
      Chips.total_map_le fun s hs => by
        have hbal := h.balanced s hs
        have hbalance := hbal.balance
        have hstack := hbal.stack_nonneg
        omega
    rw [h.starts_eq] at hle
    exact hle.trans hp.fits

/-- Nobody ends a hand with more than all seats came with. -/
theorem stack_le_of_finished (hp : Playable starts) (h : Finished starts t) {s : Seat}
    (hs : s ∈ t.seats) : s.stack ≤ Chips.most := by
  have hnonneg : ∀ n ∈ t.seats.map (·.stack), 0 ≤ n := by
    intro n hn
    obtain ⟨s', hs', rfl⟩ := List.mem_map.mp hn
    obtain ⟨i, hi⟩ := List.mem_iff_getElem?.mp hs'
    exact h.stack_nonneg hi
  have hle := Chips.le_total hnonneg (List.mem_map_of_mem hs)
  rw [h.total_stack] at hle
  exact hle.trans hp.fits

/-! ## Rounds -/

/-- The pots of the collected bets can be awarded. -/
theorem contested_collected (hfin : Finished starts t.paidOut) :
    Pot.Contested t.collected.pots t.collected.seats.length := by
  have hstake := (Table.collected_stake t).trans (Table.paidOut_stake t).symm
  have hlen := congrArg List.length hstake
  rw [List.length_map, List.length_map] at hlen
  rw [Table.pots_congr hstake, hlen]
  exact hfin.contested

/-- The seats are paid one by one. -/
theorem mapM_addChips (hp : Playable starts) (h : InPlay starts t.seats)
    (hfin : Finished starts t.paidOut) :
    (t.collected.seats.zip t.collected.winnings).mapM (fun (s, amount) => addChips s amount) =
      .ok t.paidOut.seats := by
  have hpaid : t.paidOut.seats =
      (t.collected.seats.zip t.collected.winnings).map fun (s, amount) => s.addChips amount := by
    rw [List.map_zip_eq_zipWith]
    rfl
  rw [hpaid]
  refine mapM_eq fun (s, amount) hmem => ?_
  obtain ⟨hs, hamount⟩ := List.of_mem_zip hmem
  obtain ⟨s₀, hs₀, rfl⟩ := List.mem_map.mp hs
  have hend : s₀.collect.addChips amount ∈ t.paidOut.seats := by
    rw [hpaid]
    exact List.mem_map.mpr ⟨_, hmem, rfl⟩
  exact addChips_eq (h.balanced s₀ hs₀).stack_nonneg
    (Pot.award_nonneg (contested_collected hfin) _ amount hamount)
    (stack_le_of_finished hp hfin hend)

/-- **Paying out** is safe. -/
theorem finish_eq (hp : Playable starts) (h : InPlay starts t.seats)
    (hfin : Finished starts t.paidOut) : finish.run t.collected = .ok () t.paidOut := by
  have hstake := Table.collected_stake t
  have hpayable : Payable t.collected.contributions := by
    rw [Table.contributions_congr hstake]
    exact payable_of_inPlay hp h
  have hcontributions : t.collected.seats.mapM contribution = .ok t.collected.contributions :=
    mapM_eq fun s hs => by
      obtain ⟨s₀, hs₀, rfl⟩ := List.mem_map.mp hs
      obtain ⟨hbal, hstart⟩ := funded_of_inPlay hp h s₀ hs₀
      exact contribution_eq ⟨Seat.balanced_collect hbal, hstart⟩
  have hpots : sidePots t.collected.contributions t.collected.live = .ok t.collected.pots :=
    sidePots_eq hpayable _
  -- the pots hold what was put in, so what is won of them can be counted too
  have htotal : Chips.total (t.collected.pots.map (·.amount)) ≤ Chips.most := by
    have hsum : Chips.total (t.collected.pots.map (·.amount)) = _ :=
      Pot.total_sidePots hpayable.nonneg t.collected.live
    rw [hsum]
    exact hpayable.fits
  have hwon : award t.collected.pots t.collected.seats.length t.collected.strength =
      .ok t.collected.winnings := award_eq (contested_collected hfin) htotal _
  unfold finish
  rw [run_get_bind, run_compute_bind hcontributions, run_get_bind, run_compute_bind hpots,
    run_get_bind, run_get_bind, run_compute_bind hwon, run_get_bind,
    run_compute_bind (mapM_addChips hp h hfin)]
  rfl

/-- **The end of a round.** -/
theorem closeRound_eq (hp : Playable starts) (h : Closing starts t) :
    closeRound.run t = .ok () t.closeRound.1 := by
  have hcollect : t.seats.mapM collect = .ok t.collected.seats :=
    mapM_eq fun s hs => collect_eq (funded_of_inPlay hp h.inPlay s hs)
  unfold closeRound
  rw [run_get_bind, run_compute_bind hcollect, run_modify_bind, run_get_bind, run_get_bind]
  show (if t.collected.liveCount ≤ 1 ∨ t.street = Table.river then finish
    else modify fun t => { t with phase := .burning }).run t.collected = _
  rw [Table.closeRound_fst]
  split
  · rename_i hend
    have hfin : Finished starts t.paidOut := by
      have hinv := Table.inv_closeRound h
      rw [Table.closeRound_fst, if_pos hend] at hinv
      exact hinv.finished_of_phase rfl
    exact finish_eq hp h.inPlay hfin
  · rfl

/-- **The beginning of a round.** -/
theorem openBetting_eq (hp : Playable starts) (h : Opening starts t) :
    openBetting.run t = .ok () t.openBetting.1 := by
  unfold openBetting
  rw [run_modify_bind, run_modify_bind, run_modify_bind, run_modify_bind, run_modify_bind,
    run_get_bind]
  show (if t.openingActors = [] then closeRound else pure ()).run t.opened = _
  rw [Table.openBetting_fst]
  split
  · rename_i hnone
    exact closeRound_eq hp (h.closing hnone)
  · rfl

/-! ## Cards -/

@[simp]
theorem run_expect_true (operation : Operation) (t : Table) :
    (expect operation true).run t = .ok () t := rfl

@[simp]
theorem run_expect_false (operation : Operation) (t : Table) :
    (expect operation false).run t =
      .error (.refused (.wrongPhase operation.text t.phase.name.text)) t := rfl

theorem run_seatAt {i : Nat} {s : Seat} (hs : t.seats[i]? = some s) :
    (seatAt i).run t = .ok s t := by
  unfold seatAt
  rw [run_get_bind, hs]
  rfl

/-- A seat without hole cards gets some. -/
theorem run_giveCards {seat : Nat} {s : Seat} (hs : t.seats[seat]? = some s)
    (hhole : s.hole = none) (cards : Card × Card) :
    (giveCards seat cards).run t =
      .ok () { t with seats := t.seats.set seat { s with hole := some cards } } := by
  unfold giveCards Seat.giveCards?
  simp only [EStateM.run_bind, run_seatAt hs, hhole]
  rfl

/-- **Hole cards.** The second check never fails: taking the cards gave the seat none. -/
theorem dealHole_eq (hp : Playable starts) (hinv : Inv starts t) (seat : Nat)
    (first second : Card) :
    (dealHole seat first second).run t = answer t (t.dealHole seat first second) := by
  unfold dealHole
  by_cases hphase : t.phase = .dealing
  · simp only [EStateM.run_bind, EStateM.run_get, hphase, decide_true, run_expect_true]
    cases hs : t.seats[seat]? with
    | none =>
      simp only [Table.dealHole, hphase, hs, if_true]
      rfl
    | some s =>
      cases hhole : s.hole with
      | some cards =>
        simp only [Table.dealHole, hphase, hs, Seat.giveCards?, hhole, if_true]
        rfl
      | none =>
        have hgive : (giveCards seat (first, second)).run
            { t with deck := ((t.deck.take first).2.take second).2 } =
              .ok () (t.dealt seat s first second) :=
          run_giveCards (t := { t with deck := ((t.deck.take first).2.take second).2 }) hs hhole _
        simp only [hhole, Option.isSome_none, Bool.false_eq_true, if_false, EStateM.run_bind,
          takeCard, EStateM.run_modify, hgive, EStateM.run_get]
        split
        · rename_i hall
          obtain ⟨notes, hplay⟩ := Table.play_of_transition (.lastHole hphase hs hhole hall)
          rw [openBetting_eq hp (Table.opening_dealt hinv hphase hs hall)]
          exact congrArg (answer t) hplay.symm
        · rename_i hmore
          obtain ⟨notes, hplay⟩ := Table.play_of_transition
            (.hole hphase hs hhole (Bool.not_eq_true _ ▸ hmore))
          exact congrArg (answer t) hplay.symm
  · simp only [EStateM.run_bind, EStateM.run_get, hphase, decide_false, run_expect_false,
      Table.dealHole, if_false]
    rfl

/-- **Burning.** There is a count of board cards for the street that comes next. -/
theorem burn_eq (hinv : Inv starts t) : burn.run t = answer t t.burn := by
  unfold burn Table.burn
  by_cases hphase : t.phase = .burning
  · obtain ⟨-, -, -, -, hstreet, -⟩ := hinv.of_burning hphase
    have hcount : [0, 3, 1, 1][t.street + 1]? = some (Table.boardCount (t.street + 1)) := by
      unfold Table.river at hstreet
      unfold Table.boardCount
      match t.street, hstreet with
      | 0, _ => rfl
      | 1, _ => rfl
      | 2, _ => rfl
    simp only [EStateM.run_bind, EStateM.run_get, hphase, decide_true, run_expect_true, if_true]
    cases hdraw : t.deck.draw with
    | none => rfl
    | some e =>
      simp only [EStateM.run_bind, EStateM.run_modify, EStateM.run_get, hcount]
      rfl
  · simp only [EStateM.run_bind, EStateM.run_get, hphase, decide_false, run_expect_false, if_false]
    rfl

/-- **Board cards.** -/
theorem dealBoard_eq (hp : Playable starts) (hinv : Inv starts t) (c : Card) :
    (dealBoard c).run t = answer t (t.dealBoard c) := by
  unfold dealBoard Table.dealBoard
  simp only [EStateM.run_bind, EStateM.run_get]
  cases hphase : t.phase with
  | revealing remaining =>
    simp only [EStateM.run_bind, takeCard, EStateM.run_modify]
    by_cases hmore : 1 < remaining
    · simp only [hmore, if_true]
      rfl
    · have hopening := Table.opening_shown hinv hphase (Nat.le_of_not_lt hmore) c
      simp only [hmore, if_false]
      exact openBetting_eq hp hopening
  | _ => rfl

/-! ## Actions -/

/-- Looking at the table as the actor. -/
theorem view_eq (hinv : Inv starts t) : view.run t = look t t.view := by
  unfold view
  by_cases hphase : t.phase = .betting
  · obtain ⟨-, -, -, hactors, hqueue⟩ := hinv.of_betting hphase
    -- somebody is to act, and has a seat: no position is missed
    obtain ⟨seat, hactor⟩ := Table.exists_actor hactors
    obtain ⟨s, hs, -⟩ := Table.canAct_iff.mp (hqueue.able seat (List.mem_of_head? hactor))
    rw [Table.view_of_actor hphase hactor hs]
    simp only [EStateM.run_bind, EStateM.run_get, hphase, decide_true, run_expect_true, hactor,
      run_seatAt hs]
    rfl
  · simp only [EStateM.run_bind, EStateM.run_get, hphase, decide_false, run_expect_false,
      Table.view, if_false]
    rfl

/-- A view of chips that can be counted. -/
structure Countable (v : BettingView) : Prop where
  bet_nonneg : 0 ≤ v.bet
  stack_nonneg : 0 ≤ v.stack
  available_le : v.available ≤ Chips.most
  maxBet_nonneg : 0 ≤ v.maxBet
  maxBet_le : v.maxBet ≤ Chips.most

theorem available_eq {v : BettingView} (h : Countable v) :
    add v.bet v.stack = .ok v.available := by
  obtain ⟨hbet, hstack, havailable, -, -⟩ := h
  have hmost := most_nonneg
  unfold BettingView.available at havailable
  exact add_eq (by omega) havailable

theorem toCall_eq {v : BettingView} (h : Countable v) : toCall v = .ok v.toCall := by
  obtain ⟨hbet, hstack, havailable, hmax, hmaxle⟩ := h
  unfold BettingView.available at havailable
  unfold toCall
  rw [sub_eq (by omega) (by omega)]
  exact clamp_eq hstack _

theorem raiseTo_eq {v : BettingView} (h : Countable v) (amount : Int) :
    raiseTo v amount = (v.raiseTo amount).mapError .refused := by
  unfold raiseTo BettingView.raiseTo
  rw [available_eq h]
  split
  · rfl
  · split
    · rfl
    · show (if _ then _ else if _ then _ else _) = _
      split
      · rfl
      · split <;> rfl

/-- **The rules**: what an action comes to. -/
theorem decision_eq {v : BettingView} (h : Countable v) (a : Action) :
    decision v a = (v.decide a).mapError .refused := by
  cases a with
  | fold =>
    simp only [decision, BettingView.decide]
    split <;> rfl
  | checkOrCall =>
    unfold decision
    rw [toCall_eq h]
    rfl
  | raiseTo amount => exact raiseTo_eq h amount
  | allIn =>
    unfold decision
    rw [available_eq h]
    exact raiseTo_eq h v.available

theorem run_changeSeat {i : Nat} {s : Seat} {f : Seat → Except Halt Seat} {g : Seat → Seat}
    (hs : t.seats[i]? = some s) (hf : f s = .ok (g s)) :
    (changeSeat i f).run t = .ok () (t.updateSeat i g) := by
  unfold changeSeat
  rw [run_get_bind, run_compute_bind (changeAt_eq hs hf)]
  rfl

/-- The actor sees chips that can be counted. -/
theorem countable_viewOf (hp : Playable starts) (h : InPlay starts t.seats) {seat : Nat} {s : Seat}
    (hs : t.seats[seat]? = some s) : Countable (t.viewOf seat s) := by
  have hfunded := funded_of_inPlay hp h
  obtain ⟨⟨hstack, hbet, hcommitted, hbalance⟩, hstart⟩ := hfunded s (List.mem_of_getElem? hs)
  obtain ⟨-, i, w, hw, hmax⟩ := Table.maxBet_spec (Table.seats_ne_nil h)
  obtain ⟨⟨hwstack, hwbet, hwcommitted, hwbalance⟩, hwstart⟩ := hfunded w (List.mem_of_getElem? hw)
  unfold Seat.contribution at hbalance hwbalance
  refine ⟨hbet, hstack, ?_, ?_, ?_⟩
  · show s.bet + s.stack ≤ Chips.most
    omega
  · show 0 ≤ t.maxBet
    omega
  · show t.maxBet ≤ Chips.most
    omega

variable {seat : Nat} {s : Seat} {d : Decision}

/-- **A decision that the rules allow** is carried out. -/
theorem carryOut_eq (hs : t.seats[seat]? = some s) (hfunded : s.Funded)
    (hv : Countable (t.viewOf seat s)) (hd : (t.viewOf seat s).Allows d) :
    (carryOut (t.viewOf seat s) d).run t = .ok () (t.carryOut (t.viewOf seat s) d) := by
  cases d with
  | fold =>
    have hfold := run_changeSeat (f := fun s => pure s.fold) (g := Seat.fold) hs rfl
    simp only [carryOut, EStateM.run_bind, Table.viewOf_seat, hfold, passActor, EStateM.run_modify]
    rfl
  | check => rfl
  | call amount =>
    have hput := run_changeSeat (f := (putIn · amount)) (g := (·.putIn amount)) hs
      (putIn_eq hfunded amount)
    simp only [carryOut, EStateM.run_bind, Table.viewOf_seat, hput, passActor, EStateM.run_modify]
    rfl
  | raise amount full =>
    obtain ⟨-, -, hgt, hle, -, -⟩ := hd
    obtain ⟨hbet, hstack, havailable, hmax, -⟩ := hv
    unfold BettingView.available at hle havailable
    have hmore : sub amount (t.viewOf seat s).bet = .ok (amount - (t.viewOf seat s).bet) :=
      sub_eq (by omega) (by omega)
    have hincrement : sub amount (t.viewOf seat s).maxBet =
        .ok (amount - (t.viewOf seat s).maxBet) := sub_eq (by omega) (by omega)
    have hput := run_changeSeat (f := (putIn · (amount - (t.viewOf seat s).bet)))
      (g := (·.putIn (amount - (t.viewOf seat s).bet))) hs (putIn_eq hfunded _)
    simp only [carryOut, EStateM.run_bind, hmore, run_compute_ok, Table.viewOf_seat, hput]
    cases full with
    | true =>
      simp only [if_true, EStateM.run_bind, hincrement, run_compute_ok, EStateM.run_modify]
      rfl
    | false => rfl

/-- **Actions.** -/
theorem act_eq (hp : Playable starts) (hinv : Inv starts t) (a : Action) :
    (act a).run t = answer t (t.act a) := by
  unfold act Table.act
  simp only [EStateM.run_bind, view_eq hinv]
  cases hview : t.view with
  | error cause => rfl
  | ok v =>
    obtain ⟨hphase, seat, s, hactor, hs, rfl⟩ := Table.view_eq_ok hview
    have hplay := (hinv.of_betting hphase).1.inPlay
    have hv := countable_viewOf hp hplay hs
    simp only [look, decision_eq hv]
    cases hd : (t.viewOf seat s).decide a with
    | error cause => rfl
    | ok d =>
      have hallows := allows_of_decide hd
      have hcarry := carryOut_eq hs (funded_of_inPlay hp hplay s (List.mem_of_getElem? hs)) hv
        hallows
      simp only [Except.mapError, run_compute_ok, hcarry, EStateM.run_get]
      unfold Table.advance
      simp only [Table.viewOf_seat]
      split
      · rename_i hout
        exact closeRound_eq hp
          (Table.closing_carryOut hinv hphase hactor hs hallows (Or.inl hout))
      · simp only [EStateM.run_bind, EStateM.run_modify, EStateM.run_get]
        split
        · rename_i hnone
          exact closeRound_eq hp
            (Table.closing_carryOut hinv hphase hactor hs hallows (Or.inr hnone)).decided
        · rfl

/-! ## Moves and results -/

/-- **Every move** gives the same table in place, or is refused for the same cause and changes
nothing. -/
theorem play_eq (hp : Playable starts) (hinv : Inv starts t) (m : Move) :
    (play m).run t = answer t (t.play m) := by
  cases m with
  | hole seat first second => exact dealHole_eq hp hinv seat first second
  | burn => exact burn_eq hinv
  | board c => exact dealBoard_eq hp hinv c
  | fold => exact act_eq hp hinv .fold
  | checkOrCall => exact act_eq hp hinv .checkOrCall
  | raiseTo amount => exact act_eq hp hinv (.raiseTo amount)

/-- The net results of a hand can be counted, and so can they on the way. -/
theorem payoff_eq_of_inv (hp : Playable starts) (hinv : Inv starts t) {s : Seat}
    (hs : s ∈ t.seats) :
    payoff s = .ok s.payoff ∧ contribution s = .ok s.contribution := by
  cases hinv with
  | underway h =>
    have hfunded := funded_of_inPlay hp h.inPlay s hs
    refine ⟨?_, contribution_eq hfunded⟩
    obtain ⟨⟨hstack, hbet, hcommitted, hbalance⟩, hstart⟩ := hfunded
    unfold Seat.contribution at hbalance
    exact payoff_eq hstack (by omega) (by omega) hstart
  | finished _ _ h =>
    have hstart := start_mem h.starts_eq hs
    have hle := (Table.start_lt_most hp hstart).le
    have hpos := hp.pos _ hstart
    have hstaked := h.staked s hs
    obtain ⟨i, hi⟩ := List.mem_iff_getElem?.mp hs
    refine ⟨payoff_eq (h.stack_nonneg hi) (stack_le_of_finished hp h hs) hpos.le hle, ?_⟩
    have hmost := most_nonneg
    unfold Seat.contribution at hstaked
    exact add_eq (by omega) (by omega)

/-- **The results.** -/
theorem payoffs_eq (hp : Playable starts) (hinv : Inv starts t) :
    payoffs.run t = look t t.payoffs := by
  have hmap : t.seats.mapM payoff = .ok (t.seats.map (·.payoff)) :=
    mapM_eq fun s hs => (payoff_eq_of_inv hp hinv hs).1
  unfold payoffs Table.payoffs
  simp only [EStateM.run_bind, EStateM.run_get]
  split
  · simp only [EStateM.run_bind, EStateM.run_get, hmap]
    rfl
  · rfl

/-! ## Creation -/

theorem ante_eq {s : Seat} (h : s.Funded) (config : TableConfig) :
    ante config s = .ok (Table.ante config s) := by
  unfold ante Table.ante
  split
  · rw [putIn_eq h]
    exact collect_eq (funded_putIn h _)
  · rfl

/-- A forced bet of a seat that is there. -/
theorem changeAt_putIn {seats : List Seat} (h : ∀ s ∈ seats, s.Funded) {i : Nat}
    (hi : i < seats.length) (amount : Int) :
    changeAt seats i (putIn · amount) = .ok (seats.modify i (·.putIn amount)) :=
  changeAt_eq (List.getElem?_eq_getElem hi) (putIn_eq (h _ (List.getElem_mem hi)) amount)

theorem funded_modify_putIn {seats : List Seat} (h : ∀ s ∈ seats, s.Funded) (i : Nat)
    (amount : Int) : ∀ s ∈ seats.modify i (·.putIn amount), s.Funded := by
  intro s' hs'
  rcases mem_modify hs' with hs' | ⟨s, hs, -, rfl⟩
  · exact h s' hs'
  · exact funded_putIn (h s hs) amount

theorem blindSeats_lt {seats : Nat} (h : 2 ≤ seats) :
    (blindSeats seats).1 < seats ∧ (blindSeats seats).2 < seats := by
  unfold blindSeats
  split <;> simp only <;> omega

/-- Antes and blinds are posted in place. -/
theorem posted_eq (config : TableConfig) (hp : Playable starts) :
    posted config starts = .ok (Table.posted config starts) := by
  obtain ⟨hsmall, hbig⟩ := blindSeats_lt hp.two
  have hstack : ∀ s ∈ starts, (Seat.ofStack s).Funded := fun s hs =>
    ⟨Seat.balanced_ofStack (hp.pos s hs).le, (Table.start_lt_most hp hs).le⟩
  have hanted : starts.mapM (fun s => ante config (Seat.ofStack s)) =
      .ok (Table.anted config starts) := mapM_eq fun s hs => ante_eq (hstack s hs) config
  have hfunded : ∀ s ∈ Table.anted config starts, s.Funded := by
    intro s hs
    obtain ⟨stack, hmem, rfl⟩ := List.mem_map.mp hs
    refine ⟨(Table.anted_of_mem hp hs).balanced, ?_⟩
    rw [Table.ante_start]
    exact (hstack stack hmem).start_le
  have hlen : (Table.anted config starts).length = starts.length := List.length_map _
  unfold posted
  rw [hanted]
  show (changeAt (Table.anted config starts) _ _ >>= _) = _
  rw [changeAt_putIn hfunded (hlen.symm ▸ hsmall)]
  exact changeAt_putIn (funded_modify_putIn hfunded _ _)
    (by rw [List.length_modify, hlen]; exact hbig) _

/-- **Creation**: the same table in place, or refused for the same cause, whatever the stacks. -/
theorem create_eq (config : TableConfig) (starts : List Int) (seed : UInt64) :
    create config starts seed = (Table.create config starts seed).mapError .refused := by
  unfold create
  by_cases htwo : starts.length < 2
  · unfold Table.create
    rw [if_pos htwo, if_pos htwo]
    rfl
  rw [if_neg htwo]
  cases hbad : Table.badStack? starts with
  | some e =>
    unfold Table.create
    rw [if_neg htwo, hbad]
    rfl
  | none =>
    have hpos := Table.badStack?_eq_none_iff.mp hbad
    have hnonneg : ∀ s ∈ starts, 0 ≤ s := fun s hs => (hpos s hs).le
    by_cases hfits : Chips.total starts ≤ Chips.most
    · have hp : Playable starts := ⟨Nat.le_of_not_lt htwo, hpos, hfits⟩
      rw [Table.create_of_playable config hp, sum_eq hnonneg hfits, posted_eq config hp]
      rfl
    · have hover : Table.overflows starts = true := by
        unfold Table.overflows Chips.fits
        simp [hfits]
      unfold Table.create
      rw [sum_overflow hnonneg (not_le.mp hfits), if_neg htwo, hbad]
      simp only [hover, if_true]
      rfl

end Holdem.InPlace
