import Holdem.Proofs.Table.Legality
import Holdem.Proofs.Table.Length

/-!
# What an action does to a table

An `Effect` says all that an action does to the chips and the cards of a table: one seat puts chips
in, and may fold by it. Everything else is as it was, unless the hand is complete then: the chips
behind have grown by the winnings of each seat, and by nothing else.

* `Decision.chips` is what a decision moves. The rules grant no more than there is, so what is put
  in is exactly that (`Decision.change_bet`).
* `effect_carryOut` is the decision alone, `Effect.closeRound` the end of a round that it may
  bring about, with the pots paid out, and `effect_advance` the two together.

Result: **`Run.action_effect`**, for every action that is accepted.
-/

namespace Holdem

/-! ## What is moved -/

/-- The chips that a decision moves. -/
def Decision.chips (v : BettingView) : Decision → Int
  | .fold => 0
  | .check => 0
  | .call amount => amount
  | .raise amount _ => amount - v.bet

namespace Decision

variable {v : BettingView} {s : Seat} {d : Decision}

/-- **What the rules grant is moved in full**: no decision asks for more than is behind. -/
theorem change_bet (hs : s.Balanced) (hbet : v.bet = s.bet) (hstack : v.stack = s.stack)
    (hle : s.bet ≤ v.maxBet) (hd : v.Allows d) : (d.change v s).bet = s.bet + d.chips v := by
  have hstack0 := hs.stack_nonneg
  cases d with
  | fold => exact (Int.add_zero _).symm
  | check => exact (Int.add_zero _).symm
  | call amount =>
    have hcall : amount = v.toCall := hd
    unfold BettingView.toCall Chips.clamp at hcall
    rw [change, Seat.putIn_bet, Seat.moved_eq_self (by omega) (by omega)]
    rfl
  | raise amount full =>
    show _ = s.bet + (amount - v.bet)
    rw [change_raise_bet hbet hstack hle hd]
    omega

theorem eq_fold_of_decide (hd : v.decide .fold = .ok d) : d = .fold := by
  simp only [BettingView.decide] at hd
  split at hd
  · cases hd
  · exact (Except.ok.inj hd).symm

theorem inHand_change (v : BettingView) (d : Decision) (s : Seat) :
    (d.change v s).inHand = (s.inHand && !decide (d = .fold)) := by
  by_cases hd : d = .fold
  · subst hd
    exact (Bool.and_false _).symm
  · rw [change_inHand hd]
    simp [hd]

/-- A check or a call moves what the seat owes, or all its chips if they are fewer. -/
theorem chips_of_checkOrCall (hbet : v.bet = s.bet) (hstack : v.stack = s.stack)
    (hs : s.Balanced) (hle : s.bet ≤ v.maxBet) (hd : v.decide .checkOrCall = .ok d) :
    d.chips v = min (v.maxBet - s.bet) s.stack ∧ d ≠ .fold := by
  have hstack0 := hs.stack_nonneg
  have htoCall : v.toCall = min (v.maxBet - s.bet) s.stack := by
    unfold BettingView.toCall Chips.clamp
    omega
  rw [← htoCall]
  simp only [BettingView.decide, Except.ok.injEq] at hd
  split at hd
  · rename_i hzero
    subst hd
    exact ⟨hzero.symm, by simp⟩
  · subst hd
    exact ⟨rfl, by simp⟩

end Decision

namespace Table

/-! ## Effects -/

/-- **What an action does**: a seat puts `chips` in, and folds or not. -/
structure Effect (t t' : Table) (seat : Nat) (chips : Int) (folds : Bool) : Prop where
  /-- The chips are put in by that seat, and no other seat puts any in. -/
  contributions : t'.contributions = t.contributions.modify seat (· + chips)
  /-- They are taken from those that it has behind. A hand that is complete has been paid out. -/
  behind : t'.behind =
    if t'.isComplete then (t.behind.modify seat (· - chips)).zipWith (· + ·) t'.winnings
    else t.behind.modify seat (· - chips)
  /-- They lie in front of the seat while the round goes on; else all bets have been collected. -/
  bets : t'.seats.map (·.bet) =
    if t'.phase = .betting then (t.seats.map (·.bet)).modify seat (· + chips)
    else t.seats.map fun _ => 0
  /-- Nobody folds but that seat. -/
  live : t'.live = t.live.modify seat (· && !folds)
  starts : t'.seats.map (·.start) = t.seats.map (·.start)
  holes : t'.seats.map (·.hole) = t.seats.map (·.hole)
  board : t'.board = t.board
  deck : t'.deck = t.deck
  street : t'.street = t.street
  config : t'.config = t.config

variable {t x : Table} {seat : Nat} {s : Seat} {d : Decision} {starts : List Int}

/-- What is read off each seat, after one of them was changed. -/
theorem map_modify_at {α : Type} {l : List Seat} {f : Seat → Seat} {g : Seat → α} {g' : α → α}
    (hs : l[seat]? = some s) (h : g (f s) = g' (g s)) :
    (l.modify seat f).map g = (l.map g).modify seat g' := by
  apply List.ext_getElem?
  intro j
  rw [List.getElem?_map, List.getElem?_modify, List.getElem?_modify, List.getElem?_map]
  by_cases hj : seat = j
  · subst hj
    simp [hs, h]
  · simp [hj]

/-- **A decision**, before the round is looked at. -/
theorem effect_carryOut (hphase : t.phase = .betting) (hs : t.seats[seat]? = some s)
    (hbal : s.Balanced) (hd : (t.viewOf seat s).Allows d) :
    Effect t (t.carryOut (t.viewOf seat s) d) seat (d.chips (t.viewOf seat s))
      (decide (d = .fold)) := by
  have hbet := Decision.change_bet (v := t.viewOf seat s) hbal rfl rfl (le_maxBet hs) hd
  have hbalance := Decision.change_balance (t.viewOf seat s) d s
  have hgoing : (t.carryOut (t.viewOf seat s) d).phase = .betting :=
    (carryOut_phase t _ d).trans hphase
  obtain ⟨hdeck, hholes⟩ := Prod.mk.inj (carryOut_handed t (t.viewOf seat s) d)
  refine ⟨?_, ?_, ?_, ?_, ?_, hholes, carryOut_board _ _ _, hdeck, carryOut_street _ _ _,
    carryOut_config _ _ _⟩
  · unfold contributions
    rw [carryOut_seats]
    refine map_modify_at hs ?_
    unfold Seat.contribution
    rw [hbet, Decision.change_committed]
    omega
  · rw [isComplete, hgoing, if_neg (by simp)]
    unfold behind
    rw [carryOut_seats]
    refine map_modify_at hs ?_
    omega
  · rw [if_pos hgoing, carryOut_seats]
    exact map_modify_at hs hbet
  · unfold live
    rw [carryOut_seats]
    exact map_modify_at hs (Decision.inHand_change _ d s)
  · rw [carryOut_seats]
    exact map_modify_of_eq _ fun s => Decision.change_start _ d s

/-! ## The end of a round -/

theorem closeRound_stake (t : Table) :
    t.closeRound.1.seats.map Seat.stake = t.seats.map Seat.stake := by
  rw [closeRound_fst]
  split
  · exact paidOut_stake t
  · exact collected_stake t

/-- Collecting the bets leaves the chips behind, and paying the pots out adds the winnings. -/
theorem closeRound_behind (t : Table) :
    t.closeRound.1.behind =
      if t.closeRound.1.isComplete then t.behind.zipWith (· + ·) t.closeRound.1.winnings
      else t.behind := by
  have hwinnings : t.closeRound.1.winnings = t.winnings :=
    winnings_congr (closeRound_stake t) (Prod.mk.inj (closeRound_laid t)).2
  rw [hwinnings, closeRound_fst]
  split
  · show t.paidOut.behind = t.behind.zipWith (· + ·) t.winnings
    apply List.ext_getElem?
    intro i
    unfold behind
    rw [List.getElem?_map, paidOut_getElem?, List.getElem?_zipWith, List.getElem?_map]
    cases hs : t.seats[i]? with
    | none => cases t.winnings[i]? <;> rfl
    | some s =>
      have hlt : i < t.winnings.length := by
        rw [length_winnings]
        exact (List.getElem?_eq_some_iff.mp hs).1
      rw [List.getD_eq_getElem?_getD, List.getElem?_eq_getElem hlt]
      rfl
  · show t.paused.behind = t.behind
    unfold behind paused collected
    rw [List.map_map]
    rfl

theorem closeRound_bets (t : Table) :
    t.closeRound.1.seats.map (·.bet) = t.seats.map fun _ => 0 := by
  rw [closeRound_fst]
  split
  · show t.paidOut.seats.map (·.bet) = _
    apply List.ext_getElem?
    intro i
    rw [List.getElem?_map, List.getElem?_map, paidOut_getElem?]
    cases t.seats[i]? <;> rfl
  · show t.paused.seats.map (·.bet) = _
    unfold paused collected
    rw [List.map_map]
    rfl

theorem closeRound_starts (t : Table) :
    t.closeRound.1.seats.map (·.start) = t.seats.map (·.start) := by
  rw [closeRound_fst]
  split
  · show t.paidOut.seats.map (·.start) = _
    apply List.ext_getElem?
    intro i
    rw [List.getElem?_map, List.getElem?_map, paidOut_getElem?]
    cases t.seats[i]? <;> rfl
  · show t.paused.seats.map (·.start) = _
    unfold paused collected
    rw [List.map_map]
    rfl

/-- **The end of a round** adds nothing to an effect but the winnings. -/
theorem Effect.closeRound {chips : Int} {folds : Bool} (h : Effect t x seat chips folds)
    (hphase : x.phase = .betting) : Effect t x.closeRound.1 seat chips folds := by
  have hstake := closeRound_stake x
  have hbehind := h.behind
  rw [isComplete, hphase, if_neg (by simp)] at hbehind
  have hlength : x.seats.length = t.seats.length := by
    simpa only [List.length_map] using congrArg List.length h.starts
  obtain ⟨hstreet, hboard⟩ := Prod.mk.inj (closeRound_laid x)
  obtain ⟨hdeck, hholes⟩ := Prod.mk.inj (closeRound_handed x)
  refine ⟨(contributions_congr hstake).trans h.contributions, ?_, ?_,
    (live_congr hstake).trans h.live, (closeRound_starts x).trans h.starts, hholes.trans h.holes,
    hboard.trans h.board, hdeck.trans h.deck, hstreet.trans h.street,
    (closeRound_config x).trans h.config⟩
  · rw [closeRound_behind, hbehind]
  · rw [if_neg (closeRound_phase x), closeRound_bets, List.map_const', List.map_const', hlength]

/-- **A decision with all that follows from it.** -/
theorem effect_advance (hphase : t.phase = .betting) (hs : t.seats[seat]? = some s)
    (hbal : s.Balanced) (hd : (t.viewOf seat s).Allows d) :
    Effect t (t.advance (t.viewOf seat s) d).1 seat (d.chips (t.viewOf seat s))
      (decide (d = .fold)) := by
  have hcarry := effect_carryOut hphase hs hbal hd
  have hgoing : (t.carryOut (t.viewOf seat s) d).phase = .betting :=
    (carryOut_phase t _ d).trans hphase
  -- Noting down who acted touches neither chips nor cards.
  have hdecided : Effect t (t.decided (t.viewOf seat s) d) seat (d.chips (t.viewOf seat s))
      (decide (d = .fold)) := by
    obtain ⟨hcontributions, hbehind, hbets, hlive, hstarts, hholes, hboard, hdeck, hstreet,
      hconfig⟩ := hcarry
    exact ⟨hcontributions, hbehind, hbets, hlive, hstarts, hholes, hboard, hdeck, hstreet, hconfig⟩
  rcases t.advance_cases (t.viewOf seat s) d with ⟨-, heq⟩ | ⟨-, -, heq⟩ | ⟨-, -, heq⟩
  · rw [heq]
    exact hcarry.closeRound hgoing
  · rw [heq]
    exact hdecided.closeRound hgoing
  · rw [heq]
    exact hdecided

/-- A raise leaves somebody to answer it, so the round goes on. -/
theorem advance_raise {amount : Int} {full : Bool}
    (hd : (t.viewOf seat s).Allows (.raise amount full)) :
    (t.advance (t.viewOf seat s) (.raise amount full)).1 =
      t.decided (t.viewOf seat s) (.raise amount full) := by
  obtain ⟨j, w, hne, hw, hlive, hstack⟩ := othersCanRespond_iff.mp hd.1
  have hable : (t.carryOut (t.viewOf seat s) (.raise amount full)).canAct j = true := by
    rw [carryOut_canAct_other (v := t.viewOf seat s) hne]
    exact canAct_iff.mpr ⟨w, hw, Seat.canAct_iff.mpr ⟨hlive, hstack⟩⟩
  have hactors : (t.carryOut (t.viewOf seat s) (.raise amount full)).actors ≠ [] := by
    refine List.ne_nil_of_mem (a := j) ?_
    rw [carryOut_actors_raise, List.mem_filter, mem_clockwise, Bool.and_eq_true, bne_iff_ne]
    exact ⟨lt_of_canAct hable, hne, hable⟩
  rcases t.advance_cases (t.viewOf seat s) (.raise amount full) with
    ⟨hout, -⟩ | ⟨-, hnone, -⟩ | ⟨-, -, heq⟩
  · exact absurd hout.1 (by simp)
  · exact absurd hnone hactors
  · exact heq

end Table

namespace Run

variable {config : TableConfig} {starts : List Int} {turns : List Turn} {t : Table}

/-- **What an accepted action does.** Some seat is to act, and
* a raise puts in just what is missing to its amount, at least one chip; its amount is the highest
  bet then, and the round goes on;
* a check or a call puts in what the seat owes, or all its chips if they are fewer;
* a fold puts nothing in.

All else that happens to chips and cards is what `Effect` says: nobody else puts chips in or folds,
the cards and the street stay, and the chips behind change otherwise only where the action completes
the hand, by what each seat wins. -/
theorem action_effect (h : Run config starts turns t) (hphase : t.phase = .betting) :
    ∃ (i : Nat) (s : Seat), t.actor? = some i ∧ t.seats[i]? = some s ∧
      (∀ amount t', t.after (.raiseTo amount) = .ok t' →
        0 < amount - s.bet ∧ t'.maxBet = amount ∧ t'.phase = .betting ∧
          t.Effect t' i (amount - s.bet) false) ∧
      (∀ t', t.after .checkOrCall = .ok t' →
        t.Effect t' i (min (t.maxBet - s.bet) s.stack) false) ∧
      ∀ t', t.after .fold = .ok t' → t.Effect t' i 0 true := by
  obtain ⟨hunder, -, -, hactors, hqueue⟩ := h.inv.of_betting hphase
  obtain ⟨i, hi⟩ := Table.exists_actor hactors
  obtain ⟨s, hs, -⟩ := Table.canAct_iff.mp (hqueue.able i (List.mem_of_head? hi))
  have hbal := hunder.inPlay.balanced s (List.mem_of_getElem? hs)
  have hdecided : ∀ m a t', m.action? = some a → t.after m = .ok t' →
      ∃ d, (t.viewOf i s).decide a = .ok d ∧ t' = (t.advance (t.viewOf i s) d).1 := by
    intro m a t' hm hafter
    obtain ⟨notes, hplay⟩ := Table.after_eq_ok.mp hafter
    obtain ⟨seat, s', d, hact, heq⟩ := Table.acting_of_play hm hplay
    obtain rfl : i = seat := Option.some.inj (hi.symm.trans hact.actor)
    obtain rfl : s = s' := Option.some.inj (hs.symm.trans hact.seated)
    obtain ⟨a', hm', hd⟩ := hact.decision
    obtain rfl : a = a' := Option.some.inj (hm.symm.trans hm')
    exact ⟨d, hd, heq⟩
  refine ⟨i, s, hi, hs, fun amount t' hafter => ?_, fun t' hafter => ?_, fun t' hafter => ?_⟩
  · obtain ⟨d, hd, rfl⟩ := hdecided _ _ _ rfl hafter
    obtain ⟨full, rfl, hallows⟩ := raiseTo_eq_ok_iff.mp hd
    have hmore : t.maxBet < amount := hallows.2.2.1
    have hle := Table.le_maxBet hs
    have hraised := Table.advance_raise hallows
    refine ⟨by omega, ?_, ?_, Table.effect_advance hphase hs hbal hallows⟩
    · rw [hraised]
      exact Table.maxBet_raise hs hallows
    · rw [hraised]
      exact (Table.carryOut_phase t _ _).trans hphase
  · obtain ⟨d, hd, rfl⟩ := hdecided _ _ _ rfl hafter
    obtain ⟨hchips, hstay⟩ :=
      Decision.chips_of_checkOrCall (v := t.viewOf i s) rfl rfl hbal (Table.le_maxBet hs) hd
    have heffect := Table.effect_advance hphase hs hbal (allows_of_decide hd)
    rwa [hchips, decide_eq_false hstay] at heffect
  · obtain ⟨d, hd, rfl⟩ := hdecided _ _ _ rfl hafter
    obtain rfl := Decision.eq_fold_of_decide hd
    exact Table.effect_advance hphase hs hbal (allows_of_decide hd)

/-- Heads-up, the pot is bet on the river and called. -/
def riverCallMoves : List Move :=
  [.hole 0 ⟨.ace, .spades⟩ ⟨.ace, .hearts⟩, .hole 1 ⟨.king, .spades⟩ ⟨.king, .hearts⟩,
    .raiseTo 100, .checkOrCall, .burn, .board ⟨.three, .clubs⟩, .board ⟨.four, .clubs⟩,
    .board ⟨.eight, .diamonds⟩, .checkOrCall, .checkOrCall, .burn, .board ⟨.ten, .diamonds⟩,
    .checkOrCall, .checkOrCall, .burn, .board ⟨.jack, .hearts⟩, .raiseTo 200, .checkOrCall]

/-- The call ends the hand: it puts in what is owed, and the pot of 600 is all that is paid out. -/
theorem action_effect_river_call : ∃ turns t t' i s,
    Run .standard [500, 500] turns t ∧ t.phase = .betting ∧ t.after .checkOrCall = .ok t' ∧
      t.actor? = some i ∧ t.seats[i]? = some s ∧
      t.Effect t' i (min (t.maxBet - s.bet) s.stack) false ∧ t'.isComplete = true ∧
      t'.contributions = [300, 300] ∧ t'.winnings = [600, 0] ∧ t'.behind = [800, 200] := by
  obtain ⟨turns, t', d, hrun, ⟨hcomplete, hcontributions, hwinnings, hbehind⟩, hmoves⟩ :=
    exists_run .standard [500, 500] riverCallMoves
      (fun t => t.isComplete = true ∧ t.contributions = [300, 300] ∧ t.winnings = [600, 0] ∧
        t.behind = [800, 200])
      ⟨by decide, by decide, by decide⟩ (by decide +kernel) (by decide)
  generalize hend : t'.withDeck d = t'' at hrun
  cases hrun with
  | create => exact absurd hmoves (by simp [riverCallMoves])
  | @move turns t m r h hm =>
    obtain rfl : m = .checkOrCall := (List.cons.inj hmoves).1
    obtain ⟨_, _, _, hact, -⟩ := Table.acting_of_play rfl hm
    obtain ⟨i, s, hi, hs, -, hcall, -⟩ := h.action_effect hact.phase
    have hafter : t.after .checkOrCall = .ok r.1 := Table.after_eq_ok.mpr ⟨r.2, hm⟩
    have heffect := hcall r.1 hafter
    rw [← hend] at hafter heffect
    exact ⟨turns, t, _, i, s, h, hact.phase, hafter, hi, hs, heffect, hcomplete, hcontributions,
      hwinnings, hbehind⟩

end Run

end Holdem
