import Holdem.Proofs.Table.Supply

/-!
# No dead ends

A hand that is not complete asks for a move by its phase (`Asks`): cards for a seat without any, a
check or a call, a burn, a board card. It accepts whatever it asks for, and it can be played out
without a fold or a raise.

* `Inv.exists_asked`: a hand that goes on asks for something. `accepts_of_asks`: that is accepted,
  if a card is left whenever one is to be burned. `Run.burn_supply` sees to that with 22 seats at
  most.
* `toGo` counts the passive moves that a hand can still make, with `beyond` for the streets to come.
  **`toGo_transition`**: every passive move lowers it.
* **`Run.no_dead_end`** puts them together.
-/

namespace Holdem

/-- A card, a check or a call. -/
def Move.isPassive : Move → Bool
  | .fold => false
  | .raiseTo _ => false
  | _ => true

namespace Table

variable {t t' : Table} {starts : List Int} {m : Move}

/-! ## What a phase asks for -/

/-- The moves that a table asks for. -/
def Asks (t : Table) : Move → Prop
  | .hole seat _ _ => t.phase = .dealing ∧ ∃ s, t.seats[seat]? = some s ∧ s.hole = none
  | .burn => t.phase = .burning
  | .board _ => ∃ n, t.phase = .revealing n
  | .checkOrCall => t.phase = .betting
  | .fold => False
  | .raiseTo _ => False

theorem isPassive_of_asks (h : t.Asks m) : m.isPassive = true := by
  cases m with
  | fold => exact h.elim
  | raiseTo amount => exact h.elim
  | _ => rfl

theorem accepts_of_transition (h : Transition t m t') : t.Accepts m := by
  obtain ⟨notes, hplay⟩ := play_of_transition h
  exact ⟨_, hplay⟩

/-- A seat without cards is dealt any two. -/
theorem accepts_hole {seat : Nat} {s : Seat} (hphase : t.phase = .dealing)
    (hs : t.seats[seat]? = some s) (hhole : s.hole = none) (first second : Card) :
    t.Accepts (.hole seat first second) := by
  by_cases hall : (t.dealt seat s first second).allDealt = true
  · exact accepts_of_transition (.lastHole hphase hs hhole hall)
  · exact accepts_of_transition (.hole hphase hs hhole (Bool.not_eq_true _ ▸ hall))

theorem accepts_burn (hphase : t.phase = .burning) (hdeck : 0 < t.deck.remaining) :
    t.Accepts .burn := by
  obtain ⟨c, rest, hdraw, -⟩ := Deck.draw_of_remaining hdeck
  exact accepts_of_transition (.burn hphase hdraw)

theorem accepts_board {n : Nat} (hphase : t.phase = .revealing n) (c : Card) :
    t.Accepts (.board c) := by
  rcases Nat.lt_or_ge 1 n with hmore | hlast
  · exact accepts_of_transition (.board hphase hmore)
  · exact accepts_of_transition (.lastBoard hphase hlast)

/-- Somebody is to act while seats bet, and may always check or call. -/
theorem Inv.accepts_checkOrCall (h : Inv starts t) (hphase : t.phase = .betting) :
    t.Accepts .checkOrCall := by
  obtain ⟨-, -, -, hactors, hqueue⟩ := h.of_betting hphase
  obtain ⟨i, hi⟩ := exists_actor hactors
  obtain ⟨s, hs, -⟩ := canAct_iff.mp (hqueue.able i (List.mem_of_head? hi))
  exact (accepts_iff_decide hphase hi hs rfl).mpr ⟨_, rfl⟩

/-- **What a table asks for it accepts**, if its deck lasts for the burn. -/
theorem Inv.accepts_of_asks (h : Inv starts t) (hdeck : t.phase = .burning → 0 < t.deck.remaining)
    (hm : t.Asks m) : t.Accepts m := by
  cases m with
  | hole seat first second =>
    obtain ⟨hphase, s, hs, hhole⟩ := hm
    exact accepts_hole hphase hs hhole first second
  | burn => exact accepts_burn hm (hdeck hm)
  | board c =>
    obtain ⟨n, hphase⟩ := hm
    exact accepts_board hphase c
  | checkOrCall => exact h.accepts_checkOrCall hm
  | fold => exact hm.elim
  | raiseTo amount => exact hm.elim

/-- **A hand that goes on asks for a move.** -/
theorem Inv.exists_asked (h : Inv starts t) (hgo : t.phase ≠ .complete) : ∃ m, t.Asks m := by
  rcases (h.underway_of_phase hgo).stage with
    ⟨hphase, -, -, -, hmore⟩ | ⟨hphase, -⟩ | ⟨hphase, -⟩ | ⟨hphase, -⟩
  · obtain ⟨s, hs, hhole⟩ := List.all_eq_false.mp hmore
    obtain ⟨i, hi⟩ := List.mem_iff_getElem?.mp hs
    exact ⟨.hole i ⟨.ace, .spades⟩ ⟨.ace, .hearts⟩, hphase, s, hi, by simpa using hhole⟩
  · exact ⟨.checkOrCall, hphase⟩
  · exact ⟨.burn, hphase⟩
  · exact ⟨.board ⟨.ace, .spades⟩, _, hphase⟩

/-- The deck is exhausted for a burn only. -/
theorem phase_of_exhausted (h : t.play .burn = .error .deckExhausted) :
    t.phase = .burning ∧ ¬ t.Accepts .burn := by
  refine ⟨?_, not_accepts h⟩
  by_contra hphase
  have hwrong : t.play .burn = .error (.wrongPhase Operation.burn.text t.phase.name.text) :=
    if_neg hphase
  rw [hwrong] at h
  cases h

/-! ## How far a hand is from its end -/

/-- How many passive moves the streets to come take at most: on each of them every seat acts, a card
is burned, and up to three are shown. -/
def beyond (t : Table) : Nat := (river - t.street) * (t.seats.length + 4)

/-- How many passive moves a hand can still make, at most. -/
def toGo (t : Table) : Nat :=
  match t.phase with
  | .dealing => t.seats.length - t.holders + t.seats.length + t.beyond
  | .betting => t.actors.length + t.beyond
  | .burning => t.beyond
  | .revealing n => n + t.seats.length + { t with street := t.street + 1 }.beyond
  | .complete => 0

theorem toGo_of_dealing (h : t.phase = .dealing) :
    t.toGo = t.seats.length - t.holders + t.seats.length + t.beyond := by
  unfold toGo
  rw [h]

theorem toGo_of_betting (h : t.phase = .betting) : t.toGo = t.actors.length + t.beyond := by
  unfold toGo
  rw [h]

theorem toGo_of_burning (h : t.phase = .burning) : t.toGo = t.beyond := by
  unfold toGo
  rw [h]

theorem toGo_of_revealing {n : Nat} (h : t.phase = .revealing n) :
    t.toGo = n + t.seats.length + { t with street := t.street + 1 }.beyond := by
  unfold toGo
  rw [h]

theorem beyond_congr (hstreet : t'.street = t.street) (hlen : t'.seats.length = t.seats.length) :
    t'.beyond = t.beyond := by
  unfold beyond
  rw [hstreet, hlen]

theorem carryOut_beyond (t : Table) (v : BettingView) (d : Decision) :
    (t.carryOut v d).beyond = t.beyond := by
  refine beyond_congr (carryOut_street t v d) ?_
  rw [carryOut_seats, List.length_modify]

/-- A round that closes leaves the streets to come. -/
theorem closeRound_toGo (t : Table) : t.closeRound.1.toGo ≤ t.beyond := by
  rw [closeRound_fst]
  split
  · exact Nat.zero_le _
  · have hlen : t.paused.seats.length = t.seats.length := List.length_map _
    have hbeyond : t.paused.beyond = t.beyond := beyond_congr (t := t) rfl hlen
    exact hbeyond.le

/-- A round that opens has no more actors than there are seats. -/
theorem openBetting_toGo (h : t.seats ≠ []) :
    t.openBetting.1.toGo ≤ t.seats.length + t.beyond := by
  rw [openBetting_fst]
  split
  · exact (closeRound_toGo t.opened).trans (Nat.le_add_left _ _)
  · show t.openingActors.length + t.opened.beyond ≤ _
    exact Nat.add_le_add_right (queued_opened h).length_le _

/-- A deal is one seat less to be dealt. -/
theorem dealt_toGo {seat : Nat} {s : Seat} (hphase : t.phase = .dealing)
    (hs : t.seats[seat]? = some s) (hhole : s.hole = none) (first second : Card) :
    (t.dealt seat s first second).toGo < t.toGo := by
  have hlen : (t.dealt seat s first second).seats.length = t.seats.length := List.length_set
  have hbeyond : (t.dealt seat s first second).beyond = t.beyond := beyond_congr rfl hlen
  have hholders := dealt_holders hs hhole first second
  have hle := holders_le (t.dealt seat s first second)
  rw [toGo_of_dealing hphase, toGo_of_dealing (t := t.dealt seat s first second) hphase]
  omega

/-- A check or a call is one action less to go. -/
theorem advance_toGo {seat : Nat} (v : BettingView) {d : Decision} (hphase : t.phase = .betting)
    (hactor : t.actor? = some seat) (hno : ∀ amount full, d ≠ .raise amount full) :
    (t.advance v d).1.toGo < t.actors.length + t.beyond := by
  have hactors : t.actors.length = t.actors.tail.length + 1 :=
    congrArg List.length (actors_eq_cons hactor)
  have hbeyond := carryOut_beyond t v d
  rcases t.advance_cases v d with ⟨-, heq⟩ | ⟨-, -, heq⟩ | ⟨-, -, heq⟩
  · have hclose := closeRound_toGo (t.carryOut v d)
    rw [heq]
    omega
  · have hclose : (t.decided v d).closeRound.1.toGo ≤ (t.carryOut v d).beyond :=
      closeRound_toGo (t.decided v d)
    rw [heq]
    omega
  · have hdecided : (t.decided v d).toGo = t.actors.tail.length + (t.carryOut v d).beyond := by
      have hbetting : (t.decided v d).phase = .betting := (carryOut_phase t v d).trans hphase
      rw [toGo_of_betting hbetting, decided_actors, carryOut_actors hno]
      rfl
    rw [heq, hdecided]
    omega

theorem boardCount_le {street : Nat} (h : street < river) : boardCount (street + 1) ≤ 3 := by
  unfold river at h
  match street, h with
  | 0, _ => decide
  | 1, _ => decide
  | 2, _ => decide

/-- A check or a call is no raise. -/
theorem not_raise_of_passive {v : BettingView} {a : Action} {d : Decision}
    (hm : m.action? = some a) (hpassive : m.isPassive = true) (hd : v.decide a = .ok d) :
    ∀ amount full, d ≠ .raise amount full := by
  cases m with
  | checkOrCall =>
    cases hm
    rintro amount full rfl
    simp only [BettingView.decide, Except.ok.injEq] at hd
    split at hd <;> cases hd
  | fold => cases hpassive
  | raiseTo amount => cases hpassive
  | _ => cases hm

/-- **Every passive move brings the end nearer.** -/
theorem toGo_transition (hstep : Transition t m t') (hpassive : m.isPassive = true)
    (hinv : Inv starts t) : t'.toGo < t.toGo := by
  cases hstep with
  | @hole seat s first second hphase hs hhole _ => exact dealt_toGo hphase hs hhole first second
  | @lastHole seat s first second hphase hs hhole hall =>
    have hopen := openBetting_toGo (seats_ne_nil (opening_dealt hinv hphase hs hall).inPlay)
    have hless := dealt_toGo hphase hs hhole first second
    rw [toGo_of_dealing (t := t.dealt seat s first second) hphase] at hless
    omega
  | @burn c rest hphase hdraw =>
    obtain ⟨-, -, -, -, hstreet, -⟩ := hinv.of_burning hphase
    have hcount := boardCount_le hstreet
    have hsplit : t.beyond =
        { t with street := t.street + 1 }.beyond + (t.seats.length + 4) := by
      show (river - t.street) * _ = (river - (t.street + 1)) * _ + _
      rw [← Nat.succ_mul]
      congr 1
      omega
    rw [toGo_of_burning hphase]
    show boardCount (t.street + 1) + t.seats.length + { t with street := t.street + 1 }.beyond < _
    omega
  | @board c n hphase hmore =>
    rw [toGo_of_revealing hphase]
    show n - 1 + t.seats.length + { t with street := t.street + 1 }.beyond < _
    omega
  | @lastBoard c n hphase hlast =>
    obtain ⟨hunder, -, hn, -⟩ := hinv.of_revealing hphase
    rw [toGo_of_revealing hphase]
    refine (openBetting_toGo (t := { t.shown c with street := t.street + 1 })
      (seats_ne_nil hunder.inPlay)).trans_lt ?_
    show t.seats.length + { t with street := t.street + 1 }.beyond < _
    omega
  | @act m a seat s d hphase hm hactor hs hd =>
    rw [toGo_of_betting hphase]
    exact advance_toGo _ hphase hactor (not_raise_of_passive hm hpassive hd)

end Table

namespace Run

variable {config : TableConfig} {starts : List Int} {turns : List Turn} {t : Table}

/-- With 22 seats at most, what a table asks for is accepted. -/
theorem accepts_of_asks (h : Run config starts turns t) (hseats : starts.length ≤ 22) {m : Move}
    (hm : t.Asks m) : t.Accepts m :=
  h.inv.accepts_of_asks (h.burn_supply hseats) hm

/-- **Passive play ends the hand.** -/
theorem exists_passive_end (h : Run config starts turns t) (hseats : starts.length ≤ 22) :
    ∃ turns' t', Run config starts (turns' ++ turns) t' ∧ t'.phase = .complete ∧
      ∀ u ∈ turns', u.move.isPassive = true := by
  -- The induction is on the passive moves still to go, over all tables that have as many.
  induction hgo : t.toGo using Nat.strong_induction_on generalizing t turns with
  | h n ih =>
    by_cases hcomplete : t.phase = .complete
    · exact ⟨[], t, h, hcomplete, fun u hu => absurd hu List.not_mem_nil⟩
    · obtain ⟨m, hm⟩ := h.inv.exists_asked hcomplete
      obtain ⟨r, hplay⟩ := h.accepts_of_asks hseats hm
      have hpassive := Table.isPassive_of_asks hm
      have hless := Table.toGo_transition (Table.transition_of_play hplay) hpassive h.inv
      obtain ⟨turns', t', hrun, hend, hall⟩ := ih r.1.toGo (hgo ▸ hless) (.move h hplay) rfl
      refine ⟨turns' ++ [⟨t, m⟩], t', by simpa using hrun, hend, fun u hu => ?_⟩
      rcases List.mem_append.mp hu with hu | hu
      · exact hall u hu
      · rw [List.mem_singleton.mp hu]
        exact hpassive

/-- **No dead ends.** Throughout a run with 22 seats at most
* no burn is refused for want of a card;
* as long as the hand is not complete it asks for a move by its phase, and it accepts every move
  that it asks for: any two cards for a seat without cards, a check or call, a burn, any board card;
* cards, checks and calls alone bring it to its end. -/
theorem no_dead_end (h : Run config starts turns t) (hseats : starts.length ≤ 22) :
    t.play .burn ≠ .error .deckExhausted ∧
    (t.isComplete = false → (∃ m, t.Asks m) ∧ ∀ m, t.Asks m → t.Accepts m) ∧
    ∃ turns' t', Run config starts (turns' ++ turns) t' ∧ t'.isComplete = true ∧
      ∀ u ∈ turns', u.move.isPassive = true := by
  refine ⟨fun hexhausted => ?_, fun hgo => ⟨?_, fun m hm => h.accepts_of_asks hseats hm⟩, ?_⟩
  · obtain ⟨hphase, hno⟩ := Table.phase_of_exhausted hexhausted
    exact hno (h.accepts_of_asks hseats hphase)
  · exact h.inv.exists_asked (by simpa [Table.isComplete] using hgo)
  · obtain ⟨turns', t', hrun, hend, hall⟩ := h.exists_passive_end hseats
    exact ⟨turns', t', hrun, by simpa [Table.isComplete] using hend, hall⟩

/-- Twenty-two seats check down to the river, and no card is named twice. -/
def fullTableMoves : List Move :=
  let cards := Card.all.reverse
  let round := List.replicate 22 Move.checkOrCall
  ((List.range 22).map fun i =>
      .hole i (cards.getD (2 * i) ⟨.ace, .spades⟩) (cards.getD (2 * i + 1) ⟨.ace, .spades⟩)) ++
    round ++ .burn :: (((cards.drop 44).take 3).map .board ++
    round ++ .burn :: (((cards.drop 47).take 1).map .board ++ round))

/-- With 22 seats the last burn is accepted when 48 cards were named and two were burned. -/
theorem no_dead_end_full_table : ∃ turns t,
    Run .standard (List.replicate 22 1000) turns t ∧ t.phase = .burning ∧ t.street = 2 ∧
      t.Accepts .burn ∧ ∃ turns' t', Run .standard (List.replicate 22 1000) (turns' ++ turns) t' ∧
        t'.isComplete = true := by
  obtain ⟨turns, t, d, hrun, ⟨hphase, hstreet⟩, -⟩ :=
    exists_run .standard (List.replicate 22 1000) fullTableMoves
      (fun t => t.phase = .burning ∧ t.street = 2)
      ⟨by decide, by decide, by decide⟩ (by decide +kernel) (by decide)
  obtain ⟨-, hgo, turns', t', hend, hcomplete, -⟩ := hrun.no_dead_end (by decide)
  refine ⟨turns, _, hrun, hphase, hstreet, ?_, turns', t', hend, hcomplete⟩
  refine (hgo ?_).2 .burn hphase
  show decide (t.phase = .complete) = false
  rw [hphase]
  rfl

end Run

end Holdem
