import Holdem.Proofs.Table.Supply
import Mathlib.Tactic.Ring

/-!
# The length of a hand

A hand deals to every seat once, burns three cards and shows five, and it takes no more actions than
its chips allow, whatever the forced bets and the least increment.

* What lies on the table counts the moves with cards: `holders_transition`, `burned_transition`,
  `board_transition`. A move of the kind adds one, and no other move adds any.
* A raise has everybody else act again, so the list of actors does not measure a round. But a raise
  moves a chip at least, however short it is. `stamina` counts the seats still to act, and one
  action of every seat for each chip behind and for each street to come. **`stamina_transition`**:
  an action lowers it, and no card raises it.
* **`Run.tally_le`** is what follows for the moves of a run.
-/

namespace Holdem

/-- How many of some moves are of a kind. -/
def tally (operation : Operation) (moves : List Move) : Nat :=
  moves.countP (·.operation = operation)

theorem tally_cons (operation : Operation) (m : Move) (moves : List Move) :
    tally operation (m :: moves) =
      tally operation moves + if m.operation = operation then 1 else 0 := by
  unfold tally
  rw [List.countP_cons]
  by_cases h : m.operation = operation <;> simp [h]

theorem tally_reverse (operation : Operation) (moves : List Move) :
    tally operation moves.reverse = tally operation moves := List.countP_reverse

theorem Move.operation_of_action {m : Move} {a : Action} (h : m.action? = some a) :
    m.operation = .act := by
  cases m with
  | hole => cases h
  | burn => cases h
  | board => cases h
  | _ => rfl

/-- Whatever a seat decides, its chips are behind or bet. -/
theorem Decision.change_balance (v : BettingView) (d : Decision) (s : Seat) :
    (d.change v s).stack + (d.change v s).bet = s.stack + s.bet := by
  cases d with
  | fold => rfl
  | check => rfl
  | call amount =>
    rw [change, Seat.putIn_stack, Seat.putIn_bet]
    omega
  | raise amount full =>
    rw [change, Seat.putIn_stack, Seat.putIn_bet]
    omega

namespace Table

variable {t t' : Table} {starts : List Int} {m : Move}

/-! ## Cards -/

theorem openBetting_holders (t : Table) : t.openBetting.1.holders = t.holders :=
  holders_congr (Prod.mk.inj (openBetting_handed t)).2

theorem openBetting_burned (t : Table) : t.openBetting.1.burned = t.street :=
  (burned_of_not_revealing (openBetting_not_revealing t)).trans
    (Prod.mk.inj (openBetting_laid t)).1

theorem openBetting_board (t : Table) : t.openBetting.1.board = t.board :=
  (Prod.mk.inj (openBetting_laid t)).2

/-- **Seats with hole cards** count the deals. -/
theorem holders_transition (hstep : Transition t m t') :
    t'.holders = t.holders + if m.operation = .dealHole then 1 else 0 := by
  cases hstep with
  | hole _ hs hhole => exact dealt_holders hs hhole _ _
  | lastHole _ hs hhole => exact (openBetting_holders _).trans (dealt_holders hs hhole _ _)
  | burn => rfl
  | board => rfl
  | lastBoard => exact openBetting_holders _
  | act _ hm =>
    rw [Move.operation_of_action hm]
    exact holders_congr (Prod.mk.inj (advance_handed t _ _)).2

/-- **Burned cards** count the burns. -/
theorem burned_transition (hstep : Transition t m t') :
    t'.burned = t.burned + if m.operation = .burn then 1 else 0 := by
  cases hstep with
  | hole => rfl
  | lastHole hphase =>
    exact (openBetting_burned _).trans (burned_of_not_revealing (t := t) (by simp [hphase])).symm
  | burn hphase =>
    rw [burned_of_not_revealing (t := t) (by simp [hphase])]
    rfl
  | board hphase =>
    unfold burned
    rw [hphase]
    rfl
  | lastBoard hphase =>
    refine (openBetting_burned _).trans ?_
    unfold burned
    rw [hphase]
    rfl
  | act hphase hm =>
    rw [Move.operation_of_action hm, burned_of_not_revealing (advance_not_revealing hphase _ _),
      burned_of_not_revealing (t := t) (by simp [hphase])]
    exact (Prod.mk.inj (advance_laid t _ _)).1

/-- **Board cards** count the moves that show one. -/
theorem board_transition (hstep : Transition t m t') :
    t'.board.length = t.board.length + if m.operation = .dealBoard then 1 else 0 := by
  cases hstep with
  | hole => rfl
  | lastHole => exact congrArg List.length (openBetting_board _)
  | burn => rfl
  | board => exact List.length_append
  | lastBoard => exact (congrArg List.length (openBetting_board _)).trans List.length_append
  | act _ hm =>
    rw [Move.operation_of_action hm]
    exact congrArg List.length (Prod.mk.inj (advance_laid t _ _)).2

theorem boardSize_le {street : Nat} (h : street ≤ river) : boardSize street ≤ 5 := by
  unfold river at h
  match street, h with
  | 0, _ => decide
  | 1, _ => decide
  | 2, _ => decide
  | 3, _ => decide

/-! ## Actions -/

/-- How many actions the chips behind and the streets to come allow. -/
def reserve (t : Table) : Int :=
  t.seats.length * (Chips.total t.behind + (river - t.street : Nat))

/-- How many actions a hand can still take, at most. -/
def stamina (t : Table) : Int :=
  match t.phase with
  | .dealing => t.seats.length + t.reserve
  | .betting => t.actors.length + t.reserve
  | .burning => t.reserve
  | .revealing _ => t.reserve
  | .complete => 0

theorem stamina_of_dealing (h : t.phase = .dealing) :
    t.stamina = t.seats.length + t.reserve := by
  unfold stamina
  rw [h]

theorem stamina_of_betting (h : t.phase = .betting) :
    t.stamina = t.actors.length + t.reserve := by
  unfold stamina
  rw [h]

theorem stamina_of_burning (h : t.phase = .burning) : t.stamina = t.reserve := by
  unfold stamina
  rw [h]

theorem stamina_of_revealing {n : Nat} (h : t.phase = .revealing n) : t.stamina = t.reserve := by
  unfold stamina
  rw [h]

theorem reserve_congr (hbehind : t'.behind = t.behind) (hstreet : t'.street = t.street) :
    t'.reserve = t.reserve := by
  have hlen := congrArg List.length hbehind
  unfold behind at hlen
  rw [List.length_map, List.length_map] at hlen
  unfold reserve
  rw [hlen, hbehind, hstreet]

theorem behind_nonneg (h : InPlay starts t.seats) : 0 ≤ Chips.total t.behind :=
  Chips.total_map_nonneg fun s hs => (h.balanced s hs).stack_nonneg

theorem reserve_nonneg (h : InPlay starts t.seats) : 0 ≤ t.reserve := by
  have hbehind := behind_nonneg h
  unfold reserve
  positivity

/-- A street that opens takes an action of every seat. -/
theorem reserve_next (h : t.street < river) :
    t.reserve = t.seats.length + { t with street := t.street + 1 }.reserve := by
  have hstreets : ((river - t.street : Nat) : Int) = (river - (t.street + 1) : Nat) + 1 := by omega
  show _ = _ + (t.seats.length : Int) * (Chips.total t.behind + (river - (t.street + 1) : Nat))
  unfold reserve
  rw [hstreets]
  ring

/-- A round that closes leaves the chips behind and the streets to come. -/
theorem closeRound_stamina (h : InPlay starts t.seats) : t.closeRound.1.stamina ≤ t.reserve := by
  rw [closeRound_fst]
  split
  · exact reserve_nonneg h
  · have hbehind : t.paused.behind = t.behind := by
      show (t.seats.map Seat.collect).map (·.stack) = t.seats.map (·.stack)
      rw [List.map_map]
      rfl
    exact (reserve_congr (t := t) hbehind rfl).le

/-- A round that opens has no more actors than there are seats. -/
theorem openBetting_stamina (h : InPlay starts t.seats) :
    t.openBetting.1.stamina ≤ t.seats.length + t.reserve := by
  rw [openBetting_fst]
  split
  · have hclose : t.opened.closeRound.1.stamina ≤ t.reserve := closeRound_stamina (t := t.opened) h
    omega
  · have hactors : t.openingActors.length ≤ t.seats.length :=
      (queued_opened (seats_ne_nil h)).length_le
    show (t.openingActors.length : Int) + t.reserve ≤ _
    omega

/-! ## A decision -/

variable {seat : Nat} {s : Seat} {d : Decision}

/-- The chips behind change by those of the seat that decides. -/
theorem carryOut_behind {v : BettingView} (hs : t.seats[v.seat]? = some s) :
    Chips.total (t.carryOut v d).behind =
      Chips.total t.behind + ((d.change v s).stack - s.stack) := by
  unfold behind
  rw [carryOut_seats]
  exact Chips.total_map_modify hs _ _

theorem carryOut_length (t : Table) (v : BettingView) (d : Decision) :
    (t.carryOut v d).seats.length = t.seats.length := by
  rw [carryOut_seats, List.length_modify]

/-- No decision puts chips behind. -/
theorem carryOut_reserve {v : BettingView} (hs : t.seats[v.seat]? = some s) (hbal : s.Balanced) :
    (t.carryOut v d).reserve ≤ t.reserve := by
  have hbalance := Decision.change_balance v d s
  have hbet := Decision.bet_le_change (v := v) hbal d
  unfold reserve
  rw [carryOut_length, carryOut_street, carryOut_behind hs]
  exact mul_le_mul_of_nonneg_left (by omega) (by omega)

/-- **A raise costs a chip**, and with it an action of every seat. -/
theorem carryOut_reserve_raise {amount : Int} {full : Bool} (hs : t.seats[seat]? = some s)
    (hd : (t.viewOf seat s).Allows (.raise amount full)) :
    (t.carryOut (t.viewOf seat s) (.raise amount full)).reserve + t.seats.length ≤ t.reserve := by
  have hle := le_maxBet hs
  have hbet := Decision.change_raise_bet rfl rfl hle hd
  have hmore : t.maxBet < amount := hd.2.2.1
  have hbalance := Decision.change_balance (t.viewOf seat s) (.raise amount full) s
  have hless : ((Decision.raise amount full).change (t.viewOf seat s) s).stack + 1 ≤ s.stack := by
    omega
  unfold reserve
  rw [carryOut_length, carryOut_street, carryOut_behind (v := t.viewOf seat s) hs, ← mul_add_one]
  exact mul_le_mul_of_nonneg_left (by omega) (by omega)

/-- A decision leaves fewer actions to be taken, if the round goes on. -/
theorem decided_stamina (hqueue : Queued t) (hphase : t.phase = .betting)
    (hactor : t.actor? = some seat) (hs : t.seats[seat]? = some s) (hbal : s.Balanced)
    (hd : (t.viewOf seat s).Allows d) :
    (t.decided (t.viewOf seat s) d).stamina < t.stamina := by
  have hactors : t.actors.length = t.actors.tail.length + 1 :=
    congrArg List.length (actors_eq_cons hactor)
  have hdecided : (t.decided (t.viewOf seat s) d).stamina =
      (t.carryOut (t.viewOf seat s) d).actors.length +
        (t.carryOut (t.viewOf seat s) d).reserve := by
    have hbetting : (t.decided (t.viewOf seat s) d).phase = .betting :=
      (carryOut_phase t _ d).trans hphase
    rw [stamina_of_betting hbetting]
    rfl
  rw [hdecided, stamina_of_betting hphase]
  by_cases hraise : ∃ amount full, d = .raise amount full
  · obtain ⟨amount, full, rfl⟩ := hraise
    have hreserve := carryOut_reserve_raise hs hd
    have hnext := (hqueue.carryOut hactor hs hbal hd).length_le
    rw [carryOut_length] at hnext
    omega
  · push Not at hraise
    have hreserve := carryOut_reserve (d := d) (v := t.viewOf seat s) hs hbal
    rw [carryOut_actors hraise]
    omega

/-- **An action leaves fewer actions to be taken.** -/
theorem advance_stamina (h : Inv starts t) (hphase : t.phase = .betting)
    (hactor : t.actor? = some seat) (hs : t.seats[seat]? = some s)
    (hd : (t.viewOf seat s).Allows d) :
    (t.advance (t.viewOf seat s) d).1.stamina < t.stamina := by
  obtain ⟨hunder, -, -, hactors, hqueue⟩ := h.of_betting hphase
  have hbal := hunder.inPlay.balanced s (List.mem_of_getElem? hs)
  -- A round that closes gives up its actors, of whom there is one at least.
  have hcloses : (t.carryOut (t.viewOf seat s) d).reserve < t.stamina := by
    have hreserve := carryOut_reserve (d := d) (v := t.viewOf seat s) hs hbal
    have hpos := List.length_pos_iff.mpr hactors
    rw [stamina_of_betting hphase]
    omega
  rcases t.advance_cases (t.viewOf seat s) d with
    ⟨hout, heq⟩ | ⟨-, hnone, heq⟩ | ⟨-, -, heq⟩
  · have hclosing := closing_carryOut h hphase hactor hs hd (Or.inl hout)
    rw [heq]
    exact (closeRound_stamina hclosing.inPlay).trans_lt hcloses
  · have hclosing := closing_carryOut h hphase hactor hs hd (Or.inr hnone)
    rw [heq]
    exact (closeRound_stamina hclosing.decided.inPlay).trans_lt hcloses
  · rw [heq]
    exact decided_stamina hqueue hphase hactor hs hbal hd

theorem dealt_reserve {seat : Nat} {s : Seat} (hs : t.seats[seat]? = some s)
    (first second : Card) : (t.dealt seat s first second).reserve = t.reserve := by
  refine reserve_congr ?_ rfl
  unfold behind
  rw [dealt_seats hs, map_modify_of_eq (f := holding (first, second)) seat fun _ => rfl]

theorem dealt_stamina {seat : Nat} {s : Seat} (hphase : t.phase = .dealing)
    (hs : t.seats[seat]? = some s) (first second : Card) :
    (t.dealt seat s first second).seats.length + (t.dealt seat s first second).reserve =
      t.stamina := by
  have hlen : (t.dealt seat s first second).seats.length = t.seats.length := List.length_set
  rw [hlen, dealt_reserve hs, stamina_of_dealing hphase]

/-- **Every action uses stamina**, and no card adds any. -/
theorem stamina_transition (hstep : Transition t m t') (h : Inv starts t) :
    t'.stamina + (if m.operation = .act then 1 else 0) ≤ t.stamina := by
  cases hstep with
  | @hole seat s first second hphase hs hhole _ =>
    show _ + 0 ≤ _
    rw [← dealt_stamina hphase hs first second,
      stamina_of_dealing (t := t.dealt seat s first second) hphase]
    omega
  | lastHole hphase hs hhole hall =>
    show _ + 0 ≤ _
    rw [← dealt_stamina hphase hs, add_zero]
    exact openBetting_stamina (opening_dealt h hphase hs hall).inPlay
  | burn hphase _ =>
    rw [stamina_of_burning hphase]
    exact (add_zero _).le
  | board hphase _ =>
    rw [stamina_of_revealing hphase]
    exact (add_zero _).le
  | @lastBoard c n hphase hlast =>
    obtain ⟨-, -, -, -, -, hstreet, -⟩ := h.of_revealing hphase
    show _ + 0 ≤ _
    rw [stamina_of_revealing hphase, reserve_next hstreet, add_zero]
    exact openBetting_stamina (opening_shown h hphase hlast c).inPlay
  | act hphase hm hactor hs hd =>
    rw [Move.operation_of_action hm, if_pos rfl]
    exact advance_stamina h hphase hactor hs (allows_of_decide hd)

/-- No stamina is below zero. -/
theorem Inv.stamina_nonneg (h : Inv starts t) : 0 ≤ t.stamina := by
  unfold stamina
  cases h with
  | underway h =>
    have hreserve := reserve_nonneg h.inPlay
    split <;> omega
  | finished hphase _ _ => rw [hphase]

/-- The stamina of a new table. -/
theorem stamina_create {config : TableConfig} {seed : UInt64}
    (h : create config starts seed = .ok t) :
    t.stamina ≤ starts.length * (Chips.total starts + 4) := by
  obtain ⟨hplayable, rfl⟩ := create_eq_ok h
  have hplay := inPlay_posted config hplayable
  have hbehind : Chips.total ((posted config starts).map (·.stack)) ≤
      Chips.total ((posted config starts).map (·.start)) := by
    refine Chips.total_map_le fun s hs => ?_
    have hbal := hplay.balanced s hs
    have hbalance := hbal.balance
    have hcontribution := Seat.contribution_nonneg hbal
    omega
  rw [hplay.starts_eq] at hbehind
  rw [stamina_of_dealing rfl]
  show ((posted config starts).length : Int) + (posted config starts).length *
    (Chips.total ((posted config starts).map (·.stack)) + 3) ≤ _
  rw [length_posted, add_comm, ← mul_add_one]
  exact mul_le_mul_of_nonneg_left (by omega) (by omega)

end Table

namespace Run

variable {config : TableConfig} {starts : List Int} {turns : List Turn} {t : Table}

/-- **What lies on the table** counts the moves with cards. -/
theorem tally_cards (h : Run config starts turns t) :
    tally .dealHole (turns.map (·.move)) = t.holders ∧
      tally .burn (turns.map (·.move)) = t.burned ∧
      tally .dealBoard (turns.map (·.move)) = t.board.length := by
  induction h with
  | create h =>
    obtain ⟨-, rfl⟩ := Table.create_eq_ok h
    refine ⟨(List.countP_eq_zero.mpr fun s hs => ?_).symm, rfl, rfl⟩
    simp [Table.posted_hole config starts hs]
  | move _ hm ih =>
    obtain ⟨hholes, hburns, hboards⟩ := ih
    have hstep := Table.transition_of_play hm
    simp only [List.map_cons, tally_cons, hholes, hburns, hboards]
    exact ⟨(Table.holders_transition hstep).symm, (Table.burned_transition hstep).symm,
      (Table.board_transition hstep).symm⟩

/-- **The actions of a run**, and those that it can still take. -/
theorem tally_act (h : Run config starts turns t) :
    tally .act (turns.map (·.move)) + t.stamina ≤ starts.length * (Chips.total starts + 4) := by
  induction h with
  | create h =>
    have hstamina := Table.stamina_create h
    show ((0 : Nat) : Int) + _ ≤ _
    omega
  | move hrun hm ih =>
    have hstep := Table.stamina_transition (Table.transition_of_play hm) hrun.inv
    rw [List.map_cons, tally_cons]
    split at hstep
    · rename_i hact
      rw [if_pos hact]
      omega
    · rename_i hcard
      rw [if_neg hcard]
      omega

/-- Three cards are burned at most, and five shown. -/
theorem laid_le (h : Run config starts turns t) : t.burned ≤ 3 ∧ t.board.length ≤ 5 := by
  by_cases hreveal : ∃ n, t.phase = .revealing n
  · obtain ⟨n, hphase⟩ := hreveal
    obtain ⟨-, -, -, hboard, -, hstreet, -⟩ := h.inv.of_revealing hphase
    have hsize : Table.boardSize (t.street + 1) ≤ 5 := Table.boardSize_le hstreet
    unfold Table.burned
    rw [hphase]
    exact ⟨hstreet, by omega⟩
  · push Not at hreveal
    obtain ⟨hstreet, hboard⟩ := h.board_length
    rw [Table.partialBoard_of_not_revealing hreveal] at hboard
    rw [Table.burned_of_not_revealing hreveal, hboard]
    exact ⟨hstreet, Table.boardSize_le hstreet⟩

/-- **How many moves a run has**, kind by kind. -/
theorem tally_le (h : Run config starts turns t) :
    tally .dealHole (turns.map (·.move)) ≤ starts.length ∧
      tally .burn (turns.map (·.move)) ≤ 3 ∧
      tally .dealBoard (turns.map (·.move)) ≤ 5 ∧
      tally .act (turns.map (·.move)) ≤ starts.length * (Chips.total starts + 4) := by
  obtain ⟨hholes, hburns, hboards⟩ := h.tally_cards
  obtain ⟨hburned, hboard⟩ := h.laid_le
  have hstamina := h.inv.stamina_nonneg
  have hact := h.tally_act
  rw [hholes, hburns, hboards, ← h.length_seats]
  exact ⟨t.holders_le, hburned, hboard, by rw [h.length_seats]; omega⟩

end Run

end Holdem
