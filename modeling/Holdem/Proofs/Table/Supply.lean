import Holdem.Proofs.Table.Streets

/-!
# The cards that a hand uses

A hand uses two cards for each seat, one for each board card and one for each burn. A named card may
have left the deck before, and then the deck loses none. So the cards left and the cards used
(`used`) are never fewer together than the deck had.

* `supply_transition` is the step, and `Run.supply` says that they are 52 at least throughout a run.
* **`Run.burn_supply`**: with 22 seats at most a card is left whenever one is to be burned. Before
  the last burn 22 seats have used 44 cards, the board four and the earlier burns two.
-/

namespace Holdem

/-- A burn takes one card out of the deck. -/
theorem Deck.remaining_of_draw {d rest : Deck} {c : Card} (h : d.draw = some (c, rest)) :
    d.remaining = rest.remaining + 1 := by
  unfold draw at h
  split at h
  · cases h
  · rename_i hcards
    cases h
    show d.cards.length = _
    rw [hcards]
    rfl

namespace Table

variable {t t' : Table}

/-! ## What lies on the table -/

/-- How many seats hold cards. -/
def holders (t : Table) : Nat := t.seats.countP (·.hole.isSome)

/-- How many cards were burned: one for each street, also for the one being revealed. -/
def burned (t : Table) : Nat :=
  match t.phase with
  | .revealing _ => t.street + 1
  | _ => t.street

/-- How many cards the hand used, counting each time that one was named. -/
def used (t : Table) : Nat := 2 * t.holders + t.board.length + t.burned

theorem burned_of_not_revealing (h : ∀ n, t.phase ≠ .revealing n) : t.burned = t.street := by
  unfold burned
  split
  · rename_i n hphase
    exact absurd hphase (h n)
  · rfl

theorem holders_congr (h : t.seats.map (·.hole) = t'.seats.map (·.hole)) :
    t.holders = t'.holders := by
  have hcount : ∀ x : Table, x.holders = (x.seats.map (·.hole)).countP (·.isSome) := fun x => by
    rw [List.countP_map]
    rfl
  rw [hcount, h, ← hcount]

theorem holders_le (t : Table) : t.holders ≤ t.seats.length := List.countP_le_length

/-- Every seat holds cards when all are dealt. -/
theorem holders_of_allDealt (h : t.allDealt = true) : t.holders = t.seats.length :=
  List.countP_eq_length.mpr (List.all_eq_true.mp h)

/-- The deck, and the cards of the seats. -/
def handed (t : Table) : Deck × List (Option (Card × Card)) := (t.deck, t.seats.map (·.hole))

theorem closeRound_handed (t : Table) : t.closeRound.1.handed = t.handed := by
  have hcollected : t.collected.seats.map (·.hole) = t.seats.map (·.hole) :=
    map_of_stake (collected_stake t) fun e => e.2.2
  have hpaid : t.paidOut.seats.map (·.hole) = t.seats.map (·.hole) :=
    map_of_stake (paidOut_stake t) fun e => e.2.2
  rw [closeRound_fst]
  split
  · exact congrArg (Prod.mk t.deck) hpaid
  · exact congrArg (Prod.mk t.deck) hcollected

theorem openBetting_handed (t : Table) : t.openBetting.1.handed = t.handed := by
  rw [openBetting_fst]
  split
  · exact closeRound_handed _
  · rfl

theorem carryOut_handed (t : Table) (v : BettingView) (d : Decision) :
    (t.carryOut v d).handed = t.handed := by
  have hdeck : (t.carryOut v d).deck = t.deck := by
    cases d with
    | raise amount full => cases full <;> rfl
    | _ => rfl
  unfold handed
  rw [hdeck, carryOut_seats, map_modify_of_eq v.seat fun s => Decision.change_hole v d s]

theorem advance_handed (t : Table) (v : BettingView) (d : Decision) :
    (t.advance v d).1.handed = t.handed := by
  have hcarry := carryOut_handed t v d
  rcases t.advance_cases v d with ⟨-, heq⟩ | ⟨-, -, heq⟩ | ⟨-, -, heq⟩
  · rw [heq, closeRound_handed, hcarry]
  · rw [heq, closeRound_handed]
    exact hcarry
  · rw [heq]
    exact hcarry

theorem dealt_holders {seat : Nat} {s : Seat} (hs : t.seats[seat]? = some s)
    (hhole : s.hole = none) (first second : Card) :
    (t.dealt seat s first second).holders = t.holders + 1 := by
  obtain ⟨hlt, hget⟩ := List.getElem?_eq_some_iff.mp hs
  show (t.seats.set seat _).countP _ = t.seats.countP _ + 1
  rw [List.countP_set hlt, hget, hhole]
  simp

/-- Two cards that a seat is dealt leave the deck, if they are there, and are held from then on. -/
theorem dealt_supply {seat : Nat} {s : Seat} (hs : t.seats[seat]? = some s) (hhole : s.hole = none)
    (first second : Card) :
    t.deck.remaining + 2 * t.holders ≤ (t.dealt seat s first second).deck.remaining +
      2 * (t.dealt seat s first second).holders := by
  have hdeck : t.deck.remaining ≤ (t.dealt seat s first second).deck.remaining + 2 := by
    have h1 := t.deck.remaining_take first
    have h2 := (t.deck.take first).2.remaining_take second
    show _ ≤ ((t.deck.take first).2.take second).2.remaining + 2
    omega
  have hholders := dealt_holders hs hhole first second
  omega

theorem used_of_revealing {n : Nat} (hphase : t.phase = .revealing n) :
    t.used = 2 * t.holders + t.board.length + (t.street + 1) := by
  unfold used burned
  rw [hphase]

/-- A card that is shown leaves the deck, if it is there, and lies on the board from then on. -/
theorem shown_supply {n : Nat} (hphase : t.phase = .revealing n) (c : Card) :
    t.deck.remaining + t.used ≤ (t.shown c).deck.remaining +
      (2 * t.holders + (t.shown c).board.length + (t.street + 1)) := by
  have htake := t.deck.remaining_take c
  have hboard : (t.shown c).board.length = t.board.length + 1 := List.length_append
  have hdeck : (t.shown c).deck = (t.deck.take c).2 := rfl
  rw [used_of_revealing hphase, hboard, hdeck]
  omega

/-! ## Supply -/

/-- A round that opens or closes uses no cards. -/
theorem used_of_laid (hlaid : t'.laid = t.laid) (hhanded : t'.handed = t.handed)
    (hno : ∀ n, t'.phase ≠ .revealing n) :
    t'.deck.remaining + t'.used =
      t.deck.remaining + (2 * t.holders + t.board.length + t.street) := by
  obtain ⟨hstreet, hboard⟩ := Prod.mk.inj hlaid
  obtain ⟨hdeck, hholes⟩ := Prod.mk.inj hhanded
  unfold used
  rw [burned_of_not_revealing hno, hdeck, hboard, hstreet, holders_congr hholes]

theorem openBetting_used (t : Table) :
    t.openBetting.1.deck.remaining + t.openBetting.1.used =
      t.deck.remaining + (2 * t.holders + t.board.length + t.street) :=
  used_of_laid (openBetting_laid t) (openBetting_handed t) (openBetting_not_revealing t)

/-- **No move loses a card** that it does not use. -/
theorem supply_transition {m : Move} (hstep : Transition t m t') :
    t.deck.remaining + t.used ≤ t'.deck.remaining + t'.used := by
  cases hstep with
  | @hole seat s first second _ hs hhole =>
    have hdealt := dealt_supply hs hhole first second
    have hburned : (t.dealt seat s first second).burned = t.burned := rfl
    have hboard : (t.dealt seat s first second).board = t.board := rfl
    unfold used
    rw [hburned, hboard]
    omega
  | @lastHole seat s first second hphase hs hhole =>
    have hdealt := dealt_supply hs hhole first second
    have hburned := burned_of_not_revealing (t := t) (by simp [hphase])
    have hboard : (t.dealt seat s first second).board = t.board := rfl
    have hstreet : (t.dealt seat s first second).street = t.street := rfl
    rw [openBetting_used, hboard, hstreet]
    unfold used
    rw [hburned]
    omega
  | @burn c rest hphase hdraw =>
    have hlen := Deck.remaining_of_draw hdraw
    have hburned := burned_of_not_revealing (t := t) (by simp [hphase])
    show t.deck.remaining + t.used ≤
      rest.remaining + (2 * t.holders + t.board.length + (t.street + 1))
    unfold used
    omega
  | @board c n hphase _ => exact shown_supply hphase c
  | @lastBoard c n hphase _ =>
    rw [openBetting_used]
    exact shown_supply hphase c
  | @act m a seat s d hphase _ _ _ _ =>
    have hused := used_of_laid (advance_laid t (t.viewOf seat s) d)
      (advance_handed t (t.viewOf seat s) d) (advance_not_revealing hphase (t.viewOf seat s) d)
    have hburned := burned_of_not_revealing (t := t) (by simp [hphase])
    rw [hused]
    unfold used
    omega

end Table

namespace Run

variable {config : TableConfig} {starts : List Int} {turns : List Turn} {t : Table}

/-- **The cards left and the cards used are 52 at least**, throughout a run. -/
theorem supply (h : Run config starts turns t) : 52 ≤ t.deck.remaining + t.used := by
  refine h.invariant (P := fun x => 52 ≤ x.deck.remaining + x.used) (fun seed t hcreate => ?_)
    fun _ _ _ hstep hsupply => hsupply.trans (Table.supply_transition hstep)
  obtain ⟨-, rfl⟩ := Table.create_eq_ok hcreate
  exact (Deck.remaining_ofSeed seed).ge.trans (Nat.le_add_right _ _)

theorem length_seats (h : Run config starts turns t) : t.seats.length = starts.length := by
  have hstarts : t.seats.map (·.start) = starts := by
    cases h.inv with
    | underway hunder => exact hunder.inPlay.starts_eq
    | finished _ _ hfin => exact hfin.starts_eq
  rw [← hstarts, List.length_map]

/-- **A card is left for every burn**, with 22 seats at most. -/
theorem burn_supply (h : Run config starts turns t) (hseats : starts.length ≤ 22)
    (hphase : t.phase = .burning) : 0 < t.deck.remaining := by
  obtain ⟨-, hdealt, hboard, -, hstreet, -⟩ := h.inv.of_burning hphase
  have hsupply := h.supply
  have hburned := Table.burned_of_not_revealing (t := t) (by simp [hphase])
  have hholders := Table.holders_of_allDealt hdealt
  have hlength := h.length_seats
  have hsize : Table.boardSize t.street ≤ 4 := by
    unfold Table.river at hstreet
    match t.street, hstreet with
    | 0, _ => decide
    | 1, _ => decide
    | 2, _ => decide
  unfold Table.river at hstreet
  unfold Table.used at hsupply
  omega

end Run

end Holdem
