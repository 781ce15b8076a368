import Holdem.Proofs.Table.Creation
import Holdem.Proofs.Table.Finished
import Holdem.Proofs.Table.Queue

/-!
# The invariant of a table

What holds of a table throughout a run. A hand is either finished (`Finished`) or underway:

* `Underway`: the chips are in play, two seats at least contest them, and the rest depends on the
  stage.
* `Stage`: while hole cards are dealt some seat has none; while seats bet somebody is to act; while
  cards are burned and shown no bet is open, and a street remains. From the first bet on, every seat
  has its cards, and the board is as large as the street asks (`boardSize`).

Results:
* `Inv.of_dealing`, `Inv.of_betting`, `Inv.of_burning`, `Inv.of_revealing`,
  `Inv.finished_of_phase`: what the invariant says of each phase.
* `Opening` is a round that is about to open, `Closing` one that is about to close. A last card
  makes the one (`opening_dealt`, `opening_shown`); an opening without actors and a last decision
  make the other (`Opening.closing`, `closing_carryOut`).
* `inv_openBetting`, `inv_closeRound`: the beginning and the end of a round keep the invariant.
* **`inv_transition`**: every transition keeps it, one case per constructor.
* **`Run.inv`**: it holds throughout every run.
-/

namespace Holdem

namespace Table

/-- How many board cards lie on the table when a street is bet. -/
def boardSize : Nat → Nat
  | 0 => 0
  | street + 1 => boardSize street + boardCount (street + 1)

/-- What holds at each stage of a hand that goes on. -/
inductive Stage (t : Table) : Prop
  | dealing (hphase : t.phase = .dealing) (hstreet : t.street = 0) (hboard : t.board = [])
      (hactors : t.actors = []) (hmore : t.allDealt = false)
  | betting (hphase : t.phase = .betting) (hdealt : t.allDealt = true)
      (hboard : t.board.length = boardSize t.street) (hactors : t.actors ≠ []) (hqueue : Queued t)
  | burning (hphase : t.phase = .burning) (hdealt : t.allDealt = true)
      (hboard : t.board.length = boardSize t.street) (hactors : t.actors = [])
      (hstreet : t.street < river) (hbets : ∀ s ∈ t.seats, s.bet = 0)
  | revealing {n : Nat} (hphase : t.phase = .revealing n) (hdealt : t.allDealt = true)
      (hn : 1 ≤ n) (hboard : t.board.length + n = boardSize (t.street + 1))
      (hactors : t.actors = []) (hstreet : t.street < river) (hbets : ∀ s ∈ t.seats, s.bet = 0)

/-- A hand that goes on. -/
structure Underway (starts : List Int) (t : Table) : Prop where
  inPlay : InPlay starts t.seats
  contested : 2 ≤ t.liveCount
  street_le : t.street ≤ river
  stage : Stage t

/-- **The invariant**: the hand goes on, or it is complete. -/
inductive Inv (starts : List Int) (t : Table) : Prop
  | underway (h : Underway starts t)
  | finished (hphase : t.phase = .complete) (hactors : t.actors = []) (h : Finished starts t)

variable {starts : List Int} {t t' : Table}

/-! ## Reading the invariant by phase -/

/-- A hand whose phase is not the last goes on. -/
theorem Inv.underway_of_phase (h : Inv starts t) (hphase : t.phase ≠ .complete) :
    Underway starts t := by
  cases h with
  | underway h => exact h
  | finished hcomplete => exact absurd hcomplete hphase

theorem Inv.finished_of_phase (h : Inv starts t) (hphase : t.phase = .complete) :
    Finished starts t := by
  cases h with
  | underway h =>
    rcases h.stage with hp | hp | hp | hp <;> exact absurd (hp.symm.trans hphase) (by simp)
  | finished _ _ h => exact h

theorem Inv.of_dealing (h : Inv starts t) (hphase : t.phase = .dealing) :
    Underway starts t ∧ t.street = 0 ∧ t.board = [] ∧ t.actors = [] ∧ t.allDealt = false := by
  have hunder := h.underway_of_phase (by rw [hphase]; simp)
  rcases hunder.stage with ⟨-, hstreet, hboard, hactors, hmore⟩ | hp | hp | hp
  · exact ⟨hunder, hstreet, hboard, hactors, hmore⟩
  all_goals exact absurd (hp.symm.trans hphase) (by simp)

theorem Inv.of_betting (h : Inv starts t) (hphase : t.phase = .betting) :
    Underway starts t ∧ t.allDealt = true ∧ t.board.length = boardSize t.street ∧ t.actors ≠ [] ∧
      Queued t := by
  have hunder := h.underway_of_phase (by rw [hphase]; simp)
  rcases hunder.stage with hp | ⟨-, hdealt, hboard, hactors, hqueue⟩ | hp | hp
  · exact absurd (hp.symm.trans hphase) (by simp)
  · exact ⟨hunder, hdealt, hboard, hactors, hqueue⟩
  all_goals exact absurd (hp.symm.trans hphase) (by simp)

theorem Inv.of_burning (h : Inv starts t) (hphase : t.phase = .burning) :
    Underway starts t ∧ t.allDealt = true ∧ t.board.length = boardSize t.street ∧ t.actors = [] ∧
      t.street < river ∧ ∀ s ∈ t.seats, s.bet = 0 := by
  have hunder := h.underway_of_phase (by rw [hphase]; simp)
  rcases hunder.stage with hp | hp | ⟨-, hdealt, hboard, hactors, hstreet, hbets⟩ | hp
  · exact absurd (hp.symm.trans hphase) (by simp)
  · exact absurd (hp.symm.trans hphase) (by simp)
  · exact ⟨hunder, hdealt, hboard, hactors, hstreet, hbets⟩
  · exact absurd (hp.symm.trans hphase) (by simp)

theorem Inv.of_revealing {n : Nat} (h : Inv starts t) (hphase : t.phase = .revealing n) :
    Underway starts t ∧ t.allDealt = true ∧ 1 ≤ n ∧
      t.board.length + n = boardSize (t.street + 1) ∧ t.actors = [] ∧ t.street < river ∧
      ∀ s ∈ t.seats, s.bet = 0 := by
  have hunder := h.underway_of_phase (by rw [hphase]; simp)
  rcases hunder.stage with hp | hp | hp | ⟨hp, hdealt, hn, hboard, hactors, hstreet, hbets⟩
  · exact absurd (hp.symm.trans hphase) (by simp)
  · exact absurd (hp.symm.trans hphase) (by simp)
  · exact absurd (hp.symm.trans hphase) (by simp)
  · obtain rfl := Phase.revealing.inj (hphase.symm.trans hp)
    exact ⟨hunder, hdealt, hn, hboard, hactors, hstreet, hbets⟩

/-! ## Rounds -/

theorem collected_liveCount (t : Table) : t.collected.liveCount = t.liveCount :=
  liveCount_congr (live_congr (collected_stake t))

/-- A round that is about to close: the chips are in play and the cards are there for the street,
and either nobody is left to act, with the bets matched, or one seat is left in the hand. -/
structure Closing (starts : List Int) (t : Table) : Prop where
  inPlay : InPlay starts t.seats
  street_le : t.street ≤ river
  dealt : t.allDealt = true
  board : t.board.length = boardSize t.street
  actors : t.actors = [] ∨ t.liveCount ≤ 1
  matched : 2 ≤ t.liveCount → Matched t.seats

/-- **The end of a round** finishes the hand, or lets it go on with the next street. -/
theorem inv_closeRound (h : Closing starts t) : Inv starts t.closeRound.1 := by
  rw [closeRound_fst, collected_liveCount]
  split
  · rename_i hend
    refine .finished rfl rfl (finished_of_inPlay h.inPlay fun hlive => ⟨?_, h.dealt⟩)
    rcases hend with hend | hend
    · omega
    · rw [h.board, hend]
      rfl
  · rename_i hgo
    push Not at hgo
    obtain ⟨hlive, hriver⟩ := hgo
    have hstake := collected_stake t
    refine .underway ⟨h.inPlay.collect (h.matched hlive), ?_, h.street_le,
      .burning rfl ?_ h.board ?_ ?_ ?_⟩
    · show 2 ≤ t.collected.liveCount
      rw [collected_liveCount]
      exact hlive
    · rw [← h.dealt]
      exact allDealt_congr (map_of_stake (t := t.paused) hstake fun e => e.2.2)
    · rcases h.actors with hactors | hone
      · exact hactors
      · omega
    · exact lt_of_le_of_ne h.street_le hriver
    · intro s' hs'
      obtain ⟨s, -, rfl⟩ := List.mem_map.mp hs'
      rfl

theorem seats_ne_nil (h : InPlay starts t.seats) : t.seats ≠ [] := by
  obtain ⟨level, -, s, hs, -⟩ := h.level
  exact List.ne_nil_of_mem hs

/-- A round that is about to open: two seats at least contest the chips, and the cards are there for
the street. -/
structure Opening (starts : List Int) (t : Table) : Prop where
  inPlay : InPlay starts t.seats
  contested : 2 ≤ t.liveCount
  street_le : t.street ≤ river
  dealt : t.allDealt = true
  board : t.board.length = boardSize t.street

/-- A round without actors closes as soon as it opens. -/
theorem Opening.closing (h : Opening starts t) (hnone : t.openingActors = []) :
    Closing starts t.opened where
  inPlay := h.inPlay
  street_le := h.street_le
  dealt := h.dealt
  board := h.board
  actors := Or.inl hnone
  matched := fun _ => (queued_opened (seats_ne_nil h.inPlay)).matched_seats hnone

/-- **The beginning of a round**: somebody acts, or it ends at once. -/
theorem inv_openBetting (h : Opening starts t) : Inv starts t.openBetting.1 := by
  rw [openBetting_fst]
  split
  · rename_i hnone
    exact inv_closeRound (h.closing hnone)
  · rename_i hsome
    exact .underway ⟨h.inPlay, h.contested, h.street_le,
      .betting rfl h.dealt h.board hsome (queued_opened (seats_ne_nil h.inPlay))⟩

/-! ## Cards -/

/-- A seat with given hole cards. -/
def holding (cards : Card × Card) (s : Seat) : Seat := { s with hole := some cards }

/-- Cards change no chips. -/
theorem inPlay_holding (h : InPlay starts t.seats) (i : Nat) (cards : Card × Card) :
    InPlay starts (t.seats.modify i (holding cards)) := by
  obtain ⟨level, hl, s, hs, hlive, hc, hbet⟩ := h.level
  refine ⟨?_, ?_, level, ?_, ?_⟩
  · rw [map_modify_of_eq (f := holding cards) i fun _ => rfl]
    exact h.starts_eq
  · exact balanced_modify h.balanced fun s hs =>
      ⟨hs.stack_nonneg, hs.bet_nonneg, hs.committed_nonneg, hs.balance⟩
  · exact hl.modify fun s _ _ => ⟨rfl, Or.inl, id⟩
  · have hbets : ∀ s' ∈ t.seats.modify i (holding cards), s'.bet ≤ s.bet := by
      intro s' hs'
      rcases mem_modify hs' with hs' | ⟨s₀, hs₀, -, rfl⟩
      · exact hbet s' hs'
      · exact hbet s₀ hs₀
    obtain ⟨j, hj⟩ := List.mem_iff_getElem?.mp hs
    have hj' := List.getElem?_modify (holding cards) i t.seats j
    rw [hj] at hj'
    refine ⟨_, List.mem_of_getElem? hj', ?_, ?_, fun s' hs' => ?_⟩
    · split <;> exact hlive
    · split <;> exact hc
    · have := hbets s' hs'
      split <;> exact this

theorem dealt_seats {seat : Nat} {s : Seat} (hs : t.seats[seat]? = some s) (first second : Card) :
    (t.dealt seat s first second).seats = t.seats.modify seat (holding (first, second)) :=
  set_eq_modify hs (holding (first, second))

/-- Dealing to a seat keeps the hand in play. -/
theorem inPlay_dealt {seat : Nat} {s : Seat} (h : InPlay starts t.seats)
    (hs : t.seats[seat]? = some s) (first second : Card) :
    InPlay starts (t.dealt seat s first second).seats := by
  rw [dealt_seats hs]
  exact inPlay_holding h seat _

theorem dealt_liveCount {seat : Nat} {s : Seat} (hs : t.seats[seat]? = some s)
    (first second : Card) : (t.dealt seat s first second).liveCount = t.liveCount := by
  refine liveCount_congr ?_
  show (t.dealt seat s first second).seats.map (·.inHand) = _
  rw [dealt_seats hs, map_modify_of_eq (f := holding (first, second)) seat fun _ => rfl]
  rfl

/-- The last hole cards open the first round. -/
theorem opening_dealt {seat : Nat} {s : Seat} {first second : Card} (h : Inv starts t)
    (hphase : t.phase = .dealing) (hs : t.seats[seat]? = some s)
    (hall : (t.dealt seat s first second).allDealt = true) :
    Opening starts (t.dealt seat s first second) := by
  obtain ⟨hunder, hstreet, hboard, -, -⟩ := h.of_dealing hphase
  refine ⟨inPlay_dealt hunder.inPlay hs _ _, ?_, hunder.street_le, hall, ?_⟩
  · rw [dealt_liveCount hs]
    exact hunder.contested
  · show t.board.length = boardSize t.street
    rw [hboard, hstreet]
    rfl

/-- The last card of a street opens its round. -/
theorem opening_shown {n : Nat} (h : Inv starts t) (hphase : t.phase = .revealing n)
    (hlast : n ≤ 1) (c : Card) : Opening starts { t.shown c with street := t.street + 1 } := by
  obtain ⟨hunder, hdealt, hn, hboard, -, hstreet, -⟩ := h.of_revealing hphase
  refine ⟨hunder.inPlay, hunder.contested, hstreet, hdealt, ?_⟩
  show (t.board ++ [c]).length = boardSize (t.street + 1)
  rw [List.length_append, List.length_singleton]
  omega

/-! ## Decisions -/

variable {seat : Nat} {s : Seat} {d : Decision}

theorem carryOut_allDealt (t : Table) (v : BettingView) (d : Decision) :
    (t.carryOut v d).allDealt = t.allDealt := by
  refine allDealt_congr ?_
  rw [carryOut_seats, map_modify_of_eq v.seat fun s => Decision.change_hole v d s]

theorem carryOut_live {v : BettingView} (hd : d ≠ .fold) : (t.carryOut v d).live = t.live := by
  unfold live
  rw [carryOut_seats, map_modify_of_eq v.seat fun s => Decision.change_inHand hd v s]

/-- A decision that does not fold the hand out leaves two seats in it. -/
theorem contested_carryOut (h : InPlay starts (t.carryOut (t.viewOf seat s) d).seats)
    (hcontested : 2 ≤ t.liveCount) (hno : ¬ t.FoldsOut (t.viewOf seat s) d) :
    2 ≤ (t.carryOut (t.viewOf seat s) d).liveCount := by
  by_cases hd : d = .fold
  · have hne : (t.carryOut (t.viewOf seat s) d).liveCount ≠ 1 := fun he => hno ⟨hd, he⟩
    have hpos := h.liveCount_pos
    omega
  · rw [liveCount_congr (carryOut_live hd)]
    exact hcontested

/-- A decision that folds the hand out, or leaves nobody to act, closes the round. -/
theorem closing_carryOut (h : Inv starts t) (hphase : t.phase = .betting)
    (hactor : t.actor? = some seat) (hs : t.seats[seat]? = some s)
    (hd : (t.viewOf seat s).Allows d)
    (hend : t.FoldsOut (t.viewOf seat s) d ∨ (t.carryOut (t.viewOf seat s) d).actors = []) :
    Closing starts (t.carryOut (t.viewOf seat s) d) := by
  obtain ⟨hunder, hdealt, hboard, -, hqueue⟩ := h.of_betting hphase
  have hact := hqueue.able_actor hactor hs
  have hbal := hunder.inPlay.balanced s (List.mem_of_getElem? hs)
  refine ⟨inPlay_carryOut hunder.inPlay hs hact hd, ?_, ?_, ?_, ?_, fun hlive => ?_⟩
  · rw [carryOut_street]
    exact hunder.street_le
  · rw [carryOut_allDealt]
    exact hdealt
  · rw [carryOut_board, carryOut_street]
    exact hboard
  · exact hend.symm.imp id fun hout => hout.2.le
  · rcases hend with hout | hnone
    · have hone := hout.2
      omega
    · exact (hqueue.carryOut hactor hs hbal hd).matched_seats hnone

theorem Closing.decided {v : BettingView} (h : Closing starts (t.carryOut v d)) :
    Closing starts (t.decided v d) :=
  ⟨h.inPlay, h.street_le, h.dealt, h.board, h.actors, h.matched⟩

/-- **A decision** ends the hand, ends the round, or passes the turn on. -/
theorem inv_advance (h : Inv starts t) (hphase : t.phase = .betting)
    (hactor : t.actor? = some seat) (hs : t.seats[seat]? = some s)
    (hd : (t.viewOf seat s).Allows d) : Inv starts (t.advance (t.viewOf seat s) d).1 := by
  obtain ⟨hunder, hdealt, hboard, -, hqueue⟩ := h.of_betting hphase
  rcases t.advance_cases (t.viewOf seat s) d with
    ⟨hout, heq⟩ | ⟨-, hnone, heq⟩ | ⟨hno, hsome, heq⟩
  · rw [heq]
    exact inv_closeRound (closing_carryOut h hphase hactor hs hd (Or.inl hout))
  · rw [heq]
    exact inv_closeRound (closing_carryOut h hphase hactor hs hd (Or.inr hnone)).decided
  · rw [heq]
    have hact := hqueue.able_actor hactor hs
    have hbal := hunder.inPlay.balanced s (List.mem_of_getElem? hs)
    have hplay := inPlay_carryOut hunder.inPlay hs hact hd
    have hqueue' := hqueue.carryOut hactor hs hbal hd
    refine .underway ⟨hplay, contested_carryOut hplay hunder.contested hno, ?_,
      .betting ?_ ?_ ?_ hsome ⟨hqueue'.nodup, hqueue'.able, hqueue'.matched⟩⟩
    · exact (carryOut_street t _ d).le.trans hunder.street_le
    · exact (carryOut_phase t _ d).trans hphase
    · exact (carryOut_allDealt t _ d).trans hdealt
    · show (t.carryOut (t.viewOf seat s) d).board.length =
        boardSize (t.carryOut (t.viewOf seat s) d).street
      rw [carryOut_board, carryOut_street]
      exact hboard

/-! ## Transitions -/

theorem boardCount_pos {street : Nat} (h : street < river) : 1 ≤ boardCount (street + 1) := by
  unfold river at h
  match street, h with
  | 0, _ => decide
  | 1, _ => decide
  | 2, _ => decide

/-- **Every transition keeps the invariant.** -/
theorem inv_transition {m : Move} (hstep : Transition t m t') (h : Inv starts t) :
    Inv starts t' := by
  cases hstep with
  | hole hphase hs _ hmore =>
    obtain ⟨hunder, hstreet, hboard, hactors, -⟩ := h.of_dealing hphase
    refine .underway ⟨inPlay_dealt hunder.inPlay hs _ _, ?_, hunder.street_le,
      .dealing hphase hstreet hboard hactors hmore⟩
    rw [dealt_liveCount hs]
    exact hunder.contested
  | lastHole hphase hs _ hall => exact inv_openBetting (opening_dealt h hphase hs hall)
  | burn hphase _ =>
    obtain ⟨hunder, hdealt, hboard, hactors, hstreet, hbets⟩ := h.of_burning hphase
    refine .underway ⟨hunder.inPlay, hunder.contested, hunder.street_le,
      .revealing rfl hdealt (boardCount_pos hstreet) ?_ hactors hstreet hbets⟩
    show t.board.length + boardCount (t.street + 1) = boardSize (t.street + 1)
    rw [hboard]
    rfl
  | board hphase hmore =>
    obtain ⟨hunder, hdealt, -, hboard, hactors, hstreet, hbets⟩ := h.of_revealing hphase
    refine .underway ⟨hunder.inPlay, hunder.contested, hunder.street_le,
      .revealing rfl hdealt (by omega) ?_ hactors hstreet hbets⟩
    show (t.board ++ [_]).length + _ = boardSize (t.street + 1)
    rw [List.length_append, List.length_singleton]
    omega
  | lastBoard hphase hlast => exact inv_openBetting (opening_shown h hphase hlast _)
  | act hphase _ hactor hs hd => exact inv_advance h hphase hactor hs (allows_of_decide hd)

/-! ## The start -/

variable {config : TableConfig}

theorem posted_hole (config : TableConfig) (starts : List Int) {s : Seat}
    (hs : s ∈ posted config starts) : s.hole = none := by
  have hmap : (posted config starts).map (·.hole) = (anted config starts).map (·.hole) := by
    unfold posted
    rw [map_modify_of_eq (f := (·.putIn config.bigBlind)) _ fun _ => rfl,
      map_modify_of_eq (f := (·.putIn config.smallBlind)) _ fun _ => rfl]
  have hmem : s.hole ∈ (anted config starts).map (·.hole) := by
    rw [← hmap]
    exact List.mem_map_of_mem hs
  obtain ⟨s', hs', heq⟩ := List.mem_map.mp hmem
  obtain ⟨stack, -, rfl⟩ := List.mem_map.mp hs'
  rw [← heq]
  unfold ante
  split <;> rfl

/-- A created table satisfies the invariant. -/
theorem inv_create {seed : UInt64} (h : create config starts seed = .ok t) : Inv starts t := by
  obtain ⟨hplayable, rfl⟩ := create_eq_ok h
  have hlen := length_posted config starts
  have htwo := hplayable.two
  refine .underway ⟨inPlay_posted config hplayable, ?_, Nat.zero_le _,
    .dealing rfl rfl rfl rfl ?_⟩
  · show 2 ≤ (posted config starts).countP (·.inHand)
    rw [List.countP_eq_length.mpr fun s hs => inHand_posted hplayable hs, hlen]
    exact htwo
  · have hpos : 0 < (posted config starts).length := by omega
    have hmem := List.getElem_mem hpos
    show (posted config starts).all (·.hole.isSome) = false
    rw [List.all_eq_false]
    exact ⟨_, hmem, by rw [posted_hole config starts hmem]; simp⟩

end Table

namespace Run

variable {config : TableConfig} {starts : List Int} {turns : List Turn} {t : Table}

/-- **The invariant holds throughout a run.** -/
theorem inv (h : Run config starts turns t) : Table.Inv starts t :=
  h.invariant (fun _ _ hcreate => Table.inv_create hcreate)
    fun _ _ _ hstep hinv => Table.inv_transition hstep hinv

/-- The stacks of a run are ones that a table accepts. -/
theorem playable (h : Run config starts turns t) : Playable starts := by
  induction h with
  | create h => exact (Table.create_eq_ok h).1
  | move _ _ ih => exact ih

end Run

end Holdem
