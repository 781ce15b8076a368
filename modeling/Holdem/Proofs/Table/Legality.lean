import Holdem.Proofs.Table.Trace

/-!
# Which actions are legal

The table keeps three things to tell who may raise and by how much: the least increment, the seats
that acted, and the seats that may not raise. This file says what they stand for, in terms of the
actions on the street alone.

* `largestIncrement` is the minimum bet, or what the largest full raise on the street added to the
  highest bet. A raise is full (`isFull`) if it adds at least what is largest at its moment.
* `Encoded`: the least increment is the largest increment, the seats that acted are those that did
  since the last full raise, and of the seats still to act those may not raise that did so.

Results: `encoded_pass` is the step, `Run.encoded` holds of every betting table, and
**`Run.legal_actions`** says which actions are accepted.
-/

namespace Holdem

/-! ## Full raises -/

/-- What a turn adds to the highest bet, if it is a raise. -/
def Turn.increment? (u : Turn) : Option Int :=
  match u.move with
  | .raiseTo amount => some (amount - u.before.maxBet)
  | _ => none

/-- The largest increment of a street, that of a full raise or the minimum bet. -/
def largestIncrement (minBet : Int) : List Turn → Int
  | [] => minBet
  | u :: earlier =>
    match u.increment? with
    | some increment =>
      if largestIncrement minBet earlier ≤ increment then increment
      else largestIncrement minBet earlier
    | none => largestIncrement minBet earlier

/-- Whether a turn is a full raise, given what came before it on the street. -/
def isFull (minBet : Int) (u : Turn) (earlier : List Turn) : Bool :=
  u.increment?.any fun increment => largestIncrement minBet earlier ≤ increment

/-- The seats that acted since the street opened or was last fully raised. -/
def actedSinceFull (minBet : Int) (turns : List Turn) : List Nat :=
  seatsOf (since (isFull minBet) (streetTurns turns))

theorem largestIncrement_full {minBet : Int} {u : Turn} {earlier : List Turn} {increment : Int}
    (hu : u.increment? = some increment) (hfull : isFull minBet u earlier = true) :
    largestIncrement minBet (u :: earlier) = max (largestIncrement minBet earlier) increment := by
  unfold isFull at hfull
  rw [hu, Option.any_some, decide_eq_true_eq] at hfull
  rw [largestIncrement, hu, max_eq_right hfull]
  exact if_pos hfull

theorem largestIncrement_not_full {minBet : Int} {u : Turn} {earlier : List Turn}
    (hfull : isFull minBet u earlier = false) :
    largestIncrement minBet (u :: earlier) = largestIncrement minBet earlier := by
  unfold isFull at hfull
  rw [largestIncrement]
  cases hu : u.increment? with
  | none => rfl
  | some increment =>
    rw [hu, Option.any_some, decide_eq_false_iff_not] at hfull
    exact if_neg hfull

/-! ## What the table keeps -/

/-- The state of a betting table encodes the actions on its street. -/
structure Encoded (minBet : Int) (turns : List Turn) (t : Table) : Prop where
  increment : t.minIncrement = largestIncrement minBet turns
  acted : ∀ i, i ∈ t.acted ↔ i ∈ seatsOf (since (isFull minBet) turns)
  closed_acted : ∀ i ∈ t.raiseClosed, i ∈ t.acted
  closed : ∀ i ∈ t.actors, i ∈ t.acted → i ∈ t.raiseClosed

namespace Table

variable {t : Table} {starts : List Int} {seat : Nat} {s : Seat}

/-! ## Chips that can be counted -/

theorem available_lt_most (h : Playable starts) (hplay : InPlay starts t.seats)
    (hs : t.seats[seat]? = some s) : s.bet + s.stack < Chips.most := by
  have hmem := List.mem_of_getElem? hs
  have hbal := hplay.balanced s hmem
  have hbalance := hbal.balance
  have hcommitted := hbal.committed_nonneg
  have hstart := start_mem hplay.starts_eq hmem
  have := start_lt_most h hstart
  unfold Seat.contribution at hbalance
  omega

theorem maxBet_nonneg (hplay : InPlay starts t.seats) : 0 ≤ t.maxBet := by
  obtain ⟨i, s, hs, -, -, hbet⟩ := hplay.level.choose_spec.2.maxBet
  rw [← hbet]
  exact (hplay.balanced s (List.mem_of_getElem? hs)).bet_nonneg

/-- That the least full raise stays within what can be counted makes no difference to a raise that
a seat can pay. -/
theorem minimum_le_iff (h : Playable starts) (hplay : InPlay starts t.seats)
    (hs : t.seats[seat]? = some s) {amount : Int} (hgt : t.maxBet < amount)
    (hle : amount ≤ s.bet + s.stack) :
    (t.viewOf seat s).minimum ≤ amount ↔ t.maxBet + t.minIncrement ≤ amount := by
  have hmost := available_lt_most h hplay hs
  have hmax := maxBet_nonneg hplay
  have hleast : Chips.least < 0 := by decide
  show Chips.saturate (t.maxBet + t.minIncrement) ≤ amount ↔ _
  unfold Chips.saturate Chips.clamp
  omega

/-! ## One turn -/

variable {minBet : Int} {turns : List Turn} {m : Move} {d : Decision}

/-- Nobody has acted when a street opens. -/
theorem encoded_opened (t : Table) : Encoded t.config.minBet [] t.opened where
  increment := rfl
  acted := fun _ => Iff.rfl
  closed_acted := fun _ hi => hi
  closed := fun _ _ hi => hi

/-- What a raise adds to the highest bet, from the turn. -/
theorem Acting.increment? (h : Acting t m seat s d) {amount : Int} {full : Bool}
    (hd : d = .raise amount full) : (Turn.mk t m).increment? = some (amount - t.maxBet) := by
  unfold Turn.increment?
  rw [h.move_eq hd]

theorem Acting.increment?_eq_none (h : Acting t m seat s d)
    (hno : ∀ amount full, d ≠ .raise amount full) : (Turn.mk t m).increment? = none := by
  cases m with
  | raiseTo amount =>
    obtain ⟨full, hd⟩ := h.raises rfl
    exact absurd hd (hno amount full)
  | _ => rfl

/-- **The table takes a raise for full if it is**, by the actions on the street. -/
theorem isFull_raise (hplayable : Playable starts) (hinv : Inv starts t)
    (h : Acting t m seat s d) (he : Encoded minBet turns t) {amount : Int} {full : Bool}
    (hd : d = .raise amount full) : isFull minBet ⟨t, m⟩ turns = full := by
  have hplay := (hinv.of_betting h.phase).1.inPlay
  have hallows := h.allows
  rw [hd] at hallows
  obtain ⟨-, -, hgt, hle, -, hfull⟩ := hallows
  have hiff := minimum_le_iff hplayable hplay h.seated hgt hle
  unfold isFull
  rw [h.increment? hd, Option.any_some, hfull, decide_eq_decide, hiff, he.increment]
  omega

theorem isFull_stay (minBet : Int) (turns : List Turn) (h : Acting t m seat s d)
    (hno : ∀ amount full, d ≠ .raise amount full) : isFull minBet ⟨t, m⟩ turns = false := by
  unfold isFull
  rw [h.increment?_eq_none hno]
  rfl

/-- Checks, calls and folds leave what is kept of the raises. -/
theorem carryOut_kept {v : BettingView} (hno : ∀ amount full, d ≠ .raise amount full) :
    (t.carryOut v d).minIncrement = t.minIncrement ∧ (t.carryOut v d).acted = t.acted ∧
      (t.carryOut v d).raiseClosed = t.raiseClosed := by
  cases d with
  | raise amount full => exact absurd rfl (hno amount full)
  | _ => exact ⟨rfl, rfl, rfl⟩

/-- A full raise sets what is kept of the raises anew. -/
theorem carryOut_full (t : Table) (v : BettingView) (amount : Int) :
    (t.carryOut v (.raise amount true)).minIncrement = max t.minIncrement (amount - v.maxBet) ∧
      (t.carryOut v (.raise amount true)).acted = [] ∧
      (t.carryOut v (.raise amount true)).raiseClosed = [] :=
  ⟨rfl, rfl, rfl⟩

/-- A short raise closes the raising to the seats that had acted. -/
theorem carryOut_short (t : Table) (v : BettingView) (amount : Int) :
    (t.carryOut v (.raise amount false)).minIncrement = t.minIncrement ∧
      (t.carryOut v (.raise amount false)).acted = t.acted ∧
      (t.carryOut v (.raise amount false)).raiseClosed = t.raiseClosed ++ t.acted :=
  ⟨rfl, rfl, rfl⟩

/-- The raiser does not answer its own raise. -/
theorem not_mem_actors_raise (t : Table) (v : BettingView) (amount : Int) (full : Bool) :
    v.seat ∉ (t.carryOut v (.raise amount full)).actors := by
  rw [carryOut_actors_raise, List.mem_filter, Bool.and_eq_true, bne_iff_ne]
  exact fun h => h.2.1 rfl

/-- The turn goes on by a fold, a check or a call: one more seat has acted. -/
theorem encoded_stay (hqueue : Queued t) (h : Acting t m seat s d)
    (hno : ∀ amount full, d ≠ .raise amount full) (he : Encoded minBet turns t) :
    Encoded minBet (⟨t, m⟩ :: turns) (t.decided (t.viewOf seat s) d) := by
  have hcons := actors_eq_cons h.actor
  have hnot : seat ∉ t.actors.tail := by
    have := hqueue.nodup
    rw [hcons] at this
    exact (List.nodup_cons.mp this).1
  obtain ⟨hincrement, hacted, hclosed⟩ := carryOut_kept (t := t) (v := t.viewOf seat s) hno
  have hsince := since_unmarked (isFull_stay minBet turns h hno)
  refine ⟨?_, fun i => ?_, fun i hi => ?_, fun i hi hia => ?_⟩
  · rw [largestIncrement_not_full (isFull_stay minBet turns h hno), decided_minIncrement,
      hincrement, he.increment]
  · rw [hsince, seatsOf_cons h.actor, decided_acted, hacted, viewOf_seat, List.mem_cons,
      List.mem_cons, he.acted]
  · rw [decided_raiseClosed, hclosed] at hi
    rw [decided_acted, hacted]
    exact List.mem_cons_of_mem seat (he.closed_acted i hi)
  · rw [decided_actors, carryOut_actors hno] at hi
    rw [decided_acted, hacted] at hia
    rw [decided_raiseClosed, hclosed]
    rcases List.mem_cons.mp hia with rfl | hia
    · exact absurd hi hnot
    · exact he.closed i (hcons ▸ List.mem_cons_of_mem seat hi) hia

/-- A full raise opens the betting anew: only the raiser has acted. -/
theorem encoded_full {amount : Int} (h : Acting t m seat s (.raise amount true))
    (hfull : isFull minBet ⟨t, m⟩ turns = true) (he : Encoded minBet turns t) :
    Encoded minBet (⟨t, m⟩ :: turns) (t.decided (t.viewOf seat s) (.raise amount true)) := by
  obtain ⟨hincrement, hacted, hclosed⟩ := carryOut_full t (t.viewOf seat s) amount
  refine ⟨?_, fun i => ?_, fun i hi => ?_, fun i hi hia => ?_⟩
  · rw [largestIncrement_full (h.increment? rfl) hfull, decided_minIncrement, hincrement,
      he.increment, viewOf_maxBet]
  · rw [since_marked hfull, seatsOf_cons h.actor, decided_acted, hacted, viewOf_seat]
    exact Iff.rfl
  · rw [decided_raiseClosed, hclosed] at hi
    exact absurd hi List.not_mem_nil
  · rw [decided_acted, hacted] at hia
    rw [List.mem_singleton.mp hia] at hi
    exact absurd hi (not_mem_actors_raise t _ amount true)

/-- A raise short of a full one closes the raising to the seats that had acted. -/
theorem encoded_short {amount : Int} (h : Acting t m seat s (.raise amount false))
    (hshort : isFull minBet ⟨t, m⟩ turns = false) (he : Encoded minBet turns t) :
    Encoded minBet (⟨t, m⟩ :: turns) (t.decided (t.viewOf seat s) (.raise amount false)) := by
  obtain ⟨hincrement, hacted, hclosed⟩ := carryOut_short t (t.viewOf seat s) amount
  refine ⟨?_, fun i => ?_, fun i hi => ?_, fun i hi hia => ?_⟩
  · rw [largestIncrement_not_full hshort, decided_minIncrement, hincrement, he.increment]
  · rw [since_unmarked hshort, seatsOf_cons h.actor, decided_acted, hacted, viewOf_seat,
      List.mem_cons, List.mem_cons, he.acted]
  · rw [decided_raiseClosed, hclosed] at hi
    rw [decided_acted, hacted]
    rcases List.mem_append.mp hi with hi | hi
    · exact List.mem_cons_of_mem seat (he.closed_acted i hi)
    · exact List.mem_cons_of_mem seat hi
  · rw [decided_acted, hacted] at hia
    rw [decided_raiseClosed, hclosed]
    rcases List.mem_cons.mp hia with rfl | hia
    · exact absurd hi (not_mem_actors_raise t _ amount false)
    · exact List.mem_append.mpr (Or.inr hia)

/-- **Passing the turn on keeps the encoding.** -/
theorem encoded_pass (hplayable : Playable starts) (hinv : Inv starts t)
    (h : Acting t m seat s d) (he : Encoded minBet turns t) :
    Encoded minBet (⟨t, m⟩ :: turns) (t.decided (t.viewOf seat s) d) := by
  by_cases hraise : ∃ amount full, d = .raise amount full
  · obtain ⟨amount, full, rfl⟩ := hraise
    have hfull := isFull_raise hplayable hinv h he rfl
    cases full with
    | true => exact encoded_full h hfull he
    | false => exact encoded_short h hfull he
  · push Not at hraise
    exact encoded_stay (hinv.of_betting h.phase).2.2.2.2 h hraise he

/-! ## The view of the actor -/

theorem othersCanRespond_iff {i : Nat} :
    (t.viewOf i s).othersCanRespond = true ↔
      ∃ (j : Nat) (w : Seat), j ≠ i ∧ t.seats[j]? = some w ∧ w.inHand = true ∧ 0 < w.stack := by
  show ((List.range t.seats.length).any fun j => j != i && t.canAct j) = true ↔ _
  rw [List.any_eq_true]
  constructor
  · rintro ⟨j, -, hj⟩
    rw [Bool.and_eq_true, bne_iff_ne] at hj
    obtain ⟨w, hw, hact⟩ := canAct_iff.mp hj.2
    obtain ⟨hlive, hstack⟩ := Seat.canAct_iff.mp hact
    exact ⟨j, w, hj.1, hw, hlive, hstack⟩
  · rintro ⟨j, w, hne, hw, hlive, hstack⟩
    have hact : t.canAct j = true := canAct_iff.mpr ⟨w, hw, Seat.canAct_iff.mpr ⟨hlive, hstack⟩⟩
    refine ⟨j, List.mem_range.mpr (lt_of_canAct hact), ?_⟩
    rw [Bool.and_eq_true, bne_iff_ne]
    exact ⟨hne, hact⟩

/-- **Who may raise**: a seat that has not acted since the last full raise. -/
theorem mayRaise_iff (he : Encoded minBet turns t) (hactor : t.actor? = some seat) :
    (t.viewOf seat s).mayRaise = true ↔ seat ∉ seatsOf (since (isFull minBet) turns) := by
  show (!t.raiseClosed.contains seat) = true ↔ _
  rw [Bool.not_eq_true', List.contains_eq_mem, decide_eq_false_iff_not, ← he.acted]
  refine not_congr ⟨he.closed_acted seat, fun hacted => ?_⟩
  exact he.closed seat (List.mem_of_head? hactor) hacted

end Table

/-! ## Throughout a run -/

namespace Run

variable {config : TableConfig} {starts : List Int} {turns : List Turn} {t : Table}

/-- Every betting table encodes the actions on its street. -/
theorem encoded (h : Run config starts turns t) (hphase : t.phase = .betting) :
    Encoded config.minBet (streetTurns turns) t := by
  have hplayable := h.playable
  refine h.betting_induction (fun x hconfig _ _ _ => ?_) (fun turns t m seat s d hinv hact he => ?_)
    hphase
  · rw [← hconfig]
    exact Table.encoded_opened x
  · exact Table.encoded_pass hplayable hinv hact he

/-- **Which actions are legal**, told by the actions on the street. Some seat is to act. It may
always check or call; it may fold if it owes chips; and it may raise to an amount if
* some other seat in the hand has chips behind,
* it has not acted since the street opened or was last fully raised,
* the amount is above the highest bet and within its chips, and
* it adds the largest increment of the street, or is all the seat has. -/
theorem legal_actions (h : Run config starts turns t) (hphase : t.phase = .betting) :
    ∃ (i : Nat) (s : Seat), t.actor? = some i ∧ t.seats[i]? = some s ∧
      t.Accepts .checkOrCall ∧
      (t.Accepts .fold ↔ s.bet < t.maxBet) ∧
      ∀ amount : Int, t.Accepts (.raiseTo amount) ↔
        (∃ (j : Nat) (w : Seat), j ≠ i ∧ t.seats[j]? = some w ∧ w.inHand = true ∧ 0 < w.stack) ∧
        i ∉ actedSinceFull config.minBet turns ∧
        t.maxBet < amount ∧ amount ≤ s.bet + s.stack ∧
        (t.maxBet + largestIncrement config.minBet (streetTurns turns) ≤ amount ∨
          amount = s.bet + s.stack) := by
  have he := h.encoded hphase
  obtain ⟨hunder, -, -, hactors, hqueue⟩ := h.inv.of_betting hphase
  obtain ⟨i, hi⟩ := Table.exists_actor hactors
  obtain ⟨s, hs, -⟩ := Table.canAct_iff.mp (hqueue.able i (List.mem_of_head? hi))
  refine ⟨i, s, hi, hs, ?_, ?_, fun amount => ?_⟩
  · rw [Table.accepts_iff_decide hphase hi hs rfl]
    exact ⟨_, rfl⟩
  · rw [Table.accepts_iff_decide hphase hi hs rfl]
    constructor
    · rintro ⟨d, hd⟩
      have hfold : d = .fold := by
        simp only [BettingView.decide] at hd
        split at hd
        · exact absurd hd (by simp)
        · exact (Except.ok.inj hd).symm
      have hallows := allows_of_decide hd
      rw [hfold] at hallows
      exact hallows
    · intro hlt
      exact ⟨.fold, if_neg (not_le.mpr hlt)⟩
  · rw [Table.accepts_iff_decide hphase hi hs rfl, ← Table.othersCanRespond_iff]
    unfold actedSinceFull
    rw [← Table.mayRaise_iff he hi (s := s), ← he.increment]
    constructor
    · rintro ⟨d, hd⟩
      obtain ⟨full, -, hothers, hmay, hgt, hle, hmin, -⟩ := raiseTo_eq_ok_iff.mp hd
      refine ⟨hothers, hmay, hgt, hle, ?_⟩
      rwa [Table.minimum_le_iff h.playable hunder.inPlay hs hgt hle] at hmin
    · rintro ⟨hothers, hmay, hgt, hle, hmin⟩
      rw [← Table.minimum_le_iff h.playable hunder.inPlay hs hgt hle] at hmin
      exact ⟨_, raiseTo_eq_ok_iff.mpr ⟨_, rfl, hothers, hmay, hgt, hle, hmin, rfl⟩⟩

/-- Seat 2 raises, seat 0 calls, and seat 1 is all in for less than a full raise. -/
def shortAllInMoves : List Move :=
  [.hole 0 ⟨.ace, .spades⟩ ⟨.ace, .hearts⟩, .hole 1 ⟨.king, .spades⟩ ⟨.king, .hearts⟩,
    .hole 2 ⟨.two, .spades⟩ ⟨.seven, .hearts⟩, .raiseTo 100, .checkOrCall, .raiseTo 130]

/-- After the short all-in seat 2 may call or fold, and raise only if it had not acted. -/
theorem legal_actions_short_all_in : ∃ turns t,
    Run .standard [500, 130, 500] turns t ∧ t.phase = .betting ∧ t.actor? = some 2 ∧
      t.Accepts .checkOrCall ∧ t.Accepts .fold ∧
      ∀ amount, t.Accepts (.raiseTo amount) → 2 ∉ actedSinceFull 40 turns ∧ 130 < amount := by
  obtain ⟨turns, t, d, hrun, ⟨hphase, hactor, hbet, hmax⟩, -⟩ :=
    exists_run .standard [500, 130, 500] shortAllInMoves
      (fun t => t.phase = .betting ∧ t.actor? = some 2 ∧
        (t.seats[2]?).map (·.bet) = some 100 ∧ t.maxBet = 130)
      ⟨by decide, by decide, by decide⟩ (by decide +kernel) (by decide)
  obtain ⟨i, s, hi, hs, hcall, hfold, hraise⟩ := hrun.legal_actions hphase
  obtain rfl : 2 = i := Option.some.inj (hactor.symm.trans hi)
  obtain ⟨w, hw, hbet⟩ := Option.map_eq_some_iff.mp hbet
  obtain rfl : w = s := Option.some.inj (hw.symm.trans hs)
  refine ⟨turns, _, hrun, hphase, hactor, hcall, hfold.mpr ?_, fun amount ha => ?_⟩
  · show w.bet < t.maxBet
    omega
  · obtain ⟨-, hacted, hgt, -⟩ := (hraise amount).mp ha
    exact ⟨hacted, hmax ▸ hgt⟩

end Run

end Holdem
