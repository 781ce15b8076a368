import Holdem.Proofs.Table.Run
import Mathlib.Tactic.Linarith

/-!
# The seats of a table

What a decision does to the chips of the seat that takes it, and what the views of a table
(`maxBet`, `canAct`, `liveCount`) make of it.

* `Seat.Balanced`: no chips below zero, and what is behind and what was put in are together what
  the seat came with.
* `BettingView.Allows` is what the rules grant: `allows_of_decide` reads it off a decision, and
  `raiseTo_eq_ok_iff` says when a raise is one.
* `Decision.change` is the effect of a decision on the acting seat; `carryOut_getElem?` says that
  it touches no other seat.
* `maxBet_eq` characterises the highest bet, and `maxBet_spec` says that there always is one.
-/

namespace Holdem

/-! ## One seat -/

/-- The chips of a seat while the hand is played. -/
structure Seat.Balanced (s : Seat) : Prop where
  stack_nonneg : 0 ≤ s.stack
  bet_nonneg : 0 ≤ s.bet
  committed_nonneg : 0 ≤ s.committed
  balance : s.stack + s.contribution = s.start

namespace Seat

variable {s : Seat}

theorem contribution_nonneg (h : s.Balanced) : 0 ≤ s.contribution :=
  add_nonneg h.committed_nonneg h.bet_nonneg

theorem balanced_ofStack {stack : Int} (h : 0 ≤ stack) : (ofStack stack).Balanced :=
  ⟨h, le_refl _, le_refl _, by simp [ofStack, contribution]⟩

theorem moved_bounds (h : 0 ≤ s.stack) (amount : Int) :
    0 ≤ s.moved amount ∧ s.moved amount ≤ s.stack := by
  unfold moved Chips.clamp
  omega

theorem moved_eq_self {amount : Int} (h0 : 0 ≤ amount) (h : amount ≤ s.stack) :
    s.moved amount = amount := by
  unfold moved Chips.clamp
  omega

theorem balanced_putIn (h : s.Balanced) (amount : Int) : (s.putIn amount).Balanced := by
  obtain ⟨hlow, hhigh⟩ := moved_bounds h.stack_nonneg amount
  have hsum := putIn_balance s amount
  have hstart := h.balance
  refine ⟨?_, ?_, h.committed_nonneg, hsum.trans hstart⟩
  · rw [putIn_stack]
    omega
  · have := h.bet_nonneg
    rw [putIn_bet]
    omega

theorem balanced_collect (h : s.Balanced) : s.collect.Balanced := by
  have h1 := h.committed_nonneg
  have h2 := h.bet_nonneg
  refine ⟨h.stack_nonneg, le_refl _, ?_, ?_⟩
  · rw [collect_committed]
    omega
  · rw [collect_contribution]
    exact h.balance

theorem canAct_iff {s : Seat} : s.canAct = true ↔ s.inHand = true ∧ 0 < s.stack := by
  unfold canAct inHand
  rw [Bool.and_eq_true, decide_eq_true_eq]

end Seat

/-! ## What the rules grant -/

/-- What the rules ask of a decision. -/
def BettingView.Allows (v : BettingView) : Decision → Prop
  | .fold => v.bet < v.maxBet
  | .check => v.toCall = 0
  | .call amount => amount = v.toCall
  | .raise amount full =>
    v.othersCanRespond = true ∧ v.mayRaise = true ∧ v.maxBet < amount ∧ amount ≤ v.available ∧
      (v.minimum ≤ amount ∨ amount = v.available) ∧ full = Decidable.decide (v.minimum ≤ amount)

/-- A raise is a decision iff others can answer it, the betting is open to the seat, it is above
the highest bet and within its chips, and it is a full one or all of them. -/
theorem raiseTo_eq_ok_iff {v : BettingView} {amount : Int} {d : Decision} :
    v.raiseTo amount = .ok d ↔ ∃ full, d = .raise amount full ∧ v.Allows (.raise amount full) := by
  unfold BettingView.raiseTo BettingView.Allows
  by_cases h1 : v.othersCanRespond = false
  · rw [if_pos h1]
    simp [h1]
  · by_cases h2 : v.mayRaise = false
    · rw [if_neg h1, if_pos h2]
      simp [h2]
    · rw [if_neg h1, if_neg h2]
      rw [Bool.not_eq_false] at h1 h2
      by_cases h3 : v.available < amount
      · rw [if_pos h3]
        simp [h3]
      · rw [if_neg h3]
        split
        · rename_i h4
          constructor
          · intro h
            exact absurd h (by simp)
          · rintro ⟨full, -, -, -, h5, -, h6, -⟩
            rcases h4 with h4 | ⟨h4, h7⟩
            · omega
            · rcases h6 with h6 | h6
              · omega
              · exact absurd h6 h7
        · rename_i h4
          push Not at h4
          constructor
          · intro h
            refine ⟨_, (Except.ok.inj h).symm, h1, h2, h4.1, not_lt.mp h3, ?_, rfl⟩
            by_cases h5 : amount < v.minimum
            · exact Or.inr (h4.2 h5)
            · exact Or.inl (not_lt.mp h5)
          · rintro ⟨full, rfl, -, -, -, -, -, rfl⟩
            rfl

/-- **A decision is one that the rules allow.** -/
theorem allows_of_decide {v : BettingView} {a : Action} {d : Decision} (h : v.decide a = .ok d) :
    v.Allows d := by
  cases a with
  | fold =>
    simp only [BettingView.decide] at h
    split at h
    · exact absurd h (by simp)
    · rename_i hlt
      cases h
      exact not_le.mp hlt
  | checkOrCall =>
    simp only [BettingView.decide, Except.ok.injEq] at h
    split at h
    · rename_i hzero
      rw [← h]
      exact hzero
    · rw [← h]
      exact rfl
  | raiseTo amount =>
    obtain ⟨full, rfl, hallows⟩ := raiseTo_eq_ok_iff.mp h
    exact hallows
  | allIn =>
    obtain ⟨full, rfl, hallows⟩ := raiseTo_eq_ok_iff.mp h
    exact hallows

/-! ## What a decision does to the acting seat -/

/-- The effect of a decision on the seat that takes it. -/
def Decision.change (v : BettingView) : Decision → Seat → Seat
  | .fold, s => s.fold
  | .check, s => s
  | .call amount, s => s.putIn amount
  | .raise amount _, s => s.putIn (amount - v.bet)

namespace Decision

variable {v : BettingView} {s : Seat}

@[simp]
theorem change_start (v : BettingView) (d : Decision) (s : Seat) :
    (d.change v s).start = s.start := by cases d <;> rfl

@[simp]
theorem change_committed (v : BettingView) (d : Decision) (s : Seat) :
    (d.change v s).committed = s.committed := by cases d <;> rfl

@[simp]
theorem change_hole (v : BettingView) (d : Decision) (s : Seat) :
    (d.change v s).hole = s.hole := by cases d <;> rfl

theorem change_inHand {d : Decision} (h : d ≠ .fold) (v : BettingView) (s : Seat) :
    (d.change v s).inHand = s.inHand := by
  cases d with
  | fold => exact absurd rfl h
  | check => rfl
  | call amount => rfl
  | raise amount full => rfl

theorem balanced_change (h : s.Balanced) (d : Decision) : (d.change v s).Balanced := by
  cases d with
  | fold => exact ⟨h.stack_nonneg, h.bet_nonneg, h.committed_nonneg, h.balance⟩
  | check => exact h
  | call amount => exact Seat.balanced_putIn h amount
  | raise amount full => exact Seat.balanced_putIn h _

/-- Whatever a seat decides, its bet does not shrink. -/
theorem bet_le_change (h : s.Balanced) (d : Decision) : s.bet ≤ (d.change v s).bet := by
  have hmoved := fun amount => (Seat.moved_bounds h.stack_nonneg amount).1
  cases d with
  | fold => exact le_refl _
  | check => exact le_refl _
  | call amount =>
    have := hmoved amount
    rw [change, Seat.putIn_bet]
    omega
  | raise amount full =>
    have := hmoved (amount - v.bet)
    rw [change, Seat.putIn_bet]
    omega

/-- A raise brings the bet to its amount. -/
theorem change_raise_bet {amount : Int} {full : Bool} (hbet : v.bet = s.bet)
    (hstack : v.stack = s.stack) (hle : s.bet ≤ v.maxBet)
    (hd : v.Allows (.raise amount full)) :
    ((raise amount full).change v s).bet = amount := by
  obtain ⟨-, -, hgt, hav, -, -⟩ := hd
  unfold BettingView.available at hav
  rw [change, Seat.putIn_bet, Seat.moved_eq_self] <;> omega

/-- A seat that checks or calls comes up to the highest bet, or as near as its chips go. -/
theorem change_bet_le {d : Decision} (hs : s.Balanced) (hbet : v.bet = s.bet)
    (hstack : v.stack = s.stack) (hle : s.bet ≤ v.maxBet) (hd : v.Allows d)
    (hno : ∀ amount full, d ≠ .raise amount full) :
    (d.change v s).bet ≤ v.maxBet ∧
      ((d.change v s).canAct = true → (d.change v s).bet = v.maxBet) := by
  have hstack0 := hs.stack_nonneg
  cases d with
  | fold => exact ⟨hle, fun h => absurd h (by simp [change, Seat.fold, Seat.canAct])⟩
  | check =>
    rw [change]
    refine ⟨hle, fun h => ?_⟩
    have hpos := (Seat.canAct_iff.mp h).2
    have hz : v.toCall = 0 := hd
    unfold BettingView.toCall Chips.clamp at hz
    omega
  | call amount =>
    have ha : amount = v.toCall := hd
    unfold BettingView.toCall Chips.clamp at ha
    have hmoved : s.moved amount = amount := Seat.moved_eq_self (by omega) (by omega)
    rw [change, Seat.putIn_bet, hmoved]
    refine ⟨by omega, fun h => ?_⟩
    have hpos := (Seat.canAct_iff.mp h).2
    rw [Seat.putIn_stack, hmoved] at hpos
    omega
  | raise amount full => exact absurd rfl (hno amount full)

end Decision

namespace Table

variable {t : Table}

/-! ## Views of the seats -/

theorem canAct_iff {i : Nat} :
    t.canAct i = true ↔ ∃ s, t.seats[i]? = some s ∧ s.canAct = true := by
  unfold canAct
  rw [Option.any_eq_true]

theorem canAct_of_getElem? {i : Nat} {s : Seat} (h : t.seats[i]? = some s) :
    t.canAct i = s.canAct := by
  unfold canAct
  rw [h]
  rfl

theorem lt_of_canAct {i : Nat} (h : t.canAct i = true) : i < t.seats.length := by
  obtain ⟨s, hs, -⟩ := canAct_iff.mp h
  exact (List.getElem?_eq_some_iff.mp hs).1

theorem liveCount_pos_iff :
    0 < t.liveCount ↔ ∃ (i : Nat) (s : Seat), t.seats[i]? = some s ∧ s.inHand = true := by
  unfold liveCount
  rw [List.countP_pos_iff]
  constructor
  · rintro ⟨s, hs, hl⟩
    obtain ⟨i, hi⟩ := List.mem_iff_getElem?.mp hs
    exact ⟨i, s, hi, hl⟩
  · rintro ⟨i, s, hs, hl⟩
    exact ⟨s, List.mem_of_getElem? hs, hl⟩

/-- **The highest bet** is the bet of some seat that no other seat's exceeds. -/
theorem maxBet_eq {m : Int} (hle : ∀ (i : Nat) (s : Seat), t.seats[i]? = some s → s.bet ≤ m)
    (hex : ∃ (i : Nat) (s : Seat), t.seats[i]? = some s ∧ s.bet = m) : t.maxBet = m := by
  have hmax : (t.seats.map (·.bet)).max? = some m := by
    rw [List.max?_eq_some_iff]
    constructor
    · obtain ⟨i, s, hs, rfl⟩ := hex
      exact List.mem_map_of_mem (List.mem_of_getElem? hs)
    · intro b hb
      obtain ⟨s, hs, rfl⟩ := List.mem_map.mp hb
      obtain ⟨i, hi⟩ := List.mem_iff_getElem?.mp hs
      exact hle i s hi
  unfold maxBet
  rw [hmax]
  rfl

theorem maxBet_spec (h : t.seats ≠ []) :
    (∀ (i : Nat) (s : Seat), t.seats[i]? = some s → s.bet ≤ t.maxBet) ∧
      ∃ (i : Nat) (s : Seat), t.seats[i]? = some s ∧ s.bet = t.maxBet := by
  have hne : t.seats.map (·.bet) ≠ [] := by simpa using h
  obtain ⟨m, hm⟩ : ∃ m, (t.seats.map (·.bet)).max? = some m := by
    cases hmax : (t.seats.map (·.bet)).max? with
    | none => exact absurd (List.max?_eq_none_iff.mp hmax) hne
    | some m => exact ⟨m, rfl⟩
  have heq : t.maxBet = m := by
    unfold maxBet
    rw [hm]
    rfl
  rw [List.max?_eq_some_iff] at hm
  rw [heq]
  constructor
  · intro i s hs
    exact hm.2 s.bet (List.mem_map_of_mem (List.mem_of_getElem? hs))
  · obtain ⟨s, hs, hb⟩ := List.mem_map.mp hm.1
    obtain ⟨i, hi⟩ := List.mem_iff_getElem?.mp hs
    exact ⟨i, s, hi, hb⟩

theorem le_maxBet {i : Nat} {s : Seat} (h : t.seats[i]? = some s) : s.bet ≤ t.maxBet :=
  (maxBet_spec (List.ne_nil_of_mem (List.mem_of_getElem? h))).1 i s h

/-! ## Carrying a decision out -/

variable {v : BettingView} {d : Decision}

@[simp]
theorem carryOut_config (t : Table) (v : BettingView) (d : Decision) :
    (t.carryOut v d).config = t.config := by
  cases d with
  | raise amount full => cases full <;> rfl
  | _ => rfl

@[simp]
theorem carryOut_street (t : Table) (v : BettingView) (d : Decision) :
    (t.carryOut v d).street = t.street := by
  cases d with
  | raise amount full => cases full <;> rfl
  | _ => rfl

@[simp]
theorem carryOut_board (t : Table) (v : BettingView) (d : Decision) :
    (t.carryOut v d).board = t.board := by
  cases d with
  | raise amount full => cases full <;> rfl
  | _ => rfl

@[simp]
theorem carryOut_phase (t : Table) (v : BettingView) (d : Decision) :
    (t.carryOut v d).phase = t.phase := by
  cases d with
  | raise amount full => cases full <;> rfl
  | _ => rfl

theorem carryOut_seats (t : Table) (v : BettingView) (d : Decision) :
    (t.carryOut v d).seats = t.seats.modify v.seat (d.change v) := by
  cases d with
  | fold => rfl
  | check => exact (List.modify_id _ _).symm
  | call amount => rfl
  | raise amount full => cases full <;> rfl

/-- **A decision changes the seat that takes it, and no other.** -/
theorem carryOut_getElem? (t : Table) (v : BettingView) (d : Decision) (i : Nat) :
    (t.carryOut v d).seats[i]? =
      if v.seat = i then (t.seats[i]?).map (d.change v) else t.seats[i]? := by
  rw [carryOut_seats, List.getElem?_modify]
  by_cases h : v.seat = i
  · rw [if_pos h]
    simp [h]
  · rw [if_neg h]
    simp [h]

theorem carryOut_self {s : Seat} (h : t.seats[v.seat]? = some s) :
    (t.carryOut v d).seats[v.seat]? = some (d.change v s) := by
  rw [carryOut_getElem?, if_pos rfl, h]
  rfl

theorem carryOut_other {i : Nat} (h : i ≠ v.seat) :
    (t.carryOut v d).seats[i]? = t.seats[i]? := by
  rw [carryOut_getElem?, if_neg (Ne.symm h)]

theorem carryOut_canAct_other {i : Nat} (h : i ≠ v.seat) :
    (t.carryOut v d).canAct i = t.canAct i := by
  unfold canAct
  rw [carryOut_other h]

/-- A seat after a decision: the acting one, changed, or another one as it was. -/
theorem carryOut_cases {i : Nat} {s' : Seat} (h : (t.carryOut v d).seats[i]? = some s') :
    (i = v.seat ∧ ∃ s, t.seats[i]? = some s ∧ s' = d.change v s) ∨
      (i ≠ v.seat ∧ t.seats[i]? = some s') := by
  rw [carryOut_getElem?] at h
  split at h
  · rename_i hi
    obtain ⟨s, hs, he⟩ := Option.map_eq_some_iff.mp h
    exact Or.inl ⟨hi.symm, s, hs, he.symm⟩
  · rename_i hi
    exact Or.inr ⟨fun he => hi he.symm, h⟩

end Table

end Holdem
