import Holdem.Proofs.Table.Level
import Holdem.Proofs.Table.Rotation
import Mathlib.Data.List.Perm.Subperm

/-!
# The seats still to act

`Queued` is what the list of actors means while a round of betting goes on: its seats are distinct
and able to act, and whoever else is able to has matched the highest bet. A round that opens starts
with such a list (`queued_opened`), every decision of its head leaves one (`Queued.carryOut`), and
when none are left the bets are matched (`Queued.matched_seats`).
-/

namespace Holdem.Table

variable {t : Table}

/-- What the list of actors means. -/
structure Queued (t : Table) : Prop where
  nodup : t.actors.Nodup
  able : ∀ i ∈ t.actors, t.canAct i = true
  matched : ∀ (i : Nat) (s : Seat), t.seats[i]? = some s → s.canAct = true → i ∉ t.actors →
    s.bet = t.maxBet

/-- No more seats are to act than there are. -/
theorem Queued.length_le (h : Queued t) : t.actors.length ≤ t.seats.length := by
  have hsub : t.actors ⊆ List.range t.seats.length := fun i hi =>
    List.mem_range.mpr (lt_of_canAct (h.able i hi))
  simpa using (List.subperm_of_subset h.nodup hsub).length_le

/-! ## Opening -/

/-- The seats able to act when a round opens, in turn. -/
def ableInTurn (t : Table) : List Nat := (t.clockwise t.opener).filter t.canAct

/-- Whether a seat owes chips. -/
def owes (t : Table) (i : Nat) : Bool := ((t.seats[i]?).map (·.bet)).getD 0 < t.maxBet

/-- **Who acts in a new round**: the seats able to, from the opener on, but a lone one only if it
owes chips. -/
theorem openingActors_eq (h : t.seats ≠ []) :
    t.openingActors =
      if t.ableInTurn.length ≤ 1 then t.ableInTurn.filter t.owes else t.ableInTurn := by
  have hpos := List.length_pos_iff.mpr h
  have hturn : t.rotation (t.opener + t.seats.length - 1) = t.clockwise t.opener := by
    rw [rotation_eq_clockwise, Nat.sub_add_cancel (by omega), ← clockwise_mod, Nat.add_mod_right,
      clockwise_mod]
  unfold openingActors
  rw [hturn]
  rfl

theorem openingActors_sublist (h : t.seats ≠ []) : t.openingActors.Sublist t.ableInTurn := by
  rw [openingActors_eq h]
  split
  · exact List.filter_sublist
  · exact List.Sublist.refl _

theorem mem_ableInTurn {i : Nat} : i ∈ t.ableInTurn ↔ t.canAct i = true := by
  unfold ableInTurn
  rw [List.mem_filter, mem_clockwise]
  exact ⟨fun h => h.2, fun h => ⟨lt_of_canAct h, h⟩⟩

theorem queued_opened (h : t.seats ≠ []) : Queued t.opened := by
  have hsub := openingActors_sublist h
  refine ⟨hsub.nodup ((nodup_clockwise t t.opener).filter _),
    fun i hi => mem_ableInTurn.mp (hsub.mem hi), fun i s hs hact hi => ?_⟩
  · rw [opened_seats] at hs
    have hmem : i ∈ t.ableInTurn := by
      rw [mem_ableInTurn, canAct_of_getElem? hs]
      exact hact
    rw [opened_actors, openingActors_eq h] at hi
    split at hi
    · rw [List.mem_filter, not_and] at hi
      have howes := hi hmem
      unfold owes at howes
      rw [hs, decide_eq_true_eq] at howes
      exact le_antisymm (le_maxBet hs) (not_lt.mp howes)
    · exact absurd hmem hi

/-! ## A decision -/

variable {seat : Nat} {s : Seat} {d : Decision}

theorem carryOut_actors {v : BettingView} (hno : ∀ amount full, d ≠ .raise amount full) :
    (t.carryOut v d).actors = t.actors.tail := by
  cases d with
  | raise amount full => exact absurd rfl (hno amount full)
  | _ => rfl

/-- After a raise everybody else who is able to acts, in turn from the raiser. -/
theorem carryOut_actors_raise (v : BettingView) (amount : Int) (full : Bool) :
    (t.carryOut v (.raise amount full)).actors =
      ((t.carryOut v (.raise amount full)).clockwise (v.seat + 1)).filter
        fun i => i != v.seat && (t.carryOut v (.raise amount full)).canAct i := by
  rw [← rotation_eq_clockwise]
  cases full <;> rfl

/-- The head of the list acts. -/
theorem Queued.able_actor (h : Queued t) (hactor : t.actor? = some seat)
    (hs : t.seats[seat]? = some s) : s.canAct = true := by
  rw [← canAct_of_getElem? hs]
  exact h.able seat (List.mem_of_head? hactor)

theorem exists_actor (h : t.actors ≠ []) : ∃ i, t.actor? = some i := by
  obtain ⟨i, rest, heq⟩ := List.exists_cons_of_ne_nil h
  refine ⟨i, ?_⟩
  unfold actor?
  rw [heq, List.head?_cons]

theorem actors_eq_cons (hactor : t.actor? = some seat) : t.actors = seat :: t.actors.tail :=
  (List.cons_head?_tail hactor).symm

/-- The seats that act after the head are others. -/
theorem Queued.ne_of_mem_tail (h : Queued t) (hactor : t.actor? = some seat) {i : Nat}
    (hi : i ∈ t.actors.tail) : i ≠ seat := by
  have hnodup := h.nodup
  rw [actors_eq_cons hactor] at hnodup
  exact fun he => (List.nodup_cons.mp hnodup).1 (he ▸ hi)

theorem Queued.carryOut_stay (h : Queued t) (hactor : t.actor? = some seat)
    (hs : t.seats[seat]? = some s) (hbal : s.Balanced) (hd : (t.viewOf seat s).Allows d)
    (hno : ∀ amount full, d ≠ .raise amount full) :
    Queued (t.carryOut (t.viewOf seat s) d) := by
  have hcons := actors_eq_cons hactor
  refine ⟨?_, fun i hi => ?_, fun i s' hs' hact hi => ?_⟩
  · rw [carryOut_actors hno]
    exact h.nodup.sublist (List.tail_sublist _)
  · rw [carryOut_actors hno] at hi
    have hne := h.ne_of_mem_tail hactor hi
    rw [carryOut_canAct_other (v := t.viewOf seat s) hne]
    exact h.able i (List.mem_of_mem_tail hi)
  · rw [maxBet_carryOut hs hbal hd hno]
    rw [carryOut_actors hno] at hi
    rcases carryOut_cases hs' with ⟨rfl, s₀, hs₀, rfl⟩ | ⟨hne, hs'⟩
    · obtain rfl : s = s₀ := Option.some.inj (hs.symm.trans hs₀)
      exact (Decision.change_bet_le hbal rfl rfl (le_maxBet hs) hd hno).2 hact
    · refine h.matched i s' hs' hact fun hmem => ?_
      rw [hcons] at hmem
      rcases List.mem_cons.mp hmem with he | hmem
      · exact hne he
      · exact hi hmem

theorem queued_carryOut_raise {amount : Int} {full : Bool} (hs : t.seats[seat]? = some s)
    (hd : (t.viewOf seat s).Allows (.raise amount full)) :
    Queued (t.carryOut (t.viewOf seat s) (.raise amount full)) := by
  refine ⟨?_, fun i hi => ?_, fun i s' hs' hact hi => ?_⟩
  · rw [carryOut_actors_raise]
    exact (nodup_clockwise _ _).filter _
  · rw [carryOut_actors_raise, List.mem_filter, Bool.and_eq_true] at hi
    exact hi.2.2
  · rw [maxBet_raise hs hd]
    rcases carryOut_cases hs' with ⟨rfl, s₀, hs₀, rfl⟩ | ⟨hne, -⟩
    · obtain rfl : s = s₀ := Option.some.inj (hs.symm.trans hs₀)
      exact Decision.change_raise_bet rfl rfl (le_maxBet hs) hd
    · have hcan := canAct_of_getElem? hs'
      rw [hact] at hcan
      refine absurd ?_ hi
      rw [carryOut_actors_raise, List.mem_filter, mem_clockwise, Bool.and_eq_true, bne_iff_ne]
      exact ⟨lt_of_canAct hcan, hne, hcan⟩

/-- **A decision leaves a list of seats still to act.** -/
theorem Queued.carryOut (h : Queued t) (hactor : t.actor? = some seat)
    (hs : t.seats[seat]? = some s) (hbal : s.Balanced) (hd : (t.viewOf seat s).Allows d) :
    Queued (t.carryOut (t.viewOf seat s) d) := by
  by_cases hraise : ∃ amount full, d = .raise amount full
  · obtain ⟨amount, full, rfl⟩ := hraise
    exact queued_carryOut_raise hs hd
  · push Not at hraise
    exact h.carryOut_stay hactor hs hbal hd hraise

/-- When nobody is left to act, the bets are matched. -/
theorem Queued.matched_seats (h : Queued t) (hnone : t.actors = []) : Matched t.seats := by
  intro s hs hact s' hs'
  obtain ⟨i, hi⟩ := List.mem_iff_getElem?.mp hs
  obtain ⟨j, hj⟩ := List.mem_iff_getElem?.mp hs'
  rw [h.matched i s hi hact (hnone ▸ List.not_mem_nil)]
  exact le_maxBet hj

end Holdem.Table
