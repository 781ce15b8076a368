import Holdem.Proofs.Table.Seats

/-!
# The level of a hand

Until the hand ends, the chips of all seats stand in one relation to a *level*, the chips that every
seat had to put in on earlier streets to be able to go on.

* `Level`: no seat was collected for more than the level, and a seat that bets on this street or
  could do so was collected for exactly that much. Seats that were all in earlier, or folded
  earlier, may be below it.
* `Leads`: some live seat is at the level and has the highest bet. So no folded seat is ever above
  every live one (`leads_contribution`).
* `InPlay` puts the two together with the balance of every seat. `Table.inPlay_carryOut` keeps it
  through a decision, and `InPlay.collect` through the end of a round of matched bets.
-/

namespace Holdem

/-- What a seat was collected for, in relation to the level. -/
structure Level (seats : List Seat) (level : Int) : Prop where
  committed_le : ∀ s ∈ seats, s.committed ≤ level
  of_bet : ∀ s ∈ seats, 0 < s.bet → s.committed = level
  of_canAct : ∀ s ∈ seats, s.canAct = true → s.committed = level

/-- Some live seat is at the level and has the highest bet. -/
def Leads (seats : List Seat) (level : Int) : Prop :=
  ∃ s ∈ seats, s.inHand = true ∧ s.committed = level ∧ ∀ s' ∈ seats, s'.bet ≤ s.bet

/-- The chips of a hand that has not ended. -/
structure InPlay (starts : List Int) (seats : List Seat) : Prop where
  starts_eq : seats.map (·.start) = starts
  balanced : ∀ s ∈ seats, s.Balanced
  level : ∃ level, Level seats level ∧ Leads seats level

variable {starts : List Int} {seats : List Seat} {level : Int}

/-! ## Consequences -/

theorem start_mem (h : seats.map (·.start) = starts) {s : Seat} (hs : s ∈ seats) :
    s.start ∈ starts := by
  rw [← h]
  exact List.mem_map_of_mem hs

/-- **Some live seat has the largest contribution of all.** -/
theorem leads_contribution (hl : Level seats level) (ht : Leads seats level) :
    ∃ s ∈ seats, s.inHand = true ∧ ∀ s' ∈ seats, s'.contribution ≤ s.contribution := by
  obtain ⟨s, hs, hlive, hc, hbet⟩ := ht
  refine ⟨s, hs, hlive, fun s' hs' => ?_⟩
  have h1 := hl.committed_le s' hs'
  have h2 := hbet s' hs'
  unfold Seat.contribution
  omega

theorem Leads.maxBet {t : Table} (h : Leads t.seats level) :
    ∃ (i : Nat) (s : Seat), t.seats[i]? = some s ∧ s.inHand = true ∧ s.committed = level ∧
      s.bet = t.maxBet := by
  obtain ⟨s, hs, hlive, hc, hbet⟩ := h
  obtain ⟨i, hi⟩ := List.mem_iff_getElem?.mp hs
  refine ⟨i, s, hi, hlive, hc, (Table.maxBet_eq (fun j s' hj => ?_) ⟨i, s, hi, rfl⟩).symm⟩
  exact hbet s' (List.mem_of_getElem? hj)

theorem leads_of_maxBet {t : Table} {i : Nat} {s : Seat} (hs : t.seats[i]? = some s)
    (hlive : s.inHand = true) (hc : s.committed = level) (hbet : s.bet = t.maxBet) :
    Leads t.seats level := by
  refine ⟨s, List.mem_of_getElem? hs, hlive, hc, fun s' hs' => ?_⟩
  obtain ⟨j, hj⟩ := List.mem_iff_getElem?.mp hs'
  rw [hbet]
  exact Table.le_maxBet hj

theorem InPlay.liveCount_pos {t : Table} (h : InPlay starts t.seats) : 0 < t.liveCount := by
  obtain ⟨level, -, s, hs, hlive, -⟩ := h.level
  obtain ⟨i, hi⟩ := List.mem_iff_getElem?.mp hs
  exact Table.liveCount_pos_iff.mpr ⟨i, s, hi, hlive⟩

/-! ## One seat changed -/

theorem mem_modify {i : Nat} {f : Seat → Seat} {s' : Seat} (h : s' ∈ seats.modify i f) :
    s' ∈ seats ∨ ∃ s ∈ seats, seats[i]? = some s ∧ s' = f s := by
  obtain ⟨j, hj⟩ := List.mem_iff_getElem?.mp h
  rw [List.getElem?_modify] at hj
  obtain ⟨s, hs, he⟩ := Option.map_eq_some_iff.mp hj
  by_cases hij : i = j
  · rw [if_pos hij] at he
    rw [← hij] at hs
    exact Or.inr ⟨s, List.mem_of_getElem? hs, hs, he.symm⟩
  · rw [if_neg hij] at he
    exact Or.inl (he ▸ List.mem_of_getElem? hs)

theorem set_eq_modify {α : Type} {l : List α} {i : Nat} {a : α} (h : l[i]? = some a) (f : α → α) :
    l.set i (f a) = l.modify i f := by
  apply List.ext_getElem?
  intro j
  rw [List.getElem?_set, List.getElem?_modify]
  by_cases hij : i = j
  · subst hij
    rw [if_pos rfl, if_pos (List.getElem?_eq_some_iff.mp h).1, h]
    simp
  · simp [hij]

/-- Changing a seat leaves what it does not touch. -/
theorem map_modify_of_eq {α : Type} {g : Seat → α} (i : Nat) {f : Seat → Seat}
    (hf : ∀ s, g (f s) = g s) : (seats.modify i f).map g = seats.map g := by
  apply List.ext_getElem?
  intro j
  rw [List.getElem?_map, List.getElem?_map, List.getElem?_modify]
  cases seats[j]? with
  | none => rfl
  | some s => by_cases h : i = j <;> simp [h, hf]

/-- The level stands when a seat that bets or is able to gets its bet changed. -/
theorem Level.modify (h : Level seats level) {i : Nat} {f : Seat → Seat}
    (hf : ∀ s ∈ seats, seats[i]? = some s → (f s).committed = s.committed ∧
      (0 < (f s).bet → 0 < s.bet ∨ s.canAct = true) ∧
      ((f s).canAct = true → s.canAct = true)) : Level (seats.modify i f) level := by
  refine ⟨fun s' hs' => ?_, fun s' hs' hbet => ?_, fun s' hs' hact => ?_⟩
  · rcases mem_modify hs' with hs' | ⟨s, hs, hi, rfl⟩
    · exact h.committed_le s' hs'
    · rw [(hf s hs hi).1]
      exact h.committed_le s hs
  · rcases mem_modify hs' with hs' | ⟨s, hs, hi, rfl⟩
    · exact h.of_bet s' hs' hbet
    · obtain ⟨hc, hb, -⟩ := hf s hs hi
      rw [hc]
      rcases hb hbet with hb | ha
      · exact h.of_bet s hs hb
      · exact h.of_canAct s hs ha
  · rcases mem_modify hs' with hs' | ⟨s, hs, hi, rfl⟩
    · exact h.of_canAct s' hs' hact
    · obtain ⟨hc, -, ha⟩ := hf s hs hi
      rw [hc]
      exact h.of_canAct s hs (ha hact)

theorem balanced_modify {i : Nat} {f : Seat → Seat} (h : ∀ s ∈ seats, s.Balanced)
    (hf : ∀ s, s.Balanced → (f s).Balanced) : ∀ s ∈ seats.modify i f, s.Balanced := by
  intro s' hs'
  rcases mem_modify hs' with hs' | ⟨s, hs, -, rfl⟩
  · exact h s' hs'
  · exact hf s (h s hs)

/-! ## A decision -/

namespace Table

variable {t : Table} {seat : Nat} {s : Seat} {d : Decision}

/-- Checks, calls and folds leave the highest bet as it is. -/
theorem maxBet_carryOut (hs : t.seats[seat]? = some s) (hbal : s.Balanced)
    (hd : (t.viewOf seat s).Allows d) (hno : ∀ amount full, d ≠ .raise amount full) :
    (t.carryOut (t.viewOf seat s) d).maxBet = t.maxBet := by
  have hle := le_maxBet hs
  have hchange := (Decision.change_bet_le hbal rfl rfl hle hd hno).1
  obtain ⟨i, w, hw, hbet⟩ := (maxBet_spec (List.ne_nil_of_mem (List.mem_of_getElem? hs))).2
  refine maxBet_eq (fun j s' hj => ?_) ?_
  · rcases carryOut_cases hj with ⟨rfl, s₀, hs₀, rfl⟩ | ⟨-, hj⟩
    · obtain rfl : s = s₀ := Option.some.inj (hs.symm.trans hs₀)
      exact hchange
    · exact le_maxBet hj
  · by_cases hi : i = seat
    · rw [hi, hs] at hw
      obtain rfl : s = w := Option.some.inj hw
      refine ⟨seat, _, carryOut_self (v := t.viewOf seat s) hs, le_antisymm hchange ?_⟩
      rw [← hbet]
      exact Decision.bet_le_change hbal d
    · exact ⟨i, w, by rw [carryOut_other (v := t.viewOf seat s) hi, hw], hbet⟩

/-- A raise becomes the highest bet. -/
theorem maxBet_raise {amount : Int} {full : Bool} (hs : t.seats[seat]? = some s)
    (hd : (t.viewOf seat s).Allows (.raise amount full)) :
    (t.carryOut (t.viewOf seat s) (.raise amount full)).maxBet = amount := by
  have hbet := Decision.change_raise_bet rfl rfl (le_maxBet hs) hd
  have hgt : t.maxBet < amount := hd.2.2.1
  refine maxBet_eq (fun j s' hj => ?_)
    ⟨seat, _, carryOut_self (v := t.viewOf seat s) hs, hbet⟩
  rcases carryOut_cases hj with ⟨rfl, s₀, hs₀, rfl⟩ | ⟨-, hj⟩
  · obtain rfl : s = s₀ := Option.some.inj (hs.symm.trans hs₀)
    exact hbet.le
  · exact (le_maxBet hj).trans hgt.le

/-- The lead is kept: a raiser takes it, and nobody folds it away. -/
theorem leads_carryOut (hs : t.seats[seat]? = some s) (hbal : s.Balanced)
    (hd : (t.viewOf seat s).Allows d) (hact : s.canAct = true) (hl : Level t.seats level)
    (ht : Leads t.seats level) : Leads (t.carryOut (t.viewOf seat s) d).seats level := by
  have hself : (t.carryOut (t.viewOf seat s) d).seats[seat]? =
      some (d.change (t.viewOf seat s) s) := carryOut_self (v := t.viewOf seat s) hs
  have hcommitted : (d.change (t.viewOf seat s) s).committed = level := by
    rw [Decision.change_committed]
    exact hl.of_canAct s (List.mem_of_getElem? hs) hact
  by_cases hraise : ∃ amount full, d = .raise amount full
  · obtain ⟨amount, full, rfl⟩ := hraise
    refine leads_of_maxBet hself (Seat.canAct_iff.mp hact).1 hcommitted ?_
    rw [maxBet_raise hs hd, Decision.change_raise_bet rfl rfl (le_maxBet hs) hd]
  · push Not at hraise
    obtain ⟨i, w, hw, hlive, hc, hbet⟩ := ht.maxBet
    have hmax := maxBet_carryOut hs hbal hd hraise
    by_cases hi : i = seat
    · rw [hi, hs] at hw
      obtain rfl : s = w := Option.some.inj hw
      -- who has the highest bet owes nothing, and then there is no folding
      have hnofold : d ≠ .fold := by
        rintro rfl
        have hlt : s.bet < t.maxBet := hd
        omega
      refine leads_of_maxBet hself ?_ hcommitted ?_
      · rw [Decision.change_inHand hnofold]
        exact hlive
      · have h1 := (Decision.change_bet_le hbal rfl rfl (le_maxBet hs) hd hraise).1
        have h2 := Decision.bet_le_change (v := t.viewOf seat s) hbal d
        rw [viewOf_maxBet] at h1
        rw [hmax]
        omega
    · refine leads_of_maxBet (i := i) (s := w) ?_ hlive hc (by rw [hmax, hbet])
      rw [carryOut_other (v := t.viewOf seat s) hi, hw]

theorem level_carryOut (hs : t.seats[seat]? = some s) (hact : s.canAct = true)
    (hl : Level t.seats level) : Level (t.carryOut (t.viewOf seat s) d).seats level := by
  rw [carryOut_seats]
  refine hl.modify fun s₀ _ hs₀ => ?_
  obtain rfl : s = s₀ := Option.some.inj (hs.symm.trans hs₀)
  exact ⟨Decision.change_committed _ _ _, fun _ => Or.inr hact, fun _ => hact⟩

/-- **A decision keeps the hand in play.** -/
theorem inPlay_carryOut (h : InPlay starts t.seats) (hs : t.seats[seat]? = some s)
    (hact : s.canAct = true) (hd : (t.viewOf seat s).Allows d) :
    InPlay starts (t.carryOut (t.viewOf seat s) d).seats := by
  have hbal := h.balanced s (List.mem_of_getElem? hs)
  obtain ⟨level, hl, ht⟩ := h.level
  refine ⟨?_, ?_, level, level_carryOut hs hact hl, leads_carryOut hs hbal hd hact hl ht⟩
  · rw [carryOut_seats, map_modify_of_eq _ fun s => Decision.change_start _ d s]
    exact h.starts_eq
  · rw [carryOut_seats]
    exact balanced_modify h.balanced fun s hs => Decision.balanced_change hs d

end Table

/-! ## The end of a round -/

/-- Every seat that is still able to bet has matched the highest bet. -/
def Matched (seats : List Seat) : Prop :=
  ∀ s ∈ seats, s.canAct = true → ∀ s' ∈ seats, s'.bet ≤ s.bet

/-- **Collecting matched bets raises the level.** -/
theorem InPlay.collect (h : InPlay starts seats) (hm : Matched seats) :
    InPlay starts (seats.map Seat.collect) := by
  obtain ⟨level, hl, w, hw, hlive, hc, hbet⟩ := h.level
  refine ⟨?_, ?_, level + w.bet, ⟨?_, ?_, ?_⟩, w.collect, List.mem_map_of_mem hw, hlive, ?_, ?_⟩
  · rw [← h.starts_eq, List.map_map]
    rfl
  · intro s' hs'
    obtain ⟨s, hs, rfl⟩ := List.mem_map.mp hs'
    exact Seat.balanced_collect (h.balanced s hs)
  · intro s' hs'
    obtain ⟨s, hs, rfl⟩ := List.mem_map.mp hs'
    have h1 := hl.committed_le s hs
    have h2 := hbet s hs
    rw [Seat.collect_committed]
    omega
  · intro s' hs' hpos
    obtain ⟨s, -, rfl⟩ := List.mem_map.mp hs'
    rw [Seat.collect_bet] at hpos
    exact absurd hpos (lt_irrefl 0)
  · intro s' hs' hact
    obtain ⟨s, hs, rfl⟩ := List.mem_map.mp hs'
    have h1 := hl.of_canAct s hs hact
    have h2 := hm s hs hact w hw
    have h3 := hbet s hs
    rw [Seat.collect_committed]
    omega
  · rw [Seat.collect_committed, hc]
  · intro s' hs'
    obtain ⟨s, -, rfl⟩ := List.mem_map.mp hs'
    rw [Seat.collect_bet, Seat.collect_bet]

end Holdem
