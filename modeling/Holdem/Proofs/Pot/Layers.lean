import Holdem.Pot
import Holdem.Proofs.Chips.Total
import Mathlib.Data.List.Basic

/-!
# What the pots hold

`sidePots` cuts what the seats put in at every level some seat reached. This file says what the
cutting keeps and who contests what.

* `IsLive` and `Top`: a seat that is still in the hand, and one that no such seat put more in than.
* `Layering.Sound` is the invariant of the loop over the levels: everything below the level reached
  is in a pot or carried, and a live seat contests exactly what lies below its own chips.
  `Layering.Sound.add` is the step, `sound_foldl` the run.

Results, for contributions of which none is negative:
* **`total_sidePots`**: the pots hold what the seats put in, to the chip.
* **`staked_top`**: a top seat contests everything; **`staked_other`**: any other live seat
  contests what each seat put in up to its own chips.
* `sidePots_eligible`: a pot is contested by the live seats that reached some level, one at least.
-/

namespace Holdem.Pot

variable {cs : List Int} {inHand : List Bool}

/-! ## Levels -/

theorem mem_insertLevel {x level : Int} {l : List Int} :
    x ∈ insertLevel level l ↔ x = level ∨ x ∈ l := by
  induction l with
  | nil => simp [insertLevel]
  | cons a l ih =>
    unfold insertLevel
    split
    · simp
    · split
      · rename_i h
        subst h
        simp
      · simp only [List.mem_cons, ih]
        exact or_left_comm

theorem sorted_insertLevel {level : Int} {l : List Int} (h : l.Pairwise (· < ·)) :
    (insertLevel level l).Pairwise (· < ·) := by
  induction l with
  | nil => simp [insertLevel]
  | cons a l ih =>
    obtain ⟨ha, hl⟩ := List.pairwise_cons.mp h
    unfold insertLevel
    split
    · rename_i hlt
      refine List.pairwise_cons.mpr ⟨fun x hx => ?_, h⟩
      rcases List.mem_cons.mp hx with rfl | hx
      · exact hlt
      · exact hlt.trans (ha x hx)
    · split
      · exact h
      · refine List.pairwise_cons.mpr ⟨fun x hx => ?_, ih hl⟩
        rcases mem_insertLevel.mp hx with rfl | hx
        · omega
        · exact ha x hx

theorem mem_foldr_insertLevel {x : Int} {l : List Int} :
    x ∈ l.foldr insertLevel [] ↔ x ∈ l := by
  induction l with
  | nil => simp
  | cons a l ih => rw [List.foldr_cons, mem_insertLevel, ih, List.mem_cons]

/-- The levels are the positive amounts put in. -/
theorem mem_levels {x : Int} : x ∈ levels cs ↔ x ∈ cs ∧ 0 < x := by
  unfold levels
  rw [mem_foldr_insertLevel, List.mem_filter, decide_eq_true_eq]

theorem sorted_levels : (levels cs).Pairwise (· < ·) := by
  unfold levels
  induction cs.filter (0 < ·) with
  | nil => exact List.Pairwise.nil
  | cons a l ih => exact sorted_insertLevel ih

/-! ## Slices -/

theorem slice_self (cs : List Int) (a : Int) : slice cs a a = 0 := by
  unfold slice
  exact Chips.total_map_zero fun c _ => by omega

/-- Neighbouring slices join. -/
theorem slice_add (cs : List Int) (a b d : Int) : slice cs a b + slice cs b d = slice cs a d := by
  unfold slice
  rw [← Chips.total_map_add]
  congr 1
  exact List.map_congr_left fun c _ => by omega

/-- A slice is not empty if some seat reached its upper end. -/
theorem slice_pos {a b : Int} (h : a < b) (hb : b ∈ cs) : 0 < slice cs a b := by
  have hterms : ∀ x ∈ cs.map (fun c => min c b - min c a), 0 ≤ x := by
    intro x hx
    obtain ⟨c, -, rfl⟩ := List.mem_map.mp hx
    omega
  have hmem : min b b - min b a ∈ cs.map (fun c => min c b - min c a) := List.mem_map_of_mem hb
  have := Chips.le_total hterms hmem
  unfold slice
  omega

/-- From the ground up, a slice is what each seat put in up to its upper end. -/
theorem slice_zero (h : ∀ c ∈ cs, 0 ≤ c) (b : Int) :
    slice cs 0 b = Chips.total (cs.map fun c => min c b) := by
  unfold slice
  congr 1
  refine List.map_congr_left fun c hc => ?_
  have := h c hc
  omega

/-! ## Live seats -/

/-- A seat that put chips in and is still in the hand. -/
def IsLive (cs : List Int) (inHand : List Bool) (i : Nat) : Prop :=
  i < cs.length ∧ inHand.getD i false = true

/-- No live seat put more in than seat `i`. -/
def Top (cs : List Int) (inHand : List Bool) (i : Nat) : Prop :=
  ∀ j, IsLive cs inHand j → cs.getD j 0 ≤ cs.getD i 0

theorem mem_reaching {level : Int} {i : Nat} :
    i ∈ reaching cs inHand level ↔ IsLive cs inHand i ∧ level ≤ cs.getD i 0 := by
  unfold reaching IsLive
  rw [List.mem_filter, List.mem_range, Bool.and_eq_true, decide_eq_true_eq, and_assoc]

theorem nodup_reaching (level : Int) : (reaching cs inHand level).Nodup :=
  List.nodup_range.filter _

/-- The seats that reach a level are listed in seat order. -/
theorem sorted_reaching (level : Int) : (reaching cs inHand level).Pairwise (· < ·) :=
  List.pairwise_lt_range.filter _

theorem reaching_eq_nil_iff {level : Int} :
    reaching cs inHand level = [] ↔ ∀ i, IsLive cs inHand i → cs.getD i 0 < level := by
  rw [List.eq_nil_iff_forall_not_mem]
  refine forall_congr' fun i => ?_
  rw [mem_reaching, not_and, Int.not_le]

theorem getD_mem {i : Nat} (h : i < cs.length) : cs.getD i 0 ∈ cs := by
  rw [List.getD_eq_getElem?_getD, List.getElem?_eq_getElem h]
  exact List.getElem_mem h

/-- What the pots that a seat contests hold. -/
def staked (pots : List Pot) (i : Nat) : Int :=
  Chips.total ((pots.filter (i ∈ ·.eligible)).map (·.amount))

theorem staked_cons (p : Pot) (pots : List Pot) (i : Nat) :
    staked (p :: pots) i = (if i ∈ p.eligible then p.amount else 0) + staked pots i := by
  unfold staked
  rw [List.filter_cons]
  by_cases h : i ∈ p.eligible <;> simp [h]

theorem staked_reverse (pots : List Pot) (i : Nat) : staked pots.reverse i = staked pots i := by
  unfold staked
  rw [List.filter_reverse, List.map_reverse, Chips.total_reverse]

theorem staked_append (pots pots' : List Pot) (i : Nat) :
    staked (pots ++ pots') i = staked pots i + staked pots' i := by
  unfold staked
  rw [List.filter_append, List.map_append, Chips.total_append]

/-- A seat listed in every pot contests all they hold. -/
theorem staked_eq_total {pots : List Pot} {i : Nat} (h : ∀ p ∈ pots, i ∈ p.eligible) :
    staked pots i = Chips.total (pots.map (·.amount)) := by
  unfold staked
  rw [List.filter_eq_self.mpr fun p hp => by simpa using h p hp]

/-! ## The loop over the levels -/

/-- What holds of the pots under construction. -/
structure Layering.Sound (cs : List Int) (inHand : List Bool) (l : Layering) : Prop where
  reached_nonneg : 0 ≤ l.reached
  carry_nonneg : 0 ≤ l.carry
  /-- Everything below the level reached is in a pot or carried. -/
  total : l.carry + Chips.total (l.pots.map (·.amount)) = slice cs 0 l.reached
  amount_pos : ∀ p ∈ l.pots, 0 < p.amount
  eligible : ∀ p ∈ l.pots,
    p.eligible ≠ [] ∧ ∃ level, 0 ≤ level ∧ p.eligible = reaching cs inHand level
  /-- No live seat stopped between the level of the highest pot and the level reached. -/
  top : ∀ p rest, l.pots = p :: rest → ∃ level, p.eligible = reaching cs inHand level ∧
    ∀ i, IsLive cs inHand i → cs.getD i 0 ≤ level ∨ l.reached < cs.getD i 0
  unreached : l.pots = [] → l.reached = 0 ∨ ∀ i, IsLive cs inHand i → cs.getD i 0 ≤ 0
  carry_unreached : 0 < l.carry → ∀ i, IsLive cs inHand i → cs.getD i 0 ≤ 0
  /-- A live seat contests what lies below its own chips, if another live seat has more in. -/
  share : ∀ i, IsLive cs inHand i → ¬ Top cs inHand i →
    staked l.pots i = slice cs 0 (min l.reached (cs.getD i 0))

theorem Layering.sound_start (h0 : ∀ c ∈ cs, 0 ≤ c) : Layering.Sound cs inHand ⟨0, 0, []⟩ where
  reached_nonneg := le_refl _
  carry_nonneg := le_refl _
  total := (slice_self cs 0).symm
  amount_pos := fun _ h => absurd h List.not_mem_nil
  eligible := fun _ h => absurd h List.not_mem_nil
  top := fun _ _ h => absurd h (List.cons_ne_nil _ _).symm
  unreached := fun _ => Or.inl rfl
  carry_unreached := fun h => absurd h (lt_irrefl _)
  share := fun i hi _ => by
    have hc := h0 _ (getD_mem hi.1)
    have hmin : min 0 (cs.getD i 0) = 0 := by omega
    show (0 : Int) = slice cs 0 (min 0 (cs.getD i 0))
    rw [hmin, slice_self]

theorem Layering.add_reached {l : Layering} {level : Int} (hr : reaching cs inHand level ≠ []) :
    l.add cs inHand level =
      ⟨level, 0, ⟨slice cs l.reached level + l.carry, reaching cs inHand level⟩ :: l.pots⟩ := by
  unfold Layering.add
  cases h : reaching cs inHand level with
  | nil => exact absurd h hr
  | cons seat seats => rfl

theorem Layering.add_merged {l : Layering} {level : Int} {p : Pot} {rest : List Pot}
    (hr : reaching cs inHand level = []) (hp : l.pots = p :: rest) :
    l.add cs inHand level =
      ⟨level, l.carry, ⟨p.amount + slice cs l.reached level, p.eligible⟩ :: rest⟩ := by
  unfold Layering.add
  rw [hr, hp]

theorem Layering.add_carried {l : Layering} {level : Int} (hr : reaching cs inHand level = [])
    (hp : l.pots = []) :
    l.add cs inHand level = ⟨level, l.carry + slice cs l.reached level, []⟩ := by
  unfold Layering.add
  rw [hr, hp]

/-- A seat that is not on top sees another live seat above it. -/
theorem exists_above {i : Nat} (h : ¬ Top cs inHand i) :
    ∃ j, IsLive cs inHand j ∧ cs.getD i 0 < cs.getD j 0 := by
  unfold Top at h
  push Not at h
  exact h

section Step

variable {l : Layering} {level : Int} (h : l.Sound cs inHand) (hlt : l.reached < level)
  (hmem : level ∈ cs)
  (hnext : ∀ i, IsLive cs inHand i → cs.getD i 0 ≤ l.reached ∨ level ≤ cs.getD i 0)

include h hlt hmem hnext

/-- A level that a live seat reached makes a pot of its own. -/
theorem Layering.Sound.add_reached (hr : reaching cs inHand level ≠ []) :
    (l.add cs inHand level).Sound cs inHand := by
  have hpos := slice_pos hlt hmem
  have hreach := h.reached_nonneg
  -- chips are carried only while every live seat has nothing in
  have hcarry : l.carry = 0 := by
    obtain ⟨i, hi⟩ := List.exists_mem_of_ne_nil _ hr
    obtain ⟨hlive, hle⟩ := mem_reaching.mp hi
    by_contra hc
    have := h.carry_unreached (lt_of_le_of_ne h.carry_nonneg (Ne.symm hc)) i hlive
    omega
  rw [Layering.add_reached hr, hcarry, add_zero]
  refine ⟨hreach.trans hlt.le, le_refl _, ?_, ?_, ?_, ?_, ?_, ?_, ?_⟩
  · have ht := h.total
    have := slice_add cs 0 l.reached level
    simp only [List.map_cons, Chips.total_cons]
    omega
  · intro p hp
    rcases List.mem_cons.mp hp with rfl | hp
    · exact hpos
    · exact h.amount_pos p hp
  · intro p hp
    rcases List.mem_cons.mp hp with rfl | hp
    · exact ⟨hr, level, by omega, rfl⟩
    · exact h.eligible p hp
  · intro p rest hp
    obtain ⟨rfl, rfl⟩ := List.cons.inj hp
    exact ⟨level, rfl, fun i _ => le_or_gt _ _⟩
  · exact fun hp => absurd hp (List.cons_ne_nil _ _)
  · exact fun hc => absurd hc (lt_irrefl _)
  · intro i hi hno
    rw [staked_cons, h.share i hi hno]
    rcases hnext i hi with hbelow | habove
    · rw [if_neg fun hm => by have := (mem_reaching.mp hm).2; omega, min_eq_right hbelow,
        min_eq_right (hbelow.trans hlt.le), zero_add]
    · rw [if_pos (mem_reaching.mpr ⟨hi, habove⟩), min_eq_left (by omega), min_eq_left habove,
        add_comm, slice_add]

/-- A level that only folded seats reached goes to the pot below it. -/
theorem Layering.Sound.add_merged {p : Pot} {rest : List Pot}
    (hr : reaching cs inHand level = []) (hp : l.pots = p :: rest) :
    (l.add cs inHand level).Sound cs inHand := by
  have hpos := slice_pos hlt hmem
  have hreach := h.reached_nonneg
  have hlow := reaching_eq_nil_iff.mp hr
  obtain ⟨high, hel, hgap⟩ := h.top p rest hp
  rw [Layering.add_merged hr hp]
  refine ⟨hreach.trans hlt.le, h.carry_nonneg, ?_, ?_, ?_, ?_, ?_, h.carry_unreached, ?_⟩
  · have ht := h.total
    have := slice_add cs 0 l.reached level
    rw [hp] at ht
    simp only [List.map_cons, Chips.total_cons] at ht ⊢
    omega
  · intro q hq
    rcases List.mem_cons.mp hq with rfl | hq
    · have := h.amount_pos p (hp ▸ List.mem_cons_self)
      show 0 < p.amount + slice cs l.reached level
      omega
    · exact h.amount_pos q (hp ▸ List.mem_cons_of_mem p hq)
  · intro q hq
    rcases List.mem_cons.mp hq with rfl | hq
    · exact h.eligible p (hp ▸ List.mem_cons_self)
    · exact h.eligible q (hp ▸ List.mem_cons_of_mem p hq)
  · intro q qs hq
    obtain ⟨rfl, rfl⟩ := List.cons.inj hq
    refine ⟨high, hel, fun i hi => Or.inl ?_⟩
    have h1 := hlow i hi
    have h2 := hnext i hi
    rcases hgap i hi with h3 | h3 <;> omega
  · exact fun hq => absurd hq (List.cons_ne_nil _ _)
  · intro i hi hno
    obtain ⟨j, hj, hij⟩ := exists_above hno
    -- the pot below is that of the live seats on top, of which `i` is none
    have hout : i ∉ p.eligible := by
      rw [hel]
      intro hm
      have h1 := (mem_reaching.mp hm).2
      have h2 := hlow j hj
      have h3 := hnext j hj
      rcases hgap j hj with h4 | h4 <;> omega
    have hsh := h.share i hi hno
    rw [hp, staked_cons, if_neg hout] at hsh
    have h1 := hlow i hi
    have h2 := (hnext i hi).resolve_right (not_le.mpr h1)
    rw [staked_cons, if_neg hout, hsh, min_eq_right h2, min_eq_right (h2.trans hlt.le)]

/-- Before any live seat put chips in, they are carried. -/
theorem Layering.Sound.add_carried (hr : reaching cs inHand level = []) (hp : l.pots = []) :
    (l.add cs inHand level).Sound cs inHand := by
  have hpos := slice_pos hlt hmem
  have hreach := h.reached_nonneg
  have hlow := reaching_eq_nil_iff.mp hr
  have hnone : ∀ i, IsLive cs inHand i → cs.getD i 0 ≤ 0 := by
    intro i hi
    rcases h.unreached hp with hz | hz
    · have h1 := hlow i hi
      have h2 := hnext i hi
      omega
    · exact hz i hi
  rw [Layering.add_carried hr hp]
  refine ⟨hreach.trans hlt.le, ?_, ?_, ?_, ?_, ?_, fun _ => Or.inr hnone, fun _ => hnone, ?_⟩
  · have := h.carry_nonneg
    show 0 ≤ l.carry + slice cs l.reached level
    omega
  · have ht := h.total
    have := slice_add cs 0 l.reached level
    rw [hp] at ht
    simp only [List.map_nil, Chips.total_nil] at ht ⊢
    omega
  · exact fun _ hq => absurd hq List.not_mem_nil
  · exact fun _ hq => absurd hq List.not_mem_nil
  · exact fun _ _ hq => absurd hq (List.cons_ne_nil _ _).symm
  · intro i hi hno
    have hsh := h.share i hi hno
    rw [hp] at hsh
    have hle := (hnone i hi).trans hreach
    rw [hsh, min_eq_right hle, min_eq_right (hle.trans hlt.le)]

/-- **One more level.** The next level is the least amount above the level reached. -/
theorem Layering.Sound.add : (l.add cs inHand level).Sound cs inHand := by
  by_cases hr : reaching cs inHand level = []
  · cases hp : l.pots with
    | nil => exact h.add_carried hlt hmem hnext hr hp
    | cons p rest => exact h.add_merged hlt hmem hnext hr hp
  · exact h.add_reached hlt hmem hnext hr

end Step

/-- The levels still to come after some level was reached: rising, and all there are above it. -/
structure Ahead (cs : List Int) (reached : Int) (ls : List Int) : Prop where
  rising : ls.Pairwise (· < ·)
  above : ∀ level ∈ ls, reached < level ∧ level ∈ cs
  complete : ∀ c ∈ cs, reached < c → c ∈ ls

theorem ahead_levels : Ahead cs 0 (levels cs) where
  rising := sorted_levels
  above := fun _ h => (mem_levels.mp h).symm
  complete := fun _ hc hpos => mem_levels.mpr ⟨hc, hpos⟩

theorem Ahead.tail {reached level : Int} {ls : List Int} (h : Ahead cs reached (level :: ls)) :
    Ahead cs level ls := by
  obtain ⟨hlt, hrest⟩ := List.pairwise_cons.mp h.rising
  refine ⟨hrest, fun x hx => ⟨hlt x hx, (h.above x (List.mem_cons_of_mem level hx)).2⟩, ?_⟩
  intro c hc hgt
  have hlevel := (h.above level List.mem_cons_self).1
  rcases List.mem_cons.mp (h.complete c hc (hlevel.trans hgt)) with rfl | hm
  · exact absurd hgt (lt_irrefl _)
  · exact hm

theorem Layering.reached_add (l : Layering) (level : Int) :
    (l.add cs inHand level).reached = level := by
  by_cases hr : reaching cs inHand level = []
  · cases hp : l.pots with
    | nil => rw [Layering.add_carried hr hp]
    | cons p rest => rw [Layering.add_merged hr hp]
  · rw [Layering.add_reached hr]

/-- The next level is the least one above the level reached. -/
theorem Ahead.next {reached level : Int} {ls : List Int} (ha : Ahead cs reached (level :: ls))
    (i : Nat) (hi : IsLive cs inHand i) : cs.getD i 0 ≤ reached ∨ level ≤ cs.getD i 0 := by
  rcases le_or_gt (cs.getD i 0) reached with hle | hgt
  · exact Or.inl hle
  · refine Or.inr ?_
    rcases List.mem_cons.mp (ha.complete _ (getD_mem hi.1) hgt) with he | hm
    · exact le_of_eq he.symm
    · exact ((List.pairwise_cons.mp ha.rising).1 _ hm).le

/-- The next level keeps the layering sound. -/
theorem Layering.Sound.add_next {l : Layering} {level : Int} {ls : List Int} (h : l.Sound cs inHand)
    (ha : Ahead cs l.reached (level :: ls)) : (l.add cs inHand level).Sound cs inHand := by
  obtain ⟨hlt, hmem⟩ := ha.above level List.mem_cons_self
  exact h.add hlt hmem ha.next

/-- **The whole loop.** After the last level nothing is above the level reached. -/
theorem sound_foldl {ls : List Int} {l : Layering} (h : l.Sound cs inHand)
    (ha : Ahead cs l.reached ls) :
    (ls.foldl (Layering.add cs inHand) l).Sound cs inHand ∧
      ∀ c ∈ cs, c ≤ (ls.foldl (Layering.add cs inHand) l).reached := by
  induction ls generalizing l with
  | nil =>
    refine ⟨h, fun c hc => ?_⟩
    by_contra hgt
    exact absurd (ha.complete c hc (not_le.mp hgt)) List.not_mem_nil
  | cons level ls ih =>
    exact ih (h.add_next ha) (by rw [Layering.reached_add]; exact ha.tail)

/-! ## The pots of a hand -/

/-- The layering after the last level. -/
theorem sound_layering (h0 : ∀ c ∈ cs, 0 ≤ c) (inHand : List Bool) :
    ((levels cs).foldl (Layering.add cs inHand) ⟨0, 0, []⟩).Sound cs inHand ∧
      ∀ c ∈ cs, c ≤ ((levels cs).foldl (Layering.add cs inHand) ⟨0, 0, []⟩).reached :=
  sound_foldl (Layering.sound_start h0) ahead_levels

/-- **The pots hold what the seats put in.** -/
theorem total_sidePots (h0 : ∀ c ∈ cs, 0 ≤ c) (inHand : List Bool) :
    Chips.total ((sidePots cs inHand).map (·.amount)) = Chips.total cs := by
  obtain ⟨hs, hall⟩ := sound_layering h0 inHand
  have ht := hs.total
  have hcs : slice cs 0 ((levels cs).foldl (Layering.add cs inHand) ⟨0, 0, []⟩).reached =
      Chips.total cs := by
    rw [slice_zero h0, List.map_congr_left fun c hc => min_eq_left (hall c hc), List.map_id']
  have hc := hs.carry_nonneg
  unfold sidePots
  simp only [List.map_append, List.map_reverse, Chips.total_append, Chips.total_reverse]
  split
  · simp only [List.map_cons, List.map_nil, Chips.total_cons, Chips.total_nil]
    omega
  · simp only [List.map_nil, Chips.total_nil]
    omega

theorem sidePots_amount_pos (h0 : ∀ c ∈ cs, 0 ≤ c) {p : Pot} (hp : p ∈ sidePots cs inHand) :
    0 < p.amount := by
  obtain ⟨hs, -⟩ := sound_layering h0 inHand
  unfold sidePots at hp
  rcases List.mem_append.mp hp with hp | hp
  · exact hs.amount_pos p (List.mem_reverse.mp hp)
  · split at hp
    · rename_i hc
      rw [List.mem_singleton.mp hp]
      exact hc
    · exact absurd hp List.not_mem_nil

/-- The live seats are those that reached the ground. -/
theorem live_eq_reaching (h0 : ∀ c ∈ cs, 0 ≤ c) (hlen : inHand.length = cs.length) :
    live inHand = reaching cs inHand 0 := by
  unfold live reaching
  rw [hlen]
  refine List.filter_congr fun i hi => ?_
  have := h0 _ (getD_mem (List.mem_range.mp hi))
  rw [decide_eq_true this, Bool.and_true]

/-- **Who contests a pot**: the live seats that reached some level, one at least if any seat is
live. -/
theorem sidePots_eligible (h0 : ∀ c ∈ cs, 0 ≤ c) (hlen : inHand.length = cs.length)
    (hlive : ∃ i, IsLive cs inHand i) {p : Pot} (hp : p ∈ sidePots cs inHand) :
    p.eligible ≠ [] ∧ ∃ level, 0 ≤ level ∧ p.eligible = reaching cs inHand level := by
  obtain ⟨hs, -⟩ := sound_layering h0 inHand
  unfold sidePots at hp
  rcases List.mem_append.mp hp with hp | hp
  · exact hs.eligible p (List.mem_reverse.mp hp)
  · split at hp
    · rw [List.mem_singleton.mp hp]
      obtain ⟨i, hi⟩ := hlive
      have hel := live_eq_reaching h0 hlen
      refine ⟨?_, 0, le_refl _, hel⟩
      show live inHand ≠ []
      rw [hel]
      exact List.ne_nil_of_mem (mem_reaching.mpr ⟨hi, h0 _ (getD_mem hi.1)⟩)
    · exact absurd hp List.not_mem_nil

/-- **A top seat contests everything.** -/
theorem staked_top (h0 : ∀ c ∈ cs, 0 ≤ c) (hlen : inHand.length = cs.length) {i : Nat}
    (hi : IsLive cs inHand i) (htop : Top cs inHand i) :
    staked (sidePots cs inHand) i = Chips.total cs := by
  rw [← total_sidePots h0 inHand]
  refine staked_eq_total fun p hp => ?_
  obtain ⟨hne, level, -, hel⟩ := sidePots_eligible h0 hlen ⟨i, hi⟩ hp
  obtain ⟨j, hj⟩ := List.exists_mem_of_ne_nil _ hne
  rw [hel] at hj ⊢
  obtain ⟨hjl, hle⟩ := mem_reaching.mp hj
  exact mem_reaching.mpr ⟨hi, hle.trans (htop j hjl)⟩

/-- **A live seat below another one contests what each seat put in up to its own chips.** -/
theorem staked_other (h0 : ∀ c ∈ cs, 0 ≤ c) {i : Nat} (hi : IsLive cs inHand i)
    (hno : ¬ Top cs inHand i) :
    staked (sidePots cs inHand) i = Chips.total (cs.map fun c => min c (cs.getD i 0)) := by
  obtain ⟨hs, hall⟩ := sound_layering h0 inHand
  have hshare := hs.share i hi hno
  rw [min_eq_right (hall _ (getD_mem hi.1)), slice_zero h0] at hshare
  unfold sidePots
  rw [staked_append, staked_reverse, hshare]
  split
  · rename_i hc
    -- carried chips mean that no live seat has any in, and then all of them are on top
    obtain ⟨j, hj, hij⟩ := exists_above hno
    have h1 := hs.carry_unreached hc j hj
    have h2 := h0 _ (getD_mem hi.1)
    omega
  · exact add_zero _

end Holdem.Pot
