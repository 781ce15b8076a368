import Holdem.Proofs.Pot.Award

/-!
# Pots without dead levels

A level that no live seat reached is merged into the pot below it, or carried on if there is none.
Neither happens where some live seat put in as much as any seat (`Led`): it reached every level
(`Led.reaching_ne_nil`), so the loop makes one pot of each.

* `layers` lists these pots: of each level the slice between it and the one below, contested by the
  live seats that reached it.
* **`foldl_add_of_reached`**: over levels that are all reached the loop adds just their layers, and
  what it carried stays nothing.
* **`sidePots_of_led`**: the pots are the layers of all levels.
-/

namespace Holdem.Pot

variable {cs : List Int} {inHand : List Bool}

/-- Some live seat put in as much as any seat. -/
def Led (cs : List Int) (inHand : List Bool) : Prop :=
  ∃ i, IsLive cs inHand i ∧ ∀ c ∈ cs, c ≤ cs.getD i 0

/-- One pot per level, from the level `low` up. -/
def layers (cs : List Int) (inHand : List Bool) : Int → List Int → List Pot
  | _, [] => []
  | low, level :: ls => ⟨slice cs low level, reaching cs inHand level⟩ :: layers cs inHand level ls

theorem Led.reaching_ne_nil (h : Led cs inHand) {level : Int} (hl : level ∈ levels cs) :
    reaching cs inHand level ≠ [] := by
  obtain ⟨i, hi, hmost⟩ := h
  exact List.ne_nil_of_mem (mem_reaching.mpr ⟨hi, hmost level (mem_levels.mp hl).1⟩)

/-- **Levels that are all reached** become one pot each, and nothing is carried. -/
theorem foldl_add_of_reached {ls : List Int} (hreached : ∀ level ∈ ls, reaching cs inHand level ≠ [])
    {l : Layering} (hcarry : l.carry = 0) :
    (ls.foldl (Layering.add cs inHand) l).carry = 0 ∧
      (ls.foldl (Layering.add cs inHand) l).pots =
        (layers cs inHand l.reached ls).reverse ++ l.pots := by
  induction ls generalizing l with
  | nil => exact ⟨hcarry, rfl⟩
  | cons level ls ih =>
    have hadd := Layering.add_reached (l := l) (hreached level List.mem_cons_self)
    rw [hcarry, add_zero] at hadd
    rw [List.foldl_cons, hadd]
    obtain ⟨hzero, hpots⟩ := ih (fun x hx => hreached x (List.mem_cons_of_mem level hx))
      (l := ⟨level, 0, ⟨slice cs l.reached level, reaching cs inHand level⟩ :: l.pots⟩) rfl
    refine ⟨hzero, ?_⟩
    rw [hpots, layers, List.reverse_cons, List.append_assoc]
    rfl

/-- Nothing is carried on the way either. -/
theorem Led.carry_eq_zero (h : Led cs inHand) {before after : List Int}
    (hsplit : levels cs = before ++ after) :
    (before.foldl (Layering.add cs inHand) ⟨0, 0, []⟩).carry = 0 := by
  refine (foldl_add_of_reached (fun level hl => h.reaching_ne_nil ?_) rfl).1
  rw [hsplit]
  exact List.mem_append_left after hl

/-- **The pots are the layers of all levels.** -/
theorem sidePots_of_led (h : Led cs inHand) :
    sidePots cs inHand = layers cs inHand 0 (levels cs) := by
  obtain ⟨hcarry, hpots⟩ := foldl_add_of_reached (fun _ hl => h.reaching_ne_nil hl)
    (l := ⟨0, 0, []⟩) rfl
  unfold sidePots
  simp only [hcarry, hpots, List.append_nil, List.reverse_reverse, lt_irrefl, if_false]

end Holdem.Pot
