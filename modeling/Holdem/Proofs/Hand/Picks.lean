import Holdem.Proofs.Hand.FiveCards
import Holdem.Proofs.Hand.Order
import Mathlib.Order.Bounds.Basic

/-!
# Picking ranks for a hand

A hand of a shape takes different ranks, each of them held often enough (`Picks`). Whoever takes the
highest such rank at each step (`TopPicks`) ends with the greatest tie-breakers (`TopPicks.key_le`):
at the first difference he has the higher rank.

The ranks that are picked are those of some cards (`Picks.exists_sublist`), as many as the shape
asks for (`Picks.sum_le`).
-/

namespace Holdem.Hand

variable {n : Nat → Nat} {used shape ranks us : List Nat} {r k m : Nat}

/-- Different ranks, each of them held at least as often as the shape says. -/
structure Picks (n : Nat → Nat) (shape ranks : List Nat) : Prop where
  nodup : ranks.Nodup
  enough : List.Forall₂ (fun k r => k ≤ n r) shape ranks

/-- The ranks picked for a shape besides those in `used`, each of them the highest there is. -/
inductive TopPicks (n : Nat → Nat) : List Nat → List Nat → List Nat → Prop
  | nil (used : List Nat) : TopPicks n used [] []
  | cons {used shape ranks : List Nat} {k r : Nat} (top : IsGreatest {r | r ∉ used ∧ k ≤ n r} r)
      (rest : TopPicks n (r :: used) shape ranks) : TopPicks n used (k :: shape) (r :: ranks)

theorem Picks.mono {n' : Nat → Nat} (hle : ∀ r, n r ≤ n' r) (h : Picks n shape ranks) :
    Picks n' shape ranks where
  nodup := h.nodup
  enough := h.enough.imp fun _ _ hk => hk.trans (hle _)

namespace TopPicks

theorem enough (h : TopPicks n used shape ranks) :
    List.Forall₂ (fun k r => r ∉ used ∧ k ≤ n r) shape ranks := by
  induction h with
  | nil => exact .nil
  | cons top _ ih =>
    refine .cons top.1 (ih.imp fun k r hr => ⟨fun hmem => hr.1 (List.mem_cons_of_mem _ hmem), hr.2⟩)

theorem fresh (h : TopPicks n used shape ranks) : ∀ r ∈ ranks, r ∉ used := by
  induction h with
  | nil => exact fun _ hr => absurd hr List.not_mem_nil
  | cons top _ ih =>
    rw [List.forall_mem_cons]
    exact ⟨top.1.1, fun r hr hused => ih r hr (List.mem_cons_of_mem _ hused)⟩

theorem picks (h : TopPicks n used shape ranks) : Picks n shape ranks where
  enough := h.enough.imp fun _ _ hr => hr.2
  nodup := by
    induction h with
    | nil => exact List.nodup_nil
    | cons _ rest ih =>
      exact List.nodup_cons.mpr ⟨fun hr => rest.fresh _ hr List.mem_cons_self, ih⟩

/-- **Who takes the highest ranks has the greatest tie-breakers.** The lists are compared after
zeros are added and as far as they are read. -/
theorem take_le (h : TopPicks n used shape ranks) (hus : Picks n shape us)
    (hfresh : ∀ r ∈ us, r ∉ used) (padding : List Nat) (m : Nat) :
    (us ++ padding).take m ≤ (ranks ++ padding).take m := by
  induction h generalizing us m with
  | nil =>
    cases hus.enough
    exact le_refl _
  | @cons used shape ranks k r top rest ih =>
    obtain ⟨hnodup, henough⟩ := hus
    cases henough with
    | @cons _ u _ us hu hus =>
      obtain ⟨hunew, hnodup⟩ := List.nodup_cons.mp hnodup
      rw [List.forall_mem_cons] at hfresh
      cases m with
      | zero => exact le_refl _
      | succ m =>
        rw [List.cons_append, List.cons_append, List.take_succ_cons, List.take_succ_cons,
          Strength.cons_le_cons]
        rcases (top.2 ⟨hfresh.1, hu⟩).lt_or_eq with hlt | rfl
        · exact Or.inl hlt
        · refine Or.inr ⟨rfl, ih ⟨hnodup, hus⟩ (fun r hr => ?_) m⟩
          rw [List.mem_cons, not_or]
          exact ⟨fun heq => hunew (heq ▸ hr), hfresh.2 r hr⟩

theorem key_le (h : TopPicks n [] shape ranks) (hus : Picks n shape us) (c : Category) :
    (Strength.of c us).key ≤ (Strength.of c ranks).key := by
  unfold Strength.key Strength.of
  rw [Strength.cons_le_cons]
  exact Or.inr ⟨rfl, h.take_le hus (fun _ _ => List.not_mem_nil) _ _⟩

/-- The ranks picked for a falling shape are in the order in which they count. -/
theorem sorted (h : TopPicks n used shape ranks) (hshape : shape.Pairwise (· ≥ ·)) :
    (shape.zip ranks).Pairwise fun a b => b.1 < a.1 ∨ b.1 = a.1 ∧ b.2 < a.2 := by
  induction h with
  | nil => exact .nil
  | @cons used shape ranks k r top rest ih =>
    obtain ⟨hk, hshape⟩ := List.pairwise_cons.mp hshape
    rw [List.zip_cons_cons, List.pairwise_cons]
    refine ⟨fun e he => ?_, ih hshape⟩
    obtain ⟨hfresh, henough⟩ := (List.forall₂_iff_zip.mp rest.enough).2 he
    rw [List.mem_cons, not_or] at hfresh
    rcases (hk _ (List.of_mem_zip he).1).lt_or_eq with hlt | heq
    · exact Or.inl hlt
    · have hle : e.2 ≤ r := top.2 ⟨hfresh.2, heq ▸ henough⟩
      exact Or.inr ⟨heq, hle.lt_of_ne hfresh.1⟩

end TopPicks

/-! ## Picking from falling lists -/

variable {l : List Nat} {p : Nat → Prop}

/-- The first of a falling list is the greatest of what it lists. -/
theorem isGreatest_head (hsorted : (r :: l).Pairwise (· > ·)) (hmem : ∀ r', r' ∈ r :: l ↔ p r') :
    IsGreatest {r' | p r'} r := by
  refine ⟨(hmem r).mp List.mem_cons_self, fun r' hr' => ?_⟩
  rcases List.mem_cons.mp ((hmem r').mpr hr') with rfl | hr'
  · exact le_refl _
  · exact ((List.pairwise_cons.mp hsorted).1 r' hr').le

/-- The rest of it lists the others. -/
theorem mem_tail_iff (hsorted : (r :: l).Pairwise (· > ·)) (hmem : ∀ r', r' ∈ r :: l ↔ p r')
    (r' : Nat) : r' ∈ l ↔ r' ≠ r ∧ p r' := by
  rw [← hmem, List.mem_cons]
  constructor
  · exact fun hr' => ⟨((List.pairwise_cons.mp hsorted).1 r' hr').ne, Or.inr hr'⟩
  · rintro ⟨hne, rfl | hr'⟩
    · exact absurd rfl hne
    · exact hr'

/-- The first ranks of a falling list of those that can be picked. -/
theorem topPicks_take (hsorted : l.Pairwise (· > ·)) (hmem : ∀ r, r ∈ l ↔ r ∉ used ∧ 1 ≤ n r)
    (hlen : m ≤ l.length) : TopPicks n used (List.replicate m 1) (l.take m) := by
  induction m generalizing l used with
  | zero => exact .nil used
  | succ m ih =>
    cases l with
    | nil => exact absurd hlen (Nat.not_succ_le_zero m)
    | cons r l =>
      rw [List.replicate_succ, List.take_succ_cons]
      refine .cons (isGreatest_head hsorted hmem) (ih (List.pairwise_cons.mp hsorted).2
        (fun r' => ?_) (Nat.le_of_succ_le_succ hlen))
      rw [mem_tail_iff hsorted hmem, List.mem_cons, not_or, and_assoc]

/-! ## Cards of the ranks that are picked -/

/-- Each rank as often as the shape says. -/
def copies (shape ranks : List Nat) : List Nat :=
  (shape.zip ranks).flatMap fun e => List.replicate e.1 e.2

theorem mem_of_mem_copies (hr : r ∈ copies shape ranks) : ∃ k, (k, r) ∈ shape.zip ranks := by
  obtain ⟨e, he, hr⟩ := List.mem_flatMap.mp hr
  rw [(List.mem_replicate.mp hr).2]
  exact ⟨e.1, he⟩

theorem count_copies (hnodup : ranks.Nodup) (he : (k, r) ∈ shape.zip ranks) :
    (copies shape ranks).count r = k := by
  induction shape generalizing ranks with
  | nil => exact absurd he List.not_mem_nil
  | cons k' shape ih =>
    cases ranks with
    | nil => exact absurd he List.not_mem_nil
    | cons r' ranks =>
      obtain ⟨hnew, hnodup⟩ := List.nodup_cons.mp hnodup
      have hsplit : copies (k' :: shape) (r' :: ranks) =
          List.replicate k' r' ++ copies shape ranks := rfl
      rw [hsplit, List.count_append]
      rcases List.mem_cons.mp he with heq | he
      · cases heq
        have hnone : (copies shape ranks).count r = 0 := List.count_eq_zero.mpr fun hr => by
          obtain ⟨_, he⟩ := mem_of_mem_copies hr
          exact hnew (List.of_mem_zip he).2
        rw [List.count_replicate_self, hnone]
        rfl
      · have hne : r ≠ r' := fun heq => hnew (heq ▸ (List.of_mem_zip he).2)
        rw [List.count_eq_zero.mpr fun hr => hne (List.eq_of_mem_replicate hr), ih hnodup he,
          Nat.zero_add]

theorem length_copies (hlen : shape.length = ranks.length) :
    (copies shape ranks).length = shape.sum := by
  unfold copies
  rw [List.length_flatMap]
  conv_rhs => rw [← List.map_fst_zip hlen.le]
  exact congrArg List.sum (List.map_congr_left fun e _ => List.length_replicate)

/-- The ranks that are picked, with their copies, are among those of the cards. -/
theorem Picks.copies_subperm {cards : List Card} (h : Picks (count cards) shape ranks) :
    (copies shape ranks).Subperm (values cards) := by
  obtain ⟨-, henough⟩ := List.forall₂_iff_zip.mp h.enough
  rw [List.subperm_ext_iff]
  intro r hr
  obtain ⟨k, he⟩ := mem_of_mem_copies hr
  rw [count_copies h.nodup he, count_values]
  exact henough he

/-- A hand that is picked has no more cards than there are. -/
theorem Picks.sum_le {cards : List Card} (h : Picks (count cards) shape ranks) :
    shape.sum ≤ cards.length := by
  have hle := h.copies_subperm.length_le
  rwa [length_copies (List.forall₂_iff_zip.mp h.enough).1, values, List.length_map] at hle

/-- **Ranks that are picked are those of some cards.** If they are in the order in which they count,
these cards have them as their ranking, and the shape. -/
theorem Picks.exists_sublist {cards : List Card} (h : Picks (count cards) shape ranks)
    (hpos : ∀ k ∈ shape, 0 < k)
    (hsorted : (shape.zip ranks).Pairwise fun a b => b.1 < a.1 ∨ b.1 = a.1 ∧ b.2 < a.2) :
    ∃ hand : List Card, hand.Sublist cards ∧ hand.length = shape.sum ∧
      ranking (values hand) = ranks ∧ ranks.map (values hand).count = shape := by
  have hlen := (List.forall₂_iff_zip.mp h.enough).1
  obtain ⟨l, hperm, hsub⟩ := h.copies_subperm
  obtain ⟨hand, hhand, rfl⟩ := List.sublist_map_iff.mp hsub
  have hcount : ∀ e ∈ shape.zip ranks, (values hand).count e.2 = e.1 := fun e he =>
    (hperm.count_eq e.2).trans (count_copies h.nodup he)
  have hranks : ranks = (shape.zip ranks).map Prod.snd := (List.map_snd_zip hlen.ge).symm
  refine ⟨hand, hhand, ?_, ranking_eq (fun r => ?_) h.nodup ?_, ?_⟩
  · rw [← length_copies hlen, ← hperm.length_eq, List.length_map]
  · constructor
    · intro hr
      rw [hranks] at hr
      obtain ⟨e, he, rfl⟩ := List.mem_map.mp hr
      rw [← List.count_pos_iff, hcount e he]
      exact hpos e.1 (List.of_mem_zip he).1
    · intro hr
      obtain ⟨k, he⟩ := mem_of_mem_copies (hperm.mem_iff.mp hr)
      exact (List.of_mem_zip he).2
  · rw [hranks, List.pairwise_map]
    refine hsorted.imp_of_mem fun {a b} ha hb hab => ?_
    simp only [Before, hcount a ha, hcount b hb]
    omega
  · conv_lhs => rw [hranks, List.map_map]
    conv_rhs => rw [← List.map_fst_zip hlen.le]
    exact List.map_congr_left hcount

end Holdem.Hand
