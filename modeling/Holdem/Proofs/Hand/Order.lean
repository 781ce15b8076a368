import Holdem.Hand.Strength
import Mathlib.Data.List.Lex

/-!
# The order of hand strengths

`Strength.beats` is a strict linear order: of two different strengths one beats the other. The best
of some strengths is one of them that no other beats (`best?_spec`).
-/

namespace Holdem.Strength

theorem cons_le_cons {a b : Nat} {l l' : List Nat} :
    a :: l ≤ b :: l' ↔ a < b ∨ a = b ∧ l ≤ l' := by
  rw [← not_lt, List.cons_lt_cons_iff, ← not_lt (a := l')]
  rcases lt_trichotomy a b with h | rfl | h
  · simp [h, h.ne', h.not_gt]
  · simp
  · simp [h, h.ne', h.not_gt]

/-- A strength of a higher category is the greater one. -/
theorem key_le_of_level_lt {a b : Strength} (h : a.category.level < b.category.level) :
    a.key ≤ b.key :=
  cons_le_cons.mpr (Or.inl h)

theorem beats_iff {a b : Strength} : a.beats b = true ↔ b.key < a.key := by
  unfold beats
  rw [decide_eq_true_eq]

theorem not_beats_iff {a b : Strength} : ¬ a.beats b = true ↔ a.key ≤ b.key := by
  rw [beats_iff, not_lt]

/-- The comparison finds `a` the greater only if it is. -/
theorem compare_ne_gt_iff {a b : Strength} : a.compare b ≠ .gt ↔ a.key ≤ b.key := by
  rw [← not_beats_iff]
  unfold compare
  by_cases h : a.beats b = true
  · simp [h]
  · by_cases h' : b.beats a = true
    · simp [h, h']
    · simp [h, h']

theorem not_beats_self (a : Strength) : ¬ a.beats a = true := by
  rw [not_beats_iff]

/-- Of two strengths of which none beats the other there is but one. -/
theorem eq_of_not_beats {a b : Strength} (h : ¬ a.beats b = true) (h' : ¬ b.beats a = true) :
    a = b :=
  key_injective (le_antisymm (not_beats_iff.mp h) (not_beats_iff.mp h'))

theorem max_eq_or (a b : Strength) : max a b = a ∨ max a b = b := by
  unfold max
  split
  · exact Or.inl rfl
  · exact Or.inr rfl

theorem key_le_key_max (a b : Strength) : a.key ≤ (max a b).key ∧ b.key ≤ (max a b).key := by
  unfold max
  split
  · rename_i h
    exact ⟨le_refl _, (beats_iff.mp h).le⟩
  · rename_i h
    exact ⟨not_beats_iff.mp h, le_refl _⟩

theorem foldl_max_spec (s : Strength) (l : List Strength) :
    l.foldl max s ∈ s :: l ∧ ∀ x ∈ s :: l, x.key ≤ (l.foldl max s).key := by
  induction l generalizing s with
  | nil =>
    refine ⟨List.mem_singleton_self s, fun x hx => ?_⟩
    rw [List.mem_singleton.mp hx]
    exact le_refl _
  | cons a l ih =>
    obtain ⟨hmem, hle⟩ := ih (max s a)
    obtain ⟨hs, ha⟩ := key_le_key_max s a
    have hmax := hle (max s a) List.mem_cons_self
    rw [List.foldl_cons]
    constructor
    · rcases List.mem_cons.mp hmem with he | hm
      · rw [he]
        rcases max_eq_or s a with h | h
        · rw [h]; exact List.mem_cons_self
        · rw [h]; exact List.mem_cons_of_mem s List.mem_cons_self
      · exact List.mem_cons_of_mem s (List.mem_cons_of_mem a hm)
    · intro x hx
      rcases List.mem_cons.mp hx with rfl | hx
      · exact hs.trans hmax
      · rcases List.mem_cons.mp hx with rfl | hx
        · exact ha.trans hmax
        · exact hle x (List.mem_cons_of_mem _ hx)

theorem best?_eq_none_iff {l : List Strength} : best? l = none ↔ l = [] := by
  cases l <;> simp [best?]

/-- **The best of some strengths** is among them, and none of them beats it. -/
theorem best?_spec {l : List Strength} {b : Strength} (h : best? l = some b) :
    b ∈ l ∧ ∀ x ∈ l, ¬ x.beats b = true := by
  cases l with
  | nil => exact absurd h (by simp [best?])
  | cons s l =>
    obtain ⟨hmem, hle⟩ := foldl_max_spec s l
    simp only [best?, Option.some.injEq] at h
    rw [← h]
    exact ⟨hmem, fun x hx => not_beats_iff.mpr (hle x hx)⟩

/-- A strength that beats all others is the best. -/
theorem best?_eq_some {l : List Strength} {a : Strength} (ha : a ∈ l)
    (h : ∀ x ∈ l, x ≠ a → a.beats x = true) : best? l = some a := by
  cases hb : best? l with
  | none =>
    rw [best?_eq_none_iff.mp hb] at ha
    exact absurd ha List.not_mem_nil
  | some b =>
    obtain ⟨hmem, hmax⟩ := best?_spec hb
    by_contra hne
    exact hmax a ha (h b hmem fun he => hne (by rw [he]))

end Holdem.Strength
