import Holdem.Chips
import Mathlib.Algebra.BigOperators.Group.List.Basic
import Mathlib.Tactic.Linarith

/-!
# Sums of chips

`Chips.total` as a sum: it is additive in the terms, monotone, and a list of amounts that are filed
under seats can be added up seat by seat (`total_by_seat`).
-/

namespace Holdem.Chips

variable {α : Type}

@[simp]
theorem total_nil : total [] = 0 := rfl

@[simp]
theorem total_cons (n : Int) (l : List Int) : total (n :: l) = n + total l := rfl

@[simp]
theorem total_reverse (l : List Int) : total l.reverse = total l := by
  induction l with
  | nil => rfl
  | cons n l ih =>
    rw [List.reverse_cons, total_append, ih, total_cons, total_cons, total_nil]
    omega

theorem total_map_add (l : List α) (f g : α → Int) :
    total (l.map fun a => f a + g a) = total (l.map f) + total (l.map g) := by
  induction l with
  | nil => rfl
  | cons a l ih => simp only [List.map_cons, total_cons, ih]; omega

theorem total_zipWith_sub {l l' : List Int} (h : l.length = l'.length) :
    total (List.zipWith (· - ·) l l') = total l - total l' := by
  induction l generalizing l' with
  | nil =>
    rw [List.length_eq_zero_iff.mp h.symm]
    rfl
  | cons a l ih =>
    cases l' with
    | nil => exact absurd h (Nat.succ_ne_zero _)
    | cons b l' =>
      rw [List.zipWith_cons_cons, total_cons, total_cons, total_cons, ih (Nat.succ.inj h)]
      omega

theorem total_map_zero {l : List α} {f : α → Int} (h : ∀ a ∈ l, f a = 0) :
    total (l.map f) = 0 := by
  induction l with
  | nil => rfl
  | cons a l ih =>
    rw [List.map_cons, total_cons, h a List.mem_cons_self,
      ih fun b hb => h b (List.mem_cons_of_mem a hb)]
    rfl

theorem total_map_le {l : List α} {f g : α → Int} (h : ∀ a ∈ l, f a ≤ g a) :
    total (l.map f) ≤ total (l.map g) := by
  induction l with
  | nil => exact le_refl _
  | cons a l ih =>
    have ha := h a List.mem_cons_self
    have hl := ih fun b hb => h b (List.mem_cons_of_mem a hb)
    simp only [List.map_cons, total_cons]
    omega

theorem total_map_nonneg {l : List α} {f : α → Int} (h : ∀ a ∈ l, 0 ≤ f a) :
    0 ≤ total (l.map f) := by
  have := total_map_le h
  rwa [total_map_zero fun _ _ => rfl] at this

theorem total_nonneg {l : List Int} (h : ∀ n ∈ l, 0 ≤ n) : 0 ≤ total l := by
  rw [← List.map_id l]
  exact total_map_nonneg h

/-- A sum without one of its terms. -/
theorem total_eraseIdx {l : List Int} {i : Nat} (h : i < l.length) :
    total l = l.getD i 0 + total (l.eraseIdx i) := by
  induction l generalizing i with
  | nil => exact absurd h (Nat.not_lt_zero i)
  | cons n l ih =>
    cases i with
    | zero => rfl
    | succ i =>
      rw [total_cons, ih (Nat.lt_of_succ_lt_succ h), List.eraseIdx_cons_succ, total_cons,
        List.getD_cons_succ]
      omega

/-- A sum with one of its terms changed. -/
theorem total_map_modify {l : List α} {i : Nat} {a : α} (h : l[i]? = some a) (f : α → α)
    (g : α → Int) : total ((l.modify i f).map g) = total (l.map g) + (g (f a) - g a) := by
  induction l generalizing i with
  | nil => cases h
  | cons b l ih =>
    cases i with
    | zero =>
      cases h
      rw [List.modify_zero_cons, List.map_cons, List.map_cons, total_cons, total_cons]
      omega
    | succ i =>
      rw [List.modify_succ_cons, List.map_cons, List.map_cons, total_cons, total_cons, ih h]
      omega

/-- No term is above the sum of terms that are not negative. -/
theorem le_total {l : List Int} (h : ∀ n ∈ l, 0 ≤ n) {n : Int} (hn : n ∈ l) : n ≤ total l := by
  induction l with
  | nil => exact absurd hn List.not_mem_nil
  | cons a l ih =>
    have ha := h a List.mem_cons_self
    have hl : ∀ m ∈ l, 0 ≤ m := fun m hm => h m (List.mem_cons_of_mem a hm)
    rw [total_cons]
    rcases List.mem_cons.mp hn with rfl | hn
    · have := total_nonneg hl; omega
    · have := ih hl hn; omega

/-- Leaving terms out that are not negative lowers a sum. -/
theorem total_filter_le {l : List α} {f : α → Int} (h : ∀ a ∈ l, 0 ≤ f a) (p : α → Bool) :
    total ((l.filter p).map f) ≤ total (l.map f) := by
  induction l with
  | nil => exact le_refl _
  | cons a l ih =>
    have ha := h a List.mem_cons_self
    have hl := ih fun b hb => h b (List.mem_cons_of_mem a hb)
    rw [List.filter_cons, List.map_cons, total_cons]
    split
    · rw [List.map_cons, total_cons]; omega
    · omega

/-- A sum over a list, with the terms that fail a test counted as nothing. -/
theorem total_filter (l : List α) (f : α → Int) (p : α → Bool) :
    total ((l.filter p).map f) = total (l.map fun a => if p a then f a else 0) := by
  induction l with
  | nil => rfl
  | cons a l ih =>
    rw [List.filter_cons, List.map_cons, total_cons, ← ih]
    split <;> simp

/-- A sum over all seats of an amount that only one seat has. -/
theorem total_range_single {n seat : Nat} (h : seat < n) (amount : Int) :
    total ((List.range n).map fun i => if seat = i then amount else 0) = amount := by
  induction n with
  | zero => exact absurd h (Nat.not_lt_zero seat)
  | succ n ih =>
    rw [List.range_succ, List.map_append, total_append, List.map_singleton, total_cons, total_nil]
    by_cases hs : seat = n
    · rw [if_pos hs, total_map_zero]
      · omega
      · intro i hi
        rw [List.mem_range] at hi
        exact if_neg (by omega)
    · rw [ih (by omega), if_neg hs]
      omega

/-- **Amounts filed under seats add up seat by seat.** -/
theorem total_by_seat {n : Nat} {l : List (Nat × Int)} (h : ∀ e ∈ l, e.1 < n) :
    total ((List.range n).map fun seat => total ((l.filter (·.1 = seat)).map (·.2))) =
      total (l.map (·.2)) := by
  induction l with
  | nil => exact total_map_zero fun _ _ => rfl
  | cons e l ih =>
    have hl := ih fun e' he => h e' (List.mem_cons_of_mem e he)
    have he := total_range_single (h e List.mem_cons_self) e.2
    rw [List.map_cons, total_cons, ← hl, ← he, ← total_map_add]
    congr 1
    refine List.map_congr_left fun seat _ => ?_
    rw [List.filter_cons]
    by_cases hs : e.1 = seat <;> simp [hs]

end Holdem.Chips
