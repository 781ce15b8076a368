import Holdem.Proofs.Chips.Total
import Holdem.Proofs.Table.Level

/-!
# Counting in 64 signed bits

A table counts in integers without bounds. Here the same sums are made one by one in 64 signed
bits, and a computation halts where one does not fit, where a range to clamp to is empty, or where a
position is outside its list (`Halt`).

* `add`, `sub`, `sum`, `clamp`, and `changeAt` for one entry of a list, with a law each that says
  when it does not halt.
* `putIn`, `collect`, `contribution`, `addChips`, `payoff`: the operations of a seat. They do not
  halt for a seat whose chips are balanced and whose start fits (`Seat.Funded`).
-/

namespace Holdem

/-- Why a computation stops. -/
inductive Halt
  | refused (cause : TableError)
  /-- A sum or a difference that does not have 64 signed bits. -/
  | overflow
  /-- A range to clamp to whose lower bound is above its upper one. -/
  | emptyRange
  /-- A position outside its list. -/
  | outOfBounds
  deriving DecidableEq

/-- Chips that are balanced, out of a start that fits. -/
structure Seat.Funded (s : Seat) : Prop where
  balanced : s.Balanced
  start_le : s.start ≤ Chips.most

namespace InPlace

variable {α β : Type}

/-! ## Sums -/

/-- An amount, if it has 64 signed bits. -/
def fitting (n : Int) : Except Halt Int := if Chips.fits n then .ok n else .error .overflow

def add (a b : Int) : Except Halt Int := fitting (a + b)

def sub (a b : Int) : Except Halt Int := fitting (a - b)

/-- Adds amounts up, one after the other. -/
def sum (l : List Int) : Except Halt Int := l.foldlM add 0

/-- Brings an amount into a range. -/
def clamp (low high n : Int) : Except Halt Int :=
  if low ≤ high then .ok (Chips.clamp low high n) else .error .emptyRange

theorem fits_iff {n : Int} : Chips.fits n = true ↔ Chips.least ≤ n ∧ n ≤ Chips.most := by
  unfold Chips.fits
  rw [Bool.and_eq_true, decide_eq_true_eq, decide_eq_true_eq]

/-- No amount between the greatest one and its opposite overflows. -/
theorem fits_of_bounds {n : Int} (hlow : -Chips.most ≤ n) (hhigh : n ≤ Chips.most) :
    Chips.fits n = true := by
  refine fits_iff.mpr ⟨?_, hhigh⟩
  unfold Chips.most at hlow
  unfold Chips.least
  omega

theorem most_nonneg : 0 ≤ Chips.most := by decide

theorem add_eq {a b : Int} (hlow : -Chips.most ≤ a + b) (hhigh : a + b ≤ Chips.most) :
    add a b = .ok (a + b) := if_pos (fits_of_bounds hlow hhigh)

theorem sub_eq {a b : Int} (hlow : -Chips.most ≤ a - b) (hhigh : a - b ≤ Chips.most) :
    sub a b = .ok (a - b) := if_pos (fits_of_bounds hlow hhigh)

theorem clamp_eq {low high : Int} (h : low ≤ high) (n : Int) :
    clamp low high n = .ok (Chips.clamp low high n) := if_pos h

/-- Amounts that are not negative are added up without overflow if their sum fits. -/
theorem foldlM_add {l : List Int} (h0 : ∀ n ∈ l, 0 ≤ n) {a : Int} (ha : 0 ≤ a)
    (hfit : a + Chips.total l ≤ Chips.most) : l.foldlM add a = .ok (a + Chips.total l) := by
  induction l generalizing a with
  | nil => simp [pure, Except.pure]
  | cons n l ih =>
    have hn := h0 n List.mem_cons_self
    have hl : ∀ m ∈ l, 0 ≤ m := fun m hm => h0 m (List.mem_cons_of_mem n hm)
    have htotal := Chips.total_nonneg hl
    have hmost := most_nonneg
    rw [Chips.total_cons] at hfit ⊢
    rw [List.foldlM_cons, add_eq (by omega) (by omega)]
    show l.foldlM add (a + n) = _
    rw [ih hl (by omega) (by omega), Int.add_assoc]

theorem sum_eq {l : List Int} (h0 : ∀ n ∈ l, 0 ≤ n) (hfit : Chips.total l ≤ Chips.most) :
    sum l = .ok (Chips.total l) := by
  have h := foldlM_add h0 (le_refl 0) (by rwa [zero_add])
  rwa [zero_add] at h

/-- A sum that does not fit overflows on the way: from there on no term can bring it back. -/
theorem foldlM_add_overflow {l : List Int} (h0 : ∀ n ∈ l, 0 ≤ n) {a : Int}
    (ha : Chips.fits a = true) (hover : Chips.most < a + Chips.total l) :
    l.foldlM add a = .error .overflow := by
  induction l generalizing a with
  | nil =>
    have := (fits_iff.mp ha).2
    rw [Chips.total_nil] at hover
    omega
  | cons n l ih =>
    rw [Chips.total_cons] at hover
    rw [List.foldlM_cons]
    by_cases hfit : Chips.fits (a + n) = true
    · have hnext : add a n = .ok (a + n) := if_pos hfit
      rw [hnext]
      exact ih (fun m hm => h0 m (List.mem_cons_of_mem n hm)) hfit (by omega)
    · have hnext : add a n = .error .overflow := if_neg hfit
      rw [hnext]
      rfl

theorem sum_overflow {l : List Int} (h0 : ∀ n ∈ l, 0 ≤ n) (hover : Chips.most < Chips.total l) :
    sum l = .error .overflow :=
  foldlM_add_overflow h0 (by decide) (by rwa [zero_add])

/-! ## Lists -/

/-- What does not halt for any entry does not halt for the list. -/
theorem mapM_eq {ε : Type} {f : α → Except ε β} {g : α → β} {l : List α}
    (h : ∀ a ∈ l, f a = .ok (g a)) : l.mapM f = .ok (l.map g) := by
  induction l with
  | nil => rfl
  | cons a l ih =>
    rw [List.mapM_cons, h a List.mem_cons_self, ih fun b hb => h b (List.mem_cons_of_mem a hb)]
    rfl

/-- Changes one entry of a list. -/
def changeAt (l : List α) (i : Nat) (f : α → Except Halt α) : Except Halt (List α) :=
  match l[i]? with
  | none => .error .outOfBounds
  | some a => (f a).map (l.set i ·)

theorem changeAt_eq {l : List α} {i : Nat} {a : α} {f : α → Except Halt α} {g : α → α}
    (ha : l[i]? = some a) (h : f a = .ok (g a)) : changeAt l i f = .ok (l.modify i g) := by
  unfold changeAt
  rw [ha]
  simp only [h, Except.map]
  rw [set_eq_modify ha]

/-! ## Seats -/

/-- Moves up to `amount` chips from behind into the bet. -/
def putIn (s : Seat) (amount : Int) : Except Halt Seat := do
  let moved ← clamp 0 s.stack amount
  let stack ← sub s.stack moved
  let bet ← add s.bet moved
  pure { s with stack, bet }

/-- Collects the bet. -/
def collect (s : Seat) : Except Halt Seat := do
  let committed ← add s.committed s.bet
  pure { s with committed, bet := 0 }

/-- Chips put in during the hand. -/
def contribution (s : Seat) : Except Halt Int := add s.committed s.bet

/-- Adds chips won. -/
def addChips (s : Seat) (amount : Int) : Except Halt Seat := do
  let stack ← add s.stack amount
  pure { s with stack }

/-- The net result so far. -/
def payoff (s : Seat) : Except Halt Int := sub s.stack s.start

variable {s : Seat}

theorem contribution_eq (h : s.Funded) : contribution s = .ok s.contribution := by
  obtain ⟨⟨hstack, hbet, hcommitted, hbalance⟩, hstart⟩ := h
  have hmost := most_nonneg
  unfold Seat.contribution at hbalance
  exact add_eq (by omega) (by omega)

theorem collect_eq (h : s.Funded) : collect s = .ok s.collect := by
  have hsum := contribution_eq h
  unfold contribution at hsum
  unfold collect
  rw [hsum]
  rfl

theorem putIn_eq (h : s.Funded) (amount : Int) : putIn s amount = .ok (s.putIn amount) := by
  obtain ⟨⟨hstack, hbet, hcommitted, hbalance⟩, hstart⟩ := h
  obtain ⟨hlow, hhigh⟩ := Seat.moved_bounds hstack amount
  have hmost := most_nonneg
  unfold Seat.contribution at hbalance
  have hclamp : clamp 0 s.stack amount = .ok (s.moved amount) := clamp_eq hstack amount
  unfold putIn
  rw [hclamp]
  show (do
    let stack ← sub s.stack (s.moved amount)
    let bet ← add s.bet (s.moved amount)
    pure { s with stack, bet }) = _
  rw [sub_eq (by omega) (by omega), add_eq (by omega) (by omega)]
  rfl

theorem funded_putIn (h : s.Funded) (amount : Int) : (s.putIn amount).Funded :=
  ⟨Seat.balanced_putIn h.balanced amount, h.start_le⟩

theorem addChips_eq {amount : Int} (hstack : 0 ≤ s.stack) (hamount : 0 ≤ amount)
    (hfit : s.stack + amount ≤ Chips.most) : addChips s amount = .ok (s.addChips amount) := by
  have hmost := most_nonneg
  unfold addChips
  rw [add_eq (by omega) hfit]
  rfl

theorem payoff_eq (hstack : 0 ≤ s.stack) (hstack_le : s.stack ≤ Chips.most) (hstart : 0 ≤ s.start)
    (hstart_le : s.start ≤ Chips.most) : payoff s = .ok s.payoff :=
  sub_eq (by omega) (by omega)

end InPlace

end Holdem
