import Holdem.Proofs.Table.Seats
import Mathlib.Data.List.Rotate
import Mathlib.Data.List.Nodup

/-!
# Turns around the table

`Table.rotation` as a rotation of the list of seats: each seat occurs once in it, and
`clockwise_split` says how the rotation from a seat follows from the one that reached it.
`clockwise` lists the seats from a given one on.
-/

namespace Holdem.Table

variable {t : Table}

/-- The seats in table order, beginning with `first`. -/
def clockwise (t : Table) (first : Nat) : List Nat :=
  (List.range t.seats.length).map fun k => (first + k) % t.seats.length

theorem rotation_eq_clockwise (t : Table) (i : Nat) : t.rotation i = t.clockwise (i + 1) := by
  unfold rotation clockwise
  refine List.map_congr_left fun k _ => ?_
  rw [Nat.add_right_comm]

theorem clockwise_eq_rotate (t : Table) (first : Nat) :
    t.clockwise first = (List.range t.seats.length).rotate first := by
  apply List.ext_getElem
  · rw [List.length_rotate]
    exact List.length_map _
  · intro k h1 h2
    rw [List.getElem_rotate]
    simp only [clockwise, List.getElem_map, List.getElem_range, List.length_range]
    rw [Nat.add_comm]

/-- Whole turns make no difference. -/
theorem clockwise_mod (t : Table) (first : Nat) :
    t.clockwise (first % t.seats.length) = t.clockwise first := by
  unfold clockwise
  refine List.map_congr_left fun k _ => ?_
  rw [Nat.mod_add_mod]

theorem mem_clockwise {first i : Nat} : i ∈ t.clockwise first ↔ i < t.seats.length := by
  rw [clockwise_eq_rotate, List.mem_rotate, List.mem_range]

theorem nodup_clockwise (t : Table) (first : Nat) : (t.clockwise first).Nodup := by
  rw [clockwise_eq_rotate, List.nodup_rotate]
  exact List.nodup_range

theorem length_clockwise (t : Table) (first : Nat) :
    (t.clockwise first).length = t.seats.length := by
  unfold clockwise
  rw [List.length_map, List.length_range]

/-- **Going on from a seat.** What comes after a seat comes first from it, then what came before
it, and the seat itself is last. -/
theorem clockwise_split {first i : Nat} {before after : List Nat}
    (h : t.clockwise first = before ++ i :: after) :
    t.clockwise (i + 1) = after ++ before ++ [i] := by
  have hk : before.length < t.seats.length := by
    rw [← length_clockwise t first, h, List.length_append, List.length_cons]
    omega
  have hi : i = (first + before.length) % t.seats.length := by
    have hget : (t.clockwise first)[before.length]? = some i := by simp [h]
    unfold clockwise at hget
    rw [List.getElem?_map, List.getElem?_range hk] at hget
    exact (Option.some.inj hget).symm
  have hrot : t.clockwise (i + 1) = (t.clockwise first).rotate (before.length + 1) := by
    rw [clockwise_eq_rotate, clockwise_eq_rotate, List.rotate_rotate]
    have hmod : (List.range t.seats.length).rotate (i + 1) =
        (List.range t.seats.length).rotate (first + (before.length + 1)) := by
      rw [← List.rotate_mod, ← List.rotate_mod _ (first + (before.length + 1)), List.length_range,
        hi, ← Nat.add_assoc, Nat.mod_add_mod]
    exact hmod
  have hsplit : before ++ i :: after = (before ++ [i]) ++ after := by simp
  have hlen : before.length + 1 = (before ++ [i]).length := by simp
  rw [hrot, h, hsplit, hlen, List.rotate_append_length_eq, List.append_assoc]

/-- The seats that satisfy a test, in turn from a seat that was reached first: the seat itself
leads, and the rest follows in turn from it. -/
theorem filter_clockwise_split {first i : Nat} {rest : List Nat} {p q : Nat → Bool}
    (h : (t.clockwise first).filter p = i :: rest) (hi : q i = false)
    (hq : ∀ j, j ≠ i → q j = p j) : (t.clockwise (i + 1)).filter q = rest := by
  obtain ⟨before, after, heq, hbefore, hpi, hafter⟩ := List.filter_eq_cons_iff.mp h
  have hnd := nodup_clockwise t first
  rw [heq] at hnd
  have hdisj := List.nodup_append.mp hnd
  have hib : i ∉ before := fun hm => hdisj.2.2 i hm i List.mem_cons_self rfl
  have hia : i ∉ after := (List.nodup_cons.mp hdisj.2.1).1
  have hb : before.filter q = [] := by
    rw [List.filter_eq_nil_iff]
    intro j hj
    rw [hq j fun he => hib (he ▸ hj)]
    exact hbefore j hj
  have ha : after.filter q = after.filter p :=
    List.filter_congr fun j hj => hq j fun he => hia (he ▸ hj)
  rw [clockwise_split heq, List.filter_append, List.filter_append, hb, ha, List.append_nil, hafter]
  simp [hi]

end Holdem.Table
