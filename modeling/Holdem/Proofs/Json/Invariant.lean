import Holdem.Json.Shape
import Holdem.Proofs.Except

/-!
# What every value that is read has

A property that each member keeps is one of the whole object (`members_keeps`), and a property that
each field keeps is one of the whole record, be it read from an object or from an array
(`record_keeps`). So what every value of a map has is known of all of them (`playerMap_keeps`).
Integers that are read have 64 signed bits (`fits_of_integer`).
-/

namespace Holdem.Json

variable {α β : Type} {s rest : List Char}

theorem fits_of_integer {n : Int} (h : integer s = .ok (n, rest)) : Chips.fits n = true := by
  unfold integer at h
  dsimp only at h
  repeat' split at h
  all_goals cases h
  all_goals assumption

/-- A text that is read is read from its beginning. -/
theorem exists_of_parse {reader : Reader α} {text : String} {a : α}
    (h : parse reader text = .ok a) : ∃ s, reader text.toList = .ok (a, s) := by
  obtain ⟨⟨a', s⟩, hread, h⟩ := bind_eq_ok.mp h
  dsimp only at h
  split at h
  · cases h
    exact ⟨s, hread⟩
  · cases h

/-! ## Objects -/

section Objects

variable {step : β → String → Reader β} {P : β → Prop} {b b' : β}

theorem membersFrom_keeps
    (hstep : ∀ b key s b' rest, P b → step b key s = .ok (b', rest) → P b') {fuel : Nat}
    {first : Bool} (hb : P b) (h : membersFrom step fuel first b s = .ok (b', rest)) : P b' := by
  induction fuel generalizing first b s with
  | zero => cases h
  | succ fuel ih =>
    unfold membersFrom at h
    obtain ⟨⟨key, s'⟩, -, h⟩ := bind_eq_ok.mp h
    cases key with
    | none =>
      cases h
      exact hb
    | some key =>
      obtain ⟨⟨c, s''⟩, hc, h⟩ := bind_eq_ok.mp h
      exact ih (hstep _ _ _ _ _ hb hc) h

/-- **What each member keeps, the whole object keeps.** -/
theorem members_keeps
    (hstep : ∀ b key s b' rest, P b → step b key s = .ok (b', rest) → P b') (hb : P b)
    (h : members step b s = .ok (b', rest)) : P b' :=
  membersFrom_keeps hstep hb h

theorem object_keeps
    (hstep : ∀ b key s b' rest, P b → step b key s = .ok (b', rest) → P b') (hb : P b)
    (h : object step b s = .ok (b', rest)) : P b' := by
  unfold object at h
  split at h
  · exact members_keeps hstep hb h
  · cases h

theorem exists_of_valueOf {value : Reader α} {a : α} (h : valueOf value s = .ok (a, rest)) :
    ∃ s', value s' = .ok (a, rest) := by
  obtain ⟨s', -, h⟩ := bind_eq_ok.mp h
  exact ⟨s', h⟩

end Objects

/-! ## Records -/

section Records

variable {γ : Type} {fields : List (Field β)} {P : β → Prop} {b b' : β}

theorem field_keeps {name : String} {value : Reader γ} {get : β → Option γ} {put : β → γ → β}
    (hput : ∀ b v s rest, P b → value s = .ok (v, rest) → P (put b v)) :
    ∀ b s b' rest, P b → (field name value get put).read b s = .ok (b', rest) → P b' := by
  intro b s b' rest hb h
  obtain ⟨⟨v, s'⟩, hv, h⟩ := map_eq_ok.mp h
  cases h
  exact hput b v s _ hb hv

theorem need_eq_ok {name : String} {v : γ} {x : Option γ} : need name x = .ok v ↔ x = some v := by
  cases x <;> simp [need]

theorem recordItems_keeps
    (hfields : ∀ f ∈ fields, ∀ b s b' rest, P b → f.read b s = .ok (b', rest) → P b')
    {first : Bool} (hb : P b) (h : recordItems fields first b s = .ok (b', rest)) : P b' := by
  induction fields generalizing first b s with
  | nil =>
    obtain ⟨_, -, h⟩ := map_eq_ok.mp h
    cases h
    exact hb
  | cons f fields ih =>
    rw [List.forall_mem_cons] at hfields
    unfold recordItems at h
    obtain ⟨⟨more, s'⟩, -, h⟩ := bind_eq_ok.mp h
    cases more with
    | false => cases h
    | true =>
      obtain ⟨⟨c, s''⟩, hc, h⟩ := bind_eq_ok.mp h
      exact ih hfields.2 (hfields.1 _ _ _ _ hb hc) h

/-- **What each field keeps, the whole record keeps**; a member that is no field changes nothing. -/
theorem record_keeps {none : β} {finish : β → Except Fault α} {a : α}
    (hfields : ∀ f ∈ fields, ∀ b s b' rest, P b → f.read b s = .ok (b', rest) → P b')
    (hnone : P none) (h : record fields none finish s = .ok (a, rest)) :
    ∃ b, P b ∧ finish b = .ok a := by
  have hmember : ∀ b key s b' rest, P b → recordMember fields b key s = .ok (b', rest) → P b' := by
    intro b key s b' rest hb h
    unfold recordMember at h
    split at h
    · rename_i f hf
      split at h
      · cases h
      · obtain ⟨s', h⟩ := exists_of_valueOf h
        exact hfields f (List.mem_of_find?_eq_some hf) _ _ _ _ hb h
    · obtain ⟨_, -, h⟩ := map_eq_ok.mp h
      cases h
      exact hb
  -- what is made of the fields, once they are read
  have hmade : ∀ {x : Except Fault (β × List Char)},
      (x >>= fun read => finish read.1 >>= fun a => Except.ok (a, read.2)) = .ok (a, rest) →
      (∀ b s, x = .ok (b, s) → P b) → ∃ b, P b ∧ finish b = .ok a := by
    intro x hx hkept
    obtain ⟨⟨b, s'⟩, hread, hx⟩ := bind_eq_ok.mp hx
    obtain ⟨a', hfinish, hx⟩ := bind_eq_ok.mp hx
    cases hx
    exact ⟨b, hkept b _ hread, hfinish⟩
  unfold record at h
  split at h
  · exact hmade h fun b s' hread => members_keeps hmember hnone hread
  · exact hmade h fun b s' hread => recordItems_keeps hfields hnone hread
  · cases h

end Records

/-- **What every value of a map has.** -/
theorem playerMap_keeps {value : Reader α} {m : PlayerMap α} {P : α → Prop}
    (hvalue : ∀ s a rest, value s = .ok (a, rest) → P a)
    (h : playerMap value s = .ok (m, rest)) : ∀ e ∈ m.entries, P e.2 := by
  refine object_keeps (P := fun m : PlayerMap α => ∀ e ∈ m.entries, P e.2) ?_
    (fun e he => absurd he List.not_mem_nil) h
  intro m player s m' rest hm h
  unfold playerMember at h
  obtain ⟨⟨a, s'⟩, ha, h⟩ := bind_eq_ok.mp h
  obtain ⟨s'', ha⟩ := exists_of_valueOf ha
  cases hn : m.insert? player a with
  | none =>
    simp only [hn] at h
    cases h
  | some n =>
    simp only [hn] at h
    cases h
    rw [PlayerMap.insert?_eq_some hn]
    intro e he
    rcases List.mem_append.mp he with he | he
    · exact hm e he
    · rw [List.mem_singleton.mp he]
      exact hvalue _ _ _ ha

end Holdem.Json
