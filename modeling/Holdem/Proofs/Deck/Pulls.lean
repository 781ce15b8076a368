import Holdem.Proofs.Deck.Order

/-!
# Cards that leave a deck

A deck is drawn from, and named cards are taken out of it, in any order. A `Pull` is one such step,
`Deck.pulls` are several, and an `Outcome` is what came of one.

Two facts say what is left, for any deck without repetitions:
* **`perm_pulls`**: the cards that left and the cards that are left are those that were there;
* **`order_pulls`**: the cards drawn and then the cards left are in the order of the untouched deck,
  with the cards passed over that were taken out by name.

For the deck of a seed, in which each of 52 cards is there once, the rest follows from them:
**`accounted`** is the account of any steps on it. A card that is asked for and not there was given
before, so the cards given are the cards gone (`mem_gone_iff`).
-/

namespace Holdem

namespace Deck

/-- A step on a deck. -/
inductive Pull
  | draw
  | take (c : Card)

/-- What came of a step. -/
inductive Outcome
  | drew (card : Option Card)
  | took (card : Card) (found : Bool)

namespace Outcome

/-- The card that left the deck. -/
def gone? : Outcome → Option Card
  | drew card => card
  | took card found => if found then some card else none

/-- The card that was drawn. -/
def drawn? : Outcome → Option Card
  | drew card => card
  | took .. => none

/-- The card that was taken out by name. -/
def taken? : Outcome → Option Card
  | drew _ => none
  | took card found => if found then some card else none

/-- The card that was asked for and not there. -/
def missed? : Outcome → Option Card
  | drew _ => none
  | took card found => if found then none else some card

/-- The card that somebody got, whether it left the deck for it or not. -/
def card? : Outcome → Option Card
  | drew card => card
  | took card _ => some card

end Outcome

/-- Does a step. -/
def pull (d : Deck) : Pull → Outcome × Deck
  | .draw =>
    match d.draw with
    | some (c, rest) => (.drew (some c), rest)
    | none => (.drew none, d)
  | .take c => (.took c (d.take c).1, (d.take c).2)

/-- Does several steps, one after the other. -/
def pulls (d : Deck) : List Pull → List Outcome × Deck
  | [] => ([], d)
  | p :: ps => ((d.pull p).1 :: ((d.pull p).2.pulls ps).1, ((d.pull p).2.pulls ps).2)

theorem pulls_append (d : Deck) (ps qs : List Pull) :
    d.pulls (ps ++ qs) =
      ((d.pulls ps).1 ++ ((d.pulls ps).2.pulls qs).1, ((d.pulls ps).2.pulls qs).2) := by
  induction ps generalizing d with
  | nil => rfl
  | cons p ps ih =>
    rw [List.cons_append, pulls, ih]
    rfl

/-! ## One step -/

/-- A step, by what is in the deck. -/
inductive Pulled (d : Deck) : Pull → Outcome × Deck → Prop
  | drew {c : Card} {rest : List Card} (h : d.cards = c :: rest) :
      Pulled d .draw (.drew (some c), ⟨rest⟩)
  | dry (h : d.cards = []) : Pulled d .draw (.drew none, d)
  | took {c : Card} (h : c ∈ d.cards) : Pulled d (.take c) (.took c true, ⟨d.cards.erase c⟩)
  | missed {c : Card} (h : c ∉ d.cards) : Pulled d (.take c) (.took c false, d)

theorem pulled (d : Deck) (p : Pull) : d.Pulled p (d.pull p) := by
  cases p with
  | draw =>
    unfold pull draw
    cases h : d.cards with
    | nil => exact .dry h
    | cons c rest => exact .drew h
  | take c =>
    show d.Pulled _ (.took c (d.take c).1, (d.take c).2)
    unfold take
    by_cases h : c ∈ d.cards
    · rw [if_pos h]
      exact .took h
    · rw [if_neg h]
      exact .missed h

theorem perm_pull (d : Deck) (p : Pull) :
    (((d.pull p).1.gone?).toList ++ (d.pull p).2.cards).Perm d.cards := by
  have hp := d.pulled p
  generalize d.pull p = r at hp ⊢
  cases hp with
  | drew h =>
    rw [h]
    exact .rfl
  | dry => exact .rfl
  | took h => exact (List.perm_cons_erase h).symm
  | missed => exact .rfl

theorem nodup_pull {d : Deck} (hd : d.cards.Nodup) (p : Pull) : (d.pull p).2.cards.Nodup :=
  (List.nodup_append.mp ((d.perm_pull p).nodup_iff.mpr hd)).2.1

/-- A step keeps the order of what stays in the deck, now or until it is drawn; `later` are cards
that will be taken out of the rest. -/
theorem order_pull {d : Deck} (hd : d.cards.Nodup) (p : Pull) {later : List Card}
    (hlater : ∀ c ∈ later, c ∈ (d.pull p).2.cards) :
    ((d.pull p).1.drawn?).toList ++ (d.pull p).2.cards.filter (· ∉ later) =
      d.cards.filter (· ∉ ((d.pull p).1.taken?).toList ++ later) := by
  have hp := d.pulled p
  generalize d.pull p = r at hp hlater ⊢
  cases hp with
  | @drew c rest h =>
    rw [h, List.nodup_cons] at hd
    have hstays : c ∉ later := fun hc => hd.1 (hlater c hc)
    rw [h]
    show c :: rest.filter (· ∉ later) = (c :: rest).filter (· ∉ later)
    rw [List.filter_cons, if_pos (decide_eq_true hstays)]
  | dry => rfl
  | @took c h =>
    show (d.cards.erase c).filter (· ∉ later) = d.cards.filter (· ∉ c :: later)
    rw [hd.erase_eq_filter, List.filter_filter]
    refine List.filter_congr fun x _ => ?_
    rw [Bool.eq_iff_iff]
    simp [and_comm]
  | missed => rfl

/-- Of the cards of a deck, one that is asked for is there. -/
theorem gone_of_given {d : Deck} {p : Pull} {c : Card} (hc : c ∈ d.cards)
    (h : (d.pull p).1.card? = some c) : (d.pull p).1.gone? = some c := by
  have hp := d.pulled p
  generalize d.pull p = r at hp h ⊢
  cases hp with
  | drew => exact h
  | dry => exact h
  | took => exact h
  | missed hout =>
    cases h
    exact absurd hc hout

/-! ## Several steps -/

theorem filterMap_pulls_cons {α : Type} (f : Outcome → Option α) (d : Deck) (p : Pull)
    (ps : List Pull) : (d.pulls (p :: ps)).1.filterMap f =
      (f (d.pull p).1).toList ++ ((d.pull p).2.pulls ps).1.filterMap f := by
  rw [pulls, List.filterMap_cons]
  cases f (d.pull p).1 <;> rfl

/-- **What left and what is left** is what was there. -/
theorem perm_pulls (d : Deck) (ps : List Pull) :
    ((d.pulls ps).1.filterMap Outcome.gone? ++ (d.pulls ps).2.cards).Perm d.cards := by
  induction ps generalizing d with
  | nil => exact .rfl
  | cons p ps ih =>
    rw [filterMap_pulls_cons, List.append_assoc]
    exact ((ih (d.pull p).2).append_left _).trans (d.perm_pull p)

theorem Outcome.gone?_of_taken? {o : Outcome} {c : Card} (h : o.taken? = some c) :
    o.gone? = some c := by
  cases o with
  | drew => cases h
  | took => exact h

theorem Outcome.card?_of_gone? {o : Outcome} {c : Card} (h : o.gone? = some c) :
    o.card? = some c := by
  cases o with
  | drew => exact h
  | took card found =>
    cases found with
    | false => cases h
    | true => exact h

theorem mem_of_taken {d : Deck} {ps : List Pull} {c : Card}
    (h : c ∈ (d.pulls ps).1.filterMap Outcome.taken?) : c ∈ d.cards := by
  obtain ⟨o, ho, hc⟩ := List.mem_filterMap.mp h
  have hgone := List.mem_filterMap.mpr ⟨o, ho, Outcome.gone?_of_taken? hc⟩
  exact (d.perm_pulls ps).mem_iff.mp (List.mem_append_left _ hgone)

/-- **What is drawn and what is left** keeps its order, but for what is taken out. -/
theorem order_pulls {d : Deck} (hd : d.cards.Nodup) (ps : List Pull) :
    (d.pulls ps).1.filterMap Outcome.drawn? ++ (d.pulls ps).2.cards =
      d.cards.filter (· ∉ (d.pulls ps).1.filterMap Outcome.taken?) := by
  induction ps generalizing d with
  | nil => exact (List.filter_eq_self.mpr fun _ _ => rfl).symm
  | cons p ps ih =>
    rw [filterMap_pulls_cons, filterMap_pulls_cons, List.append_assoc]
    show _ ++ (_ ++ ((d.pull p).2.pulls ps).2.cards) = _
    rw [ih (nodup_pull hd p)]
    exact order_pull hd p fun c => mem_of_taken

/-! ## What is gone -/

theorem take_eq_true_iff {d : Deck} {c : Card} : (d.take c).1 = true ↔ c ∈ d.cards := by
  unfold take
  split <;> simp_all

theorem draw_eq_none_iff {d : Deck} : d.draw = none ↔ d.cards = [] := by
  unfold draw
  cases d.cards <;> simp

theorem nodup_pulls {d : Deck} (hd : d.cards.Nodup) (ps : List Pull) :
    (d.pulls ps).2.cards.Nodup :=
  (List.nodup_append.mp ((d.perm_pulls ps).nodup_iff.mpr hd)).2.1

theorem mem_take {d : Deck} (hd : d.cards.Nodup) {c x : Card} :
    x ∈ (d.take c).2.cards ↔ x ≠ c ∧ x ∈ d.cards := by
  unfold take
  split
  · exact hd.mem_erase_iff
  · rename_i hout
    refine (and_iff_right_of_imp fun hx => ?_).symm
    rintro rfl
    exact hout hx

theorem missed_take (d : Deck) (c : Card) :
    (d.pull (.take c)).1.missed?.toList = if c ∈ d.cards then [] else [c] := by
  unfold pull take
  by_cases h : c ∈ d.cards <;> simp [h, Outcome.missed?]

/-- **What is left is what is not gone.** -/
theorem mem_iff_not_gone {d : Deck} (hd : d.cards.Nodup) {ps : List Pull} {c : Card}
    (hc : c ∈ d.cards) :
    c ∈ (d.pulls ps).2.cards ↔ c ∉ (d.pulls ps).1.filterMap Outcome.gone? := by
  have hperm := d.perm_pulls ps
  have hdisjoint := List.disjoint_of_nodup_append (hperm.nodup_iff.mpr hd)
  constructor
  · exact fun hleft hgone => hdisjoint hgone hleft
  · exact (List.mem_append.mp (hperm.mem_iff.mpr hc)).resolve_left

/-- **What was given is gone.** A card that is asked for when it is not there was given before. -/
theorem mem_gone_iff {d : Deck} {ps : List Pull} {c : Card} (hc : c ∈ d.cards) :
    c ∈ (d.pulls ps).1.filterMap Outcome.gone? ↔ c ∈ (d.pulls ps).1.filterMap Outcome.card? := by
  constructor
  · intro h
    obtain ⟨o, ho, hgone⟩ := List.mem_filterMap.mp h
    exact List.mem_filterMap.mpr ⟨o, ho, Outcome.card?_of_gone? hgone⟩
  · intro h
    induction ps generalizing d with
    | nil => exact h
    | cons p ps ih =>
      rw [filterMap_pulls_cons, List.mem_append, Option.mem_toList] at h ⊢
      by_cases hgone : (d.pull p).1.gone? = some c
      · exact Or.inl hgone
      · have hstays : c ∈ (d.pull p).2.cards := by
          have hmem := (d.perm_pull p).mem_iff.mpr hc
          rw [List.mem_append, Option.mem_toList] at hmem
          exact hmem.resolve_left hgone
        refine Or.inr (ih hstays ?_)
        exact h.resolve_left fun hgiven => hgone (gone_of_given hc hgiven)

/-- **The account of a deck**: what came of some steps on the deck of a seed, and what is left. -/
structure Accounted (seed : UInt64) (outcomes : List Outcome) (d : Deck) : Prop where
  /-- No card leaves twice. -/
  once : (outcomes.filterMap Outcome.gone?).Nodup
  /-- A card can be taken out until it is gone. -/
  take_iff : ∀ c, (d.take c).1 = true ↔ c ∉ outcomes.filterMap Outcome.gone?
  /-- A card can be drawn until all are gone. -/
  draw_iff : d.draw = none ↔ ∀ c, c ∈ outcomes.filterMap Outcome.gone?
  remaining : d.remaining + (outcomes.filterMap Outcome.gone?).length = 52
  /-- The cards are drawn in the order of the untouched deck, those taken out passed over, and so
  would be the cards that are left. -/
  order : outcomes.filterMap Outcome.drawn? ++ d.cards =
    (ofSeed seed).cards.filter (· ∉ outcomes.filterMap Outcome.taken?)

/-- **Any steps on the deck of a seed are accounted for.** -/
theorem accounted (seed : UInt64) (ps : List Pull) :
    Accounted seed ((ofSeed seed).pulls ps).1 ((ofSeed seed).pulls ps).2 := by
  have hnodup := nodup_ofSeed seed
  have hperm := (ofSeed seed).perm_pulls ps
  have hleft : ∀ c, c ∈ ((ofSeed seed).pulls ps).2.cards ↔
      c ∉ ((ofSeed seed).pulls ps).1.filterMap Outcome.gone? :=
    fun c => mem_iff_not_gone hnodup (mem_ofSeed seed c)
  refine ⟨(List.nodup_append.mp (hperm.nodup_iff.mpr hnodup)).1,
    fun c => take_eq_true_iff.trans (hleft c), ?_, ?_, order_pulls hnodup ps⟩
  · rw [draw_eq_none_iff, List.eq_nil_iff_forall_not_mem]
    exact forall_congr' fun c => (not_congr (hleft c)).trans not_not
  · rw [← remaining_ofSeed seed, Nat.add_comm]
    exact List.length_append.symm.trans hperm.length_eq

end Deck

end Holdem
