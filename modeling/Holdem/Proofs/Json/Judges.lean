import Holdem.Proofs.Json.Literals
import Holdem.Proofs.Json.Shape

/-!
# Readers that take whole values

A reader `Judges` values if it takes each text of a value or refuses it, whatever stands around it:
the outcome is decided by the text, and not by what follows (`Takes`).

Each of the small readers does so on the texts that are meant for it, and on all others it finds a
wrong type (`takes_of_wrongType`). So integers, strings with a meaning and lists of what is judged
are judged (**`judges_integer`**, **`judges_meaning`**, **`judges_list`**).
-/

namespace Holdem.Json

open Grammar

variable {α : Type} {s t rest : List Char} {c : Char}

/-- A reader takes a text for a value or refuses it, wherever the text stands. -/
def Takes (reader : Reader α) (s : List Char) (r : Except Fault α) : Prop :=
  ∀ gap rest, Gap gap → Ends rest → reader (gap ++ (s ++ rest)) = r.map (·, rest)

/-- A reader has a verdict on every value. -/
def Judges (reader : Reader α) : Prop := ∀ s, Value s → ∃ r, Takes reader s r

theorem Takes.here {reader : Reader α} {r : Except Fault α} (h : Takes reader s r)
    (hrest : Ends rest) : reader (s ++ rest) = r.map (·, rest) := by
  have hread := h [] rest gap_nil hrest
  rwa [List.nil_append] at hread

/-- The verdict on a text is that on the text alone. -/
theorem Takes.parse_eq {reader : Reader α} {r : Except Fault α} (h : Takes reader s r) :
    parse reader (String.ofList s) = r := by
  have hread := h.here ends_nil
  rw [List.append_nil] at hread
  unfold parse
  rw [String.toList_ofList, hread]
  cases r <;> rfl

/-- A reader judges a value that it refuses for its type. -/
theorem takes_of_wrongType {reader : Reader α} (h : Value (c :: t))
    (hreader : ∀ gap rest, Gap gap → reader (gap ++ c :: rest) = .error (wrongType (c :: rest))) :
    ∃ r, Takes reader (c :: t) r := by
  obtain ⟨e, he⟩ := wrongType_value h
  refine ⟨.error e, fun gap rest hgap hrest => ?_⟩
  rw [List.cons_append, hreader gap _ hgap, ← List.cons_append, he rest hrest]
  rfl

/-! ## Integers -/

/-- The integer that a number is. -/
def Numeral.integer : Numeral → Except Fault Int
  | .whole n => if Chips.fits n then .ok n else .error .unsuitable
  | .real _ => .error .unsuitable

/-- The integer that a number is, and what follows it. -/
def integerOf (r : Except Fault (Numeral × List Char)) : Except Fault (Int × List Char) :=
  r >>= fun (n, rest) => n.integer.map (·, rest)

theorem integerOf_map (r : Except Fault Numeral) (rest : List Char) :
    integerOf (r.map (·, rest)) = (r >>= Numeral.integer).map (·, rest) := by
  cases r <;> rfl

theorem integerOf_whole (n : Int) (rest : List Char) :
    (if Chips.fits n = true then .ok (n, rest) else .error .unsuitable) =
      integerOf (.ok (.whole n, rest)) := by
  show _ = (Numeral.integer (.whole n)).map (·, rest)
  unfold Numeral.integer
  dsimp only
  split <;> rfl

/-- Integers are read as numbers. -/
theorem integer_cases (gap : List Char) (hgap : Gap gap) (hblank : isBlank c = false)
    (s : List Char) :
    integer (gap ++ c :: s) =
      if c = '-' then integerOf (numberBody true s)
      else if isDigit c = true then integerOf (numberBody false (c :: s))
      else .error (wrongType (c :: s)) := by
  unfold integer
  rw [hgap.blanks_append_cons hblank]
  dsimp only
  split
  · rename_i heq
    obtain ⟨rfl, rfl⟩ := List.cons.inj heq
    rw [if_pos rfl]
    rcases numberBody true s with e | ⟨n | x, rest⟩
    · rfl
    · exact integerOf_whole n rest
    · rfl
  · rename_i hminus heq
    obtain ⟨rfl, rfl⟩ := List.cons.inj heq
    rw [if_neg hminus]
    by_cases hdigit : isDigit c = true
    · rw [if_pos hdigit, if_pos hdigit]
      rcases numberBody false (c :: s) with e | ⟨n | x, rest⟩
      · rfl
      · exact integerOf_whole n rest
      · rfl
    · rw [if_neg hdigit, if_neg hdigit]
  · rename_i heq
    cases heq

/-- **Integers** are judged. -/
theorem judges_integer : Judges integer := by
  intro s h
  obtain ⟨c, t, rfl, hblank, -⟩ := starts_value h
  by_cases hnumber : isDigit c = true ∨ c = '-'
  · cases number_of_head h hnumber with
    | positive h =>
      obtain ⟨r, hr⟩ := local_numberBody false h
      refine ⟨r >>= Numeral.integer, fun gap rest hgap hrest => ?_⟩
      obtain ⟨d, u, hd, hdigit⟩ := head_of_unsigned h
      obtain ⟨rfl, rfl⟩ := List.cons.inj hd
      have hminus : c ≠ '-' := by
        rintro rfl
        exact absurd hdigit (by decide)
      have hread : numberBody false (c :: (t ++ rest)) = r.map (·, rest) := hr rest hrest
      rw [List.cons_append, integer_cases gap hgap hblank, if_neg hminus, if_pos hdigit, hread,
        integerOf_map]
    | negative h =>
      obtain ⟨r, hr⟩ := local_numberBody true h
      refine ⟨r >>= Numeral.integer, fun gap rest hgap hrest => ?_⟩
      have hread : numberBody true (t ++ rest) = r.map (·, rest) := hr rest hrest
      rw [List.cons_append, integer_cases gap hgap hblank, if_pos rfl, hread, integerOf_map]
  · rw [not_or] at hnumber
    refine takes_of_wrongType h fun gap rest hgap => ?_
    rw [integer_cases gap hgap hblank, if_neg hnumber.2, if_neg hnumber.1]

/-! ## Strings with a meaning -/

/-- **Strings with a meaning** are judged. -/
theorem judges_meaning (of : String → Except Fault α) : Judges (meaning of) := by
  intro s h
  obtain ⟨c, t, rfl, hblank, -⟩ := starts_value h
  by_cases hquote : c = '\x22'
  · subst hquote
    obtain ⟨u, hu, rfl⟩ := body_of_head h rfl
    obtain ⟨r, hr⟩ := exists_stringBody hu
    refine ⟨r >>= of, fun gap rest hgap hrest => ?_⟩
    unfold meaning string
    rw [List.cons_append, hgap.blanks_append_cons hblank, List.append_assoc, List.singleton_append]
    show (stringBody _ >>= _) = _
    rw [hr rest]
    rcases r with e | key
    · rfl
    · show (of key >>= _) = (of key).map _
      cases of key <;> rfl
  · refine takes_of_wrongType h fun gap rest hgap => ?_
    unfold meaning string
    rw [hgap.blanks_append_cons hblank]
    split
    · rename_i heq
      exact absurd (List.cons.inj heq).1 hquote
    · rfl

/-! ## Arrays -/

section Arrays

variable {item : Reader α} {items : List Padded}

/-- Blanks in front of what comes next are passed over. -/
theorem nextItem_gap {gap : List Char} (first : Bool) (hgap : Gap gap) (s : List Char) :
    nextItem first (gap ++ s) = nextItem first s := by
  unfold nextItem
  rw [hgap.blanks_append]

/-- No number goes on with what stands behind an item or a member. -/
theorem ends_separated {gap : List Char} (hgap : Gap gap) (texts : List (List Char))
    {closing : Char} (hclosing : closing = ']' ∨ closing = '\x7d') (rest : List Char) :
    Ends (gap ++ (texts.flatMap (',' :: ·) ++ closing :: rest)) := by
  cases texts with
  | nil =>
    refine hgap.ends_append_cons ?_ rest
    rcases hclosing with rfl | rfl <;> decide
  | cons text texts => exact hgap.ends_append_cons (by decide) _

theorem length_le_separated (texts : List (List Char)) :
    texts.length ≤ (texts.flatMap (',' :: ·)).length :=
  length_le_following [] texts

/-- An item and those after it. -/
theorem itemsFrom_next {text s' : List Char} {first : Bool} {fuel : Nat} {r : Except Fault α}
    {r' : Except Fault (List α)} (hnext : nextItem first s = .ok (true, text ++ s'))
    (hr : item (text ++ s') = r.map (·, s'))
    (hr' : itemsFrom item fuel false s' = r'.map (·, rest)) :
    itemsFrom item (fuel + 1) first s = (r >>= fun a => r'.map (a :: ·)).map (·, rest) := by
  unfold itemsFrom
  rw [hnext]
  show (item _ >>= _) = _
  rw [hr]
  rcases r with e | a
  · rfl
  · show (itemsFrom item fuel false s' >>= _) = (r'.map (a :: ·)).map _
    rw [hr']
    cases r' <;> rfl

/-- The items after the first, each after a comma. -/
theorem exists_itemsFrom (hitem : Judges item) (h : ∀ p ∈ items, p.Airy ∧ Value p.text) :
    ∃ r : Except Fault (List α), ∀ fuel gap rest, items.length < fuel → Gap gap →
      itemsFrom item fuel false
          (gap ++ ((items.map Padded.whole).flatMap (',' :: ·) ++ ']' :: rest)) =
        r.map (·, rest) := by
  induction items with
  | nil =>
    refine ⟨.ok [], fun fuel gap rest hfuel hgap => ?_⟩
    obtain ⟨fuel, rfl⟩ := Nat.exists_eq_add_one_of_ne_zero (Nat.ne_of_gt hfuel)
    unfold itemsFrom
    rw [List.map_nil, List.flatMap_nil, List.nil_append, nextItem_end false hgap]
    rfl
  | cons p items ih =>
    rw [List.forall_mem_cons] at h
    obtain ⟨⟨hairy, hvalue⟩, hitems⟩ := h
    obtain ⟨r, hr⟩ := hitem p.text hvalue
    obtain ⟨r', hr'⟩ := ih hitems
    refine ⟨r >>= fun a => r'.map (a :: ·), fun fuel gap rest hfuel hgap => ?_⟩
    obtain ⟨fuel, rfl⟩ := Nat.exists_eq_add_one_of_ne_zero (Nat.ne_zero_of_lt hfuel)
    refine itemsFrom_next ?_ (hr.here (ends_separated hairy.after _ (.inl rfl) rest))
      (hr' fuel p.after rest (Nat.lt_of_succ_lt_succ hfuel) hairy.after)
    rw [List.map_cons, List.flatMap_cons, nextItem_gap false hgap, Padded.whole, List.append_assoc,
      List.cons_append, List.append_assoc, List.append_assoc]
    exact nextItem_following hairy.before (starts_value hvalue)

/-- The items of an array that has some. -/
theorem exists_items (hitem : Judges item) (hne : items ≠ [])
    (h : ∀ p ∈ items, p.Airy ∧ Value p.text) :
    ∃ r : Except Fault (List α), ∀ rest,
      Json.items item (separated (items.map Padded.whole) ++ ']' :: rest) = r.map (·, rest) := by
  obtain ⟨p, items, rfl⟩ := List.exists_cons_of_ne_nil hne
  rw [List.forall_mem_cons] at h
  obtain ⟨⟨hairy, hvalue⟩, hitems⟩ := h
  obtain ⟨r, hr⟩ := hitem p.text hvalue
  obtain ⟨r', hr'⟩ := exists_itemsFrom hitem hitems
  refine ⟨r >>= fun a => r'.map (a :: ·), fun rest => ?_⟩
  have hrest := ends_separated hairy.after (items.map Padded.whole) (.inl rfl) rest
  unfold Json.items
  refine itemsFrom_next ?_ (hr.here hrest) (hr' _ p.after rest ?_ hairy.after)
  · rw [List.map_cons, separated, Padded.whole, List.append_assoc, List.append_assoc,
      List.append_assoc]
    exact nextItem_first hairy.before (starts_value hvalue)
  · have hlength := length_le_separated (items.map Padded.whole)
    rw [List.length_map] at hlength
    rw [List.map_cons, separated]
    simp only [List.length_append, List.length_cons]
    omega

/-- **Lists** of what is judged are judged. -/
theorem judges_list (hitem : Judges item) : Judges (list item) := by
  intro s h
  obtain ⟨c, t, rfl, hblank, -⟩ := starts_value h
  by_cases hbracket : c = '['
  · subst hbracket
    have hlist : ∀ gap s, Gap gap → list item (gap ++ '[' :: s) = Json.items item s := by
      intro gap s hgap
      unfold list
      rw [hgap.blanks_append_cons hblank]
      rfl
    rcases items_of_head h rfl with ⟨inner, hinner, rfl⟩ | ⟨items, hne, hitems, rfl⟩
    · refine ⟨.ok [], fun gap rest hgap _ => ?_⟩
      rw [List.cons_append, hlist gap _ hgap, List.append_assoc, List.singleton_append]
      unfold Json.items itemsFrom
      rw [nextItem_end true hinner]
      rfl
    · obtain ⟨r, hr⟩ := exists_items hitem hne hitems
      refine ⟨r, fun gap rest hgap _ => ?_⟩
      rw [List.cons_append, hlist gap _ hgap, List.append_assoc, List.singleton_append]
      exact hr rest
  · refine takes_of_wrongType h fun gap rest hgap => ?_
    unfold list
    rw [hgap.blanks_append_cons hblank]
    split
    · rename_i heq
      exact absurd (List.cons.inj heq).1 hbracket
    · rfl

end Arrays

end Holdem.Json
