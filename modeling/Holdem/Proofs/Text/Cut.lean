import Holdem.Text.Blank
import Mathlib.Data.List.Forall2
import Mathlib.Data.List.TakeWhile

/-!
# Cut, trimmed and taken apart

What the three ways to cut a text have to find, said without saying how they search:

* `CutAt d s parts`: the parts that, joined by `d`, are the text, and in which no `d` is left.
* `TrimmedTo s w`: white space, `w`, white space are the text, and `w` has none at its ends.
* `Worded s ws`: the words of the text in order, each followed by white space or by the end.

Each of them holds for one result only, and that is what the function finds: `cutAt_iff`,
`trimmedTo_iff`, `worded_iff`.
-/

namespace Holdem.Text

variable {d c : Char} {s w l r gap rest : List Char} {parts ws : List (List Char)}

/-- A text of white space only. -/
def Blank (s : List Char) : Prop := ∀ c ∈ s, isBlank c = true

/-- A text without white space. -/
def Solid (s : List Char) : Prop := ∀ c ∈ s, isBlank c = false

instance : DecidablePred Blank := List.decidableBAll _

instance : DecidablePred Solid := List.decidableBAll _

/-! ## Cut at a character -/

/-- The parts of a text between the occurrences of a character. -/
structure CutAt (d : Char) (s : List Char) (parts : List (List Char)) : Prop where
  ne_nil : parts ≠ []
  free : ∀ part ∈ parts, d ∉ part
  joined : [d].intercalate parts = s

theorem pieces_eq_splitOnP (at' : Char → Bool) (s : List Char) :
    pieces at' s = s.splitOnP at' := by
  induction s with
  | nil => rfl
  | cons c s ih =>
    rw [List.splitOnP_cons_eq_if_modifyHead, ← ih, pieces.eq_2]
    obtain ⟨w, ws, h⟩ := List.exists_cons_of_ne_nil (pieces_ne_nil at' s)
    rw [h]
    rfl

/-- No piece has a character at which the text is cut. -/
theorem at_eq_false_of_mem_pieces {at' : Char → Bool} (hw : w ∈ pieces at' s) (hc : c ∈ w) :
    at' c = false := by
  induction s generalizing w with
  | nil => simp_all [pieces]
  | cons a s ih =>
    obtain ⟨v, vs, hpieces⟩ := List.exists_cons_of_ne_nil (pieces_ne_nil at' s)
    unfold pieces at hw
    rw [hpieces] at hw ih
    by_cases ha : at' a = true
    · rw [if_pos ha] at hw
      rcases List.mem_cons.mp hw with rfl | hw
      · exact absurd hc List.not_mem_nil
      · exact ih hw hc
    · rw [if_neg ha] at hw
      rcases List.mem_cons.mp hw with rfl | hw
      · rcases List.mem_cons.mp hc with rfl | hc
        · exact eq_false_of_ne_true ha
        · exact ih List.mem_cons_self hc
      · exact ih (List.mem_cons_of_mem v hw) hc

/-- A character at which a text is not cut stands in one of its pieces. -/
theorem exists_piece {at' : Char → Bool} (hc : c ∈ s) (hcut : at' c = false) :
    ∃ w ∈ pieces at' s, c ∈ w := by
  induction s with
  | nil => exact absurd hc List.not_mem_nil
  | cons d s ih =>
    unfold pieces
    by_cases hd : at' d = true
    · rw [if_pos hd]
      have hne : c ≠ d := fun heq => by simp [heq, hd] at hcut
      obtain ⟨w, hw, hcw⟩ := ih ((List.mem_cons.mp hc).resolve_left hne)
      exact ⟨w, List.mem_cons_of_mem _ hw, hcw⟩
    · rw [if_neg hd]
      obtain ⟨w, ws, hpieces⟩ := List.exists_cons_of_ne_nil (pieces_ne_nil at' s)
      rw [hpieces] at ih ⊢
      rcases List.mem_cons.mp hc with rfl | hrest
      · exact ⟨_, List.mem_cons_self, List.mem_cons_self⟩
      · obtain ⟨w', hw', hcw⟩ := ih hrest
        rcases List.mem_cons.mp hw' with rfl | hw'
        · exact ⟨_, List.mem_cons_self, List.mem_cons_of_mem d hcw⟩
        · exact ⟨w', List.mem_cons_of_mem _ hw', hcw⟩

/-- **The parts of a text** are its pieces, and nothing else is. -/
theorem cutAt_iff : CutAt d s parts ↔ parts = pieces (· == d) s := by
  constructor
  · rintro ⟨hne, hfree, rfl⟩
    rw [pieces_eq_splitOnP, ← List.splitOn_eq_splitOnP, List.splitOn_intercalate d hfree hne]
  · rintro rfl
    refine ⟨pieces_ne_nil _ _, fun part hpart hd => ?_, flatten_pieces d s⟩
    simpa using at_eq_false_of_mem_pieces hpart hd

/-- What stands in a text that was put together stands in a part or joins two. -/
theorem CutAt.eq_or_mem (h : CutAt d s parts) (hc : c ∈ s) : c = d ∨ ∃ part ∈ parts, c ∈ part := by
  by_cases hd : c = d
  · exact Or.inl hd
  · obtain ⟨part, hpart, hmem⟩ := @exists_piece c s (· == d) hc (by simp [hd])
    exact Or.inr ⟨part, cutAt_iff.mp h ▸ hpart, hmem⟩

/-! ## Trimmed -/

/-- A text with white space around it. -/
def Padded (w s : List Char) : Prop := ∃ l r, Blank l ∧ Blank r ∧ s = l ++ w ++ r

theorem Padded.refl (w : List Char) : Padded w w :=
  ⟨[], [], fun _ h => absurd h List.not_mem_nil, fun _ h => absurd h List.not_mem_nil, by simp⟩

/-- A text that neither starts nor ends with white space. -/
structure Tight (w : List Char) : Prop where
  first : ∀ c, w.head? = some c → isBlank c = false
  last : ∀ c, w.getLast? = some c → isBlank c = false

/-- A text and what is left of it without the white space around it. -/
structure TrimmedTo (s w : List Char) : Prop where
  padded : Padded w s
  tight : Tight w

theorem Solid.tight (h : Solid w) : Tight w :=
  ⟨fun c hc => h c (List.mem_of_head? hc), fun c hc => h c (List.mem_of_getLast? hc)⟩

/-- Only the two ends matter. -/
theorem Tight.append (hl : Tight l) (hlne : l ≠ []) (hr : Tight r) (hrne : r ≠ [])
    (s : List Char) : Tight (l ++ s ++ r) := by
  constructor
  · intro c hc
    rw [List.append_assoc, List.head?_append_of_ne_nil _ hlne] at hc
    exact hl.first c hc
  · intro c hc
    rw [List.getLast?_append_of_ne_nil _ hrne] at hc
    exact hr.last c hc

/-- White space is trimmed to nothing. -/
theorem Blank.trimmedTo (h : Blank s) : TrimmedTo s [] :=
  ⟨⟨s, [], h, fun _ hc => absurd hc List.not_mem_nil, by simp⟩, nofun, nofun⟩

theorem trimLeft_append (hl : Blank l) (s : List Char) : trimLeft (l ++ s) = trimLeft s :=
  List.dropWhile_append_of_pos hl

theorem trimLeft_of_head (h : ∀ c, s.head? = some c → isBlank c = false) : trimLeft s = s := by
  cases s with
  | nil => rfl
  | cons c s => simp [trimLeft, h c rfl]

theorem trimLeft_of_blank (h : Blank s) : trimLeft s = [] := by
  simpa [trimLeft] using trimLeft_append h []

/-- White space in front of a text is all that trimming takes off its front. -/
theorem exists_blank_append (s : List Char) : ∃ l, Blank l ∧ s = l ++ trimLeft s :=
  ⟨s.takeWhile isBlank, fun _ => List.mem_takeWhile_imp, List.takeWhile_append_dropWhile.symm⟩

theorem head_trimLeft (h : (trimLeft s).head? = some c) : isBlank c = false := by
  have hne : s.dropWhile isBlank ≠ [] := by
    intro hnil
    simp [trimLeft, hnil] at h
  have hhead := List.head_dropWhile_not isBlank hne
  rw [trimLeft, List.head?_eq_some_head hne] at h
  rwa [Option.some.inj h] at hhead

/-- The end of a text is the front of its reverse. -/
theorem trimRight_eq (s : List Char) : trimRight s = (trimLeft s.reverse).reverse := rfl

theorem trimRight_append (hr : Blank r) (s : List Char) : trimRight (s ++ r) = trimRight s := by
  have hrev : Blank r.reverse := fun c hc => hr c (List.mem_reverse.mp hc)
  rw [trimRight_eq, List.reverse_append, trimLeft_append hrev, trimRight_eq]

theorem trimRight_of_last (h : ∀ c, s.getLast? = some c → isBlank c = false) :
    trimRight s = s := by
  rw [trimRight_eq, trimLeft_of_head (by simpa using h), List.reverse_reverse]

theorem exists_append_blank (s : List Char) : ∃ r, Blank r ∧ s = trimRight s ++ r := by
  obtain ⟨l, hl, hs⟩ := exists_blank_append s.reverse
  refine ⟨l.reverse, fun c hc => hl c (List.mem_reverse.mp hc), ?_⟩
  rw [trimRight_eq, ← List.reverse_append, ← hs, List.reverse_reverse]

theorem TrimmedTo.trim_eq (h : TrimmedTo s w) : trim s = w := by
  obtain ⟨⟨l, r, hl, hr, rfl⟩, htight⟩ := h
  unfold trim
  rw [List.append_assoc, trimLeft_append hl]
  cases w with
  | nil => rw [List.nil_append, trimLeft_of_blank hr, trimRight_of_last (by simp)]
  | cons c w =>
    rw [trimLeft_of_head (by simpa using htight.first), trimRight_append hr,
      trimRight_of_last htight.last]

theorem trimmedTo_trim (s : List Char) : TrimmedTo s (trim s) := by
  obtain ⟨l, hl, hs⟩ := exists_blank_append s
  obtain ⟨r, hr, htrim⟩ := exists_append_blank (trimLeft s)
  have hlast : ∀ c, (trim s).getLast? = some c → isBlank c = false := by
    intro c hc
    rw [trim, trimRight_eq, List.getLast?_reverse] at hc
    exact head_trimLeft hc
  refine ⟨⟨l, r, hl, hr, ?_⟩, fun c hc => ?_, hlast⟩
  · rw [List.append_assoc, trim, ← htrim]
    exact hs
  · have hfront : (trimLeft s).head? = some c := by
      rw [htrim, List.head?_append, show (trimRight (trimLeft s)).head? = some c from hc]
      rfl
    exact head_trimLeft hfront

/-- What is left of a text when it is trimmed is not blank. -/
theorem exists_not_blank (h : trim s ≠ []) : ∃ c ∈ trim s, isBlank c = false := by
  unfold trim trimRight at h ⊢
  have hne : (trimLeft s).reverse.dropWhile isBlank ≠ [] := fun heq => h (by rw [heq]; rfl)
  exact ⟨_, List.mem_reverse.mpr (List.head_mem hne), List.head_dropWhile_not isBlank hne⟩

/-- **What trimming leaves of a text.** -/
theorem trimmedTo_iff : TrimmedTo s w ↔ w = trim s :=
  ⟨fun h => h.trim_eq.symm, fun h => h ▸ trimmedTo_trim s⟩

theorem forall₂_trimmedTo_iff {trimmed : List (List Char)} :
    List.Forall₂ TrimmedTo parts trimmed ↔ trimmed = parts.map trim := by
  have hrel : TrimmedTo = fun s w => trim s = w := by
    funext s w
    exact propext (trimmedTo_iff.trans eq_comm)
  rw [hrel, ← List.forall₂_map_left_iff, List.forall₂_eq_eq_eq, eq_comm]

/-! ## Words -/

/-- The words of a text: runs without white space, each up to white space or the end. -/
inductive Worded : List Char → List (List Char) → Prop
  | blank {s : List Char} (h : Blank s) : Worded s []
  | word {gap w rest : List Char} {ws : List (List Char)} (hgap : Blank gap) (hne : w ≠ [])
      (hsolid : Solid w) (hrest : ∀ c, rest.head? = some c → isBlank c = true)
      (htail : Worded rest ws) : Worded (gap ++ w ++ rest) (w :: ws)

@[simp] theorem words_nil : words [] = [] := rfl

/-- White space ends a word. -/
theorem words_append_cons (hc : isBlank c = true) (w rest : List Char) :
    words (w ++ c :: rest) = words w ++ words rest := by
  unfold words
  simp only [pieces_eq_splitOnP, List.splitOnP_append_cons w rest hc, List.filter_append]

theorem words_of_solid (hne : w ≠ []) (hsolid : Solid w) : words w = [w] := by
  unfold words
  rw [pieces_eq_splitOnP, List.splitOnP_eq_singleton hsolid]
  simp [hne]

theorem words_append_of_blank (hgap : Blank gap) (s : List Char) :
    words (gap ++ s) = words s := by
  induction gap with
  | nil => rfl
  | cons c gap ih =>
    have hc := words_append_cons (hgap c List.mem_cons_self) [] (gap ++ s)
    exact hc.trans (ih fun a ha => hgap a (List.mem_cons_of_mem c ha))

theorem words_of_blank (h : Blank s) : words s = [] := by
  simpa using words_append_of_blank h []

/-- The first word goes on up to white space or the end. -/
theorem words_append_of_solid (hne : w ≠ []) (hsolid : Solid w)
    (hrest : ∀ c, rest.head? = some c → isBlank c = true) :
    words (w ++ rest) = w :: words rest := by
  cases rest with
  | nil => simpa using words_of_solid hne hsolid
  | cons c rest =>
    have hc := hrest c rfl
    rw [words_append_cons hc, words_of_solid hne hsolid]
    exact congrArg (w :: ·) (words_append_cons hc [] rest).symm

theorem words_ne_nil (hc : c ∈ s) (hblank : isBlank c = false) : words s ≠ [] := by
  obtain ⟨w, hw, hcw⟩ := exists_piece hc hblank
  refine List.ne_nil_of_mem (a := w) (List.mem_filter.mpr ⟨hw, ?_⟩)
  exact decide_eq_true (List.ne_nil_of_mem hcw)

theorem Worded.words_eq (h : Worded s ws) : words s = ws := by
  induction h with
  | blank h => exact words_of_blank h
  | word hgap hne hsolid hrest _ ih =>
    rw [List.append_assoc, words_append_of_blank hgap, words_append_of_solid hne hsolid hrest, ih]

/-- A character before white space or the end is a word. -/
theorem Worded.single (hc : isBlank c = false)
    (hrest : ∀ a, rest.head? = some a → isBlank a = true) (h : Worded rest ws) :
    Worded (c :: rest) ([c] :: ws) :=
  .word (fun _ h => absurd h List.not_mem_nil) (List.cons_ne_nil c [])
    (List.forall_mem_cons.mpr ⟨hc, fun _ h => absurd h List.not_mem_nil⟩) hrest h

/-- A character in front of a text is in a gap, or a word, or the first letter of one. -/
theorem Worded.cons (h : Worded s ws) (c : Char) : ∃ ws', Worded (c :: s) ws' := by
  by_cases hc : isBlank c = true
  · cases h with
    | blank h => exact ⟨_, .blank (List.forall_mem_cons.mpr ⟨hc, h⟩)⟩
    | word hgap hne hsolid hrest htail =>
      exact ⟨_, .word (List.forall_mem_cons.mpr ⟨hc, hgap⟩) hne hsolid hrest htail⟩
  · have hc := eq_false_of_ne_true hc
    cases h with
    | blank h => exact ⟨_, .single hc (fun a ha => h a (List.mem_of_head? ha)) (.blank h)⟩
    | @word gap w rest ws hgap hne hsolid hrest htail =>
      -- With a gap in between, the character is a word of its own.
      cases gap with
      | nil =>
        exact ⟨_, .word hgap (List.cons_ne_nil c w)
          (List.forall_mem_cons.mpr ⟨hc, hsolid⟩) hrest htail⟩
      | cons b gap =>
        have hhead : ∀ a, (b :: gap ++ w ++ rest).head? = some a → isBlank a = true := by
          rintro a ⟨⟩
          exact hgap b List.mem_cons_self
        exact ⟨_, .single hc hhead (.word hgap hne hsolid hrest htail)⟩

theorem worded_words (s : List Char) : Worded s (words s) := by
  have hex : ∃ ws, Worded s ws := by
    induction s with
    | nil => exact ⟨[], .blank fun _ h => absurd h List.not_mem_nil⟩
    | cons c s ih =>
      obtain ⟨ws, h⟩ := ih
      exact h.cons c
  obtain ⟨ws, h⟩ := hex
  rwa [h.words_eq]

/-- **The words of a text**, in order. -/
theorem worded_iff : Worded s ws ↔ ws = words s :=
  ⟨fun h => h.words_eq.symm, fun h => h ▸ worded_words s⟩

/-! ## Texts in a text -/

/-- **What occurs in a text** is a stretch of it. -/
theorem occurs_iff : occurs w s = true ↔ w <:+: s := by
  induction s with
  | nil => simp [occurs]
  | cons c s ih =>
    rw [occurs, Bool.or_eq_true, ih, List.isPrefixOf_iff_prefix, List.infix_cons_iff]

theorem occurs_eq_false_iff : occurs w s = false ↔ ¬ w <:+: s := by
  rw [← occurs_iff, Bool.not_eq_true]

end Holdem.Text
