import Holdem.Json.Reader
import Holdem.Proofs.Text.Literal

/-!
# Strings and numbers that were written are read back

`Spells reader s a` says that `s` is a text of `a`: after any blanks, and before anything that
cannot go on with a number (`Ends`), the reader takes exactly this text and finds `a`. The first
character of such a text is no blank and closes no array (`Starts`), so it may stand as an item.

Results: `spells_string`, that a string in quotes is read back whatever characters it has, and
`spells_integer`, that an integer of 64 signed bits is.
-/

namespace Holdem.Json

variable {α : Type} {gap rest s digits : List Char} {c : Char} {n : Int}

/-- Blanks and nothing else. -/
def Gap (s : List Char) : Prop := ∀ c ∈ s, isBlank c = true

/-- What may follow a number: it does not start like a further part of one. -/
def Ends (rest : List Char) : Prop :=
  ∀ c ∈ rest.head?, isDigit c = false ∧ c ≠ '.' ∧ c ≠ 'e' ∧ c ≠ 'E'

/-- The first character of a text is no blank and closes no array. -/
def Starts (s : List Char) : Prop := ∃ c t, s = c :: t ∧ isBlank c = false ∧ c ≠ ']'

/-- A text that a reader takes for a value, wherever it stands. -/
structure Spells (reader : Reader α) (s : List Char) (a : α) : Prop where
  starts : Starts s
  read : ∀ gap rest, Gap gap → Ends rest → reader (gap ++ (s ++ rest)) = .ok (a, rest)

/-! ## Blanks -/

theorem gap_nil : Gap [] := fun _ h => absurd h List.not_mem_nil

theorem Gap.blanks_append (h : Gap gap) (s : List Char) : blanks (gap ++ s) = blanks s :=
  List.dropWhile_append_of_pos h

theorem blanks_cons (h : isBlank c = false) (s : List Char) : blanks (c :: s) = c :: s :=
  List.dropWhile_cons_of_neg (by simp [h])

/-- Blanks in front of a character are passed over. -/
theorem Gap.blanks_append_cons (h : Gap gap) (hc : isBlank c = false) (s : List Char) :
    blanks (gap ++ c :: s) = c :: s := by
  rw [h.blanks_append, blanks_cons hc]

theorem ends_nil : Ends [] := fun _ h => absurd h (by simp)

/-- A number ends at a blank or at a character that no number has. -/
theorem Gap.ends_append_cons (h : Gap gap)
    (hc : isDigit c = false ∧ c ≠ '.' ∧ c ≠ 'e' ∧ c ≠ 'E') (s : List Char) :
    Ends (gap ++ c :: s) := by
  cases gap with
  | nil =>
    intro d hd
    cases hd
    exact hc
  | cons b gap =>
    intro d hd
    cases hd
    have hblank := h b List.mem_cons_self
    simp only [isBlank, Bool.or_eq_true, beq_iff_eq] at hblank
    rcases hblank with ((rfl | rfl) | rfl) | rfl <;> decide

/-! ## Strings -/

theorem hexValue?_hexDigit {k : Nat} (h : k < 16) : hexValue? (hexDigit k) = some k := by
  have hall : ∀ k < 16, hexValue? (hexDigit k) = some k := by decide
  exact hall k h

/-- A control character is read back from its number. -/
theorem escaped_control (h : c.toNat < 32) (rest : List Char) :
    escaped ('u' :: '0' :: '0' :: hexDigit (c.toNat / 16) :: hexDigit (c.toNat % 16) :: rest) =
      .ok (c, rest) := by
  have hhex : hexFour ('0' :: '0' :: hexDigit (c.toNat / 16) :: hexDigit (c.toNat % 16) :: rest) =
      .ok (c.toNat, rest) := by
    have hzero : hexValue? '0' = some 0 := by decide
    simp only [hexFour, hzero, hexValue?_hexDigit (show c.toNat / 16 < 16 by omega),
      hexValue?_hexDigit (show c.toNat % 16 < 16 by omega)]
    rw [show ((0 * 16 + 0) * 16 + c.toNat / 16) * 16 + c.toNat % 16 = c.toNat by omega]
  have hnumbered : numberedChar
      ('0' :: '0' :: hexDigit (c.toNat / 16) :: hexDigit (c.toNat % 16) :: rest) =
      .ok (c, rest) := by
    unfold numberedChar
    rw [hhex]
    show (if 0xDC00 ≤ c.toNat ∧ c.toNat ≤ 0xDFFF then Except.error Fault.malformed
      else if 0xD800 ≤ c.toNat ∧ c.toNat ≤ 0xDBFF then lowSurrogate c.toNat rest
      else .ok (Char.ofNat c.toNat, rest)) = .ok (c, rest)
    rw [if_neg (by omega), if_neg (by omega), Char.ofNat_toNat]
  simpa only [escaped, if_true] using hnumbered

/-- One character of a string, as it is written. -/
theorem stringFrom_escape (fuel : Nat) (done : List Char) (c : Char) (s : List Char) :
    stringFrom (fuel + 1) done (escape c ++ s) = stringFrom fuel (c :: done) s := by
  by_cases hshort : c = '\x22' ∨ c = '\\' ∨ c = '\x08' ∨ c = '\x0c' ∨ c = '\n' ∨ c = '\r' ∨ c = '\t'
  · rcases hshort with rfl | rfl | rfl | rfl | rfl | rfl | rfl <;> rfl
  · simp only [not_or] at hshort
    obtain ⟨hquote, hslash, hb, hf, hn, hr, ht⟩ := hshort
    unfold escape
    rw [if_neg hquote, if_neg hslash, if_neg hb, if_neg hf, if_neg hn, if_neg hr, if_neg ht]
    by_cases hcontrol : c.toNat < 32
    · rw [if_pos hcontrol]
      show stringFrom (fuel + 1) done ('\\' :: 'u' :: '0' :: '0' :: hexDigit (c.toNat / 16) ::
        hexDigit (c.toNat % 16) :: s) = _
      rw [stringFrom, if_neg (by decide), if_pos rfl, escaped_control hcontrol]
    · rw [if_neg hcontrol]
      show stringFrom (fuel + 1) done (c :: s) = _
      rw [stringFrom, if_neg hquote, if_neg hslash, if_neg hcontrol]

/-- The characters of a string up to its closing quote; each of them takes one unit of fuel. -/
theorem stringFrom_quoted (s rest done : List Char) {fuel : Nat} (hfuel : s.length < fuel) :
    stringFrom fuel done (s.flatMap escape ++ '\x22' :: rest) = .ok (done.reverse ++ s, rest) := by
  induction s generalizing done fuel with
  | nil =>
    obtain ⟨fuel, rfl⟩ := Nat.exists_eq_add_one_of_ne_zero (Nat.ne_of_gt hfuel)
    rw [List.append_nil]
    rfl
  | cons c s ih =>
    obtain ⟨fuel, rfl⟩ := Nat.exists_eq_add_one_of_ne_zero (Nat.ne_zero_of_lt hfuel)
    rw [List.flatMap_cons, List.append_assoc, stringFrom_escape,
      ih _ (Nat.lt_of_succ_lt_succ hfuel), List.reverse_cons, List.append_assoc]
    rfl

theorem escape_ne_nil (c : Char) : escape c ≠ [] := by
  unfold escape
  repeat' split
  all_goals exact List.cons_ne_nil _ _

theorem length_le_escaped (s : List Char) : s.length ≤ (s.flatMap escape).length := by
  induction s with
  | nil => exact Nat.le_refl 0
  | cons c s ih =>
    have hpos := List.length_pos_iff.mpr (escape_ne_nil c)
    rw [List.flatMap_cons, List.length_append, List.length_cons]
    omega

/-- **A string is read back** after its opening quote. -/
theorem stringBody_quoted (s : String) (rest : List Char) :
    stringBody (s.toList.flatMap escape ++ '\x22' :: rest) = .ok (s, rest) := by
  have hlength := length_le_escaped s.toList
  unfold stringBody
  rw [stringFrom_quoted]
  · exact congrArg (fun s => Except.ok (s, rest)) String.ofList_toList
  · rw [List.length_append, List.length_cons]
    omega

theorem quoted_append (s : String) (rest : List Char) :
    quoted s ++ rest = '\x22' :: (s.toList.flatMap escape ++ '\x22' :: rest) := by
  simp [quoted]

/-- **A string in quotes is read back**, whatever follows it. -/
theorem string_quoted (hgap : Gap gap) (s : String) (rest : List Char) :
    string (gap ++ (quoted s ++ rest)) = .ok (s, rest) := by
  unfold string
  rw [quoted_append, hgap.blanks_append_cons (by decide)]
  exact stringBody_quoted s rest

theorem spells_string (s : String) : Spells string (quoted s) s where
  starts := ⟨'\x22', _, rfl, by decide, by decide⟩
  read _ rest hgap _ := string_quoted hgap s rest

/-! ## Integers -/

theorem isDigit_eq (c : Char) : isDigit c = c.isDigit := Text.isSome_digit? c

theorem Ends.not_digit (h : Ends rest) : ∀ c ∈ rest.head?, isDigit c = false :=
  fun c hc => (h c hc).1

/-- All digits at the front of a text are taken. -/
theorem digitsOf_append (hdigits : ∀ c ∈ digits, c.isDigit = true)
    (hrest : ∀ c ∈ rest.head?, isDigit c = false) : digitsOf (digits ++ rest) = (digits, rest) := by
  have hall : ∀ c ∈ digits, isDigit c = true := fun c hc => (isDigit_eq c).trans (hdigits c hc)
  unfold digitsOf
  rw [List.takeWhile_append_of_pos hall, List.dropWhile_append_of_pos hall]
  cases rest with
  | nil => simp
  | cons c rest =>
    have hc : isDigit c = false := hrest c rfl
    rw [List.takeWhile_cons_of_neg (by simp [hc]), List.dropWhile_cons_of_neg (by simp [hc]),
      List.append_nil]

theorem le_ofDigitChars (digits : List Char) (k : Nat) : k ≤ Nat.ofDigitChars 10 digits k := by
  induction digits generalizing k with
  | nil => simp
  | cons c digits ih =>
    rw [Nat.ofDigitChars_cons]
    exact Nat.le_trans (by omega) (ih _)

/-- A significand has room for digits whose number it can hold. -/
theorem foldl_addWhole (hdigits : ∀ c ∈ digits, c.isDigit = true) {k : Nat}
    (hroom : Nat.ofDigitChars 10 digits k ≤ mostSignificand) :
    digits.foldl Significand.addWhole ⟨k, 0, false⟩ = ⟨Nat.ofDigitChars 10 digits k, 0, false⟩ := by
  induction digits generalizing k with
  | nil => simp
  | cons c digits ih =>
    rw [List.forall_mem_cons] at hdigits
    rw [Nat.ofDigitChars_cons] at hroom ⊢
    have hvalue : Text.digit? c = some (c.toNat - '0'.toNat) :=
      Text.digit?_eq_some_iff.mpr ⟨hdigits.1, rfl⟩
    have hle := Nat.le_trans (le_ofDigitChars digits _) hroom
    rw [Nat.mul_comm 10 k] at hle hroom ⊢
    have hadd : Significand.addWhole ⟨k, 0, false⟩ c =
        ⟨k * 10 + (c.toNat - '0'.toNat), 0, false⟩ := by
      simp only [Significand.addWhole, hvalue, Option.getD_some, Bool.false_or,
        decide_eq_true_eq]
      rw [if_neg (Nat.not_lt.mpr hle)]
    rw [List.foldl_cons, hadd]
    exact ih hdigits.2 hroom

/-- Only zero is written with a zero in front. -/
theorem head?_natDigits (k : Nat) (h : (Text.natDigits k).head? = some '0') : k = 0 := by
  unfold Text.natDigits at h
  induction k using Nat.strongRecOn with
  | ind k ih =>
    rcases Nat.lt_or_ge k 10 with hlt | hge
    · rw [Nat.toDigits_of_lt_base hlt] at h
      have hall : ∀ k < 10, [k.digitChar].head? = some '0' → k = 0 := by decide
      exact hall k hlt h
    · have hhead : (Nat.toDigits 10 k).head? = (Nat.toDigits 10 (k / 10)).head? := by
        rw [Nat.toDigits_of_base_le (by decide) hge, List.head?_append,
          List.head?_eq_some_head Nat.toDigits_ne_nil, Option.some_or]
      have := ih (k / 10) (by omega) (hhead.symm.trans h)
      omega

/-- What is read of the digits of a number. -/
theorem numberBody_natDigits (negative : Bool) {k : Nat} (hk : k ≤ mostSignificand)
    (hrest : Ends rest) :
    numberBody negative (Text.natDigits k ++ rest) = wholeNumeral negative ⟨k, 0, false⟩ rest := by
  obtain ⟨hne, hdigits⟩ := Text.digits_natDigits k
  have hvalue : Nat.ofDigitChars 10 (Text.natDigits k) 0 = k :=
    Nat.ofDigitChars_toDigits (by decide) (by decide)
  have hlead : ¬ ((Text.natDigits k).head? = some '0' ∧ Text.natDigits k ≠ ['0']) := by
    rintro ⟨hhead, hother⟩
    rw [head?_natDigits k hhead] at hother
    exact hother rfl
  have hfold := foldl_addWhole hdigits (k := 0) (by rw [hvalue]; exact hk)
  rw [hvalue] at hfold
  unfold numberBody
  rw [digitsOf_append hdigits hrest.not_digit]
  simp only [if_neg hne, if_neg hlead, hfold]
  cases rest with
  | nil => rfl
  | cons c rest =>
    obtain ⟨-, hpoint, he, hE⟩ := hrest c rfl
    split <;> first | rfl | simp_all

theorem wholeNumeral_positive (k : Nat) (rest : List Char) :
    wholeNumeral false ⟨k, 0, false⟩ rest = .ok (.whole k, rest) := rfl

theorem wholeNumeral_negative {k : Nat} (hpos : 1 ≤ k) (hk : k ≤ 9223372036854775808)
    (rest : List Char) :
    wholeNumeral true ⟨k, 0, false⟩ rest = .ok (.whole (-(k : Int)), rest) := by
  unfold wholeNumeral
  rw [if_neg Bool.false_ne_true, if_pos rfl, if_pos ⟨hpos, hk⟩]

/-- **An integer of 64 signed bits is read back.** -/
theorem spells_integer (h : Chips.fits n = true) : Spells integer (Text.intDigits n) n := by
  have hbounds : Chips.least ≤ n ∧ n ≤ Chips.most := by
    simpa only [Chips.fits, Bool.and_eq_true, decide_eq_true_eq] using h
  unfold Chips.least Chips.most at hbounds
  rcases Int.lt_or_le n 0 with hneg | hpos
  · have hdigits : Text.intDigits n = '-' :: Text.natDigits n.natAbs := if_pos hneg
    refine ⟨⟨'-', _, hdigits, by decide, by decide⟩, fun gap rest hgap hrest => ?_⟩
    have hnumeral : numberBody true (Text.natDigits n.natAbs ++ rest) = .ok (.whole n, rest) := by
      rw [numberBody_natDigits true (by unfold mostSignificand; omega) hrest,
        wholeNumeral_negative (by omega) (by omega), show -(n.natAbs : Int) = n by omega]
    unfold integer
    rw [hdigits, List.cons_append, hgap.blanks_append_cons (by decide)]
    simp only [hnumeral, h, if_true]
  · have hdigits : Text.intDigits n = Text.natDigits n.toNat := by
      rw [Text.intDigits, if_neg (by omega), show n.natAbs = n.toNat by omega]
    obtain ⟨hne, hall⟩ := Text.digits_natDigits n.toNat
    obtain ⟨c, s, hcs⟩ := List.exists_cons_of_ne_nil hne
    have hc : isDigit c = true := by
      rw [isDigit_eq]
      exact hall c (hcs ▸ List.mem_cons_self)
    have hblank : isBlank c = false := Bool.eq_false_iff.mpr fun hb => by
      simp only [isBlank, Bool.or_eq_true, beq_iff_eq] at hb
      rcases hb with ((rfl | rfl) | rfl) | rfl <;> exact absurd hc (by decide)
    have hother : c ≠ '-' ∧ c ≠ ']' := by
      constructor <;> rintro rfl <;> exact absurd hc (by decide)
    refine ⟨⟨c, s, hdigits.trans hcs, hblank, hother.2⟩, fun gap rest hgap hrest => ?_⟩
    have hnumeral : numberBody false (c :: (s ++ rest)) = .ok (.whole n, rest) := by
      rw [← List.cons_append, ← hcs,
        numberBody_natDigits false (by unfold mostSignificand; omega) hrest,
        wholeNumeral_positive, Int.toNat_of_nonneg hpos]
    unfold integer
    rw [hdigits, hcs, List.cons_append, hgap.blanks_append_cons hblank]
    split
    · rename_i heq
      exact absurd (List.cons.inj heq).1 hother.1
    · rename_i heq
      obtain ⟨rfl, rfl⟩ := List.cons.inj heq
      simp only [hc, if_true, hnumeral, h]
    · rename_i heq
      cases heq

end Holdem.Json
