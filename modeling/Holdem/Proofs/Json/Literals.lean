import Holdem.Proofs.Json.Grammar

/-!
# What is read of strings and numbers

What is read of a value of JSON is decided by its text, and not by what follows it.

* A string is read as the characters that its text unescapes to (`stringBody_unescapes`), and its
  text decides what is read of it even if surrogates lack their partners (`exists_stringBody`).
* Neither does what is made of a number hang on what follows it (`Local`, **`local_numberBody`**).
* So a value that is met where another type is expected has one fault, wherever it stands
  (**`wrongType_value`**). A value tells its type by its first character: only numbers start with a
  digit or a minus (`number_of_head`), only strings with a quote, only arrays with a bracket.
-/

namespace Holdem.Json

open Grammar

variable {β : Type} {s t rest : List Char} {c : Char} {n m : Nat}

/-! ## Characters -/

theorem hexValue?_of (h : HexDigit c n) : hexValue? c = some n := by
  have hlower : ∀ n < 16, ("0123456789abcdef".toList[n]?).bind hexValue? = some n := by decide
  have hupper : ∀ n < 16, ("0123456789ABCDEF".toList[n]?).bind hexValue? = some n := by decide
  rcases h with h | h
  · have hread := hlower n (List.getElem?_eq_some_iff.mp h).1
    rwa [h] at hread
  · have hread := hupper n (List.getElem?_eq_some_iff.mp h).1
    rwa [h] at hread

theorem hexFour_of (h : HexFour s n) (rest : List Char) : hexFour (s ++ rest) = .ok (n, rest) := by
  cases h with
  | digits ha hb hc hd =>
    simp only [List.cons_append, List.nil_append, hexFour, hexValue?_of ha, hexValue?_of hb,
      hexValue?_of hc, hexValue?_of hd]

/-- A number that is no surrogate. -/
theorem numberedChar_number (h : HexFour s n) (hhigh : ¬ High n) (hlow : ¬ Low n)
    (rest : List Char) : numberedChar (s ++ rest) = .ok (Char.ofNat n, rest) := by
  unfold numberedChar
  rw [hexFour_of h]
  exact (if_neg hlow).trans (if_neg hhigh)

theorem numberedChar_low (h : HexFour s n) (hlow : Low n) (rest : List Char) :
    numberedChar (s ++ rest) = .error .malformed := by
  unfold numberedChar
  rw [hexFour_of h]
  exact if_pos hlow

/-- Behind the first half of a pair all hangs on the second. -/
theorem numberedChar_high (h : HexFour s n) (hhigh : High n) (rest : List Char) :
    numberedChar (s ++ rest) = lowSurrogate n rest := by
  have hlow : ¬ Low n := fun hlow => by
    have := hlow.1
    have := hhigh.2
    omega
  unfold numberedChar
  rw [hexFour_of h]
  exact (if_neg hlow).trans (if_pos hhigh)

theorem lowSurrogate_low (h : HexFour s m) (hlow : Low m) (n : Nat) (rest : List Char) :
    lowSurrogate n ('\\' :: 'u' :: (s ++ rest)) =
      .ok (Char.ofNat ((n - 0xD800) * 1024 + (m - 0xDC00) + 0x10000), rest) := by
  show (hexFour (s ++ rest) >>= _) = _
  rw [hexFour_of h]
  exact if_pos hlow

theorem lowSurrogate_other (h : HexFour s m) (hlow : ¬ Low m) (n : Nat) (rest : List Char) :
    lowSurrogate n ('\\' :: 'u' :: (s ++ rest)) = .error .malformed := by
  show (hexFour (s ++ rest) >>= _) = _
  rw [hexFour_of h]
  exact if_neg hlow

theorem shortEscape?_of {letter : Char} (h : (letter, c) ∈ shortEscapes) :
    letter ≠ 'u' ∧ shortEscape? letter = some c := by
  have hall : ∀ e ∈ shortEscapes, e.1 ≠ 'u' ∧ shortEscape? e.1 = some e.2 := by decide
  exact hall _ h

/-- What follows a backslash of a text that stands for a character. -/
theorem escaped_of (h : Stands ('\\' :: s) c) (rest : List Char) :
    escaped (s ++ rest) = .ok (c, rest) := by
  cases h with
  | plain _ hslash => exact absurd rfl hslash
  | @short letter _ hescape =>
    obtain ⟨hu, hvalue⟩ := shortEscape?_of hescape
    show escaped (letter :: rest) = _
    simp only [escaped, if_neg hu, hvalue]
  | number hhex hhigh hlow => exact numberedChar_number hhex hhigh hlow rest
  | @pair s t n m hhex hhigh hhex' hlow =>
    show numberedChar ((s ++ '\\' :: 'u' :: t) ++ rest) = _
    rw [List.append_assoc, numberedChar_high hhex hhigh]
    exact lowSurrogate_low hhex' hlow n rest

/-! ## Strings -/

/-- **A text that stands for a character** is read as that. -/
theorem stringFrom_stands (h : Stands s c) (fuel : Nat) (done rest : List Char) :
    stringFrom (fuel + 1) done (s ++ rest) = stringFrom fuel (c :: done) rest := by
  have hescape : ∀ t, Stands ('\\' :: t) c →
      stringFrom (fuel + 1) done ('\\' :: (t ++ rest)) = stringFrom fuel (c :: done) rest := by
    intro t ht
    rw [stringFrom, if_neg (by decide), if_pos rfl, escaped_of ht]
  cases h with
  | plain hquote hslash hcontrol =>
    show stringFrom (fuel + 1) done (c :: rest) = _
    rw [stringFrom, if_neg hquote, if_neg hslash, if_neg (Nat.not_lt.mpr hcontrol)]
  | short h => exact hescape _ (.short h)
  | number h hhigh hlow => exact hescape _ (.number h hhigh hlow)
  | pair h hhigh h' hlow => exact hescape _ (.pair h hhigh h' hlow)

theorem stringFrom_close (fuel : Nat) (done rest : List Char) :
    stringFrom (fuel + 1) done ('\x22' :: rest) = .ok (done.reverse, rest) := by
  rw [stringFrom, if_pos rfl]

/-- **The characters of a string** are those that its text unescapes to. -/
theorem stringFrom_unescapes {cs : List Char} (h : Unescapes s cs) (done rest : List Char)
    {fuel : Nat} (hfuel : s.length < fuel) :
    stringFrom fuel done (s ++ '\x22' :: rest) = .ok (done.reverse ++ cs, rest) := by
  induction h generalizing done fuel with
  | nil =>
    obtain ⟨fuel, rfl⟩ := Nat.exists_eq_add_one_of_ne_zero (Nat.ne_of_gt hfuel)
    rw [List.append_nil]
    exact stringFrom_close fuel done rest
  | @cons s t cs c hc _ ih =>
    obtain ⟨fuel, rfl⟩ := Nat.exists_eq_add_one_of_ne_zero (Nat.ne_zero_of_lt hfuel)
    have hpos := List.length_pos_iff.mpr hc.ne_nil
    rw [List.length_append] at hfuel
    rw [List.append_assoc, stringFrom_stands hc, ih _ (by omega), List.reverse_cons,
      List.append_assoc]
    rfl

theorem stringBody_unescapes {key : String} (h : Unescapes s key.toList) (rest : List Char) :
    stringBody (s ++ '\x22' :: rest) = .ok (key, rest) := by
  unfold stringBody
  rw [stringFrom_unescapes h]
  · exact congrArg (fun key => Except.ok (key, rest)) String.ofList_toList
  · rw [List.length_append, List.length_cons]
    omega

/-- After the first half of a pair a text that stands for a character is none of the second. -/
theorem lowSurrogate_stands (h : Stands s c) (n : Nat) (rest : List Char) :
    lowSurrogate n (s ++ rest) = .error .malformed := by
  cases h with
  | plain _ hslash => exact if_pos hslash
  | short h => exact if_pos (shortEscape?_of h).1
  | number h _ hlow => exact lowSurrogate_other h hlow n rest
  | @pair s t m _ h hhigh =>
    have hlow : ¬ Low m := fun hlow => by
      have := hlow.1
      have := hhigh.2
      omega
    show lowSurrogate n ('\\' :: 'u' :: ((s ++ '\\' :: 'u' :: t) ++ rest)) = _
    rw [List.append_assoc]
    exact lowSurrogate_other h hlow n _

/-- What is read of a text up to the closing quote. -/
def StringReads (s : List Char) (r : Except Fault (List Char)) : Prop :=
  ∀ fuel done rest, s.length < fuel →
    stringFrom fuel done (s ++ '\x22' :: rest) = r.map fun cs => (done.reverse ++ cs, rest)

/-- What is read of a text up to the closing quote, if the first half of a pair stands before. -/
def PairReads (n : Nat) (s : List Char) (r : Except Fault (List Char)) : Prop :=
  ∀ fuel done rest, s.length < fuel →
    (match lowSurrogate n (s ++ '\x22' :: rest) with
      | .ok (d, s) => stringFrom fuel (d :: done) s
      | .error e => .error e) = r.map fun cs => (done.reverse ++ cs, rest)

theorem stringFrom_numbered (fuel : Nat) (done rest : List Char) :
    stringFrom (fuel + 1) done ('\\' :: 'u' :: rest) =
      match numberedChar rest with
      | .ok (d, s) => stringFrom fuel (d :: done) s
      | .error e => .error e := by
  rw [stringFrom, if_neg (by decide), if_pos rfl]
  rfl

/-- A character that is read stands before what is read after it. -/
theorem map_reverse_cons (c : Char) (done rest : List Char) (r : Except Fault (List Char)) :
    (r.map fun cs => ((c :: done).reverse ++ cs, rest)) =
      (r.map (c :: ·)).map fun cs => (done.reverse ++ cs, rest) := by
  rw [List.reverse_cons]
  cases r with
  | error e => rfl
  | ok cs => exact congrArg (fun l => Except.ok (l, rest)) (List.append_assoc _ _ _)

theorem StringReads.cons {r : Except Fault (List Char)} (hc : Stands s c) (h : StringReads t r) :
    StringReads (s ++ t) (r.map (c :: ·)) := by
  intro fuel done rest hfuel
  obtain ⟨fuel, rfl⟩ := Nat.exists_eq_add_one_of_ne_zero (Nat.ne_zero_of_lt hfuel)
  have hpos := List.length_pos_iff.mpr hc.ne_nil
  rw [List.length_append] at hfuel
  rw [List.append_assoc, stringFrom_stands hc, h _ _ _ (by omega)]
  exact map_reverse_cons c done rest r

theorem pairReads_of_malformed {n : Nat}
    (h : ∀ rest, lowSurrogate n (s ++ '\x22' :: rest) = .error .malformed) :
    PairReads n s (.error .malformed) := by
  intro fuel done rest _
  rw [h rest]
  rfl

theorem stringReads_nil : StringReads [] (.ok []) := by
  intro fuel done rest hfuel
  obtain ⟨fuel, rfl⟩ := Nat.exists_eq_add_one_of_ne_zero (Nat.ne_of_gt hfuel)
  refine (stringFrom_close fuel done rest).trans ?_
  rw [Except.map, List.append_nil]

/-- After the first half of a pair all hangs on what follows it. -/
theorem PairReads.stringReads {r : Except Fault (List Char)} (hhex : HexFour s n) (hhigh : High n)
    (h : PairReads n t r) : StringReads ('\\' :: 'u' :: (s ++ t)) r := by
  intro fuel done rest hfuel
  obtain ⟨fuel, rfl⟩ := Nat.exists_eq_add_one_of_ne_zero (Nat.ne_zero_of_lt hfuel)
  rw [List.length_cons, List.length_cons, List.length_append] at hfuel
  rw [List.cons_append, List.cons_append, List.append_assoc, stringFrom_numbered,
    numberedChar_high hhex hhigh]
  exact h fuel done rest (by omega)

/-- The second half of a pair may not come first. -/
theorem stringReads_low (hhex : HexFour s n) (hlow : Low n) (t : List Char) :
    StringReads ('\\' :: 'u' :: (s ++ t)) (.error .malformed) := by
  intro fuel done rest hfuel
  obtain ⟨fuel, rfl⟩ := Nat.exists_eq_add_one_of_ne_zero (Nat.ne_zero_of_lt hfuel)
  rw [List.cons_append, List.cons_append, List.append_assoc, stringFrom_numbered,
    numberedChar_low hhex hlow]
  rfl

/-- Both halves of a pair are a character. -/
theorem StringReads.pairReads {r : Except Fault (List Char)} (hhex : HexFour s m) (hlow : Low m)
    (h : StringReads t r) (n : Nat) :
    PairReads n ('\\' :: 'u' :: (s ++ t))
      (r.map (Char.ofNat ((n - 0xD800) * 1024 + (m - 0xDC00) + 0x10000) :: ·)) := by
  intro fuel done rest hfuel
  rw [List.length_cons, List.length_cons, List.length_append] at hfuel
  rw [List.cons_append, List.cons_append, List.append_assoc, lowSurrogate_low hhex hlow]
  dsimp only
  rw [h _ _ _ (by omega)]
  exact map_reverse_cons _ done rest r

/-- **What is read of a string** hangs on the string alone. A surrogate without its partner is no
fault of form, but it is refused. -/
theorem exists_stringReads (h : Body s) :
    (∃ r, StringReads s r) ∧ ∀ n, ∃ r, PairReads n s r := by
  induction h with
  | nil => exact ⟨⟨_, stringReads_nil⟩, fun n => ⟨_, pairReads_of_malformed fun rest => rfl⟩⟩
  | cons hc _ ih =>
    obtain ⟨⟨r, hr⟩, -⟩ := ih
    refine ⟨⟨_, hr.cons hc⟩, fun n => ⟨_, pairReads_of_malformed fun rest => ?_⟩⟩
    rw [List.append_assoc]
    exact lowSurrogate_stands hc n _
  | @lone s t m hhex hm _ ih =>
    obtain ⟨⟨r, hr⟩, hpair⟩ := ih
    constructor
    · rcases hm with hhigh | hlow
      · obtain ⟨r', hr'⟩ := hpair m
        exact ⟨r', hr'.stringReads hhex hhigh⟩
      · exact ⟨_, stringReads_low hhex hlow t⟩
    · intro n
      by_cases hlow : Low m
      · exact ⟨_, hr.pairReads hhex hlow n⟩
      · refine ⟨_, pairReads_of_malformed fun rest => ?_⟩
        rw [List.cons_append, List.cons_append, List.append_assoc]
        exact lowSurrogate_other hhex hlow n _

/-- The same after the opening quote. -/
theorem exists_stringBody (h : Body s) :
    ∃ r : Except Fault String, ∀ rest, stringBody (s ++ '\x22' :: rest) = r.map (·, rest) := by
  obtain ⟨⟨r, hr⟩, -⟩ := exists_stringReads h
  refine ⟨r.map String.ofList, fun rest => ?_⟩
  unfold stringBody
  rw [hr _ [] rest (by rw [List.length_append, List.length_cons]; omega)]
  cases r <;> rfl

/-! ## Numbers -/

/-- What is made of a number does not hang on what follows it. -/
def Local (f : List Char → Except Fault (β × List Char)) : Prop :=
  ∃ r : Except Fault β, ∀ rest, Ends rest → f rest = r.map (·, rest)

theorem local_finish (negative : Bool) (sig : Significand) : Local (sig.finish negative) := by
  refine ⟨(sig.finish negative []).map Prod.fst, fun rest _ => ?_⟩
  unfold Significand.finish
  cases Real.ofDecimal? negative sig.value sig.power <;> rfl

theorem local_wholeNumeral (negative : Bool) (sig : Significand) :
    Local (wholeNumeral negative sig) := by
  obtain ⟨r, hr⟩ := local_finish negative sig
  unfold wholeNumeral
  by_cases hfull : sig.full = true
  · exact ⟨r, fun rest hrest => (if_pos hfull).trans (hr rest hrest)⟩
  · simp only [if_neg hfull]
    cases negative with
    | false => exact ⟨.ok (.whole sig.value), fun rest _ => rfl⟩
    | true =>
      by_cases hfits : 1 ≤ sig.value ∧ sig.value ≤ 9223372036854775808
      · exact ⟨.ok (.whole (-(sig.value : Int))), fun rest _ => by simp [hfits, Except.map]⟩
      · exact ⟨r, fun rest hrest => by simp only [if_true, if_neg hfits, hr rest hrest]⟩

/-- The digits of an exponent whose sign is read. -/
def exponentDigits (negative minus : Bool) (sig : Significand) (s : List Char) :
    Except Fault (Numeral × List Char) :=
  match Text.nat? (digitsOf s).1 with
  | none => .error (if s = [] then .truncated else .malformed)
  | some n =>
    { sig with power := sig.power + if minus then -(n : Int) else n }.finish negative (digitsOf s).2

theorem exponentPart_unsigned (negative : Bool) (sig : Significand) (h : Text.Digits s)
    (rest : List Char) :
    exponentPart negative sig (s ++ rest) = exponentDigits negative false sig (s ++ rest) := by
  obtain ⟨c, s, rfl⟩ := List.exists_cons_of_ne_nil h.ne_nil
  obtain ⟨hplus, hminus⟩ := h.not_sign
  unfold exponentPart
  split
  rename_i minus s' hsign
  have hnone : (minus, s') = (false, c :: s ++ rest) := by
    rw [← hsign]
    split
    · rename_i heq
      exact absurd (List.cons.inj heq).1 hplus
    · rename_i heq
      exact absurd (List.cons.inj heq).1 hminus
    · rfl
  obtain ⟨rfl, rfl⟩ := Prod.mk.inj hnone
  rfl

theorem local_exponentDigits (negative minus : Bool) (sig : Significand) (h : Text.Digits s) :
    Local fun rest => exponentDigits negative minus sig (s ++ rest) := by
  have hvalue := Text.nat?_eq_some_iff.mpr ⟨h, rfl⟩
  obtain ⟨r, hr⟩ := local_finish negative
    { sig with power := sig.power +
        if minus then -(Nat.ofDigitChars 10 s 0 : Int) else Nat.ofDigitChars 10 s 0 }
  refine ⟨r, fun rest hrest => ?_⟩
  show exponentDigits negative minus sig (s ++ rest) = _
  unfold exponentDigits
  rw [digitsOf_append h.digit hrest.not_digit]
  dsimp only
  rw [hvalue]
  exact hr rest hrest

/-- What follows the digits of a number: an exponent, or what `plain` does where there is none. -/
def afterDigits (negative : Bool) (sig : Significand)
    (plain : List Char → Except Fault (Numeral × List Char)) (s : List Char) :
    Except Fault (Numeral × List Char) :=
  match s with
  | 'e' :: s => exponentPart negative sig s
  | 'E' :: s => exponentPart negative sig s
  | s => plain s

theorem local_afterDigits (negative : Bool) (sig : Significand)
    {plain : List Char → Except Fault (Numeral × List Char)} (hplain : Local plain)
    (h : Exponent s) : Local fun rest => afterDigits negative sig plain (s ++ rest) := by
  cases h with
  | none =>
    obtain ⟨r, hr⟩ := hplain
    refine ⟨r, fun rest hrest => ?_⟩
    rw [← hr rest hrest]
    show afterDigits negative sig plain rest = _
    unfold afterDigits
    split
    · exact absurd rfl (hrest 'e' rfl).2.2.1
    · exact absurd rfl (hrest 'E' rfl).2.2.2
    · rfl
  | @unsigned e s he hdigits =>
    obtain ⟨r, hr⟩ := local_exponentDigits negative false sig hdigits
    refine ⟨r, fun rest hrest => ?_⟩
    rw [← hr rest hrest]
    dsimp only
    rw [← exponentPart_unsigned negative sig hdigits]
    rcases he with rfl | rfl <;> rfl
  | @signed e sign s he hsign hdigits =>
    rcases hsign with rfl | rfl
    · obtain ⟨r, hr⟩ := local_exponentDigits negative false sig hdigits
      refine ⟨r, fun rest hrest => ?_⟩
      rw [← hr rest hrest]
      rcases he with rfl | rfl <;> rfl
    · obtain ⟨r, hr⟩ := local_exponentDigits negative true sig hdigits
      refine ⟨r, fun rest hrest => ?_⟩
      rw [← hr rest hrest]
      rcases he with rfl | rfl <;> rfl

/-- An exponent and what may follow a number start with no digit and no point. -/
theorem head_of_exponent (h : Exponent s) (hrest : Ends rest) :
    ∀ c ∈ (s ++ rest).head?, isDigit c = false ∧ c ≠ '.' := by
  cases h with
  | none => exact fun c hc => ⟨hrest.not_digit c hc, (hrest c hc).2.1⟩
  | unsigned he =>
    rintro c ⟨⟩
    rcases he with rfl | rfl <;> decide
  | signed he =>
    rintro c ⟨⟩
    rcases he with rfl | rfl <;> decide

theorem not_digit_of_exponent (h : Exponent s) (hrest : Ends rest) :
    ∀ c ∈ (s ++ rest).head?, isDigit c = false :=
  fun c hc => (head_of_exponent h hrest c hc).1

theorem local_fractionPart (negative : Bool) (sig : Significand) (hs : Text.Digits s)
    (ht : Exponent t) : Local fun rest => fractionPart negative sig (s ++ (t ++ rest)) := by
  obtain ⟨r, hr⟩ := local_afterDigits negative
    (s.foldl Significand.addPart { sig with full := false }) (local_finish negative _) ht
  refine ⟨r, fun rest hrest => ?_⟩
  rw [← hr rest hrest]
  show fractionPart negative sig (s ++ (t ++ rest)) = _
  unfold fractionPart
  rw [digitsOf_append hs.digit (not_digit_of_exponent ht hrest)]
  exact if_neg hs.ne_nil

theorem digits_of_whole (h : Whole s) :
    s ≠ [] ∧ (∀ c ∈ s, c.isDigit = true) ∧ ¬ (s.head? = some '0' ∧ s ≠ ['0']) := by
  cases h with
  | zero => exact ⟨List.cons_ne_nil _ _, List.forall_mem_singleton.mpr (by decide), by decide⟩
  | more hc hzero hs =>
    exact ⟨List.cons_ne_nil _ _, List.forall_mem_cons.mpr ⟨hc, hs⟩,
      fun h => hzero (Option.some.inj h.1)⟩

/-- The significand of the digits before the point. -/
def significand (s : List Char) : Significand := s.foldl Significand.addWhole ⟨0, 0, false⟩

theorem numberBody_point (negative : Bool) (h : Whole s) (rest : List Char) :
    numberBody negative (s ++ '.' :: rest) = fractionPart negative (significand s) rest := by
  obtain ⟨hne, hdigits, hlead⟩ := digits_of_whole h
  unfold numberBody
  rw [digitsOf_append hdigits (by rintro c ⟨⟩; decide)]
  simp only [if_neg hne, if_neg hlead]
  rfl

theorem numberBody_plain (negative : Bool) (h : Whole s)
    (hrest : ∀ c ∈ rest.head?, isDigit c = false ∧ c ≠ '.') :
    numberBody negative (s ++ rest) =
      afterDigits negative (significand s) (wholeNumeral negative (significand s)) rest := by
  obtain ⟨hne, hdigits, hlead⟩ := digits_of_whole h
  unfold numberBody
  rw [digitsOf_append hdigits fun c hc => (hrest c hc).1]
  simp only [if_neg hne, if_neg hlead]
  unfold afterDigits
  split
  · exact absurd rfl (hrest _ rfl).2
  · rfl
  · rfl
  · split
    · rename_i s _ he _
      exact (he s rfl).elim
    · rename_i s _ _ he
      exact (he s rfl).elim
    · rfl

/-- **What is made of a number** is decided by its text: nothing that may follow is a part of it. -/
theorem local_numberBody (negative : Bool) (h : Unsigned s) :
    Local fun rest => numberBody negative (s ++ rest) := by
  obtain @⟨whole, fraction, exponent, hw, hf, he⟩ := h
  cases hf with
  | none =>
    obtain ⟨r, hr⟩ := local_afterDigits negative (significand whole)
      (local_wholeNumeral negative (significand whole)) he
    refine ⟨r, fun rest hrest => ?_⟩
    rw [← hr rest hrest]
    show numberBody negative (whole ++ exponent ++ rest) = _
    rw [List.append_assoc]
    exact numberBody_plain negative hw (head_of_exponent he hrest)
  | @some fraction hfraction =>
    obtain ⟨r, hr⟩ := local_fractionPart negative (significand whole) hfraction he
    refine ⟨r, fun rest hrest => ?_⟩
    rw [← hr rest hrest]
    show numberBody negative (whole ++ ('.' :: fraction ++ exponent) ++ rest) = _
    rw [List.append_assoc, List.cons_append, List.cons_append, List.append_assoc]
    exact numberBody_point negative hw _

/-! ## The first character of a value -/

theorem head_of_unsigned (h : Unsigned s) : ∃ c t, s = c :: t ∧ isDigit c = true := by
  obtain @⟨whole, fraction, exponent, hw, -, -⟩ := h
  obtain ⟨hne, hdigits, -⟩ := digits_of_whole hw
  obtain ⟨c, t, rfl⟩ := List.exists_cons_of_ne_nil hne
  exact ⟨c, _, rfl, (isDigit_eq c).trans (hdigits c List.mem_cons_self)⟩

theorem head_of_number (h : Number s) : ∃ c t, s = c :: t ∧ (isDigit c = true ∨ c = '-') := by
  cases h with
  | positive h =>
    obtain ⟨c, t, rfl, hc⟩ := head_of_unsigned h
    exact ⟨c, t, rfl, .inl hc⟩
  | negative h => exact ⟨'-', _, rfl, .inr rfl⟩

/-- A value starts with a digit, or with one of seven other characters. -/
theorem head_of_value (h : Value s) :
    ∃ c t, s = c :: t ∧
      (isDigit c = true ∨ c ∈ ['-', 'n', 't', 'f', '\x22', '[', '\x7b']) := by
  cases h with
  | number h =>
    obtain ⟨c, t, rfl, hc | rfl⟩ := head_of_number h
    · exact ⟨c, t, rfl, .inl hc⟩
    · exact ⟨'-', t, rfl, .inr (by decide)⟩
  | null | yes | no | string | emptyArray | array | emptyObject | object =>
    exact ⟨_, _, rfl, .inr (by decide)⟩

/-- The first character of a value is no blank and closes no array. -/
theorem starts_value (h : Value s) : Starts s := by
  obtain ⟨c, t, rfl, hc⟩ := head_of_value h
  refine ⟨c, t, rfl, ?_⟩
  rcases hc with hdigit | hc
  · refine ⟨Bool.eq_false_iff.mpr fun hblank => ?_, ?_⟩
    · simp only [isBlank, Bool.or_eq_true, beq_iff_eq] at hblank
      rcases hblank with ((rfl | rfl) | rfl) | rfl <;> exact absurd hdigit (by decide)
    · rintro rfl
      exact absurd hdigit (by decide)
  · simp only [List.mem_cons, List.not_mem_nil, or_false] at hc
    rcases hc with rfl | rfl | rfl | rfl | rfl | rfl | rfl <;> decide

/-- Only numbers start with a digit or a minus. -/
theorem number_of_head (h : Value (c :: t)) (hc : isDigit c = true ∨ c = '-') :
    Number (c :: t) := by
  cases h with
  | number h => exact h
  | null | yes | no | string | emptyArray | array | emptyObject | object =>
    rcases hc with hc | hc <;> exact absurd hc (by decide)

/-- Only strings start with a quote. -/
theorem body_of_head (h : Value s) (hs : s = '\x22' :: t) : ∃ u, Body u ∧ t = u ++ ['\x22'] := by
  cases h with
  | string h => exact ⟨_, h, (List.cons.inj hs).2.symm⟩
  | number h =>
    obtain ⟨c, u, rfl, hc⟩ := head_of_number h
    obtain rfl := (List.cons.inj hs).1
    rcases hc with hc | hc <;> exact absurd hc (by decide)
  | null | yes | no | emptyArray | array | emptyObject | object =>
    exact absurd (List.cons.inj hs).1 (by decide)

/-- Only arrays start with a bracket. -/
theorem items_of_head (h : Value s) (hs : s = '[' :: t) :
    (∃ gap, Gap gap ∧ t = gap ++ [']']) ∨
      ∃ items : List Padded, items ≠ [] ∧ (∀ p ∈ items, p.Airy ∧ Value p.text) ∧
        t = separated (items.map Padded.whole) ++ [']'] := by
  cases h with
  | emptyArray h => exact .inl ⟨_, h, (List.cons.inj hs).2.symm⟩
  | array hne hairy hvalues =>
    exact .inr ⟨_, hne, fun p hp => ⟨hairy p hp, hvalues p hp⟩, (List.cons.inj hs).2.symm⟩
  | number h =>
    obtain ⟨c, u, rfl, hc⟩ := head_of_number h
    obtain rfl := (List.cons.inj hs).1
    rcases hc with hc | hc <;> exact absurd hc (by decide)
  | null | yes | no | string | emptyObject | object =>
    exact absurd (List.cons.inj hs).1 (by decide)

/-! ## Wrong types -/

/-- The fault of a value that is read to its end but has the wrong type. -/
def faultOf : Except Fault β → Fault
  | .ok _ => .unsuitable
  | .error e => e

theorem faultOf_map {γ : Type} (r : Except Fault β) (f : β → γ) :
    faultOf (r.map f) = faultOf r := by
  cases r <;> rfl

theorem wrongType_minus (s : List Char) : wrongType ('-' :: s) = faultOf (numberBody true s) := rfl

theorem wrongType_quote (s : List Char) : wrongType ('\x22' :: s) = faultOf (stringBody s) := rfl

theorem wrongType_digit (hc : isDigit c = true) (s : List Char) :
    wrongType (c :: s) = faultOf (numberBody false (c :: s)) := by
  have hother : ∀ d, isDigit d = false → c ≠ d := by
    rintro d hd rfl
    exact Bool.false_ne_true (hd.symm.trans hc)
  have hletters : wrongType (c :: s) = if isDigit c = true then _ else _ :=
    (if_neg (hother 'n' (by decide))).trans <| (if_neg (hother 't' (by decide))).trans <|
      (if_neg (hother 'f' (by decide))).trans (if_neg (hother '-' (by decide)))
  exact hletters.trans (if_pos hc)

/-- **The fault of a value of the wrong type** is decided by the value. -/
theorem wrongType_value (h : Value s) : ∃ e, ∀ rest, Ends rest → wrongType (s ++ rest) = e := by
  cases h with
  | null | yes | no | emptyArray | array | emptyObject | object =>
    exact ⟨.unsuitable, fun rest _ => rfl⟩
  | number h =>
    cases h with
    | positive h =>
      obtain ⟨r, hr⟩ := local_numberBody false h
      obtain ⟨c, t, rfl, hc⟩ := head_of_unsigned h
      refine ⟨faultOf r, fun rest hrest => ?_⟩
      have hread : numberBody false (c :: (t ++ rest)) = r.map (·, rest) := hr rest hrest
      rw [List.cons_append, wrongType_digit hc, hread, faultOf_map]
    | @negative s h =>
      obtain ⟨r, hr⟩ := local_numberBody true h
      refine ⟨faultOf r, fun rest hrest => ?_⟩
      have hread : numberBody true (s ++ rest) = r.map (·, rest) := hr rest hrest
      rw [List.cons_append, wrongType_minus, hread, faultOf_map]
  | @string s h =>
    obtain ⟨r, hr⟩ := exists_stringBody h
    refine ⟨faultOf r, fun rest _ => ?_⟩
    rw [List.cons_append, List.append_assoc, List.singleton_append, wrongType_quote, hr rest,
      faultOf_map]

end Holdem.Json
