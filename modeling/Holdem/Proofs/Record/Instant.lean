import Holdem.Proofs.Text.Literal
import Holdem.Record.Instant

/-!
# Instants that were written are read back

A number in a fixed width is read back whatever follows it, and any other number is if no digit
follows (`number_digits`). So is each part of the text of an instant: `year_yearChars`,
`spaced_padded`, and `fraction_fractionChars` for the four ways to write a fraction.

Result: **`ofText?_text`**, for every instant, whatever its year and its nanosecond.
-/

namespace Holdem.Instant

variable {ds rest : List Char} {width n : Nat} {c : Char}

/-! ## Numbers -/

/-- The digits of a number are read as far as the width or the digits go. -/
theorem number_digits (hds : Text.Digits ds) (hwidth : ds.length ≤ width)
    (hstop : ds.length = width ∨ ∀ c ∈ rest.head?, c.isDigit = false) :
    number width (ds ++ rest) = some (Nat.ofDigitChars 10 ds 0, rest) := by
  have hall : ∀ c ∈ ds, (Text.digit? c).isSome = true := fun c hc =>
    (Text.isSome_digit? c).trans (hds.digit c hc)
  have hnone : (rest.take (width - ds.length)).takeWhile (fun c => (Text.digit? c).isSome) = [] := by
    rcases hstop with heq | hstop
    · rw [heq, Nat.sub_self, List.take_zero, List.takeWhile_nil]
    · cases rest with
      | nil => rw [List.take_nil, List.takeWhile_nil]
      | cons c rest =>
        cases width - ds.length with
        | zero => rw [List.take_zero, List.takeWhile_nil]
        | succ k =>
          rw [List.take_succ_cons, List.takeWhile_cons_of_neg]
          rw [Text.isSome_digit?, hstop c rfl]
          exact Bool.false_ne_true
  have htaken : ((ds ++ rest).take width).takeWhile (fun c => (Text.digit? c).isSome) = ds := by
    rw [List.take_append, List.take_of_length_le hwidth, List.takeWhile_append_of_pos hall, hnone,
      List.append_nil]
  unfold number
  simp only [htaken, Text.nat?_eq_some_iff.mpr ⟨hds, rfl⟩, Option.map_some, List.drop_left' rfl]

theorem digits_padded (width n : Nat) : Text.Digits (Text.padded width n) := by
  obtain ⟨hne, hall⟩ := Text.digits_natDigits n
  refine ⟨fun h => hne (List.append_eq_nil_iff.mp h).2, fun c hc => ?_⟩
  rcases List.mem_append.mp hc with hc | hc
  · rw [List.eq_of_mem_replicate hc]
    decide
  · exact hall c hc

theorem ofDigitChars_padded (width n : Nat) :
    Nat.ofDigitChars 10 (Text.padded width n) 0 = n := by
  have hzeros : ∀ k, Nat.ofDigitChars 10 (List.replicate k '0') 0 = 0 := by
    intro k
    induction k with
    | zero => rfl
    | succ k ih =>
      rw [List.replicate_succ, Nat.ofDigitChars_cons]
      exact ih
  unfold Text.padded Text.natDigits
  rw [Nat.ofDigitChars_append, hzeros, Nat.ofDigitChars_toDigits (by decide) (by decide)]

theorem length_padded (hpos : 0 < width) (h : n < Nat.pow 10 width) :
    (Text.padded width n).length = width := by
  have hle : (Nat.toDigits 10 n).length ≤ width :=
    (Nat.length_toDigits_le_iff (by decide) hpos).mpr h
  unfold Text.padded Text.natDigits
  rw [List.length_append, List.length_replicate]
  omega

/-- A number is read back from its fixed width, whatever follows. -/
theorem number_padded (hpos : 0 < width) (h : n < Nat.pow 10 width) (rest : List Char) :
    number width (Text.padded width n ++ rest) = some (n, rest) := by
  have hlength := length_padded hpos h
  rw [number_digits (digits_padded width n) (Nat.le_of_eq hlength) (.inl hlength),
    ofDigitChars_padded]

theorem trimLeft_digits (hds : Text.Digits ds) (rest : List Char) :
    Text.trimLeft (ds ++ rest) = ds ++ rest := by
  obtain ⟨c, s, rfl⟩ := List.exists_cons_of_ne_nil hds.ne_nil
  have hblank := Text.isBlank_of_isDigit (hds.digit c List.mem_cons_self)
  exact List.dropWhile_cons_of_neg (by rw [hblank]; exact Bool.false_ne_true)

theorem spaced_padded (h : n < 100) (rest : List Char) :
    spaced 2 (Text.padded 2 n ++ rest) = some (n, rest) := by
  unfold spaced
  rw [trimLeft_digits (digits_padded 2 n), number_padded (by decide) h]

theorem trimLeft_cons (h : Text.isBlank c = false) (rest : List Char) :
    Text.trimLeft (c :: rest) = c :: rest :=
  List.dropWhile_cons_of_neg (by rw [h]; exact Bool.false_ne_true)

theorem mark_cons (h : Text.isBlank c = false) (rest : List Char) :
    mark c (c :: rest) = some rest := by
  unfold mark
  rw [trimLeft_cons h]
  exact if_pos rfl

/-! ## Years and fractions -/

/-- A year with a sign has as many digits as there are. -/
theorem number_signed (n : Nat) (hrest : ∀ c ∈ rest.head?, c.isDigit = false) :
    number (Text.padded 4 n ++ rest).length (Text.padded 4 n ++ rest) = some (n, rest) := by
  rw [number_digits (digits_padded 4 n) _ (.inr hrest), ofDigitChars_padded]
  rw [List.length_append]
  exact Nat.le_add_right _ _

/-- A year is read back if no digit follows. -/
theorem year_yearChars (y : Int) (hrest : ∀ c ∈ rest.head?, c.isDigit = false) :
    year (yearChars y ++ rest) = some (y, rest) := by
  unfold yearChars year
  by_cases hfour : 0 ≤ y ∧ y ≤ 9999
  · rw [if_pos hfour, trimLeft_digits (digits_padded 4 _)]
    have hnumber : number 4 (Text.padded 4 y.toNat ++ rest) = some (y.toNat, rest) :=
      number_padded (by decide) (show y.toNat < 10000 by omega) rest
    have hdigits := digits_padded 4 y.toNat
    obtain ⟨c, s, hcs⟩ := List.exists_cons_of_ne_nil hdigits.ne_nil
    rw [hcs] at hdigits hnumber ⊢
    obtain ⟨hplus, hminus⟩ := hdigits.not_sign
    split
    · rename_i heq
      exact absurd (List.cons.inj heq).1 hminus
    · rename_i heq
      exact absurd (List.cons.inj heq).1 hplus
    · rw [hnumber]
      exact congrArg (fun y => some (y, rest)) (Int.toNat_of_nonneg hfour.1)
  · rw [if_neg hfour]
    by_cases hneg : y < 0
    · rw [if_pos hneg, List.cons_append, trimLeft_cons (by decide)]
      show (number _ _).map _ = _
      rw [number_signed _ hrest]
      exact congrArg (fun y => some (y, rest)) (show -(y.natAbs : Int) = y by omega)
    · rw [if_neg hneg, List.cons_append, trimLeft_cons (by decide)]
      show (number _ _).map _ = _
      rw [number_signed _ hrest]
      exact congrArg (fun y => some (y, rest)) (show (y.natAbs : Int) = y by omega)

/-- A fraction of some digits is read back before the mark of UTC. -/
theorem fraction_padded (hpos : 0 < width) (hwidth : width ≤ 9) (h : n < Nat.pow 10 width) :
    fraction ('.' :: Text.padded width n ++ ['Z']) = some (n * Nat.pow 10 (9 - width), ['Z']) := by
  have hlength := length_padded hpos h
  have hnumber : number 9 (Text.padded width n ++ ['Z']) = some (n, ['Z']) := by
    have hmark : ∀ c ∈ ['Z'].head?, c.isDigit = false := fun c hc => by cases hc; rfl
    rw [number_digits (digits_padded width n) (by omega) (.inr hmark), ofDigitChars_padded]
  have hread : (Text.padded width n ++ ['Z']).length - ['Z'].length = width := by
    rw [List.length_append, hlength, Nat.add_sub_cancel]
  rw [List.cons_append]
  unfold fraction
  simp only [hnumber, Option.map_some, hread]
  rfl

theorem fraction_fractionChars (h : n < 1000000000) :
    fraction (fractionChars n ++ ['Z']) = some (n, ['Z']) := by
  unfold fractionChars
  by_cases hzero : n = 0
  · rw [if_pos hzero, hzero]
    rfl
  rw [if_neg hzero]
  by_cases hmilli : n % 1000000 = 0
  · rw [if_pos hmilli, fraction_padded (by decide) (by decide)
      (show n / 1000000 < 1000 by omega)]
    rw [show n / 1000000 * Nat.pow 10 (9 - 3) = n from
      Nat.div_mul_cancel (Nat.dvd_of_mod_eq_zero hmilli)]
  rw [if_neg hmilli]
  by_cases hmicro : n % 1000 = 0
  · rw [if_pos hmicro, fraction_padded (by decide) (by decide) (show n / 1000 < 1000000 by omega)]
    rw [show n / 1000 * Nat.pow 10 (9 - 6) = n from
      Nat.div_mul_cancel (Nat.dvd_of_mod_eq_zero hmicro)]
  · rw [if_neg hmicro, fraction_padded (by decide) (by decide) h]
    rw [show n * Nat.pow 10 (9 - 9) = n from Nat.mul_one n]

/-! ## Whole texts -/

theorem offset_utc : offset (Text.trimLeft ['Z']) = some (0, []) := by decide

/-- Nothing is taken off for UTC. -/
theorem minus_zero (t : Instant) : minus t.date t.time 0 = some t := by
  obtain ⟨hhour, hminute, -, -⟩ := t.time_valid
  -- with no offset the minutes of the day are those of the time itself
  have htime : ({ t.time with
      hour := (((t.time.hour * 60 + t.time.minute : Nat) : Int) % 1440).toNat / 60
      minute := (((t.time.hour * 60 + t.time.minute : Nat) : Int) % 1440).toNat % 60 } :
        TimeOfDay) = t.time := by
    rw [show (((t.time.hour * 60 + t.time.minute : Nat) : Int) % 1440).toNat =
      t.time.hour * 60 + t.time.minute by omega]
    rw [show (t.time.hour * 60 + t.time.minute) / 60 = t.time.hour by omega,
      show (t.time.hour * 60 + t.time.minute) % 60 = t.time.minute by omega]
  unfold minus
  simp only [Int.sub_zero]
  rw [if_pos t.date_valid, htime,
    if_neg (show ¬ ((t.time.hour * 60 + t.time.minute : Nat) : Int) < 0 by omega),
    if_neg (show ¬ 1440 ≤ ((t.time.hour * 60 + t.time.minute : Nat) : Int) by omega)]
  exact dif_pos ⟨t.date_valid, t.time_valid⟩

theorem daysIn_le (year : Int) (month : Nat) : Calendar.daysIn year month ≤ 31 := by
  unfold Calendar.daysIn
  repeat' split
  all_goals decide

/-- **An instant is read back** from its text. -/
theorem ofText?_text (t : Instant) : ofText? t.text = some t := by
  obtain ⟨-, -, -, hmonth, -, hday⟩ := t.date_valid
  obtain ⟨hhour, hminute, hsecond, hnano⟩ := t.time_valid
  have hdays := daysIn_le t.date.year t.date.month
  have htext : t.text.toList = yearChars t.date.year ++ ('-' :: (Text.padded 2 t.date.month ++
      ('-' :: (Text.padded 2 t.date.day ++ ('T' :: (Text.padded 2 t.time.hour ++
      (':' :: (Text.padded 2 t.time.minute ++ (':' :: (Text.padded 2 t.time.second ++
      (fractionChars t.time.nanosecond ++ ['Z']))))))))))) := by
    rw [text, String.toList_ofList, secondChars]
    simp only [List.append_assoc, List.cons_append]
  have hblank : Text.isBlank '-' = false ∧ Text.isBlank ':' = false := by decide
  have hyear : ∀ s, year (yearChars t.date.year ++ '-' :: s) = some (t.date.year, '-' :: s) :=
    fun s => year_yearChars t.date.year fun c hc => by cases hc; rfl
  have hseparator : ∀ s, separator ('T' :: s) = some s := fun _ => rfl
  have hwhole : Text.trimLeft [] = [] ∧ (0 : Int).natAbs < 1440 ∧ t.time.hour < 24 ∧
      t.time.minute < 60 := ⟨rfl, by decide, hhour, hminute⟩
  unfold ofText?
  rw [htext]
  dsimp only [Option.bind_eq_bind]
  rw [hyear, Option.bind_some, mark_cons hblank.1, Option.bind_some,
    spaced_padded (show t.date.month < 100 by omega), Option.bind_some,
    mark_cons hblank.1, Option.bind_some,
    spaced_padded (show t.date.day < 100 by omega), Option.bind_some, hseparator, Option.bind_some,
    spaced_padded (show t.time.hour < 100 by omega), Option.bind_some,
    mark_cons hblank.2, Option.bind_some,
    spaced_padded (show t.time.minute < 100 by omega), Option.bind_some,
    mark_cons hblank.2, Option.bind_some,
    spaced_padded (show t.time.second < 100 by omega), Option.bind_some,
    fraction_fractionChars hnano, Option.bind_some, offset_utc, Option.bind_some]
  rw [if_pos hwhole]
  exact minus_zero t

end Holdem.Instant
