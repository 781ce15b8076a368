import Holdem.Chips
import Holdem.Text.Blank

/-!
# Integer literals

An amount is written as an optional sign and ASCII digits, leading zeros allowed. `Literal s n` says
so together with the number that is written; `Chips.Written s n` says in addition that the number
has 64 signed bits.

Results: **`int?_eq_some_iff`** and **`Chips.ofText?_eq_some_iff`**, that reading accepts these
texts and finds these numbers, and `Chips.written_digits`, that amounts are printed as such.
-/

namespace Holdem

namespace Text

variable {c : Char} {s : List Char} {k m : Nat} {n : Int}

/-- A number in ASCII digits, one at least. -/
structure Digits (s : List Char) : Prop where
  ne_nil : s ≠ []
  digit : ∀ c ∈ s, c.isDigit = true

/-- An integer and the text of it: an optional sign, then digits. -/
inductive Literal : List Char → Int → Prop
  | unsigned {s : List Char} (h : Digits s) : Literal s (Nat.ofDigitChars 10 s 0)
  | plus {s : List Char} (h : Digits s) : Literal ('+' :: s) (Nat.ofDigitChars 10 s 0)
  | minus {s : List Char} (h : Digits s) : Literal ('-' :: s) (-(Nat.ofDigitChars 10 s 0 : Int))

theorem digit?_eq_some_iff : digit? c = some k ↔ c.isDigit = true ∧ k = c.toNat - '0'.toNat := by
  have hdigit : c.isDigit = true ↔ '0' ≤ c ∧ c ≤ '9' := by
    simp only [Char.isDigit, Bool.and_eq_true, decide_eq_true_eq, Char.le_def, ge_iff_le]
  unfold digit?
  rw [hdigit]
  split
  · rename_i h
    exact ⟨fun hk => ⟨h, (Option.some.inj hk).symm⟩, fun hk => congrArg some hk.2.symm⟩
  · rename_i h
    exact ⟨nofun, fun hk => absurd hk.1 h⟩

theorem isSome_digit? (c : Char) : (digit? c).isSome = c.isDigit := by
  rw [Bool.eq_iff_iff, Option.isSome_iff_exists]
  exact ⟨fun ⟨_, hk⟩ => (digit?_eq_some_iff.mp hk).1,
    fun h => ⟨_, digit?_eq_some_iff.mpr ⟨h, rfl⟩⟩⟩

theorem appendDigits?_eq_some_iff :
    appendDigits? k s = some m ↔ (∀ c ∈ s, c.isDigit = true) ∧ m = Nat.ofDigitChars 10 s k := by
  induction s generalizing k with
  | nil => simpa [appendDigits?, Nat.ofDigitChars] using eq_comm
  | cons c s ih =>
    rw [Nat.ofDigitChars_cons, List.forall_mem_cons, appendDigits?, Option.bind_eq_some_iff]
    simp only [digit?_eq_some_iff, ih]
    constructor
    · rintro ⟨_, ⟨hc, rfl⟩, hs, hm⟩
      exact ⟨⟨hc, hs⟩, hm⟩
    · rintro ⟨⟨hc, hs⟩, hm⟩
      exact ⟨_, ⟨hc, rfl⟩, hs, hm⟩

theorem nat?_eq_some_iff : nat? s = some m ↔ Digits s ∧ m = Nat.ofDigitChars 10 s 0 := by
  cases s with
  | nil => simp [nat?, show ¬ Digits [] from fun h => h.ne_nil rfl]
  | cons c s =>
    rw [nat?.eq_2 _ (List.cons_ne_nil c s), appendDigits?_eq_some_iff]
    exact and_congr_left' ⟨fun h => ⟨List.cons_ne_nil c s, h⟩, Digits.digit⟩

/-- A sign is no digit. -/
theorem Digits.not_sign (h : Digits (c :: s)) : c ≠ '+' ∧ c ≠ '-' := by
  have hc := h.digit c List.mem_cons_self
  constructor <;> rintro rfl <;> exact absurd hc (by decide)

theorem int?_minus (s : List Char) : int? ('-' :: s) = (nat? s).map fun m : Nat => -(m : Int) := by
  rw [int?]
  cases nat? s <;> rfl

theorem int?_unsigned (h : Digits s) : int? s = (nat? s).map Int.ofNat := by
  obtain ⟨c, s, rfl⟩ := List.exists_cons_of_ne_nil h.ne_nil
  obtain ⟨hplus, hminus⟩ := h.not_sign
  exact int?.eq_3 _ (fun _ heq => hplus (List.cons.inj heq).1)
    (fun _ heq => hminus (List.cons.inj heq).1)

/-- **The integers that are read** are the literals. -/
theorem int?_eq_some_iff : int? s = some n ↔ Literal s n := by
  constructor
  · intro h
    unfold int? at h
    split at h
    · obtain ⟨m, hm, rfl⟩ := Option.map_eq_some_iff.mp h
      obtain ⟨hdigits, rfl⟩ := nat?_eq_some_iff.mp hm
      exact .plus hdigits
    · obtain ⟨m, hm, rfl⟩ := Option.map_eq_some_iff.mp ((int?_minus _).symm.trans h)
      obtain ⟨hdigits, rfl⟩ := nat?_eq_some_iff.mp hm
      exact .minus hdigits
    · obtain ⟨m, hm, rfl⟩ := Option.map_eq_some_iff.mp h
      obtain ⟨hdigits, rfl⟩ := nat?_eq_some_iff.mp hm
      exact .unsigned hdigits
  · intro h
    cases h with
    | unsigned h =>
      rw [int?_unsigned h, nat?_eq_some_iff.mpr ⟨h, rfl⟩]
      rfl
    | plus h =>
      rw [int?, nat?_eq_some_iff.mpr ⟨h, rfl⟩]
      rfl
    | minus h =>
      rw [int?_minus, nat?_eq_some_iff.mpr ⟨h, rfl⟩]
      rfl

/-- A digit is no white space. -/
theorem isBlank_of_isDigit (h : c.isDigit = true) : isBlank c = false := by
  have hrange : 48 ≤ c.toNat ∧ c.toNat ≤ 57 := by
    simpa [Char.isDigit, UInt32.le_iff_toNat_le] using h
  simp only [isBlank, Bool.or_eq_false_iff, Bool.and_eq_false_iff, decide_eq_false_iff_not,
    beq_eq_false_iff_ne]
  omega

theorem digits_natDigits (m : Nat) : Digits (natDigits m) :=
  ⟨Nat.toDigits_ne_nil, fun _ => Nat.isDigit_of_mem_toDigits (by decide) (by decide)⟩

/-- What is printed without a sign is read back. -/
theorem literal_natDigits (m : Nat) : Literal (natDigits m) m := by
  have h := Literal.unsigned (digits_natDigits m)
  rwa [natDigits, Nat.ofDigitChars_toDigits (by decide) (by decide)] at h

end Text

namespace Chips

variable {s : List Char} {n : Int}

/-- An amount of 64 signed bits and the text of it. -/
structure Written (s : List Char) (n : Int) : Prop where
  literal : Text.Literal s n
  least_le : least ≤ n
  le_most : n ≤ most

/-- **The amounts that are read.** -/
theorem ofText?_eq_some_iff : ofText? s = some n ↔ Written s n := by
  unfold ofText?
  rw [Option.filter_eq_some_iff, Text.int?_eq_some_iff]
  simp only [fits, Bool.and_eq_true, decide_eq_true_eq]
  exact ⟨fun h => ⟨h.1, h.2.1, h.2.2⟩, fun h => ⟨h.literal, h.least_le, h.le_most⟩⟩

theorem ofText?_eq_none_iff : ofText? s = none ↔ ∀ n, ¬ Written s n := by
  simp only [Option.eq_none_iff_forall_ne_some, ne_eq, ofText?_eq_some_iff]

/-- Positive amounts are printed without a sign. -/
theorem toList_digits (hpos : 0 < n) : (digits n).toList = Text.natDigits n.natAbs := by
  rw [digits, String.toList_ofList, Text.intDigits, if_neg (by omega)]

theorem written_digits (hpos : 0 < n) (hmost : n ≤ most) : Written (digits n).toList n := by
  have habs : (n.natAbs : Int) = n := by omega
  have hlit := Text.literal_natDigits n.natAbs
  rw [habs, ← toList_digits hpos] at hlit
  exact ⟨hlit, by simp only [least]; omega, hmost⟩

end Chips

end Holdem
