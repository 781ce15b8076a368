import Holdem.Proofs.Json.Scalar

/-!
# Texts that are JSON

Which texts are JSON values, said without a reader. There is one rule for each way in which a value
may be written, blanks included.

* `Stands s c`: `s` may be written for the character `c` in a string. `Unescapes s cs`: `s` are the
  characters `cs` in a row. A surrogate without its partner stands for no character. A `Body` may
  have such surrogates all the same.
* `Number`, `Value`: the texts of numbers and of values. The items of an array and the members of an
  object are `Padded` with blanks.
* `Roster lines s`: `s` is an object, keyed by players, of these lines in this order. Its keys have
  no surrogate without its partner.
-/

namespace Holdem.Json.Grammar

variable {s t : List Char} {c : Char} {n : Nat}

/-! ## Strings -/

/-- The value of a hexadecimal digit is its place among the digits, in either case. -/
def HexDigit (c : Char) (n : Nat) : Prop :=
  "0123456789abcdef".toList[n]? = some c ∨ "0123456789ABCDEF".toList[n]? = some c

instance (c : Char) (n : Nat) : Decidable (HexDigit c n) := inferInstanceAs (Decidable (_ ∨ _))

/-- Four hexadecimal digits and their number. -/
inductive HexFour : List Char → Nat → Prop
  | digits {a b c d : Char} {i j k l : Nat} (ha : HexDigit a i) (hb : HexDigit b j)
      (hc : HexDigit c k) (hd : HexDigit d l) :
      HexFour [a, b, c, d] (((i * 16 + j) * 16 + k) * 16 + l)

/-- The letters that may follow a backslash, with the characters that they stand for. -/
def shortEscapes : List (Char × Char) :=
  [('\x22', '\x22'), ('\\', '\\'), ('/', '/'), ('b', '\x08'), ('f', '\x0c'), ('n', '\n'),
    ('r', '\r'), ('t', '\t')]

/-- The number of the first half of a pair of surrogates. -/
def High (n : Nat) : Prop := 0xD800 ≤ n ∧ n ≤ 0xDBFF

instance (n : Nat) : Decidable (High n) := inferInstanceAs (Decidable (_ ∧ _))

/-- The number of the second half of a pair of surrogates. -/
def Low (n : Nat) : Prop := 0xDC00 ≤ n ∧ n ≤ 0xDFFF

instance (n : Nat) : Decidable (Low n) := inferInstanceAs (Decidable (_ ∧ _))

/-- A text that stands for a character in a string. -/
inductive Stands : List Char → Char → Prop
  | plain {c : Char} (hquote : c ≠ '\x22') (hslash : c ≠ '\\') (hcontrol : 32 ≤ c.toNat) :
      Stands [c] c
  | short {letter c : Char} (h : (letter, c) ∈ shortEscapes) : Stands ['\\', letter] c
  | number {s : List Char} {n : Nat} (h : HexFour s n) (hhigh : ¬ High n) (hlow : ¬ Low n) :
      Stands ('\\' :: 'u' :: s) (Char.ofNat n)
  | pair {s t : List Char} {n m : Nat} (h : HexFour s n) (hhigh : High n) (h' : HexFour t m)
      (hlow : Low m) :
      Stands ('\\' :: 'u' :: (s ++ '\\' :: 'u' :: t))
        (Char.ofNat ((n - 0xD800) * 1024 + (m - 0xDC00) + 0x10000))

/-- The text of some characters between quotes. -/
inductive Unescapes : List Char → List Char → Prop
  | nil : Unescapes [] []
  | cons {s t cs : List Char} {c : Char} (h : Stands s c) (hrest : Unescapes t cs) :
      Unescapes (s ++ t) (c :: cs)

/-- What may stand between quotes, be it that surrogates lack their partners. -/
inductive Body : List Char → Prop
  | nil : Body []
  | cons {s t : List Char} {c : Char} (h : Stands s c) (hrest : Body t) : Body (s ++ t)
  | lone {s t : List Char} {n : Nat} (h : HexFour s n) (hn : High n ∨ Low n) (hrest : Body t) :
      Body ('\\' :: 'u' :: (s ++ t))

theorem Stands.ne_nil (h : Stands s c) : s ≠ [] := by
  cases h <;> exact List.cons_ne_nil _ _

/-! ## Numbers -/

/-- The digits before the point; a zero in front stands alone. -/
inductive Whole : List Char → Prop
  | zero : Whole ['0']
  | more {c : Char} {s : List Char} (hc : c.isDigit = true) (hzero : c ≠ '0')
      (hs : ∀ d ∈ s, d.isDigit = true) : Whole (c :: s)

/-- What may follow the digits before the point. -/
inductive Fraction : List Char → Prop
  | none : Fraction []
  | some {s : List Char} (h : Text.Digits s) : Fraction ('.' :: s)

/-- What may follow that. -/
inductive Exponent : List Char → Prop
  | none : Exponent []
  | unsigned {e : Char} {s : List Char} (he : e = 'e' ∨ e = 'E') (h : Text.Digits s) :
      Exponent (e :: s)
  | signed {e sign : Char} {s : List Char} (he : e = 'e' ∨ e = 'E')
      (hsign : sign = '+' ∨ sign = '-') (h : Text.Digits s) : Exponent (e :: sign :: s)

/-- A number without its sign. -/
inductive Unsigned : List Char → Prop
  | parts {whole fraction exponent : List Char} (hw : Whole whole) (hf : Fraction fraction)
      (he : Exponent exponent) : Unsigned (whole ++ (fraction ++ exponent))

/-- A number. -/
inductive Number : List Char → Prop
  | positive {s : List Char} (h : Unsigned s) : Number s
  | negative {s : List Char} (h : Unsigned s) : Number ('-' :: s)

/-! ## Values -/

/-- A text with blanks around it. -/
structure Padded where
  before : List Char
  text : List Char
  after : List Char

namespace Padded

def whole (p : Padded) : List Char := p.before ++ (p.text ++ p.after)

/-- Nothing but blanks is around the text. -/
structure Airy (p : Padded) : Prop where
  before : Gap p.before
  after : Gap p.after

end Padded

/-- A member of an object: what stands between the quotes of its key, and its value. -/
structure Member where
  key : Padded
  value : Padded

namespace Member

def whole (m : Member) : List Char :=
  m.key.before ++ '\x22' :: (m.key.text ++ '\x22' :: (m.key.after ++ ':' :: m.value.whole))

end Member

/-- Texts with commas between them. -/
def separated : List (List Char) → List Char
  | [] => []
  | text :: texts => text ++ texts.flatMap (',' :: ·)

/-- A value. -/
inductive Value : List Char → Prop
  | null : Value ['n', 'u', 'l', 'l']
  | yes : Value ['t', 'r', 'u', 'e']
  | no : Value ['f', 'a', 'l', 's', 'e']
  | number {s : List Char} (h : Number s) : Value s
  | string {s : List Char} (h : Body s) : Value ('\x22' :: (s ++ ['\x22']))
  | emptyArray {gap : List Char} (h : Gap gap) : Value ('[' :: (gap ++ [']']))
  | array {items : List Padded} (hne : items ≠ []) (hairy : ∀ p ∈ items, p.Airy)
      (hvalues : ∀ p ∈ items, Value p.text) :
      Value ('[' :: (separated (items.map Padded.whole) ++ [']']))
  | emptyObject {gap : List Char} (h : Gap gap) : Value ('\x7b' :: (gap ++ ['\x7d']))
  | object {members : List Member} (hne : members ≠ [])
      (hairy : ∀ m ∈ members, m.key.Airy ∧ m.value.Airy) (hkeys : ∀ m ∈ members, Body m.key.text)
      (hvalues : ∀ m ∈ members, Value m.value.text) :
      Value ('\x7b' :: (separated (members.map Member.whole) ++ ['\x7d']))

/-! ## Objects keyed by player -/

/-- A member of an object, and the player that its key names. -/
structure Line where
  member : Member
  player : String

/-- The key of a line unescapes to its player. -/
structure Line.Fits (e : Line) : Prop where
  key_airy : e.member.key.Airy
  value_airy : e.member.value.Airy
  key : Unescapes e.member.key.text e.player.toList
  value : Value e.member.value.text

/-- An object of some lines, in order. -/
inductive Roster : List Line → List Char → Prop
  | empty {before inner after : List Char} (hbefore : Gap before) (hinner : Gap inner)
      (hafter : Gap after) : Roster [] (before ++ '\x7b' :: (inner ++ '\x7d' :: after))
  | lines {before after : List Char} {lines : List Line} (hbefore : Gap before)
      (hafter : Gap after) (hne : lines ≠ []) (hfits : ∀ e ∈ lines, e.Fits) :
      Roster lines
        (before ++ '\x7b' :: (separated (lines.map (·.member.whole)) ++ '\x7d' :: after))

end Holdem.Json.Grammar
