/-!
# White space and cutting text

How the texts of the program are cut: the trimming, splitting and searching of strings.

* `isBlank` is the class of characters that Unicode calls white space, and `trim` takes a run of
  them off both ends of a text.
* `pieces` cuts a text at every character of a class and keeps empty pieces; `words` cuts at white
  space and drops them.
* `occurs w s` says whether `w` stands somewhere in `s`.

Nothing is lost by a cut: `flatten_pieces` puts the pieces at a given character back together.
-/

namespace Holdem.Text

/-- The characters with the Unicode property White_Space. -/
def isBlank (c : Char) : Bool :=
  let n := c.toNat
  (9 ≤ n && n ≤ 13) || n == 0x20 || n == 0x85 || n == 0xA0 || n == 0x1680 ||
    (0x2000 ≤ n && n ≤ 0x200A) || n == 0x2028 || n == 0x2029 || n == 0x202F || n == 0x205F ||
    n == 0x3000

/-- A text without the white space at its front. -/
def trimLeft (s : List Char) : List Char := s.dropWhile isBlank

/-- A text without the white space at its end. -/
def trimRight (s : List Char) : List Char := (s.reverse.dropWhile isBlank).reverse

/-- A text without the white space around it. -/
def trim (s : List Char) : List Char := trimRight (trimLeft s)

/-- The pieces of a text between the characters of a class; there is always at least one. -/
def pieces (at' : Char → Bool) : List Char → List (List Char)
  | [] => [[]]
  | c :: s =>
    if at' c then [] :: pieces at' s
    else
      match pieces at' s with
      | [] => [[c]]
      | w :: ws => (c :: w) :: ws

theorem pieces_ne_nil (at' : Char → Bool) (s : List Char) : pieces at' s ≠ [] := by
  cases s with
  | nil => simp [pieces]
  | cons c s => unfold pieces; split <;> try split
                all_goals simp

/-- The pieces at a character, joined by it again, are the text. -/
theorem flatten_pieces (d : Char) (s : List Char) :
    ((pieces (· == d) s).intersperse [d]).flatten = s := by
  induction s with
  | nil => rfl
  | cons c s ih =>
    unfold pieces
    obtain ⟨w, ws, h⟩ := List.exists_cons_of_ne_nil (pieces_ne_nil (· == d) s)
    rw [h] at ih ⊢
    by_cases hc : c = d
    · simp [hc, ← ih]
    · simp only [beq_iff_eq, hc, if_false]
      cases ws <;> simp_all

/-- The words of a text: its longest runs without white space. -/
def words (s : List Char) : List (List Char) :=
  (pieces isBlank s).filter (· ≠ [])

/-- Whether `w` stands somewhere in a text. -/
def occurs (w : List Char) : List Char → Bool
  | [] => w.isEmpty
  | c :: s => w.isPrefixOf (c :: s) || occurs w s

end Holdem.Text
