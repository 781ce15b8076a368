import Holdem.Proofs.Table.Decks

/-!
# The order of a shuffled deck

A shuffle exchanges each place with a chosen one that is not behind it. `Shuffle.places` are the
places chosen, and `exchangeAll` does the exchanges.

* A number drawn below a bound is the part of it that two words of the stream say (`below_eq`), so
  it is below the bound.
* `chunkOf m` is the longest product of successive factors from `m` that fits a word
  (`chunkOf_eq`), so a number below it has a digit below each of its factors (`Choices.Due`).
* So every place is within reach, and no exchange is passed over (`shuffle_eq`, `places_le`).

**`Deck.shuffled`** says how a seed orders a deck, and that each of the 52 cards is in it once.
-/

namespace Holdem

namespace Shuffle

variable {α : Type} {stream : Nat → Nat}

/-! ## A number below a bound -/

/-- **A number drawn below `n`** is the part of `n` that two words of the stream are of all pairs of
words. The second is looked at only where the first leaves the number open. -/
theorem below_eq (hstream : ∀ i, stream i < wordSize) {n : Nat} (hpos : 0 < n)
    (hn : n ≤ wordSize) (i : Nat) : (below stream i n).1 =
      (stream i * wordSize + stream (i + 1)) * n / (wordSize * wordSize) := by
  have hword : 0 < wordSize := by decide
  have hnext : stream (i + 1) * n / wordSize < n :=
    Nat.div_lt_of_lt_mul (Nat.mul_lt_mul_of_pos_right (hstream (i + 1)) hpos)
  have hlow := Nat.mod_lt (stream i * n) hword
  have hparts := Nat.div_add_mod (stream i * n) wordSize
  -- the second word carries into the first
  have hcarry : (stream i * wordSize + stream (i + 1)) * n / (wordSize * wordSize) =
      stream i * n / wordSize +
        (stream i * n % wordSize + stream (i + 1) * n / wordSize) / wordSize :=
    calc (stream i * wordSize + stream (i + 1)) * n / (wordSize * wordSize)
        = (wordSize * (stream i * n) + stream (i + 1) * n) / wordSize / wordSize := by
          rw [Nat.div_div_eq_div_mul, Nat.add_mul, Nat.mul_right_comm,
            Nat.mul_comm wordSize (stream i * n)]
      _ = (stream i * n + stream (i + 1) * n / wordSize) / wordSize := by
          rw [Nat.mul_add_div hword]
      _ = (wordSize * (stream i * n / wordSize) +
            (stream i * n % wordSize + stream (i + 1) * n / wordSize)) / wordSize := by
          rw [← Nat.add_assoc, hparts]
      _ = _ := Nat.mul_add_div hword _ _
  rw [hcarry]
  unfold below
  dsimp only
  clear hcarry hparts
  generalize stream i * n % wordSize = low at hlow ⊢
  generalize stream (i + 1) * n / wordSize = next at hnext ⊢
  have hunder : low + next < wordSize → (low + next) / wordSize = 0 := Nat.div_eq_of_lt
  have hover : wordSize ≤ low + next → (low + next) / wordSize = 1 := fun h =>
    Nat.div_eq_of_lt_le (by omega) (by omega)
  split
  · split
    · rename_i h
      rw [hover h]
    · rename_i h
      rw [hunder (by omega), Nat.add_zero]
  · rw [hunder (by omega), Nat.add_zero]

theorem below_lt (hstream : ∀ i, stream i < wordSize) {n : Nat} (hpos : 0 < n)
    (hn : n ≤ wordSize) (i : Nat) : (below stream i n).1 < n := by
  have hpair : stream i * wordSize + stream (i + 1) < wordSize * wordSize := by
    have hfirst := Nat.mul_le_mul_right wordSize (Nat.le_sub_one_of_lt (hstream i))
    have hsecond := hstream (i + 1)
    have hwhole : (wordSize - 1) * wordSize + wordSize = wordSize * wordSize := rfl
    omega
  rw [below_eq hstream hpos hn]
  exact Nat.div_lt_of_lt_mul (Nat.mul_lt_mul_of_pos_right hpair hpos)

/-! ## Products that fit a word -/

/-- A product of factors from `m` on, taken as far as it fits a word or the fuel lasts. -/
theorem chunkFrom_eq {m : Nat} (fuel factors : Nat) (h : m.ascFactorial factors < wordSize) :
    ∃ k, chunkFrom fuel (m + factors) (m.ascFactorial factors) factors = (m.ascFactorial k, k) ∧
      factors ≤ k ∧ m.ascFactorial k < wordSize ∧
      (wordSize ≤ m.ascFactorial (k + 1) ∨ k = factors + fuel) := by
  induction fuel generalizing factors with
  | zero => exact ⟨factors, rfl, le_rfl, h, Or.inr rfl⟩
  | succ fuel ih =>
    have hnext : m.ascFactorial factors * (m + factors) = m.ascFactorial (factors + 1) := by
      rw [Nat.ascFactorial_succ, Nat.mul_comm]
    unfold chunkFrom
    rw [hnext]
    split
    · rename_i hfits
      obtain ⟨k, heq, hle, hk, hmost⟩ := ih (factors + 1) hfits
      exact ⟨k, heq, by omega, hk, hmost.imp_right (by omega)⟩
    · rename_i hfull
      exact ⟨factors, rfl, le_rfl, h, Or.inl (Nat.not_lt.mp hfull)⟩

/-- **The factors of a chunk** are as many as fit a word. -/
theorem chunkOf_eq {m : Nat} (hm : m < wordSize) :
    ∃ k, chunkOf m = (m.ascFactorial k, k) ∧ 1 ≤ k ∧ m.ascFactorial k < wordSize ∧
      (2 ≤ m → wordSize ≤ m.ascFactorial (k + 1)) := by
  have hone : m.ascFactorial 1 = m := by
    rw [Nat.ascFactorial_succ, Nat.ascFactorial_zero]
    omega
  obtain ⟨k, heq, hle, hk, hmost⟩ := chunkFrom_eq 32 1 (by rw [hone]; exact hm)
  rw [hone] at heq
  refine ⟨k, heq, hle, hk, fun h2 => hmost.resolve_right ?_⟩
  -- thirty-three factors of two or more do not fit
  rintro rfl
  have hpow : 2 ^ 33 ≤ m.ascFactorial (1 + 32) :=
    (Nat.pow_le_pow_left h2 33).trans (Nat.pow_succ_le_ascFactorial m 33)
  have hword : wordSize = 2 ^ 32 := rfl
  omega

/-! ## The places chosen -/

namespace Choices

/-- What is left of the number drawn last has a digit below each factor from `m` on. -/
def Due (c : Choices) (m : Nat) : Prop := c.left = 0 ∨ c.chunk < m.ascFactorial c.left

/-- The choices with another number drawn, if no digit is left. -/
def filled (stream : Nat → Nat) (c : Choices) (m : Nat) : Choices :=
  if c.left = 0 then
    ⟨c.next + (below stream c.next (chunkOf m).1).2, (below stream c.next (chunkOf m).1).1,
      (chunkOf m).2⟩
  else c

/-- The first digit, and what is left without it. -/
def spent (c : Choices) (m : Nat) : Nat × Choices :=
  if c.left = 1 then (c.chunk, ⟨c.next, c.chunk, 0⟩)
  else (c.chunk % m, ⟨c.next, c.chunk / m, c.left - 1⟩)

theorem choose_eq (c : Choices) (m : Nat) : c.choose stream m = (c.filled stream m).spent m := rfl

theorem filled_due (hstream : ∀ i, stream i < wordSize) {c : Choices} {m : Nat} (hpos : 0 < m)
    (hm : m < wordSize) (h : c.Due m) :
    (c.filled stream m).left ≠ 0 ∧
      (c.filled stream m).chunk < m.ascFactorial (c.filled stream m).left := by
  unfold filled
  split
  · obtain ⟨k, hchunk, hk, hword, -⟩ := chunkOf_eq hm
    have hproduct : 0 < m.ascFactorial k := by
      obtain ⟨m, rfl⟩ := Nat.exists_eq_add_of_lt hpos
      exact Nat.ascFactorial_pos _ k
    rw [hchunk]
    exact ⟨by show k ≠ 0; omega, below_lt hstream hproduct hword.le c.next⟩
  · rename_i hleft
    exact ⟨hleft, h.resolve_left hleft⟩

/-- A digit is below its factor, and the others are below theirs. -/
theorem spent_due {c : Choices} {m : Nat} (hpos : 0 < m) (hleft : c.left ≠ 0)
    (h : c.chunk < m.ascFactorial c.left) :
    (c.spent m).1 < m ∧ (c.spent m).2.Due (m + 1) := by
  unfold spent
  split
  · rename_i hone
    rw [hone, Nat.ascFactorial_succ, Nat.ascFactorial_zero] at h
    exact ⟨by show c.chunk < m; omega, Or.inl rfl⟩
  · obtain ⟨k, hk⟩ := Nat.exists_eq_succ_of_ne_zero hleft
    rw [hk, Nat.ascFactorial_succ, ← Nat.succ_ascFactorial] at h
    refine ⟨Nat.mod_lt _ hpos, Or.inr ?_⟩
    show c.chunk / m < (m + 1).ascFactorial (c.left - 1)
    rw [hk]
    exact Nat.div_lt_of_lt_mul h

/-- **A choice is below its bound.** -/
theorem choose_due (hstream : ∀ i, stream i < wordSize) {c : Choices} {m : Nat} (hpos : 0 < m)
    (hm : m < wordSize) (h : c.Due m) :
    (c.choose stream m).1 < m ∧ (c.choose stream m).2.Due (m + 1) := by
  obtain ⟨hleft, hchunk⟩ := filled_due hstream hpos hm h
  rw [choose_eq]
  exact spent_due hpos hleft hchunk

theorem start_due : start.Due 1 := Or.inr Nat.one_pos

end Choices

/-- The places chosen for `n` places from `i` on. -/
def placesFrom (stream : Nat → Nat) : Nat → Nat → Choices → List Nat
  | 0, _, _ => []
  | n + 1, i, c =>
    (c.choose stream (i + 1)).1 :: placesFrom stream n (i + 1) (c.choose stream (i + 1)).2

/-- The places chosen for `n` places. -/
def places (stream : Nat → Nat) (n : Nat) : List Nat := placesFrom stream n 0 .start

/-- Exchanges the places from `i` on with some others, one after the other. -/
def exchangeAll : Nat → List Nat → Array α → Array α
  | _, [], xs => xs
  | i, j :: js, xs => exchangeAll (i + 1) js (xs.swapIfInBounds i j)

theorem shuffleFrom_eq (n i : Nat) (c : Choices) (xs : Array α) :
    shuffleFrom stream n i c xs = exchangeAll i (placesFrom stream n i c) xs := by
  induction n generalizing i c xs with
  | zero => rfl
  | succ n ih => exact ih _ _ _

theorem length_placesFrom (n i : Nat) (c : Choices) : (placesFrom stream n i c).length = n := by
  induction n generalizing i c with
  | zero => rfl
  | succ n ih =>
    unfold placesFrom
    rw [List.length_cons, ih]

/-- **No place is chosen that is behind its own.** -/
theorem placesFrom_le (hstream : ∀ i, stream i < wordSize) {n i : Nat} {c : Choices}
    (hn : i + n < wordSize) (h : c.Due (i + 1)) {k j : Nat}
    (hj : (placesFrom stream n i c)[k]? = some j) : j ≤ i + k := by
  induction n generalizing i c k with
  | zero => cases hj
  | succ n ih =>
    obtain ⟨hlt, hdue⟩ := Choices.choose_due hstream (Nat.succ_pos i) (by omega) h
    cases k with
    | zero =>
      cases hj
      exact Nat.le_of_lt_succ hlt
    | succ k =>
      have := ih (by omega) hdue hj
      omega

theorem places_le (hstream : ∀ i, stream i < wordSize) {n : Nat} (hn : n < wordSize) {k j : Nat}
    (hj : (places stream n)[k]? = some j) : j ≤ k := by
  have := placesFrom_le hstream (by omega) Choices.start_due hj
  omega

/-- **A shuffle exchanges each place with the one chosen for it.** -/
theorem shuffle_eq (xs : List α) :
    shuffle stream xs = (exchangeAll 0 (places stream xs.length) xs.toArray).toList := by
  unfold shuffle places
  rw [shuffleFrom_eq]

/-! ## Exchanges lose nothing -/

theorem perm_swapIfInBounds (xs : Array α) (i j : Nat) :
    (xs.swapIfInBounds i j).toList.Perm xs.toList := by
  rw [Array.swapIfInBounds_def]
  split
  · split
    · exact Array.perm_iff_toList_perm.mp (Array.swap_perm _ _)
    · exact .rfl
  · exact .rfl

theorem perm_exchangeAll (i : Nat) (js : List Nat) (xs : Array α) :
    (exchangeAll i js xs).toList.Perm xs.toList := by
  induction js generalizing i xs with
  | nil => exact .rfl
  | cons j js ih => exact (ih _ _).trans (perm_swapIfInBounds xs i j)

end Shuffle

theorem Keystream.word_lt (key : List UInt32) (i : Nat) : word key i < Shuffle.wordSize :=
  UInt32.toNat_lt _

namespace Deck

/-- The words that a seed gives. -/
def words (seed : UInt64) : Nat → Nat := Keystream.word (Keystream.keyOfSeed seed)

/-- The places that a seed chooses for the cards of a deck. -/
def places (seed : UInt64) : List Nat := Shuffle.places (words seed) 52

/-- **How a seed orders a deck.** -/
structure Shuffled (seed : UInt64) : Prop where
  /-- A number below `n` is a fixed part of `n`, which two words say. -/
  number : ∀ i n, 0 < n → n ≤ Shuffle.wordSize → (Shuffle.below (words seed) i n).1 =
    (words seed i * Shuffle.wordSize + words seed (i + 1)) * n /
      (Shuffle.wordSize * Shuffle.wordSize)
  /-- One number makes as many choices as have a product of bounds that fits a word. -/
  chunk : ∀ m, 2 ≤ m → m < Shuffle.wordSize → ∃ k, Shuffle.chunkOf m = (m.ascFactorial k, k) ∧
    m.ascFactorial k < Shuffle.wordSize ∧ Shuffle.wordSize ≤ m.ascFactorial (k + 1)
  /-- There is a choice for each card. -/
  length : (places seed).length = 52
  /-- No place is exchanged with one behind it. -/
  reach : ∀ i j : Nat, (places seed)[i]? = some j → j ≤ i
  /-- The deck is drawn from the end of what the exchanges make of all cards in order. -/
  order : (ofSeed seed).cards.reverse =
    (Shuffle.exchangeAll 0 (places seed) Card.all.toArray).toList
  /-- Nothing is lost and nothing is there twice. -/
  perm : (ofSeed seed).cards.Perm Card.all

theorem shuffled (seed : UInt64) : Shuffled seed := by
  have hwords : ∀ i, words seed i < Shuffle.wordSize := Keystream.word_lt _
  have horder : (ofSeed seed).cards.reverse =
      (Shuffle.exchangeAll 0 (places seed) Card.all.toArray).toList := by
    unfold ofSeed places words
    rw [List.reverse_reverse, Shuffle.shuffle_eq, Card.length_all]
  have hperm := Shuffle.perm_exchangeAll 0 (places seed) Card.all.toArray
  rw [← horder] at hperm
  refine ⟨fun i n hpos hn => Shuffle.below_eq hwords hpos hn i, fun m h2 hm => ?_,
    Shuffle.length_placesFrom _ _ _, fun i j => Shuffle.places_le hwords (by decide), horder,
    (List.reverse_perm _).symm.trans hperm⟩
  obtain ⟨k, hchunk, -, hfits, hmost⟩ := Shuffle.chunkOf_eq hm
  exact ⟨k, hchunk, hfits, hmost h2⟩

theorem nodup_ofSeed (seed : UInt64) : (ofSeed seed).cards.Nodup :=
  (shuffled seed).perm.nodup_iff.mpr Card.nodup_all

theorem mem_ofSeed (seed : UInt64) (c : Card) : c ∈ (ofSeed seed).cards :=
  (shuffled seed).perm.mem_iff.mpr (Card.mem_all c)

end Deck

end Holdem
