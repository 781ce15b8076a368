import Holdem.Proofs.Hand.BestFive
import Holdem.Proofs.Hand.Symmetry
import Holdem.Proofs.Table.Decks

/-!
# Ranks held several times

A card that is dealt again is dealt all the same, so the seven cards of a showdown may hold a rank
up to seven times. `evaluate` groups the ranks by how often they are held exactly, and looks at the
groups of four, three and two.

* `answer? cards c` is what the function of the category `c` finds. `evaluate` is the answer of the
  highest category that has one (`highest_evaluate`).
* `Credits cards c` says that the category `c` is no lower than what the cards of any one rank make.
  A rank in one of the groups is credited (`credits_of_count_le_four`).
* Beside a rank held five times or more there are two cards, too few for another group than a pair
  and too few for a straight (`answer_of_crowd`). The rank itself is in no group, so it is passed
  over (`passedOver_of_crowd`).

Results:
* **`evaluate_credits_iff`**: seven cards are given what they are worth by their ranks unless one of
  these is held five times or more; what they are given then.
* **`five_aces_lose`**: a showdown that is lost with five aces.
-/

namespace Holdem

namespace Hand

variable {cards : List Card} {c : Category} {v : Strength} {shape us : List Nat}
  {r r' k l high : Nat}

/-- A category that is no lower than what the cards of one rank make, whichever rank it is. -/
structure Credits (cards : List Card) (c : Category) : Prop where
  two : ∀ r, 2 ≤ count cards r → Category.onePair.level ≤ c.level
  three : ∀ r, 3 ≤ count cards r → Category.threeOfAKind.level ≤ c.level
  four : ∀ r, 4 ≤ count cards r → Category.fourOfAKind.level ≤ c.level

/-- The category of cards in which a rank is passed over: what their suits make, or else a pair of
another rank. -/
structure PassedOver (cards : List Card) (c : Category) : Prop where
  flush : (∃ s, 5 ≤ (suited cards s).length) → c = .flush
  pair : (∀ s, (suited cards s).length < 5) → (∃ r, count cards r = 2) → c = .onePair
  neither : (∀ s, (suited cards s).length < 5) → (∀ r, count cards r ≠ 2) → c = .highCard

/-! ## The highest category that answers -/

/-- What the function of a category finds; any cards make a high card. -/
def answer? (cards : List Card) : Category → Option Strength
  | .straightFlush => straightFlush? cards
  | .fourOfAKind => fourOfAKind? cards
  | .fullHouse => fullHouse? cards
  | .flush => flush? cards
  | .straight => straight? cards
  | .threeOfAKind => threeOfAKind? cards
  | .twoPair => twoPair? cards
  | .onePair => onePair? cards
  | .highCard => some (highCard cards)

theorem category_of_answer? (h : answer? cards c = some v) : v.category = c := by
  cases c with
  | straightFlush =>
    obtain ⟨s, -, h⟩ := Option.bind_eq_some_iff.mp h
    obtain ⟨high, -, rfl⟩ := Option.map_eq_some_iff.mp h
    rfl
  | fullHouse =>
    simp only [answer?, fullHouse?] at h
    split at h
    · cases h
    · obtain ⟨p, -, rfl⟩ := Option.map_eq_some_iff.mp h
      rfl
  | twoPair =>
    simp only [answer?, twoPair?] at h
    split at h
    · cases h
      rfl
    · cases h
  | highCard =>
    cases h
    rfl
  | _ =>
    obtain ⟨x, -, rfl⟩ := Option.map_eq_some_iff.mp h
    rfl

/-- The answer of the highest category that has one, among those up to some level. -/
structure Highest (cards : List Card) (l : Nat) (v : Strength) : Prop where
  answered : answer? cards v.category = some v
  most : ∀ c, c.level ≤ l → (answer? cards c).isSome → c.level ≤ v.category.level

/-- One category after the other: a higher one that answers goes before those below it. -/
theorem Highest.step (hlevel : c.level = l + 1) (hrest : Highest cards l v) :
    Highest cards (l + 1) ((answer? cards c).getD v) := by
  cases hc : answer? cards c with
  | none =>
    refine ⟨hrest.answered, fun c' hle hsome => ?_⟩
    rcases hle.lt_or_eq with hlt | heq
    · exact hrest.most c' (Nat.le_of_lt_succ hlt) hsome
    · cases Category.level_injective (heq.trans hlevel.symm)
      rw [hc] at hsome
      cases hsome
  | some w =>
    have hcategory := category_of_answer? hc
    rw [Option.getD_some]
    refine ⟨by rw [hcategory, hc], fun c' hle _ => ?_⟩
    rw [hcategory, hlevel]
    exact hle

/-- **`evaluate` is the answer of the highest category** that has one. -/
theorem highest_evaluate (cards : List Card) : Highest cards 8 (evaluate cards) := by
  -- the functions are asked from above, their answers are put together from below
  have hhigh : Highest cards 0 (highCard cards) := ⟨rfl, fun _ hle _ => hle⟩
  have hpairs := (hhigh.step (c := .onePair) rfl).step (c := .twoPair) rfl
  have hruns := (hpairs.step (c := .threeOfAKind) rfl).step (c := .straight) rfl
  have hfull := (hruns.step (c := .flush) rfl).step (c := .fullHouse) rfl
  rw [evaluate_eq]
  exact (hfull.step (c := .fourOfAKind) rfl).step (c := .straightFlush) rfl

theorem level_le_evaluate (h : (answer? cards c).isSome) :
    c.level ≤ (evaluate cards).category.level :=
  (highest_evaluate cards).most c (by cases c <;> decide) h

/-- A category that answers rules out those below it. -/
theorem category_ne_of_lt {c' : Category} (h : (answer? cards c).isSome)
    (hlt : c'.level < c.level) : (evaluate cards).category ≠ c' := by
  rintro rfl
  exact (level_le_evaluate h).not_gt hlt

/-! ## Ranks in groups -/

/-- The first rank of a group, if some rank is held exactly so often. -/
theorem isSome_head_held {f : Nat → Strength} (hk : 0 < k) :
    ((held cards k).head?.map f).isSome ↔ ∃ r, count cards r = k := by
  rw [Option.isSome_map, List.isSome_head?]
  constructor
  · intro hne
    obtain ⟨r, hr⟩ := List.exists_mem_of_ne_nil _ hne
    exact ⟨r, (mem_held hk).mp hr⟩
  · rintro ⟨r, hr⟩
    exact List.ne_nil_of_mem ((mem_held hk).mpr hr)

/-- What holds of a rank that is not held and of each rank in turn holds of them all. -/
theorem forall_count {p : Nat → Prop} (hzero : p 0) (hp : ∀ r ∈ ranksDown, p (count cards r))
    (r : Nat) : p (count cards r) := by
  rcases Nat.eq_zero_or_pos (count cards r) with hr | hr
  · rwa [hr]
  · exact hp r (mem_ranksDown_of_count hr)

/-- **Ranks held four times at most** are all credited. -/
theorem credits_of_count_le_four (hmost : ∀ r, count cards r ≤ 4) :
    Credits cards (evaluate cards).category := by
  have hlow : Category.onePair.level ≤ Category.threeOfAKind.level := by decide
  have hhigh : Category.threeOfAKind.level ≤ Category.fourOfAKind.level := by decide
  have hfour : ∀ r, count cards r = 4 →
      Category.fourOfAKind.level ≤ (evaluate cards).category.level := fun r hr =>
    level_le_evaluate ((isSome_head_held (by decide)).mpr ⟨r, hr⟩)
  have hthree : ∀ r, 3 ≤ count cards r →
      Category.threeOfAKind.level ≤ (evaluate cards).category.level := by
    intro r hr
    rcases hr.lt_or_eq with hlt | heq
    · exact hhigh.trans (hfour r ((hmost r).antisymm hlt))
    · exact level_le_evaluate ((isSome_head_held (by decide)).mpr ⟨r, heq.symm⟩)
  refine ⟨fun r hr => ?_, hthree, fun r hr => hfour r ((hmost r).antisymm hr)⟩
  rcases hr.lt_or_eq with hlt | heq
  · exact hlow.trans (hthree r hlt)
  · exact level_le_evaluate ((isSome_head_held (by decide)).mpr ⟨r, heq.symm⟩)

/-! ## Beside a rank held five times

Such a rank crowds out the others: of seven cards it leaves them two. -/

section Crowd

variable (hlen : cards.length = 7) (hr : 5 ≤ count cards r)

include hlen hr

/-- Other ranks have two cards between them. -/
theorem Picks.sum_le_two (h : Picks (count cards) shape us) (hnew : r ∉ us) : shape.sum ≤ 2 := by
  have hall : Picks (count cards) (5 :: shape) (r :: us) :=
    ⟨List.nodup_cons.mpr ⟨hnew, h.nodup⟩, .cons hr h.enough⟩
  have hle := hall.sum_le
  rw [List.sum_cons] at hle
  omega

theorem count_ne_of_crowd (h3 : 3 ≤ k) (h4 : k ≤ 4) (r' : Nat) : count cards r' ≠ k := by
  intro hcount
  have hpick : Picks (count cards) [k] [r'] := ⟨List.nodup_singleton r', .cons hcount.ge .nil⟩
  have hle := hpick.sum_le_two hlen hr fun hmem => by
    rw [← List.mem_singleton.mp hmem] at hcount
    omega
  rw [List.sum_singleton] at hle
  omega

/-- A straight needs four other ranks. -/
theorem not_isRun_of_crowd : ¬ IsRun cards high := by
  intro hrun
  obtain ⟨hsorted, hlength, -⟩ := runDown_spec high hrun.1
  have hnodup : (runDown high).Nodup := hsorted.imp fun hlt => hlt.ne'
  have hothers : Picks (count cards) (((runDown high).erase r).map fun _ => 1)
      ((runDown high).erase r) := by
    refine ⟨hnodup.erase r, List.forall₂_map_left_iff.mpr (List.forall₂_same.mpr fun x hx => ?_)⟩
    exact hrun.2 x ((List.perm_insertionSort _ _).mem_iff.mp (List.mem_of_mem_erase hx))
  have hle := hothers.sum_le_two hlen hr hnodup.not_mem_erase
  -- the rank itself is one of the five at most
  have hfour : (runDown high).length - 1 ≤ ((runDown high).erase r).length := List.le_length_erase
  rw [List.map_const', List.sum_replicate_nat] at hle
  omega

theorem twoPair?_of_crowd : twoPair? cards = none := by
  unfold twoPair?
  split
  · rename_i p q rest hheld
    have hsorted := hheld ▸ pairwise_held cards 2
    have hcount : ∀ x ∈ [p, q], count cards x = 2 := fun x hx =>
      (mem_held (by decide)).mp (hheld ▸ List.mem_append_left rest hx)
    have hne : p ≠ q := ((List.pairwise_cons.mp hsorted).1 q List.mem_cons_self).ne'
    have hpicks : Picks (count cards) [2, 2] [p, q] :=
      ⟨List.nodup_cons.mpr ⟨fun hpq => hne (List.mem_singleton.mp hpq), List.nodup_singleton q⟩,
        .cons (hcount p (by simp)).ge (.cons (hcount q (by simp)).ge .nil)⟩
    have hle := hpicks.sum_le_two hlen hr fun hmem => by
      have := hcount r hmem
      omega
    exact absurd hle (by decide)
  · rfl

/-- **What can answer** beside a rank held five times. -/
theorem answer_of_crowd (h : (answer? cards c).isSome) :
    c = .flush ∨ c = .onePair ∨ c = .highCard := by
  have hgroup {k : Nat} (h3 : 3 ≤ k) (h4 : k ≤ 4) := count_ne_of_crowd hlen hr h3 h4
  cases c with
  | straightFlush =>
    obtain ⟨v, hv⟩ := Option.isSome_iff_exists.mp h
    obtain ⟨s, -, hv⟩ := Option.bind_eq_some_iff.mp hv
    obtain ⟨high, hhigh, -⟩ := Option.map_eq_some_iff.mp hv
    rw [hasSuited_eq] at hhigh
    have hrun := (isRun_of_straightHigh? hhigh).1.mono (suited_sublist cards s)
    exact absurd hrun (not_isRun_of_crowd hlen hr)
  | straight =>
    obtain ⟨v, hv⟩ := Option.isSome_iff_exists.mp h
    obtain ⟨high, hhigh, -⟩ := Option.map_eq_some_iff.mp hv
    exact absurd (isRun_of_straightHigh? hhigh).1 (not_isRun_of_crowd hlen hr)
  | fourOfAKind =>
    obtain ⟨q, hq⟩ := (isSome_head_held (by decide)).mp h
    exact absurd hq (hgroup (by decide) (by decide) q)
  | threeOfAKind =>
    obtain ⟨t, ht⟩ := (isSome_head_held (by decide)).mp h
    exact absurd ht (hgroup (by decide) (by decide) t)
  | fullHouse =>
    simp only [answer?, fullHouse?] at h
    split at h
    · cases h
    · rename_i t others hheld
      have ht := (mem_held (by decide)).mp (hheld ▸ List.mem_cons_self)
      exact absurd ht (hgroup (by decide) (by decide) t)
  | twoPair =>
    rw [answer?, twoPair?_of_crowd hlen hr] at h
    cases h
  | flush => exact .inl rfl
  | onePair => exact .inr (.inl rfl)
  | highCard => exact .inr (.inr rfl)

theorem category_of_crowd : (evaluate cards).category = .flush ∨
    (evaluate cards).category = .onePair ∨ (evaluate cards).category = .highCard :=
  answer_of_crowd hlen hr (Option.isSome_of_eq_some (highest_evaluate cards).answered)

/-- **A rank held five times or more** is passed over. -/
theorem passedOver_of_crowd : PassedOver cards (evaluate cards).category := by
  have hanswer := (highest_evaluate cards).answered
  have hcase := category_of_crowd hlen hr
  have hflush : (∀ s, (suited cards s).length < 5) → (evaluate cards).category ≠ .flush := by
    intro hfew hc
    rw [hc] at hanswer
    obtain ⟨s, hs, -⟩ := Option.map_eq_some_iff.mp hanswer
    exact (length_suited hs).not_gt (hfew s)
  -- of the three categories that can answer, each that does rules out the lower ones
  refine ⟨?_, fun hfew hpair => ?_, fun hfew hno => ?_⟩
  · rintro ⟨s, hs⟩
    have hsome : (answer? cards .flush).isSome := by
      rw [answer?, flush?, flushSuit?_eq (by omega) hs]
      rfl
    rcases hcase with hc | hc | hc
    · exact hc
    · exact absurd hc (category_ne_of_lt hsome (by decide))
    · exact absurd hc (category_ne_of_lt hsome (by decide))
  · have hsome : (answer? cards .onePair).isSome := (isSome_head_held (by decide)).mpr hpair
    rcases hcase with hc | hc | hc
    · exact absurd hc (hflush hfew)
    · exact hc
    · exact absurd hc (category_ne_of_lt hsome (by decide))
  · rcases hcase with hc | hc | hc
    · exact absurd hc (hflush hfew)
    · rw [hc] at hanswer
      obtain ⟨r', hr'⟩ := (isSome_head_held (by decide)).mp (Option.isSome_of_eq_some hanswer)
      exact absurd hr' (hno r')
    · exact hc

/-- None of the categories that are left is four of a kind or higher. -/
theorem not_credits_of_crowd : ¬ Credits cards (evaluate cards).category := by
  intro hcredits
  have hle := hcredits.four r (by omega)
  rcases category_of_crowd hlen hr with hc | hc | hc <;>
  · rw [hc] at hle
    exact absurd hle (by decide)

end Crowd

/-- **What ranks held several times are worth.** Seven cards, some of them perhaps the same, are at
least a pair if they hold a rank twice, three of a kind if three times and four of a kind if four
times, just as long as they hold no rank five times.

A rank held five times or more is passed over: the cards are a flush if five of them are of one
suit, else a pair if the two others are one, and else a high card. -/
theorem evaluate_credits_iff (cards : List Card) (hlen : cards.length = 7) :
    (Credits cards (evaluate cards).category ↔ ∀ r, count cards r ≤ 4) ∧
    ∀ r, 5 ≤ count cards r → PassedOver cards (evaluate cards).category := by
  refine ⟨⟨fun hcredits r => ?_, credits_of_count_le_four⟩, fun r hr => passedOver_of_crowd hlen hr⟩
  by_contra hmore
  exact not_credits_of_crowd hlen (not_le.mp hmore) hcredits

/-- The two of spades is dealt four times. -/
def fourTwos : List Card :=
  [⟨.two, .spades⟩, ⟨.two, .spades⟩, ⟨.two, .spades⟩, ⟨.two, .spades⟩, ⟨.king, .spades⟩,
    ⟨.jack, .spades⟩, ⟨.nine, .spades⟩]

/-- The ace of spades is dealt twice and each other ace once. -/
def fiveAces : List Card :=
  [⟨.ace, .spades⟩, ⟨.ace, .diamonds⟩, ⟨.ace, .clubs⟩, ⟨.ace, .hearts⟩, ⟨.ace, .spades⟩,
    ⟨.king, .diamonds⟩, ⟨.nine, .clubs⟩]

/-- Four twos in a flush are four of a kind at least. Five aces are a high card. -/
theorem evaluate_credits_iff_repeated :
    fourTwos.length = 7 ∧ Credits fourTwos (evaluate fourTwos).category ∧
      fiveAces.length = 7 ∧ ¬ Credits fiveAces (evaluate fiveAces).category ∧
      count fiveAces 14 = 5 ∧ (evaluate fiveAces).category = .highCard := by
  obtain ⟨htwos, -⟩ := evaluate_credits_iff fourTwos rfl
  obtain ⟨haces, hpassed⟩ := evaluate_credits_iff fiveAces rfl
  refine ⟨rfl, htwos.mpr ?_, rfl, fun h => ?_, by decide, (hpassed 14 (by decide)).neither ?_ ?_⟩
  · exact forall_count (p := (· ≤ 4)) (by decide) (by decide)
  · exact absurd (haces.mp h 14) (by decide)
  · intro s
    cases s <;> decide
  · exact forall_count (p := (· ≠ 2)) (by decide) (by decide)

end Hand

/-- Two players check and call to the end. The board shows three aces, one of them again. -/
def threeAcesOnBoard : List Move :=
  [.hole 0 ⟨.ace, .spades⟩ ⟨.ace, .diamonds⟩, .hole 1 ⟨.king, .clubs⟩ ⟨.two, .hearts⟩,
    .checkOrCall, .checkOrCall,
    .burn, .board ⟨.ace, .clubs⟩, .board ⟨.ace, .hearts⟩, .board ⟨.ace, .spades⟩,
    .checkOrCall, .checkOrCall, .burn, .board ⟨.king, .diamonds⟩, .checkOrCall, .checkOrCall,
    .burn, .board ⟨.nine, .clubs⟩, .checkOrCall, .checkOrCall]

/-- **Five aces lose** to the three on the board: they are ranked as a high card, a king at that. -/
theorem five_aces_lose : ∃ turns t,
    Run .standard [1000, 1000] turns t ∧ t.isComplete = true ∧
      t.faceUp 0 = some Hand.fiveAces ∧ Hand.count Hand.fiveAces 14 = 5 ∧
      ¬ Hand.Credits Hand.fiveAces (Hand.evaluate Hand.fiveAces).category ∧
      t.strength 0 = some ⟨.highCard, [13, 9, 0, 0, 0]⟩ ∧ t.seats.map (·.payoff) = [-40, 40] := by
  obtain ⟨turns, t, d, hrun, ⟨hcomplete, hshown, hstrength, hpaid⟩, -⟩ :=
    exists_run .standard [1000, 1000] threeAcesOnBoard
      (fun t => t.isComplete = true ∧ t.faceUp 0 = some Hand.fiveAces ∧
        t.strength 0 = some ⟨.highCard, [13, 9, 0, 0, 0]⟩ ∧ t.seats.map (·.payoff) = [-40, 40])
      ⟨by decide, by decide, by decide⟩ (by decide +kernel) (by decide)
  exact ⟨turns, _, hrun, hcomplete, hshown, by decide,
    fun hcredits => absurd (hcredits.four 14 (by decide)) (by decide), hstrength, hpaid⟩

end Holdem
