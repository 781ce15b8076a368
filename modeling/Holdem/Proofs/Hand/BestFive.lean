import Holdem.Proofs.Hand.Held

/-!
# The best five of seven cards

`evaluate` looks at no five cards: it counts ranks and suits. It finds the best five all the same.

* `Makes cards c us` says that some of the cards make a hand of category `c` with the tie-breakers
  `us`. Five cards make what they are ranked as (`makes_rankFive`), and so do more cards of which
  they are some (`Makes.mono`).
* Each category has a function of its own, which is asked if those of higher categories found
  nothing. It answers with the best hand of its category, or with nothing if there is none
  (`Settles`).
* The answers are put together from the strongest category down (`Settles.or`).

Result: **`evaluate_eq_best`**, that the strength of seven distinct cards is the greatest among the
strengths of the 21 hands of five cards in them.
-/

namespace Holdem.Hand

variable {cards hand : List Card} {shape ranks us : List Nat} {high l : Nat} {c : Category}

/-! ## Straights -/

/-- The ranks of a straight by its high end; the ace stands below the two. -/
def run (high : Nat) : List Nat :=
  [high, high - 1, high - 2, high - 3, high - 4].map fun r => if r = 1 then 14 else r

/-- The high ends of straights, highest first. -/
def highs : List Nat := [14, 13, 12, 11, 10, 9, 8, 7, 6, 5]

/-- The ranks of a straight, highest first. -/
def runDown (high : Nat) : List Nat := (run high).insertionSort (· ≥ ·)

/-- Whether the cards hold all ranks of a straight. -/
def IsRun (cards : List Card) (high : Nat) : Prop := high ∈ highs ∧ ∀ r ∈ run high, 1 ≤ count cards r

theorem runDown_spec : ∀ high ∈ highs, (runDown high).Pairwise (· > ·) ∧
    (runDown high).length = 5 ∧ straightTop? (runDown high) = some high := by decide

theorem straightHigh?_eq (cards : List Card) :
    straightHigh? (has cards) = highs.find? fun high => (run high).all (has cards) := rfl

theorem isRun_iff : IsRun cards high ↔ high ∈ highs ∧ (run high).all (has cards) = true := by
  unfold IsRun
  simp only [List.all_eq_true, has_iff]

theorem isRun_of_straightHigh? (h : straightHigh? (has cards) = some high) :
    IsGreatest {high | IsRun cards high} high := by
  rw [straightHigh?_eq] at h
  obtain ⟨hall, before, after, hsplit, hbefore⟩ := List.find?_eq_some_iff_append.mp h
  have hsorted : (before ++ high :: after).Pairwise (· > ·) := hsplit ▸ by decide
  refine ⟨isRun_iff.mpr ⟨by rw [hsplit]; simp, hall⟩, fun high' hrun => ?_⟩
  obtain ⟨hmem, hall'⟩ := isRun_iff.mp hrun
  rw [hsplit, List.mem_append, List.mem_cons] at hmem
  rcases hmem with hmem | rfl | hmem
  · exact absurd hall' (by simpa using hbefore _ hmem)
  · exact le_refl _
  · exact ((List.pairwise_cons.mp (List.pairwise_append.mp hsorted).2.1).1 _ hmem).le

theorem not_isRun_of_straightHigh? (h : straightHigh? (has cards) = none) (high : Nat) :
    ¬ IsRun cards high := by
  rw [straightHigh?_eq, List.find?_eq_none] at h
  exact fun hrun => h high hrun.1 (isRun_iff.mp hrun).2

/-- Ranks in sequence are those of a straight. -/
theorem isRun_of_straightTop? (hmem : ∀ r ∈ ranks, 1 ≤ count cards r)
    (h : straightTop? ranks = some high) : IsRun cards high := by
  have hfive : ∀ e ∈ ranksDown, e + 4 ∈ ranksDown →
      e + 4 ∈ highs ∧ ∀ r ∈ run (e + 4), r ∈ [e + 4, e + 3, e + 2, e + 1, e] := by decide
  unfold straightTop? at h
  split at h
  · cases h
    exact ⟨by decide, fun r hr => hmem r (by revert r; decide)⟩
  · rename_i a b c d e _
    split at h
    · rename_i hseq
      obtain ⟨rfl, rfl, rfl, rfl⟩ := hseq
      cases h
      have hrank : ∀ r ∈ [e + 4, e + 3, e + 2, e + 1, e], r ∈ ranksDown := fun r hr =>
        mem_ranksDown_of_count (hmem r hr)
      obtain ⟨hhigh, hrun⟩ := hfive e (hrank e (by simp)) (hrank _ (by simp))
      exact ⟨hhigh, fun r hr => hmem r (hrun r hr)⟩
    · cases h
  · cases h

/-! ## Hands that cards make -/

/-- What some of the cards make: a hand of a category with some tie-breakers. -/
def Makes (cards : List Card) : Category → List Nat → Prop
  | .straightFlush, us => ∃ s high, us = [high] ∧ IsRun (suited cards s) high
  | .fourOfAKind, us => Picks (count cards) [4, 1] us
  | .fullHouse, us => Picks (count cards) [3, 2] us
  | .flush, us => ∃ s, Picks (count (suited cards s)) [1, 1, 1, 1, 1] us
  | .straight, us => ∃ high, us = [high] ∧ IsRun cards high
  | .threeOfAKind, us => Picks (count cards) [3, 1, 1] us
  | .twoPair, us => Picks (count cards) [2, 2, 1] us
  | .onePair, us => Picks (count cards) [2, 1, 1, 1] us
  | .highCard, us => Picks (count cards) [1, 1, 1, 1, 1] us

theorem IsRun.mono (h : hand.Sublist cards) (hrun : IsRun hand high) : IsRun cards high :=
  ⟨hrun.1, fun r hr => (hrun.2 r hr).trans (count_mono h r)⟩

theorem suited_mono (h : hand.Sublist cards) (s : Suit) :
    (suited hand s).Sublist (suited cards s) := h.filter _

theorem Makes.mono (h : hand.Sublist cards) (hmakes : Makes hand c us) : Makes cards c us := by
  cases c with
  | straightFlush =>
    obtain ⟨s, high, rfl, hrun⟩ := hmakes
    exact ⟨s, high, rfl, hrun.mono (suited_mono h s)⟩
  | flush =>
    obtain ⟨s, hpicks⟩ := hmakes
    exact ⟨s, hpicks.mono (count_mono (suited_mono h s))⟩
  | straight =>
    obtain ⟨high, rfl, hrun⟩ := hmakes
    exact ⟨high, rfl, hrun.mono h⟩
  | _ => exact Picks.mono (count_mono h) hmakes

theorem suited_of_oneSuit (h : oneSuit hand = true) : ∃ s, suited hand s = hand := by
  obtain ⟨s, -, hall⟩ := List.any_eq_true.mp h
  exact ⟨s, List.filter_eq_self.mpr (List.all_eq_true.mp hall)⟩

theorem oneSuit_of_sublist {s : Suit} (h : hand.Sublist (suited cards s)) : oneSuit hand = true :=
  List.any_eq_true.mpr ⟨s, Suit.mem_all s,
    List.all_eq_true.mpr fun _ hc => (List.mem_filter.mp (h.subset hc)).2⟩

/-- **Five cards make what they are ranked as.** -/
theorem makes_rankFive (hnodup : hand.Nodup) (hlen : hand.length = 5) :
    ∃ c us, rankFive hand = .of c us ∧ Makes hand c us := by
  have hpicks : Picks (count hand) ((ranking (values hand)).map (values hand).count)
      (ranking (values hand)) := by
    refine ⟨nodup_ranking _, List.forall₂_map_left_iff.mpr (List.forall₂_same.mpr fun r _ => ?_)⟩
    rw [count_values]
  have hshape := shape_mem hnodup hlen
  unfold rankFive
  dsimp only
  generalize hranks : ranking (values hand) = ranks at *
  generalize ranks.map (values hand).count = shape at *
  have hheld : ∀ r ∈ ranks, 1 ≤ count hand r := by
    intro r hr
    rw [← hranks, mem_ranking, ← List.count_pos_iff, count_values] at hr
    exact hr
  simp only [shapes, List.mem_cons, List.not_mem_nil, or_false] at hshape
  rcases hshape with rfl | rfl | rfl | rfl | rfl | rfl
  · exact ⟨.fourOfAKind, ranks, rfl, hpicks⟩
  · exact ⟨.fullHouse, ranks, rfl, hpicks⟩
  · exact ⟨.threeOfAKind, ranks, rfl, hpicks⟩
  · exact ⟨.twoPair, ranks, rfl, hpicks⟩
  · exact ⟨.onePair, ranks, rfl, hpicks⟩
  · unfold rankShape
    cases hsuit : oneSuit hand with
    | true =>
      obtain ⟨s, hs⟩ := suited_of_oneSuit hsuit
      cases htop : straightTop? ranks with
      | some high =>
        exact ⟨.straightFlush, [high], rfl, s, high, rfl,
          hs.symm ▸ isRun_of_straightTop? hheld htop⟩
      | none => exact ⟨.flush, ranks, rfl, s, hs.symm ▸ hpicks⟩
    | false =>
      cases htop : straightTop? ranks with
      | some high => exact ⟨.straight, [high], rfl, high, rfl, isRun_of_straightTop? hheld htop⟩
      | none => exact ⟨.highCard, ranks, rfl, hpicks⟩

/-! ## Categories, one by one -/

/-- Cards as they are ranked: distinct, five at least and nine at most. -/
structure Dealt (cards : List Card) : Prop where
  nodup : cards.Nodup
  five_le : 5 ≤ cards.length
  le_nine : cards.length ≤ 9

/-- Whether some five of the cards are as strong as `v`. -/
def Attained (cards : List Card) (v : Strength) : Prop :=
  ∃ hand : List Card, hand.Sublist cards ∧ hand.length = 5 ∧ v.key ≤ (rankFive hand).key

/-- What the function of a category has to answer. -/
structure Settles (cards : List Card) (c : Category) (result : Option Strength) : Prop where
  none : result = none → ∀ us, ¬ Makes cards c us
  category : ∀ v, result = some v → v.category = c
  bound : ∀ v, result = some v → ∀ us, Makes cards c us → (Strength.of c us).key ≤ v.key
  attained : ∀ v, result = some v → Attained cards v

/-- An answer that is none. -/
theorem Settles.of_none (h : ∀ us, ¬ Makes cards c us) : Settles cards c .none where
  none _ := h
  category _ hv := by cases hv
  bound _ hv := by cases hv
  attained _ hv := by cases hv

/-- An answer of certain tie-breakers. -/
theorem Settles.of_some
    (hbound : ∀ us, Makes cards c us → (Strength.of c us).key ≤ (Strength.of c ranks).key)
    (hattained : Attained cards (.of c ranks)) : Settles cards c (some (.of c ranks)) where
  none hv := by cases hv
  category _ hv := by cases hv; rfl
  bound _ hv := by cases hv; exact hbound
  attained _ hv := by cases hv; exact hattained

/-- Ranks that are picked in their order are the ranking of five cards. -/
theorem attained_of_picks {v : Strength} (h : Picks (count cards) shape ranks) (hsum : shape.sum = 5)
    (hpos : ∀ k ∈ shape, 0 < k)
    (hsorted : (shape.zip ranks).Pairwise fun a b => b.1 < a.1 ∨ b.1 = a.1 ∧ b.2 < a.2)
    (hrank : ∀ hand : List Card, hand.Sublist cards →
      v.key ≤ (rankShape (oneSuit hand) shape ranks).key) : Attained cards v := by
  obtain ⟨hand, hsub, hlen, hranking, hshape⟩ := h.exists_sublist hpos hsorted
  refine ⟨hand, hsub, hlen.trans hsum, ?_⟩
  unfold rankFive
  dsimp only
  rw [hranking, hshape]
  exact hrank hand hsub

/-- **The highest ranks that can be picked** make the best hand of their category. -/
theorem settles_of_topPicks (h : TopPicks (count cards) [] shape ranks) (hsum : shape.sum = 5)
    (hpos : ∀ k ∈ shape, 0 < k) (hshape : shape.Pairwise (· ≥ ·))
    (hrank : ∀ b, (Strength.of c ranks).key ≤ (rankShape b shape ranks).key)
    (hmakes : ∀ us, Makes cards c us → Picks (count cards) shape us) :
    Settles cards c (some (.of c ranks)) :=
  .of_some (fun us hus => h.key_le (hmakes us hus) c)
    (attained_of_picks h.picks hsum hpos (h.sorted hshape) fun hand _ => hrank (oneSuit hand))

theorem Attained.mono {v : Strength} (h : hand.Sublist cards) (hv : Attained hand v) :
    Attained cards v := by
  obtain ⟨five, hsub, hlen, hle⟩ := hv
  exact ⟨five, hsub.trans h, hlen, hle⟩

theorem key_le_of_high {high' : Nat} (h : high' ≤ high) :
    (Strength.of c [high']).key ≤ (Strength.of c [high]).key := by
  refine Strength.cons_le_cons.mpr (Or.inr ⟨rfl, Strength.cons_le_cons.mpr ?_⟩)
  exact h.lt_or_eq.imp_right fun heq => ⟨heq, le_refl _⟩

/-- Only the first five ranks break ties. -/
theorem of_take (c : Category) (ranks : List Nat) :
    Strength.of c (ranks.take 5) = Strength.of c ranks := by
  have hsub : 5 - min 5 ranks.length = 5 - ranks.length := by omega
  unfold Strength.of
  rw [List.take_append, List.take_append, List.take_take, List.length_take, hsub, Nat.min_self]

/-! ### Five different ranks -/

theorem highCard_le (b : Bool) (ranks : List Nat) :
    (Strength.of .highCard ranks).key ≤ (rankShape b [1, 1, 1, 1, 1] ranks).key := by
  unfold rankShape
  cases b <;> cases straightTop? ranks
  · exact le_refl _
  · exact Strength.key_le_of_level_lt (by decide : (0 : Nat) < 4)
  · exact Strength.key_le_of_level_lt (by decide : (0 : Nat) < 5)
  · exact Strength.key_le_of_level_lt (by decide : (0 : Nat) < 8)

theorem flush_le (ranks : List Nat) :
    (Strength.of .flush ranks).key ≤ (rankShape true [1, 1, 1, 1, 1] ranks).key := by
  unfold rankShape
  cases straightTop? ranks
  · exact le_refl _
  · exact Strength.key_le_of_level_lt (by decide : (5 : Nat) < 8)

theorem straightFlush_le (h : straightTop? ranks = some high) :
    (Strength.of .straightFlush [high]).key ≤ (rankShape true [1, 1, 1, 1, 1] ranks).key := by
  unfold rankShape
  rw [h]
  exact le_refl _

theorem straight_le (b : Bool) (h : straightTop? ranks = some high) :
    (Strength.of .straight [high]).key ≤ (rankShape b [1, 1, 1, 1, 1] ranks).key := by
  unfold rankShape
  rw [h]
  cases b
  · exact le_refl _
  · exact Strength.key_le_of_level_lt (by decide : (4 : Nat) < 8)

/-- The ranks of a straight are picked. -/
theorem IsRun.picks (h : IsRun cards high) : Picks (count cards) [1, 1, 1, 1, 1] (runDown high) := by
  obtain ⟨hsorted, hlen, -⟩ := runDown_spec high h.1
  refine ⟨hsorted.imp fun hlt => hlt.ne', List.forall₂_iff_zip.mpr ⟨hlen.symm, fun {k r} he => ?_⟩⟩
  obtain ⟨hk, hr⟩ := List.of_mem_zip he
  rw [List.eq_of_mem_replicate (n := 5) hk]
  exact h.2 r ((List.perm_insertionSort _ _).mem_iff.mp hr)

theorem IsRun.attained {v : Strength} (h : IsRun cards high)
    (hrank : ∀ hand : List Card, hand.Sublist cards →
      v.key ≤ (rankShape (oneSuit hand) [1, 1, 1, 1, 1] (runDown high)).key) : Attained cards v := by
  obtain ⟨hsorted, hlen, -⟩ := runDown_spec high h.1
  refine attained_of_picks h.picks rfl (by decide) ?_ hrank
  have hranks : runDown high = ([1, 1, 1, 1, 1].zip (runDown high)).map Prod.snd :=
    (List.map_snd_zip hlen.le).symm
  rw [hranks, List.pairwise_map] at hsorted
  refine hsorted.imp_of_mem fun {a b} ha hb hlt => Or.inr ⟨?_, hlt⟩
  have hone : ∀ e ∈ [1, 1, 1, 1, 1].zip (runDown high), e.1 = 1 := fun e he =>
    List.eq_of_mem_replicate (n := 5) (List.of_mem_zip he).1
  rw [hone a ha, hone b hb]

theorem settles_straightFlush (h : Dealt cards) :
    Settles cards .straightFlush (straightFlush? cards) := by
  have hsuit : ∀ {s high}, IsRun (suited cards s) high → flushSuit? cards = some s :=
    fun hrun => flushSuit?_eq h.le_nine (hrun.picks.length_le (by decide))
  unfold straightFlush?
  cases hflush : flushSuit? cards with
  | none =>
    refine .of_none fun us hus => ?_
    obtain ⟨s, high, -, hrun⟩ := hus
    exact absurd ((hsuit hrun).symm.trans hflush) (by simp)
  | some s =>
    rw [Option.bind_some, hasSuited_eq]
    have hsame : ∀ {s' high}, IsRun (suited cards s') high → s' = s :=
      fun hrun => Option.some.inj ((hsuit hrun).symm.trans hflush)
    cases hhigh : straightHigh? (has (suited cards s)) with
    | none =>
      refine .of_none fun us hus => ?_
      obtain ⟨s', high, -, hrun⟩ := hus
      cases hsame hrun
      exact not_isRun_of_straightHigh? hhigh high hrun
    | some high =>
      obtain ⟨hrun, hmost⟩ := isRun_of_straightHigh? hhigh
      refine .of_some ?_ ((IsRun.attained hrun fun hand hsub => ?_).mono (suited_sublist cards s))
      · rintro us ⟨s', high', rfl, hrun'⟩
        cases hsame hrun'
        exact key_le_of_high (hmost hrun')
      · rw [oneSuit_of_sublist hsub]
        exact straightFlush_le (runDown_spec high hrun.1).2.2

/-- Four of a kind need no kicker of their own kind. -/
theorem settles_fourOfAKind (h : Dealt cards) :
    Settles cards .fourOfAKind (fourOfAKind? cards) := by
  have hmost := count_le_four h.nodup
  unfold fourOfAKind?
  cases hheld : held cards 4 with
  | nil =>
    refine .of_none fun us hus => ?_
    cases hus.enough with
    | @cons _ q _ _ hq _ => exact absurd hq (count_lt_of_held (by decide) hmost hheld q).not_ge
  | cons q others =>
    have hfive := h.five_le
    have hq := hmost q
    refine settles_of_topPicks (.cons (isGreatest_held (by decide) hmost hheld)
      (topPicks_kickers (fresh_pos ?_)))
      rfl (by decide) (by decide) (fun _ => le_refl _) fun _ hus => hus
    rw [List.map_singleton, List.sum_singleton]
    omega

/-- The first of a falling list is no less than any other. -/
theorem exists_le_take {r : Nat} {list : List Nat} (hsorted : list.Pairwise (· > ·))
    (hr : r ∈ list) : ∃ o ∈ list.take 1, r ≤ o := by
  cases list with
  | nil => exact absurd hr List.not_mem_nil
  | cons o rest =>
    refine ⟨o, List.mem_cons_self, ?_⟩
    exact (isGreatest_head hsorted fun _ => Iff.rfl).2 hr

section FullHouse

variable {t p r : Nat} {others : List Nat}

theorem mem_others_iff (ht : held cards 3 = t :: others) :
    r ∈ others ↔ r ≠ t ∧ count cards r = 3 :=
  mem_tail_iff (ht ▸ pairwise_held cards 3) (fun r => by rw [← ht, mem_held (by decide)]) r

/-- Every rank that can be the pair of a full house is looked at, or a higher one. -/
theorem exists_pair (three : ∀ r, count cards r ≤ 3) (ht : held cards 3 = t :: others)
    (hne : r ≠ t) (hr : 2 ≤ count cards r) :
    ∃ o ∈ others.take 1 ++ (held cards 2).take 1, r ≤ o := by
  have hsorted : (t :: others).Pairwise (· > ·) := ht ▸ pairwise_held cards 3
  have hlisted : r ∈ others ∨ r ∈ held cards 2 := by
    rw [mem_others_iff ht, mem_held (by decide)]
    have := three r
    omega
  rcases hlisted with hr | hr
  · obtain ⟨o, ho, hle⟩ := exists_le_take (List.pairwise_cons.mp hsorted).2 hr
    exact ⟨o, List.mem_append_left _ ho, hle⟩
  · obtain ⟨o, ho, hle⟩ := exists_le_take (pairwise_held cards 2) hr
    exact ⟨o, List.mem_append_right _ ho, hle⟩

theorem isGreatest_pair (three : ∀ r, count cards r ≤ 3) (ht : held cards 3 = t :: others)
    (hp : (others.take 1 ++ (held cards 2).take 1).max? = some p) :
    IsGreatest {r | r ∉ [t] ∧ 2 ≤ count cards r} p := by
  have hcount : count cards t = 3 := (mem_held (by decide)).mp (ht ▸ List.mem_cons_self)
  obtain ⟨hmem, hmax⟩ := List.max?_eq_some_iff.mp hp
  constructor
  · show p ∉ [t] ∧ 2 ≤ count cards p
    rw [List.mem_singleton]
    rcases List.mem_append.mp hmem with hmem | hmem
    · obtain ⟨hne, hthree⟩ := (mem_others_iff ht).mp (List.mem_of_mem_take hmem)
      exact ⟨hne, by omega⟩
    · have htwo := (mem_held (by decide)).mp (List.mem_of_mem_take hmem)
      exact ⟨fun heq => by rw [heq] at htwo; omega, htwo.ge⟩
  · rintro r ⟨hne, hr⟩
    obtain ⟨o, ho, hle⟩ := exists_pair three ht (fun heq => hne (heq ▸ List.mem_cons_self)) hr
    exact hle.trans (hmax o ho)

theorem settles_fullHouse (three : ∀ r, count cards r ≤ 3) :
    Settles cards .fullHouse (fullHouse? cards) := by
  unfold fullHouse?
  cases hheld : held cards 3 with
  | nil =>
    refine .of_none fun us hus => ?_
    cases hus.enough with
    | @cons _ t _ _ ht _ => exact absurd ht (count_lt_of_held (by decide) three hheld t).not_ge
  | cons t others =>
    dsimp only
    cases hpair : (others.take 1 ++ (held cards 2).take 1).max? with
    | some p =>
      exact settles_of_topPicks (.cons (isGreatest_held (by decide) three hheld)
        (.cons (isGreatest_pair three hheld hpair) (.nil _)))
        rfl (by decide) (by decide) (fun _ => le_refl _) fun _ hus => hus
    | none =>
      refine .of_none fun us hus => ?_
      have hno : ∀ r, 2 ≤ count cards r → r = t := by
        intro r hr
        by_contra hne
        obtain ⟨o, ho, -⟩ := exists_pair three hheld hne hr
        rw [List.max?_eq_none_iff.mp hpair] at ho
        exact absurd ho List.not_mem_nil
      obtain ⟨hnodup, henough⟩ := hus
      cases henough with
      | @cons _ t' _ _ ht' henough =>
        cases henough with
        | @cons _ p' _ _ hp' henough =>
          cases henough
          rw [hno t' (by omega), hno p' hp'] at hnodup
          simp at hnodup

end FullHouse

/-- The flush is the highest five ranks of its suit. -/
theorem settles_flush (h : Dealt cards) : Settles cards .flush (flush? cards) := by
  have hsuit : ∀ {s us}, Picks (count (suited cards s)) [1, 1, 1, 1, 1] us →
      flushSuit? cards = some s :=
    fun hpicks => flushSuit?_eq h.le_nine (hpicks.length_le (by decide))
  unfold flush?
  cases hflush : flushSuit? cards with
  | none =>
    refine .of_none fun us hus => ?_
    obtain ⟨s, hpicks⟩ := hus
    exact absurd ((hsuit hpicks).symm.trans hflush) (by simp)
  | some s =>
    have hfive := length_suited hflush
    have hlen := length_le_fresh_nil (count_suited_le_one h.nodup s)
    have htop : TopPicks (count (suited cards s)) [] [1, 1, 1, 1, 1]
        ((fresh (suited cards s) []).take 5) := topPicks_kickers (hfive.trans hlen)
    rw [Option.map_some, hasSuited_eq, ← fresh_nil, ← of_take]
    refine .of_some ?_ ((attained_of_picks htop.picks rfl (by decide) (htop.sorted (by decide))
      fun hand hsub => ?_).mono (suited_sublist cards s))
    · rintro us ⟨s', hpicks⟩
      cases Option.some.inj ((hsuit hpicks).symm.trans hflush)
      exact htop.key_le hpicks _
    · rw [oneSuit_of_sublist hsub]
      exact flush_le _

theorem settles_straight (cards : List Card) : Settles cards .straight (straight? cards) := by
  unfold straight?
  cases hhigh : straightHigh? (has cards) with
  | none =>
    refine .of_none fun us hus => ?_
    obtain ⟨high, -, hrun⟩ := hus
    exact not_isRun_of_straightHigh? hhigh high hrun
  | some high =>
    obtain ⟨hrun, hmost⟩ := isRun_of_straightHigh? hhigh
    refine .of_some ?_ (IsRun.attained hrun fun hand _ => ?_)
    · rintro us ⟨high', rfl, hrun'⟩
      exact key_le_of_high (hmost hrun')
    · exact straight_le _ (runDown_spec high hrun.1).2.2

/-- Without a full house, three of a kind leave ranks that are held once. -/
theorem settles_threeOfAKind (h : Dealt cards) (three : ∀ r, count cards r ≤ 3)
    (hfull : fullHouse? cards = none) : Settles cards .threeOfAKind (threeOfAKind? cards) := by
  unfold threeOfAKind?
  cases hheld : held cards 3 with
  | nil =>
    refine .of_none fun us hus => ?_
    cases hus.enough with
    | @cons _ t _ _ ht _ => exact absurd ht (count_lt_of_held (by decide) three hheld t).not_ge
  | cons t others =>
    have htop := isGreatest_held (by decide) three hheld
    have hone : ∀ r ∉ [t], count cards r ≤ 1 := by
      intro r hr
      by_contra htwo
      refine (settles_fullHouse three).none hfull [t, r] ⟨?_, ?_⟩
      · exact List.nodup_cons.mpr
          ⟨fun ht => hr (List.mem_singleton.mpr (List.mem_singleton.mp ht).symm),
            List.nodup_singleton r⟩
      · exact .cons htop.1.2 (.cons (not_le.mp htwo) .nil)
    have hfive := h.five_le
    have ht := three t
    have hlen := length_le_fresh hone
    rw [List.map_singleton, List.sum_singleton] at hlen
    exact settles_of_topPicks (.cons htop (topPicks_kickers (by omega)))
      rfl (by decide) (by decide) (fun _ => le_refl _) fun _ hus => hus

/-- Two pair are the two highest; a third pair may be the kicker. -/
theorem settles_twoPair (h : Dealt cards) (two : ∀ r, count cards r ≤ 2) :
    Settles cards .twoPair (twoPair? cards) := by
  have hmem : ∀ r, r ∈ held cards 2 ↔ r ∉ [] ∧ 2 ≤ count cards r := fun r => by
    rw [mem_held (by decide)]
    exact ⟨fun heq => ⟨List.not_mem_nil, heq.ge⟩, fun hge => (two r).antisymm hge.2⟩
  have hsorted := pairwise_held cards 2
  have hlen : ∀ us, Picks (count cards) [2, 2, 1] us → 2 ≤ (held cards 2).length := by
    rintro us ⟨hnodup, henough⟩
    cases henough with
    | @cons _ p _ _ hp henough =>
      cases henough with
      | @cons _ q _ us hq _ =>
        have hpair : [p, q].Nodup :=
          hnodup.sublist ((List.nil_sublist us).cons_cons q |>.cons_cons p)
        refine (hpair.subperm fun r hr => (hmem r).mpr ⟨List.not_mem_nil, ?_⟩).length_le
        rcases List.mem_pair.mp hr with rfl | rfl
        · exact hp
        · exact hq
  unfold twoPair?
  match hheld : held cards 2 with
  | [] | [p] =>
    refine .of_none fun us hus => ?_
    have htwo := hheld ▸ hlen us hus
    simp at htwo
  | p :: q :: rest =>
    rw [hheld] at hmem hsorted
    have hp := isGreatest_head hsorted hmem
    have hq : IsGreatest {r | r ∉ [p] ∧ 2 ≤ count cards r} q := by
      refine isGreatest_head (List.pairwise_cons.mp hsorted).2 fun r => ?_
      rw [mem_tail_iff hsorted hmem, List.mem_singleton, and_iff_right List.not_mem_nil]
    have hfive := h.five_le
    have hpcount := two p
    have hqcount := two q
    have hkicker : TopPicks (count cards) [q, p] [1] (kickers cards [p, q] 1) := by
      refine topPicks_take (m := 1) (pairwise_filter _) (fun r => ?_) (fresh_pos ?_)
      · rw [← fresh, mem_fresh, List.mem_pair, List.mem_pair, or_comm]
      · rw [List.map_cons, List.map_singleton, List.sum_cons, List.sum_singleton]
        omega
    exact settles_of_topPicks (.cons hp (.cons hq hkicker))
      rfl (by decide) (by decide) (fun _ => le_refl _) fun _ hus => hus

/-- Without two pair, a pair leaves ranks that are held once. -/
theorem settles_onePair (h : Dealt cards) (two : ∀ r, count cards r ≤ 2)
    (htwo : twoPair? cards = none) : Settles cards .onePair (onePair? cards) := by
  unfold onePair?
  cases hheld : held cards 2 with
  | nil =>
    refine .of_none fun us hus => ?_
    cases hus.enough with
    | @cons _ p _ _ hp _ => exact absurd hp (count_lt_of_held (by decide) two hheld p).not_ge
  | cons p others =>
    have hothers : others = [] := by
      unfold twoPair? at htwo
      rw [hheld] at htwo
      cases others with
      | nil => rfl
      | cons q rest => cases htwo
    have hone : ∀ r ∉ [p], count cards r ≤ 1 := by
      intro r hr
      by_contra hmore
      have hmem : r ∈ held cards 2 := (mem_held (by decide)).mpr ((two r).antisymm (not_le.mp hmore))
      rw [hheld, hothers] at hmem
      exact hr hmem
    have hfive := h.five_le
    have hp := two p
    have hlen := length_le_fresh hone
    rw [List.map_singleton, List.sum_singleton] at hlen
    exact settles_of_topPicks (.cons (isGreatest_held (by decide) two hheld)
      (topPicks_kickers (by omega)))
      rfl (by decide) (by decide) (fun _ => le_refl _) fun _ hus => hus

/-- Without a pair, the five highest ranks are the best hand. -/
theorem settles_highCard (h : Dealt cards) (one : ∀ r, count cards r ≤ 1) :
    Settles cards .highCard (some (highCard cards)) := by
  have hheld : held cards 1 = fresh cards [] := by
    rw [fresh_nil]
    refine List.filter_congr fun r _ => ?_
    rw [Bool.eq_iff_iff, beq_iff_eq, has_iff]
    have := one r
    omega
  have hlen := length_le_fresh_nil one
  unfold highCard
  rw [hheld, ← of_take]
  exact settles_of_topPicks (topPicks_kickers (m := 5) (h.five_le.trans hlen))
    rfl (by decide) (by decide) (fun b => highCard_le b _) fun _ hus => hus

/-! ## All categories -/

/-- The best of the hands whose category is of some level at most. -/
structure Best (cards : List Card) (level : Nat) (v : Strength) : Prop where
  attained : Attained cards v
  bound : ∀ c us, c.level ≤ level → Makes cards c us → (Strength.of c us).key ≤ v.key

/-- **One category after the other.** If a category has a hand, its best one beats all hands of
lower categories; if it has none, the best of these is the best. -/
theorem Settles.or {result : Option Strength} {v : Strength} (h : Settles cards c result)
    (hlevel : c.level = l + 1) (hrest : result = .none → Best cards l v) :
    Best cards (l + 1) (result.getD v) := by
  cases result with
  | none =>
    have hbest := hrest rfl
    refine ⟨hbest.attained, fun c' us hle hus => ?_⟩
    rcases hle.lt_or_eq with hlt | heq
    · exact hbest.bound c' us (Nat.le_of_lt_succ hlt) hus
    · cases Category.level_injective (heq.trans hlevel.symm)
      exact absurd hus (h.none rfl us)
  | some w =>
    refine ⟨h.attained w rfl, fun c' us hle hus => ?_⟩
    have hcategory := h.category w rfl
    rcases hle.lt_or_eq with hlt | heq
    · refine Strength.key_le_of_level_lt ?_
      show c'.level < w.category.level
      rwa [hcategory, hlevel]
    · cases Category.level_injective (heq.trans hlevel.symm)
      exact h.bound w rfl us hus

theorem evaluate_eq (cards : List Card) : evaluate cards =
    (straightFlush? cards).getD ((fourOfAKind? cards).getD ((fullHouse? cards).getD
      ((flush? cards).getD ((straight? cards).getD ((threeOfAKind? cards).getD
        ((twoPair? cards).getD ((onePair? cards).getD (highCard cards)))))))) := by
  unfold evaluate
  simp only [Option.getD_or]

/-- **`evaluate` is the best of all hands** that five to nine distinct cards make. -/
theorem best_evaluate (h : Dealt cards) : Best cards 8 (evaluate cards) := by
  rw [evaluate_eq]
  refine (settles_straightFlush h).or rfl fun _ => ?_
  refine (settles_fourOfAKind h).or rfl fun hfour => ?_
  have three : ∀ r, count cards r ≤ 3 := fun r => Nat.le_of_lt_succ
    (count_lt_of_held (by decide) (count_le_four h.nodup) (by simpa [fourOfAKind?] using hfour) r)
  refine (settles_fullHouse three).or rfl fun hfull => ?_
  refine (settles_flush h).or rfl fun _ => ?_
  refine (settles_straight cards).or rfl fun _ => ?_
  refine (settles_threeOfAKind h three hfull).or rfl fun hthree => ?_
  have two : ∀ r, count cards r ≤ 2 := fun r =>
    Nat.le_of_lt_succ (count_lt_of_held (by decide) three (by simpa [threeOfAKind?] using hthree) r)
  refine (settles_twoPair h two).or rfl fun htwo => ?_
  refine (settles_onePair h two htwo).or rfl fun hone => ?_
  have one : ∀ r, count cards r ≤ 1 := fun r =>
    Nat.le_of_lt_succ (count_lt_of_held (by decide) two (by simpa [onePair?] using hone) r)
  have hhigh := settles_highCard h one
  refine ⟨hhigh.attained _ rfl, fun c us hle hus => ?_⟩
  have heq : c.level = Category.highCard.level := Nat.le_zero.mp hle
  cases Category.level_injective heq
  exact hhigh.bound _ rfl us hus

/-- No five of the cards are stronger than `evaluate` says. -/
theorem rankFive_le (h : Dealt cards) (hsub : hand.Sublist cards) (hlen : hand.length = 5) :
    (rankFive hand).key ≤ (evaluate cards).key := by
  obtain ⟨c, us, hrank, hmakes⟩ := makes_rankFive (h.nodup.sublist hsub) hlen
  rw [hrank]
  exact (best_evaluate h).bound c us (by cases c <;> decide) (hmakes.mono hsub)

/-- Some five of them are as strong. -/
theorem exists_rankFive (h : Dealt cards) :
    ∃ hand : List Card, hand.Sublist cards ∧ hand.length = 5 ∧ rankFive hand = evaluate cards := by
  obtain ⟨hand, hsub, hlen, hle⟩ := (best_evaluate h).attained
  exact ⟨hand, hsub, hlen, Strength.key_injective ((rankFive_le h hsub hlen).antisymm hle)⟩

/-- **The best five of seven cards.** Of the 21 ways to take five of seven distinct cards, one has
the strength that `evaluate` finds, and none compares greater. -/
theorem evaluate_eq_best (cards : List Card) (hnodup : cards.Nodup) (hlen : cards.length = 7) :
    (cards.sublistsLen 5).length = 21 ∧
    (∃ five ∈ cards.sublistsLen 5, rankFive five = evaluate cards) ∧
    ∀ five ∈ cards.sublistsLen 5, (rankFive five).compare (evaluate cards) ≠ .gt := by
  have h : Dealt cards := ⟨hnodup, by omega, by omega⟩
  refine ⟨?_, ?_, fun five hfive => ?_⟩
  · rw [List.length_sublistsLen, hlen]
    rfl
  · obtain ⟨hand, hsub, hfive, hrank⟩ := exists_rankFive h
    exact ⟨hand, List.mem_sublistsLen.mpr ⟨hsub, hfive⟩, hrank⟩
  · obtain ⟨hsub, hfive⟩ := List.mem_sublistsLen.mp hfive
    exact Strength.compare_ne_gt_iff.mpr (rankFive_le h hsub hfive)

/-- Three nines, three fours and a king: the fours play as the pair. -/
theorem evaluate_eq_best_two_trips :
    ∃ five ∈ List.sublistsLen 5 [⟨.nine, .spades⟩, ⟨.nine, .diamonds⟩, ⟨.nine, .clubs⟩,
      ⟨.four, .hearts⟩, ⟨.four, .spades⟩, ⟨.four, .diamonds⟩, ⟨.king, .clubs⟩],
        rankFive five = ⟨.fullHouse, [9, 4, 0, 0, 0]⟩ := by
  obtain ⟨-, ⟨five, hmem, hrank⟩, -⟩ := evaluate_eq_best [⟨.nine, .spades⟩, ⟨.nine, .diamonds⟩,
    ⟨.nine, .clubs⟩, ⟨.four, .hearts⟩, ⟨.four, .spades⟩, ⟨.four, .diamonds⟩, ⟨.king, .clubs⟩]
    (by decide) rfl
  exact ⟨five, hmem, hrank.trans (by decide)⟩

end Holdem.Hand
