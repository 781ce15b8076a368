import Holdem.Proofs.Hand.Picks

/-!
# The ranks that cards hold

What the counts of `evaluate` say of distinct cards: which ranks are listed, that every one of the
lists is falling (`pairwise_filter`), and how many ranks are left for kickers
(`length_le_fresh`). Nine cards or fewer have five of one suit at most once (`flushSuit?_eq`).
-/

namespace Holdem.Hand

variable {cards hand : List Card} {used : List Nat} {r k : Nat} {s : Suit}

/-! ## Lists of ranks -/

theorem pairwise_filter (p : Nat → Bool) : (ranksDown.filter p).Pairwise (· > ·) :=
  List.Pairwise.filter p (by decide : ranksDown.Pairwise (· > ·))

theorem mem_ranksDown_of_count (h : 1 ≤ count cards r) : r ∈ ranksDown := by
  obtain ⟨c, -, hc⟩ := List.countP_pos_iff.mp h
  rw [← beq_iff_eq.mp hc]
  cases c.rank <;> decide

theorem mem_held (hk : 0 < k) : r ∈ held cards k ↔ count cards r = k := by
  unfold held
  rw [List.mem_filter, beq_iff_eq]
  exact and_iff_right_of_imp fun h => mem_ranksDown_of_count (h ▸ hk)

theorem pairwise_held (cards : List Card) (k : Nat) : (held cards k).Pairwise (· > ·) :=
  pairwise_filter _

/-- If no rank is held more than `k` times, the first one that is held so often is the highest that
can be picked. -/
theorem isGreatest_held (hk : 0 < k) (hmost : ∀ r, count cards r ≤ k) {rest : List Nat}
    (h : held cards k = r :: rest) : IsGreatest {r | r ∉ [] ∧ k ≤ count cards r} r := by
  refine isGreatest_head (h ▸ pairwise_held cards k) fun r' => ?_
  rw [← h, mem_held hk]
  exact ⟨fun heq => ⟨List.not_mem_nil, heq.ge⟩, fun hge => (hmost r').antisymm hge.2⟩

/-- If no rank is held `k` times, all are held less often. -/
theorem count_lt_of_held (hk : 0 < k) (hmost : ∀ r, count cards r ≤ k) (h : held cards k = [])
    (r : Nat) : count cards r < k := by
  refine (hmost r).lt_of_ne fun heq => ?_
  have hr := (mem_held hk).mpr heq
  rw [h] at hr
  exact absurd hr List.not_mem_nil

theorem has_iff : has cards r = true ↔ 1 ≤ count cards r := decide_eq_true_iff

/-- The ranks held besides some. -/
def fresh (cards : List Card) (used : List Nat) : List Nat :=
  ranksDown.filter fun r => has cards r && !used.contains r

theorem mem_fresh : r ∈ fresh cards used ↔ r ∉ used ∧ 1 ≤ count cards r := by
  unfold fresh
  rw [List.mem_filter, Bool.and_eq_true, has_iff, Bool.not_eq_true', ← Bool.not_eq_true,
    List.contains_iff_mem]
  constructor
  · exact fun h => ⟨h.2.2, h.2.1⟩
  · exact fun h => ⟨mem_ranksDown_of_count h.2, h.2, h.1⟩

theorem count_mono (h : hand.Sublist cards) (r : Nat) : count hand r ≤ count cards r :=
  h.countP_le

/-- Kickers are the highest ranks that can be picked, if there are enough of them. -/
theorem topPicks_kickers {m : Nat} (h : m ≤ (fresh cards used).length) :
    TopPicks (count cards) used (List.replicate m 1) (kickers cards used m) :=
  topPicks_take (pairwise_filter _) (fun _ => mem_fresh) h

theorem fresh_nil (cards : List Card) : fresh cards [] = ranksDown.filter (has cards) := by
  unfold fresh
  simp

/-! ## What is left for kickers -/

/-- The cards of other ranks than some. -/
def others (cards : List Card) (used : List Nat) : List Card :=
  cards.filter fun c => !used.contains c.rank.value

theorem length_le_others (cards : List Card) (used : List Nat) :
    cards.length ≤ (used.map (count cards)).sum + (others cards used).length := by
  induction used with
  | nil => simp [others]
  | cons r used ih =>
    have hsplit := List.length_eq_countP_add_countP (fun c : Card => c.rank.value == r)
      (l := others cards used)
    have hcount : (others cards used).countP (fun c => c.rank.value == r) ≤ count cards r :=
      count_mono List.filter_sublist r
    have hrest : (others cards used).countP (fun c => decide ¬(c.rank.value == r) = true) =
        (others cards (r :: used)).length := by
      unfold others
      rw [List.countP_filter, List.countP_eq_length_filter]
      congr 2
      funext c
      simp
    rw [List.map_cons, List.sum_cons]
    omega

theorem value_mem_fresh {c : Card} (hc : c ∈ others cards used) :
    c.rank.value ∈ fresh cards used := by
  obtain ⟨hc, hfresh⟩ := List.mem_filter.mp hc
  refine mem_fresh.mpr ⟨by simpa using hfresh, ?_⟩
  exact List.countP_pos_iff.mpr ⟨c, hc, beq_self_eq_true _⟩

/-- More cards than those of some ranks leave a kicker. -/
theorem fresh_pos (h : (used.map (count cards)).sum < cards.length) :
    1 ≤ (fresh cards used).length := by
  have hlen := length_le_others cards used
  obtain ⟨c, hc⟩ := List.exists_mem_of_length_pos (l := others cards used) (by omega)
  exact List.length_pos_of_mem (value_mem_fresh hc)

/-- If no other rank is held twice, each further card leaves a kicker. -/
theorem length_le_fresh (hone : ∀ r ∉ used, count cards r ≤ 1) :
    cards.length ≤ (used.map (count cards)).sum + (fresh cards used).length := by
  have hnodup : (values (others cards used)).Nodup := by
    rw [List.nodup_iff_count_le_one]
    intro r
    by_cases hr : r ∈ values (others cards used)
    · obtain ⟨c, hc, rfl⟩ := List.mem_map.mp hr
      rw [count_values]
      exact (count_mono List.filter_sublist _).trans (hone _ (mem_fresh.mp (value_mem_fresh hc)).1)
    · rw [List.count_eq_zero.mpr hr]
      exact Nat.zero_le 1
  have hsub : values (others cards used) ⊆ fresh cards used := by
    intro r hr
    obtain ⟨c, hc, rfl⟩ := List.mem_map.mp hr
    exact value_mem_fresh hc
  have hle := (hnodup.subperm hsub).length_le
  have hlen := length_le_others cards used
  rw [values, List.length_map] at hle
  omega

/-- If no rank is held twice, there are as many ranks as cards. -/
theorem length_le_fresh_nil (hone : ∀ r, count cards r ≤ 1) :
    cards.length ≤ (fresh cards []).length := by
  have hlen : cards.length ≤ ([].map (count cards)).sum + (fresh cards []).length :=
    length_le_fresh fun r _ => hone r
  rwa [List.map_nil, List.sum_nil, Nat.zero_add] at hlen

/-- No more ranks are picked than there are cards. -/
theorem Picks.length_le {shape us : List Nat} (h : Picks (count cards) shape us)
    (hpos : ∀ k ∈ shape, 0 < k) : shape.length ≤ cards.length := by
  obtain ⟨hlen, henough⟩ := List.forall₂_iff_zip.mp h.enough
  have hsub : us ⊆ values cards := by
    intro r hr
    rw [← List.map_snd_zip hlen.ge] at hr
    obtain ⟨⟨k, r⟩, he, rfl⟩ := List.mem_map.mp hr
    rw [← List.count_pos_iff, count_values]
    exact (hpos k (List.of_mem_zip he).1).trans_le (henough he)
  have hle := (h.nodup.subperm hsub).length_le
  rwa [values, List.length_map, ← hlen] at hle

/-! ## Cards of one suit -/

/-- The cards of a suit. -/
def suited (cards : List Card) (s : Suit) : List Card := cards.filter fun c => c.suit = s

theorem suited_sublist (cards : List Card) (s : Suit) : (suited cards s).Sublist cards :=
  List.filter_sublist

theorem hasSuited_eq (cards : List Card) (s : Suit) :
    hasSuited cards s = has (suited cards s) := by
  funext r
  rw [Bool.eq_iff_iff, has_iff]
  unfold hasSuited suited count
  rw [List.any_eq_true, List.countP_filter]
  refine Iff.trans ?_ List.countP_pos_iff.symm
  refine exists_congr fun c => and_congr_right fun _ => ?_
  rw [Bool.and_comm]

/-- Distinct cards of one suit have distinct ranks. -/
theorem count_suited_le_one (hnodup : cards.Nodup) (s : Suit) (r : Nat) :
    count (suited cards s) r ≤ 1 := by
  rw [← count_values]
  refine List.nodup_iff_count_le_one.mp (List.Nodup.map_on ?_ (hnodup.filter _)) r
  intro c hc c' hc' hvalue
  have hsuit : c.suit = c'.suit := by
    rw [of_decide_eq_true (List.mem_filter.mp hc).2, of_decide_eq_true (List.mem_filter.mp hc').2]
  cases c
  cases c'
  exact Card.mk.injEq .. ▸ ⟨Rank.value_injective hvalue, hsuit⟩

theorem length_suited (h : flushSuit? cards = some s) : 5 ≤ (suited cards s).length := by
  have hcount := List.find?_some h
  rwa [decide_eq_true_eq, List.countP_eq_length_filter] at hcount

/-- **At most one suit** has five of nine cards. -/
theorem flushSuit?_eq (hlen : cards.length ≤ 9) (hs : 5 ≤ (suited cards s).length) :
    flushSuit? cards = some s := by
  have hcount : 5 ≤ cards.countP fun c => c.suit = s := by
    rwa [List.countP_eq_length_filter]
  cases hfind : flushSuit? cards with
  | none =>
    have hnone := List.find?_eq_none.mp hfind s (Suit.mem_all s)
    exact absurd (decide_eq_true hcount) hnone
  | some s' =>
    have hcount' := length_suited hfind
    by_contra hne
    have hsplit := List.length_eq_countP_add_countP (fun c : Card => decide (c.suit = s)) (l := cards)
    have hle : (suited cards s').length ≤
        cards.countP fun c => decide ¬decide (c.suit = s) = true := by
      rw [suited, ← List.countP_eq_length_filter]
      refine List.countP_mono_left fun c _ hc => ?_
      simp only [decide_eq_true_eq] at hc ⊢
      exact fun heq => hne (by rw [← hc, heq])
    omega

end Holdem.Hand
