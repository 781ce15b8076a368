import Holdem.Proofs.Chips.Total
import Holdem.Proofs.Table.Level

/-!
# Seating and forced bets

What `create` checks, and the seats it leaves behind: **`create_eq_ok`** reads off a created table
that the stacks are two at least, positive, and add up to an amount that can be counted. No
seat alone has as much as can be counted, then (`start_lt_most`).
`posted` are the seats after antes and blinds, and `inPlay_posted` says that the hand they begin is
in play, whatever the forced bets: also with blinds that are negative, unequal or above a stack.
-/

namespace Holdem

/-- The stacks that a table accepts. -/
structure Playable (starts : List Int) : Prop where
  two : 2 ≤ starts.length
  pos : ∀ s ∈ starts, 0 < s
  fits : Chips.total starts ≤ Chips.most

namespace Table

variable {config : TableConfig} {starts : List Int}

/-- No seat has as many chips as can be counted: there is another seat with some. -/
theorem start_lt_most (h : Playable starts) {start : Int} (hs : start ∈ starts) :
    start < Chips.most := by
  have hfits := h.fits
  obtain ⟨i, hi⟩ := List.mem_iff_getElem?.mp hs
  have hlt := (List.getElem?_eq_some_iff.mp hi).1
  rw [Chips.total_eraseIdx hlt, List.getD_eq_getElem?_getD, hi, Option.getD_some] at hfits
  have hrest : ∀ n ∈ starts.eraseIdx i, 0 < n := fun n hn => h.pos n (List.mem_of_mem_eraseIdx hn)
  have hlen : 0 < (starts.eraseIdx i).length := by
    have := h.two
    rw [List.length_eraseIdx_of_lt hlt]
    omega
  have hmem := List.getElem_mem hlen
  have hle := Chips.le_total (fun n hn => (hrest n hn).le) hmem
  have hpos := hrest _ hmem
  omega

/-- The seats after the antes. -/
def anted (config : TableConfig) (starts : List Int) : List Seat :=
  starts.map fun s => ante config (Seat.ofStack s)

/-- The seats after the antes and the blinds. -/
def posted (config : TableConfig) (starts : List Int) : List Seat :=
  ((anted config starts).modify (blindSeats starts.length).1 (·.putIn config.smallBlind)).modify
    (blindSeats starts.length).2 (·.putIn config.bigBlind)

theorem badStack?_eq_none_iff : badStack? starts = none ↔ ∀ s ∈ starts, 0 < s := by
  unfold badStack?
  rw [List.find?_eq_none]
  constructor
  · intro h s hs
    obtain ⟨i, hi⟩ := List.mem_iff_getElem?.mp hs
    have := h (s, i) (List.mem_zipIdx_iff_getElem?.mpr hi)
    simpa using this
  · rintro h ⟨s, i⟩ hm
    have := h s (List.fst_mem_of_mem_zipIdx hm)
    simpa using this

/-- **What a created table is.** -/
theorem create_eq_ok {seed : UInt64} {t : Table} (h : create config starts seed = .ok t) :
    Playable starts ∧ t = ⟨config, Deck.ofSeed seed, posted config starts, [], 0, .dealing, [],
      config.minBet, [], []⟩ := by
  unfold create at h
  split at h
  · exact absurd h (by simp)
  · rename_i htwo
    cases hbad : badStack? starts with
    | some e => rw [hbad] at h; exact absurd h (by simp)
    | none =>
      rw [hbad] at h
      simp only at h
      split at h
      · exact absurd h (by simp)
      · rename_i hfits
        refine ⟨⟨by omega, badStack?_eq_none_iff.mp hbad, ?_⟩, (Except.ok.inj h).symm⟩
        unfold overflows Chips.fits at hfits
        simp only [Bool.not_eq_true', Bool.not_eq_false, Bool.and_eq_true,
          decide_eq_true_eq] at hfits
        exact hfits.2

/-! ## Antes -/

/-- A seat after the ante: nothing bet, and collected for the ante if it has chips left. -/
structure Anted (config : TableConfig) (s : Seat) : Prop where
  balanced : s.Balanced
  inHand : s.inHand = true
  bet_eq : s.bet = 0
  committed_le : s.committed ≤ max 0 config.ante
  of_canAct : s.canAct = true → s.committed = max 0 config.ante

theorem anted_ofStack {stack : Int} (h : 0 ≤ stack) :
    Anted config (ante config (Seat.ofStack stack)) := by
  have hbal := Seat.balanced_ofStack h
  unfold ante
  split
  · rename_i hante
    have hmoved : (Seat.ofStack stack).moved config.ante = min config.ante stack := by
      unfold Seat.moved Chips.clamp
      rw [Seat.ofStack_stack]
      omega
    have hc : ((Seat.ofStack stack).putIn config.ante).collect.committed =
        min config.ante stack := by
      rw [Seat.collect_committed, Seat.putIn_bet, hmoved]
      simp [Seat.putIn]
    refine ⟨Seat.balanced_collect (Seat.balanced_putIn hbal _), rfl, rfl, ?_, fun hact => ?_⟩
    · rw [hc]
      omega
    · have hpos : 0 < ((Seat.ofStack stack).putIn config.ante).stack := (Seat.canAct_iff.mp hact).2
      rw [Seat.putIn_stack, hmoved, Seat.ofStack_stack] at hpos
      rw [hc]
      omega
  · rename_i hante
    refine ⟨hbal, rfl, rfl, ?_, fun _ => ?_⟩
    · rw [Seat.ofStack_committed]
      omega
    · rw [Seat.ofStack_committed]
      omega

theorem anted_of_mem (h : Playable starts) {s : Seat} (hs : s ∈ anted config starts) :
    Anted config s := by
  obtain ⟨stack, hstack, rfl⟩ := List.mem_map.mp hs
  exact anted_ofStack (h.pos stack hstack).le

theorem ante_start (config : TableConfig) (s : Seat) : (ante config s).start = s.start := by
  unfold ante
  split <;> rfl

theorem exists_max {α : Type} {l : List α} (h : l ≠ []) (f : α → Int) :
    ∃ a ∈ l, ∀ b ∈ l, f b ≤ f a := by
  induction l with
  | nil => exact absurd rfl h
  | cons a l ih =>
    by_cases hl : l = []
    · subst hl
      refine ⟨a, List.mem_cons_self, fun b hb => ?_⟩
      rw [List.mem_singleton.mp hb]
    · obtain ⟨m, hm, hmax⟩ := ih hl
      rcases le_or_gt (f a) (f m) with hle | hgt
      · refine ⟨m, List.mem_cons_of_mem a hm, fun b hb => ?_⟩
        rcases List.mem_cons.mp hb with rfl | hb
        · exact hle
        · exact hmax b hb
      · refine ⟨a, List.mem_cons_self, fun b hb => ?_⟩
        rcases List.mem_cons.mp hb with rfl | hb
        · exact le_refl _
        · exact (hmax b hb).trans hgt.le

/-- The antes set the level: the ante itself, or less if nobody could pay it in full. -/
theorem exists_level_anted (config : TableConfig) (h : Playable starts) :
    ∃ level, Level (anted config starts) level ∧
      ∃ s ∈ anted config starts, s.committed = level := by
  have hne : anted config starts ≠ [] := by
    have := h.two
    intro he
    have hlen := congrArg List.length he
    simp only [anted, List.length_map, List.length_nil] at hlen
    omega
  obtain ⟨w, hw, hmax⟩ := exists_max hne (·.committed)
  refine ⟨w.committed, ⟨hmax, fun s hs hbet => ?_, fun s hs hact => ?_⟩, w, hw, rfl⟩
  · have := (anted_of_mem h hs).bet_eq
    omega
  · have h1 := (anted_of_mem h hs).of_canAct hact
    have h2 := (anted_of_mem h hw).committed_le
    have h3 := hmax s hs
    omega

/-! ## Blinds -/

/-- Seats of which none has folded, at a level that some seat was collected for. -/
structure Seated (seats : List Seat) (level : Int) : Prop where
  balanced : ∀ s ∈ seats, s.Balanced
  inHand : ∀ s ∈ seats, s.inHand = true
  stands : Level seats level
  reached : ∃ s ∈ seats, s.committed = level

variable {seats : List Seat} {level : Int}

/-- A forced bet leaves the level as it is. -/
theorem Seated.putIn (h : Seated seats level) (i : Nat) (amount : Int) :
    Seated (seats.modify i (·.putIn amount)) level := by
  refine ⟨?_, ?_, ?_, ?_⟩
  · exact balanced_modify h.balanced fun s hs => Seat.balanced_putIn hs amount
  · intro s' hs'
    rcases mem_modify hs' with hs' | ⟨s, hs, -, rfl⟩
    · exact h.inHand s' hs'
    · exact h.inHand s hs
  · refine h.stands.modify fun s hs _ => ⟨rfl, fun hbet => ?_, fun hact => ?_⟩
    · have hm := Seat.moved_bounds (h.balanced s hs).stack_nonneg amount
      rcases le_or_gt s.bet 0 with hz | hpos
      · refine Or.inr (Seat.canAct_iff.mpr ⟨h.inHand s hs, ?_⟩)
        rw [Seat.putIn_bet] at hbet
        omega
      · exact Or.inl hpos
    · have hm := Seat.moved_bounds (h.balanced s hs).stack_nonneg amount
      have hpos := (Seat.canAct_iff.mp hact).2
      rw [Seat.putIn_stack] at hpos
      exact Seat.canAct_iff.mpr ⟨h.inHand s hs, by omega⟩
  · obtain ⟨s, hs, hc⟩ := h.reached
    obtain ⟨j, hj⟩ := List.mem_iff_getElem?.mp hs
    have hj' : (seats.modify i (·.putIn amount))[j]? =
        some (if i = j then s.putIn amount else s) := by
      rw [List.getElem?_modify, hj]
      rfl
    refine ⟨_, List.mem_of_getElem? hj', ?_⟩
    split
    · exact hc
    · exact hc

/-- With everybody still in the hand, who has the highest bet leads. -/
theorem Seated.leads (h : Seated seats level) : Leads seats level := by
  obtain ⟨v, hv, hvc⟩ := h.reached
  obtain ⟨w, hw, hmax⟩ := exists_max (List.ne_nil_of_mem hv) (·.bet)
  rcases le_or_gt w.bet 0 with hz | hpos
  · refine ⟨v, hv, h.inHand v hv, hvc, fun s hs => ?_⟩
    have h1 := hmax s hs
    have h2 := (h.balanced v hv).bet_nonneg
    omega
  · exact ⟨w, hw, h.inHand w hw, h.stands.of_bet w hw hpos, hmax⟩

theorem exists_seated_posted (config : TableConfig) (h : Playable starts) :
    ∃ level, Seated (posted config starts) level := by
  obtain ⟨level, hlevel, hreached⟩ := exists_level_anted config h
  have hanted : Seated (anted config starts) level :=
    ⟨fun s hs => (anted_of_mem h hs).balanced, fun s hs => (anted_of_mem h hs).inHand, hlevel,
      hreached⟩
  exact ⟨level, (hanted.putIn _ _).putIn _ _⟩

/-- **A hand begins in play**, whatever the forced bets. -/
theorem inPlay_posted (config : TableConfig) (h : Playable starts) :
    InPlay starts (posted config starts) := by
  obtain ⟨level, hseated⟩ := exists_seated_posted config h
  refine ⟨?_, hseated.balanced, level, hseated.stands, hseated.leads⟩
  unfold posted
  rw [map_modify_of_eq _ (f := (·.putIn config.bigBlind)) fun _ => rfl,
    map_modify_of_eq _ (f := (·.putIn config.smallBlind)) fun _ => rfl]
  unfold anted
  rw [List.map_map]
  refine (List.map_congr_left fun s _ => ?_).trans (List.map_id starts)
  exact ante_start config _

theorem length_posted (config : TableConfig) (starts : List Int) :
    (posted config starts).length = starts.length := by
  unfold posted anted
  rw [List.length_modify, List.length_modify, List.length_map]

/-- Nobody has folded when the hand begins. -/
theorem inHand_posted (h : Playable starts) {s : Seat} (hs : s ∈ posted config starts) :
    s.inHand = true := by
  obtain ⟨level, hseated⟩ := exists_seated_posted config h
  exact hseated.inHand s hs

end Table

end Holdem
