import Holdem.Proofs.Settlement.Input
import Holdem.Proofs.Settlement.Replay

/-!
# Dealing a hand

A replay deals the hole cards in the order of their map, which need not be that of the seats. If the
input describes one table, the entries of the map name every seat once (`exists_deals`). A table
that awaits those cards accepts them one after the other (`Awaiting`, `exists_after_deal`): the last
deal opens the betting, and none comes after it.

So all of a replay before the first street is done (`exists_dealAll`), and what can still be refused
is an action or a board card, or the payoffs of a hand that is not complete.

Result: **`checked_input_is_dealt`**.
-/

namespace Holdem

/-- The deal of two cards to a seat. -/
structure Deal where
  seat : Nat
  first : Card
  second : Card

/-- A deal as a move. -/
def Deal.move (d : Deal) : Move := .hole d.seat d.first d.second

namespace Table

variable {t : Table}

/-- The table awaits the cards of some seats, if there are any. -/
def Awaiting (t : Table) (seats : List Nat) : Prop :=
  seats ≠ [] → t.phase = .dealing ∧ ∀ seat ∈ seats, ∃ s, t.seats[seat]? = some s ∧ s.hole = none

/-- **A seat that is awaited gets its cards**, and the others are awaited still. -/
theorem exists_after_deal {d : Deal} {seats : List Nat} (h : t.Awaiting (d.seat :: seats))
    (hnew : d.seat ∉ seats) : ∃ t', t.after d.move = .ok t' ∧ t'.Awaiting seats := by
  obtain ⟨hphase, hseats⟩ := h (List.cons_ne_nil _ _)
  obtain ⟨s, hs, hhole⟩ := hseats d.seat List.mem_cons_self
  have hother : ∀ seat ∈ seats, ∃ s', (t.dealt d.seat s d.first d.second).seats[seat]? = some s' ∧
      s'.hole = none := by
    intro seat hseat
    obtain ⟨s', hs', hhole'⟩ := hseats seat (List.mem_cons_of_mem _ hseat)
    have hne : d.seat ≠ seat := fun heq => hnew (heq ▸ hseat)
    refine ⟨s', ?_, hhole'⟩
    show (t.seats.set d.seat _)[seat]? = _
    rw [List.getElem?_set_ne hne, hs']
  -- Betting opens when all seats hold cards, and then none of the others is left to be dealt.
  by_cases hall : (t.dealt d.seat s d.first d.second).allDealt = true
  · obtain ⟨notes, hplay⟩ := play_of_transition (.lastHole hphase hs hhole hall)
    refine ⟨_, after_eq_ok.mpr ⟨notes, hplay⟩, fun hmore => ?_⟩
    obtain ⟨seat, hseat⟩ := List.exists_mem_of_ne_nil seats hmore
    obtain ⟨s', hs', hhole'⟩ := hother seat hseat
    have hdealt := List.all_eq_true.mp hall s' (List.mem_of_getElem? hs')
    rw [hhole'] at hdealt
    exact absurd hdealt (by simp)
  · obtain ⟨notes, hplay⟩ :=
      play_of_transition (.hole hphase hs hhole (Bool.not_eq_true _ ▸ hall))
    exact ⟨_, after_eq_ok.mpr ⟨notes, hplay⟩, fun _ => ⟨hphase, hother⟩⟩

/-- Cards for the awaited seats, each of them once, are all accepted. -/
theorem exists_foldlM_deal {deals : List Deal} (h : t.Awaiting (deals.map Deal.seat))
    (hnodup : (deals.map Deal.seat).Nodup) :
    ∃ t', (deals.map Deal.move).foldlM Table.after t = .ok t' := by
  induction deals generalizing t with
  | nil => exact ⟨t, rfl⟩
  | cons d deals ih =>
    obtain ⟨hnew, hnodup⟩ := List.nodup_cons.mp hnodup
    obtain ⟨t₁, hafter, hawait⟩ := exists_after_deal h hnew
    obtain ⟨t', hrest⟩ := ih hawait hnodup
    refine ⟨t', ?_⟩
    rw [List.map_cons, List.foldlM_cons, hafter]
    exact hrest

/-- A created table awaits the cards of all its seats. -/
theorem awaiting_create {config : TableConfig} {starts : List Int} {seed : UInt64}
    (h : create config starts seed = .ok t) {seats : List Nat}
    (hseats : ∀ seat ∈ seats, seat < starts.length) : t.Awaiting seats := by
  obtain ⟨-, rfl⟩ := create_eq_ok h
  refine fun _ => ⟨rfl, fun seat hseat => ?_⟩
  have hlt : seat < (posted config starts).length := by
    rw [length_posted]
    exact hseats seat hseat
  exact ⟨_, List.getElem?_eq_getElem hlt, posted_hole config starts (List.getElem_mem hlt)⟩

end Table

namespace Settlement

variable {chips : Stacks} {holes : HoleCards}

/-! ## The deals of a replay -/

/-- Entries of players with a seat and two cards are deals. -/
theorem exists_deals_of {l : List (String × List Card)}
    (hknown : ∀ player ∈ l.map Prod.fst, player ∈ chips.keys)
    (hcards : ∀ cards ∈ l.map Prod.snd, cards.length = 2) :
    ∃ deals : List Deal, (l.map fun e => (chips.position? e.1, e.2)) =
      deals.map fun d => (some d.seat, [d.first, d.second]) := by
  induction l with
  | nil => exact ⟨[], rfl⟩
  | cons e l ih =>
    rw [List.map_cons, List.forall_mem_cons] at hknown hcards
    obtain ⟨deals, hdeals⟩ := ih hknown.2 hcards.2
    obtain ⟨first, second, htwo⟩ := List.length_eq_two.mp hcards.1
    have hseat : chips.position? e.1 ≠ none := fun hnone =>
      PlayerMap.position?_eq_none_iff.mp hnone hknown.1
    obtain ⟨seat, hseat⟩ := Option.ne_none_iff_exists'.mp hseat
    refine ⟨⟨seat, first, second⟩ :: deals, ?_⟩
    rw [List.map_cons, List.map_cons, hdeals, hseat, htwo]

/-- The seats of the deals are those of the players. -/
theorem map_seat_of_deals {deals : List Deal}
    (h : (holes.entries.map fun e => (chips.position? e.1, e.2)) =
      deals.map fun d => (some d.seat, [d.first, d.second])) :
    (deals.map Deal.seat).map some = holes.keys.map chips.position? := by
  have hfst := congrArg (List.map Prod.fst) h
  rw [List.map_map, List.map_map] at hfst
  unfold PlayerMap.keys
  rw [List.map_map, List.map_map]
  exact hfst.symm

/-- **Every seat is dealt once**: the hole cards, in their order, are deals to all the seats. -/
theorem exists_deals (h : Admissible chips holes) :
    ∃ deals : List Deal, (holes.entries.map fun e => (chips.position? e.1, e.2)) =
        (deals.map fun d => (some d.seat, [d.first, d.second])) ∧
      (deals.map Deal.seat).Perm (List.range chips.size) := by
  obtain ⟨deals, hdeals⟩ :=
    exists_deals_of (fun _ hplayer => h.players.mem_iff.mp hplayer) h.cards
  refine ⟨deals, hdeals, ?_⟩
  rw [← List.map_perm_map_iff (Option.some_injective Nat), map_seat_of_deals hdeals,
    ← PlayerMap.map_position?_keys]
  exact h.players.map _

/-- Dealing is doing the deals, each of them a move. -/
theorem foldlM_dealEntry {l : List (String × List Card)} {deals : List Deal}
    (h : (l.map fun e => (chips.position? e.1, e.2)) =
      deals.map fun d => (some d.seat, [d.first, d.second])) (t : Table) :
    l.foldlM (dealEntry chips) t =
      ((deals.map Deal.move).foldlM Table.after t).mapError (.engine .holeCardDealing) := by
  rw [mapError_foldlM]
  induction l generalizing deals t with
  | nil =>
    obtain rfl := List.map_eq_nil_iff.mp h.symm
    rfl
  | cons e l ih =>
    cases deals with
    | nil => cases h
    | cons d deals =>
      obtain ⟨hentry, hrest⟩ := List.cons.inj h
      obtain ⟨hseat, hcards⟩ := Prod.mk.inj hentry
      have hmove : dealMove chips e = .ok d.move := by
        unfold dealMove
        rw [hseat, hcards]
        rfl
      rw [List.map_cons, List.foldlM_cons, List.foldlM_cons]
      unfold dealEntry
      rw [hmove]
      exact congrArg _ (funext fun t' => ih hrest t')

/-- A created table accepts the deals. -/
theorem exists_foldlM_deals {config : TableConfig} {seed : UInt64} {t : Table} {deals : List Deal}
    (hseats : (deals.map Deal.seat).Perm (List.range chips.size))
    (hcreate : Table.create config chips.values seed = .ok t) :
    ∃ t', (deals.map Deal.move).foldlM Table.after t = .ok t' := by
  refine Table.exists_foldlM_deal (Table.awaiting_create hcreate fun seat hseat => ?_)
    (hseats.nodup_iff.mpr List.nodup_range)
  rw [PlayerMap.length_values, PlayerMap.length_keys]
  exact List.mem_range.mp (hseats.mem_iff.mp hseat)

/-- **The dealing of an admissible hand is never refused.** -/
theorem exists_dealAll (h : Admissible chips holes) (seed : UInt64) :
    ∃ t, dealAll seed chips holes = .ok t := by
  obtain ⟨t₀, hcreate⟩ := h.create .standard seed
  obtain ⟨deals, hdeals, hseats⟩ := exists_deals h
  obtain ⟨t, hplay⟩ := exists_foldlM_deals hseats hcreate
  refine ⟨t, ?_⟩
  unfold dealAll
  rw [hcreate]
  show holes.entries.foldlM (dealEntry chips) t₀ = _
  rw [foldlM_dealEntry hdeals, hplay]
  rfl

/-! ## What is left to be refused -/

/-- The only refusals of an admissible hand: an action or a board card, or payoffs that are read too
early. -/
def Late (e : SettleError) : Prop :=
  (∃ cause, e = .engine .actionProcessing cause) ∨ e = .engine .payoffExtraction .handNotComplete

theorem late_of_conduct {seed : UInt64} {streets : List Street} {e : SettleError}
    (h : Admissible chips holes) (he : conduct seed chips holes streets = .error e) :
    ∃ cause, e = .engine .actionProcessing cause := by
  obtain ⟨t, hdeal⟩ := exists_dealAll h seed
  unfold conduct at he
  rw [hdeal] at he
  obtain ⟨cause, -, rfl⟩ := mapError_eq_error.mp he
  exact ⟨cause, rfl⟩

theorem late_of_results {t : Table} {e : SettleError} (he : results chips t = .error e) :
    e = .engine .payoffExtraction .handNotComplete := by
  obtain ⟨cause, hpayoffs, rfl⟩ := mapError_eq_error.mp (map_eq_error.mp he)
  unfold Table.payoffs at hpayoffs
  split at hpayoffs
  · cases hpayoffs
  · cases hpayoffs
    rfl

theorem late_of_conduct_results {seed : UInt64} {streets : List Street} {e : SettleError}
    (h : Admissible chips holes)
    (he : (conduct seed chips holes streets >>= results chips) = .error e) : Late e := by
  rcases bind_eq_error.mp he with hconduct | ⟨t, -, hresults⟩
  · exact Or.inl (late_of_conduct h hconduct)
  · exact Or.inr (late_of_results hresults)

/-- **A settlement is refused** for its text, for its input as the check found it, or late. -/
theorem error_of_answer {seed : UInt64} {text : String} {e : SettleError}
    (h : answer seed chips holes text = .error e) :
    (∃ cause, e = .sequence cause) ∨
      (∃ cause, checkInput chips holes = .error cause ∧ e = .input cause) ∨
        checkInput chips holes = .ok () ∧ Late e := by
  unfold answer at h
  rcases bind_eq_error.mp h with htext | ⟨sequence, -, hrest⟩
  · obtain ⟨cause, -, rfl⟩ := mapError_eq_error.mp htext
    exact Or.inl ⟨cause, rfl⟩
  · rcases bind_eq_error.mp hrest with hinput | ⟨_, hinput, hplay⟩
    · obtain ⟨cause, hcheck, rfl⟩ := mapError_eq_error.mp hinput
      exact Or.inr (Or.inl ⟨cause, hcheck, rfl⟩)
    · have hcheck := mapError_eq_ok.mp hinput
      refine Or.inr (Or.inr ⟨hcheck, ?_⟩)
      split at hplay
      · cases hplay
      · exact late_of_conduct_results (checkInput_eq_ok_iff.mp hcheck) hplay

end Settlement

/-- **Three checks agree.** For all stacks and hole cards
* the check of the input accepts exactly two players or more, whose hole cards have the players of
  the stacks in some order, with positive stacks that add up to an amount that can be counted, and
  two cards for each;
* that amount is what adding positive stacks up one by one on 64 bits can count;
* what is accepted passes the check of a submitted hand, a table is made of its stacks, and each of
  its entries deals two cards to a seat, to every seat once; the table accepts the deals in their
  order, and the dealing of a replay is these deals;
* a replay of it, from any progress, is refused at an action or a board card, or for payoffs before
  the hand is complete, and for nothing else;
* so a settlement that the engine refuses is refused at one of these, and one whose input is refused
  was refused by the check. -/
theorem checked_input_is_dealt (chips : Stacks) (holes : HoleCards) :
    (checkInput chips holes = .ok () ↔
      2 ≤ chips.size ∧ holes.keys.Perm chips.keys ∧ (∀ stack ∈ chips.values, 0 < stack) ∧
        Chips.total chips.values ≤ Chips.most ∧ ∀ cards ∈ holes.values, cards.length = 2) ∧
    ((∀ stack ∈ chips.values, 0 < stack) →
      ((∃ sum, InPlace.sum chips.values = .ok sum) ↔ Chips.total chips.values ≤ Chips.most)) ∧
    (checkInput chips holes = .ok () →
      (∀ roles text, HandInput.check ⟨chips, roles, holes, text⟩ = .ok ()) ∧
      (∀ config seed, ∃ t, Table.create config chips.values seed = .ok t) ∧
      (∃ deals : List Deal,
        (holes.entries.map fun e => (chips.position? e.1, e.2)) =
          (deals.map fun d => (some d.seat, [d.first, d.second])) ∧
        (deals.map Deal.seat).Perm (List.range chips.size) ∧
        ∀ config seed t, Table.create config chips.values seed = .ok t →
          ∃ t', (deals.map Deal.move).foldlM Table.after t = .ok t' ∧
            ∀ log, Settlement.outcome ((holes.entries.forM fun (player, cards) =>
              Settlement.dealHole (Table.engine seed) chips player cards).run ⟨t, log⟩) =
                .ok ((), t')) ∧
      ∀ seed sequence p e,
        ((Settlement.replay (Table.engine seed) chips holes sequence).run p).1 = .error e →
          (∃ cause, e = .engine .actionProcessing cause) ∨
            e = .engine .payoffExtraction .handNotComplete) ∧
    ∀ text,
      (∀ stage cause, (settle chips holes text).result = .error (.engine stage cause) →
        stage = .actionProcessing ∨ stage = .payoffExtraction ∧ cause = .handNotComplete) ∧
      ∀ cause, (settle chips holes text).result = .error (.input cause) →
        checkInput chips holes = .error cause := by
  refine ⟨?_, sum_ok_iff, fun hcheck => ?_,
    fun text => ⟨fun stage cause he => ?_, fun cause he => ?_⟩⟩
  · rw [checkInput_eq_ok_iff]
    constructor
    · exact fun h => ⟨h.two, h.players, h.pos, h.fits, h.cards⟩
    · rintro ⟨htwo, hplayers, hpos, hfits, hcards⟩
      exact ⟨htwo, hplayers, hpos, hfits, hcards⟩
  · have hinput := checkInput_eq_ok_iff.mp hcheck
    obtain ⟨deals, hdeals, hseats⟩ := Settlement.exists_deals hinput
    refine ⟨hinput.check, hinput.create, ⟨deals, hdeals, hseats, fun config seed t hcreate => ?_⟩,
      fun seed sequence p e he => ?_⟩
    · obtain ⟨t', hplay⟩ := Settlement.exists_foldlM_deals hseats hcreate
      refine ⟨t', hplay, fun log => ?_⟩
      have hloop := Settlement.computes_forM fun e (_ : e ∈ holes.entries) =>
        Settlement.computes_dealHole seed chips e
      refine (hloop ⟨t, log⟩).trans ?_
      show Except.map _ (holes.entries.foldlM (Settlement.dealEntry chips) t) = _
      rw [Settlement.foldlM_dealEntry hdeals, hplay]
      rfl
    · rw [Settlement.replay_result] at he
      exact Settlement.late_of_conduct_results hinput he
  · rw [settle_result] at he
    rcases Settlement.error_of_answer he with ⟨_, h⟩ | ⟨_, -, h⟩ | ⟨-, ⟨_, h⟩ | h⟩
    · cases h
    · cases h
    · cases h
      exact Or.inl rfl
    · cases h
      exact Or.inr ⟨rfl, rfl⟩
  · rw [settle_result] at he
    rcases Settlement.error_of_answer he with ⟨_, h⟩ | ⟨cause', hcheck, h⟩ | ⟨-, ⟨_, h⟩ | h⟩
    · cases h
    · cases h
      exact hcheck
    · cases h
    · cases h

/-- The players of `crosswiseHoles` have these chips. -/
def crosswiseChips : Stacks := ⟨[("A", 100), ("B", 250)], by decide⟩

/-- Hole cards in another order than the seats. -/
def crosswiseHoles : HoleCards :=
  ⟨[("B", [⟨.king, .spades⟩, ⟨.king, .hearts⟩]), ("A", [⟨.ace, .spades⟩, ⟨.ace, .hearts⟩])],
    by decide⟩

/-- Seat 1 is dealt before seat 0. -/
theorem checked_input_is_dealt_crosswise :
    checkInput crosswiseChips crosswiseHoles = .ok () ∧
      (∃ t, Table.create .standard [100, 250] Deck.defaultSeed = .ok t) ∧
      (∃ deals : List Deal, deals.map Deal.seat = [1, 0] ∧
        (deals.map Deal.seat).Perm (List.range 2)) ∧
      ∀ seed sequence p e, ((Settlement.replay (Table.engine seed) crosswiseChips crosswiseHoles
        sequence).run p).1 = .error e → (∃ cause, e = .engine .actionProcessing cause) ∨
          e = .engine .payoffExtraction .handNotComplete := by
  have hcheck : checkInput crosswiseChips crosswiseHoles = .ok () := by decide +kernel
  obtain ⟨-, -, haccepted, -⟩ := checked_input_is_dealt crosswiseChips crosswiseHoles
  obtain ⟨-, hcreate, ⟨deals, hdeals, hseats, -⟩, hreplay⟩ := haccepted hcheck
  have hsome : (deals.map Deal.seat).map some = [1, 0].map some :=
    Settlement.map_seat_of_deals hdeals
  exact ⟨hcheck, hcreate .standard Deck.defaultSeed,
    ⟨deals, List.map_injective_iff.mpr (Option.some_injective Nat) hsome, hseats⟩, hreplay⟩

end Holdem
