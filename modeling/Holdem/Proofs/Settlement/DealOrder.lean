import Holdem.Proofs.Settlement.Dealing
import Holdem.Proofs.Table.Seen

/-!
# The order in which hands are dealt

Hole cards are dealt in the order of their map, each deal takes its cards out of the same deck, and
the last one opens the betting. The tables on the way differ with the order, but not the one to
which they lead:

* Two deals to different seats can be exchanged (`give_comm`), also if they name the same card: a
  card that is taken out twice leaves the deck once.
* Betting opens when no seat lacks cards, so after the last deal and not before (`foldlM_deal`).
* **`dealAll_congr`**: hole cards with the same entries lead to the same table.

Result: **`deal_order_irrelevant`**.
-/

namespace Holdem

/-- A card that is not in a deck leaves it as it is. -/
theorem Deck.take_snd (d : Deck) (c : Card) : (d.take c).2 = ⟨d.cards.erase c⟩ := by
  unfold take
  split
  · rfl
  · rename_i hnot
    rw [List.erase_of_not_mem hnot]

/-- Cards may be taken out in any order. -/
theorem Deck.take_comm (d : Deck) (a b : Card) :
    ((d.take a).2.take b).2 = ((d.take b).2.take a).2 := by
  simp only [take_snd, List.erase_comm]

namespace Table

variable {t : Table} {d e : Deal} {deals deals' : List Deal} {seats : List Nat}

/-! ## Deals -/

/-- The table after a deal, before the betting opens. -/
def give (t : Table) (d : Deal) : Table :=
  { t with
    deck := ((t.deck.take d.first).2.take d.second).2
    seats := t.seats.modify d.seat (holding (d.first, d.second)) }

theorem dealt_eq_give {s : Seat} (hs : t.seats[d.seat]? = some s) :
    t.dealt d.seat s d.first d.second = t.give d :=
  congrArg (fun seats => { t.dealt d.seat s d.first d.second with seats })
    (dealt_seats hs d.first d.second)

theorem give_getElem? (t : Table) (d : Deal) (i : Nat) :
    (t.give d).seats[i]? =
      if d.seat = i then (t.seats[i]?).map (holding (d.first, d.second)) else t.seats[i]? := by
  show (t.seats.modify d.seat _)[i]? = _
  rw [List.getElem?_modify]
  by_cases h : d.seat = i <;> simp [h]

/-- **Deals to different seats** can be exchanged. -/
theorem give_comm (t : Table) (h : d.seat ≠ e.seat) : (t.give d).give e = (t.give e).give d := by
  have hdeck : ((((t.deck.take d.first).2.take d.second).2.take e.first).2.take e.second).2 =
      ((((t.deck.take e.first).2.take e.second).2.take d.first).2.take d.second).2 := by
    rw [Deck.take_comm _ d.second e.first, Deck.take_comm _ d.first e.first,
      Deck.take_comm _ d.second e.second, Deck.take_comm _ d.first e.second]
  unfold give
  simp only [hdeck, List.modify_modify_ne _ _ _ h]

/-- Deals to different seats lead to the same table in any order. -/
theorem foldl_give_perm (h : deals.Perm deals') (hnodup : (deals.map Deal.seat).Nodup)
    (t : Table) : deals.foldl give t = deals'.foldl give t := by
  refine h.foldl_eq' (fun d hd e he t => ?_) t
  by_cases hseat : d.seat = e.seat
  · rw [List.inj_on_of_nodup_map hnodup hd he hseat]
  · exact give_comm t hseat

/-! ## The last deal -/

/-- The seats without cards, while cards are dealt. -/
structure Lacking (t : Table) (seats : List Nat) : Prop where
  phase : t.phase = .dealing
  mem_iff : ∀ i, i ∈ seats ↔ ∃ s, t.seats[i]? = some s ∧ s.hole = none

theorem Lacking.allDealt_iff (h : t.Lacking seats) : t.allDealt = true ↔ seats = [] := by
  unfold allDealt
  rw [List.all_eq_true]
  constructor
  · intro hall
    refine List.eq_nil_iff_forall_not_mem.mpr fun i hi => ?_
    obtain ⟨s, hs, hhole⟩ := (h.mem_iff i).mp hi
    simpa [hhole] using hall s (List.mem_of_getElem? hs)
  · rintro rfl s hs
    obtain ⟨i, hi⟩ := List.mem_iff_getElem?.mp hs
    by_contra hhole
    exact List.not_mem_nil ((h.mem_iff i).mpr ⟨s, hi, by simpa using hhole⟩)

/-- A seat that gets cards is the only one that lacks none any more. -/
theorem Lacking.give (h : t.Lacking (d.seat :: seats)) (hnew : d.seat ∉ seats) :
    (t.give d).Lacking seats := by
  refine ⟨h.phase, fun i => ?_⟩
  have hmem := h.mem_iff i
  rw [give_getElem?]
  split
  · rename_i hi
    subst hi
    constructor
    · exact fun hi => absurd hi hnew
    · rintro ⟨s', hs', hhole⟩
      obtain ⟨s, -, rfl⟩ := Option.map_eq_some_iff.mp hs'
      exact absurd hhole (by simp [holding])
  · rename_i hi
    rw [← hmem, List.mem_cons]
    simp [Ne.symm hi]

/-- A seat without cards is dealt some, and the last one opens the betting. -/
theorem Lacking.after_deal (h : t.Lacking (d.seat :: seats)) (hnew : d.seat ∉ seats) :
    t.after d.move = .ok (if seats = [] then (t.give d).openBetting.1 else t.give d) := by
  obtain ⟨s, hs, hhole⟩ := (h.mem_iff d.seat).mp List.mem_cons_self
  have hall := (h.give hnew).allDealt_iff
  unfold Deal.move
  rw [after_hole h.phase hs, dealt_eq_give hs, hhole]
  simp [hall]

/-- **Dealing to all seats that lack cards** opens the betting once, at the end. -/
theorem foldlM_deal (h : t.Lacking (deals.map Deal.seat)) (hnodup : (deals.map Deal.seat).Nodup)
    (hne : deals ≠ []) :
    (deals.map Deal.move).foldlM after t = .ok (deals.foldl Table.give t).openBetting.1 := by
  induction deals generalizing t with
  | nil => exact absurd rfl hne
  | cons d deals ih =>
    obtain ⟨hnew, hnodup⟩ := List.nodup_cons.mp hnodup
    rw [List.map_cons, List.foldlM_cons, List.foldl_cons, h.after_deal hnew]
    by_cases hlast : deals = []
    · subst hlast
      rfl
    · rw [if_neg (by simpa using hlast)]
      exact ih (h.give hnew) hnodup hlast

/-- At a created table all seats lack cards. -/
theorem lacking_create {config : TableConfig} {starts : List Int} {seed : UInt64}
    (h : create config starts seed = .ok t) (hseats : seats.Perm (List.range starts.length)) :
    t.Lacking seats := by
  obtain ⟨-, rfl⟩ := create_eq_ok h
  refine ⟨rfl, fun i => ?_⟩
  rw [hseats.mem_iff, List.mem_range, ← length_posted config starts]
  constructor
  · intro hi
    exact ⟨_, List.getElem?_eq_getElem hi, posted_hole config starts (List.getElem_mem hi)⟩
  · rintro ⟨s, hs, -⟩
    exact (List.getElem?_eq_some_iff.mp hs).1

end Table

namespace Settlement

variable {chips : Stacks} {holes holes' : HoleCards} {deals : List Deal}

/-- **What dealing leads to**: the table with all deals done, in whatever order, and the betting
open. -/
theorem dealAll_of_deals (h : Admissible chips holes)
    (hdeals : (holes.entries.map fun e => (chips.position? e.1, e.2)) =
      deals.map fun d => (some d.seat, [d.first, d.second]))
    (hseats : (deals.map Deal.seat).Perm (List.range chips.size)) {seed : UInt64} {t : Table}
    (hcreate : Table.create .standard chips.values seed = .ok t) :
    dealAll seed chips holes = .ok (deals.foldl Table.give t).openBetting.1 := by
  have hlen : chips.values.length = chips.size := by
    rw [PlayerMap.length_values, PlayerMap.length_keys]
  have hne : deals ≠ [] := by
    rintro rfl
    have hnone : 0 = chips.size := by simpa using hseats.length_eq
    have htwo := h.two
    omega
  have hlacking := Table.lacking_create hcreate (hlen ▸ hseats)
  unfold dealAll
  rw [hcreate]
  show holes.entries.foldlM (dealEntry chips) t = _
  rw [foldlM_dealEntry hdeals,
    Table.foldlM_deal hlacking (hseats.nodup_iff.mpr List.nodup_range) hne]
  rfl

theorem deal_injective :
    Function.Injective fun d : Deal => (some d.seat, [d.first, d.second]) := by
  rintro ⟨seat, first, second⟩ ⟨seat', first', second'⟩ h
  simpa using h

/-- **Hole cards with the same entries lead to the same table.** -/
theorem dealAll_congr (h : Admissible chips holes) (h' : Admissible chips holes')
    (hsame : holes.entries.Perm holes'.entries) (seed : UInt64) :
    dealAll seed chips holes = dealAll seed chips holes' := by
  obtain ⟨t, hcreate⟩ := h.create .standard seed
  obtain ⟨deals, hdeals, hseats⟩ := exists_deals h
  obtain ⟨deals', hdeals', hseats'⟩ := exists_deals h'
  have hperm : deals.Perm deals' := by
    rw [← List.map_perm_map_iff deal_injective, ← hdeals, ← hdeals']
    exact hsame.map _
  rw [dealAll_of_deals h hdeals hseats hcreate, dealAll_of_deals h' hdeals' hseats' hcreate,
    Table.foldl_give_perm hperm (hseats.nodup_iff.mpr List.nodup_range)]

end Settlement

variable {chips : Stacks} {holes holes' : HoleCards}

theorem Admissible.congr (h : Admissible chips holes)
    (hsame : holes.entries.Perm holes'.entries) : Admissible chips holes' where
  two := h.two
  players := (hsame.map Prod.fst).symm.trans h.players
  pos := h.pos
  fits := h.fits
  cards := fun cards hcards => h.cards cards ((hsame.map Prod.snd).mem_iff.mpr hcards)

/-- **The order of the hole cards makes no difference.** If the check of the input accepts hole
cards, it accepts the same entries in any other order, and for every text both are settled with the
same winnings or refused with the same error. -/
theorem deal_order_irrelevant (hsame : holes.entries.Perm holes'.entries)
    (hcheck : checkInput chips holes = .ok ()) :
    checkInput chips holes' = .ok () ∧
      ∀ text, (settle chips holes text).result = (settle chips holes' text).result := by
  have hinput := checkInput_eq_ok_iff.mp hcheck
  have hinput' := hinput.congr hsame
  have hcheck' := checkInput_eq_ok_iff.mpr hinput'
  refine ⟨hcheck', fun text => ?_⟩
  rw [settle_result, settle_result]
  unfold Settlement.answer Settlement.conduct
  rw [hcheck, hcheck', Settlement.dealAll_congr hinput hinput' hsame]

/-- Hole cards in which both players name the ace of spades. -/
def sharedAceHoles : HoleCards :=
  ⟨[("A", [⟨.ace, .spades⟩, ⟨.king, .hearts⟩]), ("B", [⟨.queen, .clubs⟩, ⟨.ace, .spades⟩])],
    by decide⟩

/-- `sharedAceHoles` in the other order. -/
def sharedAceHolesReversed : HoleCards :=
  ⟨[("B", [⟨.queen, .clubs⟩, ⟨.ace, .spades⟩]), ("A", [⟨.ace, .spades⟩, ⟨.king, .hearts⟩])],
    by decide⟩

/-- Each order takes the ace of spades out of the deck with another player's cards, and both lead to
the same winnings. -/
theorem deal_order_irrelevant_shared_ace :
    sharedAceHoles.entries ≠ sharedAceHolesReversed.entries ∧
      sharedAceHoles.entries.Perm sharedAceHolesReversed.entries ∧
      checkInput crosswiseChips sharedAceHoles = .ok () ∧
      checkInput crosswiseChips sharedAceHolesReversed = .ok () ∧
      (∀ text, (settle crosswiseChips sharedAceHoles text).result =
        (settle crosswiseChips sharedAceHolesReversed text).result) ∧
      ((settle crosswiseChips sharedAceHoles "f").result.toOption.map PlayerMap.entries) =
        some [("A", 20), ("B", -20)] := by
  have hsame : sharedAceHoles.entries.Perm sharedAceHolesReversed.entries := List.Perm.swap _ _ _
  have hcheck : checkInput crosswiseChips sharedAceHoles = .ok () := by decide +kernel
  obtain ⟨hcheck', hresult⟩ := deal_order_irrelevant hsame hcheck
  exact ⟨by decide, hsame, hcheck, hcheck', hresult, by decide +kernel⟩

end Holdem
