import Holdem.Proofs.PlayerMap
import Holdem.Proofs.Settlement.Yields
import Holdem.Proofs.Table.Payoff

/-!
# Settlements are zero-sum

A settlement that is accepted pays every player of the stacks once, in their order, and the amounts
add up to zero. There are two ways to it:

* the shortcut, whose amounts are fixed (`total_shortcut`);
* the replay on a table. `Played` says that the table is one that a run leads to; every call keeps
  that (`yields_play`), so the payoffs that are read at the end are those of a finished hand.

Result: **`settle_zero_sum`**.
-/

namespace Holdem

/-! ## The table as an engine -/

namespace Settlement

variable {config : TableConfig} {starts : List Int}

theorem reply_ok {t : Table} {x : Except TableError (Noted Table)} {u : Unit}
    (h : (t.reply x).result = .ok u) : ∃ r, x = .ok r ∧ (t.reply x).state = r.1 := by
  cases x with
  | error e => exact absurd h (by simp [Table.reply])
  | ok r => exact ⟨r, rfl, rfl⟩

/-- Seating the players begins a run. -/
theorem yields_create (seed : UInt64) (stage : Stage) (config : TableConfig) (starts : List Int) :
    Yields (fun _ => True) (call stage ((Table.engine seed).create config starts))
      fun _ => Played config starts := by
  refine yields_call fun t u _ hok => ?_
  obtain ⟨r, hr, hstate⟩ := reply_ok hok
  change (Table.create config starts seed).map _ = .ok r at hr
  cases hcreate : Table.create config starts seed with
  | error e =>
    rw [hcreate] at hr
    exact absurd hr (by simp [Except.map])
  | ok t' =>
    rw [hcreate] at hr
    cases hr
    show Played config starts ((t.reply _).state)
    rw [hstate]
    exact ⟨[], .create hcreate⟩

/-- **A move carries the run on.** -/
theorem yields_play (stage : Stage) (m : Move) :
    Yields (Played config starts) (call stage fun t => t.reply (t.play m))
      fun _ => Played config starts := by
  refine yields_call fun t u ht hok => ?_
  obtain ⟨turns, hrun⟩ := ht
  obtain ⟨r, hr, hstate⟩ := reply_ok hok
  rw [hstate]
  exact ⟨_, .move hrun hr⟩

theorem yields_actor (seed : UInt64) (stage : Stage) :
    Yields (Played config starts) (call stage (Table.engine seed).actor)
      fun _ => Played config starts :=
  yields_call fun _ _ ht _ => ht

theorem yields_readBehind (seed : UInt64) :
    Yields (Played config starts) (readBehind (Table.engine seed))
      fun _ => Played config starts := by
  rintro p a p' hrun hp
  cases hrun
  exact hp

/-! ## The parts of a replay -/

variable (seed : UInt64)

theorem yields_dealHole (chips : Stacks) (player : String) (cards : List Card) :
    Yields (Played config starts) (dealHole (Table.engine seed) chips player cards)
      fun _ => Played config starts := by
  unfold dealHole
  split
  · exact yields_throw _
  · rename_i seat first second _
    exact yields_bind (yields_play _ (.hole seat first second)) fun _ => yields_emit _
  · exact yields_throw _

theorem yields_playAction (a : Action) :
    Yields (Played config starts) (playAction (Table.engine seed) a)
      fun _ => Played config starts := by
  unfold playAction
  refine yields_bind (yields_actor seed _) fun seat => ?_
  cases a with
  | fold => exact yields_bind (yields_play _ .fold) fun _ => yields_emit _
  | checkOrCall =>
    exact yields_bind (yields_play _ .checkOrCall) fun _ => yields_emit _
  | raiseTo amount =>
    exact yields_bind (yields_play _ (.raiseTo amount)) fun _ => yields_emit _
  | allIn =>
    refine yields_bind (yields_readBehind seed) fun behind => ?_
    split
    · rename_i stack _
      exact yields_bind (yields_play _ (.raiseTo stack)) fun _ => yields_emit _
    · exact yields_bind (Q := fun _ => Played config starts) (yields_throw _) fun _ => yields_emit _

theorem yields_playStreet (street : Street) :
    Yields (Played config starts) (playStreet (Table.engine seed) street)
      fun _ => Played config starts := by
  cases street with
  | board kind cards =>
    refine yields_bind (yields_play _ .burn) fun _ => ?_
    refine yields_bind (yields_forM fun c _ => yields_play _ (.board c)) fun _ => ?_
    exact yields_emit _
  | betting actions => exact yields_forM fun a _ => yields_playAction seed a

/-! ## Amounts that add up to zero -/

/-- The amounts of a settlement: one for each player, in order, that add up to zero. -/
def ZeroSum (chips : Stacks) (winnings : Winnings) : Prop :=
  winnings.keys = chips.keys ∧ Chips.total winnings.values = 0

theorem zeroSum_ofList {chips : Stacks} {amounts : List Int}
    (hlen : amounts.length = chips.keys.length) (hsum : Chips.total amounts = 0) :
    ZeroSum chips (.ofList (chips.keys.zip amounts)) :=
  ⟨PlayerMap.keys_ofList_zip hlen, by rw [PlayerMap.values_ofList_zip hlen, hsum]⟩

/-- What seat 1 loses in the shortcut, seat 2 wins. -/
theorem total_shortcut {n : Nat} (h : 3 ≤ n) :
    Chips.total ((List.range n).map shortcutResult) = 0 := by
  have hsplit : ∀ seat ∈ List.range n, shortcutResult seat =
      (if 1 = seat then -shortcutLoss else 0) + (if 2 = seat then shortcutLoss else 0) := by
    intro seat _
    unfold shortcutResult
    by_cases h1 : seat = 1
    · subst h1
      rfl
    · by_cases h2 : seat = 2
      · subst h2
        rfl
      · rw [if_neg h1, if_neg h2, if_neg (Ne.symm h1), if_neg (Ne.symm h2)]
        rfl
  rw [List.map_congr_left hsplit, Chips.total_map_add, Chips.total_range_single (by omega),
    Chips.total_range_single (by omega)]
  omega

/-- The shortcut gives every seat its fixed result. -/
theorem shortcut?_eq_some {chips : Stacks} {sequence : ActionSequence} {winnings : Winnings}
    (h : shortcut? chips sequence = some winnings) : 3 ≤ chips.keys.length ∧
      winnings = .ofList (chips.keys.zip ((List.range chips.keys.length).map shortcutResult)) := by
  unfold shortcut? at h
  split at h
  · rename_i hsize
    have hzip : chips.keys.zipIdx.map (fun e => (e.1, shortcutResult e.2)) =
        chips.keys.zip ((List.range chips.keys.length).map shortcutResult) := by
      rw [List.zipIdx_eq_zip_range', ← List.range_eq_range', List.zip_map_right]
      rfl
    rw [← hzip]
    refine ⟨?_, (Option.some.inj h).symm⟩
    unfold PlayerMap.keys
    rw [List.length_map]
    exact hsize.1
  · exact absurd h (by simp)

theorem zeroSum_shortcut {chips : Stacks} {sequence : ActionSequence} {winnings : Winnings}
    (h : shortcut? chips sequence = some winnings) : ZeroSum chips winnings := by
  obtain ⟨hsize, rfl⟩ := shortcut?_eq_some h
  exact zeroSum_ofList (by rw [List.length_map, List.length_range]) (total_shortcut hsize)

/-- **The payoffs of a complete hand** are one for each player and add up to zero. -/
theorem zeroSum_payoffs {chips : Stacks} {t : Table} {payoffs : List Int}
    (ht : Played config chips.values t) (h : t.payoffs = .ok payoffs) :
    ZeroSum chips (.ofList (chips.keys.zip payoffs)) := by
  obtain ⟨turns, hrun⟩ := ht
  unfold Table.payoffs at h
  split at h
  · rename_i hcomplete
    have hfin := hrun.inv.finished_of_phase (of_decide_eq_true hcomplete)
    cases h
    refine zeroSum_ofList ?_ hfin.total_payoff
    rw [List.length_map, ← PlayerMap.length_values, ← hfin.starts_eq, List.length_map]
  · exact absurd h (by simp)

theorem yields_replay (chips : Stacks) (holes : HoleCards) (sequence : ActionSequence) :
    Yields (fun _ => True) (replay (Table.engine seed) chips holes sequence)
      fun winnings _ => ZeroSum chips winnings := by
  unfold replay
  refine yields_bind (yields_emit _) fun _ => ?_
  refine yields_bind (yields_create seed _ .standard chips.values) fun _ => ?_
  refine yields_bind (yields_forM fun e _ => yields_dealHole seed chips e.1 e.2) fun _ => ?_
  refine yields_bind (yields_forM fun street _ => yields_playStreet seed street) fun _ => ?_
  refine yields_bind (Q := fun payoffs _ => ZeroSum chips (.ofList (chips.keys.zip payoffs)))
    (yields_call fun t payoffs ht hok => zeroSum_payoffs ht hok) fun payoffs => ?_
  exact yields_pure fun _ hsum => hsum

/-- A settlement on a table leads to amounts that add up to zero. -/
theorem yields_run (chips : Stacks) (holes : HoleCards) (text : String) :
    Yields (fun _ => True) (run (Table.engine seed) chips holes text)
      fun winnings _ => ZeroSum chips winnings := by
  unfold run
  split
  · exact yields_throw _
  · rename_i sequence _
    refine yields_bind (yields_emit _) fun _ => ?_
    split
    · exact yields_throw _
    · have hsettled : ∀ winnings : Winnings, Yields (fun _ => ZeroSum chips winnings)
          (emit (.settled winnings.entries) >>= fun _ =>
            pure winnings : Settling Table Note Winnings)
          fun winnings _ => ZeroSum chips winnings := fun winnings =>
        yields_bind (yields_emit _) fun _ => yields_pure fun _ hsum => hsum
      split
      · rename_i winnings hshort
        exact yields_bind (yields_emit _) fun _ =>
          yields_bind (yields_pure fun _ _ => zeroSum_shortcut hshort) hsettled
      · exact yields_bind (yields_replay seed chips holes sequence) hsettled

end Settlement

/-- **Settlements are zero-sum.** Whatever the stacks, the hole cards and the text of the hand, the
winnings of an accepted settlement have the players of the stacks, in their order, and add up to
zero. -/
theorem settle_zero_sum {chips : Stacks} {holes : HoleCards} {text : String} {winnings : Winnings}
    (h : (settle chips holes text).result = .ok winnings) :
    winnings.keys = chips.keys ∧ Chips.total winnings.values = 0 := by
  unfold settle settleOn at h
  split at h
  · rename_i w p hrun
    cases h
    have hyields := Settlement.yields_run Deck.defaultSeed chips holes text
    exact hyields ⟨.vacant, []⟩ winnings p hrun trivial
  · exact absurd h (by simp)

/-- Two players raise each other before the flop, and one folds. -/
theorem settle_zero_sum_heads_up : ∃ winnings,
    (settle ⟨[("A", 300), ("B", 500)], by decide⟩
      ⟨[("A", [⟨.ace, .spades⟩, ⟨.ace, .hearts⟩]), ("B", [⟨.king, .spades⟩, ⟨.king, .hearts⟩])],
        by decide⟩ "c r100 r300 f").result = .ok winnings ∧
      winnings.entries = [("A", -100), ("B", 100)] ∧ winnings.keys = ["A", "B"] ∧
      Chips.total winnings.values = 0 := by
  have hresult : (settle ⟨[("A", 300), ("B", 500)], by decide⟩
      ⟨[("A", [⟨.ace, .spades⟩, ⟨.ace, .hearts⟩]), ("B", [⟨.king, .spades⟩, ⟨.king, .hearts⟩])],
        by decide⟩ "c r100 r300 f").result =
      .ok (⟨[("A", -100), ("B", 100)], by decide⟩ : Winnings) := by decide +kernel
  obtain ⟨hkeys, htotal⟩ := settle_zero_sum hresult
  exact ⟨_, hresult, rfl, hkeys, htotal⟩

end Holdem
