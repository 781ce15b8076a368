import Holdem.Proofs.InPlace.Agreement
import Holdem.Proofs.Json.Invariant
import Holdem.Proofs.Record.RoundTrip
import Holdem.Proofs.Settlement.Losses

/-!
# The amounts of hands that come in

Every amount of a hand that is read has 64 signed bits (`HandInput.fits_of_parse`), and so have the
winnings it is settled with, as nobody wins more than there is (`fits_of_settle`). So a record has
such amounts if the hand has that it is made of (`HandRecord.fits_of_process`), and is read back from
its text.
-/

namespace Holdem

variable {s rest : List Char}

theorem Stacks.fit_of_read {m : PlayerMap Int} (h : Stacks.reader s = .ok (m, rest)) :
    Stacks.Fit m :=
  Json.playerMap_keeps (fun _ _ _ hread => Json.fits_of_integer hread) h

/-- **The stacks of a hand that is read** have 64 signed bits. -/
theorem HandInput.fits_of_parse {text : String} {input : HandInput}
    (h : Json.parse HandInput.reader text = .ok input) : input.Fits := by
  obtain ⟨s, hread⟩ := Json.exists_of_parse h
  obtain ⟨b, hb, hfinish⟩ := Json.record_keeps
    (P := fun b : HandInput.Fields => ∀ m, b.stackSettings = some m → Stacks.Fit m)
    (by
      simp only [List.forall_mem_cons]
      refine ⟨Json.field_keeps ?_, Json.field_keeps ?_, Json.field_keeps ?_, Json.field_keeps ?_,
        fun _ h => absurd h List.not_mem_nil⟩
      · rintro b v s rest - hv m ⟨⟩
        exact Stacks.fit_of_read hv
      all_goals exact fun b v s rest hb _ => hb)
    (fun m hm => by cases hm) hread
  obtain ⟨m, hm, hfinish⟩ := bind_eq_ok.mp hfinish
  obtain ⟨_, -, hfinish⟩ := bind_eq_ok.mp hfinish
  obtain ⟨_, -, hfinish⟩ := bind_eq_ok.mp hfinish
  obtain ⟨_, -, hfinish⟩ := bind_eq_ok.mp hfinish
  cases hfinish
  exact hb _ (Json.need_eq_ok.mp hm)

/-- The results of the shortcut are small. -/
theorem Settlement.fits_shortcutResult (seat : Nat) : Chips.fits (shortcutResult seat) = true := by
  unfold shortcutResult
  split
  · rfl
  · split <;> rfl

/-- Nobody wins or loses more than there is. -/
theorem Seat.fits_payoff {starts : List Int} {t : Table} {s : Seat} (hp : Playable starts)
    (h : Table.Finished starts t) (hs : s ∈ t.seats) : Chips.fits s.payoff = true := by
  obtain ⟨i, hi⟩ := List.mem_iff_getElem?.mp hs
  have hstack := h.stack_nonneg hi
  have hmost := InPlace.stack_le_of_finished hp h hs
  have hstart : s.start ∈ starts := h.starts_eq ▸ List.mem_map_of_mem hs
  have hpos := hp.pos _ hstart
  have hle := (Chips.le_total (fun n hn => (hp.pos n hn).le) hstart).trans hp.fits
  have hleast : Chips.least ≤ -Chips.most := by decide
  unfold Seat.payoff
  exact InPlace.fits_iff.mpr ⟨by omega, by omega⟩

/-- Amounts given out to some players fit if each of them does. -/
theorem Stacks.fit_ofList_zip (chips : Stacks) {amounts : List Int}
    (h : ∀ n ∈ amounts, Chips.fits n = true) :
    Stacks.Fit (.ofList (chips.keys.zip amounts)) := by
  intro e he
  rw [PlayerMap.entries_ofList_zip] at he
  exact h e.2 (List.of_mem_zip he).2

/-- **Winnings** have 64 signed bits: no stack is more than all chips, which are not too many. -/
theorem fits_of_settle {chips : Stacks} {holes : HoleCards} {text : String} {winnings : Winnings}
    (h : (settle chips holes text).result = .ok winnings) : Stacks.Fit winnings := by
  rw [settle_result] at h
  obtain ⟨sequence, -, hinput, hwinnings⟩ := Settlement.answer_eq_ok h
  rcases hwinnings with hshort | ⟨-, t, hplay, hread⟩
  · obtain ⟨-, rfl⟩ := Settlement.shortcut?_eq_some hshort
    refine Stacks.fit_ofList_zip chips fun n hn => ?_
    obtain ⟨seat, -, rfl⟩ := List.mem_map.mp hn
    exact Settlement.fits_shortcutResult seat
  · obtain ⟨turns, hrun⟩ := Settlement.played_conduct hplay
    obtain ⟨hphase, rfl⟩ := Settlement.results_eq_ok hread
    refine Stacks.fit_ofList_zip chips fun n hn => ?_
    obtain ⟨s, hs, rfl⟩ := List.mem_map.mp hn
    exact Seat.fits_payoff (checkInput_eq_ok_iff.mp hinput).playable
      (hrun.inv.finished_of_phase hphase) hs

/-- **The amounts of a new record** have 64 signed bits if those of the hand do. -/
theorem HandRecord.fits_of_process {input : HandInput} {stamp : Stamp} {record : HandRecord}
    (hfits : input.Fits) (h : (input.process stamp).1 = .ok record) : record.Fits := by
  obtain ⟨winnings, hwinnings, rfl⟩ := map_eq_ok.mp h
  exact ⟨hfits, fits_of_settle hwinnings⟩

end Holdem
