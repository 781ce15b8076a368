import Holdem.PlayerMap
import Mathlib.Data.List.Nodup
import Mathlib.Data.List.Perm.Subperm
import Mathlib.Data.List.Zip

/-!
# Maps of distinct players

`PlayerMap.ofList` keeps every entry, in order, if no player occurs twice. So a map that is made of
the players of another one and as many values has its players and those values (`keys_ofList_zip`,
`values_ofList_zip`).

The players of a map sit in seats 0, 1, 2 and so on (`map_position?_keys`). Two maps of as many
players have the same players if those of the one are among those of the other (`keys_perm`).
-/

namespace Holdem.PlayerMap

variable {α β : Type}

theorem entries_add {m : PlayerMap α} {e : String × α} (h : e.1 ∉ m.keys) :
    (m.add e).entries = m.entries ++ [e] := by
  have hinsert : m.insert? e.1 e.2 = some ⟨m.entries ++ [e], nodup_append m.nodup h e.2⟩ :=
    dif_neg h
  unfold add
  rw [hinsert]
  rfl

theorem entries_foldl_add {l : List (String × α)} {m : PlayerMap α}
    (h : ((m.entries ++ l).map Prod.fst).Nodup) :
    (l.foldl add m).entries = m.entries ++ l := by
  induction l generalizing m with
  | nil => exact (List.append_nil _).symm
  | cons e l ih =>
    have hnew : e.1 ∉ m.keys := by
      intro hm
      rw [List.map_append, List.nodup_append] at h
      exact h.2.2 e.1 hm e.1 (by simp) rfl
    have hadd := entries_add hnew
    rw [List.foldl_cons, ih, hadd, List.append_assoc]
    · rfl
    · rw [hadd, List.append_assoc]
      exact h

/-- **A list of distinct players is kept as it is.** -/
theorem entries_ofList {l : List (String × α)} (h : (l.map Prod.fst).Nodup) :
    (ofList l).entries = l :=
  entries_foldl_add h

/-- What an insertion leads to has one more entry, and no player twice. -/
theorem insert?_eq_some_iff {m n : PlayerMap α} {player : String} {value : α} :
    m.insert? player value = some n ↔ n.entries = m.entries ++ [(player, value)] := by
  refine ⟨insert?_eq_some, fun h => ?_⟩
  have hnew : player ∉ m.entries.map Prod.fst := by
    have hnodup := n.nodup
    rw [h, List.map_append, List.nodup_append] at hnodup
    exact fun hmem => hnodup.2.2 player hmem player (by simp) rfl
  unfold insert?
  rw [dif_neg hnew]
  exact congrArg some (ext h.symm)

theorem length_values (m : PlayerMap α) : m.values.length = m.keys.length := by
  unfold values keys
  rw [List.length_map, List.length_map]

variable {m : PlayerMap α} {values : List β}

/-- Players and values are kept as they are paired, as far as there are both. -/
theorem entries_ofList_zip (m : PlayerMap α) (values : List β) :
    (ofList (m.keys.zip values)).entries = m.keys.zip values := by
  have hkeys : (m.keys.zip values).map Prod.fst =
      m.keys.take (min m.keys.length values.length) := by
    rw [List.zip_eq_zip_take_min, List.map_fst_zip]
    rw [List.length_take, List.length_take]
    omega
  refine entries_ofList ?_
  rw [hkeys]
  exact m.nodup.sublist (List.take_sublist _ _)

theorem keys_ofList_zip (h : values.length = m.keys.length) :
    (ofList (m.keys.zip values)).keys = m.keys := by
  show (ofList (m.keys.zip values)).entries.map Prod.fst = m.keys
  rw [entries_ofList_zip]
  exact List.map_fst_zip (Nat.le_of_eq h.symm)

theorem values_ofList_zip (h : values.length = m.keys.length) :
    (ofList (m.keys.zip values)).values = values := by
  unfold PlayerMap.values
  rw [entries_ofList_zip]
  exact List.map_snd_zip (Nat.le_of_eq h)

/-- A map of the players of another one, seat by seat. -/
theorem getElem?_ofList_zip {i : Nat} {player : String} {a : α} {b : β}
    (hentry : m.entries[i]? = some (player, a)) (hvalue : values[i]? = some b) :
    (ofList (m.keys.zip values)).entries[i]? = some (player, b) := by
  have hkey : m.keys[i]? = some player := by
    unfold keys
    rw [List.getElem?_map, hentry]
    rfl
  rw [entries_ofList_zip, List.getElem?_zip_eq_some]
  exact ⟨hkey, hvalue⟩

/-! ## Seats -/

theorem length_keys (m : PlayerMap α) : m.keys.length = m.size := List.length_map _

theorem nodup_keys (m : PlayerMap α) : m.keys.Nodup := m.nodup

/-- A player without a seat is not there. -/
theorem position?_eq_none_iff {player : String} : m.position? player = none ↔ player ∉ m.keys := by
  unfold position? keys
  rw [List.findIdx?_eq_none_iff, List.mem_map]
  simp only [decide_eq_false_iff_not, not_exists, not_and]

/-- The n-th player sits in seat n. -/
theorem position?_of_getElem? {i : Nat} {player : String} (h : m.keys[i]? = some player) :
    m.position? player = some i := by
  obtain ⟨hi, hplayer⟩ := List.getElem?_eq_some_iff.mp h
  have hlt : i < m.entries.length := by rwa [length_keys] at hi
  unfold position?
  rw [List.findIdx?_eq_some_iff_getElem]
  refine ⟨hlt, ?_, fun j hj => ?_⟩
  · rw [← hplayer]
    simp [keys]
  · have hne : m.keys[j] ≠ m.keys[i] := fun heq =>
      absurd (m.nodup_keys.getElem_inj_iff.mp heq) (Nat.ne_of_lt hj)
    rw [hplayer] at hne
    simpa [keys] using hne

theorem map_position?_keys (m : PlayerMap α) :
    m.keys.map m.position? = (List.range m.size).map some := by
  apply List.ext_getElem?
  intro i
  rw [List.getElem?_map, List.getElem?_map]
  cases hplayer : m.keys[i]? with
  | none =>
    have hi := List.getElem?_eq_none_iff.mp hplayer
    rw [length_keys] at hi
    rw [List.getElem?_eq_none_iff.mpr (by rwa [List.length_range])]
    rfl
  | some player =>
    obtain ⟨hi, -⟩ := List.getElem?_eq_some_iff.mp hplayer
    rw [length_keys] at hi
    rw [List.getElem?_range hi, Option.map_some, Option.map_some, position?_of_getElem? hplayer]

/-- **As many players, all of them there**: they are the same players in some order. -/
theorem keys_perm {m : PlayerMap α} {n : PlayerMap β} (hsub : ∀ player ∈ m.keys, player ∈ n.keys)
    (hsize : m.size = n.size) : m.keys.Perm n.keys := by
  have hsubperm : m.keys.Subperm n.keys := List.subperm_of_subset m.nodup_keys hsub
  refine hsubperm.perm_of_length_le ?_
  rw [length_keys, length_keys, hsize]

end Holdem.PlayerMap
