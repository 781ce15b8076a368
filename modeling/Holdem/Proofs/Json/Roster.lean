import Holdem.Proofs.Json.Judges
import Holdem.Proofs.PlayerMap

/-!
# Objects keyed by player are read line by line

A line of a roster is entered into a map: its value is read on its own (`Line.decode`), and then the
map has to have no such player (`Line.enter`). To read a roster is to enter its lines, one after the
other, into the map without players (**`parse_playerMap`**), for every reader that judges values.

Entries that are entered stand in the map in their order (`foldlM_enter_eq_ok_iff`), which is so
exactly if their values are read and their players are distinct (`exists_foldlM_enter_iff`). A line
is refused for its value, or else for its player (`enter_eq_error_iff`).
-/

namespace Holdem.Json

open Grammar

variable {α β : Type} {gap s s' rest : List Char} {lines : List Line} {e : Line}
  {m n : PlayerMap α}

namespace Grammar.Line

/-- What a reader makes of the value of a line on its own. -/
def decode (value : Reader α) (e : Line) : Except Fault α :=
  parse value (String.ofList e.member.value.text)

/-- Enters a line into a map of those before it. -/
def enter (value : Reader α) (m : PlayerMap α) (e : Line) : Except Fault (PlayerMap α) := do
  let v ← e.decode value
  match m.insert? e.player v with
  | some m => .ok m
  | none => .error (.duplicatePlayer e.player)

end Grammar.Line

/-! ## From one line to the next -/

theorem nextKey_member (h : e.Fits) (rest : List Char) :
    nextKey true (e.member.whole ++ rest) = .ok (some e.player,
      e.member.key.after ++ ':' :: (e.member.value.whole ++ rest)) := by
  unfold nextKey Member.whole
  simp only [List.append_assoc, List.cons_append]
  rw [h.key_airy.before.blanks_append_cons (by decide)]
  show (stringBody _ >>= _) = _
  rw [stringBody_unescapes h.key]
  rfl

theorem nextKey_comma (hgap : Gap gap) (h : e.Fits) (rest : List Char) :
    nextKey false (gap ++ ',' :: (e.member.whole ++ rest)) = .ok (some e.player,
      e.member.key.after ++ ':' :: (e.member.value.whole ++ rest)) := by
  unfold nextKey Member.whole
  simp only [List.append_assoc, List.cons_append]
  rw [hgap.blanks_append_cons (by decide)]
  simp only [h.key_airy.before.blanks_append_cons (show isBlank '\x22' = false by decide)]
  show (stringBody _ >>= _) = _
  rw [stringBody_unescapes h.key]
  rfl

/-- **The member of a key** is read as its line is entered. -/
theorem playerMember_line {value : Reader α} (hvalue : Judges value) (h : e.Fits)
    (m : PlayerMap α) (hrest : Ends (e.member.value.after ++ rest)) :
    playerMember value m e.player (e.member.key.after ++ ':' :: (e.member.value.whole ++ rest)) =
      (e.enter value m).map (·, e.member.value.after ++ rest) := by
  obtain ⟨r, hr⟩ := hvalue _ h.value
  have hdecode : e.decode value = r := hr.parse_eq
  have hcolon : colon (e.member.key.after ++ ':' :: (e.member.value.whole ++ rest)) =
      .ok (e.member.value.whole ++ rest) := by
    unfold colon
    rw [h.key_airy.after.blanks_append_cons (by decide)]
    rfl
  unfold playerMember valueOf Line.enter
  rw [hcolon, hdecode]
  show (value _ >>= _) = _
  rw [Padded.whole, List.append_assoc, List.append_assoc, hr _ _ h.value_airy.before hrest]
  rcases r with fault | v
  · rfl
  · dsimp only [bind, Except.bind, Except.map]
    cases m.insert? e.player v <;> rfl

/-- A member and those after it. -/
theorem membersFrom_next {step : β → String → Reader β} {first : Bool} {fuel : Nat} {b : β}
    {key : String} {r : Except Fault β} {f : β → Except Fault β}
    (hnext : nextKey first s = .ok (some key, s')) (hr : step b key s' = r.map (·, rest))
    (hf : ∀ b, membersFrom step fuel false b rest = (f b).map (·, gap)) :
    membersFrom step (fuel + 1) first b s = (r >>= f).map (·, gap) := by
  unfold membersFrom
  rw [hnext]
  show (step b key s' >>= _) = _
  rw [hr]
  rcases r with fault | b
  · rfl
  · exact hf b

/-- The lines after the first, each after a comma. -/
theorem membersFrom_lines {value : Reader α} (hvalue : Judges value)
    (h : ∀ e ∈ lines, e.Fits) {fuel : Nat} (hfuel : lines.length < fuel) (hgap : Gap gap)
    (m : PlayerMap α) (rest : List Char) :
    membersFrom (playerMember value) fuel false m
      (gap ++ ((lines.map (·.member.whole)).flatMap (',' :: ·) ++ '\x7d' :: rest)) =
      (lines.foldlM (Line.enter value) m).map (·, rest) := by
  induction lines generalizing m fuel gap with
  | nil =>
    obtain ⟨fuel, rfl⟩ := Nat.exists_eq_add_one_of_ne_zero (Nat.ne_of_gt hfuel)
    unfold membersFrom
    rw [List.map_nil, List.flatMap_nil, List.nil_append, nextKey_end false hgap]
    rfl
  | cons e lines ih =>
    obtain ⟨fuel, rfl⟩ := Nat.exists_eq_add_one_of_ne_zero (Nat.ne_zero_of_lt hfuel)
    rw [List.forall_mem_cons] at h
    have hnext := nextKey_comma hgap h.1
      ((lines.map (·.member.whole)).flatMap (',' :: ·) ++ '\x7d' :: rest)
    have hends := ends_separated h.1.value_airy.after (lines.map (·.member.whole)) (.inr rfl) rest
    rw [List.map_cons, List.flatMap_cons, List.foldlM_cons, List.append_assoc, List.cons_append]
    exact membersFrom_next hnext (playerMember_line hvalue h.1 m hends)
      (ih h.2 (Nat.lt_of_succ_lt_succ hfuel) h.1.value_airy.after)

/-- The lines of a roster that has some. -/
theorem members_lines {value : Reader α} (hvalue : Judges value) (hne : lines ≠ [])
    (h : ∀ e ∈ lines, e.Fits) (m : PlayerMap α) (rest : List Char) :
    members (playerMember value) m
      (separated (lines.map (·.member.whole)) ++ '\x7d' :: rest) =
      (lines.foldlM (Line.enter value) m).map (·, rest) := by
  obtain ⟨e, lines, rfl⟩ := List.exists_cons_of_ne_nil hne
  rw [List.forall_mem_cons] at h
  have hnext := nextKey_member h.1
    ((lines.map (·.member.whole)).flatMap (',' :: ·) ++ '\x7d' :: rest)
  have hends := ends_separated h.1.value_airy.after (lines.map (·.member.whole)) (.inr rfl) rest
  have hlength := length_le_separated (lines.map (·.member.whole))
  rw [List.length_map] at hlength
  rw [List.map_cons, separated, List.append_assoc, List.foldlM_cons]
  unfold members
  refine membersFrom_next hnext (playerMember_line hvalue h.1 m hends) fun m =>
    membersFrom_lines hvalue h.2 ?_ h.1.value_airy.after m rest
  simp only [List.length_append, List.length_cons]
  omega

/-- **To read a roster** is to enter its lines one after the other. -/
theorem parse_playerMap {value : Reader α} (hvalue : Judges value) (h : Roster lines s) :
    parse (playerMap value) (String.ofList s) = lines.foldlM (Line.enter value) .empty := by
  have hread : ∃ after, Gap after ∧
      playerMap value s = (lines.foldlM (Line.enter value) .empty).map (·, after) := by
    have hbrace : ∀ gap s, Gap gap →
        playerMap value (gap ++ '\x7b' :: s) = members (playerMember value) .empty s := by
      intro gap s hgap
      unfold playerMap object
      rw [hgap.blanks_append_cons (by decide)]
      rfl
    cases h with
    | @empty before inner after hbefore hinner hafter =>
      refine ⟨after, hafter, ?_⟩
      rw [hbrace before _ hbefore]
      unfold members membersFrom
      rw [nextKey_end true hinner]
      rfl
    | @lines before after _ hbefore hafter hne hfits =>
      refine ⟨after, hafter, ?_⟩
      rw [hbrace before _ hbefore]
      exact members_lines hvalue hne hfits .empty after
  obtain ⟨after, hafter, hread⟩ := hread
  have hblanks : blanks after = [] := by
    have hall := hafter.blanks_append []
    rwa [List.append_nil] at hall
  unfold parse
  rw [String.toList_ofList, hread]
  cases lines.foldlM (Line.enter value) .empty with
  | error fault => rfl
  | ok m => exact if_pos hblanks

/-! ## Entering lines -/

/-- A line has become a player with a value. -/
def Grammar.Line.Becomes (value : Reader α) (e : Line) (p : String × α) : Prop :=
  p.1 = e.player ∧ e.decode value = .ok p.2

theorem becomes_unique {value : Reader α} : Relator.RightUnique (Line.Becomes value) := by
  rintro e ⟨player, v⟩ ⟨player', v'⟩ ⟨hplayer, hv⟩ ⟨hplayer', hv'⟩
  exact Prod.ext (hplayer.trans hplayer'.symm) (Except.ok.inj (hv.symm.trans hv'))

theorem enter_eq_ok_iff {value : Reader α} :
    e.enter value m = .ok n ↔ ∃ v, e.decode value = .ok v ∧
      n.entries = m.entries ++ [(e.player, v)] := by
  unfold Line.enter
  rw [bind_eq_ok]
  refine exists_congr fun v => and_congr_right fun _ => ?_
  rw [← PlayerMap.insert?_eq_some_iff]
  cases m.insert? e.player v <;> simp

/-- **A line is refused** for its value, or else for its player. -/
theorem enter_eq_error_iff {value : Reader α} {fault : Fault} :
    e.enter value m = .error fault ↔ e.decode value = .error fault ∨
      (∃ v, e.decode value = .ok v) ∧ e.player ∈ m.keys ∧ fault = .duplicatePlayer e.player := by
  unfold Line.enter
  rw [bind_eq_error]
  refine or_congr_right ?_
  rw [← exists_and_right]
  refine exists_congr fun v => and_congr_right fun _ => ?_
  have hnone : m.insert? e.player v = none ↔ e.player ∈ m.keys := PlayerMap.insert?_eq_none_iff
  rw [← hnone]
  cases m.insert? e.player v <;> simp [eq_comm]

/-- **Entries that are entered** come after those that are there, in their order. -/
theorem foldlM_enter_eq_ok_iff {value : Reader α} :
    lines.foldlM (Line.enter value) m = .ok n ↔
      ∃ l, List.Forall₂ (Line.Becomes value) lines l ∧ n.entries = m.entries ++ l := by
  induction lines generalizing m with
  | nil =>
    constructor
    · intro h
      cases h
      exact ⟨[], .nil, (List.append_nil _).symm⟩
    · rintro ⟨_, ⟨⟩, h⟩
      rw [List.append_nil] at h
      exact congrArg Except.ok (PlayerMap.ext h.symm)
  | cons e lines ih =>
    rw [List.foldlM_cons, bind_eq_ok]
    constructor
    · rintro ⟨m', hm', h⟩
      obtain ⟨v, hv, hentries⟩ := enter_eq_ok_iff.mp hm'
      obtain ⟨l, hl, hn⟩ := ih.mp h
      refine ⟨(e.player, v) :: l, .cons ⟨rfl, hv⟩ hl, ?_⟩
      rw [hn, hentries, List.append_assoc]
      rfl
    · rintro ⟨_, hall, hn⟩
      obtain ⟨p, l, ⟨hp, hv⟩, hl, rfl⟩ := List.forall₂_cons_left_iff.mp hall
      have hassoc : n.entries = m.entries ++ [p] ++ l := by
        rw [hn, List.append_assoc]
        rfl
      have hnodup := n.nodup
      rw [hassoc, List.map_append] at hnodup
      refine ⟨⟨m.entries ++ [p], hnodup.of_append_left⟩, ?_, ih.mpr ⟨l, hl, hassoc⟩⟩
      rw [enter_eq_ok_iff, ← hp]
      exact ⟨p.2, hv, rfl⟩

/-- A line and what it became have one player. -/
theorem map_fst_of_becomes {value : Reader α} {l : List (String × α)}
    (h : List.Forall₂ (Line.Becomes value) lines l) :
    l.map Prod.fst = lines.map (·.player) := by
  induction h with
  | nil => rfl
  | cons hp _ ih => rw [List.map_cons, List.map_cons, ih, hp.1]

/-- The players of a map are those of the lines that it was made from. -/
theorem keys_of_foldlM_enter {value : Reader α}
    (h : lines.foldlM (Line.enter value) .empty = .ok n) : n.keys = lines.map (·.player) := by
  obtain ⟨l, hl, hentries⟩ := foldlM_enter_eq_ok_iff.mp h
  rw [← map_fst_of_becomes hl]
  exact congrArg (List.map Prod.fst) hentries

/-- Entries whose values are read become players with values. -/
theorem exists_becomes {value : Reader α} (h : ∀ e ∈ lines, ∃ v, e.decode value = .ok v) :
    ∃ l, List.Forall₂ (Line.Becomes value) lines l := by
  induction lines with
  | nil => exact ⟨[], .nil⟩
  | cons e lines ih =>
    rw [List.forall_mem_cons] at h
    obtain ⟨v, hv⟩ := h.1
    obtain ⟨l, hl⟩ := ih h.2
    exact ⟨(e.player, v) :: l, .cons ⟨rfl, hv⟩ hl⟩

/-- **Entries make a map** exactly if their values are read and their players are distinct. -/
theorem exists_foldlM_enter_iff {value : Reader α} :
    (∃ n, lines.foldlM (Line.enter value) .empty = .ok n) ↔
      (∀ e ∈ lines, ∃ v, e.decode value = .ok v) ∧ (lines.map (·.player)).Nodup := by
  constructor
  · rintro ⟨n, hn⟩
    obtain ⟨l, hl, -⟩ := foldlM_enter_eq_ok_iff.mp hn
    have hvalues : List.Forall₂ (fun e p => (∃ v, e.decode value = .ok v) ∧ e.Becomes value p)
        lines l := hl.imp fun e p hp => ⟨⟨p.2, hp.2⟩, hp⟩
    exact ⟨((List.forall₂_and_left _ _).mp hvalues).1, keys_of_foldlM_enter hn ▸ n.nodup_keys⟩
  · rintro ⟨hvalues, hnodup⟩
    obtain ⟨l, hl⟩ := exists_becomes hvalues
    rw [← map_fst_of_becomes hl] at hnodup
    exact ⟨⟨l, hnodup⟩, foldlM_enter_eq_ok_iff.mpr ⟨l, hl, rfl⟩⟩

end Holdem.Json
