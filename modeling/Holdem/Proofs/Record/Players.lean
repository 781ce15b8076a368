import Holdem.Proofs.Json.Roster
import Holdem.Record.Json
import Mathlib.Data.List.Induction

/-!
# What maps of players keep

A map comes about from no players by insertions, from a list, and from a text (`Built`). In
whichever way that is, it keeps the first of what it was offered for each player and nothing else:
it is the map of its offers (`Built.eq_ofList`). So its players are distinct and stand in the order
in which they came first, a player's seat is his place among them, and his value has the same place
(`Keeps`).

The ways differ in what they do with a player who is there already. An insertion gives the value
back, a list drops it, and a text is refused: the first line of a roster that cannot be entered
decides, and in it the value before the player (`Verdict`). Players are those that keys stand for,
however they are escaped.

**`players_law`** is both together, with the readers of amounts and of cards among those that it is
about.
-/

namespace Holdem

open Json (Fault Judges)
open Json.Grammar (Roster)

variable {α : Type}

namespace PlayerMap

variable {m : PlayerMap α} {l offers : List (String × α)} {player : String} {value : α}

/-! ## Insertions -/

theorem add_of_mem {e : String × α} (h : e.1 ∈ m.keys) : m.add e = m := by
  unfold add
  rw [insert?_eq_none_iff.mpr h]
  rfl

theorem insert_snd (m : PlayerMap α) (player : String) (value : α) :
    (m.insert player value).2 = m.add (player, value) := by
  unfold insert add
  cases m.insert? player value <;> rfl

/-- A player who is there is given back. -/
theorem insert_of_mem (h : player ∈ m.keys) (value : α) :
    m.insert player value = (.error value, m) := by
  unfold insert
  rw [insert?_eq_none_iff.mpr h]

theorem insert_of_not_mem (h : player ∉ m.keys) (value : α) :
    (m.insert player value).1 = .ok () ∧
      (m.insert player value).2.entries = m.entries ++ [(player, value)] := by
  constructor
  · have hsome : m.insert? player value ≠ none := mt insert?_eq_none_iff.mp h
    obtain ⟨n, hn⟩ := Option.ne_none_iff_exists'.mp hsome
    unfold insert
    rw [hn]
  · rw [insert_snd]
    exact entries_add h

/-! ## The map of a list -/

theorem ofList_concat (l : List (String × α)) (e : String × α) :
    ofList (l ++ [e]) = (ofList l).add e :=
  List.foldl_concat _ _ _ _

/-- **The players of a list** stand in the order in which they come first. -/
theorem keys_ofList (l : List (String × α)) :
    (ofList l).keys = (l.map Prod.fst).eraseDups := by
  induction l using List.reverseRecOn with
  | nil => rfl
  | append_singleton l e ih =>
    rw [ofList_concat, List.map_append, List.eraseDups_append, ← ih]
    by_cases h : e.1 ∈ (ofList l).keys
    · have hmem : e.1 ∈ l.map Prod.fst := by
        rwa [ih, List.mem_eraseDups] at h
      have hnone : ([e].map Prod.fst).removeAll (l.map Prod.fst) = [] := by
        simp [List.removeAll, hmem]
      rw [add_of_mem h, hnone]
      exact (List.append_nil _).symm
    · have hmem : e.1 ∉ l.map Prod.fst := by
        rwa [ih, List.mem_eraseDups] at h
      have hone : ([e].map Prod.fst).removeAll (l.map Prod.fst) = [e.1] := by
        simp [List.removeAll, hmem]
      rw [hone]
      show ((ofList l).add e).entries.map Prod.fst = _
      rw [entries_add h, List.map_append]
      rfl

theorem get?_eq_none_iff : m.get? player = none ↔ player ∉ m.keys := by
  unfold get? keys
  rw [Option.map_eq_none_iff, List.find?_eq_none, List.mem_map]
  simp only [decide_eq_true_eq, not_exists, not_and]

/-- A player who comes again keeps his value. -/
theorem get?_add (m : PlayerMap α) (e : String × α) (player : String) :
    (m.add e).get? player =
      (m.get? player).or (([e].find? (·.1 = player)).map Prod.snd) := by
  by_cases h : e.1 ∈ m.keys
  · rw [add_of_mem h]
    by_cases heq : e.1 = player
    · obtain ⟨v, hv⟩ := Option.ne_none_iff_exists'.mp
        (mt get?_eq_none_iff.mp (not_not_intro (heq ▸ h)))
      rw [hv]
      rfl
    · rw [List.find?_cons_of_neg (by simpa using heq)]
      exact (Option.or_none).symm
  · unfold get?
    rw [entries_add h, List.find?_append, Option.map_or]

/-- **The value of a player** is the first that the list has for it. -/
theorem get?_ofList (l : List (String × α)) (player : String) :
    (ofList l).get? player = (l.find? (·.1 = player)).map Prod.snd := by
  induction l using List.reverseRecOn with
  | nil => rfl
  | append_singleton l e ih =>
    rw [ofList_concat, get?_add, ih, List.find?_append, Option.map_or]

/-! ## Seats -/

theorem position?_eq_some_iff {i : Nat} :
    m.position? player = some i ↔ m.keys[i]? = some player := by
  refine ⟨fun h => ?_, position?_of_getElem?⟩
  unfold position? at h
  obtain ⟨hi, hplayer, -⟩ := List.findIdx?_eq_some_iff_getElem.mp h
  unfold keys
  rw [List.getElem?_map, List.getElem?_eq_getElem hi]
  exact congrArg some (of_decide_eq_true hplayer)

/-- **A player's value** is in the player's place. -/
theorem get?_of_position? {i : Nat} (h : m.position? player = some i) :
    ∃ value, m.get? player = some value ∧ m.values[i]? = some value := by
  unfold position? at h
  obtain ⟨hi, hplayer, hbefore⟩ := List.findIdx?_eq_some_iff_getElem.mp h
  refine ⟨m.entries[i].2, ?_, ?_⟩
  · have hfind : m.entries.find? (·.1 = player) = some m.entries[i] :=
      List.find?_eq_some_iff_getElem.mpr ⟨hplayer, i, hi, rfl, fun j hj => by
        simpa using hbefore j hj⟩
    unfold get?
    rw [hfind]
    rfl
  · unfold values
    rw [List.getElem?_map, List.getElem?_eq_getElem hi]
    rfl

/-! ## How maps come about -/

/-- How a map comes about, and the players and values that it was offered, in their order. A roster
offers what its lines become; of any other text that is read, what is known is the map that it is
read as. -/
inductive Built : List (String × α) → PlayerMap α → Prop
  | new : Built [] empty
  | insert {offers : List (String × α)} {m : PlayerMap α} (h : Built offers m) (player : String)
      (value : α) : Built (offers ++ [(player, value)]) (m.insert player value).2
  | collect (l : List (String × α)) : Built l (ofList l)
  | roster {reader : Json.Reader α} {lines : List Json.Grammar.Line} {text : List Char}
      {offers : List (String × α)} {m : PlayerMap α} (hreader : Judges reader)
      (hroster : Roster lines text)
      (hoffers : List.Forall₂ (Json.Grammar.Line.Becomes reader) lines offers)
      (h : Json.parse (Json.playerMap reader) (String.ofList text) = .ok m) : Built offers m
  | text {reader : Json.Reader α} {text : String} {m : PlayerMap α}
      (h : Json.parse (Json.playerMap reader) text = .ok m) : Built m.entries m

/-- What a map keeps of its offers. -/
structure Keeps (offers : List (String × α)) (m : PlayerMap α) : Prop where
  /-- No player occurs twice. -/
  distinct : m.keys.Nodup
  /-- Players stand in the order in which they were offered first. -/
  keys_eq : m.keys = (offers.map Prod.fst).eraseDups
  /-- The first value of each player counts. -/
  get?_eq : ∀ player, m.get? player = (offers.find? (·.1 = player)).map Prod.snd
  /-- The n-th player sits in seat n. -/
  position?_iff : ∀ player i, m.position? player = some i ↔ m.keys[i]? = some player
  /-- A player's value is in the player's place. -/
  value_at : ∀ player i, m.position? player = some i →
    ∃ value, m.get? player = some value ∧ m.values[i]? = some value
  /-- To insert a player who is there gives the value back and changes nothing. -/
  insert_present : ∀ player ∈ m.keys, ∀ value, m.insert player value = (.error value, m)
  /-- A player who is not there is appended. -/
  insert_new : ∀ player, player ∉ m.keys → ∀ value, (m.insert player value).1 = .ok () ∧
    (m.insert player value).2.entries = m.entries ++ [(player, value)]

/-- **A map is the map of its offers.** -/
theorem Built.eq_ofList (h : Built offers m) : m = ofList offers := by
  induction h with
  | new => rfl
  | @insert offers m _ player value ih => rw [insert_snd, ofList_concat, ih]
  | collect l => rfl
  | @roster reader lines text offers m hreader hroster hoffers h =>
    rw [Json.parse_playerMap hreader hroster] at h
    obtain ⟨l, hl, hentries⟩ := Json.foldlM_enter_eq_ok_iff.mp h
    obtain rfl := List.right_unique_forall₂' Json.becomes_unique hoffers hl
    have hnodup := m.nodup
    rw [hentries] at hnodup
    exact ext (hentries.trans (entries_ofList hnodup).symm)
  | @text _ _ m _ => exact ext (entries_ofList m.nodup).symm

theorem keeps_ofList (offers : List (String × α)) : (ofList offers).Keeps offers where
  distinct := nodup_keys _
  keys_eq := keys_ofList offers
  get?_eq := get?_ofList offers
  position?_iff _ _ := position?_eq_some_iff
  value_at _ _ := get?_of_position?
  insert_present _ := insert_of_mem
  insert_new _ := insert_of_not_mem

end PlayerMap

/-! ## Rosters -/

/-- What comes of reading a roster. -/
structure Verdict (reader : Json.Reader α) (lines : List Json.Grammar.Line)
    (r : Except Fault (PlayerMap α)) : Prop where
  /-- It is read exactly if its values are and its players are distinct. -/
  ok_iff : (∃ m, r = .ok m) ↔
    (∀ e ∈ lines, ∃ value, e.decode reader = .ok value) ∧ (lines.map (·.player)).Nodup
  /-- Then each line has become a player with a value, in the order of the roster. -/
  entries_eq : ∀ m, r = .ok m → List.Forall₂ (Json.Grammar.Line.Becomes reader) lines m.entries
  /-- Otherwise the first line that cannot be entered is at fault, and it is so for its value or
  else for its player. -/
  error_iff : ∀ fault, r = .error fault ↔ ∃ before e after, lines = before ++ e :: after ∧
    (∀ b ∈ before, ∃ value, b.decode reader = .ok value) ∧ (before.map (·.player)).Nodup ∧
    (e.decode reader = .error fault ∨ (∃ value, e.decode reader = .ok value) ∧
      e.player ∈ before.map (·.player) ∧ fault = .duplicatePlayer e.player)

theorem verdict_of_roster {reader : Json.Reader α} {lines : List Json.Grammar.Line}
    {text : List Char} (hreader : Judges reader) (h : Roster lines text) :
    Verdict reader lines (Json.parse (Json.playerMap reader) (String.ofList text)) := by
  rw [Json.parse_playerMap hreader h]
  refine ⟨Json.exists_foldlM_enter_iff, fun m hm => ?_, fun fault => ?_⟩
  · obtain ⟨l, hl, hentries⟩ := Json.foldlM_enter_eq_ok_iff.mp hm
    have hsame : m.entries = l := hentries
    rwa [hsame]
  · rw [foldlM_eq_error]
    constructor
    · rintro ⟨before, e, after, m, rfl, hm, he⟩
      obtain ⟨hvalues, hdistinct⟩ := Json.exists_foldlM_enter_iff.mp ⟨m, hm⟩
      rw [Json.enter_eq_error_iff, Json.keys_of_foldlM_enter hm] at he
      exact ⟨before, e, after, rfl, hvalues, hdistinct, he⟩
    · rintro ⟨before, e, after, rfl, hvalues, hdistinct, he⟩
      obtain ⟨m, hm⟩ := Json.exists_foldlM_enter_iff.mpr ⟨hvalues, hdistinct⟩
      refine ⟨before, e, after, m, rfl, hm, ?_⟩
      rw [Json.enter_eq_error_iff, Json.keys_of_foldlM_enter hm]
      exact he

/-- **The law of players.** A map keeps the first value that it was offered for each player, and
the players in the order in which they were offered first. A roster is read exactly if its values
are and its players are distinct; the first line that breaks this is at fault, and in it the value
before the player. Amounts and lists of cards have a verdict on every value, so rosters of stacks,
of winnings and of hole cards are among those that are meant. -/
theorem players_law :
    (∀ (α : Type) (offers : List (String × α)) (m : PlayerMap α),
      PlayerMap.Built offers m → m.Keeps offers) ∧
    (∀ (α : Type) (reader : Json.Reader α) (lines : List Json.Grammar.Line) (text : List Char),
      Judges reader → Roster lines text →
        Verdict reader lines (Json.parse (Json.playerMap reader) (String.ofList text))) ∧
    Judges Json.integer ∧ Judges (Json.list Card.reader) := by
  refine ⟨fun α offers m h => ?_, fun α reader lines text hreader h => ?_,
    Json.judges_integer, Json.judges_list (Json.judges_meaning _)⟩
  · rw [h.eq_ofList]
    exact PlayerMap.keeps_ofList offers
  · exact verdict_of_roster hreader h

/-- A key that is written in two ways, and a list with a player who comes twice. -/
theorem players_law_escaped_key :
    let first : Json.Grammar.Line := ⟨⟨⟨[], ['A'], []⟩, ⟨[], ['1'], []⟩⟩, "A"⟩
    let second : Json.Grammar.Line :=
      ⟨⟨⟨[' '], ['\\', 'u', '0', '0', '4', '1'], []⟩, ⟨[], ['2'], []⟩⟩, "A"⟩
    let text := "\x7b\x22A\x22:1, \x22\\u0041\x22:2\x7d"
    let offers : List (String × Int) := [("A", 1), ("B", 2), ("A", 3)]
    Roster [first, second] text.toList ∧
      Json.parse Stacks.reader text = .error (.duplicatePlayer "A") ∧
      PlayerMap.Built offers (.ofList offers) ∧ (PlayerMap.ofList offers).keys = ["A", "B"] ∧
      (PlayerMap.ofList offers).get? "A" = some 1 := by
  intro first second text offers
  have hvalue : ∀ c : Char, c.isDigit = true → c ≠ '0' → Json.Grammar.Value [c] := by
    intro c hdigit hzero
    have hwhole : Json.Grammar.Whole [c] := .more hdigit hzero (by simp)
    have hnumber : Json.Grammar.Unsigned ([c] ++ ([] ++ [])) := .parts hwhole .none .none
    exact .number (.positive hnumber)
  have hplain : Json.Grammar.Stands ['A'] 'A' := .plain (by decide) (by decide) (by decide)
  have hhex : Json.Grammar.HexFour ['0', '0', '4', '1'] 65 :=
    .digits (i := 0) (j := 0) (k := 4) (l := 1) (by decide) (by decide) (by decide) (by decide)
  have hescape : Json.Grammar.Stands ['\\', 'u', '0', '0', '4', '1'] 'A' :=
    .number hhex (by decide) (by decide)
  have hkey : "A".toList = ['A'] := by decide
  have hfirst : first.Fits :=
    ⟨⟨Json.gap_nil, Json.gap_nil⟩, ⟨Json.gap_nil, Json.gap_nil⟩, hkey ▸ .cons hplain .nil,
      hvalue '1' (by decide) (by decide)⟩
  have hsecond : second.Fits :=
    ⟨⟨List.forall_mem_singleton.mpr (by decide), Json.gap_nil⟩,
      ⟨Json.gap_nil, Json.gap_nil⟩, hkey ▸ .cons hescape .nil, hvalue '2' (by decide) (by decide)⟩
  have htext : text.toList = [] ++ '\x7b' ::
      (Json.Grammar.separated ([first, second].map (·.member.whole)) ++ '\x7d' :: []) := by decide
  have hroster : Roster [first, second] text.toList := by
    rw [htext]
    exact .lines Json.gap_nil Json.gap_nil (List.cons_ne_nil _ _)
      (List.forall_mem_cons.mpr ⟨hfirst, List.forall_mem_singleton.mpr hsecond⟩)
  have hbuilt : PlayerMap.Built offers (.ofList offers) := .collect offers
  have hkeeps := players_law.1 Int offers _ hbuilt
  have hverdict := players_law.2.1 Int Json.integer _ _ players_law.2.2.1 hroster
  rw [String.ofList_toList] at hverdict
  have hone : first.decode Json.integer = .ok 1 := by decide
  have htwo : second.decode Json.integer = .ok 2 := by decide
  refine ⟨hroster, (hverdict.error_iff _).mpr ⟨[first], second, [], rfl, ?_, ?_, ?_⟩, hbuilt,
    hkeeps.keys_eq.trans (by decide), hkeeps.get?_eq "A"⟩
  · exact List.forall_mem_singleton.mpr ⟨1, hone⟩
  · exact List.nodup_singleton _
  · exact .inr ⟨⟨2, htwo⟩, List.mem_singleton.mpr rfl, rfl⟩

end Holdem
