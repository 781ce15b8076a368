import Holdem.Json.Shape
import Holdem.Proofs.Except
import Holdem.Proofs.Json.Scalar
import Mathlib.Data.List.Forall2

/-!
# Arrays, objects, records and maps that were written are read back

`Decodes reader j a` says that a value `j`, written in any layout that only adds blanks
(`Layout.Airy`), is read back as `a`. `Fills step b members b'` says the same of the members of an
object: read one after the other, they turn what is built from `b` into `b'`.

There is one rule for each way to put a value together: `decodes_list`, `decodes_object`,
`decodes_record` with `fills_field` for its fields, `decodes_name` and `decodes_content` for
variants, and `decodes_playerMap` for maps, which keep the order of their players.
-/

namespace Holdem.Json

variable {α β γ : Type} {l : Layout} {level : Nat} {gap gap' rest : List Char}

/-! ## Layouts -/

/-- A layout that adds nothing but blanks. -/
structure Layout.Airy (l : Layout) : Prop where
  lineBreak : ∀ level, Gap (l.lineBreak level)
  colon : ∃ gap, Gap gap ∧ l.colon = ':' :: gap

theorem airy_compact : Layout.compact.Airy := ⟨fun _ => gap_nil, [], gap_nil, rfl⟩

theorem airy_indented : Layout.indented.Airy := by
  have hspace : isBlank ' ' = true := by decide
  refine ⟨fun level c hc => ?_, [' '], fun c hc => ?_, rfl⟩
  · rcases List.mem_cons.mp hc with rfl | hc
    · decide
    · rwa [List.eq_of_mem_replicate hc]
  · rwa [List.mem_singleton.mp hc]

/-- A value that is read back from its text in any layout. -/
def Decodes (reader : Reader α) (j : Json) (a : α) : Prop :=
  ∀ l : Layout, l.Airy → ∀ level, Spells reader (render l level j) a

theorem decodes_string (s : String) : Decodes string (.str s) s := fun _ _ _ => spells_string s

theorem decodes_integer {n : Int} (h : Chips.fits n = true) : Decodes integer (.int n) n :=
  fun _ _ _ => spells_integer h

/-- **A value and nothing else** makes a whole text, on one line or on many. -/
theorem parse_of_decodes {reader : Reader α} {j : Json} {a : α} (h : Decodes reader j a) :
    parse reader j.compact = .ok a ∧ parse reader j.indented = .ok a := by
  have hwhole : ∀ l : Layout, l.Airy → parse reader (String.ofList (render l 0 j)) = .ok a := by
    intro l hl
    have hread := (h l hl 0).read [] [] gap_nil ends_nil
    rw [List.nil_append, List.append_nil] at hread
    unfold parse
    rw [String.toList_ofList, hread]
    rfl
  exact ⟨hwhole _ airy_compact, hwhole _ airy_indented⟩

theorem meaning_quoted {of : String → Except Fault α} {s : String} {a : α} (h : of s = .ok a)
    (hgap : Gap gap) (rest : List Char) :
    meaning of (gap ++ (quoted s ++ rest)) = .ok (a, rest) := by
  unfold meaning
  show (string _ >>= _) = _
  rw [string_quoted hgap]
  show (of s >>= _) = _
  rw [h]
  rfl

/-- A string that has a meaning is read back as that. -/
theorem decodes_meaning {of : String → Except Fault α} {s : String} {a : α} (h : of s = .ok a) :
    Decodes (meaning of) (.str s) a :=
  fun _ _ _ => ⟨(spells_string s).starts, fun _ rest hgap _ => meaning_quoted h hgap rest⟩

/-- What is made of a value that is read back is read back, too. -/
theorem Decodes.imp {reader : Reader α} {reader' : Reader β} {j : Json} {a : α} {b : β}
    (h : Decodes reader j a)
    (hmade : ∀ s rest, reader s = .ok (a, rest) → reader' s = .ok (b, rest)) :
    Decodes reader' j b :=
  fun l hl level => ⟨(h l hl level).starts, fun gap rest hgap hrest =>
    hmade _ rest ((h l hl level).read gap rest hgap hrest)⟩

/-! ## Items in brackets -/

/-- The items in brackets after the first, each after a comma and a gap. -/
def following (gap : List Char) (texts : List (List Char)) : List Char :=
  texts.flatMap fun text => ',' :: (gap ++ text)

theorem flatten_intersperse (gap text : List Char) (texts : List (List Char)) :
    (((text :: texts).map (gap ++ ·)).intersperse [',']).flatten =
      gap ++ (text ++ following gap texts) := by
  induction texts generalizing text with
  | nil => simp [following]
  | cons next texts ih =>
    rw [List.map_cons, List.map_cons, List.intersperse_cons_cons, ← List.map_cons,
      List.flatten_cons, List.flatten_cons, ih, following, following, List.flatMap_cons]
    simp only [List.append_assoc, List.cons_append, List.nil_append]

theorem bracket_append (l : Layout) (level : Nat) (opening closing : Char) (text : List Char)
    (texts : List (List Char)) (rest : List Char) :
    bracket l level opening closing (text :: texts) ++ rest =
      opening :: (l.lineBreak (level + 1) ++ (text ++
        (following (l.lineBreak (level + 1)) texts ++ (l.lineBreak level ++ closing :: rest)))) := by
  unfold bracket
  rw [if_neg (List.cons_ne_nil _ _), flatten_intersperse]
  simp only [List.append_assoc, List.cons_append, List.nil_append]

theorem starts_bracket {opening : Char} (hblank : isBlank opening = false) (hclose : opening ≠ ']')
    (closing : Char) (texts : List (List Char)) :
    Starts (bracket l level opening closing texts) := by
  cases texts with
  | nil => exact ⟨opening, _, rfl, hblank, hclose⟩
  | cons text texts =>
    have hcons := bracket_append l level opening closing text texts []
    rw [List.append_nil] at hcons
    exact ⟨opening, _, hcons, hblank, hclose⟩

theorem ends_following (hgap : Gap gap) {closing : Char} (hclosing : closing = ']' ∨ closing = '\x7d')
    (gap' : List Char) (texts : List (List Char)) (rest : List Char) :
    Ends (following gap' texts ++ (gap ++ closing :: rest)) := by
  cases texts with
  | nil =>
    rw [following, List.flatMap_nil, List.nil_append]
    refine hgap.ends_append_cons ?_ rest
    rcases hclosing with rfl | rfl <;> decide
  | cons text texts =>
    rw [following, List.flatMap_cons, List.append_assoc]
    exact gap_nil.ends_append_cons (by decide) _

theorem length_le_following (gap : List Char) (texts : List (List Char)) :
    texts.length ≤ (following gap texts).length := by
  induction texts with
  | nil => exact Nat.le_refl 0
  | cons text texts ih =>
    rw [following, List.flatMap_cons, ← following, List.length_append, List.length_cons,
      List.length_cons]
    omega

/-! ## Arrays -/

section Arrays

variable {item : Reader α} {texts : List (List Char)} {as : List α}

theorem nextItem_end (first : Bool) (hgap : Gap gap) :
    nextItem first (gap ++ ']' :: rest) = .ok (false, rest) := by
  unfold nextItem
  rw [hgap.blanks_append_cons (by decide)]
  rfl

theorem nextItem_first {text : List Char} (hgap : Gap gap) (htext : Starts text) :
    nextItem true (gap ++ (text ++ rest)) = .ok (true, text ++ rest) := by
  obtain ⟨c, s, rfl, hblank, hclose⟩ := htext
  unfold nextItem
  rw [List.cons_append, hgap.blanks_append_cons hblank]
  simp only [if_neg hclose, if_true]

theorem nextItem_following {text : List Char} (hgap : Gap gap) (htext : Starts text) :
    nextItem false (',' :: (gap ++ (text ++ rest))) = .ok (true, text ++ rest) := by
  obtain ⟨c, s, rfl, hblank, hclose⟩ := htext
  unfold nextItem
  rw [blanks_cons (by decide)]
  simp only [List.cons_append, hgap.blanks_append_cons hblank, if_neg hclose]
  rfl

theorem itemsFrom_following (hgap : Gap gap) (hgap' : Gap gap')
    (h : List.Forall₂ (Spells item) texts as) {fuel : Nat} (hfuel : texts.length < fuel) :
    itemsFrom item fuel false (following gap' texts ++ (gap ++ ']' :: rest)) = .ok (as, rest) := by
  induction h generalizing fuel with
  | nil =>
    obtain ⟨fuel, rfl⟩ := Nat.exists_eq_add_one_of_ne_zero (Nat.ne_of_gt hfuel)
    unfold itemsFrom
    rw [following, List.flatMap_nil, List.nil_append, nextItem_end false hgap]
    rfl
  | @cons text a texts as ha has ih =>
    obtain ⟨fuel, rfl⟩ := Nat.exists_eq_add_one_of_ne_zero (Nat.ne_zero_of_lt hfuel)
    have hitem := ha.read [] _ gap_nil (ends_following hgap (.inl rfl) gap' texts rest)
    have hrest := ih (Nat.lt_of_succ_lt_succ hfuel)
    unfold itemsFrom
    rw [following, List.flatMap_cons, List.append_assoc, List.cons_append, List.append_assoc,
      nextItem_following hgap' ha.starts]
    show (item _ >>= _) = _
    rw [← following, ← List.nil_append (text ++ _), hitem]
    show (itemsFrom item fuel false _ >>= _) = _
    rw [hrest]
    rfl

theorem items_of_texts {text : List Char} {a : α} (hgap : Gap gap) (hgap' : Gap gap')
    (ha : Spells item text a) (has : List.Forall₂ (Spells item) texts as) :
    items item (gap' ++ (text ++ (following gap' texts ++ (gap ++ ']' :: rest)))) =
      .ok (a :: as, rest) := by
  have hitem := ha.read [] _ gap_nil (ends_following hgap (.inl rfl) gap' texts rest)
  rw [List.nil_append] at hitem
  have hlength := length_le_following gap' texts
  unfold items itemsFrom
  rw [nextItem_first hgap' ha.starts]
  show (item _ >>= _) = _
  rw [hitem]
  show (itemsFrom item _ false _ >>= _) = _
  rw [itemsFrom_following hgap hgap' has
    (by simp only [List.length_append, List.length_cons]; omega)]
  rfl

/-- **An array is read back** if its items are. -/
theorem spells_bracket (hl : l.Airy) (h : List.Forall₂ (Spells item) texts as) :
    Spells (list item) (bracket l level '[' ']' texts) as := by
  refine ⟨starts_bracket (by decide) (by decide) ']' texts, fun gap rest hgap _ => ?_⟩
  unfold list
  cases h with
  | nil =>
    have hempty : bracket l level '[' ']' [] ++ rest = '[' :: ']' :: rest := rfl
    rw [hempty, hgap.blanks_append_cons (by decide)]
    show items item (']' :: rest) = _
    unfold items itemsFrom
    rw [← List.nil_append (']' :: rest), nextItem_end true gap_nil]
    rfl
  | cons ha has =>
    rw [bracket_append, hgap.blanks_append_cons (by decide)]
    exact items_of_texts (hl.lineBreak level) (hl.lineBreak (level + 1)) ha has

/-- The texts of items are what each of them is written as. -/
theorem renderItems_eq (items : List Json) :
    renderItems l level items = items.map (render l level) := by
  induction items with
  | nil => rfl
  | cons item items ih => rw [renderItems, ih, List.map_cons]

/-- **A list is read back** if each of its items is. -/
theorem decodes_list {write : α → Json} (h : ∀ a ∈ as, Decodes item (write a) a) :
    Decodes (list item) (.arr (as.map write)) as := by
  intro l hl level
  rw [render, renderItems_eq, List.map_map]
  refine spells_bracket hl (List.forall₂_map_left_iff.mpr ?_)
  exact List.forall₂_same.mpr fun a ha => h a ha l hl (level + 1)

end Arrays

/-! ## Objects -/

section Objects

variable {step : β → String → Reader β} {b b' b'' : β} {members : List (String × Json)}

/-- Read after their keys, the members of an object turn what is built into something else. -/
inductive Fills (step : β → String → Reader β) : β → List (String × Json) → β → Prop
  | nil (b : β) : Fills step b [] b
  | cons {b b' b'' : β} {key : String} {j : Json} {members : List (String × Json)}
      (hread : ∀ l : Layout, l.Airy → ∀ level rest, Ends rest →
        step b key (l.colon ++ (render l level j ++ rest)) = .ok (b', rest))
      (hrest : Fills step b' members b'') : Fills step b ((key, j) :: members) b''

theorem nextKey_end (first : Bool) (hgap : Gap gap) :
    nextKey first (gap ++ '\x7d' :: rest) = .ok (none, rest) := by
  unfold nextKey
  rw [hgap.blanks_append_cons (by decide)]
  rfl

theorem nextKey_first (hgap : Gap gap) (key : String) :
    nextKey true (gap ++ (quoted key ++ rest)) = .ok (some key, rest) := by
  unfold nextKey
  rw [quoted_append, hgap.blanks_append_cons (by decide)]
  show (stringBody _ >>= _) = _
  rw [stringBody_quoted]
  rfl

theorem nextKey_following (hgap : Gap gap) (key : String) :
    nextKey false (',' :: (gap ++ (quoted key ++ rest))) = .ok (some key, rest) := by
  unfold nextKey
  rw [blanks_cons (by decide)]
  simp only [quoted_append, hgap.blanks_append_cons (show isBlank '\x22' = false by decide)]
  show (stringBody _ >>= _) = _
  rw [stringBody_quoted]
  rfl

theorem membersFrom_following (hl : l.Airy) (hgap : Gap gap) (hgap' : Gap gap')
    (h : Fills step b members b') {fuel : Nat} (hfuel : members.length < fuel) :
    membersFrom step fuel false b
      (following gap' (renderMembers l level members) ++ (gap ++ '\x7d' :: rest)) =
      .ok (b', rest) := by
  induction h generalizing fuel with
  | nil b =>
    obtain ⟨fuel, rfl⟩ := Nat.exists_eq_add_one_of_ne_zero (Nat.ne_of_gt hfuel)
    unfold membersFrom
    rw [renderMembers, following, List.flatMap_nil, List.nil_append, nextKey_end false hgap]
    rfl
  | @cons b b' b'' key j members hread _ ih =>
    obtain ⟨fuel, rfl⟩ := Nat.exists_eq_add_one_of_ne_zero (Nat.ne_zero_of_lt hfuel)
    have hvalue := hread l hl level _
      (ends_following hgap (.inr rfl) gap' (renderMembers l level members) rest)
    unfold membersFrom
    rw [renderMembers, following, List.flatMap_cons, ← following]
    simp only [List.append_assoc, List.cons_append]
    rw [nextKey_following hgap']
    show (step b key _ >>= _) = _
    rw [hvalue]
    exact ih (Nat.lt_of_succ_lt_succ hfuel)

theorem length_renderMembers (members : List (String × Json)) :
    (renderMembers l level members).length = members.length := by
  induction members with
  | nil => rfl
  | cons member members ih => rw [renderMembers, List.length_cons, ih, List.length_cons]

/-- The members of an object are read back after its brace. -/
theorem members_of_fills (hl : l.Airy) (level : Nat) (h : Fills step b members b') :
    ∃ s, ∀ rest, bracket l level '\x7b' '\x7d' (renderMembers l (level + 1) members) ++ rest =
      '\x7b' :: (s ++ rest) ∧ Json.members step b (s ++ rest) = .ok (b', rest) := by
  cases h with
  | nil =>
    refine ⟨['\x7d'], fun rest => ⟨rfl, ?_⟩⟩
    unfold Json.members membersFrom
    rw [List.singleton_append, ← List.nil_append ('\x7d' :: rest), nextKey_end true gap_nil]
    rfl
  | @cons _ b' _ key j members hread hrest =>
    refine ⟨l.lineBreak (level + 1) ++ (quoted key ++ l.colon ++ render l (level + 1) j ++
      (following (l.lineBreak (level + 1)) (renderMembers l (level + 1) members) ++
        (l.lineBreak level ++ ['\x7d']))), fun rest => ⟨?_, ?_⟩⟩
    · rw [renderMembers, bracket_append]
      simp only [List.append_assoc, List.cons_append, List.nil_append]
    · have hvalue := hread l hl (level + 1) _ (ends_following (hl.lineBreak level) (.inr rfl)
        (l.lineBreak (level + 1)) (renderMembers l (level + 1) members) rest)
      have hlength := length_le_following (l.lineBreak (level + 1))
        (renderMembers l (level + 1) members)
      rw [length_renderMembers] at hlength
      unfold Json.members membersFrom
      simp only [List.append_assoc, List.cons_append, List.nil_append]
      rw [nextKey_first (hl.lineBreak (level + 1))]
      show (step b key _ >>= _) = _
      rw [hvalue]
      exact membersFrom_following hl (hl.lineBreak level) (hl.lineBreak (level + 1)) hrest
        (by simp only [List.length_append, List.length_cons]; omega)

/-- **An object is read back** member by member. -/
theorem decodes_object (h : Fills step b members b') :
    Decodes (object step b) (.obj members) b' := by
  refine fun l hl level => ⟨starts_bracket (by decide) (by decide) '\x7d' _, ?_⟩
  intro gap rest hgap _
  obtain ⟨s, hs⟩ := members_of_fills hl level h
  obtain ⟨htext, hread⟩ := hs rest
  unfold object
  rw [render, htext, hgap.blanks_append_cons (by decide)]
  exact hread

/-- What is made of a value is made of it after its colon. -/
theorem valueOf_map (value : Reader γ) (f : γ × List Char → β × List Char) (s : List Char) :
    valueOf (fun s => (value s).map f) s = (valueOf value s).map f := by
  unfold valueOf
  cases colon s <;> rfl

theorem valueOf_of_decodes {value : Reader γ} {j : Json} {v : γ} (h : Decodes value j v)
    (hl : l.Airy) (level : Nat) (hrest : Ends rest) :
    valueOf value (l.colon ++ (render l level j ++ rest)) = .ok (v, rest) := by
  obtain ⟨gap, hgap, hcolon⟩ := hl.colon
  have hpassed : colon (l.colon ++ (render l level j ++ rest)) =
      .ok (gap ++ (render l level j ++ rest)) := by
    unfold colon
    rw [hcolon, List.cons_append, blanks_cons (by decide)]
    rfl
  unfold valueOf
  show (colon _ >>= _) = _
  rw [hpassed]
  exact (h l hl level).read gap rest hgap hrest

end Objects

/-! ## Records -/

section Records

variable {fields : List (Field β)} {b b' : β} {members : List (String × Json)}

/-- A field that is read for the first time is put in its place. -/
theorem recordMember_field {name : String} {value : Reader γ} {get : β → Option γ}
    {put : β → γ → β} {j : Json} {v : γ}
    (hfind : fields.find? (·.name = name) = some (field name value get put)) (hnew : get b = none)
    (hv : Decodes value j v) (l : Layout) (hl : l.Airy) (level : Nat) (rest : List Char)
    (hrest : Ends rest) :
    recordMember fields b name (l.colon ++ (render l level j ++ rest)) = .ok (put b v, rest) := by
  unfold recordMember
  rw [hfind]
  simp only [field, hnew, Option.isSome_none, if_neg Bool.false_ne_true]
  rw [valueOf_map, valueOf_of_decodes hv hl level hrest]
  rfl

/-- **A record is read back** from the object of its fields. -/
theorem decodes_record {none : β} {finish : β → Except Fault α} {a : α}
    (h : Fills (recordMember fields) none members b) (hfinish : finish b = .ok a) :
    Decodes (record fields none finish) (.obj members) a := by
  refine fun l hl level => ⟨starts_bracket (by decide) (by decide) '\x7d' _, ?_⟩
  intro gap rest hgap _
  obtain ⟨s, hs⟩ := members_of_fills hl level h
  obtain ⟨htext, hread⟩ := hs rest
  unfold record
  rw [render, htext, hgap.blanks_append_cons (by decide)]
  show (Json.members _ none _ >>= _) = _
  rw [hread]
  show (finish b >>= _) = _
  rw [hfinish]
  rfl

end Records

/-! ## Variants -/

section Variants

variable {known : List String} {bare : String → Except Fault α} {content : String → Reader α}
  {name : String} {a : α}

theorem variantName_quoted (hknown : name ∈ known) (rest : List Char) :
    variantName known (quoted name ++ rest) = .ok (name, rest) := by
  have hread : variantName known ([] ++ (quoted name ++ rest)) = .ok (name, rest) :=
    meaning_quoted (if_pos hknown) gap_nil rest
  exact hread

/-- A variant without content is read back from its name. -/
theorem decodes_name (hknown : name ∈ known) (h : bare name = .ok a) :
    Decodes (variant known bare content) (.str name) a := by
  refine fun l hl level => ⟨(spells_string name).starts, fun gap rest hgap hrest => ?_⟩
  have hname := variantName_quoted hknown rest
  rw [quoted_append] at hname
  unfold variant
  rw [render, quoted_append, hgap.blanks_append_cons (by decide)]
  show (variantName known _ >>= _) = _
  rw [hname]
  show (bare name >>= _) = _
  rw [h]
  rfl

/-- A variant with content is read back from an object of its name and content. -/
theorem decodes_content {j : Json} (hknown : name ∈ known) (h : Decodes (content name) j a) :
    Decodes (variant known bare content) (.obj [(name, j)]) a := by
  refine fun l hl level => ⟨starts_bracket (by decide) (by decide) '\x7d' _, ?_⟩
  intro gap rest hgap hrest
  have hname := variantName_quoted hknown
    (l.colon ++ (render l (level + 1) j ++ (l.lineBreak level ++ '\x7d' :: rest)))
  have hvalue := valueOf_of_decodes h hl (level + 1)
    ((hl.lineBreak level).ends_append_cons (c := '\x7d') (by decide) rest)
  rw [quoted_append] at hname
  unfold variant
  rw [render, renderMembers, bracket_append, hgap.blanks_append_cons (by decide)]
  simp only [renderMembers, following, List.flatMap_nil, List.nil_append, List.append_assoc,
    List.cons_append, quoted_append,
    (hl.lineBreak (level + 1)).blanks_append_cons (show isBlank '\x22' = false by decide)]
  refine bind_eq_ok.mpr ⟨_, hname, bind_eq_ok.mpr ⟨_, hvalue, ?_⟩⟩
  dsimp only
  rw [(hl.lineBreak level).blanks_append_cons (by decide)]
  rfl

end Variants

/-! ## Maps -/

section Maps

variable {value : Reader α} {write : α → Json} {m m' : PlayerMap α}

/-- The entries of a map come after those that are there. -/
theorem fills_players {entries : List (String × α)} (hm : m'.entries = m.entries ++ entries)
    (h : ∀ e ∈ entries, Decodes value (write e.2) e.2) :
    Fills (playerMember value) m (entries.map fun e => (e.1, write e.2)) m' := by
  induction entries generalizing m with
  | nil =>
    rw [List.append_nil] at hm
    rw [PlayerMap.ext hm]
    exact .nil m
  | cons e entries ih =>
    rw [List.forall_mem_cons] at h
    have hnew : e.1 ∉ m.keys := by
      have hnodup := m'.nodup
      rw [hm, List.map_append, List.nodup_append] at hnodup
      exact fun hmem => hnodup.2.2 e.1 hmem e.1 (by simp) rfl
    have hfree : m.insert? e.1 e.2 ≠ none := mt PlayerMap.insert?_eq_none_iff.mp hnew
    obtain ⟨n, hn⟩ := Option.ne_none_iff_exists'.mp hfree
    have hentries := PlayerMap.insert?_eq_some hn
    refine .cons (fun l hl level rest hrest => ?_) (ih (m := n) ?_ h.2)
    · unfold playerMember
      refine bind_eq_ok.mpr ⟨_, valueOf_of_decodes h.1 hl level hrest, ?_⟩
      dsimp only
      rw [hn]
    · rw [hm, hentries, List.append_assoc]
      rfl

/-- **A map is read back** with its players in their order. -/
theorem decodes_playerMap (h : ∀ e ∈ m.entries, Decodes value (write e.2) e.2) :
    Decodes (playerMap value) (ofPlayerMap write m) m :=
  decodes_object (fills_players (List.nil_append _).symm h)

end Maps

end Holdem.Json
