import Holdem.Proofs.Json.Shape
import Holdem.Proofs.Record.Instant
import Holdem.Proofs.Record.Uuid
import Holdem.Record.Json

/-!
# Hands that were written are read back

Each part of a hand is read back from its JSON: cards, actions, streets, roles, amounts by player,
identifiers and instants, and from them hands and their records. Amounts have to be of 64 signed
bits, which is all that an amount is asked for (`Stacks.Fit`); names, players and texts may be any
strings.

Result: **`read_written`**, that records, hands and action sequences are read back from their JSON
texts, written on one line or on many.
-/

namespace Holdem

open Json (Decodes Fills Layout)

/-! ## Amounts of 64 signed bits -/

/-- The amounts of all players have 64 signed bits. -/
def Stacks.Fit (m : PlayerMap Int) : Prop := ∀ e ∈ m.entries, Chips.fits e.2 = true

instance (m : PlayerMap Int) : Decidable (Stacks.Fit m) := List.decidableBAll _ _

/-- The amounts of a submitted hand have 64 signed bits. -/
def HandInput.Fits (h : HandInput) : Prop := Stacks.Fit h.stackSettings

/-- The amounts of a record have 64 signed bits. -/
structure HandRecord.Fits (r : HandRecord) : Prop where
  stackSettings : Stacks.Fit r.stackSettings
  winnings : Stacks.Fit r.winnings

/-- The amount of an action, if it has one, has 64 signed bits. -/
def Action.Fits (a : Action) : Prop := ∀ amount, a = .raiseTo amount → Chips.fits amount = true

/-- The amounts of a sequence have 64 signed bits. -/
def ActionSequence.Fits (s : ActionSequence) : Prop :=
  ∀ actions, .betting actions ∈ s.streets → ∀ a ∈ actions, a.Fits

/-! ## Sequences -/

theorem Card.decodes (c : Card) : Decodes Card.reader c.toJson c := by
  refine Json.decodes_meaning ?_
  rw [Card.text, String.toList_ofList, Card.ofText?_chars]

theorem Card.decodes_list (cards : List Card) :
    Decodes (Json.list Card.reader) (Card.listToJson cards) cards :=
  Json.decodes_list fun c _ => c.decodes

theorem BoardKind.decodes (kind : BoardKind) : Decodes BoardKind.reader kind.toJson kind := by
  cases kind <;> exact Json.decodes_name (by decide) rfl

theorem Action.decodes {a : Action} (h : a.Fits) : Decodes Action.reader a.toJson a := by
  cases a with
  | fold => exact Json.decodes_name (by decide) rfl
  | checkOrCall => exact Json.decodes_name (by decide) rfl
  | allIn => exact Json.decodes_name (by decide) rfl
  | raiseTo amount =>
    refine Json.decodes_content (by decide) ((Json.decodes_integer (h amount rfl)).imp ?_)
    intro s rest hread
    simp only [hread, if_true]
    rfl

theorem Street.decodes {street : Street}
    (h : ∀ actions, street = .betting actions → ∀ a ∈ actions, a.Fits) :
    Decodes Street.reader street.toJson street := by
  cases street with
  | betting actions =>
    have hactions : Decodes (Json.list Action.reader) (.arr (actions.map Action.toJson)) actions :=
      Json.decodes_list fun a ha => Action.decodes (h actions rfl a ha)
    refine Json.decodes_content (by decide) (hactions.imp ?_)
    intro s rest hread
    simp only [hread, if_true]
    rfl
  | board kind cards =>
    have hboard : Decodes Street.boardReader
        (.obj [("kind", kind.toJson), ("cards", Card.listToJson cards)]) (.board kind cards) :=
      Json.decodes_record (.cons (Json.recordMember_field rfl rfl kind.decodes)
        (.cons (Json.recordMember_field rfl rfl (Card.decodes_list cards)) (.nil _))) rfl
    refine Json.decodes_content (by decide) (hboard.imp ?_)
    intro s rest hread
    exact (if_neg (by decide)).trans hread

theorem ActionSequence.decodes {s : ActionSequence} (h : s.Fits) :
    Decodes ActionSequence.reader s.toJson s := by
  have hstreets : Decodes (Json.list Street.reader) (.arr (s.streets.map Street.toJson)) s.streets :=
    Json.decodes_list fun street hstreet => Street.decodes fun actions heq =>
      h actions (heq ▸ hstreet)
  exact Json.decodes_record (.cons (Json.recordMember_field rfl rfl hstreets) (.nil _)) rfl

/-! ## Maps -/

theorem Stacks.decodes {m : PlayerMap Int} (h : Stacks.Fit m) :
    Decodes Stacks.reader (Stacks.toJson m) m :=
  Json.decodes_playerMap fun e he => Json.decodes_integer (h e he)

theorem HoleCards.decodes (m : HoleCards) : Decodes HoleCards.reader (HoleCards.toJson m) m :=
  Json.decodes_playerMap fun e _ => Card.decodes_list e.2

/-- A name that comes after all others is put at the end. -/
theorem Json.insertMember_of_lt {α : Type} {key : String} {l : List (String × α)}
    (h : ∀ a ∈ l, a.1 < key) (value : α) : insertMember key value l = l ++ [(key, value)] := by
  induction l with
  | nil => rfl
  | cons a l ih =>
    rw [List.forall_mem_cons] at h
    have hne : key ≠ a.1 := fun heq => String.lt_irrefl key (by rw [heq]; exact heq ▸ h.1)
    unfold insertMember
    rw [if_neg (String.lt_asymm h.1), if_neg hne, ih h.2]
    rfl

/-- The roles after those that are there come in the order of their names. -/
theorem Roles.fills {entries : List (String × String)} {r r' : Roles}
    (h : r'.entries = r.entries ++ entries) :
    Fills (fun r name s => (Json.valueOf Json.string s).map fun (p, s) => (r.insert name p, s))
      r (entries.map fun (name, player) => (name, .str player)) r' := by
  induction entries generalizing r with
  | nil =>
    rw [List.append_nil] at h
    cases r
    cases r'
    cases h
    exact .nil _
  | cons e entries ih =>
    have hlast : ∀ a ∈ r.entries, a.1 < e.1 := by
      have hsorted := r'.sorted
      rw [h, List.pairwise_append] at hsorted
      exact fun a ha => hsorted.2.2 a ha e List.mem_cons_self
    refine .cons (fun l hl level rest hrest => ?_) (ih (r := r.insert e.1 e.2) ?_)
    · rw [Json.valueOf_of_decodes (Json.decodes_string e.2) hl level hrest]
      rfl
    · have hinsert : (r.insert e.1 e.2).entries = r.entries ++ [e] :=
        Json.insertMember_of_lt hlast e.2
      rw [h, hinsert, List.append_assoc]
      rfl

theorem Roles.decodes (r : Roles) : Decodes Roles.reader r.toJson r :=
  Json.decodes_object (Roles.fills (List.nil_append _).symm)

/-! ## Hands -/

theorem Uuid.decodes (u : Uuid) : Decodes Uuid.reader u.toJson u := by
  refine Json.decodes_meaning ?_
  rw [Uuid.ofText?_text]

theorem Instant.decodes (t : Instant) : Decodes Instant.reader t.toJson t := by
  refine Json.decodes_meaning ?_
  rw [Instant.ofText?_text]

theorem HandInput.decodes {h : HandInput} (hfits : h.Fits) :
    Decodes HandInput.reader h.toJson h := by
  unfold HandInput.reader HandInput.toJson
  refine Json.decodes_record (.cons (Json.recordMember_field rfl rfl (Stacks.decodes hfits))
    (.cons (Json.recordMember_field rfl rfl (Roles.decodes _))
    (.cons (Json.recordMember_field rfl rfl (HoleCards.decodes _))
    (.cons (Json.recordMember_field rfl rfl (Json.decodes_string _)) (.nil _))))) rfl

theorem HandRecord.decodes {r : HandRecord} (hfits : r.Fits) :
    Decodes HandRecord.reader r.toJson r := by
  unfold HandRecord.reader HandRecord.toJson
  refine Json.decodes_record (.cons (Json.recordMember_field rfl rfl (Uuid.decodes _))
    (.cons (Json.recordMember_field rfl rfl (Instant.decodes _))
    (.cons (Json.recordMember_field rfl rfl (Stacks.decodes hfits.stackSettings))
    (.cons (Json.recordMember_field rfl rfl (Roles.decodes _))
    (.cons (Json.recordMember_field rfl rfl (HoleCards.decodes _))
    (.cons (Json.recordMember_field rfl rfl (Json.decodes_string _))
    (.cons (Json.recordMember_field rfl rfl (Stacks.decodes hfits.winnings)) (.nil _)))))))) rfl

/-- **What was written is read back.** A record of any identifier, instant, players, roles, cards
and text, a submitted hand, and a sequence of streets are each read back from their JSON as they
were, players and roles in their order, from one line as well as from many. Their amounts have 64
signed bits. -/
theorem read_written :
    (∀ r : HandRecord, r.Fits →
      Json.parse HandRecord.reader r.toJson.compact = .ok r ∧
        Json.parse HandRecord.reader r.toJson.indented = .ok r) ∧
    (∀ h : HandInput, h.Fits →
      Json.parse HandInput.reader h.toJson.compact = .ok h ∧
        Json.parse HandInput.reader h.toJson.indented = .ok h) ∧
    ∀ s : ActionSequence, s.Fits →
      Json.parse ActionSequence.reader s.toJson.compact = .ok s ∧
        Json.parse ActionSequence.reader s.toJson.indented = .ok s :=
  ⟨fun _ hfits => Json.parse_of_decodes (HandRecord.decodes hfits),
    fun _ hfits => Json.parse_of_decodes (HandInput.decodes hfits),
    fun _ hfits => Json.parse_of_decodes (ActionSequence.decodes hfits)⟩

/-- A record with the extreme amounts, names of quotes and control characters, one name that is
empty, and a fraction of a second in six digits. -/
def extremeRecord : HandRecord where
  id := ⟨List.replicate 32 ⟨10, by decide⟩, rfl⟩
  createdAt := ⟨⟨0, 2, 29⟩, ⟨23, 59, 59, 120000⟩, by decide, by decide⟩
  stackSettings := ⟨[("\x22\\\n\x00", 9223372036854775807), ("", 1)], by decide⟩
  playerRoles := (Roles.empty.insert "dealer" "").insert "" "\x1f"
  holeCards := ⟨[("", [⟨.ten, .hearts⟩]), ("\t/", [])], by decide⟩
  actionSequence := "\x0c\x08\u2028"
  winnings := ⟨[("a", -9223372036854775808)], by decide⟩

theorem read_written_extreme :
    extremeRecord.Fits ∧
      Json.parse HandRecord.reader extremeRecord.toJson.compact = .ok extremeRecord ∧
      ActionSequence.Fits ⟨[.betting [.raiseTo (-5)], .board .flop []]⟩ ∧
      Json.parse ActionSequence.reader
        (ActionSequence.toJson ⟨[.betting [.raiseTo (-5)], .board .flop []]⟩).indented =
          .ok ⟨[.betting [.raiseTo (-5)], .board .flop []]⟩ := by
  have hrecord : extremeRecord.Fits := ⟨by decide, by decide⟩
  have hsequence : ActionSequence.Fits ⟨[.betting [.raiseTo (-5)], .board .flop []]⟩ := by
    intro actions hactions a ha amount hamount
    rcases List.mem_pair.mp hactions with h | h
    · cases h
      cases List.mem_singleton.mp ha
      cases hamount
      decide
    · cases h
  exact ⟨hrecord, (read_written.1 _ hrecord).1, hsequence, (read_written.2.2 _ hsequence).2⟩

end Holdem
