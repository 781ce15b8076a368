import Holdem.Json.Shape

/-!
# Player roles

The type `PlayerRoles`: role names, such as `dealer`, with the players that have them. They are
sorted by name, which is part of the type, and a name occurs once: `Roles.insert` replaces the
player of a name.
-/

namespace Holdem

/-- Players by role, sorted by the name of the role. -/
structure Roles where
  entries : List (String × String)
  sorted : entries.Pairwise fun a b => a.1 < b.1
  deriving DecidableEq

theorem Json.mem_insertMember {α : Type} {key : String} {value : α} {l : List (String × α)}
    {x : String × α} (h : x ∈ Json.insertMember key value l) : x.1 = key ∨ x ∈ l := by
  induction l with
  | nil => simp_all [Json.insertMember]
  | cons a l ih =>
    unfold Json.insertMember at h
    split at h
    · rcases List.mem_cons.1 h with h | h <;> simp_all
    · split at h
      · rcases List.mem_cons.1 h with h | h <;> simp_all
      · rcases List.mem_cons.1 h with h | h
        · simp_all
        · rcases ih h with h | h <;> simp_all

theorem Json.sorted_insertMember {α : Type} (key : String) (value : α) {l : List (String × α)}
    (h : l.Pairwise fun a b => a.1 < b.1) :
    (Json.insertMember key value l).Pairwise fun a b => a.1 < b.1 := by
  induction l with
  | nil => simp [Json.insertMember]
  | cons a l ih =>
    obtain ⟨ha, hl⟩ := List.pairwise_cons.1 h
    unfold Json.insertMember
    split
    · rename_i hk
      refine List.pairwise_cons.2 ⟨fun b hb => ?_, h⟩
      rcases List.mem_cons.1 hb with rfl | hb
      · exact hk
      · exact String.lt_trans hk (ha b hb)
    · split
      · rename_i hk
        exact List.pairwise_cons.2 ⟨fun b hb => hk ▸ ha b hb, hl⟩
      · rename_i hk hne
        refine List.pairwise_cons.2 ⟨fun b hb => ?_, ih hl⟩
        rcases Json.mem_insertMember hb with hb | hb
        · rw [hb]
          exact Std.lt_of_le_of_ne (Std.not_lt.1 hk) fun e => hne e.symm
        · exact ha b hb

namespace Roles

/-- No roles. -/
def empty : Roles := ⟨[], .nil⟩

/-- The roles with a player for one more role, or another player for one of them. -/
def insert (r : Roles) (name player : String) : Roles :=
  ⟨Json.insertMember name player r.entries, Json.sorted_insertMember name player r.sorted⟩

/-- The object of the roles. -/
def toJson (r : Roles) : Json := .obj (r.entries.map fun (name, player) => (name, .str player))

/-- Reads roles; the last player of a name counts. -/
def reader : Json.Reader Roles :=
  Json.object (fun r name s => (Json.valueOf Json.string s).map fun (p, s) => (r.insert name p, s))
    .empty

end Roles

end Holdem
