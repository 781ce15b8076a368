/-!
# Values keyed by player

The type `PlayerMap` of stacks, hole cards and winnings, with its `insert`, `get`, `position` and
`from_iter`. How one is read from JSON is in `Json.playerMap`.

A `PlayerMap` keeps its players in the order in which they came; the n-th player sits in seat n.
No player occurs twice, which is part of the type. `insert?` refuses a player that is there,
`ofList` keeps the first value of each player.
-/

namespace Holdem

/-- Values keyed by player, in order of arrival. -/
structure PlayerMap (α : Type) where
  entries : List (String × α)
  nodup : (entries.map Prod.fst).Nodup
  deriving DecidableEq

namespace PlayerMap

variable {α β : Type}

@[ext]
theorem ext {m n : PlayerMap α} (h : m.entries = n.entries) : m = n := by
  cases m; cases n; cases h; rfl

/-- No players. -/
def empty : PlayerMap α := ⟨[], .nil⟩

/-- The players, in order. -/
def keys (m : PlayerMap α) : List String := m.entries.map Prod.fst

/-- The values, in the order of their players. -/
def values (m : PlayerMap α) : List α := m.entries.map Prod.snd

/-- How many players there are. -/
def size (m : PlayerMap α) : Nat := m.entries.length

/-- The value of a player. -/
def get? (m : PlayerMap α) (player : String) : Option α :=
  (m.entries.find? (·.1 = player)).map Prod.snd

/-- The seat of a player. -/
def position? (m : PlayerMap α) (player : String) : Option Nat :=
  m.entries.findIdx? (·.1 = player)

theorem nodup_append {l : List (String × α)} (h : (l.map Prod.fst).Nodup) {player : String}
    (hp : player ∉ l.map Prod.fst) (value : α) :
    ((l ++ [(player, value)]).map Prod.fst).Nodup := by
  rw [List.map_append]
  refine List.nodup_append.2 ⟨h, by simp, ?_⟩
  intro a ha b hb hab
  simp only [List.map_cons, List.map_nil, List.mem_singleton] at hb
  exact hp (hb ▸ hab ▸ ha)

/-- Appends a player, unless it is there already. -/
def insert? (m : PlayerMap α) (player : String) (value : α) : Option (PlayerMap α) :=
  if h : player ∈ m.entries.map Prod.fst then none
  else some ⟨m.entries ++ [(player, value)], nodup_append m.nodup h value⟩

/-- Appends a player in place, or gives the value back if the player is there already. -/
def insert (m : PlayerMap α) (player : String) (value : α) : Except α Unit × PlayerMap α :=
  match m.insert? player value with
  | some m => (.ok (), m)
  | none => (.error value, m)

/-- Appends a player, and keeps the map as it is if the player is there already. -/
def add (m : PlayerMap α) (entry : String × α) : PlayerMap α :=
  (m.insert? entry.1 entry.2).getD m

/-- The map of some entries; the first value of each player counts. -/
def ofList (l : List (String × α)) : PlayerMap α := l.foldl add empty

/-- The map with its values changed. -/
def map (f : α → β) (m : PlayerMap α) : PlayerMap β :=
  ⟨m.entries.map fun e => (e.1, f e.2), by
    have : (m.entries.map fun e => (e.1, f e.2)).map Prod.fst = m.entries.map Prod.fst := by simp
    rw [this]; exact m.nodup⟩

@[simp]
theorem entries_empty : (empty : PlayerMap α).entries = [] := rfl

theorem insert?_eq_some {m n : PlayerMap α} {player : String} {value : α}
    (h : m.insert? player value = some n) : n.entries = m.entries ++ [(player, value)] := by
  unfold insert? at h
  split at h
  · simp at h
  · cases h; rfl

theorem insert?_eq_none_iff {m : PlayerMap α} {player : String} {value : α} :
    m.insert? player value = none ↔ player ∈ m.keys := by
  unfold insert? keys
  split <;> simp_all

end PlayerMap

end Holdem
