import Holdem.History.Basic

/-!
# Histories in a table of rows

The history that is kept in the SQLite table `hands`, one row for each record.

* A `Row` holds a record in the seven text columns of the table: the identifier, the action sequence
  as it is, and the JSON text of every other field. `Row.ofRecord` writes one and `Row.toRecord`
  reads it.
* A `HandTable` is what the database answers to the three statements that are executed on the table:
  `INSERT INTO hands`, `SELECT … ORDER BY rowid` and `SELECT … WHERE id = ?1`. `HandTable.rows` is
  such a table, a list of rows of which no two have one identifier text.
* `Repository.table` keeps records in any such table. An insertion that fails with the code of a
  violated constraint is that of a record which is there already; any other failure of a statement
  is one of the storage.

Out of scope: opening a database and creating the table in it (for histories in files see
`Disk.openHistory`), the lock around the connection, and columns that are read back as anything but
text. In the wording of a column that cannot be read, the place of the fault is left out.
-/

namespace Holdem

/-- A record in texts. -/
structure Row where
  id : String
  createdAt : String
  stackSettings : String
  playerRoles : String
  holeCards : String
  actionSequence : String
  winnings : String
  deriving DecidableEq

namespace Row

/-- The texts of a record. -/
def ofRecord (r : HandRecord) : Row where
  id := r.id.text
  createdAt := r.createdAt.toJson.compact
  stackSettings := (Stacks.toJson r.stackSettings).compact
  playerRoles := r.playerRoles.toJson.compact
  holeCards := (HoleCards.toJson r.holeCards).compact
  actionSequence := r.actionSequence
  winnings := (Stacks.toJson r.winnings).compact

/-- Reads one of the texts. -/
def column {α : Type} (reader : Json.Reader α) (text : String) : Except HistoryError α :=
  (Json.parse reader text).mapError .unreadable

/-- The identifier of a row. -/
def readId (row : Row) : Except HistoryError Uuid :=
  match Uuid.ofText? row.id with
  | some id => .ok id
  | none => .error (.storage ("stored id `" ++ row.id ++ "` is not a uuid"))

/-- Reads the record of a row; the first text that is unreadable counts. -/
def toRecord (row : Row) : Except HistoryError HandRecord := do
  .ok {
    id := ← row.readId
    createdAt := ← column Instant.reader row.createdAt
    stackSettings := ← column Stacks.reader row.stackSettings
    playerRoles := ← column Roles.reader row.playerRoles
    holeCards := ← column HoleCards.reader row.holeCards
    actionSequence := row.actionSequence
    winnings := ← column Stacks.reader row.winnings }

end Row

/-! ## The table -/

/-- The code of a failure of the database itself. -/
inductive FailureCode
  | constraintViolation
  | other (code : Nat)
  deriving DecidableEq

/-- Why a statement failed. -/
structure StatementError where
  /-- None if it was not the database that failed. -/
  code : Option FailureCode
  text : String
  deriving DecidableEq

/-- What a database in a state of type `δ` answers to the statements on its table of hands. -/
structure HandTable (δ : Type) where
  insert : Row → δ → Except StatementError Unit × δ
  /-- All rows, by their numbers. -/
  selectAll : δ → Except StatementError (List Row)
  /-- The row with an identifier text, if there is one. -/
  selectId : String → δ → Except StatementError (Option Row)

/-- A list of rows. -/
def HandTable.rows : HandTable (List Row) where
  insert row rows :=
    if rows.any (·.id = row.id) then
      (.error ⟨some .constraintViolation, "UNIQUE constraint failed: hands.id"⟩, rows)
    else (.ok (), rows ++ [row])
  selectAll := .ok
  selectId id rows := .ok (rows.find? (·.id = id))

/-! ## The history -/

/-- What it means that a statement failed. -/
def StatementError.toHistory (e : StatementError) : HistoryError := .storage e.text

/-- What it means that the row of a record was not inserted. -/
def StatementError.onInsert (e : StatementError) (id : Uuid) : HistoryError :=
  match e.code with
  | some .constraintViolation => .duplicate id
  | _ => e.toHistory

namespace Repository

/-- Records kept in a table. -/
def table {δ : Type} (T : HandTable δ) : Repository δ where
  store record s :=
    match T.insert (Row.ofRecord record) s with
    | (.ok (), s) => (.ok record, s)
    | (.error e, s) => (.error (e.onInsert record.id), s)
  all s := do
    let rows ← (T.selectAll s).mapError StatementError.toHistory
    rows.mapM Row.toRecord
  find id s := do
    match ← (T.selectId id.text s).mapError StatementError.toHistory with
    | some row => row.toRecord
    | none => .error (.notFound id)
  storeLog := [⟨.debug, "hand stored", []⟩]

/-- Records kept as a list of rows. -/
def rows : Repository (List Row) := table .rows

end Repository

end Holdem
