import Holdem.Log
import Holdem.Record.Json

/-!
# Hand histories

A history keeps records in the order in which they were stored, at most one for each identifier.
`Repository σ` is any way of keeping them in a state of type `σ`: the `store`, `fetch_all` and
`fetch_by_id` of a hand repository.

* `Repository.memory` keeps the records themselves, behind no lock. Its operations are those of a
  list with unique identifiers.
* `Repository.failing` refuses every call for the same cause.

An attempt to store a record answers the state after it also where it is refused, so that a
repository may change its state then; those here do not.

Out of scope: calls at the same time, and how a lock comes to be poisoned. What is answered then is
`HistoryError.poisoned`.
-/

namespace Holdem

/-- Why a history refused a call. -/
inductive HistoryError
  | notFound (id : Uuid)
  | duplicate (id : Uuid)
  /-- The storage was left in an unknown state. -/
  | poisoned
  | storage (cause : String)
  | unreadable (fault : Json.Fault)
  deriving DecidableEq

/-- The wording of a refusal. -/
def HistoryError.message : HistoryError → String
  | notFound id => "hand " ++ id.text ++ " not found"
  | duplicate id => "hand " ++ id.text ++ " is already stored"
  | poisoned => "hand history storage lock poisoned"
  | storage cause => "hand history storage failed: " ++ cause
  | unreadable fault => "stored hand could not be (de)serialized: " ++ fault.message

/-- A way of keeping records in a state. -/
structure Repository (σ : Type) where
  /-- Stores a record and answers it, with the state after it. -/
  store : HandRecord → σ → Except HistoryError HandRecord × σ
  /-- All records, in the order in which they were stored. -/
  all : σ → Except HistoryError (List HandRecord)
  /-- The record with an identifier. -/
  find : Uuid → σ → Except HistoryError HandRecord
  /-- What is logged when a record is stored. -/
  storeLog : List LogLine := []

namespace Repository

/-- Records kept as they are. -/
def memory : Repository (List HandRecord) where
  store record hands :=
    if hands.any (·.id = record.id) then (.error (.duplicate record.id), hands)
    else (.ok record, hands ++ [record])
  all hands := .ok hands
  find id hands :=
    match hands.find? (·.id = id) with
    | some record => .ok record
    | none => .error (.notFound id)

/-- Every call is refused. -/
def failing (cause : HistoryError) : Repository Unit where
  store _ s := (.error cause, s)
  all _ := .error cause
  find _ _ := .error cause

end Repository

end Holdem
