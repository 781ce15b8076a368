import Holdem.History.Basic

/-!
# Error reports

A request that fails is answered by an `ErrorReport`: a status, how severe the error is, and an
`ErrorBody`, which is the JSON body of the reply. These are the status, code, message, details and
severity that each error of the API is given, and the wording of the log lines for it.

* `SettleError.report`, `HistoryError.report` and `ServiceError.report` say how each error is
  reported.
* `ErrorReport.line` is the log line for a report. Errors of the client are noted, all others are
  logged as errors, and those after which the storage is in doubt are marked.

Where a body that is no hand cannot be read is part of its error (`Json.Misread`), which is
whatever the decoder of the service says; the report gives it on, line and column.
-/

namespace Holdem

/-- The body of a reply that reports an error. -/
structure ErrorBody where
  /-- A code for programs. -/
  error : String
  /-- A text for people. -/
  message : String
  details : Option Json := none

namespace ErrorBody

/-- The code and the message on one line. -/
def text (b : ErrorBody) : String := b.error ++ ": " ++ b.message

/-- The object of a body; details are left out if there are none. -/
def toJson (b : ErrorBody) : Json :=
  .obj ([("error", .str b.error), ("message", .str b.message)] ++
    (b.details.map fun d => ("details", d)).toList)

/-- A body of which some fields are read. -/
structure Fields where
  error : Option String := none
  message : Option String := none
  details : Option (Option Json) := none

/-- How deep details may be nested. -/
def detailLevels : Nat := 126

/-- Reads a body; details may be `null` or missing. -/
def reader : Json.Reader ErrorBody :=
  Json.record
    [ Json.field "error" Json.string Fields.error fun b v => { b with error := some v },
      Json.field "message" Json.string Fields.message fun b v => { b with message := some v },
      Json.field "details" (Json.optional (Json.value detailLevels)) Fields.details
        fun b v => { b with details := some v } ]
    {} fun b => do
      .ok ⟨← Json.need "error" b.error, ← Json.need "message" b.message, b.details.join⟩

end ErrorBody

/-- Who is to blame for an error. -/
inductive Severity
  | client
  | server
  /-- The server, and its storage is in doubt. -/
  | critical
  deriving DecidableEq

/-- How an error is answered. -/
structure ErrorReport where
  status : Nat
  severity : Severity
  body : ErrorBody

/-- The log line for a report. -/
def ErrorReport.line (r : ErrorReport) : LogLine :=
  let fields := [("status", toString r.status), ("error", r.body.error), ("detail", r.body.message)]
  match r.severity with
  | .client => ⟨.info, "client error", fields⟩
  | .server => ⟨.error, "server error", fields⟩
  | .critical => ⟨.error, "critical error", fields ++ [("critical", "true")]⟩

/-- The code of a stage. -/
def Stage.code : Stage → String
  | stateCreation => "state_creation"
  | holeCardDealing => "hole_card_dealing"
  | actionProcessing => "action_processing"
  | payoffExtraction => "payoff_extraction"

/-- A hand that makes no sense is a bad request; one that breaks the rules is well formed. -/
def SettleError.report (e : SettleError) : ErrorReport :=
  match e with
  | sequence _ => ⟨400, .client, "invalid_action_sequence", e.message, none⟩
  | input _ => ⟨400, .client, "inconsistent_hand", e.message, none⟩
  | engine stage _ =>
    ⟨422, .client, "illegal_action", e.message, some (.obj [("stage", .str stage.code)])⟩

/-- A missing record is the client's error, all else is the server's. -/
def HistoryError.report (e : HistoryError) : ErrorReport :=
  match e with
  | notFound _ => ⟨404, .client, "hand_not_found", e.message, none⟩
  | duplicate _ => ⟨500, .server, "duplicate_hand", e.message, none⟩
  | poisoned => ⟨500, .critical, "storage_poisoned", e.message, none⟩
  | storage _ => ⟨500, .server, "storage_error", e.message, none⟩
  | unreadable _ => ⟨500, .server, "serialization_error", e.message, none⟩

/-- Why a request for hands failed. -/
inductive ServiceError
  /-- The body is no hand. -/
  | malformed (cause : Json.Misread)
  /-- A stack or a hole of the hand is wrong on its own. -/
  | invalid (cause : InputError)
  | unknownId (text : String)
  | settle (cause : SettleError)
  | history (cause : HistoryError)
  deriving DecidableEq

/-- How a failed request is answered. -/
def ServiceError.report : ServiceError → ErrorReport
  | malformed cause =>
    ⟨400, .client, "invalid_request", "malformed request body: " ++ cause.message,
      some (.obj [("column", .int cause.column), ("line", .int cause.line)])⟩
  | invalid cause => ⟨400, .client, "invalid_hand", "invalid hand: " ++ cause.message, none⟩
  | unknownId text => ⟨404, .client, "hand_not_found", "hand `" ++ text ++ "` not found", none⟩
  | settle cause => cause.report
  | history cause => cause.report

end Holdem
