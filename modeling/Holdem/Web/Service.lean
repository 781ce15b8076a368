import Holdem.Web.Report
import Holdem.Web.Route

/-!
# The service for hands

`Service.serve` answers a request on a history, and says what the history is then and what is
logged. It puts the handlers `create_hand`, `list_hands` and `get_hand` behind their routes.

* `Service.record` (`record_hand`) settles the hand of a body and stores its record. It fails at the
  first of: reading the body, checking it, settling it, storing it. Nothing is stored if it fails.
* `Service.find` (`find_hand`) looks a record up by the text of an identifier, in any spelling of
  it.

How bytes are read as a hand is left to a `Decoder`, which belongs to a library: it also passes over
bytes that are no text, where nobody wants them, and it says where a fault is. `Decoder.text` is a
decoder of bodies that are texts.

Out of scope: sockets, starting and stopping the server, and requests that are answered at the same
time. The identifier and the time of a new record come in as a `Stamp`.
-/

namespace Holdem

/-- An answer to a request. -/
structure Response where
  status : Nat
  body : String
  deriving DecidableEq

/-- A way of reading the bytes of a body as a hand. -/
abbrev Decoder := ByteArray → Except Json.Misread HandInput

/-- Reads a body that is a text; nothing is said of where a fault is. -/
def Decoder.text : Decoder := fun body =>
  match String.fromUTF8? body with
  | some text => (Json.parse HandInput.reader text).mapError Json.Fault.unplaced
  | none => .error (Json.Fault.unplaced .malformed)

namespace Service

variable {σ : Type}

/-! ## Hands -/

/-- What is left of the history after an attempt to store a record, with what is logged. -/
structure Recording (σ : Type) where
  result : Except ServiceError HandRecord
  state : σ
  log : List LogLine

/-- Stores a record. -/
def store (R : Repository σ) (record : HandRecord) (s : σ) : Recording σ :=
  match R.store record s with
  | (.error e, s) => ⟨.error (.history e), s, []⟩
  | (.ok stored, s) => ⟨.ok stored, s, R.storeLog ++ [⟨.info, "hand recorded", []⟩]⟩

/-- Settles a hand and stores its record. -/
def settle (R : Repository σ) (stamp : Stamp) (input : HandInput) (s : σ) : Recording σ :=
  let (result, log) := input.process stamp
  let log := ⟨.debug, "settling submitted hand", []⟩ :: log.map Entry.line
  match result with
  | .error e => ⟨.error (.settle e), s, log⟩
  | .ok record =>
    let stored := store R record s
    { stored with log := log ++ stored.log }

/-- Settles the hand of a body, as far as it could be decoded, and stores its record, stamped as
given. -/
def recordDecoded (R : Repository σ) (stamp : Stamp) (decoded : Except Json.Misread HandInput)
    (s : σ) : Recording σ :=
  match decoded with
  | .error e => ⟨.error (.malformed e), s, []⟩
  | .ok input =>
    match input.check with
    | .error e => ⟨.error (.invalid e), s, []⟩
    | .ok () => settle R stamp input s

/-- Settles the hand of a body and stores its record. -/
def record (decode : Decoder) (R : Repository σ) (stamp : Stamp) (body : ByteArray) (s : σ) :
    Recording σ :=
  recordDecoded R stamp (decode body) s

/-- The record with an identifier. -/
def find (R : Repository σ) (id : String) (s : σ) : Except ServiceError HandRecord :=
  match Uuid.ofText? id with
  | none => .error (.unknownId id)
  | some id => (R.find id s).mapError .history

/-! ## Requests -/

/-- The response to a result, and what is logged of it. -/
def respond {α : Type} (status : Nat) (write : α → Json) :
    Except ServiceError α → Response × List LogLine
  | .ok a => (⟨status, (write a).compact⟩, [])
  | .error e => (⟨e.report.status, e.report.body.toJson.compact⟩, [e.report.line])

/-- The answer to a request. -/
structure Answer (σ : Type) where
  response : Response
  state : σ
  log : List LogLine

/-- What is answered when all is well. -/
def healthBody : Json := .obj [("status", .str "ok")]

/-- The answer to an attempt to record a hand. -/
def Recording.answer (recorded : Recording σ) : Answer σ :=
  let (response, log) := respond 201 HandRecord.toJson recorded.result
  ⟨response, recorded.state, recorded.log ++ log⟩

/-- The reply to a body, as far as it could be decoded. -/
def replyTo (R : Repository σ) (stamp : Stamp) (decoded : Except Json.Misread HandInput) (s : σ) :
    Response :=
  (recordDecoded R stamp decoded s).answer.response

/-- Answers an endpoint; a new record is stamped as given. -/
def answer (decode : Decoder) (R : Repository σ) (stamp : Stamp) (s : σ) : Endpoint → Answer σ
  | .health => ⟨⟨200, healthBody.compact⟩, s, []⟩
  | .list =>
    let (response, log) := respond 200 HandRecord.listToJson ((R.all s).mapError .history)
    ⟨response, s, log⟩
  | .create body => (record decode R stamp body s).answer
  | .fetch id =>
    let (response, log) := respond 200 HandRecord.toJson (find R id s)
    ⟨response, s, log⟩

/-- Answers a request; a new record is stamped as given. -/
def serve (decode : Decoder) (R : Repository σ) (stamp : Stamp) (request : Request) (s : σ) :
    Answer σ :=
  match request.route with
  | .ok endpoint => answer decode R stamp s endpoint
  | .error refusal => ⟨⟨refusal.status, refusal.body⟩, s, []⟩

end Service

end Holdem
