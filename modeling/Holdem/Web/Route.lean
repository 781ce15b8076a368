import Holdem.Text.Blank

/-!
# Routes

`Request.route` says which `Endpoint` a request is for, or the `Refusal` with which it is turned
away. These are the routes `/health`, `/hands` and `/hands/:id` of the server, with the rejections
of the HTTP library that they are built with.

* `/health` answers `GET`. Its method is looked at before the rest of the path.
* `/hands` lists on `GET` and creates on `POST`; a body has to be announced by its length, and may
  have 64 KiB. `/hands/` and an identifier answers `GET`.
* One slash at the end of a path is of no account, nor is a query.

A body is bytes, as many as are announced. Out of scope: headers other than the length of the body,
and connections that break off.
-/

namespace Holdem

/-- A request as it comes in. -/
structure Request where
  method : String
  target : String
  /-- The body, if its length is announced. -/
  body : Option ByteArray := none

/-- What a request is for. -/
inductive Endpoint
  | health
  | list
  | create (body : ByteArray)
  | fetch (id : String)

/-- Why a request is for nothing. -/
inductive Refusal
  | notFound
  | methodNotAllowed
  | lengthRequired
  | tooLarge
  deriving DecidableEq

namespace Refusal

/-- The status of a refusal. -/
def status : Refusal → Nat
  | notFound => 404
  | methodNotAllowed => 405
  | lengthRequired => 411
  | tooLarge => 413

/-- The body of a refusal. -/
def body : Refusal → String
  | notFound => ""
  | methodNotAllowed => "HTTP method not allowed"
  | lengthRequired => "A content-length header is required"
  | tooLarge => "The request payload is too large"

end Refusal

namespace Request

/-! ## Paths -/

/-- A target up to its query or fragment. -/
def untilQuery (s : List Char) : List Char := s.takeWhile fun c => c != '?' && c != '#'

/-- What follows the scheme of an absolute target, if it has one. -/
def afterScheme? : List Char → Option (List Char)
  | [] => none
  | ':' :: '/' :: '/' :: s => some s
  | c :: s => if c == '/' then none else afterScheme? s

/-- The path of a target: of a bare one, or after the host of an absolute one. -/
def path (target : List Char) : List Char :=
  match untilQuery target with
  | '/' :: s => '/' :: s
  | s => ((afterScheme? s).map fun s => s.dropWhile (· != '/')).getD []

/-- The segments of a path, without an empty one at the end. -/
def segments (path : List Char) : List String :=
  let pieces := Text.pieces (· == '/') (path.drop 1)
  let pieces := if pieces.getLast? = some [] then pieces.dropLast else pieces
  pieces.map String.ofList

/-! ## Endpoints -/

/-- The greatest length of a body, in bytes. -/
def maxBodyBytes : Nat := 65536

/-- A new hand, if its body is announced and not too long. -/
def create : Option ByteArray → Except Refusal Endpoint
  | none => .error .lengthRequired
  | some body => if maxBodyBytes < body.size then .error .tooLarge else .ok (.create body)

/-- What a request is for. -/
def route (r : Request) : Except Refusal Endpoint :=
  match segments (path r.target.toList) with
  | "health" :: rest =>
    if r.method ≠ "GET" then .error .methodNotAllowed
    else if rest = [] then .ok .health
    else .error .notFound
  | ["hands"] =>
    if r.method = "GET" then .ok .list
    else if r.method = "POST" then create r.body
    else .error .methodNotAllowed
  | ["hands", id] =>
    if id = "" then .error .notFound
    else if r.method = "GET" then .ok (.fetch id)
    else .error .methodNotAllowed
  | _ => .error .notFound

end Request

end Holdem
