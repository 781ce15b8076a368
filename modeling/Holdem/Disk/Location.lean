import Holdem.Chips
import Holdem.Json.Reader
import Holdem.Text.Alphanumeric
import Holdem.Text.Blank

/-!
# Where a history is kept

What the path in the settings, which `SqliteHistory::open` hands on to the database, means to it.

A history is named by a path, or by an address: `file:`, a path, and options after a question mark,
as in `file:hands.db?mode=ro`. `Location.ofText?` reads either, and refuses an address with a
host or with an option whose value is not known.

* In an address a percent sign with two hexadecimal digits stands for a byte; at a byte of zero the
  path or option ends. What follows a number sign does not count.
* `mode` says whether a file is created, has to be there, is only read, or is not used at all. A
  later `mode` may not allow more than one before it.
* `immutable` makes a history one that is only read, and `vfs` tells how files are handled, of which
  `memdb` uses none.
* The path `:memory:` and the empty path name a history that is not kept.
-/

namespace Holdem

/-- Where a history is kept, and what may be done with it. -/
structure Location where
  /-- The path of its file, unless it is not kept. -/
  path : Option String
  /-- Whether a file is created if there is none. -/
  creates : Bool := true
  /-- Whether the history may be changed. -/
  writable : Bool := true
  deriving DecidableEq

namespace Location

/-! ## Escapes -/

/-- The bytes of a text with escapes, up to a byte of zero. -/
def bytes : List Char → List UInt8
  | [] => []
  | '%' :: a :: b :: s =>
    match Json.hexValue? a, Json.hexValue? b with
    | some x, some y =>
      if x = 0 ∧ y = 0 then [] else UInt8.ofNat (16 * x + y) :: bytes s
    | _, _ => 37 :: bytes (a :: b :: s)
  | c :: s => String.utf8EncodeChar c ++ bytes s

/-- The text of a text with escapes; if its bytes are no text, it stays as it is written. -/
def unescaped (s : List Char) : String :=
  (String.fromUTF8? ⟨(bytes s).toArray⟩).getD (String.ofList s)

/-! ## Options -/

/-- An option of an address. -/
abbrev Setting := String × String

/-- The options of an address; one without a name does not count. -/
def options (query : List Char) : List Setting :=
  ((Text.pieces (· == '&') query).map fun o =>
    (unescaped (o.takeWhile (· ≠ '=')), unescaped ((o.dropWhile (· ≠ '=')).drop 1))).filter
      fun o => o.1 ≠ ""

/-- The values of an option. -/
def values (name : String) (options : List Setting) : List String :=
  (options.filter (·.1 = name)).map Prod.snd

/-- How the file of a history is used. -/
inductive Access
  | readOnly
  /-- The file has to be there. -/
  | existing
  | create
  /-- No file is used. -/
  | memory
  deriving DecidableEq

namespace Access

/-- The access of a value of `mode`. -/
def ofText? : String → Option Access
  | "ro" => some readOnly
  | "rw" => some existing
  | "rwc" => some create
  | "memory" => some memory
  | _ => none

/-- How much an access allows to those after it. -/
def rank : Access → Nat
  | readOnly => 0
  | existing => 1
  | create => 2
  | memory => 3

/-- The access after a further `mode`. -/
def next? (a : Access) (mode : String) : Option Access := do
  let b ← ofText? mode
  if b = memory ∨ b.rank ≤ a.rank then some b else none

end Access

/-- Whether a value switches an option on. -/
def isOn (value : String) : Bool :=
  match value.toList.takeWhile Text.isAsciiDigit with
  | [] => ["on", "yes", "true"].contains (String.ofList (value.toList.map Char.toLower))
  | digits => (Text.nat? digits).any fun n => n % 256 ≠ 0

/-- The ways to handle files. -/
def handlings : List String := ["unix", "unix-dotfile", "unix-excl", "unix-none", "memdb"]

/-- The location of a path with options. -/
def ofOptions? (path : String) (options : List Setting) : Option Location := do
  let access ← (values "mode" options).foldlM Access.next? .create
  let handling := (values "vfs" options).getLast?.getD "unix"
  let frozen := (values "immutable" options).head?.any isOn
  if ¬ (values "cache" options).all (["shared", "private"].contains ·) then none
  else if handling ∉ handlings then none
  else if access = .memory ∨ path = "" ∨ path = ":memory:" then
    some ⟨none, true, access ≠ .readOnly⟩
  else
    let path := if handling = "memdb" then none else some path
    some ⟨path, access = .create, access ≠ .readOnly ∧ ¬ frozen⟩

/-! ## Addresses -/

/-- An address without its host, which has to be this one. -/
def withoutHost? : List Char → Option (List Char)
  | '/' :: '/' :: s =>
    let host := String.ofList (s.takeWhile (· ≠ '/'))
    if host = "" ∨ host = "localhost" then some (s.dropWhile (· ≠ '/')) else none
  | s => some s

/-- The location of an address whose scheme is read. -/
def ofAddress? (s : List Char) : Option Location := do
  let s := (← withoutHost? s).takeWhile (· ≠ '#')
  ofOptions? (unescaped (s.takeWhile (· ≠ '?'))) (options ((s.dropWhile (· ≠ '?')).drop 1))

/-- The location that a text names. -/
def ofText? (text : String) : Option Location :=
  let s := text.toList
  if s.contains '\x00' then none
  else if "file:".toList.isPrefixOf s then ofAddress? (s.drop 5)
  else ofOptions? text []

end Location

end Holdem
