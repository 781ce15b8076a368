import Holdem.Disk.Error
import Holdem.Json.Shape
import Holdem.Settings.Document
import Holdem.Settings.Filter

/-!
# Settings and where they come from

The functions `resolve`, `validate`, `load_with_sources` and `with_database_flag`, the settings
`Config` and their sources `ConfigSources`.

The settings are the file of the hand history and the log filter. Each is taken from the last of
these that gives it: the default, the settings document, the environment, the command line.

* `Resolved.of` puts default, document and environment together, and `Resolved.check` refuses what
  makes no sense.
* `Resolved.load` finds the document by the environment and reads it on the way.
* `Resolved.withDatabase` is the last word: the file named on the command line, which is not
  checked.

An empty variable is no variable.
-/

namespace Holdem

/-- What can be set. -/
structure Settings where
  /-- The file of the hand history. -/
  database : String
  logFilter : String
  deriving DecidableEq

namespace Settings

/-- The settings when nothing is set. -/
def standard : Settings := ⟨"handledger.db", "warn"⟩

/-- Settings of which some are read. -/
structure Fields where
  database : Option String := none
  logFilter : Option String := none

/-- The object of the settings. -/
def toJson (s : Settings) : Json :=
  .obj [("database", .str s.database), ("log_filter", .str s.logFilter)]

/-- Reads settings, both of which have to be there. -/
def reader : Json.Reader Settings :=
  Json.record
    [ Json.field "database" Json.string Fields.database fun b v => { b with database := some v },
      Json.field "log_filter" Json.string Fields.logFilter
        fun b v => { b with logFilter := some v } ]
    {} fun b => do
      .ok ⟨← Json.need "database" b.database, ← Json.need "log_filter" b.logFilter⟩

end Settings

/-- Where a setting comes from. -/
inductive Source
  | standard
  | document
  | environment
  | commandLine
  deriving DecidableEq

/-- The name of a source. -/
def Source.name : Source → String
  | standard => "default"
  | document => "file"
  | environment => "env"
  | commandLine => "cli"

/-- Why settings are refused. -/
inductive SettingsError
  | unreadable (path : String) (cause : FileError)
  | malformed
  | noDatabase
  | badFilter (filter : String)
  deriving DecidableEq

/-- The wording of a refusal. -/
def SettingsError.message : SettingsError → String
  | unreadable path cause => "cannot read " ++ path ++ ": " ++ cause.message
  | malformed =>
    "malformed config file: expected lines that set `database` or `log_filter` to a string"
  | noDatabase => "Invalid configuration: database path must not be empty"
  | badFilter filter => "Invalid configuration: bad log filter `" ++ filter ++ "`"

/-- Settings with their sources. -/
structure Resolved where
  settings : Settings
  databaseSource : Source
  logFilterSource : Source
  deriving DecidableEq

namespace Resolved

/-- The variables of an environment. -/
abbrev Variables := String → Option String

/-- A variable that is not empty. -/
def given? (env : Variables) (name : String) : Option String :=
  (env name).filter (· ≠ "")

/-- The file of the settings document. -/
def documentPath? (env : Variables) : Option String :=
  given? env "HANDLEDGER_CONFIG"

/-- The last value that is given, and its source. -/
def pick (standard : String) (document environment : Option String) : String × Source :=
  match environment, document with
  | some v, _ => (v, .environment)
  | none, some v => (v, .document)
  | none, none => (standard, .standard)

/-- The settings of a document and an environment. -/
def of (document : Document) (env : Variables) : Resolved :=
  let (database, databaseSource) :=
    pick Settings.standard.database document.database (given? env "HANDLEDGER_DB")
  let (logFilter, logFilterSource) :=
    pick Settings.standard.logFilter document.logFilter (given? env "HANDLEDGER_LOG")
  ⟨⟨database, logFilter⟩, databaseSource, logFilterSource⟩

/-- Refuses an empty path and a filter that is none. -/
def check (r : Resolved) : Except SettingsError Resolved :=
  if r.settings.database = "" then .error .noDatabase
  else if Filter.isValid r.settings.logFilter then .ok r
  else .error (.badFilter r.settings.logFilter)

/-- The document of a file that is read. -/
def document (path : String) : Except FileError String → Except SettingsError Document
  | .error e => .error (.unreadable path e)
  | .ok text =>
    match Document.ofText? text with
    | some d => .ok d
    | none => .error .malformed

/-- Finds and reads the document, and resolves the settings. -/
def load {m : Type → Type} [Monad m] (env : Variables)
    (readText : String → m (Except FileError String)) : m (Except SettingsError Resolved) := do
  match documentPath? env with
  | none => pure (check (of {} env))
  | some path =>
    let text ← readText path
    pure (document path text >>= fun d => check (of d env))

/-- The settings with the file that the command line names, if it names one. -/
def withDatabase (r : Resolved) : Option String → Resolved
  | some path =>
    { r with settings := { r.settings with database := path }, databaseSource := .commandLine }
  | none => r

/-- The object of a setting and its source. -/
def entryJson (value : String) (source : Source) : Json :=
  .obj [("source", .str source.name), ("value", .str value)]

/-- The object of all settings and their sources. -/
def toJson (r : Resolved) : Json :=
  .obj [("database", entryJson r.settings.database r.databaseSource),
    ("log_filter", entryJson r.settings.logFilter r.logFilterSource)]

end Resolved

end Holdem
