import Holdem.Command.Arguments
import Holdem.Command.Host

/-!
# Carrying out commands

`Program.run` is the program: it reads the command line, carries the command out on a `Host`, and
ends with an `Exit`, a code and a text for the standard error output. What it prints on the standard
output it prints on the way.

* `Command.settleIn` is the command `settle` (`handle_settle_command`), with any way of storing a
  record, or none. It reads the input, which is a file or, if it is named `-`, the standard input;
  it reads the hand in it, checks its entries and settles it; it stores the record; and only then it
  prints the record.
* `Command.perform` carries out each command under some settings: `settle`, `validate`, `list`,
  `show`, `cfg`. The history is opened first if the command needs it, also for a command that fails
  later on.
* `Command.execute` resolves the settings before anything else.

Out of scope: the log, of which the arguments and the settings say how much is wanted; where in a
text a fault is, which the message for a text that is no hand leaves out; and the wording of the
help, for which `Exit.usage` stands.
-/

namespace Holdem

/-- Why a command fails. -/
inductive CommandError
  /-- The standard output takes nothing. -/
  | io (cause : String)
  | input (message : String)
  | settings (cause : SettingsError)
  | sequence (cause : SequenceError)
  | settle (cause : SettleError)
  | history (cause : HistoryError)
  deriving DecidableEq

/-- The wording of a failure. -/
def CommandError.message : CommandError → String
  | io cause => "I/O error: " ++ cause
  | input message => "Invalid input: " ++ message
  | settings cause => "Configuration error: " ++ cause.message
  | sequence cause => "Invalid action sequence: " ++ cause.message
  | settle cause => "Settlement failed: " ++ cause.message
  | history cause => "Hand history: " ++ cause.message

namespace Command

variable {σ : Type}

/-! ## Hands -/

/-- The hand in the text of an input, if each of its entries is right on its own. -/
def readHand (input text : String) : Except CommandError HandInput :=
  match Json.parse HandInput.reader text with
  | .error e => .error (.input (input ++ " is not a hand: " ++ e.message))
  | .ok hand =>
    match hand.check with
    | .error e => .error (.input e.message)
    | .ok () => .ok hand

/-- Settles the hand in the text of an input; the record is stamped as given. -/
def settleText (stamp : Stamp) (input text : String) : Except CommandError HandRecord := do
  let hand ← readHand input text
  (hand.process stamp).1.mapError .settle

/-- What is printed of a record. -/
def printed (record : HandRecord) : String := record.toJson.indented ++ "\n"

/-! ## Histories -/

/-- The line of a record in a list: identifier, time, and what everyone won. -/
def summary (record : HandRecord) : String :=
  let won (e : String × Int) : String := e.1 ++ ":" ++ String.ofList (Text.signedDigits e.2)
  "  ".intercalate [record.id.text, record.createdAt.secondText,
    " ".intercalate (record.winnings.entries.map won)]

/-- The lines for all records, oldest first. -/
def listLines (R : Repository σ) (s : σ) : Except CommandError (List String) := do
  match ← (R.all s).mapError CommandError.history with
  | [] => .ok ["no hands stored\n"]
  | records => .ok (records.map fun record => summary record ++ "\n")

/-- The record with an identifier. -/
def findText (R : Repository σ) (id : String) (s : σ) : Except CommandError String := do
  match Uuid.ofText? id with
  | none => .error (.input ("`" ++ id ++ "` is not a hand id"))
  | some id => .ok (printed (← (R.find id s).mapError .history))

/-- Whether a sequence is one. -/
def validateText (sequence : String) : Except CommandError String :=
  match ActionSequence.ofText sequence with
  | .ok _ => .ok "valid\n"
  | .error e => .error (.sequence e)

/-! ## Steps -/

variable {m : Type → Type} [Monad m]

/-- What a command does: steps on the world, up to one that fails. -/
abbrev Task (m : Type → Type) := ExceptT CommandError m

/-- A step that may fail for a cause of its own. -/
def attempt {ε α : Type} (f : ε → CommandError) (step : m (Except ε α)) : Task m α :=
  ExceptT.mk do return (← step).mapError f

/-- Prints a text. -/
def print (console : Console m) (text : String) : Task m Unit := attempt .io (console.print text)

/-- Reads an input: the standard input if it is named by a dash, or else a file. -/
def readInput (console : Console m) (input : String) : Task m String :=
  attempt (fun e => .input ("Failed to read " ++ input ++ ": " ++ e.message))
    (if input = "-" then console.readInput else console.readText input)

/-! ## Storing -/

/-- Stores a record if there is a way to. -/
def keep (record : HandRecord) : Option (Storing m) → Task m Unit
  | some store => do
    let _ ← attempt .history (store record)
    return ()
  | none => return ()

/-- Opens the history at a path. -/
def openAt (host : Host m) (path : String) : Task m (List Row) :=
  attempt .history (host.openHistory path)

/-- Stores a record in the history that was opened at a path. -/
def storeAt (host : Host m) (path : String) (rows : List Row) : Storing m := fun record =>
  match Repository.rows.store record rows with
  | (.error e, _) => return .error e
  | (.ok stored, rows) => do return (← host.saveHistory path rows).map fun _ => stored

/-! ## Execution -/

/-- Settles the hand of an input, stores its record if there is a way to, and prints it then. -/
def settleIn (console : Console m) (store : Option (Storing m)) (stamp : Stamp) (input : String) :
    Task m Unit := do
  let text ← readInput console input
  let record ← settleText stamp input text
  keep record store
  print console (printed record)

/-- Carries out a command under some settings. -/
def perform (host : Host m) (stamp : Stamp) (resolved : Resolved) : Command → Task m Unit
  | settle input false => settleIn host.toConsole none stamp input
  | settle input true => do
    let path := resolved.settings.database
    let rows ← openAt host path
    settleIn host.toConsole (some (storeAt host path rows)) stamp input
  | validate sequence => do print host.toConsole (← validateText sequence)
  | list => do
    let rows ← openAt host resolved.settings.database
    (← listLines Repository.rows rows).forM (print host.toConsole)
  | find id => do
    let rows ← openAt host resolved.settings.database
    print host.toConsole (← findText Repository.rows id rows)
  | settings => print host.toConsole (resolved.toJson.indented ++ "\n")

/-- Resolves the settings, and carries out what the program is called for. -/
def execute (host : Host m) (stamp : Stamp) (i : Invocation) : Task m Unit := do
  let resolved ← attempt .settings (Resolved.load host.environment host.readText)
  perform host stamp (resolved.withDatabase i.database) i.command

end Command

/-! ## The program -/

/-- How the program ends. -/
structure Exit where
  code : Nat
  err : String
  deriving DecidableEq

namespace Exit

variable {m : Type → Type} [Monad m]

/-- The end after a command; every failure has the same code. -/
def ofResult : Except CommandError Unit → Exit
  | .ok () => ⟨0, ""⟩
  | .error e => ⟨2, "Error: " ++ e.message ++ "\n"⟩

/-- How the program is used. -/
def usage : String :=
  String.join <| [
    "Usage: handledger [-v] [--db PATH] COMMAND",
    "",
    "Commands:",
    "  settle --input FILE|- [--store]  settle a hand and print its record",
    "  validate SEQUENCE                check an action sequence",
    "  list                             list stored hands",
    "  show ID                          print a stored hand",
    "  cfg                              print the settings and their sources",
    "  help [COMMAND]                   print this text"].map (· ++ "\n")

/-- The end after a text is printed for which the program was called. -/
def told (console : Console m) (text : String) : m Exit := do
  match ← console.print text with
  | .ok () => return ⟨0, ""⟩
  | .error _ => return ⟨2, ""⟩

/-- The end when no command is carried out. -/
def ofStop (console : Console m) : Stop → m Exit
  | .help => told console usage
  | .version => told console "handledger 0.1.0\n"
  | .misuse => return ⟨2, usage⟩

end Exit

/-- Runs the program on its arguments; a new record gets a new stamp. -/
def Program.run {m : Type → Type} [Monad m] (host : Host m) (newStamp : m Stamp)
    (args : List String) : m Exit :=
  match Invocation.ofArguments args with
  | .error stop => Exit.ofStop host.toConsole stop
  | .ok invocation => do
    let stamp ← newStamp
    return .ofResult (← (Command.execute host stamp invocation).run)

end Holdem
