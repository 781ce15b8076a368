import Holdem.Command.Run
import Holdem.History.File
import Std.Time

/-!
# The program

Runs `Program.run` on the file system and the standard streams. Nothing is decided here:
`Program.host` is the file system as a `Host`, and `Program.newStamp` gives a new record a random
identifier and the time.
-/

namespace Holdem.Program

/-- The cause for which the system did not read a file. -/
def fileError : IO.Error → FileError
  | .noFileOrDirectory .. => .missing
  | .inappropriateType _ code _ => if code = 21 then .isDirectory else .notDirectory
  | e@(.invalidArgument _ code _) =>
    if code = 36 ∨ code + 36 = 0 then .nameTooLong else .other (toString e)
  | e => .other (toString e)

/-- Reads bytes as text. -/
def textOf (read : IO ByteArray) : IO (Except FileError String) := do
  try
    match String.fromUTF8? (← read) with
    | some text => return .ok text
    | none => return .error .notText
  catch e => return .error (fileError e)

/-- Reads a file as text. -/
def readText (path : String) : IO (Except FileError String) := textOf (IO.FS.readBinFile path)

/-- Reads the standard input to its end. -/
def readInput : IO (Except FileError String) := textOf do (← IO.getStdin).readBinToEnd

/-- Prints a text on the standard output. -/
def print (text : String) : IO (Except String Unit) := do
  try
    IO.print text
    (← IO.getStdout).flush
    return .ok ()
  catch e => return .error (toString e)

/-- A path without the names that two dots take off again. -/
def simplified (path : String) : String :=
  let step (dir : List String) (n : String) := if n = ".." then Disk.above dir else dir ++ [n]
  "/".intercalate ((Disk.names path).foldl step (Disk.start path))

/-- Writes a history into a file. -/
def writeRows (path : String) (rows : List Row) : IO (Except HistoryError Unit) := do
  try
    IO.FS.writeFile path (Row.fileText rows)
    return .ok ()
  catch e => return .error (.storage (toString e))

/-- Opens the history in a file. -/
def openFile (path : String) (l : Location) : IO (Except HistoryError (List Row)) := do
  match ← readText path with
  | .ok text =>
    if text.utf8ByteSize ≤ 1 ∧ l.writable then return (← writeRows path []).map fun _ => []
    match Row.ofFileText? text with
    | some rows => return .ok rows
    | none => return .error (.storage "file is not a hand history")
  | .error .missing =>
    if l.creates ∧ l.writable then return (← writeRows path []).map fun _ => []
    return Disk.unopened path
  | .error e => return .error (.storage e.message)

/-- Opens the history that a text names, creating it if there is none. -/
def openHistory (text : String) : IO (Except HistoryError (List Row)) := do
  match Location.ofText? text with
  | none => return Disk.unopened text
  | some l =>
    match l.path with
    | none => return if l.writable then .ok [] else Disk.unopened text
    | some path => openFile (simplified path) l

/-- Saves the history that a text names. -/
def saveHistory (text : String) (rows : List Row) : IO (Except HistoryError Unit) := do
  match Location.ofText? text with
  | none => return Disk.unopened text
  | some l =>
    if ¬ l.writable then return Disk.unopened text
    match l.path with
    | none => return .ok ()
    | some path => writeRows (simplified path) rows

/-- The environment, as far as it matters. -/
def readVariables : IO Resolved.Variables := do
  let names := ["HANDLEDGER_CONFIG", "HANDLEDGER_DB", "HANDLEDGER_LOG"]
  let values ← names.mapM fun name => return (name, ← IO.getEnv name)
  return fun name => (values.lookup name).join

/-- The file system, the standard streams and the environment. -/
def host : IO (Host IO) := do
  return ⟨⟨readText, readInput, print⟩, ← readVariables, openHistory, saveHistory⟩

/-- A random identifier. -/
def newId : IO Uuid := do
  let bytes ← IO.getRandomBytes 16
  return .random (bytes.foldl (fun n b => 256 * n + b.toNat) 0)

/-- The time. -/
def now : IO Instant := do
  let t := Std.Time.PlainDateTime.ofWallTime ((← Std.Time.Timestamp.now).toWallTime .zero)
  let date : Date := ⟨t.year, t.month.val.toNat, t.day.val.toNat⟩
  let time : TimeOfDay :=
    ⟨t.hour.val.toNat, t.minute.val.toNat, t.second.val.toNat, t.nanosecond.val.toNat⟩
  match Instant.of? date time with
  | some instant => return instant
  | none => throw (IO.userError "the clock shows no time that can be written")

/-- A stamp for a new record. -/
def newStamp : IO Stamp := return ⟨← newId, ← now⟩

end Holdem.Program

open Holdem in
/-- Runs the program. -/
def main (args : List String) : IO UInt32 := do
  let ending ← Program.run (← Program.host) Program.newStamp args
  IO.eprint ending.err
  return UInt32.ofNat ending.code
