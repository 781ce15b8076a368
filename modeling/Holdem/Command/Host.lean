import Holdem.Disk
import Holdem.Settings.Resolve

/-!
# The world of the commands

What a command is handed to read from and to write to, and what it opens for itself.

* A `Console` has the files that are read, the standard input, and the standard output.
* A `Host` has the environment as well, and files of hand histories to open and to save.
* A `World` is both in memory: a directory, what there is to be read, what has been printed, and a
  history that is kept outside of files. `World.console` and `World.host` are its operations, each a
  step from one world to the next. `Repository.storing` stores a record in the history of a world.

A text is printed as a whole or, where the standard output is closed, not at all. Out of scope: the
log on the standard error output, and outputs that take a part of a text.
-/

namespace Holdem

/-! ## Operations -/

/-- What commands read and print, in a monad of its effects. -/
structure Console (m : Type → Type) where
  /-- Reads a file as text. -/
  readText : String → m (Except FileError String)
  /-- Reads the standard input to its end, as text. -/
  readInput : m (Except FileError String)
  /-- Prints a text. An error is in the words of the system. -/
  print : String → m (Except String Unit)

/-- What commands need of the world, in a monad of its effects. -/
structure Host (m : Type → Type) extends Console m where
  environment : Resolved.Variables
  /-- Opens the history at a path, creating it if needed. -/
  openHistory : String → m (Except HistoryError (List Row))
  /-- Replaces the history at a path at which one was opened. -/
  saveHistory : String → List Row → m (Except HistoryError Unit)

/-- A way to store a record, which answers the record that it stored. -/
abbrev Storing (m : Type → Type) := HandRecord → m (Except HistoryError HandRecord)

/-! ## Worlds in memory -/

/-- A world with a history in a state of type `σ`. -/
structure World (σ : Type) where
  disk : Disk := {}
  /-- What reading the standard input to its end comes to. -/
  input : Except FileError String := .ok ""
  /-- What has been printed. -/
  out : String := ""
  /-- Why nothing more can be printed, if that is so. -/
  closed : Option String := none
  history : σ

variable {σ : Type}

namespace World

/-- Files are those on the disk. After the standard input has been read it is at its end. -/
def console : Console (StateM (World σ)) where
  readText path := fun w => (w.disk.readText path, w)
  readInput := fun w => (w.input, { w with input := .ok "" })
  print text := fun w =>
    match w.closed with
    | some cause => (.error cause, w)
    | none => (.ok (), { w with out := w.out ++ text })

/-- Histories in files are those on the disk. -/
def host (env : Resolved.Variables) : Host (StateM (World σ)) where
  toConsole := console
  environment := env
  openHistory path := fun w =>
    let (result, disk) := w.disk.openHistory path
    (result, { w with disk })
  saveHistory path rows := fun w =>
    let (result, disk) := w.disk.saveHistory path rows
    (result, { w with disk })

end World

/-- Stores a record in the history of a world. -/
def Repository.storing (R : Repository σ) : Storing (StateM (World σ)) := fun record w =>
  let (result, history) := R.store record w.history
  (result, { w with history })

end Holdem
