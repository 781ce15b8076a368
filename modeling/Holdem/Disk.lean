import Holdem.Disk.Error
import Holdem.Disk.Location
import Holdem.History.Row

/-!
# A directory in memory

A `Disk` is a working directory with what lies below it: files of text and files of hand histories.
It answers reads, and opens and saves histories, as a file system does where `read_to_string` and
`SqliteHistory::open` ask it to.

* Names in a path are separated by slashes; empty names and single dots are passed over. The root
  and the directories above the working directory have nothing else in them, as far as is known.
* For a read, two dots lead from a directory to the one above it. For a history they only take a
  name off the path, so that the name need not lead to anything.
* A history is opened in a file of one, in a file of at most one byte, or where there is no file
  yet; it is created in a directory that exists. Any other file is no history.
* A history is created by way of a second file, whose longer name has to be possible too.

Out of scope: permissions, links, a disk that is full or fails, and other programs that write to it.
-/

namespace Holdem

/-- The content of a file. -/
inductive Content
  | text (s : String)
  | history (rows : List Row)
  deriving DecidableEq

/-- A working directory: files, with the names that lead to them. -/
structure Disk where
  files : List (List String × Content) := []
  deriving DecidableEq

namespace Disk

/-! ## Names -/

/-- The pieces of a path between slashes. -/
def pieces (path : String) : List String :=
  (Text.pieces (· == '/') path.toList).map String.ofList

/-- The names in a path. -/
def names (path : String) : List String := (pieces path).filter fun n => n ≠ "" ∧ n ≠ "."

/-- The names of the root directory. -/
def root : List String := ["/"]

/-- The directory from which a path leads. -/
def start (path : String) : List String := if path.toList.head? = some '/' then root else []

/-- Whether a path ends in a way that only a directory can: in a slash or a dot. -/
def endsOpen (path : String) : Bool := (pieces path).getLast?.any fun n => n = "" ∨ n = "."

/-- The greatest number of bytes in a name. -/
def maxName : Nat := 255

/-- The greatest number of bytes in a path. -/
def maxPath : Nat := 4095

/-- The directory above one; above the root is the root. -/
def above (dir : List String) : List String :=
  if dir = root then root else if dir.all (· = "..") then ".." :: dir else dir.dropLast

/-! ## Files -/

/-- A disk with files of text. -/
def ofTexts (texts : List (String × String)) : Disk :=
  ⟨texts.map fun (path, s) => (names path, .text s)⟩

/-- The content of a file. -/
def content? (d : Disk) (file : List String) : Option Content :=
  (d.files.find? (·.1 = file)).map Prod.snd

/-- Whether some names lead to a directory: the root, the working directory, one above it, or one
with a file below it. -/
def isDirectory (d : Disk) (dir : List String) : Bool :=
  dir = root || dir.all (· = "..") ||
    d.files.any fun f => dir.isPrefixOf f.1 && decide (dir.length < f.1.length)

/-- The disk with the content of a file set. -/
def put (d : Disk) (file : List String) (c : Content) : Disk :=
  ⟨d.files.filter (·.1 ≠ file) ++ [(file, c)]⟩

/-- What a path leads to. -/
inductive Place
  | directory
  | file (names : List String) (content : Content)
  /-- No file, but one might be created. -/
  | vacant (names : List String)
  | missing
  | notDirectory
  | nameTooLong
  deriving DecidableEq

/-- What some names lead to from a directory on. -/
def walk (d : Disk) (dir : List String) : List String → Place
  | [] => .directory
  | name :: rest =>
    if name = ".." then walk d (above dir) rest
    else if maxName < name.utf8ByteSize then .nameTooLong
    else
      let here := dir ++ [name]
      match d.content? here with
      | some c => if rest = [] then .file here c else .notDirectory
      | none =>
        if d.isDirectory here then walk d here rest
        else if rest = [] then .vacant here
        else .missing

/-! ## Reading -/

/-- What a path leads to. -/
def place (d : Disk) (path : String) : Place :=
  if path = "" then .missing
  else if maxPath < path.utf8ByteSize then .nameTooLong
  else
    match d.walk (start path) (names path) with
    | .file names c => if endsOpen path then .notDirectory else .file names c
    | .vacant names => if endsOpen path then .missing else .vacant names
    | p => p

/-- Reads a file as text. -/
def readText (d : Disk) (path : String) : Except FileError String :=
  if path.toList.contains '\x00' then .error .zeroInName
  else
    match d.place path with
    | .file _ (.text s) => .ok s
    | .file _ (.history _) => .error .notText
    | .directory => .error .isDirectory
    | .notDirectory => .error .notDirectory
    | .nameTooLong => .error .nameTooLong
    | .vacant _ => .error .missing
    | .missing => .error .missing

/-! ## Histories -/

/-- Names from a directory on without those that two dots take off again; `none` if one of them is
too long or is looked for in a file. -/
def simplify? (d : Disk) (dir : List String) : List String → Option (List String)
  | [] => some dir
  | name :: rest =>
    if name = ".." then simplify? d (above dir) rest
    else if maxName < name.utf8ByteSize ∨ (d.content? dir).isSome then none
    else simplify? d (dir ++ [name]) rest

/-- What the path of a history leads to. -/
def historyPlace (d : Disk) (path : String) : Place :=
  ((d.simplify? (start path) (names path)).map (d.walk [])).getD .missing

/-- Whether a history can be created under some names, with the second file beside it. -/
def canCreate (names : List String) : Bool :=
  names.getLast?.any fun n => n.utf8ByteSize + 8 ≤ maxName

/-- A path at which no history is opened. -/
def unopened {α : Type} (path : String) : Except HistoryError α :=
  .error (.storage ("cannot open " ++ path))

/-- Opens the history in a file at a path. -/
def openFile (d : Disk) (path : String) (l : Location) : Except HistoryError (List Row) × Disk :=
  match d.historyPlace path with
  | .file _ (.history rows) => (.ok rows, d)
  | .file names (.text s) =>
    if s.utf8ByteSize ≤ 1 ∧ l.writable ∧ canCreate names then (.ok [], d.put names (.history []))
    else (unopened path, d)
  | .vacant names =>
    if l.creates then
      if l.writable ∧ canCreate names then (.ok [], d.put names (.history []))
      else (unopened path, d.put names (.text ""))
    else (unopened path, d)
  | _ => (unopened path, d)

/-- Opens the history that a text names. -/
def openHistory (d : Disk) (text : String) : Except HistoryError (List Row) × Disk :=
  match Location.ofText? text with
  | none => (unopened text, d)
  | some l =>
    match l.path with
    | none => (if l.writable then .ok [] else unopened text, d)
    | some path => d.openFile path l

/-- Saves the history that a text names, at which one was opened. -/
def saveHistory (d : Disk) (text : String) (rows : List Row) : Except HistoryError Unit × Disk :=
  match Location.ofText? text with
  | none => (unopened text, d)
  | some l =>
    if ¬ l.writable then (unopened text, d)
    else
      match l.path with
      | none => (.ok (), d)
      | some path =>
        match d.historyPlace path with
        | .file names (.history _) => (.ok (), d.put names (.history rows))
        | _ => (unopened text, d)

end Disk

end Holdem
