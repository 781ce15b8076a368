/-!
# The command line

The command line `HandLedgerCli` with its `Commands`, as the library for command lines reads it.

`Invocation.ofArguments` reads what the program is called with: a command, its arguments, and the
options that stand before or after it. Where it does not, it stops for `help`, for the `version`,
or for `misuse`, whichever comes first in the order of the arguments.

* An option with a value takes it from behind an equals sign, or from the next argument unless that
  is itself an option. The value is looked at when the next option or argument is read, or at the
  end. No option with a value, and no switch but `verbose`, is given twice at one level.
* Arguments before the name of the command form the outer level, those behind it the inner one. A
  path given at the inner level wins.
* After `--` nothing is an option.

Out of scope: arguments that are no text, and how misuse is explained.
-/

namespace Holdem

/-- A command with its arguments. -/
inductive Command
  /-- Settle the hand of an input, a file or a dash, and keep its record if `store`. -/
  | settle (input : String) (store : Bool)
  | validate (sequence : String)
  | list
  | find (id : String)
  | settings
  deriving DecidableEq

/-- What the program is called for. -/
structure Invocation where
  command : Command
  /-- The file of the hand history. -/
  database : Option String
  verbosity : Nat
  deriving DecidableEq

/-- Why no command is carried out. -/
inductive Stop
  | help
  | version
  | misuse
  deriving DecidableEq

namespace Arguments

/-! ## Levels -/

/-- What a level takes besides the options that all levels take. -/
structure Level where
  /-- The names of commands that may follow. -/
  commands : List String
  /-- Whether the version may be asked for. -/
  version : Bool
  /-- Whether an input and storing may be asked for. -/
  input : Bool
  /-- How many arguments that are no options there may be. -/
  words : Nat

/-- The level before the command. -/
def outer : Level := ⟨["settle", "validate", "list", "show", "cfg", "help"], true, false, 0⟩

/-- The level of a command. -/
def inner (command : String) : Level :=
  ⟨[], false, command = "settle", if command = "validate" ∨ command = "show" then 1 else 0⟩

/-- The options with a value. -/
inductive Valued
  | database
  | input
  deriving DecidableEq

/-- What is given at a level. -/
structure Given where
  database : Option String := none
  input : Option String := none
  store : Bool := false
  verbosity : Nat := 0
  words : List String := []
  deriving DecidableEq

/-- The option with a value of a name. -/
def Level.valued? (l : Level) (name : String) : Option Valued :=
  if name = "db" then some .database
  else if name = "input" ∧ l.input then some .input
  else none

/-- Gives a value to an option that has none. A path is not empty. -/
def Given.set (g : Given) (value : String) : Valued → Except Stop Given
  | .database =>
    if g.database = none ∧ value ≠ "" then .ok { g with database := some value }
    else .error .misuse
  | .input => if g.input = none then .ok { g with input := some value } else .error .misuse

/-- Switches on what a name says; to ask for help or the version is to stop. -/
def Given.switch (l : Level) (g : Given) (name : String) : Except Stop Given :=
  if name = "help" then .error .help
  else if name = "version" ∧ l.version then .error .version
  else if name = "verbose" then .ok { g with verbosity := g.verbosity + 1 }
  else if name = "store" ∧ l.input ∧ g.store = false then .ok { g with store := true }
  else .error .misuse

/-! ## Reading a level -/

/-- An option whose value is not yet looked at, or still to come. -/
structure Open where
  option : Valued
  value : Option String := none
  deriving DecidableEq

/-- How far a level is read. -/
structure Progress where
  given : Given := {}
  pending : Option Open := none
  deriving DecidableEq

/-- Looks at the value of the last option. -/
def Progress.close (p : Progress) : Except Stop Given :=
  match p.pending with
  | none => .ok p.given
  | some ⟨_, none⟩ => .error .misuse
  | some ⟨option, some value⟩ => p.given.set value option

/-- The long name of a letter. -/
def longName (letter : Char) : String :=
  if letter = 'h' then "help"
  else if letter = 'V' then "version"
  else if letter = 'v' then "verbose"
  else ""

/-- Reads switches of one letter each. -/
def letters (l : Level) (g : Given) : List Char → Except Stop Given
  | [] => .ok g
  | c :: s =>
    match g.switch l (longName c) with
    | .ok g => letters l g s
    | .error stop => .error stop

/-- The name of a long option, and its value if it has one. -/
def splitName (s : List Char) : String × Option String :=
  let name := s.takeWhile (· != '=')
  (String.ofList name, match s.drop name.length with
    | [] => none
    | _ :: value => some (String.ofList value))

/-- Reads a long option. -/
def long (l : Level) (p : Progress) (text : List Char) : Except Stop Progress := do
  let (name, value) := splitName text
  let given ← p.close
  match l.valued? name, value with
  | some option, none => .ok ⟨given, some ⟨option, none⟩⟩
  | some option, some value => .ok ⟨← given.set value option, none⟩
  | none, none => .ok ⟨← given.switch l name, none⟩
  | none, some _ => .error .misuse

/-- Reads an argument that is no option. -/
def plain (l : Level) (p : Progress) (arg : String) : Except Stop Progress := do
  let given ← p.close
  if given.words.length < l.words then .ok ⟨{ given with words := given.words ++ [arg] }, none⟩
  else .error .misuse

/-- Reads arguments after which no option comes. -/
def plainAll (l : Level) (p : Progress) : List String → Except Stop Progress
  | [] => .ok p
  | arg :: args =>
    match plain l p arg with
    | .ok p => plainAll l p args
    | .error stop => .error stop

/-- Reads the arguments of a level, up to the name of a command, if one comes; answers the name with
the arguments behind it. -/
def read (l : Level) (p : Progress) :
    List String → Except Stop (Progress × Option (String × List String))
  | [] => .ok (p, none)
  | arg :: args =>
    match arg.toList with
    | ['-', '-'] => (plainAll l p args).map fun p => (p, none)
    | '-' :: '-' :: text =>
      match long l p text with
      | .ok p => read l p args
      | .error stop => .error stop
    | '-' :: c :: text =>
      match p.close.bind fun given => letters l given (c :: text) with
      | .ok given => read l ⟨given, none⟩ args
      | .error stop => .error stop
    | _ =>
      match p.pending with
      | some ⟨option, none⟩ => read l ⟨p.given, some ⟨option, some arg⟩⟩ args
      | _ =>
        if l.commands.contains arg then .ok (p, some (arg, args))
        else
          match plain l p arg with
          | .ok p => read l p args
          | .error stop => .error stop

/-! ## The whole -/

/-- What the help command is asked about: nothing, or one command. -/
def help : List String → Stop
  | [] => .help
  | [command] => if outer.commands.contains command then .help else .misuse
  | _ => .misuse

/-- The command of a name, with what is given for it. -/
def command (name : String) (g : Given) : Except Stop Command :=
  match name, g.input, g.words with
  | "settle", some input, _ => .ok (.settle input g.store)
  | "validate", _, [sequence] => .ok (.validate sequence)
  | "list", _, _ => .ok .list
  | "show", _, [id] => .ok (.find id)
  | "cfg", _, _ => .ok .settings
  | _, _, _ => .error .misuse

/-- Reads the level of a command, and then looks at what is left of the outer one. -/
def invocation (before : Progress) (name : String) (args : List String) :
    Except Stop Invocation := do
  let (p, _) ← read (inner name) {} args
  let given ← p.close
  let command ← command name given
  let outerGiven ← before.close
  .ok ⟨command, given.database.or outerGiven.database,
    if given.verbosity = 0 then outerGiven.verbosity else given.verbosity⟩

end Arguments

/-- Reads the arguments of the program. -/
def Invocation.ofArguments (args : List String) : Except Stop Invocation := do
  match ← Arguments.read Arguments.outer {} args with
  | (_, none) => .error .misuse
  | (_, some ("help", args)) => .error (Arguments.help args)
  | (before, some (name, args)) => Arguments.invocation before name args

end Holdem
