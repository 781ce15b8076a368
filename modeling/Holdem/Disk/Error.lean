/-!
# Why a file is not read

The causes for which a file is not read as text, with the wording of the system. Out of scope: those
that a `Disk` does not know, such as permissions.
-/

namespace Holdem

/-- Why a file is not read as text. -/
inductive FileError
  | missing
  | notDirectory
  | isDirectory
  | nameTooLong
  /-- A name has a character of code zero. -/
  | zeroInName
  | notText
  /-- A cause with a wording of its own. -/
  | other (text : String)
  deriving DecidableEq

/-- The wording of a cause. -/
def FileError.message : FileError → String
  | missing => "No such file or directory (os error 2)"
  | notDirectory => "Not a directory (os error 20)"
  | isDirectory => "Is a directory (os error 21)"
  | nameTooLong => "File name too long (os error 36)"
  | zeroInName => "file name contained an unexpected NUL byte"
  | notText => "stream did not contain valid UTF-8"
  | other text => text

end Holdem
