/-!
# Errors

What an operation on the console can fail with. Mistakes in a typed line (an unknown command, a
refused write) are no errors: they are printed. An error is a cause; its wording is `message`.
-/

namespace DevConsole

/-- The three kinds of entries that share one space of names. -/
inductive EntryKind
  | command
  | variable
  | alias
  deriving DecidableEq, Repr, Inhabited

/-- The kind's name in messages. -/
def EntryKind.name : EntryKind → String
  | .command => "command"
  | .variable => "variable"
  | .alias => "alias"

/-- Why a file could not be read or written. -/
inductive FileFault
  | missing
  | notDirectory
  | isDirectory
  | nameTooLong
  | alreadyThere
  /-- The path holds the character U+0000, which ends a path for the system. -/
  | zeroInPath
  | notText
  deriving DecidableEq, Repr, Inhabited

/-- The system's wording, with its error number where it has one. -/
def FileFault.message : FileFault → String
  | .missing => "No such file or directory (os error 2)"
  | .notDirectory => "Not a directory (os error 20)"
  | .isDirectory => "Is a directory (os error 21)"
  | .nameTooLong => "File name too long (os error 36)"
  | .alreadyThere => "File exists (os error 17)"
  | .zeroInPath => "file name contained an unexpected NUL byte"
  | .notText => "stream did not contain valid UTF-8"

/-- The causes for which an operation fails. -/
inductive ConsoleError
  /-- The name belongs to an entry of this kind. -/
  | nameInUse (name : String) (kind : EntryKind)
  /-- The text cannot be a name. -/
  | invalidName (name : String)
  /-- The alias would stand for itself. -/
  | selfReferential (name : String)
  /-- The alias name has more than `limit` bytes. -/
  | aliasTooLong (name : String) (limit : Nat)
  /-- A file could not be used. -/
  | file (path : String) (fault : FileFault)
  /-- A config text is malformed from this line on. -/
  | malformed (path : String) (line : Nat) (reason : String)
  deriving DecidableEq, Repr, Inhabited

/-- The wording of an error. -/
def ConsoleError.message : ConsoleError → String
  | .nameInUse name kind => "'" ++ name ++ "' is already registered as a " ++ kind.name
  | .invalidName name => "invalid name '" ++ name ++ "'"
  | .selfReferential name => "alias '" ++ name ++ "' cannot refer to itself"
  | .aliasTooLong name limit =>
    "alias name '" ++ name ++ "' is longer than " ++ toString limit ++ " characters"
  | .file path fault => "I/O error for '" ++ path ++ "': " ++ fault.message
  | .malformed path line reason => path ++ ":" ++ toString line ++ ": " ++ reason

end DevConsole
