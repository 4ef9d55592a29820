/-!
# Faults of the file system

The reasons for which a file operation or the start of a program fails.
-/

namespace Ambient.Files

/-- Why an operation failed. -/
inductive Fault where
  | missing
  | denied
  | exists
  | notDirectory
  | isDirectory
  | nameTooLong
  /-- A path with a zero character. -/
  | zeroInPath
  /-- A command with a zero character. -/
  | zeroInCommand
  /-- A file that is no text. -/
  | notText
  /-- A fault that only a real machine has. -/
  | other (text : String)
deriving DecidableEq, Repr, Inhabited

namespace Fault

/-- What a fault is called, and its number if it has one. -/
def title : Fault → String × Option Nat
  | .missing => ("No such file or directory", some 2)
  | .denied => ("Permission denied", some 13)
  | .exists => ("File exists", some 17)
  | .notDirectory => ("Not a directory", some 20)
  | .isDirectory => ("Is a directory", some 21)
  | .nameTooLong => ("File name too long", some 36)
  | .zeroInPath => ("file name contained an unexpected NUL byte", none)
  | .zeroInCommand => ("nul byte found in provided data", none)
  | .notText => ("stream did not contain valid UTF-8", none)
  | .other text => (text, none)

/-- The text of a fault, with its number in parentheses. -/
def message (fault : Fault) : String :=
  match fault.title with
  | (name, some number) => name ++ " (os error " ++ Nat.repr number ++ ")"
  | (name, none) => name

end Fault

end Ambient.Files
