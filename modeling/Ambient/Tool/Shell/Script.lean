import Ambient.Tool.Basic

/-!
# Scripts of the shell

A script is a tree of commands. Words are lists of parts, since what a part turns into depends on
whether it stands in quotes; documents that follow a line are kept apart from the commands that
read them, under a number.
-/

namespace Ambient.Tool.Shell

/-- Whether a name can start with a character. -/
def startsName (c : Char) : Bool := c.isAlpha || c == '_'

/-- Whether a character may stand in a name. -/
def isNamePart (c : Char) : Bool := c.isAlphanum || c == '_'

/-- Whether some characters are a name. -/
def isName (cs : Raw) : Bool :=
  match cs with
  | [] => false
  | c :: rest => startsName c && rest.all isNamePart

/-- The commands whose names functions cannot have, and whose faults end a script. -/
def specialNames : List String :=
  [".", ":", "break", "continue", "eval", "exec", "exit", "export", "readonly", "return", "set",
    "shift", "times", "trap", "unset", "local"]

/-- What a file is opened for. -/
inductive Opening where
  | reading
  /-- The file starts anew; one that is there may be replaced even if files are protected. -/
  | writing (overrides : Bool)
  | appending
  | both
deriving DecidableEq, Repr, Inhabited

mutual

/-- A part of a word. -/
inductive Part where
  | text (chars : Raw) (isQuoted : Bool)
  | parameter (name : Raw) (use : Use) (isQuoted : Bool)
  /-- What a script writes. -/
  | output (script : List Command) (isQuoted : Bool)
  /-- The value of an arithmetic expression. -/
  | sum (expression : List Part) (isQuoted : Bool)

/-- What is made of the value of a parameter. Where a word takes its place, this can be for an
empty value as well as for a missing one. -/
inductive Use where
  | value
  | length
  | replaced (coversEmpty : Bool) (word : List Part)
  | assigned (coversEmpty : Bool) (word : List Part)
  | demanded (coversEmpty : Bool) (word : List Part)
  | alternative (coversEmpty : Bool) (word : List Part)
  /-- The value without what matches a pattern at one of its ends. -/
  | cut (atEnd isLongest : Bool) (pattern : List Part)
  | malformed

/-- A change of the descriptors of a command. -/
inductive Redirection where
  | file (descriptor : Nat) (opening : Opening) (path : List Part)
  | copy (descriptor : Nat) (isOutput : Bool) (source : List Part)
  | document (descriptor number : Nat)

/-- A command. Those that can fail by themselves know their line. -/
inductive Command where
  | simple (line : Nat) (assignments : List (Raw × List Part)) (words : List (List Part))
      (redirections : List Redirection)
  | pipeline (commands : List Command)
  | negated (command : Command)
  | both (first second : Command)
  | either (first second : Command)
  | background (command : Command)
  | sequence (commands : List Command)
  | subshell (line : Nat) (body : Command) (redirections : List Redirection)
  | redirected (line : Nat) (body : Command) (redirections : List Redirection)
  | branch (test body otherwise : Command)
  | loop (isUntil : Bool) (test body : Command)
  | each (line : Nat) (name : Raw) (words : List (List Part)) (body : Command)
  | choice (line : Nat) (word : List Part) (cases : List (List (List Part) × Command))
  | define (name : Raw) (body : Command)

end

/-- A word. -/
abbrev Word := List Part

/-- By default a part of a word is no text. -/
instance : Inhabited Part := ⟨.text [] false⟩
/-- By default a command does nothing. -/
instance : Inhabited Command := ⟨.sequence []⟩

/-- The command that does nothing. -/
def Command.nothing : Command := .sequence []

/-- Whether a command does nothing. -/
def Command.isNothing : Command → Bool
  | .sequence [] => true
  | _ => false

end Ambient.Tool.Shell
