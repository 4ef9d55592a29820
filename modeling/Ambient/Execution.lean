import Ambient.Text.Bytes

/-!
# Executions

What is left of a program that has run: how it ended, and what it wrote to its two outputs.
-/

namespace Ambient

/-- How a program ends: by itself with a status, or by a signal. -/
inductive Ending where
  | exited (status : Nat)
  | killed (signal : Nat)
deriving DecidableEq, Repr, Inhabited

namespace Ending

/-- Whether a program ended as it should. -/
def isSuccess (ending : Ending) : Bool := ending == .exited 0

/-- The names of the signals from the first one on. -/
def signalNames : List String :=
  ["HUP", "INT", "QUIT", "ILL", "TRAP", "ABRT", "BUS", "FPE", "KILL", "USR1", "SEGV", "USR2",
    "PIPE", "ALRM", "TERM", "STKFLT", "CHLD", "CONT", "STOP", "TSTP", "TTIN", "TTOU", "URG",
    "XCPU", "XFSZ", "VTALRM", "PROF", "WINCH", "IO", "PWR", "SYS"]

/-- The name of a signal. -/
def signalName? (signal : Nat) : Option String :=
  if signal = 0 then none else signalNames[signal - 1]?

/-- The text of an ending. -/
def message : Ending → String
  | .exited status => "exit status: " ++ Nat.repr status
  | .killed signal =>
    "signal: " ++ Nat.repr signal
      ++ match signalName? signal with
        | some name => " (SIG" ++ name ++ ")"
        | none => ""

end Ending

/-- What is left of a program that has run. -/
structure Execution where
  ending : Ending
  output : Bytes
  errors : Bytes
deriving DecidableEq, Repr, Inhabited

end Ambient
