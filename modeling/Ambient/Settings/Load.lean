import Ambient.Host
import Ambient.Settings.Decode

/-!
# Loading settings

Settings are read from the file that is named, and seen from its directory. Without a name the file
in a directory is taken if there is one.
-/

namespace Ambient.Settings

variable {m : Type → Type} [Monad m] [Host m]

/-- Reads the settings file at a path. -/
def load (path : String) : ExceptT Error m Settings := do
  match ← (Host.read path : m (Except Files.Fault String)) with
  | .error fault => throw (.unreadable path fault)
  | .ok text =>
    match parse? text (Files.parent path) with
    | some settings => return settings
    | none => throw (.malformed path)

/-- Reads the settings file in a directory, if there is one. -/
def discover (directory : String) : ExceptT Error m (Option Settings) := do
  let path := Files.join directory fileName
  if ← (Host.contains path : m Bool) then return some (← load path) else return none

end Ambient.Settings
