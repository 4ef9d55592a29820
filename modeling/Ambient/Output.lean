import Ambient.Flavor
import Ambient.Host

/-!
# Declaration files

The declaration file of a library is written anew by every run. Beside it stands a file for
additions by hand, which is started once and never touched again.
-/

namespace Ambient.Output

/-- The path of the declaration file of a library in a flavor. -/
def declarationPath (directory library : String) (flavor : Flavor) : String :=
  Files.join directory (library ++ "." ++ flavor.fileSuffix)

/-- The path of the file for additions to the declarations of a library. -/
def augmentationPath (directory library : String) : String :=
  Files.join directory (library ++ ".augment.d.ts")

/-- How a file for additions starts. -/
def augmentationStart (library : String) : String :=
  "// Hand-written additions to the " ++ library ++ " declarations.\n"
    ++ "// This file is created once and preserved across regeneration.\n"
    ++ "// Use `declare module \x22...\x22` blocks to augment generated modules.\n\n"
    ++ "export \x7b\x7d;\n"

/-- What a write has left. -/
structure Written where
  path : String
  /-- Whether the file for additions was started. -/
  startedAugmentation : Bool
deriving DecidableEq, Repr, Inhabited

/-- Starts the file for additions, unless something is there; answers whether it did. -/
def startAugmentation {m : Type → Type} [Monad m] [Host m] (directory library : String) :
    ExceptT Files.Fault m Bool := do
  let path := augmentationPath directory library
  if ← (Host.contains path : m Bool) then return false
  ExceptT.mk (Host.write path (augmentationStart library))
  return true

/-- Writes the declarations of a library, and starts the file for additions if that is asked for. -/
def write {m : Type → Type} [Monad m] [Host m] (directory library : String) (flavor : Flavor)
    (text : String) (startsAugmentations : Bool) : ExceptT Files.Fault m Written := do
  let path := declarationPath directory library flavor
  ExceptT.mk (Host.makeDirectories directory)
  ExceptT.mk (Host.write path text)
  let started ← if startsAugmentations then startAugmentation directory library else pure false
  return ⟨path, started⟩

end Ambient.Output
