import Ambient.Correction.Loader
import Ambient.Correction.Visibility
import Ambient.Link.Attach

/-!
# Corrected descriptions

Before a library is emitted its description loses what is restricted, its loader signatures are
narrowed, and its nodes are linked. Linking comes last, since the links describe the nodes that
are left.
-/

namespace Ambient.Correction

/-- What the corrections changed. -/
structure Report where
  removed : Nat
  fixed : Nat
  linked : Nat
deriving DecidableEq, Repr, Inhabited

/-- A library whose description has been corrected and linked. -/
structure Linked where
  library : String
  description : Api.Description
  arena : Arena
  report : Report
deriving Inhabited

/-- A symbol table was used for a library that it was not built for. -/
structure Mismatch where
  library : String
  table : String
deriving DecidableEq, Repr, Inhabited

/-- The text of a mismatch. -/
def Mismatch.message (m : Mismatch) : String :=
  "symbol table was built for `" ++ m.table ++ "`, not for `" ++ m.library ++ "`"

/-- The corrections alone: the corrected description and what changed. -/
def correct (library : String) (table : Symbol.Table) (d : Api.Description) :
    Api.Description × Report :=
  let visible := d.visible
  (narrowLoader library table visible,
    { removed := d.top.hidden, fixed := loaderNarrowings library table visible, linked := 0 })

/-- Corrects and links a description; the table must be the library's own. -/
def run (library : String) (table : Symbol.Table) (d : Api.Description) :
    Except Mismatch Linked :=
  if table.library = library then
    let (corrected, report) := correct library table d
    let (linked, arena) := Link.attach corrected
    .ok ⟨library, linked, arena, { report with linked := arena.size }⟩
  else .error ⟨library, table.library⟩

end Ambient.Correction
