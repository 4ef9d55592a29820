import Ambient.Correction.Basic
import Ambient.Declaration.Emission
import Ambient.Directives.Basic

/-!
# Libraries

A library as it is read, and as it is prepared for emission together with the libraries it refers
to. Of a dependency only the visible part is indexed, since only that can be referred to. The
library's own table is built from everything it has; it is the one that a strict run checks.
-/

namespace Ambient

/-- A library: its name, the description of its API, and its directives. -/
structure Library where
  name : String
  description : Api.Description
  directives : Directives
deriving Inhabited

namespace Library

/-- A library that is ready for emission, with the table and the directives of all libraries in
play. -/
structure Prepared where
  linked : Correction.Linked
  table : Symbol.Table
  directives : Directives
deriving Inhabited

/-- Why a library cannot be prepared. -/
inductive Error where
  | clash (clash : Symbol.Clash)
  | mismatch (mismatch : Correction.Mismatch)
deriving DecidableEq, Repr, Inhabited

/-- The text of an error. -/
def Error.message : Error → String
  | .clash c => c.message
  | .mismatch m => m.message

/-- The table of everything a library describes. -/
def table (lib : Library) : Symbol.Table := Symbol.Table.ofDescription lib.name lib.description

/-- The table of what a library lets others see. -/
def visibleTable (lib : Library) : Symbol.Table :=
  Symbol.Table.ofDescription lib.name lib.description.visible

/-- Prepares a library; a strict run fails if its own table has collisions. -/
def prepare (primary : Library) (dependencies : List Library) (isStrict : Bool) :
    Except Error Prepared := do
  if isStrict then primary.table.ensureNoCollisions.mapError Error.clash
  let linked ← (Correction.run primary.name primary.table primary.description).mapError
    Error.mismatch
  return {
    linked := linked
    table := primary.table.withDependencies (dependencies.map visibleTable)
    directives := primary.directives.merge (dependencies.map Library.directives) }

/-- Emits a prepared library in a flavor. -/
def Prepared.emit (p : Prepared) (flavor : Flavor) : Except Arena.Error Declaration.Emission :=
  Declaration.emit p.linked p.table p.directives flavor

end Library

end Ambient
