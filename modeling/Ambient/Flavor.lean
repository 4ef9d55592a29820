/-!
# Flavors

The two groupings of declarations: one module block per namespace with imports between them, or one
global tree of nested namespaces.
-/

namespace Ambient

/-- A grouping of declarations. -/
inductive Flavor where
  | modules
  | globals
deriving DecidableEq, Repr, Inhabited

namespace Flavor

/-- All flavors, in the order in which they are generated by default. -/
def all : List Flavor := [.modules, .globals]

/-- The word for a flavor. -/
def word : Flavor → String
  | .modules => "modules"
  | .globals => "globals"

/-- The end of the name of a declaration file. -/
def fileSuffix : Flavor → String
  | .modules => "d.ts"
  | .globals => "globals.d.ts"

end Flavor

end Ambient
