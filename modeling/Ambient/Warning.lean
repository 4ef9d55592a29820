import Ambient.Ordered.Set

/-!
# Warnings

What the emitter could not write faithfully or left out, in the order of discovery; an exact
repeat is not recorded again.
-/

namespace Ambient

/-- The kinds of warnings. -/
inductive Warning.Kind where
  /-- A type reference that leads to no emitted symbol. -/
  | unresolvedType
  /-- A symbol or member that is left out. -/
  | excluded
  /-- A namespace that is written as an interface. -/
  | reclassified
  /-- A type expression that cannot be written faithfully. -/
  | simplified
deriving DecidableEq, Repr, Inhabited

/-- A warning. -/
structure Warning where
  kind : Warning.Kind
  message : String
deriving DecidableEq, Repr, Inhabited

/-- The word for a kind of warning. -/
def Warning.Kind.word : Warning.Kind → String
  | .unresolvedType => "UnresolvedType"
  | .excluded => "Excluded"
  | .reclassified => "Reclassified"
  | .simplified => "Simplified"

/-- The warnings so far. -/
abbrev Warnings := Ordered.Set Warning

end Ambient
