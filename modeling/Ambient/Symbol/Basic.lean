import Ambient.Api.Basic
import Ambient.Text.Replace

/-!
# Symbols

What a library defines under a dotted name: namespaces, classes, interfaces and enums. Variables,
functions and members have no entry of their own.
-/

namespace Ambient

/-- The kinds of symbols. -/
inductive Symbol.Kind where
  | nameSpace
  | classType
  | interfaceType
  | enumType
deriving DecidableEq, Repr, Inhabited

/-- A symbol and the library whose description defines it. -/
structure Symbol where
  fqn : String
  name : String
  kind : Symbol.Kind
  library : String
deriving DecidableEq, Repr, Inhabited

/-- Two definitions of one dotted name, of which the first was kept. -/
structure Symbol.Collision where
  fqn : String
  kept : Symbol.Kind
  dropped : Symbol.Kind
  library : String
deriving DecidableEq, Repr, Inhabited

namespace Symbol

/-- The word for a kind of symbol. -/
def Kind.word : Kind → String
  | .nameSpace => "Namespace"
  | .classType => "Class"
  | .interfaceType => "Interface"
  | .enumType => "Enum"

/-- The part of a dotted name before its last dot, or nothing. -/
def ownerOf (fqn : String) : String :=
  ".".intercalate (Text.segments '.' fqn).dropLast

/-- The dotted name of the namespace that declares the symbol; empty at the top level. -/
def owner (s : Symbol) : String := ownerOf s.fqn

end Symbol

end Ambient
