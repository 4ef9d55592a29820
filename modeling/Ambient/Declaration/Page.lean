import Ambient.Directives.Basic
import Ambient.Reference
import Ambient.Symbol.Table
import Ambient.Warning

/-!
# Resolving references while writing

What is known while declarations are written (the symbols, the directives, what is emitted) and
what changes (the place of writing with its imports, and the warnings).
-/

namespace Ambient.Declaration

/-- What references are resolved against. -/
structure Resolver where
  library : String
  table : Symbol.Table
  directives : Directives
  /-- The namespaces, classes, interfaces and enums of the library that are emitted. -/
  emitted : List String
  /-- The namespaces of the library that are written as interfaces. -/
  interfaces : List String

/-- Why a name cannot be referred to. -/
inductive Unresolved where
  | notDefined
  | excluded
  | notEmitted
  | nameSpace
deriving DecidableEq, Repr, Inhabited

/-- The reason in words. -/
def Unresolved.reason : Unresolved → String
  | .notDefined => "is not defined"
  | .excluded => "is excluded"
  | .notEmitted => "is not emitted"
  | .nameSpace => "is a namespace"

/-- The symbol with a dotted name, if the output may refer to it. -/
def Resolver.resolve (r : Resolver) (fqn : String) : Except Unresolved Symbol :=
  match r.table.get? fqn with
  | none => .error .notDefined
  | some symbol =>
    if r.directives.isBadSymbol fqn then .error .excluded
    else if symbol.library == r.library && !r.emitted.contains fqn then .error .notEmitted
    else if symbol.kind == .nameSpace && !r.interfaces.contains fqn
        && !r.directives.reclassifies fqn then .error .nameSpace
    else .ok symbol

/-- What changes while declarations are written. -/
structure Page where
  place : Reference.Place
  warnings : Warnings
deriving Inhabited

/-- Writing may refer to symbols and warn. -/
abbrev Writing := StateM Page

/-- Records a warning. -/
def warn (kind : Warning.Kind) (message : String) : Writing Unit :=
  modify fun page => { page with warnings := page.warnings.insert ⟨kind, message⟩ }

/-- Spells a symbol at the place of writing. -/
def refer (symbol : Symbol) : Writing String := fun page =>
  let (spelling, place) := page.place.refer symbol
  (spelling, { page with place := place })

end Ambient.Declaration
