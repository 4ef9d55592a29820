import Ambient.Directives.Basic
import Ambient.Files.Fault
import Ambient.Json.Reader
import Ambient.Json.Record

/-!
# Reading directives

A directive file is one plain JSON record, all of whose fields have a default.
-/

namespace Ambient.Directives

/-- Why a directive file is refused. -/
inductive Error where
  | unreadable (path : String) (fault : Files.Fault)
  | malformed (path : String)
deriving DecidableEq, Repr, Inhabited

/-- The text of an error. -/
def Error.message : Error → String
  | .unreadable path fault => "failed to read directives from " ++ path ++ ": " ++ fault.message
  | .malformed path => "malformed directives in " ++ path

/-- The fields of a directive file. -/
def keys : List String :=
  ["badMethods", "badInterfaces", "badSymbols", "typeTyposMap", "namespacesToInterfaces",
    "fqnToIgnore"]

/-- Reads a set of names. -/
def nameSet? (json : Json) : Option (Ordered.Set String) :=
  (Json.asList? Json.asText? json).map Ordered.Set.ofList

/-- Reads directives. -/
def ofJson? (json : Json) : Option Directives := do
  let members ← Json.record? keys json
  return {
    badMethods := ← members.defaulted "badMethods" nameSet? ∅
    badInterfaces := ← members.defaulted "badInterfaces" nameSet? ∅
    badSymbols := ← members.defaulted "badSymbols" nameSet? ∅
    typos := ← members.defaulted "typeTyposMap" (Json.asMap? Json.asText?) ∅
    interfaceNamespaces :=
      ← members.defaulted "namespacesToInterfaces" (Json.asMap? Json.asBool?) ∅
    suppressions := ← members.defaulted "fqnToIgnore" (Json.asMap? Json.asText?) ∅ }

/-- Reads the directives in a text. -/
def parse? (text : String) : Option Directives :=
  (Json.read? text).bind ofJson?

end Ambient.Directives
