import Ambient.Symbol.Basic
import Ambient.Text.Replace

/-!
# References

How a symbol is spelled where it is referred to. In the global tree it has its dotted name; in
script code outside of every module it is imported in place; inside a module block it has a simple
name, for which the block imports it if it comes from elsewhere. A name that is taken in the block
gives way to one with the owner's path in front.
-/

namespace Ambient.Reference

/-- The path of the module for a namespace: slashes for the dots of its name. -/
def modulePath (fqn : String) : String := Text.replace fqn "." "/"

/-- An import of a module block. -/
structure Import where
  /-- The dotted name of the imported symbol. -/
  fqn : String
  path : String
  name : String
  localName : String
deriving DecidableEq, Repr, Inhabited

/-- The line of an import. -/
def Import.line (i : Import) : String :=
  let names := if i.localName = i.name then i.name else i.name ++ " as " ++ i.localName
  "import \x7b " ++ names ++ " \x7d from \x22" ++ i.path ++ "\x22;"

/-- The imports of a module block so far. -/
structure Imports where
  /-- The dotted name of the namespace the block is for. -/
  module : String
  /-- The names the block declares itself. -/
  locals : List String
  imports : List Import
deriving DecidableEq, Repr, Inhabited

namespace Imports

/-- A block that imports nothing yet. -/
def start (module : String) (locals : List String) : Imports := ⟨module, locals, []⟩

/-- Whether a name is declared or imported in the block. -/
def isTaken (i : Imports) (name : String) : Bool :=
  i.locals.contains name || i.imports.any fun other => other.localName == name

/-- The name under which a symbol of another module is imported. -/
def localNameFor (i : Imports) (symbol : Symbol) : String :=
  if i.isTaken symbol.name then Text.replace symbol.owner "." "_" ++ "_" ++ symbol.name
  else symbol.name

/-- The import that the block has for a dotted name. -/
def find? (i : Imports) (fqn : String) : Option Import :=
  i.imports.find? fun other => other.fqn == fqn

/-- The spelling of a symbol in the block, and the imports it then has. -/
def refer (i : Imports) (symbol : Symbol) : String × Imports :=
  if symbol.owner.isEmpty || symbol.owner == i.module then (symbol.name, i)
  else
    match i.find? symbol.fqn with
    | some found => (found.localName, i)
    | none =>
      let localName := i.localNameFor symbol
      let added : Import := ⟨symbol.fqn, modulePath symbol.owner, symbol.name, localName⟩
      (localName, { i with imports := i.imports ++ [added] })

/-- The lines of the imports. -/
def lines (i : Imports) : List String := i.imports.map Import.line

end Imports

/-- Where references are written. -/
inductive Place where
  /-- In the global tree. -/
  | globals
  /-- In script code beside module blocks. -/
  | script
  /-- In a module block. -/
  | module (imports : Imports)
deriving DecidableEq, Repr, Inhabited

/-- The spelling of a symbol at a place, and the place after it. -/
def Place.refer (place : Place) (symbol : Symbol) : String × Place :=
  match place with
  | .globals => (symbol.fqn, .globals)
  | .script =>
    let owner := symbol.owner
    if owner.isEmpty then (symbol.name, .script)
    else ("import(\x22" ++ modulePath owner ++ "\x22)." ++ symbol.name, .script)
  | .module imports =>
    let (spelling, after) := imports.refer symbol
    (spelling, .module after)

end Ambient.Reference
