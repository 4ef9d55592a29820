import Ambient.Ordered.Map
import Ambient.Symbol.Basic

/-!
# Symbol tables

The symbols of a library by dotted name, in the order in which they were defined. The first
definition of a name wins and every later one is recorded as a collision.
-/

namespace Ambient.Symbol

/-- The symbols of a library, extended by those of others, and the collisions met so far. -/
structure Table where
  library : String
  symbols : Ordered.Map String Symbol
  collisions : List Collision

/-- A strict run met collisions. -/
structure Clash where
  library : String
  count : Nat
  first : String
deriving DecidableEq, Repr, Inhabited

/-- The text of a clash. -/
def Clash.message (c : Clash) : String :=
  Nat.repr c.count ++ " symbol collision(s) in `" ++ c.library ++ "`, first: `" ++ c.first ++ "`"

namespace Table

/-- The table of a library without symbols. -/
def empty (library : String) : Table := ⟨library, ∅, []⟩

/-- By default a table is empty, and its library has no name. -/
instance : Inhabited Table := ⟨empty ""⟩

/-- The symbols in the order in which they were defined. -/
def toList (t : Table) : List Symbol := t.symbols.values

/-- The number of symbols. -/
def size (t : Table) : Nat := t.symbols.size

/-- The symbol with a dotted name. -/
def get? (t : Table) (fqn : String) : Option Symbol := t.symbols.get? fqn

/-- Whether a dotted name has a symbol. -/
def contains (t : Table) (fqn : String) : Bool := (t.get? fqn).isSome

/-- Defines a symbol; a definition that is there stays, and the new one is recorded. -/
def insert (t : Table) (symbol : Symbol) : Table :=
  match t.get? symbol.fqn with
  | some kept =>
    { t with collisions :=
        t.collisions ++ [⟨symbol.fqn, kept.kind, symbol.kind, symbol.library⟩] }
  | none => { t with symbols := t.symbols.insertNew symbol.fqn symbol }

/-- Defines the symbols of a list from left to right. -/
def insertAll (t : Table) (symbols : List Symbol) : Table :=
  symbols.foldl insert t

/-- Adds a table of the same library: its collisions, then its symbols. -/
def merge (t other : Table) : Table :=
  { t with collisions := t.collisions ++ other.collisions }.insertAll other.toList

/-- Adds a symbol of another library; a namespace that both libraries have is no collision. -/
def adopt (t : Table) (symbol : Symbol) : Table :=
  match t.get? symbol.fqn with
  | some kept =>
    if kept.kind = .nameSpace ∧ symbol.kind = .nameSpace then t else t.insert symbol
  | none => { t with symbols := t.symbols.insertNew symbol.fqn symbol }

/-- Adds the symbols of other libraries; the ones that are there win. -/
def withDependencies (t : Table) (dependencies : List Table) : Table :=
  dependencies.foldl (fun t dependency => dependency.toList.foldl adopt t) t

/-- Fails if a collision was recorded. -/
def ensureNoCollisions (t : Table) : Except Clash Unit :=
  match t.collisions with
  | [] => .ok ()
  | first :: _ => .error ⟨t.library, t.collisions.length, first.fqn⟩

/-- The classes, interfaces and enums a namespace declares itself, with its path in front of their
names. -/
def ownSymbols (library path : String) (scope : Api.Scope) : List Symbol :=
  let symbol (kind : Kind) (name : String) : Symbol := ⟨Api.joined path name, name, kind, library⟩
  scope.classes.map (fun c => symbol .classType c.name)
    ++ scope.interfaces.map (fun i => symbol .interfaceType i.name)
    ++ scope.enums.map (fun e => symbol .enumType e.name)

mutual

/-- The table of a namespace at a path: itself, then the tables of the nested namespaces, then
what it declares itself. -/
def ofNamespace (library path : String) : Api.Namespace → Table
  | ⟨scope, nested⟩ =>
    let itself := (empty library).insert ⟨path, scope.name, .nameSpace, library⟩
    (mergeNested library path itself nested).insertAll (ownSymbols library path scope)

/-- Merges the tables of the namespaces nested in the one at a path. -/
def mergeNested (library path : String) (t : Table) : List Api.Namespace → Table
  | [] => t
  | ⟨scope, nested⟩ :: rest =>
    mergeNested library path
      (t.merge (ofNamespace library (Api.joined path scope.name) ⟨scope, nested⟩)) rest

end

/-- The table of a description; the top-level namespace has the empty path. -/
def ofDescription (library : String) (d : Api.Description) : Table :=
  ofNamespace library "" d.top

end Table

end Ambient.Symbol
