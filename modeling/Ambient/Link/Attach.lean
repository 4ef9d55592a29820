import Ambient.Link.Arena

/-!
# Linking a description

Every tagged node gets an entry in a new arena and the link to it. Numbers follow pre-order: a
node comes before everything it owns. The entries of option objects are values of a mapping, not
nodes, and stay without a link.
-/

namespace Ambient.Link

open Api

/-- Linking extends an arena. -/
abbrev Linking := StateM Arena

/-- Enters a node under its parent and answers its link. -/
def enter (kind : Kind) (name : Option String) (parent : Option Nat) :
    Linking Api.Link := fun arena =>
  (⟨some arena.size, parent⟩, ⟨arena.entries.push ⟨kind, name, parent⟩⟩)

/-- Links a type expression. -/
def simpleType (parent : Option Nat) (type : SimpleType) : Linking SimpleType := do
  return { type with link := ← enter .simpleType none parent }

/-- Links a declared type; the members of a union belong to the union. -/
def declaredType (parent : Option Nat) : DeclaredType → Linking DeclaredType
  | .simple type => do return .simple (← simpleType parent type)
  | .union members _ => do
    let link ← enter .unionType none parent
    return .union (← members.mapM (simpleType link.id)) link

/-- Links the declared type of a node, if it has one. -/
def typeOf (parent : Option Nat) : Option DeclaredType → Linking (Option DeclaredType)
  | some type => do return some (← declaredType parent type)
  | none => return none

/-- Links a parameter and its declared type. -/
def parameter (parent : Option Nat) : Parameter → Linking Parameter
  | .mk info type => do
    let link ← enter .parameter (some info.name) parent
    let linked ← match type with
      | .declared type => do pure (.declared (← declaredType link.id type))
      | other => pure other
    return .mk { info with link := link } linked

/-- Links the type of an outcome. -/
def outcome (parent : Option Nat) (o : Outcome) : Linking Outcome := do
  return { o with type := ← typeOf parent o.type }

/-- Links a variable and its type. -/
def variableDesc (parent : Option Nat) (v : Variable) : Linking Variable := do
  let link ← enter .variableDesc (some v.name) parent
  return { v with type := ← typeOf link.id v.type, link := link }

/-- Links a function, its parameters, and the types it returns and throws. -/
def functionDesc (parent : Option Nat) (f : Function) : Linking Function := do
  let link ← enter .functionDesc (some f.name) parent
  let parameters ← f.parameters.mapM (parameter link.id)
  let returns ← match f.returns with
    | some o => do pure (some (← outcome link.id o))
    | none => pure none
  let throws ← f.throws.mapM (outcome link.id)
  return { f with parameters := parameters, returns := returns, throws := throws, link := link }

/-- Links a class and its members. -/
def classType (parent : Option Nat) (c : Api.Class) : Linking Api.Class := do
  let link ← enter .classType (some c.name) parent
  let constructors ← c.constructors.mapM (functionDesc link.id)
  let fields ← c.fields.mapM (variableDesc link.id)
  let methods ← c.methods.mapM (functionDesc link.id)
  return { c with constructors := constructors, fields := fields, methods := methods, link := link }

/-- Links an interface and its members. -/
def interfaceType (parent : Option Nat) (i : Interface) : Linking Interface := do
  let link ← enter .interfaceType (some i.name) parent
  let properties ← i.properties.mapM (variableDesc link.id)
  let methods ← i.methods.mapM (functionDesc link.id)
  return { i with properties := properties, methods := methods, link := link }

/-- Links an enum and its values. -/
def enumType (parent : Option Nat) (e : Enum) : Linking Enum := do
  let link ← enter .enumType (some e.name) parent
  return { e with values := ← e.values.mapM (variableDesc link.id), link := link }

/-- Links what a namespace declares itself, where `link` is the namespace's own link. -/
def scopeOf (link : Api.Link) (s : Scope) : Linking Scope := do
  let constants ← s.constants.mapM (variableDesc link.id)
  let functions ← s.functions.mapM (functionDesc link.id)
  let classes ← s.classes.mapM (classType link.id)
  let interfaces ← s.interfaces.mapM (interfaceType link.id)
  let enums ← s.enums.mapM (enumType link.id)
  return { s with
    constants := constants, functions := functions, classes := classes,
    interfaces := interfaces, enums := enums, link := link }

mutual

/-- Links a namespace: itself, the nested namespaces, then what it declares itself. -/
def namespaceOf (parent : Option Nat) : Namespace → Linking Namespace
  | ⟨scope, nested⟩ => do
    let link ← enter .nameSpace (some scope.name) parent
    let linked ← namespacesOf link.id nested
    return ⟨← scopeOf link scope, linked⟩

/-- Links a list of namespaces under one parent. -/
def namespacesOf (parent : Option Nat) : List Namespace → Linking (List Namespace)
  | [] => return []
  | ns :: rest => do
    let linked ← namespaceOf parent ns
    return linked :: (← namespacesOf parent rest)

end

/-- Links a description from scratch, whatever links it carried. The numbers are below the number of
tagged nodes, so they fit into 32 bits for every description with at most `2 ^ 32` of these. -/
def attach (d : Description) : Description × Arena :=
  let linking : Linking Description := do
    let link ← enter .root none none
    return { d with top := ← namespaceOf link.id d.top, link := link }
  linking.run Arena.empty

end Ambient.Link
