import Ambient.Correction.Basic
import Ambient.Declaration.Item
import Ambient.Declaration.Render
import Ambient.Flavor

/-!
# Emission

The declarations of a corrected and linked description, in either flavor. The global tree nests
namespace blocks as the namespaces nest. The other flavor has one block for each namespace with a
module, and declares what the top level holds itself beside the blocks. Both name every module in
a registry at the end.
-/

namespace Ambient.Declaration

open Api

namespace Writer

variable (w : Writer)

/-- Whether an emitted namespace is written as an interface. -/
def isInterface (fqn : String) : Bool := w.interfaces.contains fqn

/-! ## The global tree -/

mutual

/-- Writes a namespace into the global tree. One that is written as an interface needs a block
only for what cannot be in the interface. -/
def globalNamespace : Namespace → Writing (List Tree)
  | ⟨scope, nested⟩ => do
    let fqn := w.nameOf scope.link
    if !w.emitted.contains fqn then return []
    if w.isInterface fqn then
      let interface ← w.nameSpaceInterface scope
      if !Namespace.hasAggregates ⟨scope, nested⟩ then return [.item interface]
      let aggregates ← w.aggregates scope
      let inner ← globalNamespaces nested
      return [.item interface, .block scope.name none (aggregates.map Tree.item ++ inner)]
    else
      let values ← w.values scope
      let aggregates ← w.aggregates scope
      let inner ← globalNamespaces nested
      let lead := w.lead fqn (Comment.ofDoc scope.doc)
      return [.block scope.name (some lead) ((values ++ aggregates).map Tree.item ++ inner)]

/-- Writes the namespaces of a list into the global tree. -/
def globalNamespaces : List Namespace → Writing (List Tree)
  | [] => return []
  | ns :: rest => do
    let trees ← globalNamespace ns
    return trees ++ (← globalNamespaces rest)

end

/-- Writes the global tree below the top-level namespace. -/
def globalTree (top : Namespace) : Writing (List Tree) := do
  let values ← w.values top.scope
  let aggregates ← w.aggregates top.scope
  let inner ← w.globalNamespaces top.nested
  return (values ++ aggregates).map Tree.item ++ inner

/-! ## Module blocks -/

/-- Moves the place of writing. -/
def moveTo (place : Reference.Place) : Writing Unit :=
  modify fun page => { page with place := place }

/-- The imports at the place of writing. -/
def importsHere : Writing (List Reference.Import) := do
  match (← get).place with
  | .module imports => return imports.imports
  | _ => return []

/-- Whether a nested namespace is emitted as an interface. -/
def isEmittedInterface (child : Namespace) : Bool :=
  let fqn := w.nameOf child.scope.link
  w.emitted.contains fqn && w.isInterface fqn

/-- Writes the nested namespaces that are interfaces. -/
def nestedInterfaces (ns : Namespace) : Writing (List Item) :=
  (ns.nested.filter w.isEmittedInterface).mapM fun child => w.nameSpaceInterface child.scope

/-- The names that the block of a namespace declares itself. -/
def localNames (ns : Namespace) (asInterface : Bool) : List String :=
  let values := ns.scope.constants.map Variable.name ++ ns.scope.functions.map Function.name
  (if asInterface then [] else values)
    ++ ns.scope.classes.map Class.name ++ ns.scope.interfaces.map Interface.name
    ++ ns.scope.enums.map Enum.name
    ++ (ns.nested.filter fun child => w.isInterface (w.nameOf child.scope.link)).map Namespace.name

/-- Writes the block of a namespace. The block of one that is written as an interface holds
neither its values nor its comment, which are with the interface. -/
def moduleBlock (fqn : String) (ns : Namespace) : Writing Block := do
  let asInterface := w.isInterface fqn
  moveTo (.module (.start fqn (w.localNames ns asInterface)))
  let values ← if asInterface then pure [] else w.values ns.scope
  let aggregates ← w.aggregates ns.scope
  let interfaces ← w.nestedInterfaces ns
  let imports ← importsHere
  moveTo .script
  let lead := w.lead fqn (Comment.ofDoc ns.scope.doc)
  return ⟨fqn, if asInterface then none else some lead, imports, values ++ aggregates ++ interfaces⟩

mutual

/-- Writes the block of an emitted namespace, if it has a module, and those of the namespaces
nested in it. -/
def blocks (modules : Ordered.Set String) : Namespace → Writing (List Block)
  | ⟨scope, nested⟩ => do
    let fqn := w.nameOf scope.link
    if !w.emitted.contains fqn then return []
    let own ← if modules.contains fqn then do pure [← w.moduleBlock fqn ⟨scope, nested⟩]
      else pure []
    return own ++ (← nestedBlocks modules nested)

/-- Writes the blocks of the namespaces of a list. -/
def nestedBlocks (modules : Ordered.Set String) : List Namespace → Writing (List Block)
  | [] => return []
  | ns :: rest => do
    let first ← blocks modules ns
    return first ++ (← nestedBlocks modules rest)

end

/-- Writes what the top-level namespace holds itself, as script code beside the blocks. -/
def scriptItems (top : Namespace) : Writing (List Item) := do
  let values ← w.values top.scope
  let aggregates ← w.aggregates top.scope
  return values ++ aggregates ++ (← w.nestedInterfaces top)

/-! ## Documents -/

/-- Writes a document in a flavor. -/
def document (flavor : Flavor) (modules : Ordered.Set String) (top : Namespace) :
    Writing Document := do
  let registry := modules.toList.map Reference.modulePath
  match flavor with
  | .globals => return ⟨← w.globalTree top, [], registry⟩
  | .modules =>
    let script ← w.scriptItems top
    return ⟨script.map Tree.item, ← w.nestedBlocks modules top.nested, registry⟩

end Writer

/-! ## Emission -/

/-- The links and simple names of the functions in a list. -/
def functionNodes (functions : List Function) : List (Link × String) :=
  functions.map fun f => (f.link, f.name)

/-- The links and simple names of the variables in a list. -/
def variableNodes (list : List Variable) : List (Link × String) :=
  list.map fun v => (v.link, v.name)

/-- The links and simple names of what a namespace declares itself, and of the members in it. -/
def scopeNodes (s : Scope) : List (Link × String) :=
  variableNodes s.constants ++ functionNodes s.functions
    ++ s.classes.flatMap (fun c =>
      (c.link, c.name) :: functionNodes c.constructors ++ variableNodes c.fields
        ++ functionNodes c.methods)
    ++ s.interfaces.flatMap (fun i =>
      (i.link, i.name) :: variableNodes i.properties ++ functionNodes i.methods)
    ++ s.enums.flatMap (fun e => (e.link, e.name) :: variableNodes e.values)

mutual

/-- The links and simple names of all nodes whose dotted name emission may ask for. -/
def namedNodes : Namespace → List (Link × String)
  | ⟨scope, nested⟩ => (scope.link, scope.name) :: scopeNodes scope ++ namedNodesOf nested

/-- The same for a list of namespaces. -/
def namedNodesOf : List Namespace → List (Link × String)
  | [] => []
  | ns :: rest => namedNodes ns ++ namedNodesOf rest

end

/-- Fails at the first node whose dotted name cannot be read off its link. All names are asked for
before anything is written, those in excluded namespaces included, where a writer that asks for a
name only when it needs it would never come to them. Both fail on the same descriptions if every
link leads to a root, as it does after linking; otherwise the check fails on more. -/
def checkNames (arena : Arena) : List (Link × String) → Except Arena.Error Unit
  | [] => .ok ()
  | (link, name) :: rest => do
    let _ ← arena.fqnOf link name
    checkNames arena rest

/-- The dotted names by link in an arena; a link that cannot be followed has the empty name. -/
def namingOf (arena : Arena) : Naming := fun link =>
  match arena.fqnOf link "" with
  | .ok fqn => fqn
  | .error _ => ""

/-- What is emitted for a library in one flavor. -/
structure Emission where
  library : String
  flavor : Flavor
  document : Document
  warnings : List Warning
deriving Inhabited

/-- The paths of the modules. -/
def Emission.modules (e : Emission) : List String := e.document.registry

/-- The declaration text. -/
def Emission.text (e : Emission) : String := e.document.text

/-- The writer for a library, given its plan. -/
def writerFor (library : String) (table : Symbol.Table) (d : Directives) (nameOf : Naming)
    (plan : Plan) : Writer :=
  { library := library, table := table, directives := d, emitted := plan.emitted,
    interfaces := plan.interfaces, nameOf := nameOf }

/-- Where writing begins in a flavor. -/
def startingPlace : Flavor → Reference.Place
  | .modules => .script
  | .globals => .globals

/-- What is emitted for a library whose nodes have the given names. -/
def emitNamed (library : String) (table : Symbol.Table) (d : Directives) (flavor : Flavor)
    (nameOf : Naming) (top : Namespace) : Emission :=
  let plan := Plan.of d nameOf top
  let w := writerFor library table d nameOf plan
  let page : Page := ⟨startingPlace flavor, Ordered.Set.ofList plan.warnings⟩
  let (document, after) := (w.document flavor plan.modules top).run page
  ⟨library, flavor, document, after.warnings.toList⟩

/-- Emits a linked library. The table is its own merged with those of its dependencies, and the
directives are merged likewise. The names of all nodes are checked up front, so that writing itself
cannot fail; this refuses an arena in which the name of an excluded node cannot be read, though that
name would not be written. -/
def emit (linked : Correction.Linked) (table : Symbol.Table) (d : Directives) (flavor : Flavor) :
    Except Arena.Error Emission := do
  let top := linked.description.top
  checkNames linked.arena (namedNodes top)
  return emitNamed linked.library table d flavor (namingOf linked.arena) top

end Ambient.Declaration
