import Ambient.Directives.Basic
import Ambient.Ordered.Set
import Ambient.Warning

/-!
# What is emitted

Which namespaces, classes, interfaces and enums of a description are emitted, which namespaces are
written as interfaces, and which get a module of their own. This is settled before anything is
written, so that references can be checked against it. An excluded namespace hides everything
below it; a namespace without a dotted name is the top level and is never excluded.
-/

namespace Ambient.Declaration

open Api

/-- The dotted names of nodes by their links. -/
abbrev Naming := Link → String

namespace Naming

/-- The dotted name of a namespace. -/
def nameSpace (nameOf : Naming) (ns : Namespace) : String := nameOf ns.scope.link

/-- The dotted names of the classes, interfaces and enums that a namespace declares itself. -/
def aggregates (nameOf : Naming) (s : Scope) : List String :=
  s.classes.map (fun c => nameOf c.link) ++ s.interfaces.map (fun i => nameOf i.link)
    ++ s.enums.map (fun e => nameOf e.link)

end Naming

/-- Whether a namespace is written as an interface wherever it is emitted: if it is to be, or is
empty. -/
def isInterface (d : Directives) (fqn : String) (ns : Namespace) : Bool :=
  d.reclassifies fqn || ns.isEmpty

/-- A namespace that planning meets: an excluded one, or one that is emitted. -/
inductive Visit where
  | excluded (fqn : String)
  | emitted (fqn : String) (ns : Namespace)
deriving Repr, Inhabited

/-- Whether a dotted name excludes a namespace. -/
def excludes (d : Directives) (fqn : String) : Bool := !fqn.isEmpty && d.isBadSymbol fqn

mutual

/-- The namespaces met from a namespace downwards, each before those nested in it. -/
def visits (d : Directives) (nameOf : Naming) : Namespace → List Visit
  | ⟨scope, nested⟩ =>
    let fqn := nameOf scope.link
    if excludes d fqn then [.excluded fqn]
    else .emitted fqn ⟨scope, nested⟩ :: visitsOf d nameOf nested

/-- The namespaces met from a list of namespaces downwards. -/
def visitsOf (d : Directives) (nameOf : Naming) : List Namespace → List Visit
  | [] => []
  | ns :: rest => visits d nameOf ns ++ visitsOf d nameOf rest

end

namespace Visit

/-- Whether the namespace is emitted below the top level and written as an interface. -/
def isInterface (d : Directives) : Visit → Bool
  | .excluded _ => false
  | .emitted fqn ns => !fqn.isEmpty && Declaration.isInterface d fqn ns

/-- The dotted names that become available to references. -/
def emittedNames (d : Directives) (nameOf : Naming) : Visit → List String
  | .excluded _ => []
  | .emitted fqn ns =>
    fqn :: (nameOf.aggregates ns.scope).filter fun name => !d.isBadSymbol name

/-- The dotted name of a namespace that is written as an interface. -/
def interfaceName? (d : Directives) (visit : Visit) : Option String :=
  match visit with
  | .emitted fqn _ => if visit.isInterface d then some fqn else none
  | .excluded _ => none

/-- Whether a nested namespace is written into the module of the one around it. -/
def isNestedInterface (d : Directives) (nameOf : Naming) (child : Namespace) : Bool :=
  let fqn := nameOf.nameSpace child
  !d.isBadSymbol fqn && Declaration.isInterface d fqn child

/-- The dotted name of a namespace that has a module: one below the top level with something to
write into it. -/
def moduleName? (d : Directives) (nameOf : Naming) (visit : Visit) : Option String :=
  match visit with
  | .emitted fqn ns =>
    let hasValues := !visit.isInterface d
      && (!ns.scope.constants.isEmpty || !ns.scope.functions.isEmpty)
    let hasAggregates := (nameOf.aggregates ns.scope).any fun name => !d.isBadSymbol name
    let hasInterfaces := ns.nested.any (isNestedInterface d nameOf)
    if !fqn.isEmpty && (hasValues || hasAggregates || hasInterfaces) then some fqn else none
  | .excluded _ => none

/-- The warnings about a namespace and the classes, interfaces and enums in it. -/
def warnings (d : Directives) (nameOf : Naming) (visit : Visit) : List Warning :=
  match visit with
  | .excluded fqn => [⟨.excluded, "namespace `" ++ fqn ++ "` excluded"⟩]
  | .emitted fqn ns =>
    let why := if ns.isEmpty then "it is empty" else "configured"
    (if visit.isInterface d then
      [⟨.reclassified, "namespace `" ++ fqn ++ "` emitted as an interface (" ++ why ++ ")"⟩]
    else [])
      ++ ((nameOf.aggregates ns.scope).filter d.isBadSymbol).map fun name =>
        ⟨.excluded, "`" ++ name ++ "` excluded"⟩

end Visit

/-- What is emitted of a description. -/
structure Plan where
  /-- The namespaces, classes, interfaces and enums that are emitted. -/
  emitted : List String
  /-- The namespaces that are written as interfaces. -/
  interfaces : List String
  /-- The namespaces that have a module, in the order of the description. -/
  modules : Ordered.Set String
  warnings : List Warning
deriving Inhabited

/-- The plan for a description with the given top-level namespace. -/
def Plan.of (d : Directives) (nameOf : Naming) (top : Namespace) : Plan :=
  let met := visits d nameOf top
  { emitted := met.flatMap (Visit.emittedNames d nameOf)
    interfaces := met.filterMap (Visit.interfaceName? d)
    modules := Ordered.Set.ofList (met.filterMap (Visit.moduleName? d nameOf))
    warnings := met.flatMap (Visit.warnings d nameOf) }

end Ambient.Declaration
