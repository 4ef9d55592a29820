import Ambient.Proofs.Declaration.Names
import Ambient.Proofs.Declaration.Plan

/-!
# What directives are asked about

While a description is planned and written, its directives are asked about the dotted names of its
nodes, the simple names of the methods in classes and interfaces, and what stands in the implements
lists. Directives that say the same about these lead to the same plan.
-/

namespace Ambient

namespace Api

/-- The names of the methods of the classes and interfaces that a namespace declares itself. -/
def Scope.methodNames (s : Scope) : List String :=
  s.classes.flatMap (fun c => c.methods.map Function.name)
    ++ s.interfaces.flatMap fun i => i.methods.map Function.name

/-- What the classes that a namespace declares itself implement. -/
def Scope.implementedNames (s : Scope) : List String := s.classes.flatMap Class.implemented

end Api

namespace Declaration

open Api

/-- The nodes that emission asks for are those of what the namespaces declare themselves. -/
theorem namedNodes_eq (ns : Namespace) :
    namedNodes ns = ns.scopes.flatMap fun s => (s.link, s.name) :: scopeNodes s := by
  induction ns using Namespace.induction with
  | step inner nested ih =>
    have hnested : namedNodesOf nested = (Namespace.scopesOf nested).flatMap
        fun s => (s.link, s.name) :: scopeNodes s := by
      rw [namedNodesOf_eq, Namespace.scopesOf_eq, List.flatMap_assoc]
      exact List.flatMap_congr ih
    rw [namedNodes, Namespace.scopes, List.flatMap_cons, hnested, List.cons_append]

end Declaration

namespace Directives

open Api

/-- Two sets of directives say the same about a dotted name. -/
structure SameAt (d e : Directives) (fqn : String) : Prop where
  isBadSymbol : d.isBadSymbol fqn = e.isBadSymbol fqn
  reclassifies : d.reclassifies fqn = e.reclassifies fqn
  suppression : d.suppression? fqn = e.suppression? fqn

/-- Two sets of directives say the same about the nodes of a list. -/
def SameAtAll (d e : Directives) (nameOf : Declaration.Naming) (nodes : List (Link × String)) :
    Prop :=
  ∀ node ∈ nodes, d.SameAt e (nameOf node.1)

/-- Two sets of directives say the same about all that a namespace declares itself. -/
structure SameOn (d e : Directives) (nameOf : Declaration.Naming) (s : Scope) : Prop where
  nodes : d.SameAtAll e nameOf ((s.link, s.name) :: Declaration.scopeNodes s)
  methods : ∀ name ∈ s.methodNames, d.isBadMethod name = e.isBadMethod name
  implemented : ∀ fqn ∈ s.implementedNames, d.isBadInterface fqn = e.isBadInterface fqn

namespace SameAtAll

variable {d e : Directives} {nameOf : Declaration.Naming} {nodes more : List (Link × String)}

/-- What is said about variables in a row is said about each of them. -/
theorem ofVariables {list : List Variable}
    (h : d.SameAtAll e nameOf (Declaration.variableNodes list)) :
    ∀ v ∈ list, d.SameAt e (nameOf v.link) :=
  fun _ hv => h _ (List.mem_map_of_mem hv)

/-- What is said about functions in a row is said about each of them. -/
theorem ofFunctions {list : List Function}
    (h : d.SameAtAll e nameOf (Declaration.functionNodes list)) :
    ∀ f ∈ list, d.SameAt e (nameOf f.link) :=
  fun _ hf => h _ (List.mem_map_of_mem hf)

/-- What is said about nodes in a row is said about the first. -/
theorem head {node : Link × String} (h : d.SameAtAll e nameOf (node :: nodes)) :
    d.SameAt e (nameOf node.1) :=
  h _ List.mem_cons_self

/-- What is said about nodes in a row is said about those behind the first. -/
theorem tail {node : Link × String} (h : d.SameAtAll e nameOf (node :: nodes)) :
    d.SameAtAll e nameOf nodes :=
  fun node hnode => h node (List.mem_cons_of_mem _ hnode)

/-- What is said about two runs of nodes is said about the first. -/
theorem left (h : d.SameAtAll e nameOf (nodes ++ more)) : d.SameAtAll e nameOf nodes :=
  fun node hnode => h node (List.mem_append_left _ hnode)

/-- What is said about two runs of nodes is said about the second. -/
theorem right (h : d.SameAtAll e nameOf (nodes ++ more)) : d.SameAtAll e nameOf more :=
  fun node hnode => h node (List.mem_append_right _ hnode)

/-- What is said about nodes gathered from items is said about those of each item. -/
theorem of_mem_flatMap {α : Type} {nodesOf : α → List (Link × String)} {items : List α}
    (h : d.SameAtAll e nameOf (items.flatMap nodesOf)) {a : α} (ha : a ∈ items) :
    d.SameAtAll e nameOf (nodesOf a) :=
  fun node hnode => h node (List.mem_flatMap_of_mem ha hnode)

end SameAtAll

/-- Two sets of directives say the same about all that a namespace and those nested in it declare
themselves. -/
def SameBelow (d e : Directives) (nameOf : Declaration.Naming) (ns : Namespace) : Prop :=
  ∀ s ∈ ns.scopes, d.SameOn e nameOf s

namespace SameBelow

variable {d e : Directives} {nameOf : Declaration.Naming} {s : Scope}
  {nested : List Namespace}

/-- What is said below a namespace is said about what it declares itself. -/
theorem own (h : d.SameBelow e nameOf ⟨s, nested⟩) : d.SameOn e nameOf s := by
  rw [SameBelow, Namespace.scopes] at h
  exact h s List.mem_cons_self

/-- What is said below a namespace is said below each one nested in it. -/
theorem child (h : d.SameBelow e nameOf ⟨s, nested⟩) : ∀ ns ∈ nested, d.SameBelow e nameOf ns := by
  rw [SameBelow, Namespace.scopes, Namespace.scopesOf_eq] at h
  exact fun ns hns inner hinner =>
    h inner (List.mem_cons_of_mem _ (List.mem_flatMap_of_mem hns hinner))

end SameBelow

/-- Whatever it is asked, a set of directives says the same as itself. -/
theorem sameBelow_refl (d : Directives) (nameOf : Declaration.Naming) (ns : Namespace) :
    d.SameBelow d nameOf ns :=
  fun _ _ => ⟨fun _ _ => ⟨rfl, rfl, rfl⟩, fun _ _ => rfl, fun _ _ => rfl⟩

end Directives

namespace Declaration

open Api

variable {d e : Directives} {nameOf : Naming} {top ns : Namespace} {fqn : String}

/-- Directives that say the same about a name exclude it alike. -/
theorem excludes_congr (h : d.SameAt e fqn) : excludes d fqn = excludes e fqn := by
  rw [excludes, excludes, h.isBadSymbol]

/-- Directives that say the same about a name make the same namespaces of the name interfaces. -/
theorem isInterface_congr (h : d.SameAt e fqn) : isInterface d fqn = isInterface e fqn := by
  funext ns
  rw [isInterface, isInterface, h.reclassifies]

/-- Planning meets the same namespaces. -/
theorem visits_congr (h : d.SameBelow e nameOf top) :
    visits d nameOf top = visits e nameOf top := by
  induction top using Namespace.induction with
  | step scope nested ih =>
    rw [visits, visits, visitsOf_eq, visitsOf_eq, excludes_congr h.own.nodes.head,
      List.flatMap_congr fun child hchild => ih child hchild (h.child child hchild)]

/-- What is said about all that is declared below the top level is said below a namespace that
planning meets. -/
theorem sameBelow_of_mem_visits (hvisit : .emitted fqn ns ∈ visits d nameOf top)
    (h : d.SameBelow e nameOf top) : d.SameBelow e nameOf ns := by
  refine emitted_induction (motive := fun outer => d.SameBelow e nameOf outer →
    d.SameBelow e nameOf ns) ?_ ?_ hvisit h
  · intro _ _ hns
    exact hns
  · intro outer _ child hchild ih houter
    obtain ⟨scope, nested⟩ := outer
    exact ih (houter.child child hchild)

/-- What is said about the nodes of a namespace is said about its classes, interfaces and enums. -/
theorem sameAt_of_mem_aggregates {s : Scope} (h : d.SameOn e nameOf s) {name : String}
    (hname : name ∈ nameOf.aggregates s) : d.SameAt e name := by
  have hnodes := h.nodes.tail
  rw [Naming.aggregates, List.mem_append, List.mem_append] at hname
  obtain (hname | hname) | hname := hname
  all_goals obtain ⟨item, hitem, rfl⟩ := List.mem_map.mp hname
  · exact (hnodes.left.left.right.of_mem_flatMap hitem).head
  · exact (hnodes.left.right.of_mem_flatMap hitem).head
  · exact (hnodes.right.of_mem_flatMap hitem).head

namespace Visit

/-- Directives that say the same below a namespace make it an interface alike. -/
theorem isInterface_congr (h : d.SameBelow e nameOf ns) (hfqn : nameOf.nameSpace ns = fqn) :
    Visit.isInterface d (.emitted fqn ns) = Visit.isInterface e (.emitted fqn ns) := by
  obtain ⟨scope, nested⟩ := ns
  have hhere : d.SameAt e fqn := hfqn ▸ h.own.nodes.head
  rw [Visit.isInterface, Visit.isInterface, Declaration.isInterface_congr hhere]

/-- Directives that say the same below a namespace have the same names of it emitted. -/
theorem emittedNames_congr (h : d.SameBelow e nameOf ns) :
    emittedNames d nameOf (.emitted fqn ns) = emittedNames e nameOf (.emitted fqn ns) := by
  obtain ⟨scope, nested⟩ := ns
  rw [emittedNames, emittedNames, List.filter_congr fun name hname => by
    rw [(sameAt_of_mem_aggregates h.own hname).isBadSymbol]]

/-- Directives that say the same below a namespace give it the same module. -/
theorem moduleName?_congr (h : d.SameBelow e nameOf ns) (hfqn : nameOf.nameSpace ns = fqn) :
    moduleName? d nameOf (.emitted fqn ns) = moduleName? e nameOf (.emitted fqn ns) := by
  have hinterface := isInterface_congr h hfqn
  obtain ⟨scope, nested⟩ := ns
  have haggregates : ((nameOf.aggregates scope).any fun name => !d.isBadSymbol name)
      = (nameOf.aggregates scope).any fun name => !e.isBadSymbol name := by
    rw [Bool.eq_iff_iff, List.any_eq_true, List.any_eq_true]
    exact exists_congr fun name => and_congr_right fun hname => by
      rw [(sameAt_of_mem_aggregates h.own hname).isBadSymbol]
  have hnested : nested.any (isNestedInterface d nameOf)
      = nested.any (isNestedInterface e nameOf) := by
    rw [Bool.eq_iff_iff, List.any_eq_true, List.any_eq_true]
    refine exists_congr fun child => and_congr_right fun hchild => ?_
    have hbelow := h.child child hchild
    obtain ⟨inner, _⟩ := child
    have hname := hbelow.own.nodes.head
    simp only [isNestedInterface, Naming.nameSpace, hname.isBadSymbol,
      Declaration.isInterface_congr hname]
  simp only [moduleName?, hinterface, haggregates, hnested]

/-- Directives that say the same below a namespace warn alike of it. -/
theorem warnings_congr (h : d.SameBelow e nameOf ns) (hfqn : nameOf.nameSpace ns = fqn) :
    warnings d nameOf (.emitted fqn ns) = warnings e nameOf (.emitted fqn ns) := by
  have hinterface := isInterface_congr h hfqn
  obtain ⟨scope, nested⟩ := ns
  have haggregates : (nameOf.aggregates scope).filter d.isBadSymbol
      = (nameOf.aggregates scope).filter e.isBadSymbol :=
    List.filter_congr fun name hname => (sameAt_of_mem_aggregates h.own hname).isBadSymbol
  simp only [warnings, hinterface, haggregates]

end Visit

/-- Directives that say the same about all that is declared lead to the same plan. -/
theorem Plan.of_congr (h : d.SameBelow e nameOf top) :
    Plan.of d nameOf top = Plan.of e nameOf top := by
  have hvisit {β : Type} {f g : Visit → β}
      (hexcluded : ∀ fqn, f (.excluded fqn) = g (.excluded fqn))
      (hemitted : ∀ fqn ns, d.SameBelow e nameOf ns → nameOf.nameSpace ns = fqn →
        f (.emitted fqn ns) = g (.emitted fqn ns)) :
      ∀ visit ∈ visits d nameOf top, f visit = g visit := by
    intro visit hmem
    cases visit with
    | excluded fqn => exact hexcluded fqn
    | emitted fqn ns =>
      exact hemitted fqn ns (sameBelow_of_mem_visits hmem h) (of_mem_visits hmem).1
  simp only [Plan.of, ← visits_congr h, Plan.mk.injEq]
  refine ⟨?_, ?_, ?_, ?_⟩
  · exact List.flatMap_congr (hvisit (fun _ => rfl) fun _ _ hns _ => Visit.emittedNames_congr hns)
  · refine List.filterMap_congr (hvisit (fun _ => rfl) fun _ _ hns hfqn => ?_)
    rw [Visit.interfaceName?, Visit.interfaceName?, Visit.isInterface_congr hns hfqn]
  · exact congrArg _ (List.filterMap_congr (hvisit (fun _ => rfl) fun _ _ hns hfqn =>
      Visit.moduleName?_congr hns hfqn))
  · exact List.flatMap_congr (hvisit (fun _ => rfl) fun _ _ hns hfqn =>
      Visit.warnings_congr hns hfqn)

end Declaration

end Ambient
