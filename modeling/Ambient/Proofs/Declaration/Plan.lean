import Ambient.Declaration.Emission
import Ambient.Proofs.Api.Definitions

/-!
# What a plan settles

Planning meets every namespace around which nothing is excluded. What it has met is emitted: the
namespace, and in it the classes, interfaces and enums that are not excluded themselves. No other
name is emitted. A namespace below the top level has a module exactly if there is something to
write into it.
-/

namespace Ambient.Declaration

open Api

variable {d : Directives} {nameOf : Naming} {top ns : Namespace} {fqn : String}

/-! ## Namespaces that are met -/

/-- The visits to nested namespaces are made namespace by namespace. -/
theorem visitsOf_eq (nested : List Namespace) :
    visitsOf d nameOf nested = nested.flatMap (visits d nameOf) := by
  induction nested with
  | nil => rfl
  | cons ns rest ih => rw [visitsOf, ih, List.flatMap_cons]

/-- An excluded namespace is met, and nothing below it. -/
theorem visits_of_excluded (h : excludes d (nameOf.nameSpace ns) = true) :
    visits d nameOf ns = [.excluded (nameOf.nameSpace ns)] := by
  obtain ⟨scope, nested⟩ := ns
  rw [visits]
  exact if_pos h

/-- A namespace that is not excluded is met before those nested in it. -/
theorem visits_of_not_excluded (h : excludes d (nameOf.nameSpace ns) = false) :
    visits d nameOf ns
      = .emitted (nameOf.nameSpace ns) ns :: ns.nested.flatMap (visits d nameOf) := by
  obtain ⟨scope, nested⟩ := ns
  rw [visits, ← visitsOf_eq]
  exact if_neg (by simpa [Naming.nameSpace] using h)

/-- Without a dotted name, a namespace is never excluded. -/
theorem not_excludes_unnamed (h : nameOf.nameSpace ns = "") :
    excludes d (nameOf.nameSpace ns) = false := by
  rw [h]
  rfl

/-- Planning from a top level meets everything that it meets from a namespace. -/
def Meets (d : Directives) (nameOf : Naming) (top ns : Namespace) : Prop :=
  ∀ visit ∈ visits d nameOf ns, visit ∈ visits d nameOf top

/-- Planning meets the namespace that it starts from. -/
theorem Meets.refl : Meets d nameOf top top := fun _ h => h

/-- A namespace that is met and not excluded is visited to be written. -/
theorem Meets.self (h : Meets d nameOf top ns) (hns : excludes d (nameOf.nameSpace ns) = false) :
    .emitted (nameOf.nameSpace ns) ns ∈ visits d nameOf top := by
  refine h _ ?_
  rw [visits_of_not_excluded hns]
  exact List.mem_cons_self

/-- What is nested in a namespace that is not excluded is met, too. -/
theorem Meets.nested (h : Meets d nameOf top ns) (hns : excludes d (nameOf.nameSpace ns) = false)
    {child : Namespace} (hchild : child ∈ ns.nested) : Meets d nameOf top child := by
  intro visit hvisit
  refine h visit ?_
  rw [visits_of_not_excluded hns]
  exact List.mem_cons_of_mem _ (List.mem_flatMap.mpr ⟨child, hchild, hvisit⟩)

/-- What holds of an emitted namespace, and goes from a namespace to the one around it unless that
is excluded, holds where planning begins. -/
@[elab_as_elim]
theorem emitted_induction {motive : Namespace → Prop} {inner : Namespace}
    (self : nameOf.nameSpace inner = fqn → excludes d fqn = false → motive inner)
    (outward : ∀ outer, excludes d (nameOf.nameSpace outer) = false →
      ∀ child ∈ outer.nested, motive child → motive outer)
    (h : .emitted fqn inner ∈ visits d nameOf ns) : motive ns := by
  induction ns using Namespace.induction with
  | step scope nested ih =>
    cases hns : excludes d (nameOf.nameSpace ⟨scope, nested⟩) with
    | true =>
      rw [visits_of_excluded hns] at h
      cases List.mem_singleton.mp h
    | false =>
      rw [visits_of_not_excluded hns] at h
      obtain h | h := List.mem_cons.mp h
      · cases h
        exact self rfl hns
      · obtain ⟨child, hchild, h⟩ := List.mem_flatMap.mp h
        exact outward ⟨scope, nested⟩ hns child hchild (ih child hchild h)

/-- An emitted namespace is met under its dotted name, which does not exclude it. -/
theorem of_mem_visits (h : .emitted fqn ns ∈ visits d nameOf top) :
    nameOf.nameSpace ns = fqn ∧ excludes d fqn = false := by
  refine emitted_induction ?_ ?_ h
  · intro hname hns
    exact ⟨hname, hns⟩
  · intro outer _ child _ ih
    exact ih

/-- What is met from an emitted namespace has been met. -/
theorem Meets.of_mem_visits (h : .emitted fqn ns ∈ visits d nameOf top) :
    Meets d nameOf top ns := by
  refine emitted_induction ?_ ?_ h
  · intro _ _
    exact .refl
  · intro outer houter child hchild ih visit hvisit
    exact Meets.refl.nested houter hchild visit (ih visit hvisit)

/-- An emitted namespace is the one where planning begins, or stands in another emitted one. -/
theorem exists_parent (h : .emitted fqn ns ∈ visits d nameOf top) :
    ns = top ∨ ∃ outer, .emitted (nameOf.nameSpace outer) outer ∈ visits d nameOf top ∧
      ns ∈ outer.nested := by
  refine emitted_induction ?_ ?_ h
  · intro _ _
    exact .inl rfl
  · intro outer houter child hchild ih
    right
    obtain rfl | ⟨parent, hparent, hns⟩ := ih
    · exact ⟨outer, Meets.refl.self houter, hchild⟩
    · exact ⟨parent, Meets.refl.nested houter hchild _ hparent, hns⟩

/-- Whatever path planning begins at, there is one under which an emitted namespace defines what it
defines. -/
theorem exists_definitions_subset (h : .emitted fqn ns ∈ visits d nameOf top) :
    ∀ path, ∃ here, ∀ x ∈ ns.definitions here, x ∈ top.definitions path := by
  refine emitted_induction ?_ ?_ h
  · intro _ _ path
    exact ⟨path, fun x hx => hx⟩
  · intro outer _ child hchild ih path
    obtain ⟨here, hhere⟩ := ih (joined path child.name)
    refine ⟨here, fun x hx => Namespace.mem_definitions.mpr (.inr ?_)⟩
    exact Namespace.mem_inside.mpr (.inl ⟨child, hchild, hhere x hx⟩)

/-! ## Names that are emitted -/

/-- The names of what a scope declares are those of its types. -/
theorem Naming.aggregates_eq (s : Scope) :
    nameOf.aggregates s = s.types.map fun n => nameOf n.link := by
  simp only [aggregates, Scope.types, List.map_append, List.map_map]
  rfl

/-- A visit has the names of its namespace and of the types there that are not bad. -/
theorem mem_emittedNames {name : String} :
    name ∈ Visit.emittedNames d nameOf (.emitted fqn ns) ↔
      name = fqn ∨ ∃ n ∈ ns.scope.types, nameOf n.link = name ∧ d.isBadSymbol name = false := by
  rw [Visit.emittedNames, List.mem_cons, List.mem_filter, Naming.aggregates_eq, List.mem_map]
  simp only [Bool.not_eq_true', ← exists_and_right, and_assoc]

/-- No emitted name is excluded. -/
theorem not_excludes_of_emitted {name : String} (h : name ∈ (Plan.of d nameOf top).emitted) :
    excludes d name = false := by
  obtain ⟨visit, hvisit, hname⟩ := List.mem_flatMap.mp h
  cases visit with
  | excluded fqn => cases hname
  | emitted fqn ns =>
    obtain rfl | ⟨n, _, _, hbad⟩ := mem_emittedNames.mp hname
    · exact (of_mem_visits hvisit).2
    · rw [excludes, hbad, Bool.and_false]

/-- An emitted name is that of a definition. -/
theorem exists_definition_of_mem_emitted {name : String}
    (h : name ∈ (Plan.of d nameOf top).emitted) :
    ∃ x ∈ top.definitions "", nameOf x.link = name := by
  obtain ⟨visit, hvisit, hname⟩ := List.mem_flatMap.mp h
  cases visit with
  | excluded fqn => cases hname
  | emitted fqn ns =>
    obtain ⟨here, hhere⟩ := exists_definitions_subset hvisit ""
    obtain rfl | ⟨n, hn, rfl, _⟩ := mem_emittedNames.mp hname
    · exact ⟨_, hhere _ (Namespace.mem_definitions.mpr (.inl rfl)), (of_mem_visits hvisit).1⟩
    · exact ⟨_, hhere _ (Namespace.mem_definitions.mpr
        (.inr (Namespace.mem_inside.mpr (.inr ⟨n, hn, rfl⟩)))), rfl⟩

/-- A namespace that is met is emitted unless its name excludes it. -/
theorem Meets.mem_emitted_iff (h : Meets d nameOf top ns) :
    nameOf.nameSpace ns ∈ (Plan.of d nameOf top).emitted ↔
      excludes d (nameOf.nameSpace ns) = false := by
  constructor
  · exact not_excludes_of_emitted
  · intro hns
    exact List.mem_flatMap.mpr ⟨_, h.self hns, mem_emittedNames.mpr (.inl rfl)⟩

/-- In a namespace that is met, a class, interface or enum with a name is emitted unless its name
excludes it. -/
theorem Meets.mem_emitted_type_iff (h : Meets d nameOf top ns)
    (hns : excludes d (nameOf.nameSpace ns) = false) {n : TypeNode} (hn : n ∈ ns.scope.types)
    (hname : nameOf n.link ≠ "") :
    nameOf n.link ∈ (Plan.of d nameOf top).emitted ↔ d.isBadSymbol (nameOf n.link) = false := by
  constructor
  · intro hemitted
    have hnot := not_excludes_of_emitted hemitted
    simpa [excludes, hname] using hnot
  · intro hbad
    exact List.mem_flatMap.mpr ⟨_, h.self hns, mem_emittedNames.mpr (.inr ⟨n, hn, rfl, hbad⟩)⟩

/-- Nothing is emitted below an excluded top level. -/
theorem emitted_of_excluded (h : excludes d (nameOf.nameSpace top) = true) :
    (Plan.of d nameOf top).emitted = [] := by
  simp only [Plan.of, visits_of_excluded h, List.flatMap_singleton, Visit.emittedNames]

/-! ## Interfaces and modules -/

/-- A namespace below the top level is an interface if one that is met under its dotted name is to
be one, or is empty. -/
theorem mem_interfaces :
    fqn ∈ (Plan.of d nameOf top).interfaces ↔
      fqn ≠ "" ∧ ∃ ns, .emitted fqn ns ∈ visits d nameOf top ∧ isInterface d fqn ns = true := by
  rw [Plan.of, List.mem_filterMap]
  constructor
  · rintro ⟨visit, hvisit, hname⟩
    cases visit with
    | excluded fqn => cases hname
    | emitted name ns =>
      rw [Visit.interfaceName?] at hname
      split at hname
      · next hinterface =>
        cases hname
        have hboth : fqn ≠ "" ∧ isInterface d fqn ns = true := by
          simpa [Visit.isInterface] using hinterface
        exact ⟨hboth.1, ns, hvisit, hboth.2⟩
      · cases hname
  · rintro ⟨hname, ns, hvisit, hinterface⟩
    refine ⟨_, hvisit, ?_⟩
    rw [Visit.interfaceName?]
    exact if_pos (by simp [Visit.isInterface, hname, hinterface])

/-- A namespace holds something to write into a module: a class, interface or enum that is not
excluded, a namespace that is not excluded and is written as an interface or, unless it is to be an
interface itself, a variable or a function. -/
def Fills (d : Directives) (nameOf : Naming) (ns : Namespace) : Prop :=
  (∃ n ∈ ns.scope.types, d.isBadSymbol (nameOf n.link) = false) ∨
    (∃ child ∈ ns.nested, d.isBadSymbol (nameOf.nameSpace child) = false ∧
      isInterface d (nameOf.nameSpace child) child = true) ∨
    (d.reclassifies (nameOf.nameSpace ns) = false ∧
      (ns.scope.constants ≠ [] ∨ ns.scope.functions ≠ []))

/-- Whether a namespace fills a module is decided by looking at what it declares. -/
instance : DecidablePred (Fills d nameOf) := fun _ => inferInstanceAs (Decidable (_ ∨ _ ∨ _))

/-- A namespace with variables or functions is an interface only if it is to be one. -/
theorem isInterface_of_values (h : ns.scope.constants ≠ [] ∨ ns.scope.functions ≠ []) :
    isInterface d fqn ns = d.reclassifies fqn := by
  have hfull : ns.isEmpty = false := by
    simp only [Namespace.isEmpty, Bool.and_eq_false_iff, List.isEmpty_eq_false_iff]
    tauto
  rw [isInterface, hfull, Bool.or_false]

/-- A namespace below the top level has a module exactly if it holds something for it. -/
theorem moduleName?_emitted (ns : Namespace) :
    Visit.moduleName? d nameOf (.emitted (nameOf.nameSpace ns) ns)
      = if nameOf.nameSpace ns ≠ "" ∧ Fills d nameOf ns then some (nameOf.nameSpace ns)
        else none := by
  rw [Visit.moduleName?]
  refine if_congr ?_ rfl rfl
  by_cases hname : nameOf.nameSpace ns = ""
  · simp [hname]
  · have hvalues : (isInterface d (nameOf.nameSpace ns) ns = false ∧
        (ns.scope.constants ≠ [] ∨ ns.scope.functions ≠ [])) ↔
          (d.reclassifies (nameOf.nameSpace ns) = false ∧
            (ns.scope.constants ≠ [] ∨ ns.scope.functions ≠ [])) :=
      and_congr_left fun h => by rw [isInterface_of_values h]
    rw [Fills, ← hvalues, Naming.aggregates_eq, ← or_assoc, or_comm, ← or_assoc]
    simp [Visit.isInterface, Visit.isNestedInterface, hname]

/-- A namespace without a module holds nothing that belongs into one. -/
theorem Meets.of_not_mem_modules (h : Meets d nameOf top ns)
    (hns : excludes d (nameOf.nameSpace ns) = false) (hname : nameOf.nameSpace ns ≠ "")
    (hmodule : nameOf.nameSpace ns ∉ (Plan.of d nameOf top).modules.toList) :
    (isInterface d (nameOf.nameSpace ns) ns = false →
        ns.scope.constants = [] ∧ ns.scope.functions = []) ∧
      (∀ n ∈ ns.scope.types, d.isBadSymbol (nameOf n.link) = true) ∧
      ∀ child ∈ ns.nested, Visit.isNestedInterface d nameOf child = false := by
  have hnothing : ¬ Fills d nameOf ns := fun hfills => by
    refine hmodule (Ordered.Set.mem_ofList.mpr ?_)
    exact List.mem_filterMap.mpr ⟨_, h.self hns, by
      rw [moduleName?_emitted, if_pos ⟨hname, hfills⟩]⟩
  simp only [Fills, not_or, not_exists, not_and, Bool.not_eq_false] at hnothing
  obtain ⟨htypes, hnested, hvalues⟩ := hnothing
  refine ⟨fun hinterface => ?_, htypes, fun child hchild => ?_⟩
  · by_contra hholds
    have hheld : ns.scope.constants ≠ [] ∨ ns.scope.functions ≠ [] := by tauto
    rw [isInterface_of_values hheld] at hinterface
    exact absurd hheld (by simpa using hvalues hinterface)
  · rw [Visit.isNestedInterface]
    simpa using hnested child hchild

end Ambient.Declaration
