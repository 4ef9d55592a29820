import Ambient.Proofs.Declaration.Places

/-!
# Types in sight

Whether a type is declared under a dotted name can be told from the description: it stands in a
namespace that is in sight from the top level, where an excluded namespace hides what is in it.
Here dotted names may come more than once and the top level may have one of its own.
-/

namespace Ambient.Declaration

open Api

variable {d : Directives} {nameOf : Naming} {top ns : Namespace} {fqn : String}

/-! ## Namespaces in sight -/

/-- A namespace is in sight from another if neither of them nor one on the way is excluded. -/
inductive InSight (d : Directives) (nameOf : Naming) : Namespace → Namespace → Prop
  | self {ns : Namespace} : excludes d (nameOf.nameSpace ns) = false → InSight d nameOf ns ns
  | nested {outer child ns : Namespace} : excludes d (nameOf.nameSpace outer) = false →
      child ∈ outer.nested → InSight d nameOf child ns → InSight d nameOf outer ns

/-- Planning emits the namespaces that are in sight. -/
theorem inSight_iff :
    InSight d nameOf top ns ↔ .emitted (nameOf.nameSpace ns) ns ∈ visits d nameOf top := by
  constructor
  · intro h
    induction h with
    | self hns => exact Meets.refl.self hns
    | nested houter hchild _ ih => exact Meets.refl.nested houter hchild _ ih
  · intro h
    refine emitted_induction ?_ ?_ h
    · intro _ hns
      exact .self hns
    · intro outer houter child hchild ih
      exact .nested houter hchild ih

/-- Neither a namespace in sight nor the one it is seen from is excluded. -/
theorem InSight.not_excluded (h : InSight d nameOf top ns) :
    excludes d (nameOf.nameSpace top) = false ∧ excludes d (nameOf.nameSpace ns) = false := by
  induction h with
  | self hns => exact ⟨hns, hns⟩
  | nested houter _ _ ih => exact ⟨houter, ih.2⟩

/-- Planning meets the namespaces in sight. -/
theorem InSight.meets (h : InSight d nameOf top ns) : Meets d nameOf top ns :=
  Meets.of_mem_visits (inSight_iff.mp h)

/-- What is nested in a namespace in sight is met, whether it is excluded or not. -/
theorem InSight.meets_nested (h : InSight d nameOf top ns) {child : Namespace}
    (hchild : child ∈ ns.nested) : Meets d nameOf top child :=
  h.meets.nested h.not_excluded.2 hchild

/-- The namespaces in sight below the top level are those nested in one that is in sight. -/
theorem exists_inSight_nested_iff (htop : excludes d (nameOf.nameSpace top) = false) :
    (∃ first ∈ top.nested, InSight d nameOf first ns) ↔
      excludes d (nameOf.nameSpace ns) = false ∧
        ∃ outer, InSight d nameOf top outer ∧ ns ∈ outer.nested := by
  constructor
  · rintro ⟨first, hfirst, hsight⟩
    refine ⟨hsight.not_excluded.2, ?_⟩
    obtain rfl | ⟨outer, houter, hns⟩ := exists_parent (inSight_iff.mp hsight)
    · exact ⟨top, .self htop, hfirst⟩
    · exact ⟨outer, .nested htop hfirst (inSight_iff.mpr houter), hns⟩
  · rintro ⟨hshown, outer, houter, hns⟩
    cases houter with
    | self _ => exact ⟨ns, hns, .self hshown⟩
    | @nested _ first _ _ hfirst hsight =>
      have hmeets := hsight.meets_nested hns
      exact ⟨first, hfirst, inSight_iff.mpr (hmeets.self hshown)⟩

/-- What is defined below a namespace in sight is defined below the top level. -/
theorem InSight.exists_inside_subset (h : InSight d nameOf top ns) :
    ∀ path, ∃ here, ∀ x ∈ ns.inside here, x ∈ top.inside path := by
  induction h with
  | self _ => exact fun path => ⟨path, fun _ hx => hx⟩
  | @nested _ child _ _ hchild _ ih =>
    intro path
    obtain ⟨here, hhere⟩ := ih (joined path child.name)
    exact ⟨here, fun x hx => Namespace.mem_inside.mpr
      (.inl ⟨child, hchild, Namespace.mem_definitions.mpr (.inr (hhere x hx))⟩)⟩

/-- A namespace nested in one in sight is defined below the top level. -/
theorem InSight.exists_definition (h : InSight d nameOf top ns) {child : Namespace}
    (hchild : child ∈ ns.nested) (path : String) :
    ∃ x ∈ top.inside path, nameOf x.link = nameOf.nameSpace child := by
  obtain ⟨here, hhere⟩ := h.exists_inside_subset path
  have hdefined : child.definition (joined here child.name) ∈ ns.inside here :=
    Namespace.mem_inside.mpr (.inl ⟨child, hchild, Namespace.mem_definitions.mpr (.inl rfl)⟩)
  exact ⟨_, hhere _ hdefined, rfl⟩

/-- The types that are kept are those in sight that are not excluded themselves. -/
theorem mem_keptTypes {n : TypeNode} (ns : Namespace) :
    ∀ {around : List String}, (∀ fqn ∈ around, excludes d fqn = false) →
      (n ∈ nameOf.keptTypes d around ns ↔ d.isBadSymbol (nameOf n.link) = false ∧
        ∃ inner, InSight d nameOf ns inner ∧ n ∈ inner.scope.types) := by
  induction ns using Namespace.induction with
  | step scope nested ih =>
    intro around haround
    cases hns : excludes d (nameOf.nameSpace ⟨scope, nested⟩) with
    | true =>
      rw [Naming.keptTypes_of_excluded hns]
      constructor
      · intro h
        cases h
      · rintro ⟨_, inner, hinner, _⟩
        cases hinner with
        | self hshown => rw [hns] at hshown; cases hshown
        | nested hshown => rw [hns] at hshown; cases hshown
    | false =>
      have hinner := Naming.not_excludes_around haround hns
      rw [Naming.keptTypes_of_not_excluded haround hns, List.mem_append, List.mem_filter,
        List.mem_flatMap]
      constructor
      · rintro (⟨hn, hkept⟩ | ⟨child, hchild, hn⟩)
        · exact ⟨by simpa using hkept, _, .self hns, hn⟩
        · obtain ⟨hbad, inner, hsight, hn⟩ := (ih child hchild hinner).mp hn
          exact ⟨hbad, inner, .nested hns hchild hsight, hn⟩
      · rintro ⟨hbad, inner, hsight, hn⟩
        cases hsight with
        | self _ => exact .inl ⟨hn, by simpa using hbad⟩
        | nested _ hchild hsight =>
          exact .inr ⟨_, hchild, (ih _ hchild hinner).mpr ⟨hbad, inner, hsight, hn⟩⟩

/-- A type stands in sight under a dotted name: a class, interface or enum in a namespace that is
in sight, or a namespace nested in it that is written as an interface. -/
def Shows (d : Directives) (nameOf : Naming) (top : Namespace) (fqn : String) : Prop :=
  ∃ ns, InSight d nameOf top ns ∧
    ((∃ n ∈ ns.scope.types, nameOf n.link = fqn) ∨
      ∃ child ∈ ns.nested, nameOf.nameSpace child = fqn ∧ isInterface d fqn child = true)

/-! ## Namespaces written as interfaces -/

namespace Writer

variable {w : Writer} {path : String}

/-- A namespace has itself as an entry exactly if it is written as an interface. -/
theorem nameSpace_mem_ownEntries {s : Scope} :
    .nameSpace s ∈ w.ownEntries ns ↔
      w.isInterface (w.nameOf.nameSpace ns) = true ∧ ns.scope = s := by
  have hvalues : .nameSpace s ∉ valueEntries ns.scope := by simp [valueEntries]
  rw [ownEntries]
  split
  · next h => simp [h, eq_comm]
  · next h => simp [h, hvalues]

namespace Follows

/-- A namespace that is met is emitted as an interface if it is not excluded and has the name of
one. -/
theorem isEmittedInterface_iff (hw : w.Follows top) (h : Meets w.directives w.nameOf top ns) :
    w.isEmittedInterface ns = true ↔
      excludes w.directives (w.nameOf.nameSpace ns) = false ∧
        w.isInterface (w.nameOf.nameSpace ns) = true := by
  rw [isEmittedInterface, Bool.and_eq_true, ← Bool.not_eq_true', ← hw.contains_nameSpace h]
  rfl

/-- The global tree has an interface for each namespace in sight that has the name of one. -/
theorem nameSpace_mem_treeEntries (hw : w.Follows top) {s : Scope} (ns : Namespace) :
    Meets w.directives w.nameOf top ns → (.nameSpace s ∈ w.treeEntries ns ↔
      ∃ inner, InSight w.directives w.nameOf ns inner ∧ inner.scope = s ∧
        w.isInterface (w.nameOf.nameSpace inner) = true) := by
  induction ns using Namespace.induction with
  | step scope nested ih =>
    intro h
    cases hns : excludes w.directives (w.nameOf.nameSpace ⟨scope, nested⟩) with
    | true =>
      rw [hw.treeEntries_of_excluded h hns]
      constructor
      · intro hmem
        cases hmem
      · rintro ⟨inner, hsight, _⟩
        exact nomatch hns.symm.trans hsight.not_excluded.1
    | false =>
      have htypes : Entry.nameSpace s ∉ typeEntries scope := by simp [typeEntries]
      rw [hw.treeEntries_of_not_excluded h hns, List.mem_append, List.mem_append,
        nameSpace_mem_ownEntries, List.mem_flatMap]
      constructor
      · rintro ((⟨hinterface, hs⟩ | hmem) | ⟨child, hchild, hmem⟩)
        · exact ⟨_, .self hns, hs, hinterface⟩
        · exact absurd hmem htypes
        · obtain ⟨inner, hsight, hs⟩ := (ih child hchild (h.nested hns hchild)).mp hmem
          exact ⟨inner, .nested hns hchild hsight, hs⟩
      · rintro ⟨inner, hsight, hs, hinterface⟩
        cases hsight with
        | self _ => exact .inl (.inl ⟨hinterface, hs⟩)
        | @nested _ child _ _ hchild hsight =>
          exact .inr ⟨child, hchild,
            (ih child hchild (h.nested hns hchild)).mpr ⟨inner, hsight, hs, hinterface⟩⟩

/-- Nothing is written as an interface below an excluded top level. -/
theorem nameSpace_not_mem_of_excluded (hw : w.Follows top)
    (htop : excludes w.directives (w.nameOf.nameSpace top) = true) (flavor : Flavor)
    (modules : Ordered.Set String) (s : Scope) :
    .nameSpace s ∉ w.entries flavor modules top := by
  have hemitted : w.emitted = [] := hw.emitted.trans (emitted_of_excluded htop)
  have htree (ns : Namespace) : w.treeEntries ns = [] := by
    rw [treeEntries_eq, hemitted]
    rfl
  have hblocks (ns : Namespace) : w.blockPlans modules ns = [] := by
    rw [blockPlans_eq, hemitted]
    rfl
  have hnested : w.nestedInterfaceEntries top = [] := by
    simp [nestedInterfaceEntries, isEmittedInterface, hemitted]
  cases flavor with
  | globals => simp [entries_globals, htree, valueEntries, typeEntries]
  | modules => simp [entries_modules, hblocks, hnested, valueEntries, typeEntries]

/-- In the global tree, what is written as an interface is nested in a namespace in sight. -/
theorem nameSpace_mem_entries_globals (hw : w.Follows top)
    (htop : excludes w.directives (w.nameOf.nameSpace top) = false)
    {modules : Ordered.Set String} {s : Scope} :
    .nameSpace s ∈ w.entries .globals modules top ↔
      ∃ outer, InSight w.directives w.nameOf top outer ∧
        ∃ child ∈ outer.nested, child.scope = s ∧ w.isEmittedInterface child = true := by
  have hown : Entry.nameSpace s ∉ valueEntries top.scope ++ typeEntries top.scope := by
    simp [valueEntries, typeEntries]
  rw [entries_globals, List.mem_append, or_iff_right hown, List.mem_flatMap]
  constructor
  · rintro ⟨first, hfirst, hmem⟩
    have hmeets := Meets.refl.nested htop hfirst
    obtain ⟨child, hsight, hs, hinterface⟩ := (hw.nameSpace_mem_treeEntries first hmeets).mp hmem
    obtain ⟨hshown, outer, houter, hchild⟩ :=
      (exists_inSight_nested_iff htop).mp ⟨first, hfirst, hsight⟩
    have hmet := houter.meets_nested hchild
    exact ⟨outer, houter, child, hchild, hs,
      (hw.isEmittedInterface_iff hmet).mpr ⟨hshown, hinterface⟩⟩
  · rintro ⟨outer, houter, child, hchild, hs, hemitted⟩
    have hmet := houter.meets_nested hchild
    obtain ⟨hshown, hinterface⟩ := (hw.isEmittedInterface_iff hmet).mp hemitted
    obtain ⟨first, hfirst, hsight⟩ :=
      (exists_inSight_nested_iff htop).mpr ⟨hshown, outer, houter, hchild⟩
    exact ⟨first, hfirst, (hw.nameSpace_mem_treeEntries first (Meets.refl.nested htop hfirst)).mpr
      ⟨child, hsight, hs, hinterface⟩⟩

/-- With module blocks, the namespace around it is the top level or has a block. -/
theorem nameSpace_mem_entries_modules (hw : w.Follows top)
    (htop : excludes w.directives (w.nameOf.nameSpace top) = false)
    {modules : Ordered.Set String} {s : Scope} :
    .nameSpace s ∈ w.entries .modules modules top ↔
      ∃ outer, InSight w.directives w.nameOf top outer ∧
        (outer = top ∨ modules.contains (w.nameOf.nameSpace outer) = true) ∧
        ∃ child ∈ outer.nested, child.scope = s ∧ w.isEmittedInterface child = true := by
  have hown : Entry.nameSpace s ∉ valueEntries top.scope ++ typeEntries top.scope := by
    simp [valueEntries, typeEntries]
  have hnested : Entry.nameSpace s ∈ w.nestedInterfaceEntries top ↔
      ∃ child ∈ top.nested, child.scope = s ∧ w.isEmittedInterface child = true := by
    simp only [nestedInterfaceEntries, List.mem_map, List.mem_filter, Entry.nameSpace.injEq,
      and_assoc]
    exact exists_congr fun child => and_congr_right fun _ => and_comm
  rw [entries_modules, List.mem_append, List.mem_append, or_iff_right hown, hnested,
    List.mem_flatMap]
  constructor
  · rintro (hmem | ⟨first, hfirst, hmem⟩)
    · exact ⟨top, .self htop, .inl rfl, hmem⟩
    · obtain ⟨plan, hplan, hentry⟩ := List.mem_flatMap.mp hmem
      have hmeets := Meets.refl.nested htop hfirst
      obtain ⟨fqn, outer, houter, hplan⟩ := (hw.mem_blockPlans_iff first hmeets).mp hplan
      obtain ⟨rfl, _⟩ := of_mem_visits houter
      rw [ownPlan] at hplan
      split at hplan
      · next hmodule =>
        obtain rfl := List.mem_singleton.mp hplan
        obtain ⟨child, hchild, hemitted, hs⟩ := nameSpace_mem_blockEntries.mp hentry
        exact ⟨outer, inSight_iff.mpr (hmeets _ houter), .inr hmodule, child, hchild, hs, hemitted⟩
      · cases hplan
  · rintro ⟨outer, houter, hplace, child, hchild, hs, hemitted⟩
    cases houter with
    | self _ => exact .inl ⟨child, hchild, hs, hemitted⟩
    | @nested _ first _ _ hfirst hsight =>
      obtain rfl | hmodule := hplace
      · exact .inl ⟨child, hchild, hs, hemitted⟩
      · have hplan :
            (w.nameOf.nameSpace outer, w.blockEntries outer) ∈ w.ownPlan modules outer := by
          rw [ownPlan, if_pos hmodule]
          exact List.mem_singleton_self _
        refine .inr ⟨first, hfirst, List.mem_flatMap.mpr ⟨_,
          (hw.mem_blockPlans_iff first (Meets.refl.nested htop hfirst)).mpr
            ⟨_, outer, inSight_iff.mp hsight, hplan⟩, ?_⟩⟩
        exact nameSpace_mem_blockEntries.mpr ⟨child, hchild, hemitted, hs⟩

/-- What is written as an interface is nested in a namespace in sight. -/
theorem exists_nested_of_mem_entries (hw : w.Follows top) {flavor : Flavor}
    {modules : Ordered.Set String} {s : Scope} (h : .nameSpace s ∈ w.entries flavor modules top) :
    ∃ outer, InSight w.directives w.nameOf top outer ∧
      ∃ child ∈ outer.nested, child.scope = s ∧ w.isEmittedInterface child = true := by
  cases htop : excludes w.directives (w.nameOf.nameSpace top) with
  | true => exact absurd h (hw.nameSpace_not_mem_of_excluded htop flavor modules s)
  | false =>
    cases flavor with
    | globals => exact (hw.nameSpace_mem_entries_globals htop).mp h
    | modules =>
      obtain ⟨outer, houter, _, hnested⟩ := (hw.nameSpace_mem_entries_modules htop).mp h
      exact ⟨outer, houter, hnested⟩

section Named

variable (hw : w.Follows top) (hnames : w.NamesAll (top.inside path))
include hw hnames

/-- The classes, interfaces and enums that are written are those in sight that are not excluded
themselves. -/
theorem aggregate_mem_entries_iff (flavor : Flavor) (n : TypeNode) :
    .aggregate n ∈ w.entries flavor (Plan.of w.directives w.nameOf top).modules top ∧
        w.emitted.contains (w.nameOf n.link) = true ↔
      w.directives.isBadSymbol (w.nameOf n.link) = false ∧
        ∃ ns, InSight w.directives w.nameOf top ns ∧ n ∈ ns.scope.types := by
  have hkept : n ∈ w.nameOf.keptTypes w.directives [] top ↔ _ := mem_keptTypes top (by simp)
  rw [← hkept, ← hw.typeNodes_entries hnames flavor]
  have hentry (entry : Entry) : entry.aggregate? = some n ↔ entry = .aggregate n := by
    cases entry <;> simp [Entry.aggregate?]
  simp [typeNodes, hentry]

/-- The classes, interfaces and enums that are written under a dotted name are those in sight. -/
theorem exists_aggregate_iff (flavor : Flavor) (fqn : String) :
    (∃ n, .aggregate n ∈ w.entries flavor (Plan.of w.directives w.nameOf top).modules top ∧
        w.emitted.contains (w.nameOf n.link) = true ∧ w.nameOf n.link = fqn) ↔
      w.directives.isBadSymbol fqn = false ∧ ∃ ns, InSight w.directives w.nameOf top ns ∧
        ∃ n ∈ ns.scope.types, w.nameOf n.link = fqn := by
  have hwritten := hw.aggregate_mem_entries_iff hnames flavor
  constructor
  · rintro ⟨n, hn, hemitted, rfl⟩
    obtain ⟨hbad, ns, hsight, hmem⟩ := (hwritten n).mp ⟨hn, hemitted⟩
    exact ⟨hbad, ns, hsight, n, hmem, rfl⟩
  · rintro ⟨hbad, ns, hsight, n, hmem, rfl⟩
    obtain ⟨hn, hemitted⟩ := (hwritten n).mpr ⟨hbad, ns, hsight, hmem⟩
    exact ⟨n, hn, hemitted, rfl⟩

/-- A namespace that is to be an interface is emitted as one, if the namespace around it is in
sight. -/
theorem isEmittedInterface_of_isInterface {outer child : Namespace}
    (houter : InSight w.directives w.nameOf top outer) (hchild : child ∈ outer.nested)
    (hbad : w.directives.isBadSymbol (w.nameOf.nameSpace child) = false)
    (hinterface : Declaration.isInterface w.directives (w.nameOf.nameSpace child) child = true) :
    w.isEmittedInterface child = true := by
  have hmet := houter.meets_nested hchild
  have hkept : excludes w.directives (w.nameOf.nameSpace child) = false := by
    rw [excludes, hbad, Bool.and_false]
  obtain ⟨x, hx, hname⟩ := houter.exists_definition hchild path
  refine (hw.isEmittedInterface_iff hmet).mpr ⟨hkept, ?_⟩
  rw [isInterface, List.contains_iff_mem, hw.interfaces, mem_interfaces]
  exact ⟨hname ▸ hnames x hx, child, hmet.self hkept, hinterface⟩

omit hw in
/-- A namespace in sight that holds one which is to be an interface has a block for it, unless it
is the top level. -/
theorem module_of_isInterface {outer child : Namespace}
    (houter : InSight w.directives w.nameOf top outer) (hchild : child ∈ outer.nested)
    (hbad : w.directives.isBadSymbol (w.nameOf.nameSpace child) = false)
    (hinterface : Declaration.isInterface w.directives (w.nameOf.nameSpace child) child = true) :
    outer = top ∨
      (Plan.of w.directives w.nameOf top).modules.contains (w.nameOf.nameSpace outer) = true := by
  obtain htop | ⟨around, haround, hnested⟩ := exists_parent (inSight_iff.mp houter)
  · exact .inl htop
  · right
    by_contra hmodule
    rw [Ordered.Set.contains_iff] at hmodule
    obtain ⟨x, hx, hname⟩ := (inSight_iff.mpr haround).exists_definition hnested path
    obtain ⟨_, _, hnone⟩ := houter.meets.of_not_mem_modules houter.not_excluded.2
      (hname ▸ hnames x hx) hmodule
    have hnot := hnone child hchild
    simp [Visit.isNestedInterface, hbad, hinterface] at hnot

omit hnames in
/-- A namespace that is emitted as an interface has the name of one in sight that is to be an
interface, if the top level has another name. -/
theorem exists_isInterface_of_isEmittedInterface
    (htop : ∀ x ∈ top.inside path, w.nameOf x.link ≠ w.nameOf.nameSpace top)
    {outer child : Namespace} (houter : InSight w.directives w.nameOf top outer)
    (hchild : child ∈ outer.nested) (hemitted : w.isEmittedInterface child = true) :
    w.directives.isBadSymbol (w.nameOf.nameSpace child) = false ∧
      ∃ around, InSight w.directives w.nameOf top around ∧
        ∃ other ∈ around.nested, w.nameOf.nameSpace other = w.nameOf.nameSpace child ∧
          Declaration.isInterface w.directives (w.nameOf.nameSpace child) other = true := by
  obtain ⟨x, hx, hname⟩ := houter.exists_definition hchild path
  obtain ⟨hkept, hlisted⟩ := (hw.isEmittedInterface_iff (houter.meets_nested hchild)).mp hemitted
  rw [isInterface, List.contains_iff_mem, hw.interfaces, mem_interfaces] at hlisted
  obtain ⟨hne, other, hvisit, hinterface⟩ := hlisted
  have hother := (of_mem_visits hvisit).1
  refine ⟨by simpa [excludes, hne] using hkept, ?_⟩
  obtain rfl | ⟨around, haround, hnested⟩ := exists_parent hvisit
  · exact absurd (hname.trans hother.symm) (htop x hx)
  · exact ⟨around, inSight_iff.mpr haround, other, hnested, hother, hinterface⟩

/-- A namespace is written as an interface under a dotted name if one with this name is in sight
that is to be an interface. -/
theorem exists_nameSpace_iff
    (htop : ∀ x ∈ top.inside path, w.nameOf x.link ≠ w.nameOf.nameSpace top) (flavor : Flavor)
    (fqn : String) :
    (∃ s, .nameSpace s ∈ w.entries flavor (Plan.of w.directives w.nameOf top).modules top ∧
        w.nameOf s.link = fqn) ↔
      w.directives.isBadSymbol fqn = false ∧ ∃ ns, InSight w.directives w.nameOf top ns ∧
        ∃ child ∈ ns.nested, w.nameOf.nameSpace child = fqn ∧
          Declaration.isInterface w.directives fqn child = true := by
  constructor
  · rintro ⟨s, hmem, rfl⟩
    obtain ⟨outer, houter, child, hchild, rfl, hemitted⟩ := hw.exists_nested_of_mem_entries hmem
    exact hw.exists_isInterface_of_isEmittedInterface htop houter hchild hemitted
  · rintro ⟨hbad, outer, houter, child, hchild, rfl, hinterface⟩
    have hemitted := hw.isEmittedInterface_of_isInterface hnames houter hchild hbad hinterface
    have hmodule := module_of_isInterface hnames houter hchild hbad hinterface
    refine ⟨child.scope, ?_, rfl⟩
    cases flavor with
    | globals =>
      exact (hw.nameSpace_mem_entries_globals houter.not_excluded.1).mpr
        ⟨outer, houter, child, hchild, rfl, hemitted⟩
    | modules =>
      exact (hw.nameSpace_mem_entries_modules houter.not_excluded.1).mpr
        ⟨outer, houter, hmodule, child, hchild, rfl, hemitted⟩

end Named

end Follows

end Writer

/-! ## Emission -/

section Emission

/-- A dotted name is shown by a type of a namespace in sight, or by a namespace nested in one that
is to be an interface. -/
theorem shows_iff : Shows d nameOf top fqn ↔
    (∃ ns, InSight d nameOf top ns ∧ ∃ n ∈ ns.scope.types, nameOf n.link = fqn) ∨
      ∃ ns, InSight d nameOf top ns ∧
        ∃ child ∈ ns.nested, nameOf.nameSpace child = fqn ∧ isInterface d fqn child = true := by
  simp only [Shows, and_or_left, exists_or]

/-- Whatever the flavor, the output declares a type under a dotted name exactly if the name is not
excluded and a type stands in sight under it. -/
theorem declaresType_iff_shows {library path : String} {table : Symbol.Table}
    (hnames : ∀ x ∈ top.inside path, nameOf x.link ≠ "")
    (htop : ∀ x ∈ top.inside path, nameOf x.link ≠ nameOf.nameSpace top) (flavor : Flavor) :
    (∃ item ∈ (emitNamed library table d flavor nameOf top).document.items,
        item.declaresType fqn = true) ↔
      d.isBadSymbol fqn = false ∧ Shows d nameOf top fqn := by
  let w := writerFor library table d nameOf (Plan.of d nameOf top)
  have hfollows : w.Follows top := Writer.follows_writerFor library table d nameOf top
  have haggregate := hfollows.exists_aggregate_iff hnames flavor fqn
  have hnameSpace := hfollows.exists_nameSpace_iff hnames htop flavor fqn
  have houtlines := map_outline_emitNamed library table d flavor nameOf top
  rw [shows_iff, and_or_left]
  refine Iff.trans ?_ (or_congr haggregate hnameSpace)
  -- Only types and namespaces that are interfaces have a form that can be referred to.
  constructor
  · rintro ⟨item, hitem, hdeclares⟩
    obtain ⟨hfqn, href⟩ := Item.declaresType_iff.mp hdeclares
    have ho := List.mem_map_of_mem (f := Item.outline) hitem
    rw [houtlines] at ho
    obtain ⟨entry, hentry, houtline⟩ := List.mem_filterMap.mp ho
    obtain ⟨n, rfl, hemitted, ho⟩ | ⟨s, rfl, ho⟩ := Writer.of_isReferable houtline href
    · rw [← ho] at hfqn
      exact .inl ⟨n, hentry, hemitted, hfqn⟩
    · rw [← ho] at hfqn
      exact .inr ⟨s, hentry, hfqn⟩
  · intro hwritten
    obtain ⟨entry, hentry, o, houtline, hfqn, href⟩ : ∃ entry ∈
        w.entries flavor (Plan.of d nameOf top).modules top, ∃ o, w.outline? entry = some o ∧
          o.title.fqn = fqn ∧ o.title.form.isReferable = true := by
      obtain ⟨n, hentry, hemitted, hfqn⟩ | ⟨s, hentry, hfqn⟩ := hwritten
      · exact ⟨_, hentry, _, if_pos hemitted, hfqn, by cases n <;> rfl⟩
      · exact ⟨_, hentry, _, rfl, hfqn, rfl⟩
    have ho : o ∈
        (emitNamed library table d flavor nameOf top).document.items.map Item.outline := by
      rw [houtlines]
      exact List.mem_filterMap.mpr ⟨entry, hentry, houtline⟩
    obtain ⟨item, hitem, rfl⟩ := List.mem_map.mp ho
    exact ⟨item, hitem, Item.declaresType_iff.mpr ⟨hfqn, href⟩⟩

variable {library : String} {table : Symbol.Table} {described : Description}
  {linked : Correction.Linked}

/-- A corrected library declares a type under a dotted name exactly if the name is not excluded and
a type stands in sight under it. -/
theorem declaresType_iff_of_run (hd : described.check = .ok ())
    (hrun : Correction.run library table described = .ok linked) (merged : Symbol.Table)
    (directives : Directives) (flavor : Flavor) :
    ∃ e, emit linked merged directives flavor = .ok e ∧
      ∀ fqn, (∃ item ∈ e.document.items, item.declaresType fqn = true) ↔
        directives.isBadSymbol fqn = false ∧
          Shows directives (namingOf linked.arena) linked.description.top fqn := by
  refine ⟨_, emit_of_run hrun merged directives flavor, fun fqn => ?_⟩
  have hnames := Correction.inside_name_ne_of_run hd hrun ""
  have hnamed : ∀ x ∈ linked.description.top.inside "", namingOf linked.arena x.link ≠ "" :=
    namesAll_of_run hd hrun
      (w := writerFor library merged directives (namingOf linked.arena) default) rfl
  refine declaresType_iff_shows hnamed (fun x hx hsame => ?_) flavor
  have htop := namingOf_of_run hd hrun (Namespace.mem_definitions.mpr (.inl rfl))
  rw [namingOf_of_run hd hrun (Namespace.mem_definitions.mpr (.inr hx))] at hsame
  exact Namespace.inside_path_ne hnames x hx (under_injective _ (hsame.trans htop))

end Emission

end Ambient.Declaration
