import Ambient.Proofs.Declaration.Flavors
import Ambient.Proofs.Declaration.Registry
import Ambient.Proofs.Declaration.Resolution
import Ambient.Proofs.Link.Numbering

/-!
# Namespaces that become interfaces

A namespace in sight that is empty, or that is to be an interface, is written as one: in the global
tree where it stands, in the other flavor in the block of the namespace around it. Its variables
and functions are the members of the interface. Planning decides this for a node and writing looks
it up by its dotted name, so that a namespace that shares its name with an interface may become one
as well.
-/

namespace Ambient

open Api

namespace Declaration

variable {d : Directives} {nameOf : Naming} {top ns : Namespace} {path : String}

/-! ## The namespaces below the top level -/

/-- The namespaces in sight from the top level, itself apart. -/
def seenBelow (d : Directives) (nameOf : Naming) (top : Namespace) : List Namespace :=
  (shown d nameOf top).tail

/-- Below an excluded top level no namespace is seen. -/
theorem seenBelow_of_excluded (h : excludes d (nameOf.nameSpace top) = true) :
    seenBelow d nameOf top = [] := by
  rw [seenBelow, shown_of_excluded h]
  rfl

/-- Below a top level that is not excluded, the namespaces shown are seen. -/
theorem seenBelow_of_not_excluded (h : excludes d (nameOf.nameSpace top) = false) :
    seenBelow d nameOf top = shownBelow d nameOf top := by
  rw [seenBelow, shown_of_not_excluded h]
  rfl

/-- A namespace is seen exactly if it is not excluded and is nested in one that is in sight. -/
theorem mem_seenBelow :
    ns ∈ seenBelow d nameOf top ↔
      excludes d (nameOf.nameSpace ns) = false ∧
        ∃ outer, InSight d nameOf top outer ∧ ns ∈ outer.nested := by
  cases htop : excludes d (nameOf.nameSpace top) with
  | true =>
    rw [seenBelow_of_excluded htop]
    constructor
    · intro h
      cases h
    · rintro ⟨_, outer, houter, _⟩
      exact nomatch htop.symm.trans houter.not_excluded.1
  | false =>
    rw [seenBelow_of_not_excluded htop, mem_shownBelow, exists_inSight_nested_iff htop]

/-- The namespaces nested in one that are not excluded. -/
def openNested (d : Directives) (nameOf : Naming) (ns : Namespace) : List Namespace :=
  ns.nested.filter fun child => !excludes d (nameOf.nameSpace child)

/-- The namespaces in sight are those nested in one that is in sight, in another order. -/
theorem perm_seenBelow (ns : Namespace) :
    (seenBelow d nameOf ns).Perm ((shown d nameOf ns).flatMap (openNested d nameOf)) := by
  induction ns using Namespace.induction with
  | step scope nested ih =>
    cases hns : excludes d (nameOf.nameSpace ⟨scope, nested⟩) with
    | true => rw [seenBelow_of_excluded hns, shown_of_excluded hns]; rfl
    | false =>
      have hchild (child : Namespace) (hmem : child ∈ nested) : (shown d nameOf child).Perm
          ([child].filter (fun child => !excludes d (nameOf.nameSpace child))
            ++ (shown d nameOf child).flatMap (openNested d nameOf)) := by
        cases hshown : excludes d (nameOf.nameSpace child) with
        | true => rw [shown_of_excluded hshown, List.filter_singleton, hshown]; rfl
        | false =>
          have hbelow := ih child hmem
          rw [seenBelow_of_not_excluded hshown] at hbelow
          rw [List.filter_singleton, hshown]
          conv_lhs => rw [shown_of_not_excluded hshown]
          exact hbelow.cons child
      rw [seenBelow_of_not_excluded hns, shown_of_not_excluded hns, shownBelow, List.flatMap_cons,
        List.flatMap_assoc]
      refine (List.Perm.flatMap_left nested hchild).trans ?_
      refine (List.flatMap_append_perm nested _ _).symm.trans ?_
      rw [← List.filter_flatMap, List.flatMap_singleton']
      rfl

/-- The links of the namespaces in sight are among those of the nodes, in their order. -/
theorem links_shown_sublist (ns : Namespace) :
    ∀ (owner : Option Nat) (way : List String),
      ((shown d nameOf ns).map fun inner => inner.scope.link.id).Sublist
        ((ns.nodes owner way).map fun n => n.link.id) := by
  induction ns using Namespace.induction with
  | step scope nested ih =>
    intro owner way
    cases hns : excludes d (nameOf.nameSpace ⟨scope, nested⟩) with
    | true =>
      rw [shown_of_excluded hns]
      exact List.nil_sublist _
    | false =>
      rw [shown_of_not_excluded hns, Namespace.nodes, Namespace.nodesOf_eq, List.map_cons,
        List.map_cons, List.map_append, List.map_flatMap, shownBelow, List.map_flatMap]
      have hnested := List.Sublist.flatMap_right nested fun child hchild =>
        ih child hchild scope.link.id (Node.below owner way .nameSpace scope.name scope.link).path
      exact (hnested.trans (List.sublist_append_left _ _)).cons_cons _

/-- In a linked description every namespace stands once. -/
theorem nodup_shown_attach (described : Description) :
    (shown d nameOf (Link.attach described).1.top).Nodup := by
  have hids := (Link.entered_attach described).ids
  have hnodup : ((Link.attach described).1.nodes.map fun n => n.link.id).Nodup := by
    rw [hids]
    exact List.Nodup.map (fun _ _ => Option.some.inj) List.nodup_range'
  rw [Description.nodes, List.map_cons, List.nodup_cons] at hnodup
  exact List.Nodup.of_map _ (hnodup.2.sublist (links_shown_sublist _ _ _))

/-- In a linked description no namespace is shown twice. -/
theorem nodup_shown_of_run {library : String} {table : Symbol.Table} {described : Description}
    {linked : Correction.Linked} (h : Correction.run library table described = .ok linked) :
    (shown d nameOf linked.description.top).Nodup := by
  obtain ⟨_, rfl⟩ := Correction.run_eq_ok.mp h
  exact nodup_shown_attach _

/-! ## Entries for namespaces, and for variables and functions -/

/-- Whether an outline is that of a namespace. -/
def Outline.isNameSpace (o : Outline) : Bool := o.title.form = .nameSpace

/-- Whether an outline is that of a variable or function outside of an interface. -/
def Outline.isValue (o : Outline) : Bool := o.title.form = .constant || o.title.form = .function

/-- The outlines of the variables and functions of a namespace that are declared. -/
def valueOutlines (d : Directives) (nameOf : Naming) (s : Scope) : List Outline :=
  (s.constants.map (fun v => Outline.mk (nameOf.variableTitle .constant v) [])
    ++ s.functions.map fun f => Outline.mk (nameOf.functionTitle .function f) []).filter
      (Writer.keepsItem d)

/-- Whether an entry is a namespace. -/
def Entry.isNameSpace : Entry → Bool
  | .nameSpace _ => true
  | _ => false

/-- Whether an entry is a variable or function. -/
def Entry.isValue : Entry → Bool
  | .constant _ | .function _ => true
  | _ => false

namespace Writer

variable {w : Writer}

/-- Outlines can be chosen by their entries. -/
theorem filter_outlines {ofOutline : Outline → Bool} {ofEntry : Entry → Bool}
    (h : ∀ entry o, w.outline? entry = some o → ofOutline o = ofEntry entry)
    (entries : List Entry) :
    (w.outlines entries).filter ofOutline = w.outlines (entries.filter ofEntry) := by
  rw [outlines, outlines, List.filter_filterMap, List.filterMap_filter]
  refine List.filterMap_congr fun entry _ => ?_
  cases houtline : w.outline? entry with
  | none => simp
  | some o => cases hkept : ofEntry entry <;> simp [Option.filter, h entry o houtline, hkept]

/-- What an entry is written as is a namespace exactly if the entry is. -/
theorem isNameSpace_of_outline? (entry : Entry) (o : Outline) (h : w.outline? entry = some o) :
    o.isNameSpace = entry.isNameSpace := by
  rw [Outline.isNameSpace, (w.title_of_outline? h).2]
  cases entry with
  | aggregate n => cases n <;> rfl
  | constant _ | function _ | nameSpace _ => rfl

/-- What an entry is written as is a value exactly if the entry is. -/
theorem isValue_of_outline? (entry : Entry) (o : Outline) (h : w.outline? entry = some o) :
    o.isValue = entry.isValue := by
  rw [Outline.isValue, (w.title_of_outline? h).2]
  cases entry with
  | aggregate n => cases n <;> rfl
  | constant _ | function _ | nameSpace _ => rfl

/-- The values of a scope have the outlines of its variables and functions. -/
theorem outlines_valueEntries (s : Scope) :
    w.outlines (valueEntries s) = valueOutlines w.directives w.nameOf s := by
  have hkept {α : Type} (entry : α → Entry) (outline : α → Outline)
      (h : ∀ a, w.outline? (entry a)
        = if keepsItem w.directives (outline a) then some (outline a) else none) (xs : List α) :
      (xs.map entry).filterMap w.outline? = (xs.map outline).filter (keepsItem w.directives) := by
    rw [← List.filterMap_eq_filter, List.filterMap_map, List.filterMap_map]
    exact List.filterMap_congr fun a _ => h a
  rw [outlines, valueEntries, List.filterMap_append, hkept _ _ fun _ => rfl,
    hkept _ _ fun _ => rfl, valueOutlines, List.filter_append]

/-- Namespaces written as interfaces have the outlines of these interfaces. -/
theorem outlines_map_nameSpace (list : List Namespace) :
    w.outlines (list.map fun ns => .nameSpace ns.scope)
      = list.map fun ns => nameSpaceOutline w.directives w.nameOf ns.scope := by
  rw [outlines, List.filterMap_map]
  exact congrFun List.filterMap_eq_map list

/-- The values of a scope are values, none of them a namespace. -/
theorem filter_valueEntries (s : Scope) :
    (valueEntries s).filter Entry.isNameSpace = [] ∧
      (valueEntries s).filter Entry.isValue = valueEntries s := by
  simp [valueEntries, List.filter_map, Function.comp_def, Entry.isNameSpace, Entry.isValue]

/-- The types of a scope are neither values nor namespaces. -/
theorem filter_typeEntries (s : Scope) :
    (typeEntries s).filter Entry.isNameSpace = [] ∧ (typeEntries s).filter Entry.isValue = [] := by
  simp [typeEntries, List.filter_map, Function.comp_def, Entry.isNameSpace, Entry.isValue]

/-- The nested interfaces of a namespace are namespaces, none of them a value. -/
theorem filter_nestedInterfaceEntries (ns : Namespace) :
    (w.nestedInterfaceEntries ns).filter Entry.isNameSpace = w.nestedInterfaceEntries ns ∧
      (w.nestedInterfaceEntries ns).filter Entry.isValue = [] := by
  simp [nestedInterfaceEntries, List.filter_map, Function.comp_def, Entry.isNameSpace,
    Entry.isValue]

/-- The loose entries of a namespace are values, none of them a namespace. -/
theorem filter_looseEntries (ns : Namespace) :
    (w.looseEntries ns).filter Entry.isNameSpace = [] ∧
      (w.looseEntries ns).filter Entry.isValue = w.looseEntries ns := by
  rw [looseEntries]
  split
  · exact ⟨rfl, rfl⟩
  · exact filter_valueEntries ns.scope

/-! ## The entries, namespace by namespace -/

/-- Leaving out what is not chosen, or choosing before. -/
theorem flatMap_ite {α β : Type} (chosen : α → Bool) (f : α → List β) (xs : List α) :
    (xs.flatMap fun a => if chosen a then f a else []) = (xs.filter chosen).flatMap f := by
  induction xs with
  | nil => rfl
  | cons a rest ih =>
    rw [List.flatMap_cons, ih, List.filter_cons]
    split <;> rfl

namespace Follows

variable (hw : w.Follows top)
include hw

/-- Below an excluded top level nothing is to be written. -/
theorem emitted_eq_nil (htop : excludes w.directives (w.nameOf.nameSpace top) = true) :
    w.emitted = [] :=
  hw.emitted.trans (emitted_of_excluded htop)

/-- The global tree has of a namespace what every namespace in sight from it has. -/
theorem treeEntries_eq_flatMap (ns : Namespace) :
    Meets w.directives w.nameOf top ns →
      w.treeEntries ns = (shown w.directives w.nameOf ns).flatMap fun inner =>
        w.ownEntries inner ++ typeEntries inner.scope := by
  induction ns using Namespace.induction with
  | step scope nested ih =>
    intro h
    cases hns : excludes w.directives (w.nameOf.nameSpace ⟨scope, nested⟩) with
    | true =>
      rw [hw.treeEntries_of_excluded h hns, shown_of_excluded hns]
      rfl
    | false =>
      rw [hw.treeEntries_of_not_excluded h hns, shown_of_not_excluded hns, List.flatMap_cons,
        shownBelow, List.flatMap_assoc]
      refine congrArg (HAppend.hAppend _) (List.flatMap_congr fun child hchild => ?_)
      exact ih child hchild (h.nested hns hchild)

/-- The blocks of a namespace are those of the namespaces in sight from it. -/
theorem blockPlans_eq_flatMap (modules : Ordered.Set String) (ns : Namespace) :
    Meets w.directives w.nameOf top ns →
      w.blockPlans modules ns = (shown w.directives w.nameOf ns).flatMap (w.ownPlan modules) := by
  induction ns using Namespace.induction with
  | step scope nested ih =>
    intro h
    cases hns : excludes w.directives (w.nameOf.nameSpace ⟨scope, nested⟩) with
    | true =>
      rw [hw.blockPlans_of_excluded h hns, shown_of_excluded hns]
      rfl
    | false =>
      rw [hw.blockPlans_of_not_excluded h hns, shown_of_not_excluded hns, List.flatMap_cons,
        shownBelow, List.flatMap_assoc]
      refine congrArg (HAppend.hAppend _) (List.flatMap_congr fun child hchild => ?_)
      exact ih child hchild (h.nested hns hchild)

/-- In the global tree the entries below the top level are those of the namespaces seen, one after
another. -/
theorem flatMap_treeEntries_nested :
    top.nested.flatMap w.treeEntries
      = (seenBelow w.directives w.nameOf top).flatMap fun ns =>
          w.ownEntries ns ++ typeEntries ns.scope := by
  cases htop : excludes w.directives (w.nameOf.nameSpace top) with
  | true =>
    rw [seenBelow_of_excluded htop]
    refine List.flatMap_eq_nil_iff.mpr fun child _ => ?_
    rw [treeEntries_eq, hw.emitted_eq_nil htop]
    rfl
  | false =>
    rw [seenBelow_of_not_excluded htop, shownBelow, List.flatMap_assoc]
    exact List.flatMap_congr fun child hchild =>
      hw.treeEntries_eq_flatMap child (Meets.refl.nested htop hchild)

/-- In modules the blocks are those of the namespaces seen, one after another. -/
theorem flatMap_blockPlans_nested (modules : Ordered.Set String) :
    top.nested.flatMap (w.blockPlans modules)
      = (seenBelow w.directives w.nameOf top).flatMap (w.ownPlan modules) := by
  cases htop : excludes w.directives (w.nameOf.nameSpace top) with
  | true =>
    rw [seenBelow_of_excluded htop]
    refine List.flatMap_eq_nil_iff.mpr fun child _ => ?_
    rw [blockPlans_eq, hw.emitted_eq_nil htop]
    rfl
  | false =>
    rw [seenBelow_of_not_excluded htop, shownBelow, List.flatMap_assoc]
    exact List.flatMap_congr fun child hchild =>
      hw.blockPlans_eq_flatMap modules child (Meets.refl.nested htop hchild)

end Follows

/-- What the block of a namespace has, if there is one. -/
theorem flatMap_ownPlan (modules : Ordered.Set String) (list : List Namespace) :
    (list.flatMap (w.ownPlan modules)).flatMap Prod.snd
      = (list.filter fun ns => modules.contains (w.nameOf.nameSpace ns)).flatMap
          w.blockEntries := by
  rw [List.flatMap_assoc, ← flatMap_ite]
  refine List.flatMap_congr fun ns _ => ?_
  rw [ownPlan]
  split
  · exact List.flatMap_singleton _ _
  · rfl

/-- A block has the nested interfaces of its namespace as namespaces, and its loose entries as
values. -/
theorem filter_blockEntries (ns : Namespace) :
    (w.blockEntries ns).filter Entry.isNameSpace = w.nestedInterfaceEntries ns ∧
      (w.blockEntries ns).filter Entry.isValue = w.looseEntries ns := by
  obtain ⟨hloose, hvalues⟩ := w.filter_looseEntries ns
  obtain ⟨htypes, hnone⟩ := filter_typeEntries ns.scope
  obtain ⟨hnested, hrest⟩ := w.filter_nestedInterfaceEntries ns
  have hblock : w.blockEntries ns
      = w.looseEntries ns ++ typeEntries ns.scope ++ w.nestedInterfaceEntries ns := rfl
  rw [hblock]
  simp only [List.filter_append, hloose, hvalues, htypes, hnone, hnested, hrest, List.append_nil,
    List.nil_append, and_self]

/-- In the global tree a namespace has itself as one, if it is an interface, and its loose entries
as values. -/
theorem filter_ownEntries (ns : Namespace) :
    (w.ownEntries ns ++ typeEntries ns.scope).filter Entry.isNameSpace
        = (if w.isInterface (w.nameOf.nameSpace ns) then [Entry.nameSpace ns.scope] else []) ∧
      (w.ownEntries ns ++ typeEntries ns.scope).filter Entry.isValue = w.looseEntries ns := by
  obtain ⟨hnone, hvalues⟩ := filter_valueEntries ns.scope
  obtain ⟨htypes, hrest⟩ := filter_typeEntries ns.scope
  rw [List.filter_append, List.filter_append, htypes, hrest, ownEntries, looseEntries]
  cases w.isInterface (w.nameOf.nameSpace ns) with
  | true => exact ⟨rfl, rfl⟩
  | false => simp [hnone, hvalues]

/-- Apart from what the top level holds itself, the entries are those of the global tree, or those
of the blocks and of the interfaces beside them. -/
theorem Follows.entries_eq (hw : w.Follows top) (modules : Ordered.Set String) :
    let seen := seenBelow w.directives w.nameOf top
    let own := valueEntries top.scope ++ typeEntries top.scope
    w.entries .globals modules top
        = own ++ seen.flatMap (fun ns => w.ownEntries ns ++ typeEntries ns.scope) ∧
      w.entries .modules modules top
        = own ++ w.nestedInterfaceEntries top
          ++ (seen.filter fun ns => modules.contains (w.nameOf.nameSpace ns)).flatMap
              w.blockEntries := by
  intro seen own
  rw [entries_globals, entries_modules, hw.flatMap_treeEntries_nested, ← List.flatMap_assoc,
    hw.flatMap_blockPlans_nested, flatMap_ownPlan]
  exact ⟨rfl, rfl⟩

/-! ## What is written as an interface -/

variable (w) in
/-- The namespaces that a document has as interfaces, in its order. -/
def reclassified (flavor : Flavor) (modules : Ordered.Set String) (top : Namespace) :
    List Namespace :=
  let seen := seenBelow w.directives w.nameOf top
  match flavor with
  | .globals => seen.filter fun ns => w.isInterface (w.nameOf.nameSpace ns)
  | .modules =>
    (top :: seen.filter fun ns => modules.contains (w.nameOf.nameSpace ns)).flatMap fun ns =>
      ns.nested.filter w.isEmittedInterface

namespace Follows

/-- The entries that are namespaces are the namespaces written as interfaces, in their order. -/
theorem filter_isNameSpace_entries (hw : w.Follows top) (flavor : Flavor)
    (modules : Ordered.Set String) :
    (w.entries flavor modules top).filter Entry.isNameSpace
      = (w.reclassified flavor modules top).map fun ns => .nameSpace ns.scope := by
  obtain ⟨hglobals, hmodules⟩ := hw.entries_eq modules
  have hown : (valueEntries top.scope ++ typeEntries top.scope).filter Entry.isNameSpace = [] := by
    rw [List.filter_append, (filter_valueEntries _).1, (filter_typeEntries _).1]
    rfl
  cases flavor with
  | globals =>
    rw [hglobals, List.filter_append, hown, List.nil_append, List.filter_flatMap,
      List.flatMap_congr fun ns _ => (w.filter_ownEntries ns).1, flatMap_ite, reclassified,
      List.map_eq_flatMap]
  | modules =>
    rw [hmodules, List.filter_append, List.filter_append, hown, List.nil_append,
      (w.filter_nestedInterfaceEntries top).1, List.filter_flatMap,
      List.flatMap_congr fun ns _ => (w.filter_blockEntries ns).1, reclassified,
      List.flatMap_cons, List.map_append, List.map_flatMap]
    rfl

/-- The outlines of namespaces are those of the namespaces that are written as interfaces. -/
theorem filter_isNameSpace_outlines (hw : w.Follows top) (flavor : Flavor)
    (modules : Ordered.Set String) :
    (w.outlines (w.entries flavor modules top)).filter Outline.isNameSpace
      = (w.reclassified flavor modules top).map fun ns =>
          nameSpaceOutline w.directives w.nameOf ns.scope := by
  rw [filter_outlines isNameSpace_of_outline?, hw.filter_isNameSpace_entries,
    outlines_map_nameSpace]

/-- Below an excluded top level no namespace is written as an interface. -/
theorem isEmittedInterface_eq_false_of_excluded (hw : w.Follows top)
    (htop : excludes w.directives (w.nameOf.nameSpace top) = true) (ns : Namespace) :
    w.isEmittedInterface ns = false := by
  rw [isEmittedInterface, hw.emitted_eq_nil htop]
  rfl

/-- A namespace that is written into a block stands in one that is in sight. -/
theorem exists_inSight_of_mem_reclassified (hw : w.Follows top) {modules : Ordered.Set String}
    (h : ns ∈ w.reclassified .modules modules top) :
    ∃ outer, InSight w.directives w.nameOf top outer ∧ ns ∈ outer.nested ∧
      w.isEmittedInterface ns = true := by
  obtain ⟨outer, houter, hns⟩ := List.mem_flatMap.mp h
  obtain ⟨hnested, hemitted⟩ := List.mem_filter.mp hns
  cases htop : excludes w.directives (w.nameOf.nameSpace top) with
  | true =>
    rw [hw.isEmittedInterface_eq_false_of_excluded htop] at hemitted
    cases hemitted
  | false =>
    refine ⟨outer, ?_, hnested, hemitted⟩
    obtain rfl | houter := List.mem_cons.mp houter
    · exact .self htop
    · exact mem_shown.mp (List.mem_of_mem_tail (List.mem_filter.mp houter).1)

/-- What is written as an interface is in sight and has the name of one. -/
theorem of_mem_reclassified (hw : w.Follows top) {flavor : Flavor} {modules : Ordered.Set String}
    (h : ns ∈ w.reclassified flavor modules top) :
    ns ∈ seenBelow w.directives w.nameOf top ∧ w.isEmittedInterface ns = true := by
  cases flavor with
  | globals =>
    obtain ⟨hseen, hinterface⟩ := List.mem_filter.mp h
    obtain ⟨hshown, outer, houter, hnested⟩ := mem_seenBelow.mp hseen
    exact ⟨hseen, (hw.isEmittedInterface_iff (houter.meets_nested hnested)).mpr
      ⟨hshown, hinterface⟩⟩
  | modules =>
    obtain ⟨outer, houter, hnested, hemitted⟩ := hw.exists_inSight_of_mem_reclassified h
    have hshown := ((hw.isEmittedInterface_iff (houter.meets_nested hnested)).mp hemitted).1
    exact ⟨mem_seenBelow.mpr ⟨hshown, outer, houter, hnested⟩, hemitted⟩

/-- What is nested in a namespace in sight and emitted as an interface is not excluded. -/
theorem filter_isEmittedInterface (hw : w.Follows top) {outer : Namespace}
    (houter : InSight w.directives w.nameOf top outer) :
    outer.nested.filter w.isEmittedInterface
      = (openNested w.directives w.nameOf outer).filter w.isEmittedInterface := by
  rw [openNested, List.filter_filter]
  refine List.filter_congr fun child hchild => ?_
  cases hemitted : w.isEmittedInterface child with
  | false => rfl
  | true =>
    have hmet := houter.meets_nested hchild
    rw [((hw.isEmittedInterface_iff hmet).mp hemitted).1]
    rfl

/-- No namespace is written as an interface twice. -/
theorem nodup_reclassified (hw : w.Follows top) (flavor : Flavor) (modules : Ordered.Set String)
    (hseen : (seenBelow w.directives w.nameOf top).Nodup) :
    (w.reclassified flavor modules top).Nodup := by
  cases flavor with
  | globals => exact hseen.filter _
  | modules =>
    -- Each stands in the list of what is nested in a namespace in sight, and those lists put
    -- together are the namespaces below the top level in another order.
    have hblocks : (w.reclassified .modules modules top).Sublist
        ((top :: seenBelow w.directives w.nameOf top).flatMap fun ns =>
          ns.nested.filter w.isEmittedInterface) :=
      List.Sublist.flatMap (List.filter_sublist.cons_cons top) _
    cases htop : excludes w.directives (w.nameOf.nameSpace top) with
    | true =>
      have hnone (outer : Namespace) : outer.nested.filter w.isEmittedInterface = [] :=
        List.filter_eq_nil_iff.mpr fun child _ => by
          rw [hw.isEmittedInterface_eq_false_of_excluded htop]
          exact Bool.false_ne_true
      rw [List.flatMap_eq_nil_iff.mpr fun outer _ => hnone outer] at hblocks
      exact List.nodup_nil.sublist hblocks
    | false =>
      have hshown : top :: seenBelow w.directives w.nameOf top
          = shown w.directives w.nameOf top := by
        rw [seenBelow_of_not_excluded htop, shown_of_not_excluded htop]
      rw [hshown] at hblocks
      have hopen : ((shown w.directives w.nameOf top).flatMap fun ns =>
          ns.nested.filter w.isEmittedInterface).Sublist
            ((shown w.directives w.nameOf top).flatMap (openNested w.directives w.nameOf)) := by
        refine List.Sublist.flatMap_right _ fun outer houter => ?_
        rw [hw.filter_isEmittedInterface (mem_shown.mp houter)]
        exact List.filter_sublist
      exact ((perm_seenBelow top).nodup hseen).sublist (hblocks.trans hopen)

section Named

variable (hw : w.Follows top) (hnames : w.NamesAll (top.inside path))
include hnames

omit hw in
/-- A namespace that is seen has a name. -/
theorem ne_empty_of_mem_seenBelow (hns : ns ∈ seenBelow w.directives w.nameOf top) :
    w.nameOf.nameSpace ns ≠ "" := by
  obtain ⟨_, outer, houter, hnested⟩ := mem_seenBelow.mp hns
  obtain ⟨x, hx, hname⟩ := houter.exists_definition hnested path
  exact hname ▸ hnames x hx

omit hw in
/-- A namespace that is seen is no bad symbol. -/
theorem not_bad_of_mem_seenBelow (hns : ns ∈ seenBelow w.directives w.nameOf top) :
    w.directives.isBadSymbol (w.nameOf.nameSpace ns) = false := by
  have hshown := (mem_seenBelow.mp hns).1
  simpa [excludes, ne_empty_of_mem_seenBelow hnames hns] using hshown

include hw

/-- A namespace in sight that is to be an interface, or is empty, is written as one. -/
theorem mem_reclassified_of_isInterface (flavor : Flavor)
    (hns : ns ∈ seenBelow w.directives w.nameOf top)
    (hinterface : Declaration.isInterface w.directives (w.nameOf.nameSpace ns) ns = true) :
    ns ∈ w.reclassified flavor (Plan.of w.directives w.nameOf top).modules top := by
  obtain ⟨_, outer, houter, hnested⟩ := mem_seenBelow.mp hns
  have hbad := not_bad_of_mem_seenBelow hnames hns
  have hemitted := hw.isEmittedInterface_of_isInterface hnames houter hnested hbad hinterface
  cases flavor with
  | globals =>
    have hlisted := ((hw.isEmittedInterface_iff (houter.meets_nested hnested)).mp hemitted).2
    exact List.mem_filter.mpr ⟨hns, hlisted⟩
  | modules =>
    refine List.mem_flatMap.mpr ⟨outer, ?_, List.mem_filter.mpr ⟨hnested, hemitted⟩⟩
    obtain rfl | hmodule := module_of_isInterface hnames houter hnested hbad hinterface
    · exact List.mem_cons_self
    · have hshown := mem_shown.mpr houter
      rw [shown_of_not_excluded houter.not_excluded.1,
        ← seenBelow_of_not_excluded houter.not_excluded.1] at hshown
      obtain rfl | hseen := List.mem_cons.mp hshown
      · exact List.mem_cons_self
      · exact List.mem_cons_of_mem _ (List.mem_filter.mpr ⟨hseen, hmodule⟩)

/-- Variables and functions are declared outside of interfaces in the same order in both flavors:
those of the top level, and those of the namespaces in sight that do not have the name of an
interface. -/
theorem filter_isValue_entries (flavor : Flavor) :
    (w.entries flavor (Plan.of w.directives w.nameOf top).modules top).filter Entry.isValue
      = (top :: (seenBelow w.directives w.nameOf top).filter fun ns =>
          !w.isInterface (w.nameOf.nameSpace ns)).flatMap fun ns => valueEntries ns.scope := by
  let modules := (Plan.of w.directives w.nameOf top).modules
  let seen := seenBelow w.directives w.nameOf top
  obtain ⟨hglobals, hmodules⟩ := hw.entries_eq modules
  have hown : (valueEntries top.scope ++ typeEntries top.scope).filter Entry.isValue
      = valueEntries top.scope := by
    rw [List.filter_append, (filter_valueEntries _).2, (filter_typeEntries _).2, List.append_nil]
  have hloose : (seen.filter fun ns => !w.isInterface (w.nameOf.nameSpace ns)).flatMap
      (fun ns => valueEntries ns.scope) = seen.flatMap w.looseEntries := by
    rw [← flatMap_ite]
    refine List.flatMap_congr fun ns _ => ?_
    rw [looseEntries]
    cases w.isInterface (w.nameOf.nameSpace ns) <;> rfl
  rw [List.flatMap_cons, hloose]
  cases flavor with
  | globals =>
    rw [hglobals, List.filter_append, hown, List.filter_flatMap,
      List.flatMap_congr fun ns _ => (w.filter_ownEntries ns).2]
  | modules =>
    -- A namespace without a block has neither variables nor functions to declare.
    have hblocks : (seen.filter fun ns => modules.contains (w.nameOf.nameSpace ns)).flatMap
        w.looseEntries = seen.flatMap w.looseEntries := by
      rw [← flatMap_ite]
      refine List.flatMap_congr fun ns hns => ?_
      split
      · rfl
      · next hmodule =>
        rw [Ordered.Set.contains_iff] at hmodule
        obtain ⟨hshown, outer, houter, hnested⟩ := mem_seenBelow.mp hns
        exact (hw.looseEntries_eq_nil (houter.meets_nested hnested) hshown
          (ne_empty_of_mem_seenBelow hnames hns) hmodule).symm
    rw [hmodules, List.filter_append, List.filter_append, hown,
      (w.filter_nestedInterfaceEntries top).2, List.append_nil, List.filter_flatMap,
      List.flatMap_congr fun ns _ => (w.filter_blockEntries ns).2, hblocks]

/-- Where dotted names are distinct, a namespace in sight has the name of an interface only if it is
to be one, or is empty. -/
theorem isInterface_eq_of_nodup
    (hunique : (w.nameOf.ofDefinitions (top.definitions path)).Nodup)
    (hns : ns ∈ seenBelow w.directives w.nameOf top) :
    w.isInterface (w.nameOf.nameSpace ns)
      = Declaration.isInterface w.directives (w.nameOf.nameSpace ns) ns := by
  obtain ⟨hshown, outer, houter, hnested⟩ := mem_seenBelow.mp hns
  have hmet := houter.meets_nested hnested
  rw [Bool.eq_iff_iff]
  constructor
  · intro hlisted
    have hemitted := (hw.isEmittedInterface_iff hmet).mpr ⟨hshown, hlisted⟩
    exact (Bool.and_eq_true_iff.mp (hw.isNestedInterface hunique hmet hemitted)).2
  · intro hinterface
    have hemitted := hw.isEmittedInterface_of_isInterface hnames houter hnested
      (not_bad_of_mem_seenBelow hnames hns) hinterface
    exact ((hw.isEmittedInterface_iff hmet).mp hemitted).2

/-- Where dotted names are distinct, the variables and functions that are declared outside of
interfaces are those of the top level, and of the namespaces in sight that do not become one. -/
theorem filter_isValue_outlines
    (hunique : (w.nameOf.ofDefinitions (top.definitions path)).Nodup) (flavor : Flavor) :
    (w.outlines (w.entries flavor (Plan.of w.directives w.nameOf top).modules top)).filter
        Outline.isValue
      = (top :: (seenBelow w.directives w.nameOf top).filter fun ns =>
          !Declaration.isInterface w.directives (w.nameOf.nameSpace ns) ns).flatMap fun ns =>
            valueOutlines w.directives w.nameOf ns.scope := by
  rw [filter_outlines isValue_of_outline?, hw.filter_isValue_entries hnames,
    List.filter_congr fun ns hns => congrArg not (hw.isInterface_eq_of_nodup hnames hunique hns),
    outlines, List.filterMap_flatMap]
  exact List.flatMap_congr fun ns _ => outlines_valueEntries ns.scope

end Named

end Follows

end Writer

end Declaration

namespace Library

open Declaration

variable {primary : Library} {dependencies : List Library} {isStrict : Bool} {p : Prepared}

/-- In either flavor, the namespaces below the top level that are in sight and are to be interfaces,
or are empty, are written as interfaces, each once, with their variables and functions as members.
Others are written as interfaces only if they share their name with such a namespace; without
collisions there are none, and the variables and functions declared outside of interfaces are those
of the other namespaces. Either way the classes, interfaces and enums of all namespaces in sight are
declared. -/
theorem reclassified_once (hd : primary.description.check = .ok ())
    (hp : primary.prepare dependencies isStrict = .ok p) (flavor : Flavor) :
    let d := p.directives
    let nameOf := namingOf p.linked.arena
    let top := p.linked.description.top
    let seen := seenBelow d nameOf top
    let becomes (ns : Namespace) : Bool := isInterface d (nameOf.nameSpace ns) ns
    (seen.Nodup ∧ ∀ ns, ns ∈ seen ↔ d.isBadSymbol (nameOf.nameSpace ns) = false ∧
      ∃ outer, InSight d nameOf top outer ∧ ns ∈ outer.nested) ∧
    ∃ e, p.emit flavor = .ok e ∧
      let outlines := e.document.items.map Item.outline
      (∃ written : List Namespace, written.Nodup ∧ seen.filter becomes ⊆ written ∧
        written ⊆ seen ∧
        outlines.filter Outline.isNameSpace
          = written.map (fun ns => nameSpaceOutline d nameOf ns.scope) ∧
        (primary.table.ensureNoCollisions = .ok () → written ⊆ seen.filter becomes)) ∧
      (primary.table.ensureNoCollisions = .ok () →
        outlines.filter Outline.isValue
          = (top :: seen.filter fun ns => !becomes ns).flatMap fun ns =>
              valueOutlines d nameOf ns.scope) ∧
      ∀ ns ∈ seen, ∀ n ∈ ns.scope.types, d.isBadSymbol (nameOf n.link) = false →
        typeOutline d nameOf n ∈ outlines := by
  intro d nameOf top seen becomes
  have hrun := (of_prepare hp).1
  let w := writerFor primary.name p.table d nameOf (Plan.of d nameOf top)
  have hfollows : w.Follows top := Writer.follows_writerFor ..
  have hnames : w.NamesAll (top.inside "") := namesAll_of_run hd hrun rfl
  have hnodup : seen.Nodup := (nodup_shown_of_run hrun).tail
  have houtlines := map_outline_emitNamed primary.name p.table d flavor nameOf top
  refine ⟨⟨hnodup, fun ns => ?_⟩, _, emit_of_run hrun p.table d flavor, ?_, fun hclear => ?_, ?_⟩
  · constructor
    · intro hns
      exact ⟨Writer.Follows.not_bad_of_mem_seenBelow hnames hns, (mem_seenBelow.mp hns).2⟩
    · rintro ⟨hbad, houter⟩
      exact mem_seenBelow.mpr ⟨by rw [excludes, hbad, Bool.and_false], houter⟩
  · refine ⟨_, hfollows.nodup_reclassified flavor _ hnodup, fun ns hns => ?_,
      fun ns hns => (hfollows.of_mem_reclassified hns).1,
      (congrArg _ houtlines).trans (hfollows.filter_isNameSpace_outlines flavor _),
      fun hclear ns hns => ?_⟩
    · obtain ⟨hseen, hbecomes⟩ := List.mem_filter.mp hns
      exact hfollows.mem_reclassified_of_isInterface hnames flavor hseen hbecomes
    · obtain ⟨hseen, hemitted⟩ := hfollows.of_mem_reclassified hns
      -- Without collisions the name tells the namespace, so one that is written is to be an
      -- interface itself.
      have hunique := nodup_names hd hclear hrun
      have hlisted := hfollows.isInterface_eq_of_nodup hnames hunique hseen
      exact List.mem_filter.mpr ⟨hseen, hlisted.symm.trans (Bool.and_eq_true_iff.mp hemitted).2⟩
  · have hunique := nodup_names hd hclear hrun
    exact (congrArg _ houtlines).trans (hfollows.filter_isValue_outlines hnames hunique flavor)
  · intro ns hns n hn hbad
    have hsight : InSight d nameOf top ns := mem_shown.mp (List.mem_of_mem_tail hns)
    have hentry := (hfollows.aggregate_mem_entries_iff hnames flavor n).mpr ⟨hbad, ns, hsight, hn⟩
    rw [houtlines]
    exact List.mem_filterMap.mpr ⟨_, hentry.1, if_pos hentry.2⟩

/-- A library with a namespace that is to be an interface, one that is empty although it is to be
none, and one that is left empty since its only class is restricted. -/
def reclassifying : Library :=
  let util : Scope :=
    { (default : Scope) with
      kind := .nameSpace, name := "util", classes := [.plain "Reader"]
      constants := [{ (default : Variable) with kind := .variableDesc, name := "limit" }]
      functions := [{ (default : Function) with kind := .functionDesc, name := "format" }] }
  let text : Scope :=
    { (default : Scope) with
      kind := .nameSpace, name := "text"
      functions := [{ (default : Function) with kind := .functionDesc, name := "trim" }] }
  { name := "app"
    description := .ofTop (.plain "" [] [⟨util, [⟨text, []⟩]⟩, .plain "ui" [.plain "Panel"]
      [.plain "none" [] [],
        .plain "hidden" [{ Class.plain "Widget" with visibility := some .restricted }] []]])
    directives := { Directives.empty with
      interfaceNamespaces := .ofListLast [("util", true), ("ui.none", false)] } }

/-- Three namespaces are written as interfaces, in either flavor; the function of another one and
the type in one of them are still written on their own. -/
theorem reclassified_once_reclassifying :
    reclassifying.description.check = .ok () ∧
      ∃ p, reclassifying.prepare [] true = .ok p ∧
        ∀ flavor, ∃ e, p.emit flavor = .ok e ∧
          ((e.document.items.map Item.outline).filter Outline.isNameSpace).Perm
            [⟨⟨"util", "util", .nameSpace⟩,
                [⟨"util.limit", "limit", .property⟩, ⟨"util.format", "format", .method⟩]⟩,
              ⟨⟨"ui.none", "none", .nameSpace⟩, []⟩, ⟨⟨"ui.hidden", "hidden", .nameSpace⟩, []⟩] ∧
          (e.document.items.map Item.outline).filter Outline.isValue
            = [⟨⟨"util.text.trim", "trim", .function⟩, []⟩] ∧
          ⟨⟨"util.Reader", "Reader", .classType⟩, []⟩ ∈ e.document.items.map Item.outline := by
  have hvalid : reclassifying.description.check = .ok () := by decide
  have hclear : reclassifying.table.ensureNoCollisions = .ok () := by decide
  have hp : reclassifying.prepare [] true = .ok _ := rfl
  refine ⟨hvalid, _, hp, fun flavor => ?_⟩
  obtain ⟨⟨hnodup, _⟩, e, hemit, ⟨written, honce, hown, _, hwritten, hothers⟩, hvalues, htypes⟩ :=
    reclassified_once hvalid hp flavor
  have hsame := (List.perm_ext_iff_of_nodup honce (hnodup.filter _)).mpr fun _ =>
    ⟨fun h => hothers hclear h, fun h => hown h⟩
  refine ⟨e, hemit, ?_, (hvalues hclear).trans (by decide +kernel), ?_⟩
  · rw [hwritten]
    exact (hsame.map _).trans (List.Perm.of_eq (by decide +kernel))
  · exact htypes _ (.head _) _ (.head _) rfl

end Library

end Ambient
