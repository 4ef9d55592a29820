import Ambient.Proofs.Declaration.Entries
import Ambient.Proofs.Declaration.Lines
import Ambient.Proofs.Declaration.Names
import Ambient.Proofs.Declaration.Plan
import Ambient.Proofs.Link.RoundTrip

/-!
# Nothing is lost, nothing is added

Whatever the flavor, the classes, interfaces and enums of the output are those of the description
that are not excluded, each written once and in the order of the description, with the members
that are kept. A node is excluded by its own dotted name or by that of a namespace around it.
-/

namespace Ambient.Declaration

open Api

/-! ## Nodes with what is around them -/

/-- A class, interface or enum, with the dotted names of the namespaces around it. -/
structure Placed where
  /-- The names from the outermost namespace inwards. -/
  around : List String
  node : TypeNode

/-- Whether neither the node nor a namespace around it is excluded. -/
def Placed.isKept (d : Directives) (nameOf : Naming) (p : Placed) : Bool :=
  !d.isBadSymbol (nameOf p.node.link) && p.around.all fun fqn => !excludes d fqn

namespace Naming

variable (nameOf : Naming)

mutual

/-- The classes, interfaces and enums of a namespace: what it declares itself, then what the
namespaces nested in it do. -/
def placed (around : List String) : Namespace → List Placed
  | ⟨scope, nested⟩ =>
    let here := around ++ [nameOf scope.link]
    scope.types.map (fun n => ⟨here, n⟩) ++ placedOf here nested

/-- The same for a list of namespaces. -/
def placedOf (around : List String) : List Namespace → List Placed
  | [] => []
  | ns :: rest => placed around ns ++ placedOf around rest

end

/-- The classes, interfaces and enums of a namespace that are not excluded. -/
def keptTypes (d : Directives) (around : List String) (ns : Namespace) : List TypeNode :=
  ((nameOf.placed around ns).filter (Placed.isKept d nameOf)).map Placed.node

variable {nameOf}

/-- The types placed in nested namespaces are gathered namespace by namespace. -/
theorem placedOf_eq (around : List String) (nested : List Namespace) :
    nameOf.placedOf around nested = nested.flatMap (nameOf.placed around) := by
  induction nested with
  | nil => rfl
  | cons ns rest ih => rw [placedOf, ih, List.flatMap_cons]

/-- The types placed in a namespace are its own, then those of the namespaces nested in it. -/
theorem placed_eq (around : List String) (ns : Namespace) :
    nameOf.placed around ns
      = ns.scope.types.map (fun n => ⟨around ++ [nameOf.nameSpace ns], n⟩)
        ++ ns.nested.flatMap (nameOf.placed (around ++ [nameOf.nameSpace ns])) := by
  obtain ⟨scope, nested⟩ := ns
  rw [placed, placedOf_eq]
  rfl

/-- A namespace stands around everything that it holds. -/
theorem mem_around_of_mem_placed {ns : Namespace} :
    ∀ {around : List String}, ∀ p ∈ nameOf.placed around ns,
      ∀ fqn ∈ around ++ [nameOf.nameSpace ns], fqn ∈ p.around := by
  induction ns using Namespace.induction with
  | step scope nested ih =>
    intro around p hp fqn hfqn
    rw [placed_eq] at hp
    obtain hp | hp := List.mem_append.mp hp
    · obtain ⟨n, _, rfl⟩ := List.mem_map.mp hp
      exact hfqn
    · obtain ⟨child, hchild, hp⟩ := List.mem_flatMap.mp hp
      exact ih child hchild p hp fqn (List.mem_append_left _ hfqn)

variable {d : Directives} {ns : Namespace} {around : List String}

/-- An excluded namespace hides everything that it holds. -/
theorem keptTypes_of_excluded (h : excludes d (nameOf.nameSpace ns) = true) :
    nameOf.keptTypes d around ns = [] := by
  have hnone : (nameOf.placed around ns).filter (Placed.isKept d nameOf) = [] := by
    refine List.filter_eq_nil_iff.mpr fun p hp hkept => ?_
    have hhere := mem_around_of_mem_placed p hp (nameOf.nameSpace ns) (by simp)
    have hall := List.all_eq_true.mp (Bool.and_eq_true_iff.mp hkept).2 _ hhere
    rw [h] at hall
    cases hall
  rw [keptTypes, hnone, List.map_nil]

/-- With a namespace that is not excluded in namespaces that are not, none of them all is. -/
theorem not_excludes_around (haround : ∀ fqn ∈ around, excludes d fqn = false)
    (h : excludes d (nameOf.nameSpace ns) = false) :
    ∀ fqn ∈ around ++ [nameOf.nameSpace ns], excludes d fqn = false := by
  intro fqn hfqn
  obtain hfqn | hfqn := List.mem_append.mp hfqn
  · exact haround fqn hfqn
  · rw [List.mem_singleton.mp hfqn]
    exact h

/-- In a namespace around which nothing is excluded, what it declares itself is judged by its own
name. -/
theorem keptTypes_of_not_excluded (haround : ∀ fqn ∈ around, excludes d fqn = false)
    (h : excludes d (nameOf.nameSpace ns) = false) :
    nameOf.keptTypes d around ns
      = ns.scope.types.filter (fun n => !d.isBadSymbol (nameOf n.link))
        ++ ns.nested.flatMap (nameOf.keptTypes d (around ++ [nameOf.nameSpace ns])) := by
  have hhere : (around ++ [nameOf.nameSpace ns]).all (fun fqn => !excludes d fqn) = true :=
    List.all_eq_true.mpr fun fqn hfqn => by rw [not_excludes_around haround h fqn hfqn]; rfl
  have hown : (Placed.isKept d nameOf ∘ fun n => ⟨around ++ [nameOf.nameSpace ns], n⟩)
      = fun n => !d.isBadSymbol (nameOf n.link) := by
    funext n
    rw [Function.comp_apply, Placed.isKept, hhere, Bool.and_true]
  rw [keptTypes, placed_eq, List.filter_append, List.map_append, List.filter_map, List.map_map,
    List.filter_flatMap, List.map_flatMap, hown]
  refine congr (congrArg HAppend.hAppend ?_) rfl
  exact List.map_id _

end Naming

/-! ## Classes, interfaces and enums among the entries -/

/-- The class, interface or enum that an entry is. -/
def Entry.aggregate? : Entry → Option TypeNode
  | .aggregate n => some n
  | _ => none

/-- Whether an outline is that of a class, interface or enum. -/
def Outline.isType (o : Outline) : Bool :=
  o.title.form = .classType || o.title.form = .interfaceType || o.title.form = .enumType

namespace Writer

variable (w : Writer)

/-- The emitted classes, interfaces and enums among entries. -/
def typeNodes (entries : List Entry) : List TypeNode :=
  (entries.filterMap Entry.aggregate?).filter fun n => w.emitted.contains (w.nameOf n.link)

variable {w}

/-- The outline of a class, interface or enum is that of a type. -/
theorem isType_typeOutline (d : Directives) (nameOf : Naming) (n : TypeNode) :
    (typeOutline d nameOf n).isType = true := by
  cases n <;> rfl

/-- The types among two runs of entries are those of the first, then those of the second. -/
theorem typeNodes_append (entries more : List Entry) :
    w.typeNodes (entries ++ more) = w.typeNodes entries ++ w.typeNodes more := by
  rw [typeNodes, List.filterMap_append, List.filter_append]
  rfl

/-- The outlines of an entry that are of a type are those of the types it is. -/
theorem filter_isType_entry (entry : Entry) :
    (w.outlines [entry]).filter Outline.isType
      = (w.typeNodes [entry]).map (typeOutline w.directives w.nameOf) := by
  cases entry with
  | constant v =>
    simp only [outlines, List.filterMap_cons, List.filterMap_nil, outline?]
    cases keepsItem w.directives ⟨w.nameOf.variableTitle .constant v, []⟩ <;> rfl
  | function f =>
    simp only [outlines, List.filterMap_cons, List.filterMap_nil, outline?]
    cases keepsItem w.directives ⟨w.nameOf.functionTitle .function f, []⟩ <;> rfl
  | nameSpace s => rfl
  | aggregate n =>
    have hnode : w.typeNodes [.aggregate n]
        = [n].filter fun n => w.emitted.contains (w.nameOf n.link) := rfl
    have houtline : w.outlines [.aggregate n] = if w.emitted.contains (w.nameOf n.link) then
        [typeOutline w.directives w.nameOf n] else [] := by
      simp only [outlines, List.filterMap_cons, List.filterMap_nil, outline?]
      cases w.emitted.contains (w.nameOf n.link) <;> rfl
    rw [hnode, houtline, List.filter_singleton]
    cases w.emitted.contains (w.nameOf n.link) with
    | false => rfl
    | true => simp [isType_typeOutline]

/-- The outlines of classes, interfaces and enums are those of the emitted ones. -/
theorem filter_isType_outlines (entries : List Entry) :
    (w.outlines entries).filter Outline.isType
      = (w.typeNodes entries).map (typeOutline w.directives w.nameOf) := by
  induction entries with
  | nil => rfl
  | cons entry rest ih =>
    rw [← List.singleton_append, outlines_append, typeNodes_append, List.filter_append,
      List.map_append, filter_isType_entry, ih]

/-- Entries that are no aggregates have no types among them. -/
theorem typeNodes_of_aggregate?_none {entries : List Entry}
    (h : ∀ entry ∈ entries, entry.aggregate? = none) : w.typeNodes entries = [] := by
  rw [typeNodes, List.filterMap_eq_nil_iff.mpr h]
  rfl

/-- The values of a scope have no types among them. -/
theorem typeNodes_valueEntries (s : Scope) : w.typeNodes (valueEntries s) = [] := by
  refine typeNodes_of_aggregate?_none fun entry hentry => ?_
  simp only [valueEntries, List.mem_append, List.mem_map] at hentry
  obtain ⟨v, _, rfl⟩ | ⟨f, _, rfl⟩ := hentry
  · rfl
  · rfl

/-- The types of a scope that are written are those with a name to be written. -/
theorem typeNodes_typeEntries (s : Scope) :
    w.typeNodes (typeEntries s) = s.types.filter fun n => w.emitted.contains (w.nameOf n.link) := by
  have hnodes : (typeEntries s).filterMap Entry.aggregate? = s.types := by
    rw [typeEntries, List.filterMap_map]
    exact List.filterMap_some
  rw [typeNodes, hnodes]

/-- The nested interfaces of a namespace have no types among them. -/
theorem typeNodes_nestedInterfaceEntries (ns : Namespace) :
    w.typeNodes (w.nestedInterfaceEntries ns) = [] := by
  refine typeNodes_of_aggregate?_none fun entry hentry => ?_
  obtain ⟨child, _, rfl⟩ := List.mem_map.mp hentry
  rfl

/-- The types among entries gathered from items are gathered item by item. -/
theorem typeNodes_flatMap {α : Type} (entries : α → List Entry) (items : List α) :
    w.typeNodes (items.flatMap entries) = items.flatMap fun a => w.typeNodes (entries a) := by
  rw [typeNodes, List.filterMap_flatMap, List.filter_flatMap]
  rfl

/-! ## Following a plan -/

/-- A writer goes by the plan for a top-level namespace. -/
structure Follows (w : Writer) (top : Namespace) : Prop where
  emitted : w.emitted = (Plan.of w.directives w.nameOf top).emitted
  interfaces : w.interfaces = (Plan.of w.directives w.nameOf top).interfaces

/-- The writer of a library goes by the plan it was made with. -/
theorem follows_writerFor (library : String) (table : Symbol.Table) (d : Directives)
    (nameOf : Naming) (top : Namespace) :
    Follows (writerFor library table d nameOf (Plan.of d nameOf top)) top :=
  ⟨rfl, rfl⟩

variable {top ns : Namespace} {around : List String} {path : String}

/-- Everything that is defined has a dotted name. -/
def NamesAll (w : Writer) (definitions : List Definition) : Prop :=
  ∀ x ∈ definitions, w.nameOf x.link ≠ ""

/-- If everything inside a namespace has a name, then so has everything in a namespace nested in it.
-/
theorem NamesAll.nested (h : w.NamesAll (ns.inside path)) {child : Namespace}
    (hchild : child ∈ ns.nested) : w.NamesAll (child.definitions (joined path child.name)) :=
  fun x hx => h x (Namespace.mem_inside.mpr (.inl ⟨child, hchild, hx⟩))

/-- If everything inside a namespace has a name, then so has each of its types. -/
theorem NamesAll.types (h : w.NamesAll (ns.inside path)) {n : TypeNode}
    (hn : n ∈ ns.scope.types) : w.nameOf n.link ≠ "" :=
  h _ (Namespace.mem_inside.mpr (.inr ⟨n, hn, rfl⟩))

/-- If a namespace and everything in it have names, then so has everything inside. -/
theorem NamesAll.inside (h : w.NamesAll (ns.definitions path)) : w.NamesAll (ns.inside path) :=
  fun x hx => h x (Namespace.mem_definitions.mpr (.inr hx))

/-- If a namespace and everything in it have names, then so has the namespace. -/
theorem NamesAll.self (h : w.NamesAll (ns.definitions path)) : w.nameOf.nameSpace ns ≠ "" :=
  h _ (Namespace.mem_definitions.mpr (.inl rfl))

namespace Follows

/-- A namespace that is met is written unless its name excludes it. -/
theorem contains_nameSpace (hw : w.Follows top) (h : Meets w.directives w.nameOf top ns) :
    w.emitted.contains (w.nameOf.nameSpace ns)
      = !excludes w.directives (w.nameOf.nameSpace ns) := by
  rw [Bool.eq_iff_iff, List.contains_iff_mem, hw.emitted, h.mem_emitted_iff, Bool.not_eq_true']

/-- In a namespace that is met, the types that are written are those that are not excluded. -/
theorem filter_types (hw : w.Follows top) (h : Meets w.directives w.nameOf top ns)
    (hns : excludes w.directives (w.nameOf.nameSpace ns) = false)
    (hnames : w.NamesAll (ns.inside path)) :
    (ns.scope.types.filter fun n => w.emitted.contains (w.nameOf n.link))
      = ns.scope.types.filter fun n => !w.directives.isBadSymbol (w.nameOf n.link) := by
  refine List.filter_congr fun n hn => ?_
  rw [Bool.eq_iff_iff, List.contains_iff_mem, hw.emitted,
    h.mem_emitted_type_iff hns hn (hnames.types hn), Bool.not_eq_true']

/-- An excluded namespace has no entries in the global tree. -/
theorem treeEntries_of_excluded (hw : w.Follows top) (h : Meets w.directives w.nameOf top ns)
    (hns : excludes w.directives (w.nameOf.nameSpace ns) = true) : w.treeEntries ns = [] := by
  rw [treeEntries_eq, hw.contains_nameSpace h, hns]
  rfl

/-- A namespace that the plan meets and that is not excluded gives its own entries, its types and
what is nested in it. -/
theorem treeEntries_of_not_excluded (hw : w.Follows top) (h : Meets w.directives w.nameOf top ns)
    (hns : excludes w.directives (w.nameOf.nameSpace ns) = false) :
    w.treeEntries ns
      = w.ownEntries ns ++ typeEntries ns.scope ++ ns.nested.flatMap w.treeEntries := by
  rw [treeEntries_eq, hw.contains_nameSpace h, hns]
  rfl

/-- An excluded namespace has no blocks. -/
theorem blockPlans_of_excluded (hw : w.Follows top) (h : Meets w.directives w.nameOf top ns)
    (hns : excludes w.directives (w.nameOf.nameSpace ns) = true) (modules : Ordered.Set String) :
    w.blockPlans modules ns = [] := by
  rw [blockPlans_eq, hw.contains_nameSpace h, hns]
  rfl

/-- A namespace that the plan meets and that is not excluded plans its own block and those of what
is nested in it. -/
theorem blockPlans_of_not_excluded (hw : w.Follows top) (h : Meets w.directives w.nameOf top ns)
    (hns : excludes w.directives (w.nameOf.nameSpace ns) = false) (modules : Ordered.Set String) :
    w.blockPlans modules ns
      = w.ownPlan modules ns ++ ns.nested.flatMap (w.blockPlans modules) := by
  rw [blockPlans_eq, hw.contains_nameSpace h, hns]
  rfl

/-- What a namespace is itself has no types among it. -/
theorem typeNodes_ownEntries (ns : Namespace) : w.typeNodes (w.ownEntries ns) = [] := by
  unfold ownEntries
  split
  · rfl
  · exact typeNodes_valueEntries ns.scope

/-- The types in a block are those of the namespace with a name to be written. -/
theorem typeNodes_blockEntries (ns : Namespace) :
    w.typeNodes (w.blockEntries ns)
      = ns.scope.types.filter fun n => w.emitted.contains (w.nameOf n.link) := by
  have hvalues : w.typeNodes
      (if w.isInterface (w.nameOf ns.scope.link) then [] else valueEntries ns.scope) = [] := by
    split
    · rfl
    · exact typeNodes_valueEntries ns.scope
  rw [blockEntries, typeNodes_append, typeNodes_append, hvalues, typeNodes_typeEntries,
    typeNodes_nestedInterfaceEntries, List.nil_append, List.append_nil]

/-- The block of a namespace has its classes, interfaces and enums that are not excluded; if there
is no block, there are none. -/
theorem typeNodes_ownPlan (hw : w.Follows top) (h : Meets w.directives w.nameOf top ns)
    (hns : excludes w.directives (w.nameOf.nameSpace ns) = false)
    (hnames : w.NamesAll (ns.definitions path)) :
    w.typeNodes ((w.ownPlan (Plan.of w.directives w.nameOf top).modules ns).flatMap Prod.snd)
      = ns.scope.types.filter fun n => !w.directives.isBadSymbol (w.nameOf n.link) := by
  rw [ownPlan]
  split
  · rw [List.flatMap_singleton, typeNodes_blockEntries, hw.filter_types h hns hnames.inside]
  · next hmodule =>
    rw [Ordered.Set.contains_iff] at hmodule
    obtain ⟨_, htypes, _⟩ := h.of_not_mem_modules hns hnames.self hmodule
    symm
    refine List.filter_eq_nil_iff.mpr fun n hn hkept => ?_
    rw [htypes n hn] at hkept
    cases hkept

/-- The global tree has the classes, interfaces and enums of a namespace that are not excluded. -/
theorem typeNodes_treeEntries (hw : w.Follows top) (ns : Namespace) :
    ∀ {path : String} {around : List String}, Meets w.directives w.nameOf top ns →
      w.NamesAll (ns.definitions path) → (∀ fqn ∈ around, excludes w.directives fqn = false) →
      w.typeNodes (w.treeEntries ns) = w.nameOf.keptTypes w.directives around ns := by
  induction ns using Namespace.induction with
  | step scope nested ih =>
    intro path around h hnames haround
    cases hns : excludes w.directives (w.nameOf.nameSpace ⟨scope, nested⟩) with
    | true =>
      rw [Naming.keptTypes_of_excluded hns, hw.treeEntries_of_excluded h hns]
      rfl
    | false =>
      rw [Naming.keptTypes_of_not_excluded haround hns, hw.treeEntries_of_not_excluded h hns,
        typeNodes_append, typeNodes_append, typeNodes_ownEntries, typeNodes_typeEntries,
        typeNodes_flatMap, List.nil_append, hw.filter_types h hns hnames.inside]
      refine congrArg (HAppend.hAppend _) (List.flatMap_congr fun child hchild => ?_)
      exact ih child hchild (h.nested hns hchild) (hnames.inside.nested hchild)
        (Naming.not_excludes_around haround hns)

/-- The blocks have the classes, interfaces and enums of a namespace that are not excluded. -/
theorem typeNodes_blockPlans (hw : w.Follows top) (ns : Namespace) :
    ∀ {path : String} {around : List String}, Meets w.directives w.nameOf top ns →
      w.NamesAll (ns.definitions path) → (∀ fqn ∈ around, excludes w.directives fqn = false) →
      w.typeNodes ((w.blockPlans (Plan.of w.directives w.nameOf top).modules ns).flatMap Prod.snd)
        = w.nameOf.keptTypes w.directives around ns := by
  induction ns using Namespace.induction with
  | step scope nested ih =>
    intro path around h hnames haround
    cases hns : excludes w.directives (w.nameOf.nameSpace ⟨scope, nested⟩) with
    | true =>
      rw [Naming.keptTypes_of_excluded hns, hw.blockPlans_of_excluded h hns]
      rfl
    | false =>
      rw [Naming.keptTypes_of_not_excluded haround hns, hw.blockPlans_of_not_excluded h hns,
        List.flatMap_append, typeNodes_append, hw.typeNodes_ownPlan h hns hnames,
        List.flatMap_assoc, typeNodes_flatMap]
      refine congrArg (HAppend.hAppend _) (List.flatMap_congr fun child hchild => ?_)
      exact ih child hchild (h.nested hns hchild) (hnames.inside.nested hchild)
        (Naming.not_excludes_around haround hns)

/-- Whatever the flavor, a document has the classes, interfaces and enums that are not excluded. -/
theorem typeNodes_entries (hw : w.Follows top) (hnames : w.NamesAll (top.inside path))
    (flavor : Flavor) :
    w.typeNodes (w.entries flavor (Plan.of w.directives w.nameOf top).modules top)
      = w.nameOf.keptTypes w.directives [] top := by
  cases htop : excludes w.directives (w.nameOf.nameSpace top) with
  | true =>
    have hemitted := emitted_of_excluded htop
    rw [← hw.emitted] at hemitted
    rw [Naming.keptTypes_of_excluded htop, typeNodes, hemitted]
    exact List.filter_eq_nil_iff.mpr fun n _ => by simp
  | false =>
    have haround : ∀ fqn ∈ [] ++ [w.nameOf.nameSpace top], excludes w.directives fqn = false :=
      Naming.not_excludes_around (by simp) htop
    rw [Naming.keptTypes_of_not_excluded (by simp) htop, ← hw.filter_types .refl htop hnames]
    cases flavor with
    | globals =>
      rw [entries_globals, typeNodes_append, typeNodes_append, typeNodes_valueEntries,
        typeNodes_typeEntries, typeNodes_flatMap, List.nil_append]
      refine congrArg (HAppend.hAppend _) (List.flatMap_congr fun child hchild => ?_)
      exact hw.typeNodes_treeEntries child (Meets.refl.nested htop hchild) (hnames.nested hchild)
        haround
    | modules =>
      rw [entries_modules, typeNodes_append, typeNodes_append, typeNodes_append,
        typeNodes_valueEntries, typeNodes_typeEntries, typeNodes_nestedInterfaceEntries,
        typeNodes_flatMap, List.nil_append, List.append_nil]
      refine congrArg (HAppend.hAppend _) (List.flatMap_congr fun child hchild => ?_)
      exact hw.typeNodes_blockPlans child (Meets.refl.nested htop hchild) (hnames.nested hchild)
        haround

end Follows

end Writer

/-! ## Emission -/

section Emission

variable {library : String} {table : Symbol.Table} {d : Description} {linked : Correction.Linked}

/-- Everything that a corrected library defines below its top level has a dotted name. -/
theorem namesAll_of_run (hd : d.check = .ok ()) (h : Correction.run library table d = .ok linked)
    {w : Writer} (hw : w.nameOf = namingOf linked.arena) :
    w.NamesAll (linked.description.top.inside "") := by
  intro x hx
  have hnames := Correction.inside_name_ne_of_run hd h ""
  rw [hw, namingOf_of_run hd h (Namespace.mem_definitions.mpr (.inr hx))]
  exact under_ne_empty (Namespace.inside_path_ne hnames x hx)

/-- A corrected library can be emitted in either flavor, whatever table and directives it is
emitted with, and every dotted name that is asked for is the one read off the links. The classes,
interfaces and enums that are declared are, one for one and in order, those around which no
namespace is excluded and which are not excluded themselves. Each declares, in order, its members
that are not excluded by their dotted name, nor by their simple name if they are methods. All that
is declared can be read in the text, where the lines of every item stand together. -/
theorem types_of_emit (hd : d.check = .ok ()) (h : Correction.run library table d = .ok linked)
    (merged : Symbol.Table) (directives : Directives) (flavor : Flavor) :
    ∃ e, emit linked merged directives flavor = .ok e ∧
      (∀ asked ∈ namedNodes linked.description.top,
        linked.arena.fqnOf asked.1 asked.2 = .ok (namingOf linked.arena asked.1)) ∧
      (e.document.items.map Item.outline).filter Outline.isType
        = ((namingOf linked.arena).keptTypes directives [] linked.description.top).map
            (typeOutline directives (namingOf linked.arena)) ∧
      e.text = Line.join e.document.lines ∧ ∀ item ∈ e.document.items, e.document.LaysOut item := by
  refine ⟨_, emit_of_run h merged directives flavor, fqnOf_namedNodes h, ?_,
    Document.text_eq_join _, fun _ => Document.laysOut_of_mem⟩
  have hfollows := Writer.follows_writerFor library merged directives (namingOf linked.arena)
    linked.description.top
  have htypes := hfollows.typeNodes_entries (namesAll_of_run hd h rfl) flavor
  rw [map_outline_emitNamed, Writer.filter_isType_outlines]
  exact congrArg (List.map (typeOutline directives (namingOf linked.arena))) htypes

/-- Directives that leave out one class and all methods of a name. -/
def sparing : Directives :=
  { Directives.empty with
    badSymbols := Ordered.Set.ofList ["lib.Hidden"]
    badMethods := Ordered.Set.ofList ["exit"] }

/-- A library whose namespace comes twice, with a class that has methods and an excluded one. -/
def repeated : Description :=
  let method (name : String) : Function :=
    { (default : Function) with kind := .functionDesc, name := name }
  .ofTop (.plain "" []
    [.plain "lib" [{ Class.plain "Widget" with methods := [method "init", method "exit"] }] [],
      .plain "lib" [.plain "Hidden", .plain "Widget"] []])

/-- Of two classes of one name both are written, in their order, and a bad method is left out. -/
theorem types_of_emit_repeated :
    repeated.check = .ok () ∧
      ∃ linked,
        Correction.run "lib" (Symbol.Table.ofDescription "lib" repeated) repeated = .ok linked ∧
        ∃ e, emit linked (.empty "") sparing .modules = .ok e ∧
          (e.document.items.map Item.outline).filter Outline.isType
            = [⟨⟨"lib.Widget", "Widget", .classType⟩, [⟨"lib.Widget.init", "init", .method⟩]⟩,
              ⟨⟨"lib.Widget", "Widget", .classType⟩, []⟩] := by
  have hvalid : repeated.check = .ok () := by decide
  have hrun : Correction.run "lib" (Symbol.Table.ofDescription "lib" repeated) repeated = .ok _ :=
    rfl
  obtain ⟨e, hemit, _, htypes, _⟩ := types_of_emit hvalid hrun (.empty "") sparing .modules
  exact ⟨hvalid, _, hrun, e, hemit, htypes.trans (by decide)⟩

end Emission

end Ambient.Declaration
