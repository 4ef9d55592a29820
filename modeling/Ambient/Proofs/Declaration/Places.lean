import Ambient.Proofs.Declaration.Flavors

/-!
# Where types are declared

Classes, interfaces, enums, and interfaces made from namespaces can be referred to as types. With
module blocks, each of them is declared at the place of the namespace around it: beside the blocks
for the top level, and otherwise in the block of that namespace. The block is never missing.
-/

namespace Ambient.Declaration

open Api

/-- Whether what is declared in a form can be referred to as a type. -/
def Form.isReferable : Form → Bool
  | .classType => true
  | .interfaceType => true
  | .enumType => true
  | .nameSpace => true
  | _ => false

/-- Whether an item declares a type under a dotted name: a class, interface or enum, or an
interface made from a namespace. -/
def Item.declaresType (fqn : String) : Item → Bool
  | .aggregate head _ _ => head.fqn == fqn
  | _ => false

/-- An item declares a type exactly if its outline has the dotted name and a form that can be
referred to. -/
theorem Item.declaresType_iff {fqn : String} {item : Item} :
    item.declaresType fqn = true ↔
      item.outline.title.fqn = fqn ∧ item.outline.title.form.isReferable = true := by
  cases item with
  | constant head type => simp [declaresType, outline, Form.isReferable]
  | function head signature => simp [declaresType, outline, Form.isReferable]
  | aggregate head header members =>
    have hheader : header.form.isReferable = true := by cases header <;> rfl
    simp [declaresType, outline, hheader]

/-- The names in the head of an item are those of its outline. -/
theorem Item.head_eq (item : Item) :
    item.head.fqn = item.outline.title.fqn ∧ item.head.name = item.outline.title.name := by
  cases item <;> exact ⟨rfl, rfl⟩

namespace Writer

variable {w : Writer} {top ns : Namespace} {path fqn : String} {o : Outline}

/-! ## The place of a namespace -/

/-- The types that are declared at the place of a namespace. -/
def declaredTypes (w : Writer) (ns : Namespace) : List Outline :=
  (w.outlines (w.blockEntries ns)).filter fun o => o.title.form.isReferable

/-- Among the entries of a block is each class, interface and enum of its namespace. -/
theorem aggregate_mem_blockEntries {n : TypeNode} :
    .aggregate n ∈ w.blockEntries ns ↔ n ∈ ns.scope.types := by
  have hvalues : .aggregate n ∉ valueEntries ns.scope := by simp [valueEntries]
  rw [blockEntries]
  split <;> simp [typeEntries, nestedInterfaceEntries, hvalues]

/-- Among the entries of a block is each interface made of a namespace nested in its own. -/
theorem nameSpace_mem_blockEntries {s : Scope} :
    .nameSpace s ∈ w.blockEntries ns ↔
      ∃ child ∈ ns.nested, w.isEmittedInterface child = true ∧ child.scope = s := by
  have hvalues : .nameSpace s ∉ valueEntries ns.scope := by simp [valueEntries]
  rw [blockEntries]
  split <;> simp [typeEntries, nestedInterfaceEntries, hvalues, and_assoc]

/-- Among what is written, the emitted classes, interfaces and enums can be referred to as types,
and the interfaces made from namespaces. -/
theorem of_isReferable {entry : Entry} (h : w.outline? entry = some o)
    (href : o.title.form.isReferable = true) :
    (∃ n, entry = .aggregate n ∧ w.emitted.contains (w.nameOf n.link) = true ∧
        typeOutline w.directives w.nameOf n = o) ∨
      ∃ s, entry = .nameSpace s ∧ nameSpaceOutline w.directives w.nameOf s = o := by
  cases entry with
  | constant v =>
    rw [outline?] at h
    split at h
    · cases h
      cases href
    · cases h
  | function f =>
    rw [outline?] at h
    split at h
    · cases h
      cases href
    · cases h
  | aggregate n =>
    rw [outline?] at h
    split at h
    · next hemitted => exact .inl ⟨n, rfl, hemitted, Option.some.inj h⟩
    · cases h
  | nameSpace s => exact .inr ⟨s, rfl, Option.some.inj h⟩

/-- At the place of a namespace, these are its emitted classes, interfaces and enums, and the
emitted interfaces made from the namespaces nested in it. -/
theorem mem_declaredTypes :
    o ∈ w.declaredTypes ns ↔
      (∃ n ∈ ns.scope.types, w.emitted.contains (w.nameOf n.link) = true ∧
        typeOutline w.directives w.nameOf n = o) ∨
      ∃ child ∈ ns.nested, w.isEmittedInterface child = true ∧
        nameSpaceOutline w.directives w.nameOf child.scope = o := by
  rw [declaredTypes, List.mem_filter, outlines, List.mem_filterMap]
  constructor
  · rintro ⟨⟨entry, hentry, houtline⟩, href⟩
    obtain ⟨n, rfl, hemitted, ho⟩ | ⟨s, rfl, ho⟩ := of_isReferable houtline href
    · exact .inl ⟨n, aggregate_mem_blockEntries.mp hentry, hemitted, ho⟩
    · obtain ⟨child, hchild, hinterface, rfl⟩ := nameSpace_mem_blockEntries.mp hentry
      exact .inr ⟨child, hchild, hinterface, ho⟩
  · rintro (⟨n, hn, hemitted, rfl⟩ | ⟨child, hchild, hinterface, rfl⟩)
    · refine ⟨⟨.aggregate n, aggregate_mem_blockEntries.mpr hn, if_pos hemitted⟩, ?_⟩
      cases n <;> rfl
    · exact ⟨⟨.nameSpace child.scope,
        nameSpace_mem_blockEntries.mpr ⟨child, hchild, hinterface, rfl⟩, rfl⟩, rfl⟩

/-! ## The places of a document -/

namespace Follows

/-- The blocks for a namespace are those of the emitted namespaces that are met from it. -/
theorem mem_blockPlans_iff (hw : w.Follows top) (ns : Namespace) {modules : Ordered.Set String}
    {plan : String × List Entry} :
    Meets w.directives w.nameOf top ns → (plan ∈ w.blockPlans modules ns ↔
      ∃ fqn inner, .emitted fqn inner ∈ visits w.directives w.nameOf ns ∧
        plan ∈ w.ownPlan modules inner) := by
  induction ns using Namespace.induction with
  | step scope nested ih =>
    intro h
    cases hns : excludes w.directives (w.nameOf.nameSpace ⟨scope, nested⟩) with
    | true =>
      rw [hw.blockPlans_of_excluded h hns, visits_of_excluded hns]
      simp
    | false =>
      rw [hw.blockPlans_of_not_excluded h hns, visits_of_not_excluded hns, List.mem_append,
        List.mem_flatMap]
      constructor
      · rintro (hplan | ⟨child, hchild, hplan⟩)
        · exact ⟨_, _, List.mem_cons_self, hplan⟩
        · obtain ⟨fqn, inner, hinner, hplan⟩ := (ih child hchild (h.nested hns hchild)).mp hplan
          have hmet := List.mem_flatMap.mpr ⟨child, hchild, hinner⟩
          exact ⟨fqn, inner, List.mem_cons_of_mem _ hmet, hplan⟩
      · rintro ⟨fqn, inner, hinner, hplan⟩
        obtain hinner | hinner := List.mem_cons.mp hinner
        · cases hinner
          exact .inl hplan
        · obtain ⟨child, hchild, hinner⟩ := List.mem_flatMap.mp hinner
          exact .inr ⟨child, hchild,
            (ih child hchild (h.nested hns hchild)).mpr ⟨fqn, inner, hinner, hplan⟩⟩

/-- A top level without a name has its place beside the blocks. -/
theorem scriptPlan_eq (hw : w.Follows top) (htop : w.nameOf.nameSpace top = "")
    (modules : Ordered.Set String) :
    (w.documentPlan .modules modules top).1 = w.blockEntries top := by
  have hnot : w.isInterface (w.nameOf.nameSpace top) = false := by
    rw [Bool.eq_false_iff, Ne, isInterface, List.contains_iff_mem, hw.interfaces, mem_interfaces]
    exact fun h => h.1 htop
  rw [blockEntries, show w.isInterface (w.nameOf top.scope.link) = false from hnot]
  rfl

/-- The blocks planned are those of the namespaces nested in the top level. -/
theorem mem_blocksPlan {modules : Ordered.Set String} {plan : String × List Entry} :
    plan ∈ (w.documentPlan .modules modules top).2 ↔
      ∃ child ∈ top.nested, plan ∈ w.blockPlans modules child := by
  rw [← List.mem_flatMap, ← blockPlansOf_eq]
  rfl

section Unnamed

variable (hw : w.Follows top) (htop : w.nameOf.nameSpace top = "")
  (hunique : (w.nameOf.ofDefinitions (top.definitions path)).Nodup)
  (hnames : w.NamesAll (top.inside path))
include hw htop hunique hnames

/-- A type is declared beside the blocks, if it is one of the top level, or else in the block of
the namespace around it. -/
theorem place_of_mem_declaredTypes
    (h : .emitted fqn ns ∈ visits w.directives w.nameOf top) (ho : o ∈ w.declaredTypes ns) :
    let plan := w.documentPlan .modules (Plan.of w.directives w.nameOf top).modules top
    (ns = top ∧ o ∈ w.outlines plan.1) ∨ (w.nameOf.nameSpace ns, w.blockEntries ns) ∈ plan.2 := by
  intro plan
  have houtline : o ∈ w.outlines (w.blockEntries ns) := (List.mem_filter.mp ho).1
  have hshown := not_excludes_unnamed (d := w.directives) htop
  have hmeets := Meets.of_mem_visits h
  obtain ⟨hname, hns⟩ := of_mem_visits h
  rw [visits_of_not_excluded hshown] at h
  obtain h | h := List.mem_cons.mp h
  · cases h
    exact .inl ⟨rfl, by rwa [hw.scriptPlan_eq htop]⟩
  · right
    obtain ⟨child, hchild, h⟩ := List.mem_flatMap.mp h
    obtain ⟨here, hhere⟩ := exists_definitions_subset h (joined path child.name)
    have hnamed : w.NamesAll (ns.definitions here) := fun x hx =>
      hnames.nested hchild x (hhere x hx)
    refine mem_blocksPlan.mpr ⟨child, hchild,
      (hw.mem_blockPlans_iff child (Meets.refl.nested hshown hchild)).mpr ⟨fqn, ns, h, ?_⟩⟩
    rw [ownPlan]
    split
    · exact List.mem_singleton_self _
    · next hmodule =>
      rw [Ordered.Set.contains_iff] at hmodule
      have hnone := hw.live_blockEntries_eq_nil hunique hmeets (hname ▸ hns) hnamed hmodule
      rw [← (of_live (w.blockEntries ns)).1, hnone] at houtline
      cases houtline

/-- With module blocks, the types that are declared are those of the places of emitted
namespaces. -/
theorem mem_outlines_modules (href : o.title.form.isReferable = true) :
    o ∈ w.outlines (w.entries .modules (Plan.of w.directives w.nameOf top).modules top) ↔
      ∃ fqn ns, .emitted fqn ns ∈ visits w.directives w.nameOf top ∧ o ∈ w.declaredTypes ns := by
  have hshown := not_excludes_unnamed (d := w.directives) htop
  have hmem (ns : Namespace) : o ∈ w.declaredTypes ns ↔ o ∈ w.outlines (w.blockEntries ns) := by
    rw [declaredTypes, List.mem_filter, href, and_iff_left rfl]
  rw [entries, outlines_append, List.mem_append]
  constructor
  · rintro (ho | ho)
    · rw [hw.scriptPlan_eq htop] at ho
      exact ⟨_, top, Meets.refl.self hshown, (hmem top).mpr ho⟩
    · obtain ⟨entry, hentry, houtline⟩ := List.mem_filterMap.mp ho
      obtain ⟨plan, hplan, hentry⟩ := List.mem_flatMap.mp hentry
      obtain ⟨child, hchild, hplan⟩ := mem_blocksPlan.mp hplan
      have hmeets : Meets w.directives w.nameOf top child := Meets.refl.nested hshown hchild
      obtain ⟨fqn, inner, hinner, hown⟩ := (hw.mem_blockPlans_iff child hmeets).mp hplan
      refine ⟨fqn, inner, hmeets _ hinner, (hmem inner).mpr ?_⟩
      rw [ownPlan] at hown
      split at hown
      · obtain rfl := List.mem_singleton.mp hown
        exact List.mem_filterMap.mpr ⟨entry, hentry, houtline⟩
      · cases hown
  · rintro ⟨fqn, ns, hvisit, ho⟩
    obtain ⟨_, ho⟩ | hplan := hw.place_of_mem_declaredTypes htop hunique hnames hvisit ho
    · exact .inl ho
    · obtain ⟨entry, hentry, houtline⟩ := List.mem_filterMap.mp ((hmem ns).mp ho)
      exact .inr (List.mem_filterMap.mpr
        ⟨entry, List.mem_flatMap.mpr ⟨_, hplan, hentry⟩, houtline⟩)

/-- The types that are declared do not depend on the flavor. -/
theorem mem_outlines_entries (flavor : Flavor) (href : o.title.form.isReferable = true) :
    o ∈ w.outlines (w.entries flavor (Plan.of w.directives w.nameOf top).modules top) ↔
      ∃ fqn ns, .emitted fqn ns ∈ visits w.directives w.nameOf top ∧ o ∈ w.declaredTypes ns := by
  rw [← hw.mem_outlines_modules htop hunique hnames href]
  cases flavor with
  | modules => rfl
  | globals => exact (perm_of_live (hw.perm_live_entries hunique hnames)).1.mem_iff.symm

end Unnamed

end Follows

end Writer

/-! ## Emission -/

section Emission

variable {library : String} {table : Symbol.Table} {d : Directives} {nameOf : Naming}
  {top : Namespace} {path : String}

/-- Whatever the flavor, the types that the output declares are those that are declared at the
places of emitted namespaces. -/
theorem declaresType_emitNamed_iff (htop : nameOf.nameSpace top = "")
    (hunique : (nameOf.ofDefinitions (top.definitions path)).Nodup)
    (hnames : ∀ x ∈ top.inside path, nameOf x.link ≠ "") (flavor : Flavor) {fqn : String} :
    (∃ item ∈ (emitNamed library table d flavor nameOf top).document.items,
        item.declaresType fqn = true) ↔
      ∃ name ns, .emitted name ns ∈ visits d nameOf top ∧
        ∃ o ∈ (writerFor library table d nameOf (Plan.of d nameOf top)).declaredTypes ns,
          o.title.fqn = fqn := by
  have hfollows := Writer.follows_writerFor library table d nameOf top
  have hentries (o : Outline) (href : o.title.form.isReferable = true) :=
    hfollows.mem_outlines_entries htop hunique hnames flavor href
  have houtlines := map_outline_emitNamed library table d flavor nameOf top
  constructor
  · rintro ⟨item, hitem, hdeclares⟩
    obtain ⟨hfqn, href⟩ := Item.declaresType_iff.mp hdeclares
    have ho : item.outline ∈
        (emitNamed library table d flavor nameOf top).document.items.map Item.outline :=
      List.mem_map_of_mem hitem
    rw [houtlines] at ho
    obtain ⟨name, ns, hvisit, ho⟩ := (hentries _ href).mp ho
    exact ⟨name, ns, hvisit, _, ho, hfqn⟩
  · rintro ⟨name, ns, hvisit, o, ho, hfqn⟩
    have href : o.title.form.isReferable = true := (List.mem_filter.mp ho).2
    have hmem : o ∈
        (emitNamed library table d flavor nameOf top).document.items.map Item.outline := by
      rw [houtlines]
      exact (hentries o href).mpr ⟨name, ns, hvisit, ho⟩
    obtain ⟨item, hitem, rfl⟩ := List.mem_map.mp hmem
    exact ⟨item, hitem, Item.declaresType_iff.mpr ⟨hfqn, href⟩⟩

/-- With module blocks, the output has a type that is declared at the place of a namespace at
script level, if that is the top level, and otherwise in a block of the namespace's name. -/
theorem exists_item_emitNamed (htop : nameOf.nameSpace top = "")
    (hunique : (nameOf.ofDefinitions (top.definitions path)).Nodup)
    (hnames : ∀ x ∈ top.inside path, nameOf x.link ≠ "") {name : String} {ns : Namespace}
    (h : .emitted name ns ∈ visits d nameOf top) {o : Outline}
    (ho : o ∈ (writerFor library table d nameOf (Plan.of d nameOf top)).declaredTypes ns) :
    let document := (emitNamed library table d .modules nameOf top).document
    (ns = top ∧ ∃ item ∈ Tree.itemsOf document.script, item.outline = o) ∨
      ∃ block ∈ document.blocks, block.fqn = nameOf.nameSpace ns ∧
        ∃ item ∈ block.items, item.outline = o := by
  intro document
  let w := writerFor library table d nameOf (Plan.of d nameOf top)
  have hfollows : w.Follows top := Writer.follows_writerFor library table d nameOf top
  let plan := w.documentPlan .modules (Plan.of d nameOf top).modules top
  have hdocument := documentOutline_emitNamed library table d .modules nameOf top
  have hscript : (Tree.itemsOf document.script).map Item.outline = w.outlines plan.1 :=
    congrArg Prod.fst hdocument
  have hblocks : document.blocks.map Writer.blockOutline = w.planOutlines plan.2 :=
    congrArg Prod.snd hdocument
  obtain ⟨hns, hmem⟩ | hplan := hfollows.place_of_mem_declaredTypes htop hunique hnames h ho
  · have hitem : o ∈ (Tree.itemsOf document.script).map Item.outline := by
      rw [hscript]
      exact hmem
    exact .inl ⟨hns, List.mem_map.mp hitem⟩
  · have hblock : (nameOf.nameSpace ns, w.outlines (w.blockEntries ns))
        ∈ document.blocks.map Writer.blockOutline := by
      rw [hblocks]
      exact List.mem_map.mpr ⟨_, hplan, rfl⟩
    obtain ⟨block, hblock, hsame⟩ := List.mem_map.mp hblock
    have hitem : o ∈ block.items.map Item.outline := by
      have hitems : block.items.map Item.outline = w.outlines (w.blockEntries ns) :=
        congrArg Prod.snd hsame
      rw [hitems]
      exact (List.mem_filter.mp ho).1
    exact .inr ⟨block, hblock, congrArg Prod.fst hsame, List.mem_map.mp hitem⟩

end Emission

end Ambient.Declaration
