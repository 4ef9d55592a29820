import Ambient.Proofs.Declaration.Heritage

/-!
# Declared names

A variable or function is declared only if its name can be; otherwise there is a warning instead.
The names of classes, interfaces, enums and namespaces are written as they are. Which names a
document declares can be told from the description, so the document has only names that can be
declared exactly if those of the types and namespaces in sight can be.
-/

namespace Ambient

open Identifier (isBinding)

namespace Declaration

open Api

/-- The link of what an entry is for. -/
def Entry.link : Entry → Link
  | .constant v => v.link
  | .function f => f.link
  | .aggregate n => n.link
  | .nameSpace s => s.link

/-- The warning that a variable or function is skipped for its name. -/
def notBinding (fqn name : String) : Warning :=
  ⟨.excluded, "`" ++ fqn ++ "` skipped: `" ++ name ++ "` is not a valid binding name"⟩

/-! ## Names in documents -/

/-- The name that a part of a document declares. -/
def Part.declaredName : Part Item → String
  | .one item => item.head.name
  | .block name => name

/-- The names that the declarations of a document give, that of the registry included. -/
def Document.declaredNames (d : Document) : List String :=
  d.located.map (fun located => located.2.declaredName)
    ++ if d.registry.isEmpty then [] else [Correction.moduleNamesInterface]

/-- A document declares the names of its items and of its blocks, and that of the registry if it has
one. -/
theorem Document.mem_declaredNames {d : Document} {name : String} :
    name ∈ d.declaredNames ↔ (∃ item ∈ d.items, item.head.name = name) ∨
      (∃ around, (around, .block name) ∈ d.located) ∨
      (d.registry ≠ [] ∧ name = Correction.moduleNamesInterface) := by
  have hlocated : name ∈ d.located.map (fun located => located.2.declaredName) ↔
      (∃ item ∈ d.items, item.head.name = name) ∨ ∃ around, (around, .block name) ∈ d.located := by
    rw [← d.ones_located, List.mem_map]
    constructor
    · rintro ⟨⟨around, part⟩, hpart, rfl⟩
      cases part with
      | one item => exact .inl ⟨item, List.mem_filterMap.mpr ⟨_, hpart, rfl⟩, rfl⟩
      | block name => exact .inr ⟨around, hpart⟩
    · rintro (⟨item, hitem, rfl⟩ | ⟨around, hblock⟩)
      · obtain ⟨⟨around, part⟩, hpart, hone⟩ := List.mem_filterMap.mp hitem
        cases part with
        | one other =>
          obtain rfl := Option.some.inj hone
          exact ⟨_, hpart, rfl⟩
        | block name => cases hone
      · exact ⟨_, hblock, rfl⟩
  rw [declaredNames, List.mem_append, hlocated, or_assoc]
  refine or_congr_right (or_congr_right ?_)
  cases d.registry <;> simp

namespace Writer

variable (w : Writer)

/-- The outlines of items, which are the same on every page. -/
def outlineView : View w Outline where
  admits _ := True
  observe := Item.outline
  value := w.outline?
  answer entry page _ := (w.writes_entry entry).answer page
  keeps _ _ _ := trivial

variable {w}
variable {top : Namespace} {flavor : Flavor} {modules : Ordered.Set String} {page : Page}
  {name path : String} {around : List String}

section Document

variable {document : Document}
  (hdocument : document = ((w.document flavor modules top).run page).1)
include hdocument

/-- The outlines of the document's items are those of its entries. -/
theorem map_outline_items_document :
    document.items.map Item.outline = w.outlines (w.entries flavor modules top) := by
  rw [hdocument]
  exact w.outlineView.map_observe_document flavor (fun _ _ => trivial) modules top page trivial

/-- Every item of a document is that of an entry. -/
theorem exists_entry_of_item {item : Item} (hitem : item ∈ document.items) :
    ∃ entry ∈ w.entries flavor modules top, w.outline? entry = some item.outline ∧
      entry.name = item.head.name := by
  have ho := List.mem_map_of_mem (f := Item.outline) hitem
  rw [map_outline_items_document hdocument] at ho
  obtain ⟨entry, hentry, houtline⟩ := List.mem_filterMap.mp ho
  have hname := (w.title_of_outline? houtline).1
  exact ⟨entry, hentry, houtline, hname.symm.trans item.head_eq.2.symm⟩

/-- The items of a document have the names of the entries that are not left out. -/
theorem exists_item_name_iff :
    (∃ item ∈ document.items, item.head.name = name) ↔
      ∃ entry ∈ w.entries flavor modules top,
        (w.outline? entry).isSome = true ∧ entry.name = name := by
  constructor
  · rintro ⟨item, hitem, rfl⟩
    obtain ⟨entry, hentry, houtline, hname⟩ := exists_entry_of_item hdocument hitem
    exact ⟨entry, hentry, Option.isSome_of_eq_some houtline, hname⟩
  · rintro ⟨entry, hentry, hsome, rfl⟩
    obtain ⟨o, houtline⟩ := Option.isSome_iff_exists.mp hsome
    have ho : o ∈ w.outlines (w.entries flavor modules top) :=
      List.mem_filterMap.mpr ⟨entry, hentry, houtline⟩
    rw [← map_outline_items_document hdocument] at ho
    obtain ⟨item, hitem, rfl⟩ := List.mem_map.mp ho
    exact ⟨item, hitem, item.head_eq.2.trans (w.title_of_outline? houtline).1⟩

/-- The blocks of a document stand where its entries have them. -/
theorem block_mem_document_iff :
    (around, .block name) ∈ document.located ↔
      (around, .block name) ∈ w.locatedEntries flavor modules top := by
  have hshown := w.outlineView.shown_document flavor (fun _ _ => trivial) modules top page trivial
  rw [← hdocument] at hshown
  exact Part.block_mem_mapAll?.symm.trans
    ((congrArg ((around, Part.block name) ∈ ·) hshown).to_iff.trans Part.block_mem_mapAll?)

end Document

/-- In modules nothing stands in a namespace block. -/
theorem block_not_mem_modules : (around, .block name) ∉ w.locatedEntries .modules modules top := by
  simp [locatedEntries, Part.inside, Entry.planned]

/-! ## Variables and functions -/

variable (w) in
/-- The variables and functions in sight that are not members of interfaces. -/
def valuesInSight (top : Namespace) : List Entry :=
  (top :: (seenBelow w.directives w.nameOf top).filter fun ns =>
    !w.isInterface (w.nameOf.nameSpace ns)).flatMap fun ns => valueEntries ns.scope

/-- A value has an outline exactly if it is not excluded and its name can be bound. -/
theorem isSome_outline?_of_isValue {entry : Entry} (h : entry.isValue = true) :
    (w.outline? entry).isSome = true ↔
      w.directives.isBadSymbol (w.nameOf entry.link) = false ∧ isBinding entry.name = true := by
  have hkept (o : Outline) :
      (if keepsItem w.directives o then some o else none).isSome = true ↔
        w.directives.isBadSymbol o.title.fqn = false ∧ isBinding o.title.name = true := by
    rw [Option.isSome_ite, keepsItem, Bool.and_eq_true, Bool.not_eq_true']
  cases entry with
  | constant v => exact hkept _
  | function f => exact hkept _
  | aggregate n => cases h
  | nameSpace s => cases h

/-- A value whose name cannot be declared is not kept, and that is a warning. -/
theorem run_keepsValue {fqn : String} (hbad : w.directives.isBadSymbol fqn = false)
    (hname : isBinding name = false) (page : Page) :
    (w.keepsValue fqn name).run page
      = (false, { page with warnings := page.warnings.insert (notBinding fqn name) }) := by
  rw [keepsValue, keeps, hbad, hname]
  rfl

/-- A variable or function whose name cannot be declared is skipped with a warning. -/
theorem notesOf_write {entry : Entry} (hvalue : entry.isValue = true)
    (hbad : w.directives.isBadSymbol (w.nameOf entry.link) = false)
    (hname : isBinding entry.name = false) :
    notesOf (w.write entry) = [notBinding (w.nameOf entry.link) entry.name] := by
  have hskipped (rest : Bool → Writing (Option Item)) (hrest : rest false = pure none) :
      notesOf (w.keepsValue (w.nameOf entry.link) entry.name >>= rest)
        = [notBinding (w.nameOf entry.link) entry.name] := by
    rw [notesOf, StateT.run_bind, run_keepsValue hbad hname]
    change ((rest false).run _).2.warnings.toList = _
    rw [hrest]
    rfl
  cases entry with
  | constant v => exact hskipped _ rfl
  | function f => exact hskipped _ rfl
  | aggregate n => cases hvalue
  | nameSpace s => cases hvalue

/-! ## Namespace blocks in sight -/

namespace Follows

/-- A namespace in sight that holds others has a block, and so has every one on the way. -/
theorem exists_opens (hw : w.Follows top) {start ns : Namespace}
    (hstart : Meets w.directives w.nameOf top start) (h : InSight w.directives w.nameOf start ns)
    (hnested : ns.nested ≠ []) : ∃ around, w.Opens start around ns := by
  induction h with
  | self _ => exact ⟨[], .self _⟩
  | @nested outer child ns houter hchild hsight ih =>
    have hmet := hstart.nested houter hchild
    obtain ⟨around, hopens⟩ := ih hmet hnested
    have hholds : child.nested ≠ [] := by
      cases hsight with
      | self _ => exact hnested
      | nested _ hmem _ => exact List.ne_nil_of_mem hmem
    have hblock : w.hasBlock child = true := by
      rw [hasBlock, hw.contains_nameSpace hmet, hsight.not_excluded.1]
      simp [Namespace.hasAggregates, hholds]
    exact ⟨_, .nested hchild hblock hopens⟩

/-- The blocks that are opened are those of namespaces in sight. -/
theorem inSight_of_opens (hw : w.Follows top) {start ns : Namespace} (h : w.Opens start around ns) :
    Meets w.directives w.nameOf top start →
      excludes w.directives (w.nameOf.nameSpace start) = false →
      InSight w.directives w.nameOf start ns := by
  -- Each step of the way starts elsewhere, so what is known of the start is not fixed beforehand.
  induction h with
  | self _ => exact fun _ hstart => .self hstart
  | @nested outer child ns around hchild hblock _ ih =>
    intro hmeets hstart
    have hmet := hmeets.nested hstart hchild
    have hemitted := (Bool.and_eq_true_iff.mp hblock).1
    rw [hw.contains_nameSpace hmet, Bool.not_eq_true'] at hemitted
    exact .nested hstart hchild (ih hmet hemitted)

end Follows

/-! ## Types and namespaces -/

/-- The names of the types and namespaces in sight that are declared: classes, interfaces and enums
that are not excluded; and namespaces, with module blocks only those that are written as interfaces
into the block, or the script code, around them. -/
inductive NamedInSight (w : Writer) (flavor : Flavor) (top : Namespace) : String → Prop
  | ofType {ns : Namespace} {n : TypeNode} : InSight w.directives w.nameOf top ns →
      n ∈ ns.scope.types → w.directives.isBadSymbol (w.nameOf n.link) = false →
      NamedInSight w flavor top n.name
  | ofNameSpace {outer child : Namespace} : InSight w.directives w.nameOf top outer →
      child ∈ outer.nested → excludes w.directives (w.nameOf.nameSpace child) = false →
      (flavor = .modules → w.isInterface (w.nameOf.nameSpace child) = true ∧ (outer = top ∨
        (Plan.of w.directives w.nameOf top).modules.contains (w.nameOf.nameSpace outer) = true)) →
      NamedInSight w flavor top child.name

namespace Follows

/-- A namespace of the global tree is named by an interface or by a block. -/
theorem nameSpace_iff_globals (hw : w.Follows top) :
    ((∃ s, .nameSpace s ∈ w.entries .globals modules top ∧ s.name = name) ∨
        ∃ around, (around, .block name) ∈ w.locatedEntries .globals modules top) ↔
      ∃ outer, InSight w.directives w.nameOf top outer ∧ ∃ child ∈ outer.nested,
        excludes w.directives (w.nameOf.nameSpace child) = false ∧ child.name = name := by
  constructor
  · rintro (⟨s, hentry, rfl⟩ | ⟨around, hblock⟩)
    · obtain ⟨outer, houter, child, hchild, rfl, hemitted⟩ := hw.exists_nested_of_mem_entries hentry
      have hshown := ((hw.isEmittedInterface_iff (houter.meets_nested hchild)).mp hemitted).1
      exact ⟨outer, houter, child, hchild, hshown, rfl⟩
    · obtain ⟨outer, hopens, hone | ⟨child, hchild, hhas, hsame⟩⟩ :=
        mem_locatedEntries_globals.mp hblock
      · obtain ⟨_, _, hsame⟩ := List.mem_map.mp hone
        cases hsame
      · cases hsame
        have hemitted := (Bool.and_eq_true_iff.mp hhas).1
        have houter := hw.inSight_of_opens hopens .refl (hw.inSight_top hemitted).not_excluded.1
        rw [hw.contains_nameSpace (houter.meets_nested hchild), Bool.not_eq_true'] at hemitted
        exact ⟨outer, houter, child, hchild, hemitted, rfl⟩
  · rintro ⟨outer, houter, child, hchild, hshown, rfl⟩
    have hmet := houter.meets_nested hchild
    -- An interface is named by its item; any other namespace has a block.
    cases hinterface : w.isInterface (w.nameOf.nameSpace child) with
    | true =>
      have hemitted := (hw.isEmittedInterface_iff hmet).mpr ⟨hshown, hinterface⟩
      exact .inl ⟨child.scope, (hw.nameSpace_mem_entries_globals houter.not_excluded.1).mpr
        ⟨outer, houter, child, hchild, rfl, hemitted⟩, rfl⟩
    | false =>
      have hhas : w.hasBlock child = true := by
        rw [hasBlock, hw.contains_nameSpace hmet, hshown, hinterface]
        rfl
      obtain ⟨around, hopens⟩ := hw.exists_opens .refl houter (List.ne_nil_of_mem hchild)
      exact .inr ⟨around, mem_locatedEntries_globals.mpr
        ⟨outer, hopens, .inr ⟨child, hchild, hhas, rfl⟩⟩⟩

/-- With module blocks, a namespace is named only by an interface. -/
theorem nameSpace_iff_modules (hw : w.Follows top) :
    (∃ s, .nameSpace s ∈ w.entries .modules modules top ∧ s.name = name) ↔
      ∃ outer, InSight w.directives w.nameOf top outer ∧ ∃ child ∈ outer.nested,
        excludes w.directives (w.nameOf.nameSpace child) = false ∧
          (w.isInterface (w.nameOf.nameSpace child) = true ∧
            (outer = top ∨ modules.contains (w.nameOf.nameSpace outer) = true)) ∧
          child.name = name := by
  constructor
  · rintro ⟨s, hentry, rfl⟩
    cases htop : excludes w.directives (w.nameOf.nameSpace top) with
    | true => exact absurd hentry (hw.nameSpace_not_mem_of_excluded htop .modules modules s)
    | false =>
      obtain ⟨outer, houter, hplace, child, hchild, rfl, hemitted⟩ :=
        (hw.nameSpace_mem_entries_modules htop).mp hentry
      obtain ⟨hshown, hinterface⟩ :=
        (hw.isEmittedInterface_iff (houter.meets_nested hchild)).mp hemitted
      exact ⟨outer, houter, child, hchild, hshown, ⟨hinterface, hplace⟩, rfl⟩
  · rintro ⟨outer, houter, child, hchild, hshown, ⟨hinterface, hplace⟩, rfl⟩
    have hemitted :=
      (hw.isEmittedInterface_iff (houter.meets_nested hchild)).mpr ⟨hshown, hinterface⟩
    exact ⟨child.scope, (hw.nameSpace_mem_entries_modules houter.not_excluded.1).mpr
      ⟨outer, houter, hplace, child, hchild, rfl, hemitted⟩, rfl⟩

variable (hw : w.Follows top) (hnames : w.NamesAll (top.inside path))
include hw hnames

/-- The values in sight are those among the entries of the document. -/
theorem mem_valuesInSight (flavor : Flavor) (entry : Entry) :
    entry ∈ w.valuesInSight top ↔
      entry ∈ w.entries flavor (Plan.of w.directives w.nameOf top).modules top ∧
        entry.isValue = true := by
  rw [valuesInSight, ← hw.filter_isValue_entries hnames flavor, List.mem_filter]

/-- The types and namespaces in sight are those that a document names. -/
theorem namedInSight_iff {flavor : Flavor}
    (hmodules : modules = (Plan.of w.directives w.nameOf top).modules) :
    w.NamedInSight flavor top name ↔
      (∃ n, (.aggregate n ∈ w.entries flavor modules top ∧
          w.emitted.contains (w.nameOf n.link) = true) ∧ n.name = name) ∨
        (∃ s, .nameSpace s ∈ w.entries flavor modules top ∧ s.name = name) ∨
          ∃ around, (around, .block name) ∈ w.locatedEntries flavor modules top := by
  subst hmodules
  have htypes := hw.aggregate_mem_entries_iff hnames flavor
  constructor
  · intro h
    cases h with
    | ofType hsight hn hbad => exact .inl ⟨_, (htypes _).mpr ⟨hbad, _, hsight, hn⟩, rfl⟩
    | @ofNameSpace outer child houter hchild hshown hplace =>
      cases flavor with
      | globals =>
        exact .inr (hw.nameSpace_iff_globals.mpr ⟨outer, houter, child, hchild, hshown, rfl⟩)
      | modules =>
        exact .inr (.inl (hw.nameSpace_iff_modules.mpr
          ⟨outer, houter, child, hchild, hshown, hplace rfl, rfl⟩))
  · rintro (⟨n, hentry, rfl⟩ | hnameSpace)
    · obtain ⟨hbad, ns, hsight, hn⟩ := (htypes n).mp hentry
      exact .ofType hsight hn hbad
    · cases flavor with
      | globals =>
        obtain ⟨outer, houter, child, hchild, hshown, rfl⟩ :=
          hw.nameSpace_iff_globals.mp hnameSpace
        exact .ofNameSpace houter hchild hshown nofun
      | modules =>
        obtain hentry | ⟨around, hblock⟩ := hnameSpace
        · obtain ⟨outer, houter, child, hchild, hshown, hplace, rfl⟩ :=
            hw.nameSpace_iff_modules.mp hentry
          exact .ofNameSpace houter hchild hshown fun _ => hplace
        · exact absurd hblock block_not_mem_modules

/-- The entries that are not left out: values that can be declared, emitted types, and namespaces
that are written as interfaces. -/
theorem exists_outline?_iff {flavor : Flavor}
    (hmodules : modules = (Plan.of w.directives w.nameOf top).modules) :
    (∃ entry ∈ w.entries flavor modules top,
        (w.outline? entry).isSome = true ∧ entry.name = name) ↔
      (∃ entry ∈ w.valuesInSight top, w.directives.isBadSymbol (w.nameOf entry.link) = false ∧
        isBinding entry.name = true ∧ entry.name = name) ∨
      (∃ n, (.aggregate n ∈ w.entries flavor modules top ∧
        w.emitted.contains (w.nameOf n.link) = true) ∧ n.name = name) ∨
      ∃ s, .nameSpace s ∈ w.entries flavor modules top ∧ s.name = name := by
  subst hmodules
  have hvalues := hw.mem_valuesInSight hnames flavor
  constructor
  · rintro ⟨entry, hentry, hsome, rfl⟩
    have hvalue (h : entry.isValue = true) := (isSome_outline?_of_isValue h).mp hsome
    have hseen (h : entry.isValue = true) := (hvalues entry).mpr ⟨hentry, h⟩
    cases entry with
    | constant v => exact .inl ⟨_, hseen rfl, (hvalue rfl).1, (hvalue rfl).2, rfl⟩
    | function f => exact .inl ⟨_, hseen rfl, (hvalue rfl).1, (hvalue rfl).2, rfl⟩
    | aggregate n => exact .inr (.inl ⟨n, ⟨hentry, by simpa [outline?] using hsome⟩, rfl⟩)
    | nameSpace s => exact .inr (.inr ⟨s, hentry, rfl⟩)
  · rintro (⟨entry, hentry, hbad, hname, rfl⟩ | ⟨n, ⟨hentry, hemitted⟩, rfl⟩ | ⟨s, hentry, rfl⟩)
    · obtain ⟨hmem, hvalue⟩ := (hvalues entry).mp hentry
      exact ⟨entry, hmem, (isSome_outline?_of_isValue hvalue).mpr ⟨hbad, hname⟩, rfl⟩
    · exact ⟨_, hentry, by rw [outline?, if_pos hemitted]; rfl, rfl⟩
    · exact ⟨_, hentry, rfl, rfl⟩

/-- The names that a document declares: those of values that can be declared, those of the types and
namespaces in sight, and that of the registry. -/
theorem mem_declaredNames_iff {flavor : Flavor} {document : Document}
    (hdocument : document
      = ((w.document flavor (Plan.of w.directives w.nameOf top).modules top).run page).1) :
    name ∈ document.declaredNames ↔
      (∃ entry ∈ w.valuesInSight top, w.directives.isBadSymbol (w.nameOf entry.link) = false ∧
        isBinding entry.name = true ∧ entry.name = name) ∨
      w.NamedInSight flavor top name ∨
      (document.registry ≠ [] ∧ name = Correction.moduleNamesInterface) := by
  rw [Document.mem_declaredNames, exists_item_name_iff hdocument,
    hw.exists_outline?_iff hnames rfl, hw.namedInSight_iff hnames rfl]
  simp only [block_mem_document_iff hdocument, or_assoc]

end Follows

/-- A variable or function that is declared has a name that can be. -/
theorem isBinding_of_isValue {document : Document}
    (hdocument : document = ((w.document flavor modules top).run page).1) {item : Item}
    (hitem : item ∈ document.items) (hvalue : item.outline.isValue = true) :
    isBinding item.head.name = true := by
  obtain ⟨entry, _, houtline, hname⟩ := exists_entry_of_item hdocument hitem
  rw [isValue_of_outline? entry _ houtline] at hvalue
  rw [← hname]
  exact ((isSome_outline?_of_isValue hvalue).mp (Option.isSome_of_eq_some houtline)).2

end Writer

end Declaration

namespace Library

open Declaration Api

variable {primary : Library} {dependencies : List Library} {isStrict : Bool} {p : Prepared}

/-- The warnings of an emission are those of the plan and those about its entries. -/
theorem Prepared.mem_warnings_iff {flavor : Flavor} {e : Emission} (h : p.emit flavor = .ok e)
    {warning : Warning} :
    let top := p.linked.description.top
    let plan := Plan.of p.directives (namingOf p.linked.arena) top
    warning ∈ e.warnings ↔ warning ∈ plan.warnings ∨
      ∃ entry ∈ p.writer.entries flavor plan.modules top,
        warning ∈ notesOf (p.writer.write entry) := by
  intro top plan
  obtain ⟨_, hsame⟩ := Api.seq_eq_ok.mp h
  cases hsame
  rw [warnings_emitNamed, Ordered.Set.mem_insertAll, Ordered.Set.mem_ofList]
  exact or_congr_right List.mem_flatMap

/-- Whatever directives a prepared library is emitted with, in either flavor, the declared variables
and functions have names that can be declared, and there is a warning for each that is skipped since
its name cannot be. The other names of the output are those of the types and namespaces in sight,
whatever they are; so all names can be declared exactly if those can be. -/
theorem declared_names_iff_inSight (hd : primary.description.check = .ok ())
    (hp : primary.prepare dependencies isStrict = .ok p) (d : Directives) (flavor : Flavor) :
    let emitted : Prepared := { p with directives := d }
    let w := emitted.writer
    let top := p.linked.description.top
    ∃ e, emitted.emit flavor = .ok e ∧
      (∀ item ∈ e.document.items, item.outline.isValue = true →
        isBinding item.head.name = true) ∧
      (∀ entry ∈ w.valuesInSight top, d.isBadSymbol (w.nameOf entry.link) = false →
        isBinding entry.name = false →
        notBinding (w.nameOf entry.link) entry.name ∈ e.warnings) ∧
      (∀ name, name ∈ e.document.declaredNames ↔
        (∃ entry ∈ w.valuesInSight top, d.isBadSymbol (w.nameOf entry.link) = false ∧
          isBinding entry.name = true ∧ entry.name = name) ∨
        w.NamedInSight flavor top name ∨
        (e.document.registry ≠ [] ∧ name = Correction.moduleNamesInterface)) ∧
      ((∀ name ∈ e.document.declaredNames, isBinding name = true) ↔
        ∀ name, w.NamedInSight flavor top name → isBinding name = true) := by
  intro emitted w top
  have hrun := (of_prepare hp).1
  have hemit : emitted.emit flavor = .ok _ := emit_of_run hrun p.table d flavor
  have hfollows : w.Follows top := Writer.follows_writerFor ..
  have hnames : w.NamesAll (top.inside "") := namesAll_of_run hd hrun rfl
  have hdocument := Prepared.document_of_emit hemit
  have hdeclared (name : String) : name ∈ Document.declaredNames _ ↔ _ :=
    hfollows.mem_declaredNames_iff hnames hdocument
  refine ⟨_, hemit, fun item => Writer.isBinding_of_isValue hdocument,
    fun entry hentry hbad hname => ?_, hdeclared, fun hall name hname => ?_,
    fun hall name hname => ?_⟩
  · obtain ⟨hmem, hvalue⟩ := (hfollows.mem_valuesInSight hnames flavor entry).mp hentry
    refine (Prepared.mem_warnings_iff hemit).mpr (.inr ⟨entry, hmem, ?_⟩)
    rw [Writer.notesOf_write hvalue hbad hname]
    exact List.mem_singleton_self _
  · exact hall name ((hdeclared name).mpr (.inr (.inl hname)))
  · obtain ⟨entry, _, _, hbinding, rfl⟩ | hnamed | ⟨_, rfl⟩ := (hdeclared name).mp hname
    · exact hbinding
    · exact hall name hnamed
    · decide

/-- A library with names that cannot be declared: of a variable, a function, a class, an interface
and an enum at the top level, and of a namespace. -/
def unnameable : Library :=
  let top : Scope :=
    { (default : Scope) with
      kind := .nameSpace
      classes := [.plain "delete"]
      interfaces := [{ (default : Interface) with kind := .interfaceType, name := "let" }]
      enums := [{ (default : Enum) with kind := .enumType, name := "2d" }]
      constants := [{ (default : Variable) with kind := .variableDesc, name := "class" }]
      functions := [{ (default : Function) with kind := .functionDesc, name := "do-it" }] }
  ⟨"app", .ofTop ⟨top, [.plain "my-ui" [.plain "Panel"] []]⟩, .empty⟩

/-- Of names that cannot be declared the values are warned of and left out, and the types and
namespaces are declared. -/
theorem declared_names_iff_inSight_unnameable :
    unnameable.description.check = .ok () ∧
      ∃ p, unnameable.prepare [] true = .ok p ∧ ∀ flavor, ∃ e, p.emit flavor = .ok e ∧
        notBinding "class" "class" ∈ e.warnings ∧
        p.writer.NamedInSight flavor p.linked.description.top "delete" ∧
        ¬ ∀ name ∈ e.document.declaredNames, isBinding name = true := by
  have hvalid : unnameable.description.check = .ok () := by decide
  have hread : (unnameable.prepare [] true).map (fun p =>
      let w := p.writer
      let top := p.linked.description.top
      decide ((∃ entry ∈ w.valuesInSight top, w.nameOf entry.link = "class" ∧
          p.directives.isBadSymbol "class" = false ∧ entry.name = "class") ∧
        excludes p.directives (w.nameOf.nameSpace top) = false ∧
        ∃ n ∈ top.scope.types, p.directives.isBadSymbol (w.nameOf n.link) = false ∧
          n.name = "delete")) = .ok true := by decide +kernel
  obtain ⟨p, hp⟩ : ∃ p, unnameable.prepare [] true = .ok p := ⟨_, rfl⟩
  rw [hp] at hread
  obtain ⟨⟨entry, hentry, hfqn, hbad, hname⟩, htop, n, hn, hkept, hdelete⟩ :=
    of_decide_eq_true (Except.ok.inj hread)
  refine ⟨hvalid, p, hp, fun flavor => ?_⟩
  obtain ⟨e, hemit, -, hwarnings, -, hall⟩ :=
    declared_names_iff_inSight hvalid hp p.directives flavor
  have hnamed : p.writer.NamedInSight flavor p.linked.description.top "delete" :=
    hdelete ▸ .ofType (.self htop) hn hkept
  have hwarning := hwarnings entry hentry (hfqn.symm ▸ hbad) (hname.symm ▸ by decide)
  rw [hname] at hwarning
  exact ⟨e, hemit, hfqn ▸ hwarning, hnamed, fun h => absurd (hall.mp h _ hnamed) (by decide)⟩

/-- Types and namespaces are declared under names that cannot be, and no warning says so. -/
theorem not_isBinding_unnameable :
    ∃ p, unnameable.prepare [] true = .ok p ∧ ∀ flavor, ∃ e, p.emit flavor = .ok e ∧
      (∀ name ∈ ["delete", "let", "2d", "my-ui"], isBinding name = false) ∧
      (∀ name ∈ ["delete", "let", "2d"], name ∈ e.document.declaredNames) ∧
      (flavor = .globals → "my-ui" ∈ e.document.declaredNames) ∧
      e.warnings = [notBinding "class" "class", notBinding "do-it" "do-it"] := by
  refine ⟨_, rfl, fun flavor => ⟨_, rfl, ?_⟩⟩
  cases flavor <;> decide +kernel

end Library

end Ambient
