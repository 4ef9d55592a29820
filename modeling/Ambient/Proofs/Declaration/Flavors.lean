import Mathlib.Data.List.Flatten
import Mathlib.Data.List.Perm.Basic
import Ambient.Proofs.Declaration.Completeness
import Ambient.Proofs.Declaration.Unspelled
import Ambient.Proofs.Preparation

/-!
# The two flavors agree

A namespace that is written as an interface stands in the global tree where the namespace does,
and in the other flavor in the block of the namespace around it; and a namespace without a module
has no block. If the dotted names in a library are distinct, the flavors hold the same entries all
the same: a block that is missing would be empty, since the plan gives a module to every namespace
that has something to write.
-/

namespace Ambient.Declaration

open Api

/-- The dotted name under which a namespace is met. -/
def Visit.fqn : Visit → String
  | .excluded fqn => fqn
  | .emitted fqn _ => fqn

section Unique

variable {d : Directives} {nameOf : Naming} {top ns other : Namespace} {path fqn : String}

/-- The dotted names of definitions. -/
def Naming.ofDefinitions (nameOf : Naming) (definitions : List Definition) : List String :=
  definitions.map fun x => nameOf x.link

/-- The namespaces that are met are among those that are defined. -/
theorem visits_sublist (ns : Namespace) :
    ∀ path : String, ((visits d nameOf ns).map Visit.fqn).Sublist
      (nameOf.ofDefinitions (ns.definitions path)) := by
  induction ns using Namespace.induction with
  | step scope nested ih =>
    intro path
    rw [Namespace.definitions_eq, Namespace.inside, Namespace.definitionsOf_eq,
      Naming.ofDefinitions, List.map_cons, List.map_append, List.map_flatMap]
    cases hns : excludes d (nameOf.nameSpace ⟨scope, nested⟩) with
    | true =>
      rw [visits_of_excluded hns]
      exact (List.nil_sublist _).cons_cons _
    | false =>
      rw [visits_of_not_excluded hns, List.map_cons, List.map_flatMap]
      have hnested := List.Sublist.flatMap_right nested fun child hchild =>
        ih child hchild (joined path child.name)
      exact (hnested.trans (List.sublist_append_left _ _)).cons_cons _

/-- If dotted names are distinct, a namespace is met once under its name. -/
theorem eq_of_mem_visits (hunique : (nameOf.ofDefinitions (top.definitions path)).Nodup)
    (hns : .emitted fqn ns ∈ visits d nameOf top)
    (hother : .emitted fqn other ∈ visits d nameOf top) : ns = other := by
  have hdistinct : ((visits d nameOf top).map Visit.fqn).Nodup :=
    hunique.sublist (visits_sublist top path)
  have hsame := List.inj_on_of_nodup_map hdistinct hns hother rfl
  cases hsame
  rfl

end Unique

namespace Writer

variable {w : Writer} {top ns : Namespace} {path : String}

/-! ## Entries that are written -/

/-- Whether something is written for an entry: aggregates that are not emitted leave nothing. -/
def isLive (w : Writer) : Entry → Bool
  | .aggregate n => w.emitted.contains (w.nameOf n.link)
  | _ => true

/-- The entries for which something is written. -/
def live (w : Writer) (entries : List Entry) : List Entry := entries.filter w.isLive

/-- What is alive of two runs of entries is that of the first, then that of the second. -/
theorem live_append (entries more : List Entry) :
    w.live (entries ++ more) = w.live entries ++ w.live more :=
  List.filter_append entries more

/-- What is alive of entries gathered from items is gathered item by item. -/
theorem live_flatMap {α : Type} (entries : α → List Entry) (items : List α) :
    w.live (items.flatMap entries) = items.flatMap fun a => w.live (entries a) := by
  rw [live, List.filter_flatMap]
  rfl

/-- An entry for which nothing is written has neither an outline nor warnings. -/
theorem of_not_isLive {entry : Entry} (h : w.isLive entry = false) :
    w.outline? entry = none ∧ notesOf (w.write entry) = [] := by
  cases entry with
  | constant v => cases h
  | function f => cases h
  | nameSpace s => cases h
  | aggregate n =>
    have hemitted : w.emitted.contains (w.nameOf n.link) = false := h
    have hwrite : w.write (.aggregate n) = pure none := by
      cases n with
      | classType c =>
        rw [write, classType]
        exact if_pos (by rw [show w.emitted.contains (w.nameOf c.link) = false from hemitted]; rfl)
      | interfaceType i =>
        rw [write, interfaceType]
        exact if_pos (by rw [show w.emitted.contains (w.nameOf i.link) = false from hemitted]; rfl)
      | enumType e =>
        rw [write, enumType]
        exact if_pos (by rw [show w.emitted.contains (w.nameOf e.link) = false from hemitted]; rfl)
    refine ⟨if_neg (by rw [hemitted]; exact Bool.false_ne_true), ?_⟩
    rw [hwrite]
    rfl

/-- Leaving out the entries for which nothing is written changes nothing. -/
theorem of_live (entries : List Entry) :
    w.outlines (w.live entries) = w.outlines entries ∧
      w.warnings (w.live entries) = w.warnings entries := by
  induction entries with
  | nil => exact ⟨rfl, rfl⟩
  | cons entry rest ih =>
    have hfirst : w.outlines (w.live [entry]) = w.outlines [entry] ∧
        w.warnings (w.live [entry]) = w.warnings [entry] := by
      rw [live, List.filter_singleton]
      cases hlive : w.isLive entry with
      | true => exact ⟨rfl, rfl⟩
      | false =>
        obtain ⟨houtline, hnotes⟩ := of_not_isLive hlive
        constructor
        · rw [outlines, outlines, List.filterMap_cons_none houtline]
          rfl
        · rw [warnings, warnings, List.flatMap_singleton, hnotes]
          rfl
    rw [← List.singleton_append, live_append, outlines_append, outlines_append, warnings_append,
      warnings_append, ih.1, ih.2, hfirst.1, hfirst.2]
    exact ⟨rfl, rfl⟩

/-- Where no type is to be written, none of the types is alive. -/
theorem live_typeEntries_of_bad (hbad : ∀ n ∈ ns.scope.types,
    w.emitted.contains (w.nameOf n.link) = false) : w.live (typeEntries ns.scope) = [] := by
  refine List.filter_eq_nil_iff.mpr fun entry hentry => ?_
  obtain ⟨n, hn, rfl⟩ := List.mem_map.mp hentry
  simp only [isLive, hbad n hn]
  simp

/-! ## Namespaces as interfaces -/

/-- A namespace as an entry, if it is emitted as an interface. -/
def interfaceEntries (w : Writer) (ns : Namespace) : List Entry :=
  if w.isEmittedInterface ns then [.nameSpace ns.scope] else []

/-- The variables and functions of a namespace, unless it is written as an interface. -/
def looseEntries (w : Writer) (ns : Namespace) : List Entry :=
  if w.isInterface (w.nameOf.nameSpace ns) then [] else valueEntries ns.scope

/-- The nested interfaces are gathered namespace by namespace. -/
theorem nestedInterfaceEntries_eq (ns : Namespace) :
    w.nestedInterfaceEntries ns = ns.nested.flatMap w.interfaceEntries := by
  rw [nestedInterfaceEntries]
  induction ns.nested with
  | nil => rfl
  | cons child rest ih =>
    rw [List.flatMap_cons, ← ih, interfaceEntries]
    cases hinterface : w.isEmittedInterface child with
    | true => rw [List.filter_cons_of_pos hinterface]; rfl
    | false => rw [List.filter_cons_of_neg (by simp [hinterface])]; rfl

/-- A block has the loose entries of its namespace, its types and the interfaces nested in it. -/
theorem blockEntries_eq (ns : Namespace) :
    w.blockEntries ns = w.looseEntries ns ++ typeEntries ns.scope
      ++ ns.nested.flatMap w.interfaceEntries := by
  rw [← nestedInterfaceEntries_eq]
  rfl

/-- A namespace that is written stands for itself either as an interface or by its variables and
functions. -/
theorem ownEntries_eq (hemitted : w.emitted.contains (w.nameOf.nameSpace ns) = true) :
    w.ownEntries ns = w.interfaceEntries ns ++ w.looseEntries ns := by
  have hsame : w.isEmittedInterface ns = w.isInterface (w.nameOf.nameSpace ns) := by
    rw [isEmittedInterface]
    exact (congrArg (· && _) hemitted).trans (Bool.true_and _)
  rw [ownEntries, interfaceEntries, looseEntries, hsame]
  cases w.isInterface (w.nameOf.nameSpace ns) <;> simp

/-- A namespace that is not written is not written as an interface. -/
theorem interfaceEntries_of_not_emitted
    (h : w.emitted.contains (w.nameOf.nameSpace ns) = false) : w.interfaceEntries ns = [] := by
  refine if_neg fun hboth => ?_
  rw [isEmittedInterface] at hboth
  rw [show w.emitted.contains (w.nameOf ns.scope.link) = false from h] at hboth
  cases hboth

namespace Follows

variable {child : Namespace}

/-- If names are distinct, a namespace is written as an interface only by its own right. -/
theorem isNestedInterface (hw : w.Follows top)
    (hunique : (w.nameOf.ofDefinitions (top.definitions path)).Nodup)
    (h : Meets w.directives w.nameOf top ns) (hinterface : w.isEmittedInterface ns = true) :
    Visit.isNestedInterface w.directives w.nameOf ns = true := by
  obtain ⟨hemitted, hlisted⟩ := Bool.and_eq_true_iff.mp hinterface
  have hns : excludes w.directives (w.nameOf.nameSpace ns) = false := by
    rw [List.contains_iff_mem, hw.emitted] at hemitted
    exact not_excludes_of_emitted hemitted
  rw [isInterface, List.contains_iff_mem, hw.interfaces] at hlisted
  obtain ⟨hname, other, hvisit, hother⟩ := mem_interfaces.mp hlisted
  obtain rfl := eq_of_mem_visits hunique (h.self hns) hvisit
  have hbad : w.directives.isBadSymbol (w.nameOf.nameSpace ns) = false := by
    rw [excludes] at hns
    simpa [show w.nameOf.nameSpace ns ≠ "" from hname] using hns
  rw [Visit.isNestedInterface]
  exact Bool.and_eq_true_iff.mpr ⟨by rw [hbad]; rfl, hother⟩

/-- A namespace without a module has no variables or functions beside an interface. -/
theorem looseEntries_eq_nil (hw : w.Follows top) (h : Meets w.directives w.nameOf top ns)
    (hns : excludes w.directives (w.nameOf.nameSpace ns) = false)
    (hname : w.nameOf.nameSpace ns ≠ "")
    (hmodule : w.nameOf.nameSpace ns ∉ (Plan.of w.directives w.nameOf top).modules.toList) :
    w.looseEntries ns = [] := by
  obtain ⟨hvalues, _⟩ := h.of_not_mem_modules hns hname hmodule
  rw [looseEntries]
  split
  · rfl
  · next hinterface =>
    rw [isInterface, List.contains_iff_mem, hw.interfaces] at hinterface
    have hnot : Declaration.isInterface w.directives (w.nameOf.nameSpace ns) ns = false := by
      by_contra hyes
      exact hinterface (mem_interfaces.mpr ⟨hname, ns, h.self hns, by simpa using hyes⟩)
    obtain ⟨hconstants, hfunctions⟩ := hvalues hnot
    rw [valueEntries, hconstants, hfunctions]
    rfl

/-- A block that is missing would be empty. -/
theorem live_blockEntries_eq_nil (hw : w.Follows top)
    (hunique : (w.nameOf.ofDefinitions (top.definitions path)).Nodup)
    (h : Meets w.directives w.nameOf top ns)
    (hns : excludes w.directives (w.nameOf.nameSpace ns) = false)
    {here : String} (hnames : w.NamesAll (ns.definitions here))
    (hmodule : w.nameOf.nameSpace ns ∉ (Plan.of w.directives w.nameOf top).modules.toList) :
    w.live (w.blockEntries ns) = [] := by
  obtain ⟨_, htypes, hnested⟩ := h.of_not_mem_modules hns hnames.self hmodule
  have hloose := hw.looseEntries_eq_nil h hns hnames.self hmodule
  have hdead : w.live (typeEntries ns.scope) = [] := by
    refine live_typeEntries_of_bad fun n hn => ?_
    by_contra hemitted
    rw [Bool.not_eq_false, List.contains_iff_mem, hw.emitted,
      h.mem_emitted_type_iff hns hn (hnames.inside.types hn), htypes n hn] at hemitted
    cases hemitted
  have hinterfaces : ns.nested.flatMap w.interfaceEntries = [] := by
    refine List.flatMap_eq_nil_iff.mpr fun child hchild => if_neg fun hinterface => ?_
    have hyes := hw.isNestedInterface hunique (h.nested hns hchild) hinterface
    rw [hnested child hchild] at hyes
    cases hyes
  rw [blockEntries_eq, hloose, hinterfaces, List.nil_append, List.append_nil, hdead]

/-- Whether or not it has a block of its own, nothing that belongs there is lost. -/
theorem live_ownPlan (hw : w.Follows top)
    (hunique : (w.nameOf.ofDefinitions (top.definitions path)).Nodup)
    (h : Meets w.directives w.nameOf top ns)
    (hns : excludes w.directives (w.nameOf.nameSpace ns) = false)
    {here : String} (hnames : w.NamesAll (ns.definitions here)) :
    w.live ((w.ownPlan (Plan.of w.directives w.nameOf top).modules ns).flatMap Prod.snd)
      = w.live (w.blockEntries ns) := by
  rw [ownPlan]
  split
  · rw [List.flatMap_singleton]
  · next hmodule =>
    rw [Ordered.Set.contains_iff] at hmodule
    rw [hw.live_blockEntries_eq_nil hunique h hns hnames hmodule]
    rfl

/-- If for each nested namespace the tree has what its interface and its blocks have, then so it
does for all of them. -/
theorem perm_live_flatMap {modules : Ordered.Set String} {nested : List Namespace}
    (h : ∀ child ∈ nested, (w.live (w.treeEntries child)).Perm (w.live (w.interfaceEntries child)
      ++ w.live ((w.blockPlans modules child).flatMap Prod.snd))) :
    (w.live (nested.flatMap w.treeEntries)).Perm (w.live (nested.flatMap w.interfaceEntries)
      ++ w.live (nested.flatMap fun child => (w.blockPlans modules child).flatMap Prod.snd)) := by
  rw [live_flatMap, live_flatMap, live_flatMap]
  exact (List.Perm.flatMap_left nested h).trans (List.flatMap_append_perm nested _ _).symm

/-- The global tree has of a namespace what the block around it and its own blocks have. -/
theorem perm_live_treeEntries (hw : w.Follows top)
    (hunique : (w.nameOf.ofDefinitions (top.definitions path)).Nodup) (ns : Namespace) :
    ∀ {here : String}, Meets w.directives w.nameOf top ns → w.NamesAll (ns.definitions here) →
      (w.live (w.treeEntries ns)).Perm (w.live (w.interfaceEntries ns) ++ w.live
        ((w.blockPlans (Plan.of w.directives w.nameOf top).modules ns).flatMap Prod.snd)) := by
  induction ns using Namespace.induction with
  | step scope nested ih =>
    intro here h hnames
    have hcontains := hw.contains_nameSpace h
    cases hns : excludes w.directives (w.nameOf.nameSpace ⟨scope, nested⟩) with
    | true =>
      rw [hns] at hcontains
      rw [hw.treeEntries_of_excluded h hns, hw.blockPlans_of_excluded h hns,
        interfaceEntries_of_not_emitted hcontains]
      exact List.Perm.nil
    | false =>
      rw [hns] at hcontains
      have hnested := perm_live_flatMap fun child hchild =>
        ih child hchild (h.nested hns hchild) (hnames.inside.nested hchild)
      have hblocks : w.live ((w.blockPlans (Plan.of w.directives w.nameOf top).modules
          ⟨scope, nested⟩).flatMap Prod.snd) = w.live (w.blockEntries ⟨scope, nested⟩) ++ w.live
            (nested.flatMap fun child => (w.blockPlans
              (Plan.of w.directives w.nameOf top).modules child).flatMap Prod.snd) := by
        rw [hw.blockPlans_of_not_excluded h hns, List.flatMap_append, live_append,
          hw.live_ownPlan hunique h hns hnames, List.flatMap_assoc]
      rw [hblocks, blockEntries_eq, hw.treeEntries_of_not_excluded h hns, ownEntries_eq hcontains]
      simp only [live_append, List.append_assoc]
      exact ((hnested.append_left _).append_left _).append_left _

/-- If names are distinct, the documents of both flavors have the same entries. -/
theorem perm_live_entries (hw : w.Follows top)
    (hunique : (w.nameOf.ofDefinitions (top.definitions path)).Nodup)
    (hnames : w.NamesAll (top.inside path)) :
    let modules := (Plan.of w.directives w.nameOf top).modules
    (w.live (w.entries .modules modules top)).Perm (w.live (w.entries .globals modules top)) := by
  intro modules
  have hnested : (w.live (top.nested.flatMap w.treeEntries)).Perm
      (w.live (top.nested.flatMap w.interfaceEntries) ++ w.live
        (top.nested.flatMap fun child => (w.blockPlans modules child).flatMap Prod.snd)) := by
    refine perm_live_flatMap fun child hchild => ?_
    cases htop : excludes w.directives (w.nameOf.nameSpace top) with
    | true =>
      have hnone : w.emitted.contains (w.nameOf.nameSpace child) = false := by
        rw [hw.emitted, emitted_of_excluded htop]
        rfl
      rw [treeEntries_eq, blockPlans_eq, interfaceEntries_of_not_emitted hnone, hnone]
      exact List.Perm.nil
    | false =>
      exact hw.perm_live_treeEntries hunique child (Meets.refl.nested htop hchild)
        (hnames.nested hchild)
  rw [entries_globals, entries_modules, nestedInterfaceEntries_eq]
  simp only [live_append, List.append_assoc]
  exact ((hnested.symm.append_left _).append_left _)

end Follows

/-- Entries that are the same in another order have the same outlines and warnings. -/
theorem perm_of_live {entries more : List Entry} (h : (w.live entries).Perm (w.live more)) :
    (w.outlines entries).Perm (w.outlines more) ∧ (w.warnings entries).Perm (w.warnings more) := by
  rw [← (of_live entries).1, ← (of_live more).1, ← (of_live entries).2, ← (of_live more).2]
  exact ⟨h.filterMap _, h.flatMap_right _⟩

/-- Whatever is shown of items on every page, entries that are the same in another order show the
same in another order. -/
theorem perm_filterMap_of_live {γ : Type} (v : View w γ) (hall : ∀ page, v.admits page)
    {entries more : List Entry} (h : (w.live entries).Perm (w.live more)) :
    (entries.filterMap v.value).Perm (more.filterMap v.value) := by
  have hlive (list : List Entry) : (w.live list).filterMap v.value = list.filterMap v.value := by
    rw [live, List.filterMap_filter]
    refine List.filterMap_congr fun entry _ => ?_
    cases hentry : w.isLive entry with
    | true => rfl
    | false =>
      have hwritten := (w.writes_entry entry).answer default
      rw [(of_not_isLive hentry).1, Option.map_eq_none_iff] at hwritten
      rw [← v.answer entry default (hall _), hwritten]
      rfl
  rw [← hlive entries, ← hlive more]
  exact h.filterMap _

end Writer

/-! ## Emission -/

/-- The entities of a document are those of the outlines of its items. -/
theorem entities_eq (d : Document) :
    d.entities = (d.items.map Item.outline).flatMap Outline.entities := by
  rw [Document.entities, List.flatMap_map]
  exact List.flatMap_congr fun item _ => item.entities_eq

/-- A valid library without collisions can be prepared and emitted in both flavors, whatever it
depends on. Both outputs then declare the same entities, each as often, and both runs give the
same warnings. Item by item they differ only in how types and supertypes are spelled: heads and
comments, members, the marks of parameters and the modifiers are the same, and so are the modules
that are registered. -/
theorem flavors_agree {primary : Library} (hd : primary.description.check = .ok ())
    (hclear : primary.table.ensureNoCollisions = .ok ()) (dependencies : List Library)
    (isStrict : Bool) :
    ∃ prepared, primary.prepare dependencies isStrict = .ok prepared ∧
      ∃ modules globals, prepared.emit .modules = .ok modules ∧
        prepared.emit .globals = .ok globals ∧
        modules.document.entities.Perm globals.document.entities ∧
        (∀ warning, warning ∈ modules.warnings ↔ warning ∈ globals.warnings) ∧
        (modules.document.items.map Item.unspelled).Perm
          (globals.document.items.map Item.unspelled) ∧
        modules.document.registry = globals.document.registry := by
  obtain ⟨linked, hrun, hprepare⟩ := Library.prepare_of_clear hclear dependencies isStrict
  refine ⟨_, hprepare, _, _, emit_of_run hrun _ _ .modules, emit_of_run hrun _ _ .globals, ?_⟩
  have hfollows := Writer.follows_writerFor primary.name
    (primary.table.withDependencies (dependencies.map Library.visibleTable))
    (primary.directives.merge (dependencies.map Library.directives)) (namingOf linked.arena)
    linked.description.top
  have hunique := Library.nodup_names hd hclear hrun
  have hperm := hfollows.perm_live_entries hunique (namesAll_of_run hd hrun rfl)
  obtain ⟨houtlines, hwarnings⟩ := Writer.perm_of_live hperm
  refine ⟨?_, fun warning => ?_, ?_, rfl⟩
  · rw [entities_eq, entities_eq, map_outline_emitNamed, map_outline_emitNamed]
    exact houtlines.flatMap_right _
  · rw [warnings_emitNamed, warnings_emitNamed, Ordered.Set.mem_insertAll,
      Ordered.Set.mem_insertAll]
    exact or_congr_right hwarnings.mem_iff
  · rw [map_unspelled_emitNamed, map_unspelled_emitNamed]
    exact Writer.perm_filterMap_of_live _ (fun _ => trivial) hperm

/-- A library with an excluded class, an empty namespace, and a namespace without a module. -/
def mixed : Library :=
  ⟨"lib", .ofTop (.plain "" [] [.plain "lib" [.plain "Widget", .plain "Hidden"]
    [.plain "Empty" [] [], .plain "outer" [] [.plain "inner" [.plain "Part"] []]]]), sparing⟩

/-- With an excluded class, an empty namespace and one without a module, both flavors have the same
entities, warnings, views and registry. -/
theorem flavors_agree_mixed :
    mixed.description.check = .ok () ∧ mixed.table.ensureNoCollisions = .ok () ∧
      ∃ prepared, mixed.prepare [mixed] true = .ok prepared ∧
        ∃ modules globals, prepared.emit .modules = .ok modules ∧
          prepared.emit .globals = .ok globals ∧
          modules.document.entities.Perm globals.document.entities ∧
          (∀ warning, warning ∈ modules.warnings ↔ warning ∈ globals.warnings) ∧
          (modules.document.items.map Item.unspelled).Perm
            (globals.document.items.map Item.unspelled) ∧
          modules.document.registry = globals.document.registry := by
  have hvalid : mixed.description.check = .ok () := by decide
  have hclear : mixed.table.ensureNoCollisions = .ok () := by decide
  exact ⟨hvalid, hclear, flavors_agree hvalid hclear [mixed] true⟩

end Ambient.Declaration
