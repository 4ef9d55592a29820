import Mathlib.Data.List.Basic
import Ambient.Correction.Basic
import Ambient.Proofs.Api.Validity
import Ambient.Proofs.Link.Nodes

/-!
# Definitions in corrected descriptions

Leaving out what is restricted removes definitions and keeps the order of the others. Narrowing
the loader's signatures and linking keep every definition under its path, so that a corrected
description defines nothing new.
-/

namespace Ambient

open Api

/-! ## Leaving out what is restricted -/

namespace Api

/-- The visible part of a list of classes, interfaces or enums, as definitions. -/
theorem map_visibleOf_sublist {α : Type} (visibility : α → Option Visibility) (visible : α → α)
    (node : α → TypeNode) (path : String)
    (hnode : ∀ a, (node (visible a)).definition path = (node a).definition path) (items : List α) :
    (((visibleOf visibility items).map visible).map fun a => (node a).definition path).Sublist
      (items.map fun a => (node a).definition path) := by
  have hsame : ((visibleOf visibility items).map visible).map (fun a => (node a).definition path)
      = (visibleOf visibility items).map fun a => (node a).definition path := by
    rw [List.map_map]
    exact List.map_congr_left fun a _ => hnode a
  rw [hsame]
  exact List.filter_sublist.map _

/-- A scope defines its classes, its interfaces and its enums, in this order. -/
theorem Scope.definitions_eq (path : String) (s : Scope) :
    s.definitions path = s.classes.map (fun c => (TypeNode.classType c).definition path)
      ++ s.interfaces.map (fun i => (TypeNode.interfaceType i).definition path)
      ++ s.enums.map (fun e => (TypeNode.enumType e).definition path) := by
  simp only [Scope.definitions, Scope.types, List.map_append, List.map_map, Function.comp_def]

/-- What is visible in a namespace itself is defined by it, under the same path. -/
theorem Scope.definitions_visible_sublist (path : String) (s : Scope) :
    (s.visible.definitions path).Sublist (s.definitions path) := by
  rw [Scope.definitions_eq, Scope.definitions_eq]
  refine ((map_visibleOf_sublist Class.visibility Class.visible .classType path ?_ _).append
    (map_visibleOf_sublist Interface.visibility Interface.visible .interfaceType path ?_ _)).append
    (map_visibleOf_sublist Enum.visibility Enum.visible .enumType path ?_ _)
  · exact fun _ => rfl
  · exact fun _ => rfl
  · exact fun _ => rfl

/-- The visible part of a namespace has its name. -/
theorem Namespace.visible_name (ns : Namespace) : ns.visible.name = ns.name := by
  obtain ⟨scope, nested⟩ := ns
  rw [Namespace.visible]
  rfl

/-- The visible part of a namespace defines a part of what the namespace does. -/
theorem Namespace.definitions_visible_sublist (ns : Namespace) :
    ∀ path : String, (ns.visible.definitions path).Sublist (ns.definitions path) := by
  induction ns using Namespace.induction with
  | step scope nested ih =>
    intro path
    have hnested : (Namespace.definitionsOf path (Namespace.visibleAll nested)).Sublist
        (Namespace.definitionsOf path nested) := by
      induction nested with
      | nil => exact List.Sublist.refl []
      | cons child rest ihRest =>
        have hrest := ihRest fun other hother => ih other (List.mem_cons_of_mem _ hother)
        have hchild := ih child List.mem_cons_self (joined path child.name)
        obtain ⟨inner, deeper⟩ := child
        rw [Namespace.visibleAll, Namespace.definitionsOf]
        split
        · exact hchild.append hrest
        · exact hrest.trans (List.sublist_append_right _ _)
    rw [Namespace.visible, Namespace.definitions, Namespace.definitions]
    exact (hnested.append (scope.definitions_visible_sublist path)).cons_cons _

end Api

/-! ## Narrowing the loader's signatures -/

namespace Correction

/-- Changing the functions of one namespace changes no definition. -/
theorem definitions_modifyAt (change : Namespace → Namespace)
    (hname : ∀ ns, (change ns).name = ns.name)
    (hsame : ∀ ns path, (change ns).definitions path = ns.definitions path) (way : List String) :
    ∀ (ns : Namespace) (path : String), (ns.modifyAt change way).name = ns.name ∧
      (ns.modifyAt change way).definitions path = ns.definitions path := by
  induction way with
  | nil => exact fun ns path => ⟨hname ns, hsame ns path⟩
  | cons name way ih =>
    intro ns path
    refine ⟨rfl, ?_⟩
    have hnested (nested : List Namespace) :
        (Namespace.replaceFirst (fun child => child.name == name)
            (Namespace.modifyAt change way) nested).flatMap
            (fun child => child.definitions (joined path child.name))
          = nested.flatMap fun child => child.definitions (joined path child.name) := by
      induction nested with
      | nil => rfl
      | cons child rest ihRest =>
        rw [Namespace.replaceFirst]
        split
        · rw [List.flatMap_cons, List.flatMap_cons, (ih child path).1, (ih child _).2]
        · rw [List.flatMap_cons, List.flatMap_cons, ihRest]
    rw [Namespace.definitions_eq, Namespace.definitions_eq, Namespace.inside, Namespace.inside,
      Namespace.definitionsOf_eq, Namespace.definitionsOf_eq, Namespace.modifyAt, hnested]
    rfl

/-- Narrowing the loader's signatures changes no definition. -/
theorem definitions_narrowLoader (library : String) (table : Symbol.Table) (d : Description)
    (path : String) :
    (narrowLoader library table d).top.name = d.top.name ∧
      (narrowLoader library table d).top.definitions path = d.top.definitions path := by
  unfold narrowLoader
  split
  · refine definitions_modifyAt (fun ns => { ns with scope := narrowScope ns.scope })
      (fun _ => rfl) (fun ns path => ?_) loaderPath d.top path
    rw [Namespace.definitions_eq, Namespace.definitions_eq]
    rfl
  · exact ⟨rfl, rfl⟩

end Correction

/-! ## Linking -/

namespace Link

/-- The symbols for what a namespace at a path declares itself do not depend on links. -/
theorem symbols_scopeOf (library path : String) (link : Api.Link) (s : Scope) (a : Arena) :
    (((scopeOf link s).run a).1.definitions path).map (Definition.symbol library)
      = (s.definitions path).map (Definition.symbol library) := by
  rw [Scope.definitions_eq, Scope.definitions_eq]
  simp only [List.map_append, List.map_map, Function.comp_def]
  refine congr (congrArg HAppend.hAppend (congr (congrArg HAppend.hAppend ?_) ?_)) ?_
  · exact map_mapM_run _ _ _ s.classes (fun _ _ _ => rfl) _
  · exact map_mapM_run _ _ _ s.interfaces (fun _ _ _ => rfl) _
  · exact map_mapM_run _ _ _ s.enums (fun _ _ _ => rfl) _

/-- The symbols for namespaces nested in the one at a path, and for what they define. -/
theorem map_symbol_definitionsOf (library path : String) (nested : List Namespace) :
    (Namespace.definitionsOf path nested).map (Definition.symbol library)
      = (nested.map fun child =>
          (child.definitions (joined path child.name)).map
            (Definition.symbol library)).flatten := by
  rw [Namespace.definitionsOf_eq, List.map_flatMap, List.flatMap_def]

/-- Linking a namespace keeps its name and the symbols for everything it defines. -/
theorem symbols_namespaceOf (library : String) (ns : Namespace) :
    ∀ (path : String) (owner : Option Nat) (a : Arena),
      ((namespaceOf owner ns).run a).1.name = ns.name ∧
      (((namespaceOf owner ns).run a).1.definitions path).map (Definition.symbol library)
        = (ns.definitions path).map (Definition.symbol library) := by
  induction ns using Namespace.induction with
  | step scope nested ih =>
    intro path owner a
    refine ⟨rfl, ?_⟩
    have hnested (owner : Option Nat) (a : Arena) :
        (Namespace.definitionsOf path ((namespacesOf owner nested).run a).1).map
            (Definition.symbol library)
          = (Namespace.definitionsOf path nested).map (Definition.symbol library) := by
      rw [namespacesOf_eq_mapM, map_symbol_definitionsOf, map_symbol_definitionsOf]
      refine congrArg List.flatten (map_mapM_run _ _ _ nested (fun child hchild a => ?_) a)
      obtain ⟨hname, hsymbols⟩ := ih child hchild (joined path child.name) owner a
      rw [hname]
      exact hsymbols
    rw [Namespace.definitions_eq, Namespace.definitions_eq, Namespace.inside, Namespace.inside]
    simp only [List.map_cons, List.map_append]
    refine congrArg (List.cons _) (congr (congrArg HAppend.hAppend (hnested _ _)) ?_)
    exact symbols_scopeOf library path _ scope _

/-- Linking a description keeps the name of its top level and the symbols for all definitions. -/
theorem symbols_attach (library path : String) (d : Description) :
    (attach d).1.top.name = d.top.name ∧
      ((attach d).1.top.definitions path).map (Definition.symbol library)
        = (d.top.definitions path).map (Definition.symbol library) :=
  symbols_namespaceOf library d.top path _ _

end Link

/-! ## Corrected descriptions -/

namespace Correction

variable {library : String} {table : Symbol.Table} {d : Description} {linked : Linked}

/-- A run links what is visible, with the loader's signatures narrowed. -/
theorem run_eq_ok :
    run library table d = .ok linked ↔
      table.library = library ∧
        linked = ⟨library, (Link.attach (narrowLoader library table d.visible)).1,
          (Link.attach (narrowLoader library table d.visible)).2,
          { (correct library table d).2 with
            linked := (Link.attach (narrowLoader library table d.visible)).2.size }⟩ := by
  by_cases hlibrary : table.library = library
  · rw [run, if_pos hlibrary]
    constructor
    · intro hrun
      exact ⟨hlibrary, (Except.ok.inj hrun).symm⟩
    · rintro ⟨_, rfl⟩
      rfl
  · rw [run, if_neg hlibrary]
    constructor
    · intro hrun
      cases hrun
    · intro hrun
      exact absurd hrun.1 hlibrary

/-- The top-level namespace keeps its name through a run. -/
theorem top_name_of_run (h : run library table d = .ok linked) :
    linked.description.top.name = d.top.name := by
  obtain ⟨_, rfl⟩ := run_eq_ok.mp h
  rw [(Link.symbols_attach "" "" _).1, (definitions_narrowLoader library table _ "").1]
  exact d.top.visible_name

/-- A corrected description defines a part of what the description does. -/
theorem symbols_sublist_of_run (h : run library table d = .ok linked) (name path : String) :
    ((linked.description.top.definitions path).map (Definition.symbol name)).Sublist
      ((d.top.definitions path).map (Definition.symbol name)) := by
  obtain ⟨_, rfl⟩ := run_eq_ok.mp h
  rw [(Link.symbols_attach name path _).2, (definitions_narrowLoader library table _ path).2]
  exact (d.top.definitions_visible_sublist path).map _

/-- Every definition of a corrected description is, links apart, one of the description. -/
theorem exists_definition_of_run (h : run library table d = .ok linked) {path : String}
    {x : Definition} (hx : x ∈ linked.description.top.definitions path) (name : String) :
    ∃ y ∈ d.top.definitions path, y.symbol name = x.symbol name := by
  have hmem := (symbols_sublist_of_run h name path).subset (List.mem_map_of_mem hx)
  exact List.mem_map.mp hmem

/-- Below its top level, too, a corrected description defines a part of what the description
does. -/
theorem symbols_inside_sublist_of_run (h : run library table d = .ok linked) (name path : String) :
    ((linked.description.top.inside path).map (Definition.symbol name)).Sublist
      ((d.top.inside path).map (Definition.symbol name)) := by
  have hsublist := symbols_sublist_of_run h name path
  have hhead : (linked.description.top.definition path).symbol name
      = (d.top.definition path).symbol name := by
    simp only [Definition.symbol, Namespace.definition, top_name_of_run h]
  rw [Namespace.definitions_eq, Namespace.definitions_eq, List.map_cons, List.map_cons,
    hhead] at hsublist
  exact List.cons_sublist_cons.mp hsublist

/-- What a corrected description defines below its top level has a name, if that was checked. -/
theorem inside_name_ne_of_run (hd : d.check = .ok ()) (h : run library table d = .ok linked)
    (path : String) : ∀ x ∈ linked.description.top.inside path, x.name ≠ "" := by
  intro x hx
  have hmem := (symbols_inside_sublist_of_run h "" path).subset (List.mem_map_of_mem hx)
  obtain ⟨y, hy, hsame⟩ := List.mem_map.mp hmem
  have hname : y.name = x.name := congrArg Symbol.name hsame
  rw [← hname]
  exact Description.inside_name_ne hd path y hy

end Correction

end Ambient
