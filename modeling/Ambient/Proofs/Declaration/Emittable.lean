import Ambient.Proofs.Preparation

/-!
# Corrections after linking

The corrections only leave nodes out and change types, so that they ask an arena for no link that
it did not give. Once a description is linked it can be corrected over and over, with the arena
left as it was: everything that emission asks for can still be read.
-/

namespace Ambient

open Api

namespace Declaration

/-! ## Leaving out nodes -/

/-- Nodes of the visible part of a collection stand among those of the collection, in their order.
-/
theorem flatMap_visibleOf_sublist {α β : Type} (visibility : α → Option Visibility)
    (visible : α → α) (nodes : α → List β) (h : ∀ a, (nodes (visible a)).Sublist (nodes a))
    (items : List α) :
    (((visibleOf visibility items).map visible).flatMap nodes).Sublist (items.flatMap nodes) := by
  induction items with
  | nil => exact List.Sublist.refl []
  | cons a rest ih =>
    rw [visibleOf, List.filter_cons]
    split
    · exact (h a).append ih
    · exact ih.trans (List.sublist_append_right _ _)

/-- The nodes of the visible variables stand among those of all variables. -/
theorem variableNodes_visibleOf_sublist (list : List Variable) :
    (variableNodes (visibleOf Variable.visibility list)).Sublist (variableNodes list) :=
  List.filter_sublist.map _

/-- The nodes of the visible functions stand among those of all functions. -/
theorem functionNodes_visibleOf_sublist (list : List Function) :
    (functionNodes (visibleOf Function.visibility list)).Sublist (functionNodes list) :=
  List.filter_sublist.map _

/-- The nodes of the visible part of a scope stand among those of the scope. -/
theorem scopeNodes_visible_sublist (s : Scope) :
    (scopeNodes s.visible).Sublist (scopeNodes s) := by
  refine ((((variableNodes_visibleOf_sublist s.constants).append
    (functionNodes_visibleOf_sublist s.functions)).append
    (flatMap_visibleOf_sublist _ _ _ (fun c => ?_) s.classes)).append
    (flatMap_visibleOf_sublist _ _ _ (fun i => ?_) s.interfaces)).append
    (flatMap_visibleOf_sublist _ _ _ (fun e => ?_) s.enums)
  · exact (((functionNodes_visibleOf_sublist c.constructors).cons_cons _).append
      (variableNodes_visibleOf_sublist c.fields)).append
      (functionNodes_visibleOf_sublist c.methods)
  · exact ((variableNodes_visibleOf_sublist i.properties).cons_cons _).append
      (functionNodes_visibleOf_sublist i.methods)
  · exact (variableNodes_visibleOf_sublist e.values).cons_cons _

/-- The nodes of what is visible in a namespace are some of its nodes. -/
theorem namedNodes_visible_sublist (ns : Namespace) :
    (namedNodes ns.visible).Sublist (namedNodes ns) := by
  induction ns using Namespace.induction with
  | step scope nested ih =>
    have hnested : (namedNodesOf (Namespace.visibleAll nested)).Sublist (namedNodesOf nested) := by
      induction nested with
      | nil => exact List.Sublist.refl []
      | cons child rest ihRest =>
        obtain ⟨hchild, hrest⟩ := List.forall_mem_cons.mp ih
        obtain ⟨inner, deeper⟩ := child
        rw [Namespace.visibleAll, namedNodesOf]
        split
        · exact hchild.append (ihRest hrest)
        · exact (ihRest hrest).trans (List.sublist_append_right _ _)
    rw [Namespace.visible, namedNodes, namedNodes]
    exact ((scopeNodes_visible_sublist scope).cons_cons _).append hnested

/-! ## Changing one namespace -/

/-- A namespace with nodes left out of nested ones has fewer nodes itself. -/
theorem namedNodes_nested_sublist (scope : Scope) {nested changed : List Namespace}
    (h : List.Forall₂ (fun now before => (namedNodes now).Sublist (namedNodes before))
      changed nested) :
    (namedNodes ⟨scope, changed⟩).Sublist (namedNodes ⟨scope, nested⟩) := by
  have hnested : (namedNodesOf changed).Sublist (namedNodesOf nested) := by
    induction h with
    | nil => exact List.Sublist.refl []
    | cons hchild _ ih => exact hchild.append ih
  rw [namedNodes, namedNodes]
  exact (List.Sublist.refl _).append hnested

/-- Nodes of nested namespaces that stay as they are stand among themselves. -/
theorem forall₂_sublist_refl (nested : List Namespace) :
    List.Forall₂ (fun now before => (namedNodes now).Sublist (namedNodes before)) nested nested :=
  List.forall₂_same.mpr fun _ _ => List.Sublist.refl _

/-- Whatever leaves out nodes of any namespace leaves out nodes of those around it, too. -/
theorem namedNodes_modifyAt_sublist {change : Namespace → Namespace}
    (h : ∀ ns, (namedNodes (change ns)).Sublist (namedNodes ns)) (way : List String) :
    ∀ ns : Namespace, (namedNodes (ns.modifyAt change way)).Sublist (namedNodes ns) := by
  induction way with
  | nil => exact h
  | cons name way ih =>
    intro ns
    obtain ⟨scope, nested⟩ := ns
    rw [Namespace.modifyAt]
    refine namedNodes_nested_sublist scope ?_
    induction nested with
    | nil => exact .nil
    | cons child rest ihRest =>
      rw [Namespace.replaceFirst]
      split
      · exact .cons (ih child) (forall₂_sublist_refl rest)
      · exact .cons (List.Sublist.refl _) ihRest

/-- Changes the namespace at a position: the place of each namespace on the way among those nested
in the one around it. -/
def changeAt (change : Namespace → Namespace) : List Nat → Namespace → Namespace
  | [], ns => change ns
  | place :: way, ns => { ns with nested := ns.nested.modify place (changeAt change way) }

/-- If a change of namespaces only takes nodes away, then so does the change at the end of a way. -/
theorem namedNodes_changeAt_sublist {change : Namespace → Namespace}
    (h : ∀ ns, (namedNodes (change ns)).Sublist (namedNodes ns)) (way : List Nat) :
    ∀ ns : Namespace, (namedNodes (changeAt change way ns)).Sublist (namedNodes ns) := by
  induction way with
  | nil => exact h
  | cons place way ih =>
    intro ns
    obtain ⟨scope, nested⟩ := ns
    rw [changeAt]
    refine namedNodes_nested_sublist scope ?_
    induction nested generalizing place with
    | nil =>
      rw [List.modify_nil]
      exact .nil
    | cons child rest ihRest =>
      cases place with
      | zero =>
        rw [List.modify_zero_cons]
        exact .cons (ih child) (forall₂_sublist_refl rest)
      | succ place =>
        rw [List.modify_succ_cons]
        exact .cons (List.Sublist.refl _) (ihRest place)

/-- Narrowing the first function of a name leaves the nodes of all functions. -/
theorem functionNodes_narrowFirst (functions : List Function) (target : String × String) :
    functionNodes (Correction.narrowFirst functions target) = functionNodes functions := by
  rw [Correction.narrowFirst]
  induction functions with
  | nil => rfl
  | cons f rest ih =>
    rw [Namespace.replaceFirst]
    split
    · rfl
    · exact congrArg (List.cons _) ih

/-- Narrowing signatures leaves all nodes whose names are asked for. -/
theorem scopeNodes_narrowScope (s : Scope) :
    scopeNodes (Correction.narrowScope s) = scopeNodes s := by
  have hfunctions (targets : List (String × String)) (functions : List Function) :
      functionNodes (targets.foldl Correction.narrowFirst functions) = functionNodes functions := by
    induction targets generalizing functions with
    | nil => rfl
    | cons target rest ih => exact (ih _).trans (functionNodes_narrowFirst functions target)
  rw [scopeNodes, scopeNodes, Correction.narrowScope, hfunctions]

/-- Narrowing the loader brings no nodes that are to be named. -/
theorem namedNodes_narrowLoader_sublist (library : String) (table : Symbol.Table)
    (d : Description) :
    (namedNodes (Correction.narrowLoader library table d).top).Sublist (namedNodes d.top) := by
  unfold Correction.narrowLoader
  split
  · refine namedNodes_modifyAt_sublist (fun ns => ?_) _ d.top
    obtain ⟨scope, nested⟩ := ns
    rw [namedNodes, namedNodes, scopeNodes_narrowScope]
    exact List.Sublist.refl _
  · exact List.Sublist.refl _

end Declaration

namespace Correction

open Declaration

/-! ## Corrections one after the other -/

/-- A correction by itself: all of them, leaving out what is restricted below the namespace at some
position, or narrowing the loader's signatures. Neither library nor table need be the ones of the
description. -/
inductive Phase where
  | all (library : String) (table : Symbol.Table)
  | hide (way : List Nat)
  | narrow (library : String) (table : Symbol.Table)

/-- Corrects a description without linking it. -/
def Phase.apply (d : Description) : Phase → Description
  | .all library table => (correct library table d).1
  | .hide way => { d with top := changeAt Namespace.visible way d.top }
  | .narrow library table => narrowLoader library table d

/-- One correction asks for no name that was not asked for before. -/
theorem Phase.namedNodes_apply_sublist (phase : Phase) (d : Description) :
    (namedNodes (phase.apply d).top).Sublist (namedNodes d.top) := by
  cases phase with
  | all library table =>
    exact (namedNodes_narrowLoader_sublist library table d.visible).trans
      (namedNodes_visible_sublist d.top)
  | hide way => exact namedNodes_changeAt_sublist namedNodes_visible_sublist way d.top
  | narrow library table => exact namedNodes_narrowLoader_sublist library table d

/-- However many corrections there are, they ask for no name that was not asked for before. -/
theorem namedNodes_foldl_apply_sublist (phases : List Phase) (d : Description) :
    (namedNodes (phases.foldl Phase.apply d).top).Sublist (namedNodes d.top) := by
  induction phases generalizing d with
  | nil => exact List.Sublist.refl _
  | cons phase rest ih => exact (ih (phase.apply d)).trans (phase.namedNodes_apply_sublist d)

/-- Every dotted name that emission asks for can be read off the links. -/
def Linked.Readable (linked : Linked) : Prop :=
  ∀ asked ∈ namedNodes linked.description.top,
    ∃ fqn, linked.arena.fqnOf asked.1 asked.2 = .ok fqn

/-- What is readable can be emitted, with any table and directives. -/
theorem Linked.Readable.emit {linked : Linked} (h : linked.Readable) (table : Symbol.Table)
    (directives : Directives) (flavor : Flavor) :
    ∃ e, Declaration.emit linked table directives flavor = .ok e := by
  rw [Declaration.emit, checkNames_eq_ok.mpr h]
  exact ⟨_, rfl⟩

/-- A linked description is readable after any corrections that leave its arena. -/
theorem readable_foldl_apply (phases : List Phase) (d : Description) (library : String)
    (report : Report) :
    Linked.Readable ⟨library, phases.foldl Phase.apply (Link.attach d).1, (Link.attach d).2,
      report⟩ := by
  intro asked hasked
  have hbefore := (namedNodes_foldl_apply_sublist phases (Link.attach d).1).subset hasked
  exact checkNames_eq_ok.mp (checkNames_attach d) asked hbefore

end Correction

namespace Library

open Declaration Correction

/-- A prepared library can be emitted in either flavor, and no name that this asks for is missing.
The same holds of any linked description, whatever corrections are made after linking it, and
whatever table and directives it is emitted with. -/
theorem emits_prepared_and_corrected :
    (∀ (primary : Library) (dependencies : List Library) (isStrict : Bool) (p : Prepared),
      primary.prepare dependencies isStrict = .ok p →
        p.linked.Readable ∧ ∀ flavor, ∃ e, p.emit flavor = .ok e) ∧
    ∀ (d : Description) (phases : List Phase) (library : String) (report : Report),
      let linked : Linked := ⟨library, phases.foldl Phase.apply (Link.attach d).1,
        (Link.attach d).2, report⟩
      linked.Readable ∧ ∀ (table : Symbol.Table) (directives : Directives) (flavor : Flavor),
        ∃ e, Declaration.emit linked table directives flavor = .ok e := by
  constructor
  · intro primary dependencies isStrict p h
    have hreadable : p.linked.Readable := fun asked hasked =>
      ⟨_, fqnOf_namedNodes (of_prepare h).1 asked hasked⟩
    exact ⟨hreadable, fun flavor => hreadable.emit p.table p.directives flavor⟩
  · intro d phases library report linked
    have hreadable : linked.Readable := readable_foldl_apply phases d library report
    exact ⟨hreadable, fun table directives flavor => hreadable.emit table directives flavor⟩

/-- A library whose only class has a restricted constructor, emitted with one that it depends on. -/
theorem emits_prepared_and_corrected_guarded :
    let hidden : Function := { (default : Function) with visibility := some .restricted }
    let described (top : Namespace) : Library := ⟨"lib", .ofTop top, default⟩
    let primary := described (.plain "x" [{ Class.plain "Panel" with constructors := [hidden] }] [])
    ∃ p, primary.prepare [described (.plain "" [] [])] true = .ok p ∧
      ∀ flavor, ∃ e, p.emit flavor = .ok e := by
  intro hidden described primary
  have hclear : primary.table.ensureNoCollisions = .ok () := by decide
  obtain ⟨linked, _, hprepare⟩ := prepare_of_clear hclear [described (.plain "" [] [])] true
  exact ⟨_, hprepare, (emits_prepared_and_corrected.1 _ _ _ _ hprepare).2⟩

end Library

end Ambient
