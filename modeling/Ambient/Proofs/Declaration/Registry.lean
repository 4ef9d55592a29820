import Ambient.Proofs.Declaration.InSight
import Ambient.Proofs.Ordered

/-!
# The registry and the module blocks

The registry of modules is settled by the plan, before anything is written; the blocks are written
in another pass over the namespaces. Both go through the namespaces in sight below the top level in
the same order. The plan lists the dotted names of those that hold something for a module. Writing
makes a block for each namespace whose dotted name is listed, so that a namespace that holds nothing
has a block, too, if another one with its name is listed.
-/

namespace Ambient.Declaration

open Api

variable {d : Directives} {nameOf : Naming} {top ns : Namespace} {fqn : String}

/-! ## Namespaces in sight, in order -/

/-- The namespace that a visit emits. -/
def Visit.shown? : Visit → Option Namespace
  | .excluded _ => none
  | .emitted _ ns => some ns

/-- The namespaces in sight from one, each before those nested in it. -/
def shown (d : Directives) (nameOf : Naming) (ns : Namespace) : List Namespace :=
  (visits d nameOf ns).filterMap Visit.shown?

/-- The namespaces in sight below the top level. -/
def shownBelow (d : Directives) (nameOf : Naming) (top : Namespace) : List Namespace :=
  top.nested.flatMap (shown d nameOf)

/-- Of an excluded namespace nothing is shown. -/
theorem shown_of_excluded (h : excludes d (nameOf.nameSpace ns) = true) :
    shown d nameOf ns = [] := by
  rw [shown, visits_of_excluded h]
  rfl

/-- A namespace that is not excluded is shown before what is below it. -/
theorem shown_of_not_excluded (h : excludes d (nameOf.nameSpace ns) = false) :
    shown d nameOf ns = ns :: shownBelow d nameOf ns := by
  rw [shown, visits_of_not_excluded h, List.filterMap_cons, List.filterMap_flatMap]
  rfl

/-- The namespaces shown are those in sight. -/
theorem mem_shown : ns ∈ shown d nameOf top ↔ InSight d nameOf top ns := by
  rw [inSight_iff, shown, List.mem_filterMap]
  constructor
  · rintro ⟨visit, hvisit, hshown⟩
    cases visit with
    | excluded name => cases hshown
    | emitted name inner =>
      obtain rfl := Option.some.inj hshown
      obtain ⟨rfl, _⟩ := of_mem_visits hvisit
      exact hvisit
  · intro hvisit
    exact ⟨_, hvisit, rfl⟩

/-- The namespaces shown below one are those in sight from the namespaces nested in it. -/
theorem mem_shownBelow :
    ns ∈ shownBelow d nameOf top ↔ ∃ first ∈ top.nested, InSight d nameOf first ns := by
  simp only [shownBelow, List.mem_flatMap, mem_shown]

/-! ## The plan -/

/-- The dotted names in the registry: those of the namespaces in sight below the top level that hold
something for a module. -/
def registered (d : Directives) (nameOf : Naming) (top : Namespace) : Ordered.Set String :=
  .ofList (((shownBelow d nameOf top).filter (Fills d nameOf)).map nameOf.nameSpace)

/-- Registered are the names of the namespaces in sight below the top level that fill a module. -/
theorem mem_registered :
    fqn ∈ (registered d nameOf top).toList ↔
      ∃ ns, (∃ first ∈ top.nested, InSight d nameOf first ns) ∧ nameOf.nameSpace ns = fqn ∧
        Fills d nameOf ns := by
  simp only [registered, Ordered.Set.mem_ofList, List.mem_map, List.mem_filter, mem_shownBelow,
    decide_eq_true_eq]
  exact exists_congr fun ns => by rw [and_assoc, and_comm (b := nameOf.nameSpace ns = fqn)]

/-- Without a dotted name at the top level, and with one everywhere below it, planning lists the
dotted names of the registry. -/
theorem modules_eq_registered (htop : nameOf.nameSpace top = "")
    (hnames : ∀ ns ∈ shownBelow d nameOf top, nameOf.nameSpace ns ≠ "") :
    (Plan.of d nameOf top).modules = registered d nameOf top := by
  let name? (ns : Namespace) : Option String :=
    if nameOf.nameSpace ns ≠ "" ∧ Fills d nameOf ns then some (nameOf.nameSpace ns) else none
  have hvisit : ∀ visit ∈ visits d nameOf top,
      visit.moduleName? d nameOf = visit.shown?.bind name? := by
    intro visit hvisit
    cases visit with
    | excluded name => rfl
    | emitted name ns =>
      obtain ⟨rfl, _⟩ := of_mem_visits hvisit
      exact moduleName?_emitted ns
  have hbelow : ∀ ns ∈ shownBelow d nameOf top,
      name? ns = if Fills d nameOf ns then some (nameOf.nameSpace ns) else none := by
    intro ns hns
    simp only [name?, hnames ns hns, ne_eq, not_false_eq_true, true_and]
  have hnone : name? top = none := if_neg fun h => h.1 htop
  rw [Plan.of, List.filterMap_congr hvisit, ← List.filterMap_filterMap]
  refine congrArg Ordered.Set.ofList ?_
  rw [← shown, shown_of_not_excluded (not_excludes_unnamed htop), List.filterMap_cons_none hnone,
    List.filterMap_congr hbelow]
  rw [← List.filterMap_eq_map, ← List.filterMap_eq_filter, List.filterMap_filterMap]
  refine List.filterMap_congr fun ns _ => ?_
  by_cases hfills : Fills d nameOf ns <;> simp [Option.guard, hfills]

/-- Of each dotted name in the registry, the first namespace in sight holds something for a
module. -/
def Led (d : Directives) (nameOf : Naming) (top : Namespace) : Prop :=
  ∀ ns, (shownBelow d nameOf top).find? (fun other => nameOf.nameSpace other = nameOf.nameSpace ns)
      = some ns →
    nameOf.nameSpace ns ∈ (registered d nameOf top).toList → Fills d nameOf ns

/-- Where no two namespaces in sight share a dotted name, every one comes first under its own. -/
theorem led_of_nodup (h : ((shownBelow d nameOf top).map nameOf.nameSpace).Nodup) :
    Led d nameOf top := by
  intro ns hfirst hlisted
  obtain ⟨other, hother, hsame, hfills⟩ := mem_registered.mp hlisted
  have heq : other = ns :=
    List.inj_on_of_nodup_map h (mem_shownBelow.mpr hother) (List.mem_of_find?_eq_some hfirst) hsame
  exact heq ▸ hfills

/-- The dotted names of the namespaces in sight, less those that are not in the registry, first
appear in the order of the registry. -/
theorem Led.ofList_filter (h : Led d nameOf top) :
    .ofList (((shownBelow d nameOf top).map nameOf.nameSpace).filter
      (registered d nameOf top).contains) = registered d nameOf top := by
  refine Ordered.Set.ofList_map_filter nameOf.nameSpace (fun ns hns hfills => ?_)
    fun ns hfirst hlisted => ?_
  · exact (Ordered.Set.contains_iff _ _).mpr
      (mem_registered.mpr ⟨ns, mem_shownBelow.mp hns, rfl, of_decide_eq_true hfills⟩)
  · exact decide_eq_true (h ns hfirst ((Ordered.Set.contains_iff _ _).mp hlisted))

/-! ## The blocks -/

/-- There is a block for each namespace in sight whose dotted name is listed, whatever it holds. -/
theorem Writer.Follows.map_fst_blockPlans {w : Writer} (hw : w.Follows top)
    (modules : Ordered.Set String) (ns : Namespace) :
    Meets w.directives w.nameOf top ns → (w.blockPlans modules ns).map Prod.fst
      = ((shown w.directives w.nameOf ns).map w.nameOf.nameSpace).filter modules.contains := by
  induction ns using Namespace.induction with
  | step scope nested ih =>
    intro h
    cases hns : excludes w.directives (w.nameOf.nameSpace ⟨scope, nested⟩) with
    | true =>
      rw [hw.blockPlans_of_excluded h hns, shown_of_excluded hns]
      rfl
    | false =>
      have hnested : (nested.flatMap (w.blockPlans modules)).map Prod.fst
          = ((shownBelow w.directives w.nameOf ⟨scope, nested⟩).map w.nameOf.nameSpace).filter
              modules.contains := by
        rw [List.map_flatMap, shownBelow, List.map_flatMap, List.filter_flatMap]
        exact List.flatMap_congr fun child hchild => ih child hchild (h.nested hns hchild)
      rw [hw.blockPlans_of_not_excluded h hns, shown_of_not_excluded hns, List.map_append, hnested,
        List.map_cons, List.filter_cons, Writer.ownPlan]
      split <;> rfl

/-- The path of the module of a block. -/
def Block.path (b : Block) : String := Reference.modulePath b.fqn

/-- The blocks are those of the namespaces shown below the top level that have a module. -/
theorem map_fqn_blocks (library : String) (table : Symbol.Table)
    (htop : excludes d (nameOf.nameSpace top) = false) :
    (emitNamed library table d .modules nameOf top).document.blocks.map Block.fqn
      = ((shownBelow d nameOf top).map nameOf.nameSpace).filter
          (Plan.of d nameOf top).modules.contains := by
  let w := writerFor library table d nameOf (Plan.of d nameOf top)
  have hfollows : w.Follows top := Writer.follows_writerFor library table d nameOf top
  have hblocks := congrArg (fun outline => outline.2.map Prod.fst)
    (documentOutline_emitNamed library table d .modules nameOf top)
  simp only [Writer.documentOutline, Writer.planOutlines, List.map_map] at hblocks
  refine hblocks.trans ?_
  change (w.blockPlansOf _ top.nested).map Prod.fst = _
  rw [Writer.blockPlansOf_eq, List.map_flatMap, shownBelow, List.map_flatMap, List.filter_flatMap]
  exact List.flatMap_congr fun child hchild =>
    hfollows.map_fst_blockPlans _ child (Meets.refl.nested htop hchild)

/-- The modules of an emission are those planned, in their order. -/
theorem modules_emitNamed (library : String) (table : Symbol.Table) (flavor : Flavor) :
    (emitNamed library table d flavor nameOf top).modules
      = (Plan.of d nameOf top).modules.toList.map Reference.modulePath := by
  cases flavor <;> rfl

/-- The text ends in the registry, before which there may be an empty line. -/
theorem Document.text_eq (document : Document) :
    ∃ gap ∈ ["", "\n"], document.text
      = Line.join (Tree.linesOf 0 document.script ++ document.blocks.flatMap Block.lines) ++ gap
        ++ Line.join (registryLines document.registry) := by
  rw [Document.text]
  split
  · next hnone =>
    rw [registryLines, if_pos hnone]
    exact ⟨"", by simp, by simp [Line.join]⟩
  · split
    · exact ⟨"\n", by simp, rfl⟩
    · exact ⟨"", by simp, rfl⟩

/-! ## Emission -/

section Emission

variable {library : String} {table : Symbol.Table} {described : Description}
  {linked : Correction.Linked}

/-- The namespaces in sight below the top level of a corrected library have dotted names. -/
theorem nameSpace_ne_of_run (hd : described.check = .ok ())
    (hrun : Correction.run library table described = .ok linked)
    (htop : excludes d (namingOf linked.arena |>.nameSpace linked.description.top) = false) :
    ∀ ns ∈ shownBelow d (namingOf linked.arena) linked.description.top,
      (namingOf linked.arena).nameSpace ns ≠ "" := by
  intro ns hns
  obtain ⟨_, outer, houter, hnested⟩ := (exists_inSight_nested_iff htop).mp (mem_shownBelow.mp hns)
  obtain ⟨x, hx, hname⟩ := houter.exists_definition hnested ""
  have hnames := namesAll_of_run hd hrun
    (w := writerFor library table d (namingOf linked.arena) default) rfl
  exact hname ▸ hnames x hx

/-- A corrected library whose top level is unnamed can be emitted in either flavor, and the modules
that are listed and written into the registry are in both those of the namespaces below the top
level that are in sight and hold something for a module. The blocks are for the same dotted names,
one for each namespace in sight that has such a name; so repeats apart they come in the order of the
registry if of each name the first namespace in sight holds something. -/
theorem registry_of_emit (hd : described.check = .ok ())
    (hrun : Correction.run library table described = .ok linked) (hunnamed : described.top.name = "")
    (merged : Symbol.Table) (directives : Directives) (flavor : Flavor) :
    let nameOf := namingOf linked.arena
    let top := linked.description.top
    let listed := registered directives nameOf top
    (∀ fqn, fqn ∈ listed.toList ↔
      ∃ ns, (∃ first ∈ top.nested, InSight directives nameOf first ns) ∧
        nameOf.nameSpace ns = fqn ∧ Fills directives nameOf ns) ∧
    ∃ e, emit linked merged directives flavor = .ok e ∧
      e.modules = listed.toList.map Reference.modulePath ∧
      (∃ gap ∈ ["", "\n"], e.text
        = Line.join (Tree.linesOf 0 e.document.script ++ e.document.blocks.flatMap Block.lines)
          ++ gap ++ Line.join (registryLines e.modules)) ∧
      (flavor = .modules →
        e.document.blocks.map Block.fqn
          = ((shownBelow directives nameOf top).map nameOf.nameSpace).filter listed.contains ∧
        (∀ fqn, fqn ∈ e.document.blocks.map Block.fqn ↔ fqn ∈ listed.toList) ∧
        (Led directives nameOf top → Ordered.Set.ofList (e.document.blocks.map Block.path)
          = Ordered.Set.ofList e.modules)) := by
  intro nameOf top listed
  have htop : nameOf.nameSpace top = "" := by
    have hname := namingOf_of_run hd hrun (Namespace.mem_definitions.mpr (.inl rfl))
    rw [hunnamed, under_unnamed] at hname
    exact hname
  have hshown := not_excludes_unnamed (d := directives) htop
  have hplan := modules_eq_registered htop (nameSpace_ne_of_run hd hrun hshown)
  refine ⟨fun _ => mem_registered, _, emit_of_run hrun merged directives flavor, ?_,
    Document.text_eq _, ?_⟩
  · rw [modules_emitNamed, hplan]
  · rintro rfl
    have hblocks := map_fqn_blocks library merged hshown
    rw [hplan] at hblocks
    refine ⟨hblocks, fun fqn => ?_, fun hled => ?_⟩
    · rw [hblocks, List.mem_filter, Ordered.Set.contains_iff, and_iff_right_of_imp]
      intro hlisted
      obtain ⟨ns, hns, hname, _⟩ := mem_registered.mp hlisted
      exact List.mem_map.mpr ⟨ns, mem_shownBelow.mpr hns, hname⟩
    · have hpath : Block.path = Reference.modulePath ∘ Block.fqn := rfl
      have hsame := Ordered.Set.ofList_map Reference.modulePath
        (((shownBelow directives nameOf top).map nameOf.nameSpace).filter listed.contains)
      rw [hled.ofList_filter] at hsame
      rw [hpath, ← List.map_map, hblocks, modules_emitNamed, hplan]
      exact hsame.symm

/-- A library with namespaces in namespaces, one of which is empty. -/
def withSubspaces : Description :=
  .ofTop (.plain "" [] [.plain "ui" [.plain "Panel"] [.plain "hidden" [.plain "Widget"] []],
    .plain "util" [] [.plain "text" [.plain "Reader"] [], .plain "none" [] []]])

/-- Directives that leave out the symbols of a list. -/
def leavingOut (symbols : List String) : Directives :=
  { Directives.empty with badSymbols := .ofList symbols }

/-- With one namespace excluded and an empty one, the others have a module and a block each. -/
theorem registry_of_emit_withSubspaces :
    withSubspaces.check = .ok () ∧ withSubspaces.top.name = "" ∧
      ∃ linked,
        Correction.run "lib" (.ofDescription "lib" withSubspaces) withSubspaces = .ok linked ∧
        ∃ e, emit linked (.empty "") (leavingOut ["ui.hidden"]) .modules = .ok e ∧
          e.modules = ["ui", "util", "util/text"] ∧
          Ordered.Set.ofList (e.document.blocks.map Block.path) = Ordered.Set.ofList e.modules := by
  have hvalid : withSubspaces.check = .ok () := by decide
  have hrun :
      Correction.run "lib" (.ofDescription "lib" withSubspaces) withSubspaces = .ok _ := rfl
  obtain ⟨_, e, hemit, hmodules, _, hblocks⟩ :=
    registry_of_emit hvalid hrun rfl (.empty "") (leavingOut ["ui.hidden"]) .modules
  exact ⟨hvalid, rfl, _, hrun, e, hemit, hmodules.trans (by decide),
    (hblocks rfl).2.2 (led_of_nodup (by decide))⟩

/-- A library with a namespace that is empty the first time it comes. -/
def withRepeated : Description :=
  .ofTop (.plain "" [] [.plain "a" [] [], .plain "b" [.plain "Panel"] [],
    .plain "a" [.plain "Widget"] []])

/-- The blocks come in another order than the registry where the first namespace of a name holds
nothing, and all are in sight although the dotted name of the top level is to be left out. -/
theorem not_registry_of_emit_withRepeated :
    withRepeated.check = .ok () ∧
      ∃ linked, Correction.run "lib" (.ofDescription "lib" withRepeated) withRepeated = .ok linked ∧
        (leavingOut [""]).isBadSymbol
          ((namingOf linked.arena).nameSpace linked.description.top) = true ∧
        ∃ e, emit linked (.empty "") (leavingOut [""]) .modules = .ok e ∧
          e.modules = ["b", "a"] ∧
          (Ordered.Set.ofList (e.document.blocks.map Block.path)).toList = ["a", "b"] := by
  have hrun : Correction.run "lib" (.ofDescription "lib" withRepeated) withRepeated = .ok _ := rfl
  exact ⟨by decide, _, hrun, by decide, _, emit_of_run hrun _ _ _, by decide, by decide⟩

end Emission

end Ambient.Declaration
