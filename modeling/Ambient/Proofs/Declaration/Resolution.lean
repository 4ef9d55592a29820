import Ambient.Proofs.Declaration.Places
import Ambient.Proofs.Symbol.Owner

/-!
# References to a library's own symbols

A name of the library can be referred to exactly if the output declares a type under it: nothing
that is written leads nowhere, and nothing that is declared is written as `any`. The reference
leads to the place where the type is declared, since the dotted name of the namespace around it is
what stands before its last dot.
-/

namespace Ambient

namespace Reference

/-- A reference from a block adds at most the import of the symbol from its owner's module. -/
theorem Imports.mem_refer {i : Imports} {s : Symbol} {added : Import}
    (h : added ∈ (i.refer s).2.imports) :
    added ∈ i.imports ∨ (added.path = modulePath s.owner ∧ added.name = s.name) := by
  unfold refer at h
  split at h
  · exact .inl h
  · split at h
    · exact .inl h
    · obtain h | h := List.mem_append.mp h
      · exact .inl h
      · obtain rfl := List.mem_singleton.mp h
        exact .inr ⟨rfl, rfl⟩

end Reference

/-- The writer that a prepared library is emitted with. -/
def Library.Prepared.writer (p : Prepared) : Declaration.Writer :=
  let nameOf := Declaration.namingOf p.linked.arena
  Declaration.writerFor p.linked.library p.table p.directives nameOf
    (.of p.directives nameOf p.linked.description.top)

/-- What is emitted for a prepared library is what its writer writes. -/
theorem Library.Prepared.document_of_emit {p : Prepared} {flavor : Flavor}
    {e : Declaration.Emission} (h : p.emit flavor = .ok e) :
    let plan := Declaration.Plan.of p.directives (Declaration.namingOf p.linked.arena)
      p.linked.description.top
    e.document = ((p.writer.document flavor plan.modules p.linked.description.top).run
      ⟨Declaration.startingPlace flavor, Ordered.Set.ofList plan.warnings⟩).1 := by
  obtain ⟨_, hsame⟩ := Api.seq_eq_ok.mp h
  cases hsame
  rfl

namespace Declaration

open Api

/-- A document declares a symbol as a type where a reference to it leads: at script level if it
has no owner, and otherwise in a block of its owner's name. The path and the name with which another
block imports the symbol are then those of that block and of the declaration. -/
def Document.Exports (document : Document) (fqn : String) (s : Symbol) : Prop :=
  ∃ item : Item, item.declaresType fqn = true ∧ item.head.name = s.name ∧
    ((s.owner = "" ∧ item ∈ Tree.itemsOf document.script) ∨
      ∃ block ∈ document.blocks, block.fqn = s.owner ∧ item ∈ block.items ∧
        ∀ imports : Reference.Imports, ∀ added ∈ (imports.refer s).2.imports,
          added ∈ imports.imports ∨
            (added.path = Reference.modulePath block.fqn ∧ added.name = item.head.name))

/-- A symbol of the library itself can be referred to if it is not excluded but emitted, and as an
interface if it is a namespace. -/
theorem Resolver.isOk_resolve_iff {r : Resolver} {fqn : String} {s : Symbol}
    (h : r.table.get? fqn = some s) (hown : s.library = r.library) :
    (r.resolve fqn).isOk = true ↔
      r.directives.isBadSymbol fqn = false ∧ fqn ∈ r.emitted ∧
        (s.kind = .nameSpace → fqn ∈ r.interfaces ∨ r.directives.reclassifies fqn = true) := by
  have hlibrary : (s.library == r.library) = true := beq_iff_eq.mpr hown
  simp only [resolve, h, hlibrary, Bool.true_and]
  split
  · next hbad => simp [Except.isOk, Except.toBool, hbad]
  · next hbad =>
    split
    · next hemitted =>
      have hnot : fqn ∉ r.emitted := by simpa using hemitted
      simp [Except.isOk, Except.toBool, hnot]
    · next hemitted =>
      have hin : fqn ∈ r.emitted := by simpa using hemitted
      split
      · next hnameSpace =>
        simp only [Bool.and_eq_true, beq_iff_eq, Bool.not_eq_true', List.contains_eq_mem,
          decide_eq_false_iff_not] at hnameSpace
        simp [Except.isOk, Except.toBool, hnameSpace]
      · next hnameSpace =>
        have hkind : s.kind = .nameSpace →
            fqn ∈ r.interfaces ∨ r.directives.reclassifies fqn = true := by
          intro hkind
          by_contra hneither
          rw [not_or] at hneither
          exact hnameSpace (by simp [hkind, hneither])
        simpa [Except.isOk, Except.toBool, hbad, hin] using hkind

namespace Writer

variable {w : Writer} {top ns : Namespace} {fqn : String} {o : Outline}

/-- A writer names what a top-level namespace defines by the paths of its definitions, and its
table has their symbols. -/
structure Indexes (w : Writer) (top : Namespace) : Prop where
  named : ∀ x ∈ top.definitions "", w.nameOf x.link = x.path
  symbols : ∀ x ∈ top.definitions "", w.table.get? x.path = some (x.symbol w.library)

namespace Indexes

/-- The top level has no name. -/
theorem nameOf_top (hi : w.Indexes top) : w.nameOf.nameSpace top = "" :=
  hi.named _ (Namespace.mem_definitions.mpr (.inl rfl))

/-- A type that is declared at the place of a namespace is one of its definitions, and it is
emitted; a namespace is so as an interface. -/
theorem exists_definition (hi : w.Indexes top)
    (h : .emitted fqn ns ∈ visits w.directives w.nameOf top) (ho : o ∈ w.declaredTypes ns) :
    ∃ x ∈ top.definitions "", x.path = o.title.fqn ∧ x.name = o.title.name ∧
      x.path = joined (w.nameOf.nameSpace ns) x.name ∧ x.path ∈ w.emitted ∧
      (x.kind = .nameSpace → x.path ∈ w.interfaces) := by
  obtain ⟨here, hhere⟩ := exists_definitions_subset h ""
  have hplace : w.nameOf.nameSpace ns = here :=
    hi.named _ (hhere _ (Namespace.mem_definitions.mpr (.inl rfl)))
  rw [hplace]
  obtain ⟨n, hn, hemitted, rfl⟩ | ⟨child, hchild, hinterface, rfl⟩ := mem_declaredTypes.mp ho
  · have hx := hhere _ (Namespace.mem_definitions.mpr
      (.inr (Namespace.mem_inside.mpr (.inr ⟨n, hn, rfl⟩))))
    have hname : w.nameOf n.link = (n.definition here).path := hi.named _ hx
    refine ⟨_, hx, hname.symm, rfl, rfl, ?_, fun hkind => absurd hkind n.kind_ne_nameSpace⟩
    rw [← hname]
    exact List.contains_iff_mem.mp hemitted
  · have hx := hhere _ (Namespace.mem_definitions.mpr (.inr (Namespace.mem_inside.mpr
      (.inl ⟨child, hchild, Namespace.mem_definitions.mpr (.inl rfl)⟩))))
    have hname : w.nameOf child.scope.link = (child.definition (joined here child.name)).path :=
      hi.named _ hx
    obtain ⟨hemitted, hlisted⟩ := Bool.and_eq_true_iff.mp hinterface
    refine ⟨_, hx, hname.symm, rfl, rfl, ?_, fun _ => ?_⟩
    · rw [← hname]
      exact List.contains_iff_mem.mp hemitted
    · rw [← hname]
      exact List.contains_iff_mem.mp hlisted

/-- A namespace that is emitted as an interface is declared at the place of the one around it. -/
theorem exists_declaredType_of_nameSpace (hi : w.Indexes top) (hw : w.Follows top) (hfqn : fqn ≠ "")
    (h : .emitted fqn ns ∈ visits w.directives w.nameOf top) (hlisted : fqn ∈ w.interfaces) :
    ∃ name outer, .emitted name outer ∈ visits w.directives w.nameOf top ∧
      ∃ o ∈ w.declaredTypes outer, o.title.fqn = fqn := by
  obtain ⟨rfl, hshown⟩ := of_mem_visits h
  obtain rfl | ⟨outer, houter, hns⟩ := exists_parent h
  · exact absurd hi.nameOf_top hfqn
  · have hemitted : w.emitted.contains (w.nameOf.nameSpace ns) = true := by
      rw [hw.contains_nameSpace (Meets.of_mem_visits h), hshown]
      rfl
    have hinterface : w.isEmittedInterface ns = true :=
      Bool.and_eq_true_iff.mpr ⟨hemitted, List.contains_iff_mem.mpr hlisted⟩
    exact ⟨_, outer, houter, _, mem_declaredTypes.mpr (.inr ⟨ns, hns, hinterface, rfl⟩), rfl⟩

/-- A dotted name that is emitted, and as an interface if it is that of a namespace, is declared
as a type at the place of an emitted namespace. -/
theorem exists_declaredType (hi : w.Indexes top) (hw : w.Follows top) {s : Symbol}
    (hfqn : fqn ≠ "") (hs : w.table.get? fqn = some s) (hemitted : fqn ∈ w.emitted)
    (hkind : s.kind = .nameSpace → fqn ∈ w.interfaces ∨ w.directives.reclassifies fqn = true) :
    ∃ name ns, .emitted name ns ∈ visits w.directives w.nameOf top ∧
      ∃ o ∈ w.declaredTypes ns, o.title.fqn = fqn := by
  have hplanned := hemitted
  rw [hw.emitted] at hplanned
  obtain ⟨visit, hvisit, hname⟩ := List.mem_flatMap.mp hplanned
  cases visit with
  | excluded _ => cases hname
  | emitted name ns =>
    obtain rfl | ⟨n, hn, rfl, _⟩ := mem_emittedNames.mp hname
    · refine hi.exists_declaredType_of_nameSpace hw hfqn hvisit ?_
      -- The table has the namespace under this name, so a choice of the directives is about it.
      obtain ⟨here, hhere⟩ := exists_definitions_subset hvisit ""
      have hx := hhere _ (Namespace.mem_definitions.mpr (.inl rfl))
      have hpath : here = fqn := (hi.named _ hx).symm.trans (of_mem_visits hvisit).1
      have hsymbol : w.table.get? here = some ((ns.definition here).symbol w.library) :=
        hi.symbols _ hx
      rw [hpath, hs, Option.some.injEq] at hsymbol
      obtain hlisted | hchosen := hkind (by rw [hsymbol]; rfl)
      · exact hlisted
      · rw [hw.interfaces, mem_interfaces]
        exact ⟨hfqn, ns, hvisit, by rw [Declaration.isInterface, hchosen, Bool.true_or]⟩
    · exact ⟨name, ns, hvisit, _,
        mem_declaredTypes.mpr (.inl ⟨n, hn, List.contains_iff_mem.mpr hemitted, rfl⟩), rfl⟩

/-- A symbol of the library can be referred to exactly if a type is declared under its dotted
name. -/
theorem isOk_resolve_iff (hi : w.Indexes top) (hw : w.Follows top) {s : Symbol} (hfqn : fqn ≠ "")
    (hs : w.table.get? fqn = some s) (hown : s.library = w.library) :
    (w.resolve fqn).isOk = true ↔
      ∃ name ns, .emitted name ns ∈ visits w.directives w.nameOf top ∧
        ∃ o ∈ w.declaredTypes ns, o.title.fqn = fqn := by
  rw [Resolver.isOk_resolve_iff hs hown]
  constructor
  · rintro ⟨_, hemitted, hkind⟩
    exact hi.exists_declaredType hw hfqn hs hemitted hkind
  · rintro ⟨name, ns, hvisit, o, ho, rfl⟩
    obtain ⟨x, hx, hpath, _, _, hemitted, hinterface⟩ := hi.exists_definition hvisit ho
    have hsymbol := hi.symbols x hx
    rw [hpath] at hemitted hinterface hsymbol
    have hshown : excludes w.directives o.title.fqn = false := by
      rw [hw.emitted] at hemitted
      exact not_excludes_of_emitted hemitted
    refine ⟨by simpa [excludes, hfqn] using hshown, hemitted, fun hkind => .inl (hinterface ?_)⟩
    rw [hs] at hsymbol
    rw [Option.some.inj hsymbol] at hkind
    exact hkind

end Indexes

end Writer

/-! ## Emission -/

section Emission

variable {primary : Library} {linked : Correction.Linked}

/-- If the top level has no name, the dotted names of a prepared library are those of its table. -/
theorem indexes_of_run (hd : primary.description.check = .ok ())
    (hclear : primary.table.ensureNoCollisions = .ok ())
    (htop : primary.description.top.name = "")
    (hrun : Correction.run primary.name primary.table primary.description = .ok linked)
    (dependencies : List Symbol.Table) (d : Directives) :
    Writer.Indexes (writerFor primary.name (primary.table.withDependencies dependencies) d
      (namingOf linked.arena) (.of d (namingOf linked.arena) linked.description.top))
      linked.description.top where
  named x hx := by
    have hname := namingOf_of_run hd hrun hx
    rwa [htop, under_unnamed] at hname
  symbols _ hx := Library.get?_of_mem_definitions hclear hrun dependencies hx

/-- A type that is declared at the place of a namespace is declared where a reference to its symbol
leads, if its name has no dot. -/
theorem exports_emitNamed {library : String} {table : Symbol.Table} {d : Directives}
    {nameOf : Naming} {top : Namespace}
    (hi : (writerFor library table d nameOf (.of d nameOf top)).Indexes top)
    (hunique : (nameOf.ofDefinitions (top.definitions "")).Nodup)
    (hnames : ∀ x ∈ top.inside "", nameOf x.link ≠ "")
    (hdots : ∀ x ∈ top.definitions "", '.' ∉ x.name.toList) {name : String} {ns : Namespace}
    (h : .emitted name ns ∈ visits d nameOf top) {o : Outline}
    (ho : o ∈ (writerFor library table d nameOf (.of d nameOf top)).declaredTypes ns)
    {s : Symbol} (hs : table.get? o.title.fqn = some s) :
    (emitNamed library table d .modules nameOf top).document.Exports o.title.fqn s := by
  obtain ⟨x, hx, hpath, hname, hjoined, _⟩ := hi.exists_definition h ho
  have hsymbol : table.get? x.path = some (x.symbol library) := hi.symbols x hx
  rw [hpath, hs, Option.some.injEq] at hsymbol
  have howner : s.owner = nameOf.nameSpace ns := by
    rw [hsymbol, Symbol.owner, Definition.symbol, hjoined]
    exact Symbol.ownerOf_joined _ (hdots x hx)
  have hitem {item : Item} (h : item.outline = o) :
      item.declaresType o.title.fqn = true ∧ item.head.name = s.name := by
    have href : o.title.form.isReferable = true := (List.mem_filter.mp ho).2
    refine ⟨Item.declaresType_iff.mpr ⟨by rw [h], by rw [h, href]⟩, ?_⟩
    rw [item.head_eq.2, h, hsymbol, ← hname]
    rfl
  obtain ⟨rfl, item, hmem, houtline⟩ | ⟨block, hblock, hfqn, item, hmem, houtline⟩ :=
    exists_item_emitNamed hi.nameOf_top hunique hnames h ho
  · obtain ⟨hdeclares, hsimple⟩ := hitem houtline
    exact ⟨item, hdeclares, hsimple, .inl ⟨howner.trans hi.nameOf_top, hmem⟩⟩
  · obtain ⟨hdeclares, hsimple⟩ := hitem houtline
    refine ⟨item, hdeclares, hsimple, .inr ⟨block, hblock, hfqn.trans howner.symm, hmem, ?_⟩⟩
    intro imports added hadded
    rw [hfqn.trans howner.symm, hsimple]
    exact Reference.Imports.mem_refer hadded

/-- A valid library without a name at the top level and without collisions can be prepared and
emitted, whatever it depends on. A symbol that the table has of the library itself can be referred
to exactly if the output declares a type under its dotted name, in either flavor. If no name has a
dot, then with module blocks a symbol that can be referred to is declared where a reference to it
leads. -/
theorem resolves_iff_declared (hd : primary.description.check = .ok ())
    (hclear : primary.table.ensureNoCollisions = .ok ())
    (htop : primary.description.top.name = "") (dependencies : List Library) (isStrict : Bool) :
    ∃ prepared, primary.prepare dependencies isStrict = .ok prepared ∧
      (∀ flavor, ∃ e, prepared.emit flavor = .ok e ∧
        ∀ fqn s, fqn ≠ "" → prepared.table.get? fqn = some s → s.library = primary.name →
          ((prepared.writer.resolve fqn).isOk = true ↔
            ∃ item ∈ e.document.items, item.declaresType fqn = true)) ∧
      ((∀ x ∈ primary.description.definitions, '.' ∉ x.name.toList) →
        ∃ e, prepared.emit .modules = .ok e ∧
          ∀ fqn s, fqn ≠ "" → prepared.table.get? fqn = some s → s.library = primary.name →
            (prepared.writer.resolve fqn).isOk = true → e.document.Exports fqn s) := by
  obtain ⟨linked, hrun, hprepare⟩ := Library.prepare_of_clear hclear dependencies isStrict
  have hlibrary : linked.library = primary.name := by
    obtain ⟨_, rfl⟩ := Correction.run_eq_ok.mp hrun
    rfl
  let merged := primary.table.withDependencies (dependencies.map Library.visibleTable)
  let d := primary.directives.merge (dependencies.map Library.directives)
  let w := writerFor primary.name merged d (namingOf linked.arena)
    (.of d (namingOf linked.arena) linked.description.top)
  have hwriter : (⟨linked, merged, d⟩ : Library.Prepared).writer = w := by
    rw [Library.Prepared.writer, hlibrary]
  have hfollows : w.Follows linked.description.top := Writer.follows_writerFor _ _ _ _ _
  have hindexes : w.Indexes linked.description.top := indexes_of_run hd hclear htop hrun _ _
  have hunique := Library.nodup_names hd hclear hrun
  have hnames := namesAll_of_run hd hrun (w := w) rfl
  refine ⟨_, hprepare, fun flavor => ⟨_, emit_of_run hrun _ _ flavor, ?_⟩,
    fun hdots => ⟨_, emit_of_run hrun _ _ .modules, ?_⟩⟩
  · intro fqn s hfqn hs hown
    rw [hwriter, hindexes.isOk_resolve_iff hfollows hfqn hs hown]
    exact (declaresType_emitNamed_iff hindexes.nameOf_top hunique hnames flavor).symm
  · intro fqn s hfqn hs hown hok
    rw [hwriter, hindexes.isOk_resolve_iff hfollows hfqn hs hown] at hok
    obtain ⟨name, ns, hvisit, o, ho, rfl⟩ := hok
    refine exports_emitNamed hindexes hunique hnames (fun x hx => ?_) hvisit ho hs
    obtain ⟨y, hy, hsame⟩ := Correction.exists_definition_of_run hrun hx ""
    rw [← show y.name = x.name from congrArg Symbol.name hsame]
    exact hdots y hy

/-- An empty namespace resolves, and both flavors declare it as a type. -/
theorem resolves_iff_declared_mixed :
    mixed.description.check = .ok () ∧ mixed.table.ensureNoCollisions = .ok () ∧
      mixed.description.top.name = "" ∧
      (∀ x ∈ mixed.description.definitions, '.' ∉ x.name.toList) ∧
      ∃ prepared, mixed.prepare [mixed] true = .ok prepared ∧
        (prepared.writer.resolve "lib.Empty").isOk = true ∧
        (∃ e, prepared.emit .globals = .ok e ∧
          ∃ item ∈ e.document.items, item.declaresType "lib.Empty" = true) ∧
        ∃ e, prepared.emit .modules = .ok e ∧
          e.document.Exports "lib.Empty" ⟨"lib.Empty", "Empty", .nameSpace, "lib"⟩ := by
  have hvalid : mixed.description.check = .ok () := by decide
  have hclear : mixed.table.ensureNoCollisions = .ok () := by decide
  have hdots : ∀ x ∈ mixed.description.definitions, '.' ∉ x.name.toList := by decide
  obtain ⟨prepared, hprepare, hiff, hexports⟩ :=
    resolves_iff_declared hvalid hclear rfl [mixed] true
  have hempty : (mixed.prepare [mixed] true).map (fun p =>
      (p.table.get? "lib.Empty", (p.writer.resolve "lib.Empty").isOk))
        = .ok (some ⟨"lib.Empty", "Empty", .nameSpace, "lib"⟩, true) := by decide
  rw [hprepare] at hempty
  obtain ⟨hsymbol, hok⟩ := Prod.mk.inj (Except.ok.inj hempty)
  obtain ⟨globals, hglobals, hdeclared⟩ := hiff .globals
  obtain ⟨modules, hmodules, hexported⟩ := hexports hdots
  have hname : "lib.Empty" ≠ "" := by decide
  exact ⟨hvalid, hclear, rfl, hdots, prepared, hprepare, hok,
    ⟨globals, hglobals, (hdeclared _ _ hname hsymbol rfl).mp hok⟩,
    modules, hmodules, hexported _ _ hname hsymbol rfl hok⟩

end Emission

end Declaration

end Ambient
