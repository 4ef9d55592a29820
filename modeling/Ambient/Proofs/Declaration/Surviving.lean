import Ambient.Proofs.Declaration.Comparison
import Ambient.Proofs.Declaration.Foreign
import Ambient.Proofs.Preparation
import Ambient.Proofs.Symbol.Merged

/-!
# References to what survives

A reference never leads to a restricted node. The library's own table has its restricted nodes, but
only what is emitted of the library can be referred to, and that is what corrections leave of it; of
a dependency only the visible part is indexed. Every import that is written is the import of a
symbol that was resolved.
-/

namespace Ambient

namespace Declaration

open Api

/-- The dotted name of every definition is one that emission asks for. -/
theorem mem_namedNodes_of_mem_definitions (ns : Namespace) :
    ∀ {path : String} {x : Definition}, x ∈ ns.definitions path →
      (x.link, x.name) ∈ namedNodes ns := by
  induction ns using Namespace.induction with
  | step scope nested ih =>
    intro path x hx
    rw [namedNodes, namedNodesOf_eq, List.cons_append, List.mem_cons, List.mem_append]
    obtain rfl | hx := Namespace.mem_definitions.mp hx
    · exact .inl rfl
    · obtain ⟨child, hchild, hx⟩ | ⟨n, hn, rfl⟩ := Namespace.mem_inside.mp hx
      · exact .inr (.inr (List.mem_flatMap_of_mem hchild (ih child hchild hx)))
      · refine .inr (.inl ?_)
        simp only [Scope.types, List.mem_append, List.mem_map] at hn
        rw [scopeNodes, List.mem_append, List.mem_append, List.mem_append]
        obtain (⟨c, hc, rfl⟩ | ⟨i, hi, rfl⟩) | ⟨e, he, rfl⟩ := hn
        · exact .inl (.inl (.inr (List.mem_flatMap_of_mem hc List.mem_cons_self)))
        · exact .inl (.inr (List.mem_flatMap_of_mem hi List.mem_cons_self))
        · exact .inr (List.mem_flatMap_of_mem he List.mem_cons_self)

/-- A resolved name has its symbol in the table, and is emitted if the symbol is the library's. -/
theorem Resolver.of_resolve {r : Resolver} {fqn : String} {s : Symbol}
    (h : r.resolve fqn = .ok s) :
    r.table.get? fqn = some s ∧ (s.library = r.library → fqn ∈ r.emitted) := by
  cases hget : r.table.get? fqn with
  | none =>
    rw [resolve, hget] at h
    cases h
  | some symbol =>
    have hsame : symbol = s := by
      simp only [resolve, hget] at h
      split at h
      · cases h
      · split at h
        · cases h
        · split at h
          · cases h
          · exact Except.ok.inj h
    subst hsame
    refine ⟨rfl, fun hown => ?_⟩
    exact ((isOk_resolve_iff hget hown).mp (by rw [h]; rfl)).2.1

/-! ## Imports -/

/-- A reference from a block adds at most an import of the symbol. -/
theorem Imports.fqn_of_mem_refer {i : Reference.Imports} {s : Symbol} {added : Reference.Import}
    (h : added ∈ (i.refer s).2.imports) : added ∈ i.imports ∨ added.fqn = s.fqn := by
  unfold Reference.Imports.refer at h
  split at h
  · exact .inl h
  · split at h
    · exact .inl h
    · obtain h | h := List.mem_append.mp h
      · exact .inl h
      · obtain rfl := List.mem_singleton.mp h
        exact .inr rfl

/-- All imports at the place of writing are of dotted names with a property. -/
def ImportsOnly (P : String → Prop) (page : Page) : Prop :=
  ∀ added ∈ page.place.imports, P added.fqn

/-- One page, which imports only what has the property. -/
def OneImporting (P : String → Prop) (p q : Page) : Prop := p = q ∧ ImportsOnly P p

variable {P : String → Prop}

/-- Being one page that imports only what has the property lasts. -/
theorem lasting_oneImporting : Lasting (OneImporting P) where
  place h := congrArg Page.place h.1
  warn _ h := ⟨by rw [h.1], h.2⟩
  move place hplace h := by
    refine ⟨by rw [h.1], fun added hadded => ?_⟩
    have hnone : added ∈ place.imports := hadded
    rw [hplace] at hnone
    cases hnone

/-- Referring to a symbol with the property imports nothing without it. -/
theorem agree_refer_of {s : Symbol} (hs : P s.fqn) :
    Agree (OneImporting P) (refer s) (refer s) := by
  rintro ⟨place, warnings⟩ _ ⟨rfl, himports⟩
  refine ⟨rfl, rfl, fun added hadded => ?_⟩
  cases place with
  | globals => cases hadded
  | script =>
    have hnone : added ∈ ((Reference.Place.script).refer s).2.imports := hadded
    simp only [Reference.Place.refer] at hnone
    split at hnone <;> cases hnone
  | module imports =>
    obtain hold | hnew := Imports.fqn_of_mem_refer hadded
    · exact himports added hold
    · exact hnew ▸ hs

/-- A writer that resolves only names of symbols with the property writes as it does itself, and
imports nothing without the property. -/
theorem Writer.alike_importing {w : Writer} (h : ∀ fqn s, w.resolve fqn = .ok s → P s.fqn) :
    Alike (OneImporting P) w w := by
  have hrefer (fqn : String) (s : Symbol) (hs : w.resolve fqn = .ok s) :
      Agree (OneImporting P) (refer s) (refer s) := agree_refer_of (h fqn s hs)
  exact ⟨⟨rfl, fun name args => TypeExpr.agree_writeName lasting_oneImporting rfl rfl
    (hrefer name) args⟩, rfl, rfl, rfl, fun owner fqn =>
      agree_supertype lasting_oneImporting rfl rfl (hrefer _) owner⟩

/-! ## Blocks -/

/-- On pages that import only what has the property, an action answers as it should and leaves such
a page. -/
def Yields {α : Type} (P : String → Prop) (m : Writing α) (Q : α → Prop) : Prop :=
  ∀ page, ImportsOnly P page → Q (m.run page).1 ∧ ImportsOnly P (m.run page).2

namespace Yields

variable {α β : Type} {m : Writing α} {k : α → Writing β} {Q : α → Prop} {T : β → Prop}

/-- A given answer is yielded. -/
theorem pure {a : α} (h : Q a) : Yields P (Pure.pure a) Q := fun _ hpage => ⟨h, hpage⟩

/-- What is yielded can be worked on. -/
theorem bind (h : Yields P m Q) (hk : ∀ a, Q a → Yields P (k a) T) : Yields P (m >>= k) T := by
  intro page hpage
  obtain ⟨hanswer, hafter⟩ := h page hpage
  exact hk _ hanswer _ hafter

/-- What is yielded in either case is yielded under a condition. -/
theorem ite {n : Writing α} (condition : Prop) [Decidable condition] (h : Yields P m Q)
    (hn : Yields P n Q) : Yields P (if condition then m else n) Q := by
  split
  · exact h
  · exact hn

/-- An action that agrees with itself leaves pages that import only what has the property. -/
theorem of_agree (h : Agree (OneImporting P) m m) : Yields P m fun _ => True :=
  fun page hpage => ⟨trivial, (h page page ⟨rfl, hpage⟩).2.2⟩

/-- The imports read off a page have the property. -/
theorem importsHere :
    Yields P Writer.importsHere fun imports => ∀ added ∈ imports, P added.fqn := by
  intro page hpage
  obtain ⟨place, warnings⟩ := page
  cases place with
  | module imports => exact ⟨hpage, hpage⟩
  | globals | script => exact ⟨nofun, hpage⟩

end Yields

/-- A block imports only what has a property. -/
def Block.ImportsOnly (P : String → Prop) (b : Block) : Prop := ∀ added ∈ b.imports, P added.fqn

namespace Writer

variable {w : Writer} {modules : Ordered.Set String}

/-- The block of a namespace imports only what can be referred to. -/
theorem yields_moduleBlock (h : Alike (OneImporting P) w w) (fqn : String) (ns : Namespace) :
    Yields P (w.moduleBlock fqn ns) (Block.ImportsOnly P) := by
  have hbelow := w.directives.sameBelow_refl w.nameOf ns
  have hinterfaces := h.nestedInterfaces lasting_oneImporting hbelow
  obtain ⟨scope, nested⟩ := ns
  have hvalues := h.values lasting_oneImporting hbelow.own
  have haggregates := h.aggregates lasting_oneImporting hbelow.own
  have hmove (place : Reference.Place) (hplace : place.imports = []) :
      Yields P (moveTo place) fun _ => True :=
    .of_agree (Agree.moveTo lasting_oneImporting hplace)
  unfold moduleBlock
  refine (hmove _ rfl).bind fun _ _ => .ite _
    ((Yields.of_agree (.pure [])).bind fun _ _ => ?_)
    ((Yields.of_agree hvalues).bind fun _ _ => ?_)
  all_goals
    refine (Yields.of_agree haggregates).bind fun _ _ => ?_
    refine (Yields.of_agree hinterfaces).bind fun _ _ => ?_
    exact Yields.importsHere.bind fun _ himports =>
      (hmove .script rfl).bind fun _ _ => .pure himports

/-- If the blocks of each nested namespace import only what has the property, then so do those of
all. -/
theorem yields_nestedBlocks {nested : List Namespace}
    (h : ∀ ns ∈ nested, Yields P (w.blocks modules ns) fun blocks =>
      ∀ b ∈ blocks, b.ImportsOnly P) :
    Yields P (w.nestedBlocks modules nested) fun blocks => ∀ b ∈ blocks, b.ImportsOnly P := by
  induction nested with
  | nil =>
    rw [nestedBlocks]
    exact .pure (List.forall_mem_nil _)
  | cons ns rest ih =>
    obtain ⟨hns, hrest⟩ := List.forall_mem_cons.mp h
    rw [nestedBlocks]
    exact hns.bind fun _ hfirst => (ih hrest).bind fun _ hothers =>
      .pure (List.forall_mem_append.mpr ⟨hfirst, hothers⟩)

/-- The blocks of a namespace and of those nested in it import only what can be referred to. -/
theorem yields_blocks (h : Alike (OneImporting P) w w) (ns : Namespace) :
    Yields P (w.blocks modules ns) fun blocks => ∀ b ∈ blocks, b.ImportsOnly P := by
  induction ns using Namespace.induction with
  | step scope nested ih =>
    have hnested := yields_nestedBlocks ih
    rw [blocks]
    refine .ite _ (.pure (List.forall_mem_nil _)) (.ite _ ?_ ?_)
    · refine (yields_moduleBlock h _ _).bind fun block hblock => ?_
      have hown : Yields P (Pure.pure [block]) fun own => ∀ b ∈ own, b.ImportsOnly P :=
        .pure (List.forall_mem_singleton.mpr hblock)
      exact hown.bind fun _ hfirst => hnested.bind fun _ hothers =>
        .pure (List.forall_mem_append.mpr ⟨hfirst, hothers⟩)
    · exact hnested.bind fun _ hothers => .pure hothers

/-- All blocks of a document import only what can be referred to. -/
theorem yields_document (h : Alike (OneImporting P) w w) (flavor : Flavor) (top : Namespace) :
    Yields P (w.document flavor modules top) fun document =>
      ∀ b ∈ document.blocks, b.ImportsOnly P := by
  have hbelow := w.directives.sameBelow_refl w.nameOf top
  cases flavor with
  | globals =>
    exact (Yields.of_agree (h.globalTree lasting_oneImporting hbelow)).bind fun _ _ =>
      .pure (List.forall_mem_nil _)
  | modules =>
    refine (Yields.of_agree (h.scriptItems lasting_oneImporting hbelow)).bind fun _ _ => ?_
    exact (yields_nestedBlocks fun ns _ => yields_blocks h ns).bind fun _ hblocks => .pure hblocks

end Writer

end Declaration

namespace Library

open Declaration Api

variable {primary : Library} {dependencies : List Library} {isStrict : Bool} {p : Prepared}

/-- A namespace, class, interface or enum with a dotted name is left of the library, or is among
what one of its dependencies lets others see. -/
def Prepared.Survives (p : Prepared) (dependencies : List Library) (fqn : String) : Prop :=
  (∃ x ∈ p.linked.description.definitions, p.linked.arena.fqnOf x.link x.name = .ok fqn) ∨
    ∃ dependency ∈ dependencies, ∃ x ∈ dependency.description.visible.definitions, x.path = fqn

/-- A symbol that a prepared library resolves has the dotted name by which it is found, and survives
under it. -/
theorem survives_of_resolve
    (hrun : Correction.run primary.name primary.table primary.description = .ok p.linked)
    (htable : p.table = primary.table.withDependencies (dependencies.map visibleTable))
    {fqn : String} {s : Symbol} (h : p.writer.resolve fqn = .ok s) :
    s.fqn = fqn ∧ p.Survives dependencies fqn := by
  obtain ⟨hget, hemitted⟩ := Resolver.of_resolve h
  have hlibrary : p.writer.library = primary.name := by
    obtain ⟨_, hlinked⟩ := Correction.run_eq_ok.mp hrun
    rw [Prepared.writer, hlinked]
    rfl
  have hmerged : (primary.table.withDependencies (dependencies.map visibleTable)).get? fqn
      = some s := htable ▸ hget
  refine ⟨fqn_of_get? hmerged, ?_⟩
  -- The library's own table was made before filtering, so what it finds has to be emitted as well;
  -- the tables of the dependencies were made after filtering.
  by_cases hown : s.library = primary.name
  · obtain ⟨x, hx, hname⟩ := exists_definition_of_mem_emitted (hemitted (hown.trans hlibrary.symm))
    have hread := fqnOf_namedNodes hrun _ (mem_namedNodes_of_mem_definitions _ hx)
    exact .inl ⟨x, hx, hread.trans (congrArg Except.ok hname)⟩
  · obtain ⟨_, dependency, hdependency, _, hvisible⟩ := exists_dependency hmerged hown
    obtain ⟨x, hx, hpath, _⟩ := Symbol.Table.exists_definition_of_get? hvisible
    exact .inr ⟨dependency, hdependency, x, hx, hpath⟩

/-- Whatever directives a prepared library is emitted with, a type or supertype that it writes as a
reference is one that survives, and so is everything that it imports, in either flavor. -/
theorem references_survive (hp : primary.prepare dependencies isStrict = .ok p) (d : Directives) :
    let emitted : Prepared := { p with directives := d }
    (∀ fqn s, emitted.writer.resolve fqn = .ok s →
      s.fqn = fqn ∧ p.Survives dependencies fqn) ∧
    ∀ flavor, ∃ e, emitted.emit flavor = .ok e ∧
      ∀ block ∈ e.document.blocks, ∀ added ∈ block.imports, p.Survives dependencies added.fqn := by
  intro emitted
  obtain ⟨hrun, htable, -⟩ := of_prepare hp
  have hresolves (fqn : String) (s : Symbol) (h : emitted.writer.resolve fqn = .ok s) :
      s.fqn = fqn ∧ p.Survives dependencies fqn :=
    survives_of_resolve (p := emitted) hrun htable h
  have halike : Writer.Alike (OneImporting (p.Survives dependencies)) emitted.writer
      emitted.writer := by
    refine Writer.alike_importing fun fqn s h => ?_
    obtain ⟨hfqn, hsurvives⟩ := hresolves fqn s h
    exact hfqn ▸ hsurvives
  refine ⟨hresolves, fun flavor => ?_⟩
  have hemit : emitted.emit flavor = .ok _ := emit_of_run hrun p.table d flavor
  have hstart (warnings : Warnings) :
      ImportsOnly (p.Survives dependencies) ⟨startingPlace flavor, warnings⟩ := by
    cases flavor <;> exact nofun
  refine ⟨_, hemit, ?_⟩
  rw [Prepared.document_of_emit hemit]
  exact (Writer.yields_document halike flavor p.linked.description.top _ (hstart _)).1

/-- A class that a dependency excludes survives, in what resolves its name and in what imports it.
-/
theorem references_survive_referring :
    ∃ p, referring.prepare [concealing] false = .ok p ∧
      ∃ s, p.writer.resolve "lib.hidden.Widget" = .ok s ∧ s.fqn = "lib.hidden.Widget" ∧
        p.Survives [concealing] "lib.hidden.Widget" ∧
        ∀ flavor, ∃ e, p.emit flavor = .ok e ∧ ∀ block ∈ e.document.blocks,
          ∀ added ∈ block.imports, p.Survives [concealing] added.fqn := by
  obtain ⟨p, hp⟩ := exists_prepare referring [concealing]
  obtain ⟨hresolves, hemits⟩ := references_survive hp p.directives
  have hread : (referring.prepare [concealing] false).map (fun p =>
      (p.writer.resolve "lib.hidden.Widget").isOk) = .ok true := by decide
  rw [hp] at hread
  have hsome : (p.writer.resolve "lib.hidden.Widget").isOk = true :=
    Except.ok.inj hread
  cases hresolve : p.writer.resolve "lib.hidden.Widget" with
  | error cause =>
    rw [hresolve] at hsome
    cases hsome
  | ok s =>
    obtain ⟨hfqn, hsurvives⟩ := hresolves _ s hresolve
    exact ⟨p, hp, s, hresolve, hfqn, hsurvives, hemits⟩

end Library

end Ambient
