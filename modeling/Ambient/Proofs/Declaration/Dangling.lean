import Ambient.Proofs.Declaration.Comparison
import Ambient.Proofs.Preparation

/-!
# Directives without a target

Directives are hints: an entry about something that does not exist is never consulted. Adding one
for a dotted name that neither a node nor a symbol has, for a method that no class or interface has,
or for an interface that no class implements, changes nothing about what is emitted.
-/

namespace Ambient

namespace Directives

/-- An entry of directives that leaves something out, chooses a form, or suppresses complaints. -/
inductive Entry where
  | badSymbol (fqn : String)
  | interfaceNamespace (fqn : String) (isInterface : Bool)
  | suppression (fqn reason : String)
  | badMethod (name : String)
  | badInterface (fqn : String)

/-- Adds an entry; it takes the place of one with its key. -/
def add (d : Directives) : Entry → Directives
  | .badSymbol fqn => { d with badSymbols := d.badSymbols.insert fqn }
  | .interfaceNamespace fqn isInterface =>
    { d with interfaceNamespaces := d.interfaceNamespaces.put fqn isInterface }
  | .suppression fqn reason => { d with suppressions := d.suppressions.put fqn reason }
  | .badMethod name => { d with badMethods := d.badMethods.insert name }
  | .badInterface fqn => { d with badInterfaces := d.badInterfaces.insert fqn }

/-- The dotted name of the symbol or member that an entry is about. -/
def Entry.symbol? : Entry → Option String
  | .badSymbol fqn => some fqn
  | .interfaceNamespace fqn _ => some fqn
  | .suppression fqn _ => some fqn
  | .badMethod _ => none
  | .badInterface _ => none

section Add

variable (d : Directives) {entry : Entry} {fqn name : String}

/-- An entry adds no typos. -/
theorem typos_add : (d.add entry).typos = d.typos := by
  cases entry <;> rfl

/-- An entry says nothing about another dotted name. -/
theorem sameAt_add (h : entry.symbol? ≠ some fqn) : d.SameAt (d.add entry) fqn := by
  cases entry with
  | badSymbol key =>
    have hkey : fqn ≠ key := fun hsame => h (congrArg some hsame.symm)
    exact ⟨(Ordered.Set.contains_insert_of_ne _ hkey).symm, rfl, rfl⟩
  | interfaceNamespace key isInterface =>
    have hkey : fqn ≠ key := fun hsame => h (congrArg some hsame.symm)
    refine ⟨rfl, ?_, rfl⟩
    simp only [reclassifies, add, Ordered.Map.get?_put_of_ne _ _ hkey]
  | suppression key reason =>
    have hkey : fqn ≠ key := fun hsame => h (congrArg some hsame.symm)
    exact ⟨rfl, rfl, (Ordered.Map.get?_put_of_ne _ _ hkey).symm⟩
  | badMethod name => exact ⟨rfl, rfl, rfl⟩
  | badInterface fqn => exact ⟨rfl, rfl, rfl⟩

/-- An entry about something else leaves which methods are bad. -/
theorem isBadMethod_add (h : entry ≠ .badMethod name) :
    d.isBadMethod name = (d.add entry).isBadMethod name := by
  cases entry with
  | badMethod key =>
    have hkey : name ≠ key := fun hsame => h (hsame ▸ rfl)
    exact (Ordered.Set.contains_insert_of_ne _ hkey).symm
  | badSymbol _ | interfaceNamespace _ _ | suppression _ _ | badInterface _ => rfl

/-- An entry about something else leaves which interfaces are bad. -/
theorem isBadInterface_add (h : entry ≠ .badInterface fqn) :
    d.isBadInterface fqn = (d.add entry).isBadInterface fqn := by
  cases entry with
  | badInterface key =>
    have hkey : fqn ≠ key := fun hsame => h (hsame ▸ rfl)
    exact (Ordered.Set.contains_insert_of_ne _ hkey).symm
  | badSymbol _ | interfaceNamespace _ _ | suppression _ _ | badMethod _ => rfl

end Add

/-- An entry has no target in a prepared library: no node that is left has the dotted name that it
is about, and no symbol; no method of a class or interface has the simple name; or the interface is
in no implements list. -/
def Entry.Dangles (p : Library.Prepared) : Entry → Prop
  | .badMethod name => ∀ s ∈ p.linked.description.top.scopes, name ∉ s.methodNames
  | .badInterface fqn => ∀ s ∈ p.linked.description.top.scopes, fqn ∉ s.implementedNames
  | .badSymbol fqn | .interfaceNamespace fqn _ | .suppression fqn _ =>
    (∀ node ∈ Declaration.namedNodes p.linked.description.top,
      p.linked.arena.fqnOf node.1 node.2 ≠ .ok fqn) ∧ p.table.contains fqn = false

/-- Whether an entry dangles is decided by looking at what the library has and depends on. -/
instance (p : Library.Prepared) (entry : Entry) : Decidable (entry.Dangles p) :=
  match entry with
  | .badMethod name =>
    inferInstanceAs (Decidable (∀ s ∈ p.linked.description.top.scopes, name ∉ s.methodNames))
  | .badInterface fqn =>
    inferInstanceAs (Decidable (∀ s ∈ p.linked.description.top.scopes, fqn ∉ s.implementedNames))
  | .badSymbol fqn | .interfaceNamespace fqn _ | .suppression fqn _ =>
    inferInstanceAs (Decidable ((∀ node ∈ Declaration.namedNodes p.linked.description.top,
      p.linked.arena.fqnOf node.1 node.2 ≠ .ok fqn) ∧ p.table.contains fqn = false))

end Directives

namespace Declaration

open Directives

variable {p : Library.Prepared} {entry : Entry}

/-- What has no target is about another dotted name than those of nodes and symbols. -/
theorem symbol?_ne_of_dangles (h : entry.Dangles p) {fqn : String}
    (hfqn : (∃ node ∈ namedNodes p.linked.description.top,
      p.linked.arena.fqnOf node.1 node.2 = .ok fqn) ∨ p.table.contains fqn = true) :
    entry.symbol? ≠ some fqn := by
  have hlacks (key : String) (hnodes : ∀ node ∈ namedNodes p.linked.description.top,
      p.linked.arena.fqnOf node.1 node.2 ≠ .ok key) (htable : p.table.contains key = false) :
      some key ≠ some fqn := by
    intro hsame
    obtain rfl := Option.some.inj hsame
    obtain ⟨node, hnode, hname⟩ | hcontains := hfqn
    · exact hnodes node hnode hname
    · exact absurd hcontains (by simp [htable])
  cases entry with
  | badSymbol key => exact hlacks key h.1 h.2
  | interfaceNamespace key _ => exact hlacks key h.1 h.2
  | suppression key _ => exact hlacks key h.1 h.2
  | badMethod _ => exact nofun
  | badInterface _ => exact nofun

/-- Nothing that is declared is the target of what has none. -/
theorem sameBelow_add (d : Directives) (h : entry.Dangles p)
    (hnames : ∀ node ∈ namedNodes p.linked.description.top,
      p.linked.arena.fqnOf node.1 node.2 = .ok (namingOf p.linked.arena node.1)) :
    d.SameBelow (d.add entry) (namingOf p.linked.arena) p.linked.description.top := by
  intro s hs
  refine ⟨fun node hnode => ?_, fun name hname => ?_, fun fqn hfqn => ?_⟩
  · have hnamed : node ∈ namedNodes p.linked.description.top := by
      rw [namedNodes_eq]
      exact List.mem_flatMap_of_mem hs hnode
    exact d.sameAt_add (symbol?_ne_of_dangles h (.inl ⟨node, hnamed, hnames node hnamed⟩))
  · refine d.isBadMethod_add ?_
    rintro rfl
    exact h s hs hname
  · refine d.isBadInterface_add ?_
    rintro rfl
    exact h s hs hfqn

/-- Resolvers that differ in directives only resolve alike if these say the same about symbols. -/
theorem Resolver.resolve_congr {r s : Resolver} (hlibrary : r.library = s.library)
    (htable : r.table = s.table) (hemitted : r.emitted = s.emitted)
    (hinterfaces : r.interfaces = s.interfaces)
    (h : ∀ fqn, r.table.contains fqn = true → r.directives.SameAt s.directives fqn) :
    r.resolve = s.resolve := by
  funext fqn
  rw [resolve, resolve, ← htable]
  cases hget : r.table.get? fqn with
  | none => rfl
  | some symbol =>
    have hsame := h fqn (by rw [Symbol.Table.contains, hget]; rfl)
    simp only [hsame.isBadSymbol, hsame.reclassifies, hlibrary, hemitted, hinterfaces]

/-- Actions that are equal agree on equal pages. -/
theorem Agree.of_eq {α : Type} {m n : Writing α} (h : m = n) : Agree Eq m n := by
  rintro page _ rfl
  exact ⟨by rw [h], by rw [h]⟩

/-- Being equal lasts. -/
theorem lasting_eq : Lasting Eq where
  place h := by rw [h]
  warn _ h := by rw [h]
  move _ _ h := by rw [h]

/-- Writers that differ in directives only write alike if these correct the same typos and say the
same about symbols. -/
theorem Writer.alike_of_directives {w u : Writer} (htypos : w.directives.typos = u.directives.typos)
    (hlibrary : w.library = u.library) (htable : w.table = u.table)
    (hemitted : w.emitted = u.emitted) (hinterfaces : w.interfaces = u.interfaces)
    (hnameOf : w.nameOf = u.nameOf)
    (h : ∀ fqn, w.table.contains fqn = true → w.directives.SameAt u.directives fqn) :
    Alike Eq w u := by
  have hresolve := Resolver.resolve_congr hlibrary htable hemitted hinterfaces h
  refine ⟨⟨htypos, fun name args => .of_eq ?_⟩, hnameOf, hemitted, hinterfaces,
    fun owner fqn => .of_eq ?_⟩
  · simp only [TypeExpr.writeName, htable, hresolve]
  · simp only [supertype, Directives.correctName, htypos, hresolve]

end Declaration

namespace Library

open Declaration

/-- Adding an entry without a target to whatever directives a prepared library is emitted with
changes nothing about what is emitted: the document with its text and modules, and the warnings. -/
theorem emit_add_of_dangles {primary : Library} {dependencies : List Library} {isStrict : Bool}
    {p : Prepared} (hp : primary.prepare dependencies isStrict = .ok p)
    {entry : Directives.Entry} (h : entry.Dangles p) (d : Directives) (flavor : Flavor) :
    ∃ e, Declaration.emit p.linked p.table d flavor = .ok e ∧
      Declaration.emit p.linked p.table (d.add entry) flavor = .ok e := by
  obtain ⟨hrun, -, -⟩ := of_prepare hp
  have hbelow := sameBelow_add d h (fqnOf_namedNodes hrun)
  have hplan := Plan.of_congr hbelow
  refine ⟨_, emit_of_run hrun p.table d flavor, ?_⟩
  rw [emit_of_run hrun p.table (d.add entry) flavor]
  simp only [emitNamed, ← hplan]
  -- From here on the plan is any plan: only the writers differ.
  generalize Plan.of d _ _ = plan
  have halike : Writer.Alike Eq
      (writerFor primary.name p.table d (namingOf p.linked.arena) plan)
      (writerFor primary.name p.table (d.add entry) (namingOf p.linked.arena) plan) :=
    Writer.alike_of_directives d.typos_add.symm rfl rfl rfl rfl rfl fun fqn hfqn =>
      d.sameAt_add (symbol?_ne_of_dangles h (.inr hfqn))
  have hsame := halike.document lasting_eq flavor plan.modules hbelow
  rw [Prod.ext (hsame _ _ rfl).1 (hsame _ _ rfl).2]

/-- A class with a method that implements an interface of another library. -/
def implementing : Library :=
  let close : Api.Function := { (default : Api.Function) with name := "close" }
  ⟨"app", .ofTop (.plain "" [] [.plain "app"
    [{ Api.Class.plain "Panel" with implemented := ["lib.Closable"], methods := [close] }] []]),
    .empty⟩

/-- Entries about what that library neither has nor depends on. -/
def absent : List Directives.Entry :=
  [.badSymbol "app.Missing", .interfaceNamespace "lib" true, .suppression "app.Panel.open" "gone",
    .badMethod "open", .badInterface "lib.Openable"]

/-- Entries about what a library neither has nor depends on dangle, and adding one changes neither
flavor. -/
theorem emit_add_of_dangles_implementing :
    ∃ p, implementing.prepare [] false = .ok p ∧ ∀ entry ∈ absent, entry.Dangles p ∧
      ∀ flavor, ∃ e, Declaration.emit p.linked p.table p.directives flavor = .ok e ∧
        Declaration.emit p.linked p.table (p.directives.add entry) flavor = .ok e := by
  have hread : (implementing.prepare [] false).map (fun p =>
      decide (∀ entry ∈ absent, entry.Dangles p)) = .ok true := by decide
  obtain ⟨p, hp⟩ := exists_prepare implementing []
  rw [hp] at hread
  have hdangles := of_decide_eq_true (Except.ok.inj hread)
  exact ⟨p, hp, fun entry hentry => ⟨hdangles entry hentry, fun flavor =>
    emit_add_of_dangles hp (hdangles entry hentry) p.directives flavor⟩⟩

end Library

end Ambient
