import Ambient.Proofs.Api.Replacing
import Ambient.Proofs.Declaration.Comparison
import Ambient.Proofs.Declaration.Resolution
import Ambient.Proofs.Preparation
import Ambient.Proofs.Symbol.Merged

/-!
# Restricted nodes and the output

A library's own table is made from everything that it has, so a restricted node takes its dotted
name away from whatever else a type could mean by it: from a node that is kept, from a symbol of a
dependency, and from a name of the environment. Where it takes the name away from none of them, the
name leads nowhere with or without the node, and what is written is the same.
-/

namespace Ambient

namespace Api

/-- The namespace reached by a path of names is among the definitions, under that path. -/
theorem Namespace.exists_definition_of_find? {way : List String} {ns found : Namespace}
    (h : ns.find? way = some found) (path : String) :
    ∃ x ∈ ns.definitions path, x.path = way.foldl joined path := by
  induction way generalizing ns path with
  | nil => exact ⟨_, Namespace.mem_definitions.mpr (.inl rfl), rfl⟩
  | cons name rest ih =>
    rw [Namespace.find?] at h
    obtain ⟨child, hchild, hfound⟩ := Option.bind_eq_some_iff.mp h
    have hname : child.name = name := by simpa using List.find?_some hchild
    obtain ⟨x, hx, hpath⟩ := ih hfound (joined path name)
    refine ⟨x, Namespace.mem_definitions.mpr (.inr (Namespace.mem_inside.mpr (.inl
      ⟨child, List.mem_of_find?_eq_some hchild, ?_⟩))), hpath⟩
    rw [hname]
    exact hx

end Api

namespace Correction

open Api

/-- If two tables differ only where nothing is kept, they narrow the loader's signatures alike. -/
theorem narrowLoader_congr (library : String) {t u : Symbol.Table} {d : Description}
    (h : ∀ x ∈ d.definitions, t.get? x.path = u.get? x.path) :
    narrowLoader library t d = narrowLoader library u d := by
  cases hfind : d.top.find? loaderPath with
  | none =>
    have hsame (table : Symbol.Table) : narrowLoader library table d = d := by
      unfold narrowLoader
      rw [Namespace.modifyAt_eq_self (by simp [hfind]), ite_self]
    rw [hsame, hsame]
  | some found =>
    obtain ⟨x, hx, hpath⟩ := Namespace.exists_definition_of_find? hfind ""
    have hloader : x.path = loaderNamespace := hpath
    have hnarrows : narrowsLoader library t = narrowsLoader library u := by
      rw [narrowsLoader, narrowsLoader, ← hloader, h x hx]
    rw [narrowLoader, narrowLoader, hnarrows]

end Correction

namespace Declaration

/-- The place is the same, whatever the warnings. -/
def SamePlace (p q : Page) : Prop := p.place = q.place

/-- Pages at the same place stay at one place. -/
theorem lasting_samePlace : Lasting SamePlace where
  place h := h
  warn _ h := h
  move _ _ _ := rfl

/-- References agree on pages at the same place. -/
theorem agree_refer (symbol : Symbol) : Agree SamePlace (refer symbol) (refer symbol) := by
  intro p q h
  obtain ⟨place, warnings⟩ := p
  obtain ⟨_, others⟩ := q
  obtain rfl : place = _ := h
  exact ⟨rfl, rfl⟩

/-- Two warnings that differ are followed by the same answer. -/
theorem agree_warn {α : Type} (kind : Warning.Kind) (message other : String) (a : α) :
    Agree SamePlace (warn kind message >>= fun _ => pure a)
      (warn kind other >>= fun _ => pure a) :=
  fun _ _ h => ⟨rfl, h⟩

/-! ## Names that lead nowhere -/

/-- A name that only the library itself could define, and that it does not emit, leads nowhere. -/
theorem Resolver.resolve_eq_error {r : Resolver} {fqn : String}
    (h : ∀ s, r.table.get? fqn = some s → s.library = r.library) (hemitted : fqn ∉ r.emitted) :
    ∃ cause, r.resolve fqn = .error cause := by
  cases hresolve : r.resolve fqn with
  | error cause => exact ⟨cause, rfl⟩
  | ok symbol =>
    cases hget : r.table.get? fqn with
    | none =>
      rw [resolve, hget] at hresolve
      cases hresolve
    | some s =>
      have hok := (isOk_resolve_iff hget (h s hget)).mp (by rw [hresolve]; rfl)
      exact absurd hok.2.1 hemitted

/-- A name that leads nowhere on either side, and is none of the environment, is written as `any`
on both. -/
theorem agree_writeName_of_error {r s : Resolver} {name : String} {cause other : Unresolved}
    (hr : r.resolve name = .error cause) (hs : s.resolve name = .error other)
    (henvironment : name ∉ TypeExpr.environmentNames) (args : List String) :
    Agree SamePlace (TypeExpr.writeName r name args) (TypeExpr.writeName s name args) := by
  -- A name that one table has and the other lacks leads to two warnings, but not to two texts.
  have hany {r : Resolver} {cause : Unresolved} (hr : r.resolve name = .error cause)
      (hbuiltin : TypeExpr.builtin? name args = none) : ∃ message,
      TypeExpr.writeName r name args
        = (warn .unresolvedType message >>= fun _ => pure "any") := by
    simp only [TypeExpr.writeName, hbuiltin, hr]
    split
    · exact ⟨_, rfl⟩
    · rw [if_neg (by simpa using henvironment)]
      exact ⟨_, rfl⟩
  cases hbuiltin : TypeExpr.builtin? name args with
  | some text =>
    simp only [TypeExpr.writeName, hbuiltin]
    exact .pure text
  | none =>
    obtain ⟨message, hleft⟩ := hany hr hbuiltin
    obtain ⟨another, hright⟩ := hany hs hbuiltin
    rw [hleft, hright]
    exact agree_warn _ message another "any"

/-- A supertype that leads nowhere on either side is dropped on both. -/
theorem agree_supertype_of_error {w u : Writer} {fqn : String} {cause other : Unresolved}
    (hw : w.resolve (w.directives.correctName fqn) = .error cause)
    (hu : u.resolve (u.directives.correctName fqn) = .error other) (owner : String) :
    Agree SamePlace (w.supertype owner fqn) (u.supertype owner fqn) := by
  simp only [Writer.supertype, hw, hu]
  exact agree_warn _ _ _ none

/-- Writers that differ in their tables only write alike if, wherever the tables differ, a name is
none of the environment and leads nowhere on either side. -/
theorem Writer.alike_of_tables {w u : Writer} (hdirectives : w.directives = u.directives)
    (hlibrary : w.library = u.library) (hemitted : w.emitted = u.emitted)
    (hinterfaces : w.interfaces = u.interfaces) (hnameOf : w.nameOf = u.nameOf)
    (h : ∀ fqn, w.table.get? fqn ≠ u.table.get? fqn → fqn ∉ TypeExpr.environmentNames ∧
      (∃ cause, w.resolve fqn = .error cause) ∧ ∃ cause, u.resolve fqn = .error cause) :
    Alike SamePlace w u := by
  have hsame {fqn : String} (hget : w.table.get? fqn = u.table.get? fqn) :
      w.resolve fqn = u.resolve fqn := by
    simp only [Resolver.resolve, hget, hdirectives, hlibrary, hemitted, hinterfaces]
  refine ⟨⟨by rw [hdirectives], fun name args => ?_⟩, hnameOf, hemitted, hinterfaces,
    fun owner fqn => ?_⟩
  · by_cases hget : w.table.get? name = u.table.get? name
    · exact TypeExpr.agree_writeName lasting_samePlace hget (hsame hget)
        (fun symbol _ => agree_refer symbol) args
    · obtain ⟨henvironment, ⟨_, hw⟩, _, hu⟩ := h name hget
      exact agree_writeName_of_error hw hu henvironment args
  · by_cases hget : w.table.get? (u.directives.correctName fqn)
        = u.table.get? (u.directives.correctName fqn)
    · exact agree_supertype lasting_samePlace (by rw [hdirectives]) (hsame hget)
        (fun symbol _ => agree_refer symbol) owner
    · obtain ⟨_, ⟨_, hw⟩, _, hu⟩ := h _ hget
      exact agree_supertype_of_error (hdirectives ▸ hw) hu owner

/-- Tables that differ only at names that neither could mean anything else nor are emitted lead to
the same document. -/
theorem document_emitNamed_congr {library : String} {t u : Symbol.Table} {d : Directives}
    {nameOf : Naming} {top : Api.Namespace} (flavor : Flavor)
    (h : ∀ fqn, t.get? fqn ≠ u.get? fqn → fqn ∉ TypeExpr.environmentNames ∧
      fqn ∉ (Plan.of d nameOf top).emitted ∧ (∀ s, t.get? fqn = some s → s.library = library) ∧
      ∀ s, u.get? fqn = some s → s.library = library) :
    (emitNamed library t d flavor nameOf top).document
      = (emitNamed library u d flavor nameOf top).document := by
  let plan := Plan.of d nameOf top
  have halike : Writer.Alike SamePlace (writerFor library t d nameOf plan)
      (writerFor library u d nameOf plan) := by
    refine Writer.alike_of_tables rfl rfl rfl rfl rfl fun fqn hfqn => ?_
    obtain ⟨henvironment, hemitted, hleft, hright⟩ := h fqn hfqn
    exact ⟨henvironment, Resolver.resolve_eq_error hleft hemitted,
      Resolver.resolve_eq_error hright hemitted⟩
  exact (halike.document lasting_samePlace flavor plan.modules (d.sameBelow_refl nameOf top) _ _
    rfl).1

end Declaration

namespace Library

open Declaration

variable {first second : Library} {dependencies : List Library} {p q : Prepared}

/-- Nothing else could be meant by a dotted name: no node that is kept has it, be it as its dotted
name or as its path, no dependency lets others see it, and it is no name of the environment. -/
structure Prepared.Spares (p : Prepared) (dependencies : List Library) (fqn : String) : Prop where
  paths : ∀ x ∈ p.linked.description.definitions, x.path ≠ fqn
  names : ∀ x ∈ p.linked.description.definitions, namingOf p.linked.arena x.link ≠ fqn
  dependencies : ∀ dependency ∈ dependencies, dependency.visibleTable.contains fqn = false
  environment : fqn ∉ TypeExpr.environmentNames

/-- Two libraries differ in nothing but restricted nodes. -/
structure SameVisible (first second : Library) : Prop where
  name : first.name = second.name
  directives : first.directives = second.directives
  description : first.description.visible = second.description.visible

/-- A symbol that no dependency lets others see is the library's own. -/
theorem library_of_not_seen {primary : Library} {fqn : String} {s : Symbol}
    (hunseen : ∀ dependency ∈ dependencies, dependency.visibleTable.contains fqn = false)
    (h : (primary.table.withDependencies (dependencies.map visibleTable)).get? fqn = some s) :
    s.library = primary.name := by
  by_contra hforeign
  obtain ⟨_, dependency, hmem, _, hget⟩ := exists_dependency h hforeign
  have hcontains : dependency.visibleTable.contains fqn = true := by
    rw [Symbol.Table.contains, hget]
    rfl
  rw [hunseen dependency hmem] at hcontains
  cases hcontains

/-- What is left of the two libraries is the same, if nothing that is left has a path at which
their tables differ. -/
theorem linked_congr (h : first.SameVisible second)
    (hp : Correction.run first.name first.table first.description = .ok p.linked)
    (hq : Correction.run second.name second.table second.description = .ok q.linked)
    (hpaths : ∀ x ∈ p.linked.description.definitions,
      first.table.get? x.path = second.table.get? x.path) :
    p.linked.description = q.linked.description ∧ p.linked.arena = q.linked.arena := by
  obtain ⟨_, hleft⟩ := Correction.run_eq_ok.mp hp
  obtain ⟨_, hright⟩ := Correction.run_eq_ok.mp hq
  -- The tables are consulted once before linking, at the path of the loader, which linking keeps.
  have hnarrow : Correction.narrowLoader first.name first.table first.description.visible
      = Correction.narrowLoader second.name second.table second.description.visible := by
    rw [← h.name, ← h.description]
    refine Correction.narrowLoader_congr _ fun y hy => ?_
    have hsymbols := (Link.symbols_attach first.name ""
      (Correction.narrowLoader first.name first.table first.description.visible)).2
    rw [(Correction.definitions_narrowLoader _ _ _ "").2] at hsymbols
    have hmem := hsymbols ▸ List.mem_map_of_mem hy
    obtain ⟨x, hx, hsymbol⟩ := List.mem_map.mp hmem
    have hpath : x.path = y.path := congrArg Symbol.fqn hsymbol
    rw [← hpath]
    exact hpaths x (hleft ▸ hx)
  rw [hleft, hright, hnarrow]
  exact ⟨rfl, rfl⟩

/-- Two libraries that differ in restricted nodes only are emitted alike in each flavor, whatever
they depend on, if wherever their own tables differ nothing else could be meant. -/
theorem emits_alike_of_sameVisible (h : first.SameVisible second) (dependencies : List Library) :
    ∃ p, first.prepare dependencies false = .ok p ∧
      ∃ q, second.prepare dependencies false = .ok q ∧
        ((∀ fqn, first.table.get? fqn ≠ second.table.get? fqn → p.Spares dependencies fqn) →
          ∀ flavor, ∃ e f, p.emit flavor = .ok e ∧ q.emit flavor = .ok f ∧
            e.document = f.document ∧ e.text = f.text) := by
  obtain ⟨p, hp⟩ := exists_prepare first dependencies
  obtain ⟨q, hq⟩ := exists_prepare second dependencies
  refine ⟨p, hp, q, hq, fun hspares flavor => ?_⟩
  obtain ⟨hrunp, htablep, hdirectivesp⟩ := of_prepare hp
  obtain ⟨hrunq, htableq, hdirectivesq⟩ := of_prepare hq
  obtain ⟨hdescription, harena⟩ := linked_congr h hrunp hrunq fun x hx => by
    by_contra hdiffer
    exact (hspares _ hdiffer).paths x hx rfl
  have hdirectives : p.directives = q.directives := by
    rw [hdirectivesp, hdirectivesq, h.directives]
  have hdocument : (emitNamed first.name p.table p.directives flavor (namingOf p.linked.arena)
        p.linked.description.top).document
      = (emitNamed second.name q.table q.directives flavor (namingOf q.linked.arena)
        q.linked.description.top).document := by
    rw [← hdirectives, ← hdescription, ← harena, ← h.name]
    refine document_emitNamed_congr flavor fun fqn hfqn => ?_
    have hspared : p.Spares dependencies fqn := hspares fqn fun hsame =>
      hfqn (by rw [htablep, htableq, Symbol.Table.get?_withDependencies_congr hsame])
    refine ⟨hspared.environment, fun hemitted => ?_, fun s hs => ?_, fun s hs => ?_⟩
    · obtain ⟨x, hx, hname⟩ := exists_definition_of_mem_emitted hemitted
      exact hspared.names x hx hname
    · exact library_of_not_seen hspared.dependencies (htablep ▸ hs)
    · exact (library_of_not_seen hspared.dependencies (htableq ▸ hs)).trans h.name.symm
  exact ⟨_, _, emit_of_run hrunp _ _ flavor, emit_of_run hrunq _ _ flavor, hdocument,
    congrArg Document.text hdocument⟩

/-- A library with a variable of type `Date` and restricted classes beside it. -/
def dated (hidden : List String) : Library :=
  let due : Api.Variable := { (default : Api.Variable) with
    kind := .variableDesc, name := "due",
    type := some (.simple { (default : Api.SimpleType) with name := "Date" }) }
  let restricted (name : String) : Api.Class :=
    { Api.Class.plain name with visibility := some .restricted }
  let top := Api.Namespace.plain "" (hidden.map restricted) []
  ⟨"app", .ofTop { top with scope := { top.scope with constants := [due] } }, .empty⟩

/-- A restricted class whose name means nothing else does not change what is written. -/
theorem emits_alike_of_sameVisible_dated :
    (dated []).SameVisible (dated ["Secret"]) ∧
      ∃ p, (dated []).prepare [] false = .ok p ∧
        ∃ q, (dated ["Secret"]).prepare [] false = .ok q ∧
          (∀ fqn, (dated []).table.get? fqn ≠ (dated ["Secret"]).table.get? fqn →
            p.Spares [] fqn) ∧
          ∀ flavor, ∃ e f, p.emit flavor = .ok e ∧ q.emit flavor = .ok f ∧
            e.document = f.document ∧ e.text = f.text := by
  have hsame : (dated []).SameVisible (dated ["Secret"]) := ⟨rfl, rfl, rfl⟩
  obtain ⟨p, hp, q, hq, halike⟩ := emits_alike_of_sameVisible hsame []
  have hread : ((dated []).prepare [] false).map (fun p =>
      decide (∀ x ∈ p.linked.description.definitions,
        x.path ≠ "Secret" ∧ namingOf p.linked.arena x.link ≠ "Secret")) = .ok true := by decide
  rw [hp] at hread
  have hkept := of_decide_eq_true (Except.ok.inj hread)
  have hspares : ∀ fqn, (dated []).table.get? fqn ≠ (dated ["Secret"]).table.get? fqn →
      p.Spares [] fqn := by
    intro fqn hdiffer
    have hfqn : fqn = "Secret" := by
      by_contra hother
      refine hdiffer ?_
      have hleft := (Symbol.Table.lists_ofDescription "app"
        (dated []).description).get?_eq_find? fqn
      have hright := (Symbol.Table.lists_ofDescription "app"
        (dated ["Secret"]).description).get?_eq_find? fqn
      have hlist : (dated ["Secret"]).description.definitions.map (Api.Definition.symbol "app")
          = (dated []).description.definitions.map (Api.Definition.symbol "app")
            ++ [⟨"Secret", "Secret", .classType, "app"⟩] := by decide
      rw [hlist, List.find?_append, List.find?_singleton] at hright
      rw [show (dated []).table.get? fqn = _ from hleft,
        show (dated ["Secret"]).table.get? fqn = _ from hright]
      simp [Ne.symm hother]
    subst hfqn
    exact ⟨fun x hx => (hkept x hx).1, fun x hx => (hkept x hx).2, nofun, by decide⟩
  exact ⟨hsame, p, hp, q, hq, hspares, halike hspares⟩

/-- A restricted class that has a name of the environment takes it away from a type. -/
theorem not_emits_alike_dated :
    (dated []).description.check = .ok () ∧ (dated ["Date"]).description.check = .ok () ∧
      (dated []).SameVisible (dated ["Date"]) ∧
      ∃ p, (dated []).prepare [] false = .ok p ∧
        ∃ q, (dated ["Date"]).prepare [] false = .ok q ∧
          ∀ flavor, ∃ e f, p.emit flavor = .ok e ∧ q.emit flavor = .ok f ∧
            e.text = "declare const due: Date;\n" ∧ f.text = "declare const due: any;\n" := by
  have hread (flavor : Flavor) :
      ((dated []).prepare [] false).map (fun p => (p.emit flavor).map Emission.text)
        = .ok (.ok "declare const due: Date;\n") ∧
      ((dated ["Date"]).prepare [] false).map (fun q => (q.emit flavor).map Emission.text)
        = .ok (.ok "declare const due: any;\n") := by
    cases flavor <;> decide +kernel
  obtain ⟨p, hp⟩ := exists_prepare (dated []) []
  obtain ⟨q, hq⟩ := exists_prepare (dated ["Date"]) []
  refine ⟨by decide, by decide, ⟨rfl, rfl, rfl⟩, p, hp, q, hq, fun flavor => ?_⟩
  obtain ⟨hleft, hright⟩ := hread flavor
  have hemitp : p.emit flavor = .ok _ := emit_of_run (of_prepare hp).1 _ _ flavor
  have hemitq : q.emit flavor = .ok _ := emit_of_run (of_prepare hq).1 _ _ flavor
  rw [hp, Except.map, hemitp] at hleft
  rw [hq, Except.map, hemitq] at hright
  exact ⟨_, _, hemitp, hemitq, Except.ok.inj (Except.ok.inj hleft),
    Except.ok.inj (Except.ok.inj hright)⟩

end Library

end Ambient
