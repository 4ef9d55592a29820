import Ambient.Proofs.Declaration.InSight
import Ambient.Proofs.Declaration.Resolution
import Ambient.Proofs.Directives
import Ambient.Proofs.Preparation
import Ambient.Proofs.Symbol.Merged

/-!
# References to symbols of other libraries

A library refers to a symbol of another one if the merged directives do not exclude the symbol
itself. The other library declares the symbol only if none of the namespaces around it is excluded
either, which is not asked for. So a reference leads somewhere exactly if the symbol is in sight in
the library that it belongs to.
-/

namespace Ambient

open Api

/-! ## Excluded symbols -/

/-- What merged directives do not exclude, none of them excludes. -/
theorem Directives.not_bad_of_merge {d one : Directives} {others : List Directives} {fqn : String}
    (h : (d.merge others).isBadSymbol fqn = false) (hone : one ∈ d :: others) :
    one.isBadSymbol fqn = false := by
  rw [Bool.eq_false_iff] at h ⊢
  exact fun hbad => h ((isBadSymbol_merge d others fqn).mpr ⟨one, hone, hbad⟩)

namespace Declaration

variable {d : Directives} {nameOf : Naming} {fqn : String}

/-- A name that can be referred to is not excluded. -/
theorem Resolver.not_bad_of_resolve {r : Resolver} (h : (r.resolve fqn).isOk = true) :
    r.directives.isBadSymbol fqn = false := by
  unfold resolve at h
  split at h
  · cases h
  · split at h
    · cases h
    · next hbad => simpa using hbad

/-! ## What the names on the way show -/

/-- Below a namespace with a path, everything has that path in front. -/
theorem exists_rest_of_mem_inside (ns : Namespace) :
    ∀ {path : String}, path ≠ "" → ∀ x ∈ ns.inside path, ∃ rest, x.path = path ++ "." ++ rest := by
  induction ns using Namespace.induction with
  | step scope nested ih =>
    intro path hpath x hx
    obtain ⟨child, hchild, hx⟩ | ⟨n, _, rfl⟩ := Namespace.mem_inside.mp hx
    · have hjoined := joined_of_ne hpath child.name
      obtain rfl | hx := Namespace.mem_definitions.mp hx
      · exact ⟨child.name, hjoined⟩
      · obtain ⟨rest, hrest⟩ := ih child hchild (by simp [hjoined, hpath]) x hx
        exact ⟨child.name ++ "." ++ rest, by rw [hrest, hjoined]; simp only [String.append_assoc]⟩
    · exact ⟨n.name, joined_of_ne hpath n.name⟩

/-- What is defined below a namespace is in sight from it, if no part of its path is excluded: as
the type that it is, or as the interface that a namespace is to be. -/
theorem shows_of_mem_inside {x : Definition}
    (haround : ∀ outer rest, x.path = outer ++ "." ++ rest → d.isBadSymbol outer = false)
    (hkind : x.kind = .nameSpace → d.reclassifies x.path = true) (ns : Namespace) :
    ∀ {path : String}, excludes d path = false →
      (∀ y ∈ ns.definitions path, nameOf y.link = y.path) → x ∈ ns.inside path →
      Shows d nameOf ns x.path := by
  induction ns using Namespace.induction with
  | step scope nested ih =>
    intro path hpath hnamed hx
    have hhere : excludes d (nameOf.nameSpace ⟨scope, nested⟩) = false := by
      have hname := hnamed _ (Namespace.mem_definitions.mpr (.inl rfl))
      rwa [Naming.nameSpace, show nameOf scope.link = path from hname]
    have hdefined {y : Definition} (hy : y ∈ Namespace.inside path ⟨scope, nested⟩) :
        nameOf y.link = y.path := hnamed y (Namespace.mem_definitions.mpr (.inr hy))
    obtain ⟨child, hchild, hmem⟩ | ⟨n, hn, rfl⟩ := Namespace.mem_inside.mp hx
    · obtain rfl | hinside := Namespace.mem_definitions.mp hmem
      · refine ⟨_, .self hhere, .inr ⟨child, hchild, hdefined hx, ?_⟩⟩
        rw [isInterface, hkind rfl, Bool.true_or]
      · have hshown : excludes d (joined path child.name) = false := by
          by_cases hempty : joined path child.name = ""
          · rw [hempty]
            rfl
          · obtain ⟨rest, hrest⟩ := exists_rest_of_mem_inside child hempty x hinside
            rw [excludes, haround _ _ hrest, Bool.and_false]
        obtain ⟨inner, hsight, htype⟩ := ih child hchild hshown
          (fun y hy => hdefined (Namespace.mem_inside.mpr (.inl ⟨child, hchild, hy⟩))) hinside
        exact ⟨inner, .nested hhere hchild hsight, htype⟩
    · exact ⟨_, .self hhere, .inl ⟨n, hn, hdefined hx⟩⟩

end Declaration

namespace Library

open Declaration

variable {primary dependency : Library} {dependencies : List Library} {isStrict : Bool}
  {p own : Prepared} {fqn : String} {s : Symbol}

/-- What a library lets others see is defined in the library as it is prepared by itself. -/
theorem exists_definition_of_visibleTable (h : dependency.visibleTable.get? fqn = some s)
    (hown : dependency.prepare [] false = .ok own) :
    ∃ x ∈ own.linked.description.definitions, x.path = fqn ∧ x.kind = s.kind := by
  obtain ⟨y, hy, rfl, rfl⟩ := Symbol.Table.exists_definition_of_get? h
  obtain ⟨_, hlinked⟩ := Correction.run_eq_ok.mp (of_prepare hown).1
  have hsame := (Link.symbols_attach dependency.name "" (Correction.narrowLoader dependency.name
    dependency.table dependency.description.visible)).2
  rw [(Correction.definitions_narrowLoader dependency.name dependency.table _ "").2] at hsame
  have hmem : y.symbol dependency.name ∈
      own.linked.description.definitions.map (Definition.symbol dependency.name) := by
    rw [hlinked, Description.definitions, hsame]
    exact List.mem_map_of_mem hy
  obtain ⟨x, hx, hsymbol⟩ := List.mem_map.mp hmem
  exact ⟨x, hx, congrArg Symbol.fqn hsymbol, congrArg Symbol.kind hsymbol⟩

/-- What a valid library lets others see is in sight in the library itself, if its top level has no
name, it excludes nothing that the path begins with, and it writes a namespace as an interface. -/
theorem shows_of_visibleTable (hvalid : dependency.description.check = .ok ())
    (htop : dependency.description.top.name = "") (hfqn : fqn ≠ "")
    (h : dependency.visibleTable.get? fqn = some s) (hown : dependency.prepare [] false = .ok own)
    (haround : ∀ outer rest, fqn = outer ++ "." ++ rest →
      dependency.directives.isBadSymbol outer = false)
    (hkind : s.kind = .nameSpace → dependency.directives.reclassifies fqn = true) :
    Shows dependency.directives (namingOf own.linked.arena) own.linked.description.top fqn := by
  obtain ⟨x, hx, rfl, hsymbol⟩ := exists_definition_of_visibleTable h hown
  have hnamed : ∀ y ∈ own.linked.description.definitions,
      namingOf own.linked.arena y.link = y.path := by
    intro y hy
    rw [namingOf_of_run hvalid (of_prepare hown).1 hy, htop, under_unnamed]
  have hinside : x ∈ own.linked.description.top.inside "" := by
    obtain rfl | hinside := Namespace.mem_definitions.mp hx
    · exact absurd rfl hfqn
    · exact hinside
  exact shows_of_mem_inside haround (fun h => hkind (hsymbol ▸ h)) _ rfl hnamed hinside

/-- A symbol of a valid library that another one depends on can be referred to only if neither
library excludes it. The library that it belongs to, emitted by itself in either flavor, declares a
type under its dotted name exactly if one stands in sight there. It does so if its top level has no
name, it excludes nothing that the symbol's path begins with, and, in the case of a namespace, it
has itself chosen to write it as an interface. -/
theorem declares_foreign_iff_shows
    (hvalid : ∀ dependency ∈ dependencies, dependency.description.check = .ok ())
    (hprepare : primary.prepare dependencies isStrict = .ok p)
    (hs : p.table.get? fqn = some s) (hforeign : s.library ≠ primary.name)
    (hok : (p.writer.resolve fqn).isOk = true) :
    ∃ dependency ∈ dependencies, dependency.name = s.library ∧
      dependency.visibleTable.get? fqn = some s ∧
      primary.directives.isBadSymbol fqn = false ∧
      dependency.directives.isBadSymbol fqn = false ∧
      ∃ own, dependency.prepare [] false = .ok own ∧ ∀ flavor, ∃ e, own.emit flavor = .ok e ∧
        ((∃ item ∈ e.document.items, item.declaresType fqn = true) ↔
          Shows dependency.directives (namingOf own.linked.arena) own.linked.description.top fqn) ∧
        (dependency.description.top.name = "" →
          (∀ outer rest, fqn = outer ++ "." ++ rest →
            dependency.directives.isBadSymbol outer = false) →
          (s.kind = .nameSpace → dependency.directives.reclassifies fqn = true) →
          ∃ item ∈ e.document.items, item.declaresType fqn = true) := by
  obtain ⟨_, htable, hdirectives⟩ := of_prepare hprepare
  rw [htable] at hs
  obtain ⟨hfqn, dependency, hmem, hname, hget⟩ := exists_dependency hs hforeign
  have hkept : p.directives.isBadSymbol fqn = false := Resolver.not_bad_of_resolve hok
  rw [hdirectives] at hkept
  have hprimary := Directives.not_bad_of_merge hkept List.mem_cons_self
  have hdependency := Directives.not_bad_of_merge hkept
    (List.mem_cons_of_mem _ (List.mem_map_of_mem hmem))
  obtain ⟨own, hown⟩ := exists_prepare dependency []
  refine ⟨dependency, hmem, hname, hget, hprimary, hdependency, own, hown, fun flavor => ?_⟩
  -- With nothing to depend on, the merged directives are the library's own.
  obtain ⟨hrun, _, hmerge⟩ := of_prepare hown
  have halone : own.directives = dependency.directives := hmerge
  obtain ⟨e, hemit, hdeclares⟩ := declaresType_iff_of_run (hvalid dependency hmem) hrun own.table
    own.directives flavor
  have hiff := hdeclares fqn
  rw [halone, hdependency, eq_self, true_and] at hiff
  refine ⟨e, hemit, hiff, fun htop haround hkind => hiff.mpr ?_⟩
  exact shows_of_visibleTable (hvalid dependency hmem) htop hfqn hget hown haround hkind

/-- A library that excludes one of its namespaces, with a class in each of them. -/
def concealing : Library :=
  ⟨"lib", .ofTop (.plain "" [] [.plain "lib" [] [.plain "hidden" [.plain "Widget"] [],
    .plain "shown" [.plain "Widget"] []]]),
    { Directives.empty with badSymbols := Ordered.Set.ofList ["lib.hidden"] }⟩

/-- A library whose only class extends the one in the excluded namespace. -/
def referring : Library :=
  ⟨"app", .ofTop (.plain "" [] [.plain "app"
    [{ Class.plain "Panel" with base := some "lib.hidden.Widget" }] []]), .empty⟩

/-- A class of a namespace that the dependency does not exclude is referred to and declared. -/
theorem declares_foreign_iff_shows_concealing :
    concealing.description.check = .ok () ∧
      ∃ p, referring.prepare [concealing] false = .ok p ∧
        p.table.get? "lib.shown.Widget" =
          some ⟨"lib.shown.Widget", "Widget", .classType, "lib"⟩ ∧
        (p.writer.resolve "lib.shown.Widget").isOk = true ∧
        ∃ own, concealing.prepare [] false = .ok own ∧ ∀ flavor, ∃ e, own.emit flavor = .ok e ∧
          ∃ item ∈ e.document.items, item.declaresType "lib.shown.Widget" = true := by
  have hvalid : ∀ dependency ∈ [concealing], dependency.description.check = .ok () := by decide
  have hprepare : referring.prepare [concealing] false = .ok _ := rfl
  have hread : (referring.prepare [concealing] false).map (fun p =>
      (p.table.get? "lib.shown.Widget", (p.writer.resolve "lib.shown.Widget").isOk))
        = .ok (some ⟨"lib.shown.Widget", "Widget", .classType, "lib"⟩, true) := by decide
  rw [hprepare] at hread
  obtain ⟨hsymbol, hok⟩ := Prod.mk.inj (Except.ok.inj hread)
  obtain ⟨dependency, hmem, _, _, _, _, own, hown, hdeclares⟩ :=
    declares_foreign_iff_shows hvalid hprepare hsymbol (by decide) hok
  obtain rfl := List.mem_singleton.mp hmem
  refine ⟨hvalid _ hmem, _, hprepare, hsymbol, hok, own, hown, fun flavor => ?_⟩
  obtain ⟨e, hemit, _, hsufficient⟩ := hdeclares flavor
  refine ⟨e, hemit, hsufficient rfl (fun outer rest hpath => ?_) fun hkind => nomatch hkind⟩
  have hother : outer ≠ "lib.hidden" := by
    rintro rfl
    have hchars := congrArg String.toList hpath
    simp at hchars
  simpa [concealing, Directives.isBadSymbol, Ordered.Set.mem_ofList, Bool.eq_false_iff] using hother

/-- A class in an excluded namespace can be referred to, but is not declared. -/
theorem not_declares_foreign_concealing :
    concealing.description.check = .ok () ∧ referring.description.check = .ok () ∧
      ∃ p, referring.prepare [concealing] false = .ok p ∧
        p.table.get? "lib.hidden.Widget" =
          some ⟨"lib.hidden.Widget", "Widget", .classType, "lib"⟩ ∧
        (p.writer.resolve "lib.hidden.Widget").isOk = true ∧
        ∃ own, concealing.prepare [] false = .ok own ∧ ∀ flavor, ∃ e, own.emit flavor = .ok e ∧
          ¬ ∃ item ∈ e.document.items, item.declaresType "lib.hidden.Widget" = true := by
  have hread : (referring.prepare [concealing] false).map (fun p =>
      (p.table.get? "lib.hidden.Widget", (p.writer.resolve "lib.hidden.Widget").isOk))
        = .ok (some ⟨"lib.hidden.Widget", "Widget", .classType, "lib"⟩, true) := by decide
  have hprepare : referring.prepare [concealing] false = .ok _ := rfl
  have hown : concealing.prepare [] false = .ok _ := rfl
  rw [hprepare] at hread
  obtain ⟨hsymbol, hok⟩ := Prod.mk.inj (Except.ok.inj hread)
  refine ⟨by decide, by decide, _, hprepare, hsymbol, hok, _, hown, fun flavor => ⟨_, rfl, ?_⟩⟩
  cases flavor <;> decide

end Library

end Ambient
