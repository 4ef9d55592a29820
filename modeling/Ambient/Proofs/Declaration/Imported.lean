import Ambient.Proofs.Api.Definitions
import Ambient.Proofs.Declaration.Unambiguous
import Ambient.Proofs.Symbol.Splitting

/-!
# Where imported types are declared

A type of another module is imported from the module of its owner, and its block is that of the
namespace that declares it. The block has the path of the namespace, so that the import leads there
exactly if the last dot of the type's dotted name stands in front of its own name.
-/

namespace Ambient

namespace Declaration

open Api

/-- A namespace in sight stands at a path below the top level. -/
theorem InSight.exists_located {d : Directives} {nameOf : Naming} {top ns : Namespace}
    (h : InSight d nameOf top ns) : ∀ path, ∃ here, (here, ns) ∈ top.located path := by
  induction h with
  | self _ => exact fun path => ⟨path, Namespace.mem_located.mpr (.inl ⟨rfl, rfl⟩)⟩
  | @nested _ child _ _ hchild _ ih =>
    intro path
    obtain ⟨here, hhere⟩ := ih (joined path child.name)
    exact ⟨here, Namespace.mem_located.mpr (.inr ⟨child, hchild, hhere⟩)⟩

namespace Writer

variable {w : Writer} {ns : Namespace}

/-- The types that are declared at the place of a namespace are declared by the namespace. -/
theorem exists_declared_of_mem_declaredTypes {o : Outline} (h : o ∈ w.declaredTypes ns)
    (here : String) :
    ∃ x ∈ ns.declared here, w.nameOf x.link = o.title.fqn ∧ x.name = o.title.name := by
  obtain ⟨n, hn, _, rfl⟩ | ⟨child, hchild, _, rfl⟩ := mem_declaredTypes.mp h
  · exact ⟨_, Namespace.mem_declared.mpr (.inr ⟨n, hn, rfl⟩), rfl, rfl⟩
  · exact ⟨_, Namespace.mem_declared.mpr (.inl ⟨child, hchild, rfl⟩), rfl, rfl⟩

/-- A type in a block is one that is declared at the place of the block's namespace. -/
theorem Spells.mem_declaredTypes {b : Block} (h : w.Spells ns b) {item : Item}
    (hitem : item ∈ b.items) {fqn : String} (hdeclares : item.declaresType fqn = true) :
    item.outline ∈ w.declaredTypes ns := by
  rw [declaredTypes, ← h.map_outline]
  exact List.mem_filter.mpr
    ⟨List.mem_map_of_mem hitem, (Item.declaresType_iff.mp hdeclares).2⟩

end Writer

end Declaration

namespace Library

open Declaration Api

variable {primary : Library} {dependencies : List Library} {isStrict : Bool} {p : Prepared}

/-- A namespace that the library has at a path declares a symbol. -/
def DeclaresAt (lib : Library) (path : String) (s : Symbol) : Prop :=
  ∃ ns, (path, ns) ∈ lib.description.located ∧
    s ∈ (ns.declared path).map (Definition.symbol lib.name)

/-- A symbol declared at a path has the path with its simple name as its dotted name. -/
theorem DeclaresAt.fqn_eq {lib : Library} {path : String} {s : Symbol}
    (h : lib.DeclaresAt path s) : s.fqn = joined path s.name := by
  obtain ⟨_, _, hs⟩ := h
  obtain ⟨x, hx, rfl⟩ := List.mem_map.mp hs
  exact Namespace.path_of_mem_declared hx

/-- A symbol is declared at one path only. -/
theorem DeclaresAt.unique {lib : Library} {path other : String} {s : Symbol}
    (h : lib.DeclaresAt path s) (hother : lib.DeclaresAt other s) : other = path :=
  Symbol.joined_left_injective _ (hother.fqn_eq.symm.trans h.fqn_eq)

/-- What is defined below the top level is declared somewhere. -/
theorem exists_declaresAt {lib : Library} {x : Definition}
    (hx : x ∈ lib.description.top.inside "") :
    ∃ path, lib.DeclaresAt path (x.symbol lib.name) := by
  obtain ⟨path, ns, hns, hdeclared⟩ := Namespace.mem_inside_iff_declared.mp hx
  exact ⟨path, ns, hns, List.mem_map_of_mem hdeclared⟩

/-- A symbol of the table, apart from that of the top level, is declared at one path. -/
theorem existsUnique_declaresAt {lib : Library} {s : Symbol} (hs : s ∈ lib.table.toList)
    (hfqn : s.fqn ≠ "") : ∃! path, lib.DeclaresAt path s := by
  have hget := (Symbol.Table.lists_ofDescription _ _).get?_of_mem_toList hs
  obtain ⟨x, hx, _, rfl⟩ := Symbol.Table.exists_definition_of_get? hget
  obtain rfl | hinside := Namespace.mem_definitions.mp hx
  · exact absurd rfl hfqn
  · obtain ⟨path, hpath⟩ := exists_declaresAt hinside
    exact ⟨path, hpath, fun _ hother => hpath.unique hother⟩

/-- What is left of a description after its correction is declared where it has been before. -/
theorem declaresAt_of_run {linked : Correction.Linked}
    (hrun : Correction.run primary.name primary.table primary.description = .ok linked)
    {path : String} {x : Definition} (hx : x ∈ linked.description.top.inside "")
    (hpath : x.path = joined path x.name) : primary.DeclaresAt path (x.symbol primary.name) := by
  have hbefore := (Correction.symbols_inside_sublist_of_run hrun primary.name "").subset
    (List.mem_map_of_mem hx)
  obtain ⟨y, hy, hsame⟩ := List.mem_map.mp hbefore
  obtain ⟨there, hthere⟩ := exists_declaresAt hy
  rw [hsame] at hthere
  have hjoined : joined there x.name = joined path x.name := hthere.fqn_eq.symm.trans hpath
  exact Symbol.joined_left_injective x.name hjoined ▸ hthere

/-- A type in a block is defined by the description that is emitted, at the path of the block's
namespace. -/
theorem exists_definition_of_spells (hd : primary.description.check = .ok ())
    (hp : primary.prepare dependencies isStrict = .ok p) {ns : Namespace} {b : Block}
    (hsight : InSight p.directives p.writer.nameOf p.linked.description.top ns)
    (hspells : p.writer.Spells ns b) {item : Item} (hitem : item ∈ b.items) {fqn : String}
    (hdeclares : item.declaresType fqn = true) :
    ∃ here, b.fqn = under primary.description.top.name here ∧
      ∃ x ∈ p.linked.description.top.inside "", x.path = joined here x.name ∧
        x.name = item.head.name ∧ fqn = under primary.description.top.name x.path := by
  have hrun := (of_prepare hp).1
  obtain ⟨here, hlocated⟩ := hsight.exists_located ""
  obtain ⟨x, hx, hname, hsimple⟩ := Writer.exists_declared_of_mem_declaredTypes
    (hspells.mem_declaredTypes hitem hdeclares) here
  have hinside : x ∈ p.linked.description.top.inside "" :=
    Namespace.mem_inside_iff_declared.mpr ⟨here, ns, hlocated, hx⟩
  have hblock : p.writer.nameOf.nameSpace ns = under primary.description.top.name here :=
    namingOf_of_run hd hrun (Namespace.definition_mem_of_located hlocated)
  have hlink : p.writer.nameOf x.link = under primary.description.top.name x.path :=
    namingOf_of_run hd hrun (Namespace.mem_definitions.mpr (.inr hinside))
  refine ⟨here, hspells.fqn.trans hblock, x, hinside, Namespace.path_of_mem_declared hx,
    hsimple.trans item.head_eq.2.symm, ?_⟩
  rw [← hlink, hname, (Item.declaresType_iff.mp hdeclares).1]

/-- Every symbol of a library's table, apart from that of the top level, is declared at exactly one
path. Its dotted name is the path with its own name behind it, and its owner is the path exactly if
the last dot there is the one in between; only then do owner and name make up the dotted name, and
only then is the module of the owner the one of the path.

With this goes what a valid library is emitted with, whatever it depends on. A type in a block has the
dotted name of the block with its own name behind it; if the top level has no name, it is declared at
the path that the block is named after, and the table has a symbol for it. A symbol of that dotted
name is imported from the block's module exactly if the last dot is the one in between. -/
theorem owner_eq_path_iff (primary : Library) :
    (∀ s ∈ primary.table.toList, s.fqn ≠ "" → ∃! path, primary.DeclaresAt path s) ∧
    (∀ path s, primary.DeclaresAt path s →
      s.fqn = joined path s.name ∧ (s.owner = path ↔ Symbol.Splits path s.name) ∧
        (s.fqn = joined s.owner s.name ↔ Symbol.Splits path s.name) ∧
        (Reference.modulePath s.owner = Reference.modulePath path ↔
          Symbol.Splits path s.name)) ∧
    (primary.description.check = .ok () → ∀ dependencies isStrict p,
      primary.prepare dependencies isStrict = .ok p →
        ∃ e, p.emit .modules = .ok e ∧ ∀ block ∈ e.document.blocks, ∀ item ∈ block.items,
          ∀ fqn, item.declaresType fqn = true →
            fqn = joined block.fqn item.head.name ∧
            (primary.description.top.name = "" → p.table.contains fqn ∧
              ∃ s, primary.DeclaresAt block.fqn s ∧ s.fqn = fqn ∧ s.name = item.head.name) ∧
            ∀ s, p.table.get? fqn = some s →
              (Reference.modulePath s.owner = block.path ↔
                Symbol.Splits block.fqn item.head.name) ∧
              ∀ imports : Reference.Imports, ∀ added ∈ (imports.refer s).2.imports,
                added ∈ imports.imports ∨
                  (added.path = block.path ↔ Symbol.Splits block.fqn item.head.name)) := by
  refine ⟨fun s hs hfqn => existsUnique_declaresAt hs hfqn, fun path s h => ?_,
    fun hd dependencies isStrict p hp => ?_⟩
  · rw [Symbol.owner, h.fqn_eq]
    exact ⟨rfl, Symbol.ownerOf_joined_eq_iff, Symbol.joined_ownerOf_eq_iff,
      Symbol.modulePath_ownerOf_eq_iff⟩
  · obtain ⟨hrun, htable, _⟩ := of_prepare hp
    obtain ⟨e, hemit, hplaces⟩ := places_of_prepare hp p.directives
    refine ⟨e, hemit, fun block hblock item hitem fqn hdeclares => ?_⟩
    obtain ⟨ns, hsight, _, hspells⟩ := hplaces block hblock
    obtain ⟨here, hhere, x, hx, hpath, hname, hfqn⟩ :=
      exists_definition_of_spells hd hp hsight hspells hitem hdeclares
    have hnamed : x.name ≠ "" := Correction.inside_name_ne_of_run hd hrun "" x hx
    have hjoined : fqn = joined block.fqn item.head.name := by
      rw [hfqn, hpath, under_joined _ _ hnamed, hhere, hname]
    refine ⟨hjoined, fun htop => ?_, fun s hs => ?_⟩
    · rw [htop, under_unnamed] at hhere hfqn
      have hdeclared := declaresAt_of_run hrun hx hpath
      refine ⟨?_, _, hhere ▸ hdeclared, hfqn.symm, hname⟩
      rw [htable, hfqn]
      exact Symbol.Table.contains_withDependencies
        (Correction.contains_of_run hrun (Namespace.mem_definitions.mpr (.inr hx))) _
    · rw [htable] at hs
      -- The owner is read off the dotted name alone, which was joined from the block and the
      -- simple name.
      have hmodule : Reference.modulePath s.owner = block.path ↔
          Symbol.Splits block.fqn item.head.name := by
        rw [Symbol.owner, fqn_of_get? hs, hjoined]
        exact Symbol.modulePath_ownerOf_eq_iff
      refine ⟨hmodule, fun imports added hadded => ?_⟩
      obtain hold | ⟨hmodulePath, _⟩ := Reference.Imports.mem_refer hadded
      · exact .inl hold
      · exact .inr (hmodulePath ▸ hmodule)

/-- Names without dots are imported from the modules of their namespaces. -/
theorem owner_eq_path_iff_panels :
    (∃ s ∈ (referringTo "Panel").table.toList, s.fqn = "a.Panel" ∧
      ∃ path, (referringTo "Panel").DeclaresAt path s ∧ s.owner = path) ∧
    ∃ p, (referringTo "Panel").prepare [] true = .ok p ∧ ∃ e, p.emit .modules = .ok e ∧
      ∀ block ∈ e.document.blocks, ∀ item ∈ block.items, ∀ fqn, item.declaresType fqn = true →
        ∀ s, p.table.get? fqn = some s → Reference.modulePath s.owner = block.path := by
  have hd : (referringTo "Panel").description.check = .ok () := by decide
  have hp : (referringTo "Panel").prepare [] true = .ok _ := rfl
  obtain ⟨hsymbols, howners, hemitted⟩ := owner_eq_path_iff (referringTo "Panel")
  constructor
  · have hpanel : (⟨"a.Panel", "Panel", .classType, "app"⟩ : Symbol)
        ∈ (referringTo "Panel").table.toList := by decide
    obtain ⟨path, hpath, _⟩ := hsymbols _ hpanel (by decide)
    exact ⟨_, hpanel, rfl, path, hpath, (howners path _ hpath).2.1.mpr (.inl (by decide))⟩
  · obtain ⟨e, hemit, hblocks⟩ := hemitted hd [] true _ hp
    have hread : ((referringTo "Panel").prepare [] true).map (fun p : Prepared =>
        (p.emit .modules).map fun e => decide (∀ block ∈ e.document.blocks,
          ∀ item ∈ block.items, Symbol.Splits block.fqn item.head.name))
        = .ok (.ok true) := by decide +kernel
    rw [hp] at hread
    have hsplits := of_decide_eq_true
      (Except.ok.inj ((congrArg (Except.map _) hemit).symm.trans (Except.ok.inj hread)))
    refine ⟨_, hp, e, hemit, fun block hblock item hitem fqn hdeclares s hs => ?_⟩
    obtain ⟨_, _, himported⟩ := hblocks block hblock item hitem fqn hdeclares
    exact (himported s hs).1.mpr (hsplits block hblock item hitem)

/-- Classes with a dot in their names are owned by namespaces that do not exist, and imported from
modules that no block declares. -/
theorem not_owner_eq_path_dotted :
    (referringTo "x.Panel").description.check = .ok () ∧
    (∃ s ∈ (referringTo "x.Panel").table.toList, s.fqn = "a.x.Panel" ∧
      (referringTo "x.Panel").DeclaresAt "a" s ∧ s.owner = "a.x") ∧
    ∃ p, (referringTo "x.Panel").prepare [] true = .ok p ∧
      ((p.emit .modules).map fun e =>
        e.document.blocks.map fun block => (block.path, block.imports.map Reference.Import.path))
        = .ok [("a", []), ("c", []), ("b", ["a/x", "c/x"])] := by
  have hplace : ("a", Namespace.plain "a" [.plain "x.Panel"] [])
      ∈ (referringTo "x.Panel").description.located :=
    List.mem_cons_of_mem _ List.mem_cons_self
  refine ⟨by decide, ⟨⟨"a.x.Panel", "x.Panel", .classType, "app"⟩, by decide, rfl,
    ⟨_, hplace, by decide⟩, by decide⟩, _, rfl, ?_⟩
  decide +kernel

end Library

end Ambient
