import Ambient.Proofs.Declaration.Registry
import Ambient.Proofs.Declaration.Surviving
import Ambient.Proofs.Declaration.Uses

/-!
# Unambiguous names in blocks

Every block of a document is that of a namespace in sight, with the imports that the names used in
it lead to. So whether its names are unambiguous is settled by these: only aliases, which nothing is
checked against, and names that are spelled as they are can be in the way.
-/

namespace Ambient

namespace Declaration

open Api

variable {w : Writer} {top ns : Namespace} {modules : Ordered.Set String}

/-! ## The blocks of a document -/

/-- A block is that of a namespace in sight which is in the list of modules. -/
def Writer.Places (w : Writer) (modules : Ordered.Set String) (ns : Namespace) (b : Block) : Prop :=
  ∃ inner, InSight w.directives w.nameOf ns inner ∧
    modules.contains (w.nameOf.nameSpace inner) = true ∧ w.Spells inner b

/-- Whatever the page, an action answers with blocks that have a property. -/
def AllBlocks (m : Writing (List Block)) (P : Block → Prop) : Prop :=
  ∀ page, ∀ b ∈ (m.run page).1, P b

/-- Blocks that are written one after the other all have a property if each run of them does. -/
theorem AllBlocks.append {m n : Writing (List Block)} {P : Block → Prop} (hm : AllBlocks m P)
    (hn : AllBlocks n P) :
    AllBlocks (m >>= fun first => n >>= fun rest => pure (first ++ rest)) P :=
  fun page b hb => (List.mem_append.mp hb).elim (hm page b) (hn _ b)

namespace Writer

/-- If the blocks of each nested namespace have a property, then so do those of all. -/
theorem allBlocks_nestedBlocks {nested : List Namespace} {P : Block → Prop}
    (h : ∀ ns ∈ nested, AllBlocks (w.blocks modules ns) P) :
    AllBlocks (w.nestedBlocks modules nested) P := by
  induction nested with
  | nil => exact fun _ => List.forall_mem_nil _
  | cons ns rest ih =>
    obtain ⟨hns, hrest⟩ := List.forall_mem_cons.mp h
    rw [nestedBlocks]
    exact hns.append (ih hrest)

/-- The blocks of a namespace and of those nested in it are those of namespaces in sight. -/
theorem Follows.allBlocks_blocks (hw : w.Follows top) (ns : Namespace) :
    Meets w.directives w.nameOf top ns →
      AllBlocks (w.blocks modules ns) (w.Places modules ns) := by
  induction ns using Namespace.induction with
  | step scope nested ih =>
    intro h
    have hcontains : w.emitted.contains (w.nameOf scope.link)
        = !excludes w.directives (w.nameOf.nameSpace ⟨scope, nested⟩) := hw.contains_nameSpace h
    rw [blocks]
    dsimp only
    rw [hcontains]
    cases hns : excludes w.directives (w.nameOf.nameSpace ⟨scope, nested⟩) with
    | true => exact fun _ => List.forall_mem_nil _
    | false =>
      have hnested : AllBlocks (w.nestedBlocks modules nested) (w.Places modules ⟨scope, nested⟩) :=
        allBlocks_nestedBlocks fun child hchild page b hb => by
          obtain ⟨inner, hinner, hrest⟩ := ih child hchild (h.nested hns hchild) page b hb
          exact ⟨inner, .nested hns hchild hinner, hrest⟩
      cases hmodule : modules.contains (w.nameOf scope.link) with
      | false => exact hnested
      | true =>
        have hown : AllBlocks (w.moduleBlock (w.nameOf scope.link) ⟨scope, nested⟩ >>=
            fun block => pure [block]) (w.Places modules ⟨scope, nested⟩) := fun page b hb => by
          obtain rfl := List.mem_singleton.mp hb
          exact ⟨_, .self hns, hmodule, w.spells_moduleBlock ⟨scope, nested⟩ page⟩
        exact hown.append hnested

/-- Nothing is emitted below an excluded top level, and so there are no blocks. -/
theorem Follows.blocks_of_excluded (hw : w.Follows top)
    (htop : excludes w.directives (w.nameOf.nameSpace top) = true) (ns : Namespace) :
    w.blocks modules ns = pure [] := by
  obtain ⟨scope, nested⟩ := ns
  rw [blocks, hw.emitted, emitted_of_excluded htop]
  rfl

/-- The blocks of a document are those of namespaces in sight. -/
theorem Follows.allBlocks_document (hw : w.Follows top) (page : Page) :
    ∀ b ∈ ((w.document .modules modules top).run page).1.blocks, w.Places modules top b := by
  have hnested : AllBlocks (w.nestedBlocks modules top.nested) (w.Places modules top) := by
    refine allBlocks_nestedBlocks fun child hchild => ?_
    cases htop : excludes w.directives (w.nameOf.nameSpace top) with
    | true =>
      rw [hw.blocks_of_excluded htop]
      exact fun _ => List.forall_mem_nil _
    | false =>
      intro page b hb
      obtain ⟨inner, hinner, hrest⟩ :=
        hw.allBlocks_blocks child (Meets.refl.nested htop hchild) page b hb
      exact ⟨inner, .nested htop hchild hinner, hrest⟩
  exact fun b hb => hnested _ b hb

end Writer

/-! ## Declared names -/

namespace Writer

/-- The names of what a block has are those that it declares itself. -/
theorem name_mem_locals {entry : Entry} (h : entry ∈ w.blockEntries ns) :
    entry.name ∈ (w.startOf ns).locals := by
  change entry.name ∈ w.localNames ns (w.isInterface (w.nameOf ns.scope.link))
  rw [blockEntries, List.mem_append, List.mem_append] at h
  simp only [localNames, List.mem_append]
  obtain (hvalue | htype) | hinterface := h
  · split at hvalue
    · cases hvalue
    · next hvalues =>
      rw [if_neg hvalues, List.mem_append]
      obtain hconstant | hfunction := List.mem_append.mp hvalue
      · obtain ⟨v, hv, rfl⟩ := List.mem_map.mp hconstant
        exact .inl (.inl (.inl (.inl (.inl (List.mem_map_of_mem hv)))))
      · obtain ⟨f, hf, rfl⟩ := List.mem_map.mp hfunction
        exact .inl (.inl (.inl (.inl (.inr (List.mem_map_of_mem hf)))))
  · obtain ⟨n, hn, rfl⟩ := List.mem_map.mp htype
    simp only [Scope.types, List.mem_append, List.mem_map] at hn
    obtain (⟨c, hc, rfl⟩ | ⟨i, hi, rfl⟩) | ⟨e, he, rfl⟩ := hn
    · exact .inl (.inl (.inl (.inr (List.mem_map_of_mem hc))))
    · exact .inl (.inl (.inr (List.mem_map_of_mem hi)))
    · exact .inl (.inr (List.mem_map_of_mem he))
  · obtain ⟨child, hchild, rfl⟩ := List.mem_map.mp hinterface
    obtain ⟨hnested, hemitted⟩ := List.mem_filter.mp hchild
    refine .inr (List.mem_map.mpr ⟨child, List.mem_filter.mpr ⟨hnested, ?_⟩, rfl⟩)
    exact (Bool.and_eq_true_iff.mp hemitted).2

/-- A block declares the outlines of what its namespace has. -/
theorem Spells.map_outline {b : Block} (h : w.Spells ns b) :
    b.items.map Item.outline = w.outlines (w.blockEntries ns) := by
  have hwrites := (WritesEntries.ofList (w := w) w.write id (fun _ => rfl)
    (w.blockEntries ns)).answer ⟨.module (w.startOf ns), ∅⟩
  rwa [List.map_id, ← blockItems, ← h.items _ _ rfl] at hwrites

/-- What a block declares has one of the names that it is said to declare. -/
theorem Spells.name_mem_locals {b : Block} (h : w.Spells ns b) :
    ∀ item ∈ b.items, item.head.name ∈ (w.startOf ns).locals := by
  intro item hitem
  have houtline := List.mem_map_of_mem (f := Item.outline) hitem
  rw [h.map_outline] at houtline
  obtain ⟨entry, hentry, hsome⟩ := List.mem_filterMap.mp houtline
  rw [item.head_eq.2, (w.title_of_outline? hsome).1]
  exact Writer.name_mem_locals hentry

end Writer

/-- A module has a dotted name. -/
theorem ne_empty_of_mem_modules {d : Directives} {nameOf : Naming} {fqn : String}
    (h : fqn ∈ (Plan.of d nameOf top).modules.toList) : fqn ≠ "" := by
  obtain ⟨visit, hvisit, hname⟩ := List.mem_filterMap.mp (Ordered.Set.mem_ofList.mp h)
  cases visit with
  | excluded name => cases hname
  | emitted name ns =>
    obtain ⟨rfl, _⟩ := of_mem_visits hvisit
    rw [moduleName?_emitted] at hname
    obtain ⟨⟨hne, _⟩, hsame⟩ := Option.ite_none_right_eq_some.mp hname
    exact Option.some.inj hsame ▸ hne

end Declaration

namespace Library

open Declaration Api

variable {primary : Library} {dependencies : List Library} {isStrict : Bool} {p : Prepared}

/-- A symbol that a prepared library resolves has a path that ends in its name. -/
theorem exists_joined_of_get? {fqn : String} {s : Symbol} (hfqn : fqn ≠ "")
    (h : (primary.table.withDependencies (dependencies.map visibleTable)).get? fqn = some s) :
    ∃ path, fqn = joined path s.name := by
  have hdescribed {library : String} {described : Description}
      (h : (Symbol.Table.ofDescription library described).get? fqn = some s) :
      ∃ path, fqn = joined path s.name := by
    obtain ⟨x, hx, rfl, rfl⟩ := Symbol.Table.exists_definition_of_get? h
    obtain rfl | hinside := Namespace.mem_definitions.mp hx
    · exact absurd rfl hfqn
    · exact Namespace.exists_joined_of_mem_inside hinside
  obtain hown | ⟨table, htable, hs, rfl⟩ := Symbol.Table.of_get?_withDependencies h
  · exact hdescribed hown
  · obtain ⟨dependency, _, rfl⟩ := List.mem_map.mp htable
    exact hdescribed ((Symbol.Table.lists_ofDescription _ _).get?_of_mem_toList hs)

/-- What is owned by one owner under one name is one symbol. -/
theorem eq_of_resolve (hp : primary.prepare dependencies isStrict = .ok p) (d : Directives)
    {fqn other : String} {s t : Symbol} (hfqn : fqn ≠ "") (hother : other ≠ "")
    (hs : ({ p with directives := d } : Prepared).writer.resolve fqn = .ok s)
    (ht : ({ p with directives := d } : Prepared).writer.resolve other = .ok t)
    (howner : s.owner = t.owner) (hname : s.name = t.name) : s = t := by
  obtain ⟨_, htable, -⟩ := of_prepare hp
  have hget := (Resolver.of_resolve hs).1
  have hgot := (Resolver.of_resolve ht).1
  change p.table.get? fqn = some s at hget
  change p.table.get? other = some t at hgot
  rw [htable] at hget hgot
  obtain ⟨path, hpath⟩ := exists_joined_of_get? hfqn hget
  obtain ⟨around, haround⟩ := exists_joined_of_get? hother hgot
  rw [Symbol.owner, Symbol.owner, fqn_of_get? hget, fqn_of_get? hgot, hpath, haround, hname] at howner
  have hsame : fqn = other := by rw [hpath, haround, Symbol.path_eq_of_ownerOf howner, hname]
  rw [hsame, hgot] at hget
  exact (Option.some.inj hget).symm

/-- What a prepared library is emitted with has the blocks of namespaces in sight. -/
theorem places_of_prepare (hp : primary.prepare dependencies isStrict = .ok p) (d : Directives) :
    let emitted : Prepared := { p with directives := d }
    let top := p.linked.description.top
    ∃ e, emitted.emit .modules = .ok e ∧ ∀ block ∈ e.document.blocks,
      emitted.writer.Places (Plan.of d emitted.writer.nameOf top).modules top block := by
  intro emitted top
  have hemit : emitted.emit .modules = .ok _ := emit_of_run (of_prepare hp).1 p.table d .modules
  have hfollows : emitted.writer.Follows top := Writer.follows_writerFor ..
  refine ⟨_, hemit, ?_⟩
  rw [Prepared.document_of_emit hemit]
  exact hfollows.allBlocks_document _

/-- Whatever directives a prepared library is emitted with, every block is that of a namespace in
sight, and a name in a type is written there as the spelling of what it uses. What the block declares
has one of the names that it reserves; it imports each symbol of another module that it uses, once,
under the symbol's own name if that is free, and spells a symbol in the same way throughout. So its
names are unambiguous exactly if nothing stands in the way of aliases and of names that are spelled
as they are. -/
theorem names_unambiguous_iff (hp : primary.prepare dependencies isStrict = .ok p)
    (d : Directives) :
    let emitted : Prepared := { p with directives := d }
    let w := emitted.writer
    (∀ fqn s other t, fqn ≠ "" → other ≠ "" → w.resolve fqn = .ok s → w.resolve other = .ok t →
      s.owner = t.owner → s.name = t.name → s = t) ∧
    (∀ i warnings word args,
      TypeExpr.IsSpelled (i.spellings (TypeExpr.wordUses w.toResolver word))
        ((TypeExpr.writeName w.toResolver word args).run ⟨.module i, warnings⟩).1) ∧
    ∃ e, emitted.emit .modules = .ok e ∧ ∀ block ∈ e.document.blocks, ∃ ns,
      InSight d w.nameOf p.linked.description.top ns ∧ w.Spells ns block ∧
      (∀ item ∈ block.items, item.head.name ∈ (w.startOf ns).locals) ∧
      let uses := w.blockUses ns
      let imports := (w.startOf ns).after uses
      (w.startOf ns).spellings uses = uses.map imports.spell ∧ imports.Orderly uses ∧
        (imports.Unambiguous uses ↔ imports.Clear uses) := by
  intro emitted w
  refine ⟨fun _ _ _ _ hfqn hother hs ht => eq_of_resolve hp d hfqn hother hs ht,
    TypeExpr.isSpelled_writeName w.toResolver, ?_⟩
  obtain ⟨e, hemit, hplaces⟩ := places_of_prepare hp d
  refine ⟨e, hemit, fun block hblock => ?_⟩
  obtain ⟨ns, hsight, hmodule, hspells⟩ := hplaces block hblock
  have horderly := (Reference.Imports.Orderly.start (w.nameOf.nameSpace ns)
    (w.localNames ns (w.isInterface (w.nameOf.nameSpace ns)))).after (w.blockUses ns)
  rw [List.nil_append] at horderly
  have hnamed : ((w.startOf ns).after (w.blockUses ns)).module ≠ "" := by
    rw [(Reference.Imports.after_same _ _).1]
    exact ne_empty_of_mem_modules ((Ordered.Set.contains_iff _ _).mp hmodule)
  exact ⟨ns, hsight, hspells, hspells.name_mem_locals, Reference.Imports.spellings_eq _ _, horderly,
    horderly.unambiguous_iff_clear hnamed⟩

/-- A field with a type. -/
def field (name type : String) : Variable :=
  { (default : Variable) with
    kind := .variableDesc, name := name, type := some (.simple ⟨type, false, .unset⟩) }

/-- A library with two namespaces that have a class of one name, and a namespace whose class refers
to these classes and to a name of the environment. -/
def referringTo (name : String) : Library :=
  ⟨"app", .ofTop (.plain "" [] [.plain "a" [.plain name] [], .plain "c" [.plain name] [],
    .plain "b" [{ Class.plain "Widget" with fields :=
      [field "x" ("a." ++ name), field "y" ("c." ++ name), field "z" "Date"] }] []]), .empty⟩

/-- Two classes of one name and a name of the environment are told apart in every block. -/
theorem names_unambiguous_iff_panels :
    ∃ p, (referringTo "Panel").prepare [] true = .ok p ∧
      ∃ e, p.emit .modules = .ok e ∧ ∀ block ∈ e.document.blocks, ∃ ns,
        p.writer.Spells ns block ∧
        let uses := p.writer.blockUses ns
        ((p.writer.startOf ns).after uses).Unambiguous uses := by
  have hp : (referringTo "Panel").prepare [] true = .ok _ := rfl
  have hread : ((referringTo "Panel").prepare [] true).map (fun p : Prepared =>
      decide (∀ ns ∈ shown .empty p.writer.nameOf p.linked.description.top,
        ((p.writer.startOf ns).after (p.writer.blockUses ns)).Clear (p.writer.blockUses ns)))
      = .ok true := by decide +kernel
  rw [hp] at hread
  have hclear := of_decide_eq_true (Except.ok.inj hread)
  obtain ⟨_, _, e, hemit, hblocks⟩ := names_unambiguous_iff hp .empty
  refine ⟨_, hp, e, hemit, fun block hblock => ?_⟩
  obtain ⟨ns, hns, hspells, _, _, _, hiff⟩ := hblocks block hblock
  exact ⟨ns, hspells, hiff.mpr (hclear ns (mem_shown.mpr hns))⟩

/-- A class is imported under the name of the environment that another field refers to. -/
theorem not_names_unambiguous_date :
    ∃ p, (referringTo "Date").prepare [] true = .ok p ∧
      ∃ e, p.emit .modules = .ok e ∧ ∃ block ∈ e.document.blocks, ∃ ns,
        p.writer.Spells ns block ∧ .environment "Date" ∈ p.writer.blockUses ns ∧
        ∃ added ∈ block.imports, added.localName = "Date" := by
  have hp : (referringTo "Date").prepare [] true = .ok _ := rfl
  have hread : ((referringTo "Date").prepare [] true).map (fun p : Prepared =>
      ((p.emit .modules).map fun e => e.document.blocks.map Block.fqn,
        decide (∀ ns ∈ shown .empty p.writer.nameOf p.linked.description.top,
          p.writer.nameOf.nameSpace ns = "b" → .environment "Date" ∈ p.writer.blockUses ns ∧
            ∃ added ∈ ((p.writer.startOf ns).after (p.writer.blockUses ns)).imports,
              added.localName = "Date")))
      = .ok (.ok ["a", "c", "b"], true) := by decide +kernel
  rw [hp] at hread
  obtain ⟨hblocks, huses⟩ := Prod.mk.inj (Except.ok.inj hread)
  obtain ⟨e, hemit, hplaces⟩ := places_of_prepare hp .empty
  obtain ⟨block, hblock, hb⟩ : ∃ block ∈ e.document.blocks, block.fqn = "b" := by
    have hnames : e.document.blocks.map Block.fqn = ["a", "c", "b"] :=
      Except.ok.inj ((congrArg (Except.map _) hemit).symm.trans hblocks)
    exact List.mem_map.mp (hnames ▸ by decide)
  obtain ⟨ns, hsight, _, hspells⟩ := hplaces block hblock
  obtain ⟨hused, himported⟩ :=
    of_decide_eq_true huses ns (mem_shown.mpr hsight) (hspells.fqn.symm.trans hb)
  exact ⟨_, hp, e, hemit, block, hblock, ns, hspells, hused, hspells.imports ▸ himported⟩

end Library

end Ambient
