import Ambient.Proofs.Declaration.Heritage
import Ambient.Proofs.Identifier

/-!
# Supertypes as entity names

A supertype is spelled as any reference is where the header stands. In the global tree that is its
dotted name, in a block its simple name or an alias, and these are entity names if all segments of
the dotted name can be declared. In script code beside blocks only symbols of the top level have a
name; others are imported in place there, which no clause admits.
-/

namespace Ambient

open Declaration (Resolver)
open Reference (Use Place Imports)
open Text (segments)

/-! ## Spellings of symbols -/

namespace Symbol

/-- Whether all segments of the dotted name can be declared. -/
def IsNameable (s : Symbol) : Prop :=
  ∀ segment ∈ segments '.' s.fqn, Identifier.isBinding segment = true

/-- Whether a symbol is nameable is decided segment by segment. -/
instance : DecidablePred IsNameable := fun _ => inferInstanceAs (Decidable (∀ _ ∈ _, _))

/-- A spelling by names alone: the dotted name of a symbol, its simple name, or an alias. -/
def IsPlainSpelling (s : Symbol) (text : String) : Prop :=
  text = s.fqn ∨ text = s.name ∨
    s.owner ≠ "" ∧ text = Text.replace s.owner "." "_" ++ "_" ++ s.name

variable {s : Symbol} {text path : String}

/-- A nameable symbol has a dotted name. -/
theorem IsNameable.ne_empty (h : s.IsNameable) : s.fqn ≠ "" := by
  intro hempty
  rw [IsNameable, hempty] at h
  cases h "" (.head _)

/-- The name of a nameable symbol ends its dotted name, so it is nameable, too. -/
theorem IsNameable.name (h : s.IsNameable) (hpath : s.fqn = Api.joined path s.name) :
    ∀ segment ∈ segments '.' s.name, Identifier.isBinding segment = true := by
  rw [IsNameable, hpath] at h
  by_cases hempty : path = ""
  · rwa [hempty, Api.joined_empty] at h
  · rw [Api.joined_of_ne hempty, Text.segments_dot] at h
    exact fun segment hsegment => h segment (List.mem_append_right _ hsegment)

/-- Spelled by names alone, a nameable symbol is an entity name. -/
theorem IsNameable.isEntityName (h : s.IsNameable) (hpath : s.fqn = Api.joined path s.name)
    (htext : s.IsPlainSpelling text) : Identifier.isEntityName text = true := by
  have hfqn := Identifier.isEntityName_of_isBinding h
  have hname := Identifier.isEntityName_of_isBinding (h.name hpath)
  obtain rfl | rfl | ⟨howner, rfl⟩ := htext
  · exact hfqn
  · exact hname
  · exact Identifier.isEntityName_underscore
      (Identifier.isPlain_replace hfqn (ownerOf_isPrefix s.fqn) howner) hname

end Symbol

namespace Reference

variable {s : Symbol} {i : Imports}

/-- In script code, only symbols of the top level are spelled as entity names. -/
theorem Place.owner_eq_of_script (h : Identifier.isEntityName (Place.script.spell s) = true) :
    s.owner = "" := by
  by_contra howner
  have hspell : Place.script.spell s
      = "import(\x22" ++ modulePath s.owner ++ "\x22)." ++ s.name := by
    rw [spell, refer, if_neg (by simpa using howner)]
  have hparenthesis : '(' ∈ (Place.script.spell s).toList := by
    simp [hspell, String.toList_append]
  cases (Identifier.isPart_of_isEntityName h hparenthesis).resolve_left (by decide)

/-- A block spells a symbol by names alone if the import that it has for it, if any, does. -/
theorem Imports.isPlainSpelling_spell
    (h : ∀ a ∈ i.imports, a.fqn = s.fqn → s.IsPlainSpelling a.localName) :
    s.IsPlainSpelling (i.spell (.symbol s)) := by
  by_cases hbare : i.IsBare s
  · exact .inr (.inl (spell_of_isBare hbare))
  · rw [spell, use, refer_of_not_isBare hbare]
    cases hfound : i.find? s.fqn with
    | some a => exact h a (List.mem_of_find?_eq_some hfound) (of_find? hfound)
    | none =>
      dsimp only
      rw [localNameFor]
      split
      · exact .inr (.inr ⟨fun howner => hbare (.inl howner), rfl⟩)
      · exact .inr (.inl rfl)

end Reference

/-! ## Symbols that are used -/

/-- What is used is a name of the environment, or the symbol of a name that is resolved. -/
def Reference.Use.IsResolved (r : Resolver) : Use → Prop
  | .symbol s => ∃ fqn, r.resolve fqn = .ok s
  | .environment _ => True

namespace TypeExpr

variable (r : Resolver)

/-- What a word with a fixed meaning uses is resolved. -/
theorem isResolved_fixedUses (word : String) : ∀ u ∈ fixedUses word, u.IsResolved r := by
  unfold fixedUses
  split_ifs <;> simp [Use.IsResolved]

/-- What a word uses is resolved. -/
theorem isResolved_wordUses (word : String) : ∀ u ∈ wordUses r word, u.IsResolved r := by
  unfold wordUses
  split
  · exact isResolved_fixedUses r word
  · split
    · cases hresolve : r.resolve word with
      | ok symbol => exact List.forall_mem_singleton.mpr ⟨word, hresolve⟩
      | error cause => exact List.forall_mem_nil _
    · split
      · exact List.forall_mem_singleton.mpr trivial
      · exact List.forall_mem_nil _

mutual

/-- An expression uses only what is resolved. -/
theorem isResolved_uses : ∀ expr : TypeExpr, ∀ u ∈ uses r expr, u.IsResolved r
  | .name word args => by
    rw [uses]
    exact List.forall_mem_append.mpr ⟨isResolved_usesOfAll args, isResolved_wordUses r word⟩
  | .array item => by
    rw [uses]
    exact isResolved_uses item
  | .union members => by
    rw [uses]
    exact isResolved_usesOfAll members
  | .keyof operand => by
    rw [uses]
    exact isResolved_uses operand
  | .function => by
    rw [uses]
    exact List.forall_mem_singleton.mpr trivial
  | .literal _ | .unparsed _ => by
    rw [uses]
    exact List.forall_mem_nil _

/-- What expressions in a row use is resolved. -/
theorem isResolved_usesOfAll : ∀ exprs : List TypeExpr, ∀ u ∈ usesOfAll r exprs, u.IsResolved r
  | [] => by
    rw [usesOfAll]
    exact List.forall_mem_nil _
  | expr :: rest => by
    rw [usesOfAll]
    exact List.forall_mem_append.mpr ⟨isResolved_uses expr, isResolved_usesOfAll rest⟩

end

end TypeExpr

namespace Declaration

open Api

/-- Only beside blocks there is script code. -/
theorem Document.Stands.flavor_eq {flavor : Flavor} {document : Document} {item : Item}
    (h : document.Stands flavor item .script) : flavor = .modules := by
  cases flavor with
  | globals => cases h
  | modules => rfl

namespace Writer

variable (w : Writer)

section Uses

/-- A writer uses only what is resolved. -/
def UsesResolved (uses : List Use) : Prop := ∀ u ∈ uses, u.IsResolved w.toResolver

variable {w}

/-- Two runs of resolved uses are together resolved. -/
theorem UsesResolved.append {uses more : List Use} (h : w.UsesResolved uses)
    (hmore : w.UsesResolved more) : w.UsesResolved (uses ++ more) :=
  List.forall_mem_append.mpr ⟨h, hmore⟩

/-- Resolved uses gathered from items are together resolved. -/
theorem UsesResolved.flatMap {α : Type} {uses : α → List Use}
    (h : ∀ a, w.UsesResolved (uses a)) (xs : List α) : w.UsesResolved (xs.flatMap uses) :=
  List.forall_mem_flatMap.mpr fun a _ => h a

/-- Uses that are resolved are so under a condition, too. -/
theorem UsesResolved.ite {uses : List Use} (condition : Prop) [Decidable condition]
    (h : w.UsesResolved uses) : w.UsesResolved (if condition then uses else []) := by
  split
  · exact h
  · exact List.forall_mem_nil _

variable (w)

/-- What the written types of a node use is resolved. -/
theorem usesResolved_occurrences (types : List SimpleType) :
    w.UsesResolved (w.occurrencesUses types) :=
  .flatMap (fun _ => TypeExpr.isResolved_uses _ _) types

/-- What parameters use is resolved. -/
theorem usesResolved_parameters (parameters : List Parameter) :
    w.UsesResolved (w.parameterUses parameters) :=
  .flatMap (fun _ => w.usesResolved_occurrences _) parameters

/-- What a signature uses is resolved. -/
theorem usesResolved_signature (f : Function) : w.UsesResolved (w.signatureUses f) :=
  (w.usesResolved_parameters _).append (w.usesResolved_occurrences _)

/-- What is used to name a supertype is resolved. -/
theorem usesResolved_supertype (fqn : String) : w.UsesResolved (w.supertypeUses fqn) := by
  unfold supertypeUses
  cases hresolve : w.resolve (w.directives.correctName fqn) with
  | ok symbol => exact List.forall_mem_singleton.mpr ⟨_, hresolve⟩
  | error cause => exact List.forall_mem_nil _

/-- What properties use is resolved. -/
theorem usesResolved_properties (list : List Variable) : w.UsesResolved (w.propertyUses list) :=
  .flatMap (fun _ => .ite _ (w.usesResolved_occurrences _)) list

/-- What methods use is resolved. -/
theorem usesResolved_methods (list : List Function) : w.UsesResolved (w.methodUses list) :=
  .flatMap (fun f => .ite _ (w.usesResolved_signature f)) list

/-- What a class, interface or enum uses is resolved. -/
theorem usesResolved_type (n : TypeNode) : w.UsesResolved (w.typeUses n) := by
  cases n with
  | classType c =>
    have hbase : w.UsesResolved (c.base.elim [] w.supertypeUses) := by
      cases c.base with
      | none => exact List.forall_mem_nil _
      | some base => exact w.usesResolved_supertype base
    have himplemented (fqn : String) : w.UsesResolved (w.implementedUses fqn) := by
      unfold implementedUses
      split
      · exact List.forall_mem_nil _
      · exact w.usesResolved_supertype fqn
    have hconstructors : w.UsesResolved (c.constructors.flatMap fun f : Function =>
        w.memberUses (w.nameOf.functionTitle .construct f) (w.parameterUses f.parameters)) :=
      .flatMap (fun f : Function => .ite _ (w.usesResolved_parameters f.parameters)) _
    exact (((hbase.append (.flatMap himplemented _)).append hconstructors).append
      (w.usesResolved_properties _)).append (w.usesResolved_methods _)
  | interfaceType i =>
    exact ((UsesResolved.flatMap w.usesResolved_supertype _).append
      (w.usesResolved_properties _)).append (w.usesResolved_methods _)
  | enumType e => exact List.forall_mem_nil _

/-- What an entry uses is resolved. -/
theorem usesResolved_entry (entry : Entry) : w.UsesResolved (w.entryUses entry) := by
  cases entry with
  | constant v => exact .ite _ (w.usesResolved_occurrences _)
  | function f => exact .ite _ (w.usesResolved_signature f)
  | aggregate n => exact .ite _ (w.usesResolved_type n)
  | nameSpace s =>
    exact (w.usesResolved_properties _).append
      (.flatMap (fun f => .ite _ (w.usesResolved_signature f)) _)

/-- A block uses only what is resolved. -/
theorem usesResolved_block (ns : Namespace) : w.UsesResolved (w.blockUses ns) :=
  .flatMap w.usesResolved_entry (w.blockEntries ns)

end Uses

/-! ## Supertypes where they stand -/

variable {w} {top ns : Namespace} {s : Symbol} {b : Block}

/-- Where symbols are found under their own names, a block spells them by names alone. -/
theorem Spells.isPlainSpelling (h : w.Spells ns b)
    (hfqn : ∀ fqn s, w.resolve fqn = .ok s → s.fqn = fqn) (hs : w.resolve s.fqn = .ok s) :
    s.IsPlainSpelling (b.place.spell s) := by
  refine Imports.isPlainSpelling_spell fun a ha hname => ?_
  obtain ⟨t, ht, hforeign, hsame, -, hown, halias⟩ := (w.orderly_block ns).sound a (h.imports ▸ ha)
  obtain ⟨fqn, hresolve⟩ := w.usesResolved_block ns _ ht
  obtain rfl : t = s := by
    have hfound : fqn = s.fqn := (hfqn fqn t hresolve).symm.trans (hsame.symm.trans hname)
    rw [hfound] at hresolve
    exact Except.ok.inj (hresolve.symm.trans hs)
  by_cases haliased : a.IsAliased
  · exact .inr (.inr ⟨fun howner => hforeign (.inl howner), halias haliased⟩)
  · exact .inr (.inl ((not_not.mp haliased).trans hown))

variable {item : Item} {place : Place} {flavor : Flavor} {modules : Ordered.Set String}
  {warnings : Warnings}

/-- Where symbols are found under their own names, a supertype is spelled by names alone wherever it
stands, unless that is in script code. -/
theorem Follows.isPlainSpelling (hw : w.Follows top)
    (hfqn : ∀ fqn s, w.resolve fqn = .ok s → s.fqn = fqn) (hs : w.resolve s.fqn = .ok s)
    (h : ((w.document flavor modules top).run ⟨startingPlace flavor, warnings⟩).1.Stands flavor
      item place) (hplace : place = .script → s.owner = "") :
    s.IsPlainSpelling (place.spell s) := by
  cases flavor with
  | globals =>
    cases h with
    | tree hitem => exact .inl rfl
    | block hb => cases hb
  | modules =>
    cases h with
    | tree hitem =>
      refine .inr (.inl ?_)
      rw [startingPlace, Place.spell, Place.refer, if_pos (by simpa using hplace rfl)]
    | block hb hitem =>
      obtain ⟨ns, _, _, hspells⟩ := hw.allBlocks_document _ _ hb
      exact hspells.isPlainSpelling hfqn hs

/-- The classes, interfaces and enums of the top level that are emitted stand in script code beside
the blocks. -/
theorem exists_item_of_top {n : TypeNode} (hn : n ∈ top.scope.types)
    (hemitted : w.emitted.contains (w.nameOf n.link) = true) :
    ∃ item ∈ ((w.document .modules modules top).run ⟨.script, warnings⟩).1.items,
      w.IsWritten (.aggregate n) item .script := by
  obtain ⟨item, hitem, hwritten⟩ :=
    mem_scriptItems (aggregate_mem_scriptEntries.mpr hn) (if_pos hemitted) warnings
  refine ⟨item, List.mem_append_left _ ?_, hwritten⟩
  exact (itemsOf_map_item ((w.scriptItems top).run ⟨.script, warnings⟩).1).symm ▸ hitem

/-- The symbols that classes and interfaces in sight are to name in their clauses are nameable. -/
def Nameable (w : Writer) (top : Namespace) : Prop :=
  ∀ ns, InSight w.directives w.nameOf top ns → ∀ n ∈ ns.scope.types, ∀ s ∈ (w.heritage n).all,
    s.IsNameable

end Writer

end Declaration

namespace Library

open Declaration

variable {primary : Library} {dependencies : List Library} {isStrict : Bool} {p : Prepared}

/-- A supertype that is resolved is spelled by names alone unless it stands in script code and has
an owner, and it is an entity name then if the symbol is nameable. -/
theorem spelled_of_prepare (hp : primary.prepare dependencies isStrict = .ok p) {d : Directives}
    {flavor : Flavor} {e : Emission}
    (hemit : ({ p with directives := d } : Prepared).emit flavor = .ok e) {item : Item}
    {place : Place} (h : e.document.Stands flavor item place) {s : Symbol}
    (hs : ({ p with directives := d } : Prepared).writer.resolve s.fqn = .ok s)
    (hplace : place = .script → s.owner = "") :
    s.IsPlainSpelling (place.spell s) ∧
      (s.IsNameable → Identifier.isEntityName (place.spell s) = true) := by
  obtain ⟨hrun, htable, -⟩ := of_prepare hp
  have hfollows : ({ p with directives := d } : Prepared).writer.Follows p.linked.description.top :=
    Writer.follows_writerFor ..
  rw [Prepared.document_of_emit hemit] at h
  have hplain : s.IsPlainSpelling (place.spell s) := by
    refine hfollows.isPlainSpelling (fun fqn t ht => ?_) hs h hplace
    exact (survives_of_resolve (p := { p with directives := d }) hrun htable ht).1
  refine ⟨hplain, fun hnameable => ?_⟩
  have hget := (Resolver.of_resolve hs).1
  change p.table.get? s.fqn = some s at hget
  rw [htable] at hget
  obtain ⟨path, hpath⟩ := exists_joined_of_get? hnameable.ne_empty hget
  exact hnameable.isEntityName hpath hplain

/-- Whatever directives a prepared library is emitted with, in either flavor, the clauses of an item
list symbols that are resolved, each spelled as it is where the item stands. That is by names alone,
and an entity name if the symbol is nameable, unless it stands in script code and has an owner; then
it is none. So all supertypes of a document are entity names, if the symbols are nameable, exactly
if it is that of the global tree or nothing at the top level has a supertype with an owner. -/
theorem supertypes_isEntityName_iff (hp : primary.prepare dependencies isStrict = .ok p)
    (d : Directives) (flavor : Flavor) :
    let emitted : Prepared := { p with directives := d }
    let w := emitted.writer
    let top := p.linked.description.top
    ∃ e, emitted.emit flavor = .ok e ∧
      (∀ item place, e.document.Stands flavor item place → ∃ symbols : List Symbol,
        item.heritage.all = symbols.map place.spell ∧ ∀ s ∈ symbols, w.resolve s.fqn = .ok s ∧
          ((place = .script → s.owner = "") → s.IsPlainSpelling (place.spell s) ∧
            (s.IsNameable → Identifier.isEntityName (place.spell s) = true)) ∧
          (Identifier.isEntityName (place.spell s) = true → place = .script → s.owner = "")) ∧
      (w.Nameable top →
        ((∀ item ∈ e.document.items, ∀ text ∈ item.heritage.all,
          Identifier.isEntityName text = true) ↔
        (flavor = .modules → ∀ n ∈ top.scope.types, w.emitted.contains (w.nameOf n.link) = true →
          ∀ s ∈ (w.heritage n).all, s.owner = ""))) := by
  intro emitted w top
  obtain ⟨e, hemit, hwritten⟩ := written_of_prepare hp d flavor
  have hresolve (n : Api.TypeNode) (s : Symbol) (hs : s ∈ (w.heritage n).all) :
      w.resolve s.fqn = .ok s := by
    obtain ⟨fqn, hfqn⟩ := w.exists_of_mem_heritage hs
    exact (of_supertype? hp d hfqn).2
  refine ⟨e, hemit, fun item place hstands => ?_, fun hnameable => ⟨fun hall hflavor n hn hemitted
    s hs => ?_, fun hunowned item hitem text htext => ?_⟩⟩
  · obtain ⟨entry, ⟨_, hheritage⟩, _⟩ := hwritten item place hstands
    refine ⟨(w.entryHeritage entry).all, by rw [hheritage, Heritage.all_map], fun s hs => ?_⟩
    obtain ⟨n, rfl, hs⟩ := Writer.exists_of_mem_entryHeritage hs
    have hfound := hresolve n s hs
    refine ⟨hfound, spelled_of_prepare hp hemit hstands hfound, ?_⟩
    rintro hname rfl
    exact Place.owner_eq_of_script hname
  · subst hflavor
    -- At the top level an import in place is no entity name, so no supertype has an owner.
    obtain ⟨item, hitem, _, hheritage⟩ := Writer.exists_item_of_top hn hemitted
    have hdocument : item ∈ e.document.items := by
      rw [Prepared.document_of_emit hemit]
      exact hitem
    refine Place.owner_eq_of_script (hall item hdocument _ ?_)
    rw [hheritage, Heritage.all_map]
    exact List.mem_map_of_mem hs
  · obtain ⟨place, hstands⟩ := Document.exists_stands hitem
    obtain ⟨entry, ⟨houtline, hheritage⟩, hentry⟩ := hwritten item place hstands
    rw [hheritage, Heritage.all_map] at htext
    obtain ⟨s, hs, rfl⟩ := List.mem_map.mp htext
    obtain ⟨n, rfl, hs⟩ := Writer.exists_of_mem_entryHeritage hs
    -- In script code the item belongs to the top level, where no supertype has an owner.
    obtain ⟨ns, hsight, hn, htop⟩ := hentry n rfl
    refine (spelled_of_prepare hp hemit hstands (hresolve n s hs) fun hscript => ?_).2
      (hnameable ns hsight n hn s hs)
    obtain rfl := htop hscript
    have hemitted := (Writer.outline?_aggregate.mp houtline).1
    exact hunowned (hscript ▸ hstands).flavor_eq n hn hemitted s hs

/-- A library with a class at the top level and one beside it, both with a base in a namespace. -/
def extending : Library :=
  let widget (name : String) : Api.Class := { Api.Class.plain name with base := some "ui.Widget" }
  ⟨"app", .ofTop (.plain "" [widget "Panel"] [.plain "ui" [.plain "Widget", widget "Button"] []]),
    .empty⟩

/-- With a base class in a namespace, a class of the top level names it by an entity name in the
global tree and not in modules. -/
theorem supertypes_isEntityName_iff_extending :
    ∃ p, extending.prepare [] true = .ok p ∧
      (∃ e, p.emit .globals = .ok e ∧ ∀ item ∈ e.document.items, ∀ text ∈ item.heritage.all,
        Identifier.isEntityName text = true) ∧
      ∃ e, p.emit .modules = .ok e ∧ ¬ ∀ item ∈ e.document.items, ∀ text ∈ item.heritage.all,
        Identifier.isEntityName text = true := by
  have hp : extending.prepare [] true = .ok _ := rfl
  have hread : (extending.prepare [] true).map (fun p : Prepared =>
      decide ((∀ ns ∈ shown .empty p.writer.nameOf p.linked.description.top, ∀ n ∈ ns.scope.types,
          ∀ s ∈ (p.writer.heritage n).all, s.IsNameable) ∧
        ∃ n ∈ p.linked.description.top.scope.types,
          p.writer.emitted.contains (p.writer.nameOf n.link) = true ∧
          ∃ s ∈ (p.writer.heritage n).all, s.owner ≠ "")) = .ok true := by decide +kernel
  rw [hp] at hread
  obtain ⟨hnameable, n, hn, hemitted, s, hs, howner⟩ := of_decide_eq_true (Except.ok.inj hread)
  have hsight (ns) (hns) := hnameable ns (mem_shown.mpr hns)
  obtain ⟨e, hglobals, _, hnamed⟩ := supertypes_isEntityName_iff hp .empty .globals
  obtain ⟨other, hmodules, _, hiff⟩ := supertypes_isEntityName_iff hp .empty .modules
  refine ⟨_, hp, ⟨e, hglobals, (hnamed hsight).mpr nofun⟩, other, hmodules, fun hall => ?_⟩
  exact howner ((hiff hsight).mp hall rfl n hn hemitted s hs)

/-- At the top level, a class extends one of a namespace by importing it in place. -/
theorem not_isEntityName_extending :
    ∃ p, extending.prepare [] true = .ok p ∧ ∃ e, p.emit .modules = .ok e ∧
      ∃ item ∈ e.document.items, item.outline = ⟨⟨"Panel", "Panel", .classType⟩, []⟩ ∧
        item.heritage.extended = ["import(\x22ui\x22).Widget"] ∧
        ∀ text ∈ item.heritage.extended, Identifier.isEntityName text = false := by
  refine ⟨_, rfl, _, rfl, ?_⟩
  decide +kernel

end Library

end Ambient
