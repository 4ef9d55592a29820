import Ambient.Proofs.Declaration.Captures
import Ambient.Proofs.Declaration.Reclassified
import Ambient.Proofs.Declaration.Surviving

/-!
# Heritage clauses

What the clauses of a header list: the class that a class extends and the interfaces that it
implements, or those that an interface extends. The symbols are found before anything is spelled,
and every entry is the spelling of its symbol where the item stands: in the global tree, in script
code beside blocks, or in a block with the imports that the block has in the end.
-/

namespace Ambient

open Reference (Use Imports Place)

namespace Reference

/-! ## Spellings at a place -/

namespace Place

/-- The spelling of a symbol at a place. -/
def spell (place : Place) (s : Symbol) : String := (place.refer s).1

/-- Script code stays the place of writing. -/
theorem after_script (uses : List Use) : Place.script.after uses = .script := by
  induction uses with
  | nil => rfl
  | cons u rest ih =>
    have hstays : (Place.script.use u).2 = .script := by
      cases u with
      | environment name => rfl
      | symbol s => rw [use, refer]; split <;> rfl
    rw [after, List.foldl_cons, hstays]
    exact ih

/-- What is used at one place is spelled as it is at another. -/
def SpellsAlike (place last : Place) (uses : List Use) : Prop :=
  place.spellings uses = uses.map fun u => (last.use u).1

variable {place last : Place} {uses more : List Use}

/-- What is used first is spelled alike, and so is what is used after it. -/
theorem SpellsAlike.of_append (h : place.SpellsAlike last (uses ++ more)) :
    place.SpellsAlike last uses ∧ (place.after uses).SpellsAlike last more := by
  rw [SpellsAlike, spellings_append, List.map_append] at h
  exact List.append_inj h (by rw [length_spellings, List.length_map])

/-- Symbols that are spelled alike. -/
theorem SpellsAlike.symbols {symbols : List Symbol}
    (h : place.SpellsAlike last (symbols.map .symbol)) :
    place.spellings (symbols.map .symbol) = symbols.map last.spell := by
  rw [h, List.map_map]
  rfl

/-- In the global tree everything is spelled alike everywhere. -/
theorem spellsAlike_globals (uses : List Use) : Place.globals.SpellsAlike .globals uses := by
  rw [SpellsAlike, spellings_globals]
  exact List.map_congr_left fun u _ => by rw [use_globals]

/-- In script code everything is spelled alike everywhere. -/
theorem spellsAlike_script (uses : List Use) : Place.script.SpellsAlike .script uses := by
  induction uses with
  | nil => rfl
  | cons u rest ih =>
    have hstays := after_script [u]
    rw [SpellsAlike, spellings, List.map_cons]
    change (Place.script.use u).2 = .script at hstays
    rw [hstays, ih]

end Place

namespace Imports

/-- What is used is spelled by the imports that the block has in the end, whatever it declares. -/
theorem spell_congr {i j : Imports} {uses : List Use} (h : Orderly i uses)
    (hmodule : i.module = j.module) (himports : i.imports = j.imports) {u : Use} (hu : u ∈ uses) :
    i.spell u = j.spell u := by
  cases u with
  | environment name => rfl
  | symbol s =>
    by_cases hbare : i.IsBare s
    · rw [spell_of_isBare hbare, spell_of_isBare (by rwa [IsBare, ← hmodule])]
    · obtain ⟨a, ha, hfqn⟩ := h.complete s hu hbare
      have hfound := h.find?_eq_some_iff.mpr ⟨ha, hfqn⟩
      have hother : j.find? s.fqn = some a := by rwa [find?, ← himports]
      have hforeign : ¬ j.IsBare s := by rwa [IsBare, ← hmodule]
      rw [h.spell_of_mem hbare ha hfqn, spell, use, refer_of_find? hforeign hother]

/-- In the middle of a block, names are spelled as the block spells them in the end. -/
theorem spellsAlike_after (i : Imports) (before uses behind : List Use) :
    (Place.module (i.after before)).SpellsAlike (.module (i.after (before ++ uses ++ behind)))
      uses := by
  have hall : (Place.module i).SpellsAlike (.module (i.after (before ++ uses ++ behind)))
      (before ++ uses ++ behind) := by
    rw [Place.SpellsAlike, Place.spellings_module, spellings_eq]
    exact List.map_congr_left fun u _ => by rw [Place.use_module, spell]
  rw [← Place.after_module]
  exact hall.of_append.1.of_append.2

end Imports

end Reference

namespace Declaration

open Api

/-! ## What clauses list -/

/-- What the clauses of a header list: what is extended, and what is implemented. -/
structure Heritage (α : Type) where
  extended : List α
  implemented : List α
deriving DecidableEq, Repr

namespace Heritage

variable {α β : Type}

/-- Clauses that list nothing. -/
def none : Heritage α := ⟨[], []⟩

/-- The heritage with every name changed. -/
def map (f : α → β) (h : Heritage α) : Heritage β := ⟨h.extended.map f, h.implemented.map f⟩

/-- All that the clauses list. -/
def all (h : Heritage α) : List α := h.extended ++ h.implemented

/-- Changing every name of a heritage changes all its names in their order. -/
theorem all_map (f : α → β) (h : Heritage α) : (h.map f).all = h.all.map f := List.map_append.symm

end Heritage

/-- The names after `extends` and `implements` in a header. -/
def Header.heritage : Header → Heritage String
  | .classType _ base implemented => ⟨base.toList, implemented⟩
  | .interfaceType bases => ⟨bases, []⟩
  | .enumType | .nameSpace _ => .none

/-- The heritage in the header of an item, and none for items without a header. -/
def Item.heritage : Item → Heritage String
  | .aggregate _ header _ => header.heritage
  | .constant .. | .function .. => .none

namespace Writer

variable (w : Writer)

/-- The symbol that a supertype refers to, unless that leads nowhere. -/
def supertype? (fqn : String) : Option Symbol :=
  (w.resolve (w.directives.correctName fqn)).toOption

/-- The symbol that an implemented interface refers to, unless that is stripped or leads nowhere. -/
def implemented? (fqn : String) : Option Symbol :=
  if w.directives.isBadInterface fqn then none else w.supertype? fqn

/-- The symbols that a class, interface or enum is to name in its clauses. -/
def heritage : TypeNode → Heritage Symbol
  | .classType c => ⟨(c.base.bind w.supertype?).toList, c.implemented.filterMap w.implemented?⟩
  | .interfaceType i => ⟨i.bases.filterMap w.supertype?, []⟩
  | .enumType _ => .none

/-- A base class refers to a symbol exactly if its corrected name resolves to it. -/
theorem supertype?_eq_some {fqn : String} {s : Symbol} :
    w.supertype? fqn = some s ↔ w.resolve (w.directives.correctName fqn) = .ok s := by
  rw [supertype?]
  cases w.resolve (w.directives.correctName fqn) <;> simp [Except.toOption]

/-- What a clause is to name is what a supertype leads to. -/
theorem exists_of_mem_heritage {n : TypeNode} {s : Symbol} (h : s ∈ (w.heritage n).all) :
    ∃ fqn, w.supertype? fqn = some s := by
  cases n with
  | classType c =>
    obtain hbase | himplemented := List.mem_append.mp h
    · obtain ⟨fqn, _, hs⟩ := Option.bind_eq_some_iff.mp (Option.mem_toList.mp hbase)
      exact ⟨fqn, hs⟩
    · obtain ⟨fqn, _, hs⟩ := List.mem_filterMap.mp himplemented
      exact ⟨fqn, (Option.ite_none_left_eq_some.mp hs).2⟩
  | interfaceType i =>
    obtain ⟨fqn, _, hs⟩ := List.mem_filterMap.mp ((List.mem_append.mp h).resolve_right nofun)
    exact ⟨fqn, hs⟩
  | enumType e => cases h

/-! ## Writing clauses -/

/-- A base class is used as the symbol it refers to, if there is one. -/
theorem supertypeUses_eq (fqn : String) :
    w.supertypeUses fqn = (w.supertype? fqn).toList.map .symbol := by
  rw [supertypeUses, supertype?]
  cases w.resolve (w.directives.correctName fqn) <;> rfl

/-- An implemented interface is used as the symbol it refers to, if there is one. -/
theorem implementedUses_eq (fqn : String) :
    w.implementedUses fqn = (w.implemented? fqn).toList.map .symbol := by
  rw [implementedUses, implemented?]
  split
  · rfl
  · exact w.supertypeUses_eq fqn

/-- On any page, an action writes references to symbols. -/
def WritesSymbols {α : Type} (m : Writing α) (texts : α → List String) (symbols : List Symbol) :
    Prop :=
  ∀ page, texts (m.run page).1 = page.place.spellings (symbols.map .symbol)

/-- What is written as the base class is the symbol it refers to, spelled where it stands. -/
theorem writesSymbols_supertype (owner fqn : String) :
    WritesSymbols (w.supertype owner fqn) Option.toList (w.supertype? fqn).toList := by
  intro page
  unfold supertype supertype?
  dsimp only
  cases w.resolve (w.directives.correctName fqn) <;> rfl

/-- What is written as an implemented interface is the symbol it refers to, spelled where it stands.
-/
theorem writesSymbols_implemented (owner fqn : String) :
    WritesSymbols (w.implemented owner fqn) Option.toList (w.implemented? fqn).toList := by
  unfold implemented implemented?
  split
  · exact fun _ => rfl
  · exact w.writesSymbols_supertype owner fqn

/-- References that are written one by one, where some are dropped. -/
theorem writesSymbols_writeSome {α : Type} {write : α → Writing (Option String)}
    {symbol? : α → Option Symbol}
    (hwrites : ∀ a, WritesSymbols (write a) Option.toList (symbol? a).toList)
    (hrefers : ∀ a, Refers (write a) ((symbol? a).toList.map .symbol)) (xs : List α) :
    WritesSymbols (writeSome write xs) id (xs.filterMap symbol?) := by
  induction xs with
  | nil => exact fun _ => rfl
  | cons a rest ih =>
    intro page
    have hfirst := hwrites a page
    have hrest := ih ((write a).run page).2
    rw [(hrefers a).place page.place page.warnings] at hrest
    have hsymbols : ((a :: rest).filterMap symbol?)
        = (symbol? a).toList ++ rest.filterMap symbol? := by
      rw [List.filterMap_cons]
      cases symbol? a <;> rfl
    rw [hsymbols, List.map_append, Reference.Place.spellings_append, ← hfirst, ← hrest]
    rfl

variable {w} {page : Page} {item : Item}

/-- References at a place: first those to what is extended, then those to what is implemented. -/
def spelledAt (place : Reference.Place) (h : Heritage Symbol) : Heritage String :=
  ⟨place.spellings (h.extended.map .symbol),
    (place.after (h.extended.map .symbol)).spellings (h.implemented.map .symbol)⟩

/-- Writing a base class refers to its symbol and nothing else. -/
theorem refers_supertype_symbols (owner fqn : String) :
    Refers (w.supertype owner fqn) ((w.supertype? fqn).toList.map .symbol) := by
  rw [← supertypeUses_eq]
  exact w.refers_supertype owner fqn

/-- Writing an implemented interface refers to its symbol and nothing else. -/
theorem refers_implemented_symbols (owner fqn : String) :
    Refers (w.implemented owner fqn) ((w.implemented? fqn).toList.map .symbol) := by
  rw [← implementedUses_eq]
  exact w.refers_implemented owner fqn

/-- A class is written with references to the class that it extends and to the interfaces that it
implements. -/
theorem heritage_classType (c : Api.Class) (h : ((w.classType c).run page).1 = some item) :
    item.heritage = spelledAt page.place (w.heritage (.classType c)) := by
  have himplemented := writesSymbols_writeSome (w.writesSymbols_implemented (w.nameOf c.link))
    (refers_implemented_symbols (w := w) (w.nameOf c.link)) c.implemented
  unfold classType at h
  dsimp only at h
  cases hemitted : w.emitted.contains (w.nameOf c.link) with
  | false =>
    rw [hemitted] at h
    cases h
  | true =>
    rw [hemitted] at h
    rw [heritage]
    cases hbase : c.base with
    | none =>
      rw [hbase] at h
      obtain rfl := Option.some.inj h
      exact congrArg (Heritage.mk []) (himplemented page)
    | some base =>
      rw [hbase] at h
      obtain rfl := Option.some.inj h
      have hextended := w.writesSymbols_supertype (w.nameOf c.link) base page
      have hplace := (refers_supertype_symbols (w := w) (w.nameOf c.link) base).place page.place
        page.warnings
      refine congr (congrArg Heritage.mk hextended) ((himplemented _).trans ?_)
      exact congrArg (Reference.Place.spellings · _) hplace

/-- An interface is written with references to the interfaces that it extends. -/
theorem heritage_interfaceType (i : Interface)
    (h : ((w.interfaceType i).run page).1 = some item) :
    item.heritage = spelledAt page.place (w.heritage (.interfaceType i)) := by
  have hbases := writesSymbols_writeSome (w.writesSymbols_supertype (w.nameOf i.link))
    (refers_supertype_symbols (w := w) (w.nameOf i.link)) i.bases
  unfold interfaceType at h
  dsimp only at h
  cases hemitted : w.emitted.contains (w.nameOf i.link) with
  | false =>
    rw [hemitted] at h
    cases h
  | true =>
    rw [hemitted] at h
    obtain rfl := Option.some.inj h
    exact congrArg (Heritage.mk · []) (hbases page)

/-! ## Entries -/

variable (w) in
/-- The symbols that an entry is to name in its clauses. -/
def entryHeritage : Entry → Heritage Symbol
  | .aggregate n => w.heritage n
  | .constant _ | .function _ | .nameSpace _ => .none

/-- Only a class, interface or enum is to name something in its clauses. -/
theorem exists_of_mem_entryHeritage {entry : Entry} {s : Symbol}
    (h : s ∈ (w.entryHeritage entry).all) : ∃ n, entry = .aggregate n ∧ s ∈ (w.heritage n).all := by
  cases entry with
  | aggregate n => exact ⟨n, rfl, h⟩
  | constant _ | function _ | nameSpace _ => cases h

/-- An entry written as an item has the outline of the item. -/
theorem outline?_of_write {entry : Entry} (h : ((w.write entry).run page).1 = some item) :
    w.outline? entry = some item.outline := by
  rw [← (w.writes_entry entry).answer page, h]
  rfl

/-- A class, interface or enum has its outline if it is emitted, and none otherwise. -/
theorem outline?_aggregate {n : TypeNode} {o : Outline} : w.outline? (.aggregate n) = some o ↔
    w.emitted.contains (w.nameOf n.link) = true ∧ typeOutline w.directives w.nameOf n = o := by
  rw [outline?, Option.ite_none_right_eq_some, Option.some.injEq]

/-- Only classes and interfaces have clauses. -/
theorem heritage_eq_none (hclass : item.outline.title.form ≠ .classType)
    (hinterface : item.outline.title.form ≠ .interfaceType) : item.heritage = .none := by
  cases item with
  | constant head type => rfl
  | function head signature => rfl
  | aggregate head header members =>
    cases header with
    | classType isAbstract base implemented => exact absurd rfl hclass
    | interfaceType bases => exact absurd rfl hinterface
    | enumType => rfl
    | nameSpace isBare => rfl

/-- The clauses of an item list references to the symbols of its entry. -/
theorem heritage_write (entry : Entry) (h : ((w.write entry).run page).1 = some item) :
    item.heritage = spelledAt page.place (w.entryHeritage entry) := by
  have hform := (w.title_of_outline? (outline?_of_write h)).2
  have hnone (hclass : entry.form ≠ .classType) (hinterface : entry.form ≠ .interfaceType) :
      item.heritage = .none :=
    heritage_eq_none (hform ▸ hclass) (hform ▸ hinterface)
  cases entry with
  | aggregate n =>
    cases n with
    | classType c => exact heritage_classType c h
    | interfaceType i => exact heritage_interfaceType i h
    | enumType e => exact hnone (by rintro ⟨⟩) (by rintro ⟨⟩)
  | constant v => exact hnone (by rintro ⟨⟩) (by rintro ⟨⟩)
  | function f => exact hnone (by rintro ⟨⟩) (by rintro ⟨⟩)
  | nameSpace s => exact hnone (by rintro ⟨⟩) (by rintro ⟨⟩)

/-- Uses that are each of at most one symbol are together those of the symbols there are. -/
theorem flatMap_symbols {α : Type} {uses : α → List Use} {symbol? : α → Option Symbol}
    (h : ∀ a, uses a = (symbol? a).toList.map .symbol) (xs : List α) :
    xs.flatMap uses = (xs.filterMap symbol?).map .symbol := by
  rw [List.filterMap_eq_flatMap_toList, List.map_flatMap]
  exact List.flatMap_congr fun a _ => h a

variable (w) in
/-- A class or interface uses what its clauses list before anything else. -/
theorem exists_typeUses_eq (n : TypeNode) :
    ∃ more, w.typeUses n = (w.heritage n).extended.map .symbol
      ++ (w.heritage n).implemented.map .symbol ++ more := by
  cases n with
  | classType c =>
    have hbase : c.base.elim [] w.supertypeUses
        = (c.base.bind w.supertype?).toList.map .symbol := by
      cases c.base with
      | none => rfl
      | some base => exact w.supertypeUses_eq base
    rw [typeUses, hbase, flatMap_symbols w.implementedUses_eq, List.append_assoc _ _ _,
      List.append_assoc _ _ _]
    exact ⟨_, rfl⟩
  | interfaceType i =>
    rw [typeUses, flatMap_symbols w.supertypeUses_eq, List.append_assoc]
    refine ⟨_, congrArg (· ++ _) (List.append_nil _).symm⟩
  | enumType e => exact ⟨[], rfl⟩

/-- If an entry is spelled alike somewhere, its clauses are spelled as they are there. -/
theorem heritage_eq_map {entry : Entry} {last : Reference.Place}
    (h : ((w.write entry).run page).1 = some item)
    (hlast : page.place.SpellsAlike last (w.entryUses entry)) :
    item.heritage = (w.entryHeritage entry).map last.spell := by
  rw [heritage_write entry h]
  cases entry with
  | aggregate n =>
    have hemitted := (outline?_aggregate.mp (outline?_of_write h)).1
    obtain ⟨more, huses⟩ := w.exists_typeUses_eq n
    rw [entryUses, if_pos hemitted, huses] at hlast
    obtain ⟨hextended, himplemented⟩ := hlast.of_append.1.of_append
    exact (Heritage.mk.injEq ..).mpr ⟨hextended.symbols, himplemented.symbols⟩
  | constant _ | function _ | nameSpace _ => rfl

/-! ## Documents -/

/-- Of elements that are written one by one, each is written after what the ones before it use. -/
theorem exists_run_writeSome {α β : Type} {write : α → Writing (Option β)} {uses : α → List Use}
    (h : ∀ a, Refers (write a) (uses a)) (before behind : List α) (a : α) (page : Page) :
    ∃ first rest notes, ((writeSome write (before ++ a :: behind)).run page).1
      = first ++ ((write a).run ⟨page.place.after (before.flatMap uses), notes⟩).1.toList
        ++ rest := by
  let after := ((writeSome write before).run page).2
  have hafter : after = ⟨page.place.after (before.flatMap uses), after.warnings⟩ :=
    (Refers.writeSome h before).run_snd page.place page.warnings
  refine ⟨((writeSome write before).run page).1,
    ((writeSome write behind).run ((write a).run after).2).1, after.warnings, ?_⟩
  rw [← hafter, List.append_assoc, writeSome_append]
  rfl

/-- What is written one by one is written for one of the elements. -/
theorem exists_of_mem_writeSome {α β : Type} {write : α → Writing (Option β)}
    {uses : α → List Use} (h : ∀ a, Refers (write a) (uses a)) {xs : List α} {page : Page} {b : β}
    (hb : b ∈ ((writeSome write xs).run page).1) :
    ∃ before a behind notes, xs = before ++ a :: behind ∧
      ((write a).run ⟨page.place.after (before.flatMap uses), notes⟩).1 = some b := by
  induction xs generalizing page with
  | nil => cases hb
  | cons x rest ih =>
    obtain hfirst | hrest := List.mem_append.mp (show b ∈ ((write x).run page).1.toList
      ++ ((writeSome write rest).run ((write x).run page).2).1 from hb)
    · exact ⟨[], x, rest, page.warnings, rfl, Option.mem_toList.mp hfirst⟩
    · obtain ⟨before, a, behind, notes, rfl, ha⟩ := ih hrest
      refine ⟨x :: before, a, behind, notes, rfl, ?_⟩
      rw [(h x).place page.place page.warnings, ← Reference.Place.after_append] at ha
      exact ha

end Writer

/-- The place that a block is left as: in it, symbols are spelled by the imports of the block. -/
def Block.place (b : Block) : Place := .module ⟨b.fqn, [], b.imports⟩

/-- An item of a document stands at a place: where the document begins, or in a block. -/
inductive Document.Stands (flavor : Flavor) (document : Document) : Item → Place → Prop
  | tree {item : Item} : item ∈ Tree.itemsOf document.script →
      Stands flavor document item (startingPlace flavor)
  | block {item : Item} {b : Block} : b ∈ document.blocks → item ∈ b.items →
      Stands flavor document item b.place

/-- Every item of a document stands somewhere. -/
theorem Document.exists_stands {flavor : Flavor} {document : Document} {item : Item}
    (h : item ∈ document.items) : ∃ place, document.Stands flavor item place := by
  obtain htree | hblock := List.mem_append.mp h
  · exact ⟨_, .tree htree⟩
  · obtain ⟨b, hb, hitem⟩ := List.mem_flatMap.mp hblock
    exact ⟨_, .block hb hitem⟩

namespace Writer

variable {w : Writer} {top ns : Namespace} {item : Item}

variable (w) in
/-- What the top level holds itself, beside the module blocks. -/
def scriptEntries (top : Namespace) : List Entry :=
  valueEntries top.scope ++ typeEntries top.scope ++ w.nestedInterfaceEntries top

/-- The items of the script part are written from its entries, one after another. -/
theorem scriptItems_eq (top : Namespace) :
    w.scriptItems top = writeSome w.write (w.scriptEntries top) := by
  rw [scriptEntries, writeSome_append, writeSome_append, ← values_eq, ← aggregates_eq,
    ← nestedInterfaces_eq, scriptItems]
  simp only [bind_assoc, pure_bind]

/-- An item is that of an entry, with the symbols in its clauses spelled as they are at a place. -/
def IsWritten (w : Writer) (entry : Entry) (item : Item) (place : Place) : Prop :=
  w.outline? entry = some item.outline ∧
    item.heritage = (w.entryHeritage entry).map place.spell

variable (w) in
/-- The imports of a block are in order when it ends. -/
theorem orderly_block (ns : Namespace) :
    ((w.startOf ns).after (w.blockUses ns)).Orderly (w.blockUses ns) := by
  have hafter := (Imports.Orderly.start (w.nameOf.nameSpace ns)
    (w.localNames ns (w.isInterface (w.nameOf.nameSpace ns)))).after (w.blockUses ns)
  rwa [List.nil_append] at hafter

/-- In the middle of a block, names are spelled as they are where the block ends. -/
theorem Spells.spellsAlike {b : Block} (h : w.Spells ns b) {before uses behind : List Use}
    (huses : w.blockUses ns = before ++ uses ++ behind) :
    (Place.module ((w.startOf ns).after before)).SpellsAlike b.place uses := by
  have hmodule : ((w.startOf ns).after (w.blockUses ns)).module = b.fqn :=
    (Imports.after_same _ _).1.trans h.fqn.symm
  rw [Place.SpellsAlike, Imports.spellsAlike_after _ before uses behind, ← huses]
  refine List.map_congr_left fun u hu => ?_
  rw [Block.place, Place.use_module, Place.use_module]
  refine Imports.spell_congr (w.orderly_block ns) hmodule h.imports.symm ?_
  rw [huses]
  exact List.mem_append_left _ (List.mem_append_right _ hu)

/-- What the block of a namespace has is written with the imports that the block has in the end. -/
theorem Spells.exists_entry {b : Block} (h : w.Spells ns b) (hitem : item ∈ b.items) :
    ∃ entry ∈ w.blockEntries ns, w.IsWritten entry item b.place := by
  rw [h.items (w.startOf ns) ∅ rfl] at hitem
  obtain ⟨before, entry, behind, notes, hentries, hwritten⟩ :=
    exists_of_mem_writeSome w.refers_write hitem
  rw [Place.after_module] at hwritten
  have huses : w.blockUses ns = before.flatMap w.entryUses ++ w.entryUses entry
      ++ behind.flatMap w.entryUses := by
    rw [blockUses, hentries, List.flatMap_append, List.flatMap_cons, List.append_assoc]
  exact ⟨entry, hentries ▸ List.mem_append_right _ List.mem_cons_self,
    outline?_of_write hwritten, heritage_eq_map hwritten (h.spellsAlike huses)⟩

/-- What stands beside the blocks is written as script code. -/
theorem exists_entry_of_script {warnings : Warnings}
    (hitem : item ∈ ((w.scriptItems top).run ⟨.script, warnings⟩).1) :
    ∃ entry ∈ w.scriptEntries top, w.IsWritten entry item .script := by
  rw [scriptItems_eq] at hitem
  obtain ⟨before, entry, behind, notes, hentries, hwritten⟩ :=
    exists_of_mem_writeSome w.refers_write hitem
  rw [Place.after_script] at hwritten
  exact ⟨entry, hentries ▸ List.mem_append_right _ List.mem_cons_self,
    outline?_of_write hwritten, heritage_eq_map hwritten (Place.spellsAlike_script _)⟩

/-- Everything in script code is there. -/
theorem mem_scriptItems {entry : Entry} {o : Outline} (hentry : entry ∈ w.scriptEntries top)
    (ho : w.outline? entry = some o) (warnings : Warnings) :
    ∃ item ∈ ((w.scriptItems top).run ⟨.script, warnings⟩).1, w.IsWritten entry item .script := by
  obtain ⟨before, behind, hentries⟩ := List.append_of_mem hentry
  obtain ⟨first, rest, notes, hrun⟩ :=
    exists_run_writeSome w.refers_write before behind entry ⟨.script, warnings⟩
  rw [Place.after_script] at hrun
  have hanswer := (w.writes_entry entry).answer ⟨.script, notes⟩
  rw [ho] at hanswer
  obtain ⟨item, hwritten, rfl⟩ := Option.map_eq_some_iff.mp hanswer
  refine ⟨item, ?_, ho, heritage_eq_map hwritten (Place.spellsAlike_script _)⟩
  rw [scriptItems_eq, hentries, hrun, hwritten]
  simp

/-- What stands in the global tree is written there. -/
theorem exists_entry_of_globals {modules : Ordered.Set String} {page : Page}
    (hpage : page.place = .globals)
    (hitem : item ∈ ((w.document .globals modules top).run page).1.items) :
    ∃ entry ∈ w.entries .globals modules top, w.IsWritten entry item .globals := by
  have hitems := w.globalView.map_observe_document .globals nofun modules top page hpage
  rw [show w.globalView.observe = id from rfl, List.map_id] at hitems
  rw [hitems] at hitem
  obtain ⟨entry, hentry, hwritten⟩ := List.mem_filterMap.mp hitem
  exact ⟨entry, hentry, outline?_of_write hwritten,
    heritage_eq_map hwritten (Place.spellsAlike_globals _)⟩

/-- Among the types of a scope is each class, interface and enum of it. -/
theorem aggregate_mem_typeEntries {s : Scope} {n : TypeNode} :
    .aggregate n ∈ typeEntries s ↔ n ∈ s.types := by
  simp [typeEntries]

/-- Among the entries of the script part is each class, interface and enum of the top level. -/
theorem aggregate_mem_scriptEntries {n : TypeNode} :
    .aggregate n ∈ w.scriptEntries top ↔ n ∈ top.scope.types := by
  simp [scriptEntries, valueEntries, nestedInterfaceEntries, aggregate_mem_typeEntries]

namespace Follows

/-- The top level is in sight from itself, if anything is emitted. -/
theorem inSight_top (hw : w.Follows top) {fqn : String} (h : w.emitted.contains fqn = true) :
    InSight w.directives w.nameOf top top := by
  refine .self ?_
  by_contra htop
  rw [hw.emitted_eq_nil (by simpa using htop)] at h
  cases h

/-- The classes, interfaces and enums of the global tree are those of namespaces in sight. -/
theorem exists_inSight_of_globals (hw : w.Follows top) {modules : Ordered.Set String}
    {n : TypeNode} (h : .aggregate n ∈ w.entries .globals modules top)
    (hemitted : w.emitted.contains (w.nameOf n.link) = true) :
    ∃ ns, InSight w.directives w.nameOf top ns ∧ n ∈ ns.scope.types := by
  have hvalue (s : Scope) : Entry.aggregate n ∉ valueEntries s := by simp [valueEntries]
  rw [(hw.entries_eq modules).1, List.mem_append, List.mem_append, List.mem_flatMap] at h
  obtain (hown | htype) | ⟨ns, hns, hmem⟩ := h
  · exact absurd hown (hvalue _)
  · exact ⟨top, hw.inSight_top hemitted, aggregate_mem_typeEntries.mp htype⟩
  · obtain hown | htype := List.mem_append.mp hmem
    · rw [ownEntries] at hown
      split at hown
      · cases List.mem_singleton.mp hown
      · exact absurd hown (hvalue _)
    · exact ⟨ns, mem_shown.mp (List.mem_of_mem_tail hns), aggregate_mem_typeEntries.mp htype⟩

/-- Every item of a document is that of an entry, with the symbols in its clauses spelled as they
are where it stands. A class, interface or enum belongs to a namespace in sight, and to the top
level if it stands in script code. -/
theorem exists_entry_of_stands (hw : w.Follows top) {flavor : Flavor}
    {modules : Ordered.Set String} {warnings : Warnings} {place : Place}
    (h : ((w.document flavor modules top).run ⟨startingPlace flavor, warnings⟩).1.Stands flavor
      item place) :
    ∃ entry, w.IsWritten entry item place ∧
      (∀ n, entry = .aggregate n → ∃ ns, InSight w.directives w.nameOf top ns ∧
        n ∈ ns.scope.types ∧ (place = .script → ns = top)) := by
  have hemitted {n : TypeNode} (hwritten : w.IsWritten (.aggregate n) item place) :
      w.emitted.contains (w.nameOf n.link) = true :=
    (outline?_aggregate.mp hwritten.1).1
  cases flavor with
  | globals =>
    cases h with
    | tree hitem =>
      obtain ⟨entry, hentry, hwritten⟩ :=
        exists_entry_of_globals rfl (List.mem_append_left _ hitem)
      refine ⟨entry, hwritten, ?_⟩
      rintro n rfl
      obtain ⟨ns, hsight, hn⟩ := hw.exists_inSight_of_globals hentry (hemitted hwritten)
      exact ⟨ns, hsight, hn, nofun⟩
    | block hb => cases hb
  | modules =>
    cases h with
    | tree hitem =>
      have hscript : item ∈ ((w.scriptItems top).run ⟨.script, warnings⟩).1 :=
        itemsOf_map_item ((w.scriptItems top).run ⟨.script, warnings⟩).1 ▸ hitem
      obtain ⟨entry, hentry, hwritten⟩ := exists_entry_of_script hscript
      refine ⟨entry, hwritten, ?_⟩
      rintro n rfl
      exact ⟨top, hw.inSight_top (hemitted hwritten), aggregate_mem_scriptEntries.mp hentry,
        fun _ => rfl⟩
    | block hb hitem =>
      obtain ⟨ns, hsight, _, hspells⟩ := hw.allBlocks_document _ _ hb
      obtain ⟨entry, hentry, hwritten⟩ := hspells.exists_entry hitem
      refine ⟨entry, hwritten, ?_⟩
      rintro n rfl
      exact ⟨ns, hsight, aggregate_mem_blockEntries.mp hentry, nofun⟩

end Follows

end Writer

end Declaration

namespace Library

open Declaration

variable {primary : Library} {dependencies : List Library} {isStrict : Bool} {p : Prepared}

/-- The symbol that a supertype leads to has its corrected name, and is found under it. -/
theorem of_supertype? (hp : primary.prepare dependencies isStrict = .ok p) (d : Directives)
    {fqn : String} {s : Symbol}
    (h : ({ p with directives := d } : Prepared).writer.supertype? fqn = some s) :
    s.fqn = d.correctName fqn ∧
      ({ p with directives := d } : Prepared).writer.resolve s.fqn = .ok s := by
  obtain ⟨hrun, htable, -⟩ := of_prepare hp
  have hresolve := (Writer.supertype?_eq_some _).mp h
  have hfqn := (survives_of_resolve (p := { p with directives := d }) hrun htable hresolve).1
  exact ⟨hfqn, hfqn.symm ▸ hresolve⟩

/-- Whatever directives a prepared library is emitted with, every item of the document is that of an
entry, with the symbols in its clauses spelled as they are where it stands. -/
theorem written_of_prepare (hp : primary.prepare dependencies isStrict = .ok p) (d : Directives)
    (flavor : Flavor) :
    let emitted : Prepared := { p with directives := d }
    let w := emitted.writer
    let top := p.linked.description.top
    ∃ e, emitted.emit flavor = .ok e ∧ ∀ item place, e.document.Stands flavor item place →
      ∃ entry, w.IsWritten entry item place ∧ ∀ n, entry = .aggregate n →
        ∃ ns, InSight d w.nameOf top ns ∧ n ∈ ns.scope.types ∧ (place = .script → ns = top) := by
  intro emitted w top
  have hemit : emitted.emit flavor = .ok _ := emit_of_run (of_prepare hp).1 p.table d flavor
  have hfollows : w.Follows top := Writer.follows_writerFor ..
  refine ⟨_, hemit, fun item place hstands => ?_⟩
  rw [Prepared.document_of_emit hemit] at hstands
  exact hfollows.exists_entry_of_stands hstands

end Library

end Ambient
