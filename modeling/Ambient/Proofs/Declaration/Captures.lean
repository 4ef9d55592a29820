import Ambient.Proofs.Declaration.Scopes
import Ambient.Proofs.Declaration.Unambiguous

/-!
# Names that are captured

In the global tree a symbol is spelled by its dotted name wherever it is used, and a name of the
environment as it is. What they mean there depends on the namespace blocks around the place: one
that declares the first segment of the name captures it. Blocks, and what they declare, can be told
from the description.
-/

namespace Ambient

open Reference (Use)
open Text (segments)

namespace Declaration

open Api

/-! ## Namespace blocks -/

namespace Writer

variable (w : Writer)

/-- Whether the global tree has a block for a namespace that is met: it is emitted, and if it is
written as an interface, there is something that cannot be in the interface. -/
def hasBlock (ns : Namespace) : Bool :=
  w.emitted.contains (w.nameOf.nameSpace ns)
    && (!w.isInterface (w.nameOf.nameSpace ns) || ns.hasAggregates)

/-- The global tree has the blocks of nested namespaces, from one to another inside it. -/
inductive Opens (w : Writer) : Namespace → List String → Namespace → Prop
  | self (ns : Namespace) : Opens w ns [] ns
  | nested {outer child ns : Namespace} {around : List String} : child ∈ outer.nested →
      w.hasBlock child = true → Opens w child around ns → Opens w outer (child.name :: around) ns

/-- What is written in the block of a namespace, given the blocks around that; without any, the
namespace is the top level, which is never an interface. -/
def entriesAt (around : List String) (ns : Namespace) : List Entry :=
  (if !around.isEmpty && w.isInterface (w.nameOf.nameSpace ns) then [] else valueEntries ns.scope)
    ++ typeEntries ns.scope ++ w.nestedInterfaceEntries ns

/-- What a namespace is in the block around it: an interface, a block, or both. -/
def outside (ns : Namespace) : List (Part Entry) :=
  (if w.isEmittedInterface ns then [.one (.nameSpace ns.scope)] else [])
    ++ if w.hasBlock ns then [.block ns.name] else []

/-- What is inside the block of a namespace that has some entries of its own. -/
def locatedInside (own : List Entry) (here : List String) (ns : Namespace) :
    List (List String × Part Entry) :=
  Part.inside here (own ++ typeEntries ns.scope) ++ w.locatedTreeOf here ns.nested

/-- The values that the block of a nested namespace has. -/
def ownValues (ns : Namespace) : List Entry :=
  if w.isInterface (w.nameOf.nameSpace ns) then [] else valueEntries ns.scope

variable {w}
variable {ns : Namespace} {place here around : List String} {part : Part Entry}

/-- A namespace in the global tree: what it is outside its block, and what is inside. -/
theorem mem_locatedTree :
    (place, part) ∈ w.locatedTree around ns ↔ (place = around ∧ part ∈ w.outside ns) ∨
      (w.hasBlock ns = true ∧
        (place, part) ∈ w.locatedInside (w.ownValues ns) (around ++ [ns.name]) ns) := by
  obtain ⟨scope, nested⟩ := ns
  rw [locatedTree, outside, hasBlock, isEmittedInterface, locatedInside, ownValues,
    Naming.nameSpace]
  dsimp only [Namespace.name]
  cases w.emitted.contains (w.nameOf scope.link) with
  | false => simp
  | true =>
    cases w.isInterface (w.nameOf scope.link) with
    | false => simp [Part.inside_append]
    | true =>
      cases Namespace.hasAggregates ⟨scope, nested⟩ with
      | false => simp
      | true => simp [and_or_left, or_assoc]

/-- What is inside a block stands in the block itself, or inside one nested in it. -/
theorem mem_locatedInside_step {own : List Entry} :
    (place, part) ∈ w.locatedInside own here ns ↔
      (place = here ∧ (part ∈ (own ++ typeEntries ns.scope).map .one ∨
        ∃ child ∈ ns.nested, part ∈ w.outside child)) ∨
      ∃ child ∈ ns.nested, w.hasBlock child = true ∧
        (place, part) ∈ w.locatedInside (w.ownValues child) (here ++ [child.name]) child := by
  have hinside : (place, part) ∈ Part.inside here (own ++ typeEntries ns.scope) ↔
      place = here ∧ part ∈ (own ++ typeEntries ns.scope).map .one := by
    simp only [Part.inside, List.mem_map, Prod.mk.injEq]
    constructor
    · rintro ⟨entry, hentry, rfl, hpart⟩
      exact ⟨rfl, entry, hentry, hpart⟩
    · rintro ⟨rfl, entry, hentry, hpart⟩
      exact ⟨entry, hentry, rfl, hpart⟩
  rw [locatedInside, List.mem_append, hinside, locatedTreeOf_eq, List.mem_flatMap]
  simp only [mem_locatedTree, and_or_left, exists_or, or_assoc]
  refine or_congr_right (or_congr_left ?_)
  constructor
  · rintro ⟨child, hchild, hplace, hpart⟩
    exact ⟨hplace, child, hchild, hpart⟩
  · rintro ⟨hplace, child, hchild, hpart⟩
    exact ⟨child, hchild, hplace, hpart⟩

/-- What the namespaces nested in one are in its block: interfaces and blocks. -/
theorem mem_outside_iff :
    (∃ child ∈ ns.nested, part ∈ w.outside child) ↔
      part ∈ (w.nestedInterfaceEntries ns).map .one ∨
        ∃ child ∈ ns.nested, w.hasBlock child = true ∧ part = .block child.name := by
  have houtside (child : Namespace) : part ∈ w.outside child ↔
      (w.isEmittedInterface child = true ∧ part = .one (.nameSpace child.scope)) ∨
        (w.hasBlock child = true ∧ part = .block child.name) := by
    rw [outside, List.mem_append]
    refine or_congr ?_ ?_
    · cases w.isEmittedInterface child <;> simp
    · cases w.hasBlock child <;> simp
  simp only [houtside, and_or_left, exists_or]
  refine or_congr_left ?_
  simp only [nestedInterfaceEntries, List.map_map, List.mem_map, List.mem_filter, and_assoc,
    Function.comp_apply, eq_comm]

/-- What is inside the block of a nested namespace stands in the blocks that are opened from it. -/
theorem mem_locatedInside (ns : Namespace) :
    ∀ {here : List String}, (place, part) ∈ w.locatedInside (w.ownValues ns) here ns ↔
      ∃ around inner, w.Opens ns around inner ∧ place = here ++ around ∧
        (part ∈ (w.ownValues inner ++ typeEntries inner.scope).map .one ∨
          ∃ child ∈ inner.nested, part ∈ w.outside child) := by
  induction ns using Namespace.induction with
  | step scope nested ih =>
    intro here
    rw [mem_locatedInside_step]
    constructor
    · rintro (⟨rfl, hpart⟩ | ⟨child, hchild, hblock, hmem⟩)
      · exact ⟨[], _, .self _, (List.append_nil _).symm, hpart⟩
      · obtain ⟨around, inner, hopens, rfl, hpart⟩ := (ih child hchild).mp hmem
        exact ⟨_, inner, .nested hchild hblock hopens, by simp, hpart⟩
    · rintro ⟨around, inner, hopens, rfl, hpart⟩
      cases hopens with
      | self => exact .inl ⟨List.append_nil _, hpart⟩
      | @nested _ child _ around hchild hblock hopens =>
        exact .inr ⟨child, hchild, hblock,
          (ih child hchild).mpr ⟨around, inner, hopens, by simp, hpart⟩⟩

/-- The global tree has what is written in the blocks that are opened from the top level, and the
blocks themselves. -/
theorem mem_locatedEntries_globals {top : Namespace} {modules : Ordered.Set String} :
    (place, part) ∈ w.locatedEntries .globals modules top ↔ ∃ ns, w.Opens top place ns ∧
      (part ∈ (w.entriesAt place ns).map .one ∨
        ∃ child ∈ ns.nested, w.hasBlock child = true ∧ part = .block child.name) := by
  have hentries (around : List String) (ns : Namespace) (own : List Entry)
      (hown : own = if !around.isEmpty && w.isInterface (w.nameOf.nameSpace ns) then []
        else valueEntries ns.scope) :
      (part ∈ (own ++ typeEntries ns.scope).map .one ∨
        ∃ child ∈ ns.nested, part ∈ w.outside child) ↔ part ∈ (w.entriesAt around ns).map .one ∨
          ∃ child ∈ ns.nested, w.hasBlock child = true ∧ part = .block child.name := by
    simp only [mem_outside_iff, entriesAt, ← hown, List.map_append, List.mem_append, or_assoc]
  have htop : w.locatedEntries .globals modules top
      = w.locatedInside (valueEntries top.scope) [] top := rfl
  rw [htop, mem_locatedInside_step, hentries [] top (valueEntries top.scope) rfl]
  constructor
  · rintro (⟨rfl, hpart⟩ | ⟨child, hchild, hblock, hmem⟩)
    · exact ⟨top, .self _, hpart⟩
    · obtain ⟨around, inner, hopens, rfl, hpart⟩ := (mem_locatedInside child).mp hmem
      exact ⟨inner, .nested hchild hblock hopens, (hentries _ inner _ rfl).mp hpart⟩
  · rintro ⟨ns, hopens, hpart⟩
    cases hopens with
    | self => exact .inl ⟨rfl, hpart⟩
    | @nested _ child _ around hchild hblock hopens =>
      refine .inr ⟨child, hchild, hblock, (mem_locatedInside child).mpr
        ⟨around, ns, hopens, rfl, (hentries (child.name :: around) ns _ rfl).mpr hpart⟩⟩

/-- What is defined below a namespace with a block has the names of the blocks in its path. -/
theorem Opens.exists_path {outer : Namespace} (h : w.Opens outer around ns) :
    ∀ (path : String) (scope : List String),
      (∀ name, segments '.' (joined path name) = scope ++ segments '.' name) →
      (∀ x ∈ outer.inside path, x.name ≠ "") → ∃ here,
        (∀ x ∈ ns.inside here, x ∈ outer.inside path) ∧ ∀ name,
          segments '.' (joined here name) = scope ++ scopeOf around ++ segments '.' name := by
  induction h with
  | self ns =>
    intro path scope hpath _
    exact ⟨path, fun _ hx => hx, fun name => by rw [hpath, scopeOf]; simp⟩
  | @nested outer child ns around hchild _ _ ih =>
    intro path scope hpath hnames
    have hinside (x : Definition) (hx : x ∈ child.definitions (joined path child.name)) :
        x ∈ outer.inside path :=
      Namespace.mem_inside.mpr (.inl ⟨child, hchild, hx⟩)
    have hname : child.name ≠ "" :=
      hnames _ (hinside _ (Namespace.mem_definitions.mpr (.inl rfl)))
    have hjoined (name : String) : segments '.' (joined (joined path child.name) name)
        = scope ++ segments '.' child.name ++ segments '.' name := by
      rw [joined_of_ne (joined_ne_empty hname), Text.segments_dot, hpath]
    obtain ⟨here, hhere, hsegments⟩ := ih _ _ hjoined fun x hx =>
      hnames x (hinside x (Namespace.mem_definitions.mpr (.inr hx)))
    refine ⟨here, fun x hx => hinside x (Namespace.mem_definitions.mpr (.inr (hhere x hx))),
      fun name => ?_⟩
    rw [hsegments, scopeOf, scopeOf, List.flatMap_cons]
    simp only [List.append_assoc]

/-- A name is used in what is written inside blocks. -/
def Uses (w : Writer) (top : Namespace) (around : List String) (u : Use) : Prop :=
  ∃ ns, w.Opens top around ns ∧ ∃ entry ∈ w.entriesAt around ns, u ∈ w.entryUses entry

/-- The namespaces to which nested blocks of some names lead. -/
def opened (w : Writer) : List String → Namespace → List Namespace
  | [], ns => [ns]
  | name :: rest, outer =>
    (outer.nested.filter fun child => w.hasBlock child && child.name == name).flatMap
      (opened w rest)

/-- The namespaces found behind blocks of some names are those that the tree opens there. -/
theorem mem_opened {outer : Namespace} : ns ∈ w.opened around outer ↔ w.Opens outer around ns := by
  induction around generalizing outer with
  | nil =>
    rw [opened, List.mem_singleton]
    refine ⟨fun hns => hns ▸ .self _, fun h => ?_⟩
    cases h
    rfl
  | cons name rest ih =>
    simp only [opened, List.mem_flatMap, List.mem_filter, Bool.and_eq_true, beq_iff_eq, ih]
    constructor
    · rintro ⟨child, ⟨hchild, hblock, rfl⟩, hopens⟩
      exact .nested hchild hblock hopens
    · intro h
      cases h with
      | nested hchild hblock hopens => exact ⟨_, ⟨hchild, hblock, rfl⟩, hopens⟩

/-- Whether a name is used inside blocks is decided by looking at what is opened there. -/
instance (top : Namespace) (u : Use) : Decidable (w.Uses top around u) :=
  decidable_of_iff (∃ ns ∈ w.opened around top, ∃ entry ∈ w.entriesAt around ns,
      u ∈ w.entryUses entry)
    (exists_congr fun _ => and_congr_left fun _ => mem_opened)

/-! ## What the global tree declares -/

variable (w) in
/-- What is written for an entry in the global tree. -/
def globalItem? (entry : Entry) : Option Item := ((w.write entry).run ⟨.globals, ∅⟩).1

variable (w) in
/-- All that can be seen of an item. In the global tree an entry is written in the same way
everywhere, as references are spelled without regard to the place. -/
def globalView : View w Item where
  admits page := page.place = .globals
  observe := id
  value := w.globalItem?
  answer entry page hpage := by
    obtain ⟨place, warnings⟩ := page
    obtain rfl := hpage
    rw [Option.map_id]
    exact (w.refers_write entry).answer .globals .globals warnings ∅ rfl
  keeps entry page hpage := by
    obtain ⟨place, warnings⟩ := page
    obtain rfl := hpage
    exact ((w.refers_write entry).place .globals warnings).trans (Reference.Place.after_globals _)

/-- The item of an entry has the outline of the entry, and there is none without the other. -/
theorem outline_globalItem? (entry : Entry) :
    (w.globalItem? entry).map Item.outline = w.outline? entry :=
  (w.writes_entry entry).answer _

/-- The item of an entry has the outline of the entry. -/
theorem outline?_of_globalItem? {entry : Entry} {item : Item}
    (h : w.globalItem? entry = some item) : w.outline? entry = some item.outline := by
  rw [← outline_globalItem?, h]
  rfl

/-- What the global tree declares, as a description has it: in the blocks that are opened, what is
not left out of what is written there, and the namespaces of the blocks nested in them. -/
inductive Declares (w : Writer) (top : Namespace) : Declared → Prop
  | entry {around : List String} {ns : Namespace} {entry : Entry} : w.Opens top around ns →
      entry ∈ w.entriesAt around ns → (w.outline? entry).isSome = true →
      Declares w top ⟨scopeOf around, entry.name, some entry.form⟩
  | nameSpace {around : List String} {ns child : Namespace} {before after : List String}
      {name : String} : w.Opens top around ns → child ∈ ns.nested → w.hasBlock child = true →
      segments '.' child.name = before ++ name :: after →
      Declares w top ⟨scopeOf around ++ before, name, none⟩

/-- What stands in the global tree is what its entries are written as. -/
theorem located_globals (top : Namespace) (modules : Ordered.Set String) {page : Page}
    (hpage : page.place = .globals) :
    Part.mapAll? some (Tree.locatedOf [] ((w.document .globals modules top).run page).1.script)
      = Part.mapAll? w.globalItem? (w.locatedEntries .globals modules top) := by
  have hshown := w.globalView.shown_document .globals nofun modules top page hpage
  have hlocated : ((w.document .globals modules top).run page).1.located
      = Tree.locatedOf [] ((w.document .globals modules top).run page).1.script :=
    List.append_nil _
  rwa [hlocated] at hshown

section Tree

variable {top : Namespace} {modules : Ordered.Set String} {name : String} {item : Item}
  {trees : List Tree}
  (htrees : Part.mapAll? some (Tree.locatedOf [] trees)
    = Part.mapAll? w.globalItem? (w.locatedEntries .globals modules top))
include htrees

/-- The global tree has the items for what is written in the blocks that are opened. -/
theorem one_mem_located_iff :
    (around, .one item) ∈ Tree.locatedOf [] trees ↔ ∃ ns, w.Opens top around ns ∧
      ∃ entry ∈ w.entriesAt around ns, w.globalItem? entry = some item := by
  have hitem : (around, .one item) ∈ Tree.locatedOf [] trees
      ↔ (around, .one item) ∈ Part.mapAll? some (Tree.locatedOf [] trees) := by
    simp [Part.one_mem_mapAll?]
  rw [hitem, htrees, Part.one_mem_mapAll?]
  constructor
  · rintro ⟨entry, hentry, hitem⟩
    obtain ⟨ns, hopens, hone | ⟨child, _, _, hblock⟩⟩ := mem_locatedEntries_globals.mp hentry
    · obtain ⟨_, hat, hsame⟩ := List.mem_map.mp hone
      cases hsame
      exact ⟨ns, hopens, entry, hat, hitem⟩
    · cases hblock
  · rintro ⟨ns, hopens, entry, hat, hitem⟩
    exact ⟨entry, mem_locatedEntries_globals.mpr ⟨ns, hopens, .inl (List.mem_map_of_mem hat)⟩,
      hitem⟩

/-- Its blocks are nested in one another as those that are opened. -/
theorem block_mem_located_iff :
    (around, .block name) ∈ Tree.locatedOf [] trees ↔ ∃ ns, w.Opens top around ns ∧
      ∃ child ∈ ns.nested, w.hasBlock child = true ∧ child.name = name := by
  rw [← Part.block_mem_mapAll? (f := some), htrees, Part.block_mem_mapAll?,
    mem_locatedEntries_globals]
  refine exists_congr fun ns => and_congr_right fun _ => ?_
  have hnot : Part.block name ∉ (w.entriesAt around ns).map Part.one := by simp
  rw [or_iff_right hnot]
  simp only [Part.block.injEq, eq_comm (a := name)]

/-- What the global tree declares can be told from the description. -/
theorem mem_declared_iff (declaration : Declared) :
    declaration ∈ Tree.declared trees ↔ w.Declares top declaration := by
  rw [Tree.mem_declared]
  constructor
  · rintro (⟨around, item, hitem, rfl⟩ | ⟨around, name, hblock, hdeclared⟩)
    · obtain ⟨ns, hopens, entry, hat, hwritten⟩ := (one_mem_located_iff htrees).mp hitem
      have houtline := outline?_of_globalItem? hwritten
      obtain ⟨hname, hform⟩ := w.title_of_outline? houtline
      rw [hname, hform]
      exact .entry hopens hat (by rw [houtline]; rfl)
    · obtain ⟨ns, hopens, child, hchild, hhas, rfl⟩ := (block_mem_located_iff htrees).mp hblock
      obtain ⟨scope, name, form⟩ := declaration
      obtain ⟨rfl, before, after, hsegments, rfl⟩ := Declared.mem_nested.mp hdeclared
      exact .nameSpace hopens hchild hhas hsegments
  · intro h
    cases h with
    | @entry around ns entry hopens hat hsome =>
      rw [← outline_globalItem?, Option.isSome_map] at hsome
      obtain ⟨item, hwritten⟩ := Option.isSome_iff_exists.mp hsome
      obtain ⟨hname, hform⟩ := w.title_of_outline? (outline?_of_globalItem? hwritten)
      rw [← hname, ← hform]
      exact .inl ⟨around, item,
        (one_mem_located_iff htrees).mpr ⟨ns, hopens, entry, hat, hwritten⟩, rfl⟩
    | @nameSpace around ns child before after name hopens hchild hhas hsegments =>
      exact .inr ⟨around, child.name,
        (block_mem_located_iff htrees).mpr ⟨ns, hopens, child, hchild, hhas, rfl⟩,
        Declared.mem_nested.mpr ⟨rfl, before, after, hsegments, rfl⟩⟩

/-- A type in the global tree is a definition of the library. Below the top level it stands in the
blocks for the namespaces on its path. -/
theorem exists_definition_of_located (hnames : ∀ x ∈ top.inside "", x.name ≠ "")
    (hitem : (around, .one item) ∈ Tree.locatedOf [] trees)
    (href : item.outline.title.form.isReferable = true) :
    ∃ x ∈ top.inside "", item.outline.title.fqn = w.nameOf x.link ∧
      segments '.' x.path = scopeOf around ++ segments '.' item.outline.title.name := by
  obtain ⟨ns, hopens, entry, hat, hwritten⟩ := (one_mem_located_iff htrees).mp hitem
  have houtline := outline?_of_globalItem? hwritten
  obtain ⟨here, hhere, hsegments⟩ :=
    hopens.exists_path "" [] (fun _ => rfl) hnames
  have hblock (hnot : entry ∉ valueEntries ns.scope) : entry ∈ w.blockEntries ns := by
    simp only [entriesAt, blockEntries, List.mem_append, or_assoc] at hat ⊢
    refine .inr (hat.resolve_left fun hvalue => ?_)
    split at hvalue
    · cases hvalue
    · exact hnot hvalue
  obtain ⟨n, rfl, _, ho⟩ | ⟨s, rfl, ho⟩ := of_isReferable houtline href
  · have hn := aggregate_mem_blockEntries.mp (hblock (by simp [valueEntries]))
    refine ⟨_, hhere _ (Namespace.mem_inside.mpr (.inr ⟨n, hn, rfl⟩)), ?_, ?_⟩
    · rw [← ho]
      rfl
    · rw [← ho]
      exact hsegments n.name
  · obtain ⟨child, hchild, _, rfl⟩ :=
      nameSpace_mem_blockEntries.mp (hblock (by simp [valueEntries]))
    refine ⟨_, hhere _ (Namespace.mem_inside.mpr (.inl ⟨child, hchild,
      Namespace.mem_definitions.mpr (.inl rfl)⟩)), ?_, ?_⟩
    · rw [← ho]
      rfl
    · rw [← ho]
      exact hsegments child.name

end Tree

end Writer

end Declaration

namespace Library

open Declaration Api

variable {primary : Library} {dependencies : List Library} {isStrict : Bool} {p : Prepared}

/-- Whatever directives a prepared library is emitted with, the global tree has what is written in
the blocks that are opened, with all names spelled as they are, and its types stand in the blocks
for their paths. So, together with whatever else is declared, a name that is used leads to what it
is the name of exactly if it is free: no block around it declares the first segment of a symbol's
name, and a name of the environment is not declared in the global scope either. -/
theorem reaches_iff_isFree (hd : primary.description.check = .ok ())
    (hp : primary.prepare dependencies isStrict = .ok p) (d : Directives) :
    let emitted : Prepared := { p with directives := d }
    let w := emitted.writer
    let top := p.linked.description.top
    (∀ warnings word args,
      TypeExpr.IsSpelled ((TypeExpr.wordUses w.toResolver word).map Use.dotted)
        ((TypeExpr.writeName w.toResolver word args).run ⟨.globals, warnings⟩).1) ∧
    ∃ e, emitted.emit .globals = .ok e ∧
      (∀ around item, (around, .one item) ∈ Tree.locatedOf [] e.document.script ↔
        ∃ ns, w.Opens top around ns ∧ ∃ entry ∈ w.entriesAt around ns,
          w.globalItem? entry = some item) ∧
      (∀ around item, (around, .one item) ∈ Tree.locatedOf [] e.document.script →
        item.outline.title.form.isReferable = true → ∃ x ∈ top.inside "",
          item.outline.title.fqn = under primary.description.top.name x.path ∧
          segments '.' x.path = scopeOf around ++ segments '.' item.outline.title.name) ∧
      ∀ others counts around u, w.Uses top around u →
        (Reaches counts (Tree.declared (e.document.script ++ others)) (scopeOf around) u ↔
          IsFree counts (fun x => w.Declares top x ∨ x ∈ Tree.declared others)
            (scopeOf around) u) := by
  intro emitted w top
  have hrun := (of_prepare hp).1
  have hemit : emitted.emit .globals = .ok _ := emit_of_run hrun p.table d .globals
  let plan := Plan.of d (namingOf p.linked.arena) top
  have htrees := w.located_globals top plan.modules
    (show (⟨.globals, Ordered.Set.ofList plan.warnings⟩ : Page).place = .globals from rfl)
  refine ⟨fun warnings word args => ?_, _, hemit, ?_⟩
  · rw [← Reference.Place.spellings_globals]
    exact TypeExpr.isSpelled_writeName_at w.toResolver .globals warnings word args
  · rw [Prepared.document_of_emit hemit]
    refine ⟨fun around item => Writer.one_mem_located_iff htrees, fun around item hitem href => ?_,
      fun others counts around u _ => ?_⟩
    · obtain ⟨x, hx, hfqn, hpath⟩ := Writer.exists_definition_of_located htrees
        (Correction.inside_name_ne_of_run hd hrun "") hitem href
      refine ⟨x, hx, hfqn.trans ?_, hpath⟩
      exact namingOf_of_run hd hrun (Namespace.mem_definitions.mpr (.inr hx))
    · have hsame (x : Declared) := or_congr_left (c := x ∈ Tree.declared others)
        (Writer.mem_declared_iff htrees x)
      simp only [reaches_iff, Tree.declared_append, List.mem_append]
      exact isFree_congr hsame

/-- A library with nested namespaces. A class of the inner one refers to a class of the outer one
and to a name of the environment, beside a class and a namespace of any name. -/
def nesting (type nested : String) : Library :=
  ⟨"app", .ofTop (.plain "" [] [.plain "a" [.plain "X"] [.plain "b"
    [.plain type, { Class.plain "Widget" with fields := [field "x" "a.X", field "z" "Date"] }]
    [.plain nested [.plain "Y"] []]]]), .empty⟩

/-- The class of the outer namespace. -/
def outerClass : Symbol := ⟨"a.X", "X", .classType, "app"⟩

/-- What is used in a class of the inner namespace. -/
def innerUses : List Use := [.symbol outerClass, .environment "Date"]

/-- Inside two blocks every name that is used is free. -/
theorem reaches_iff_isFree_nesting :
    ∃ p, (nesting "Time" "c").prepare [] true = .ok p ∧ ∀ u ∈ innerUses,
      p.writer.Uses p.linked.description.top ["a", "b"] u ∧
      IsFree (fun _ => true)
        (fun x => p.writer.Declares p.linked.description.top x ∨ x ∈ Tree.declared [])
        (scopeOf ["a", "b"]) u := by
  have hp : (nesting "Time" "c").prepare [] true = .ok _ := rfl
  have hread : ((nesting "Time" "c").prepare [] true).map (fun p =>
      (p.emit .globals).map fun e => decide (∀ u ∈ innerUses,
        p.writer.Uses p.linked.description.top ["a", "b"] u ∧
        Reaches (fun _ => true) (Tree.declared (e.document.script ++ [])) (scopeOf ["a", "b"]) u))
      = .ok (.ok true) := by decide +kernel
  obtain ⟨_, e, hemit, _, _, hreaches⟩ := reaches_iff_isFree (by decide) hp .empty
  have hread := Except.ok.inj ((congrArg (Except.map _) hp).symm.trans hread)
  have hinner := of_decide_eq_true
    (Except.ok.inj ((congrArg (Except.map _) hemit).symm.trans hread))
  refine ⟨_, hp, fun u hu => ?_⟩
  obtain ⟨hused, hreached⟩ := hinner u hu
  exact ⟨hused, (hreaches [] _ _ u hused).mp hreached⟩

/-- A namespace and a class around the place capture the names that are used there. -/
theorem not_reaches_nesting :
    ∃ p, (nesting "Date" "a").prepare [] true = .ok p ∧ ∃ e, p.emit .globals = .ok e ∧
      (∀ u ∈ innerUses, p.writer.Uses p.linked.description.top ["a", "b"] u) ∧
      let declared := Tree.declared e.document.script
      denoted (fun _ => true) declared (scopeOf ["a", "b"]) "a.X" = ["a", "b", "a", "X"] ∧
      declares (fun _ => true) declared "X" ["a", "b", "a"] = false ∧
      found? (fun _ => true) declared (scopeOf ["a", "b"]) "Date" = some ["a", "b"] := by
  have hread : ((nesting "Date" "a").prepare [] true).map (fun p =>
      (p.emit .globals).map fun e => decide (
        (∀ u ∈ innerUses, p.writer.Uses p.linked.description.top ["a", "b"] u) ∧
        let declared := Tree.declared e.document.script
        denoted (fun _ => true) declared (scopeOf ["a", "b"]) "a.X" = ["a", "b", "a", "X"] ∧
        declares (fun _ => true) declared "X" ["a", "b", "a"] = false ∧
        found? (fun _ => true) declared (scopeOf ["a", "b"]) "Date" = some ["a", "b"]))
      = .ok (.ok true) := by decide +kernel
  have hp : (nesting "Date" "a").prepare [] true = .ok _ := rfl
  have hemit : Prepared.emit _ .globals = .ok _ := emit_of_run (of_prepare hp).1 _ _ .globals
  have hread := Except.ok.inj ((congrArg (Except.map _) hp).symm.trans hread)
  have hread := Except.ok.inj ((congrArg (Except.map _) hemit).symm.trans hread)
  exact ⟨_, hp, _, hemit, of_decide_eq_true hread⟩

end Library

end Ambient
