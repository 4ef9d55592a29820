import Ambient.Proofs.Declaration.Uses

/-!
# What can be seen of a document

Items are written one for each entry, in the order of the entries, and stand where their entries
do: at script level or inside blocks. So whatever can be seen of the item for an entry, and does not
depend on the page, can be seen of all items of a document by going through the entries.
-/

namespace Ambient.Declaration

open Api

/-! ## Where items stand -/

/-- What stands in a tree: an item or whatever is seen of it, or a block. -/
inductive Part (α : Type) where
  | one (a : α)
  | block (name : String)
deriving DecidableEq

namespace Part

variable {α β : Type}

/-- What can be made of a part, where a block stays as it is. -/
def map? (f : α → Option β) : Part α → Option (Part β)
  | .one a => (f a).map .one
  | .block name => some (.block name)

/-- What a part is, if it is not a block. -/
def one? : Part α → Option α
  | .one a => some a
  | .block _ => none

/-- What stands somewhere and is not a block. -/
def ones (list : List (List String × Part α)) : List α :=
  list.filterMap fun located => located.2.one?

/-- What can be made of what stands somewhere, in the same place. -/
def mapAll? (f : α → Option β) (list : List (List String × Part α)) :
    List (List String × Part β) :=
  list.filterMap fun located => (located.2.map? f).map fun part => (located.1, part)

/-- What is not a block in two lists is what is not a block in each. -/
theorem ones_append (list more : List (List String × Part α)) :
    ones (list ++ more) = ones list ++ ones more :=
  List.filterMap_append

/-- What is not a block in several lists is what is not a block in each of them. -/
theorem ones_flatMap {γ : Type} (list : List γ) (f : γ → List (List String × Part α)) :
    ones (list.flatMap f) = list.flatMap fun c => ones (f c) :=
  List.filterMap_flatMap

/-- Making something of all parts makes it of what is not a block. -/
theorem ones_mapAll? (f : α → Option β) (list : List (List String × Part α)) :
    ones (mapAll? f list) = (ones list).filterMap f := by
  rw [ones, mapAll?, ones, List.filterMap_filterMap, List.filterMap_filterMap]
  refine List.filterMap_congr fun located _ => ?_
  obtain ⟨around, part⟩ := located
  cases part with
  | block name => rfl
  | one a =>
    rw [map?, one?, Option.bind_some]
    cases f a <;> rfl

/-- What stands somewhere after making something is made of what stood there. -/
theorem one_mem_mapAll? {f : α → Option β} {list : List (List String × Part α)}
    {around : List String} {b : β} :
    (around, .one b) ∈ mapAll? f list ↔ ∃ a, (around, .one a) ∈ list ∧ f a = some b := by
  rw [mapAll?, List.mem_filterMap]
  constructor
  · rintro ⟨⟨place, part⟩, hmem, hmade⟩
    cases part with
    | block name => cases hmade
    | one a =>
      obtain ⟨_, hmap, hsame⟩ := Option.map_eq_some_iff.mp hmade
      obtain ⟨made, hf, rfl⟩ := Option.map_eq_some_iff.mp hmap
      cases hsame
      exact ⟨a, hmem, hf⟩
  · rintro ⟨a, hmem, hf⟩
    exact ⟨_, hmem, by rw [map?, hf]; rfl⟩

/-- Blocks stand where they stood, whatever is made of the rest. -/
theorem block_mem_mapAll? {f : α → Option β} {list : List (List String × Part α)}
    {around : List String} {name : String} :
    (around, .block name) ∈ mapAll? f list ↔ (around, .block name) ∈ list := by
  rw [mapAll?, List.mem_filterMap]
  constructor
  · rintro ⟨⟨place, part⟩, hmem, hmade⟩
    cases part with
    | block other =>
      cases hmade
      exact hmem
    | one a =>
      obtain ⟨_, hmap, hsame⟩ := Option.map_eq_some_iff.mp hmade
      obtain ⟨_, _, rfl⟩ := Option.map_eq_some_iff.mp hmap
      cases hsame
  · intro hmem
    exact ⟨_, hmem, rfl⟩

/-- What is inside the same blocks. -/
def inside (around : List String) (list : List α) : List (List String × Part α) :=
  list.map fun a => (around, .one a)

/-- What is inside the same blocks can be taken in two parts. -/
theorem inside_append (around : List String) (list more : List α) :
    Part.inside around (list ++ more) = Part.inside around list ++ Part.inside around more :=
  List.map_append

/-- Nothing inside blocks is a block itself. -/
theorem ones_inside (around : List String) (list : List α) :
    ones (Part.inside around list) = list := by
  rw [ones, Part.inside, List.filterMap_map]
  exact List.filterMap_some

end Part

mutual

/-- What stands in a tree, each with the names of the blocks around it from the outermost
inwards. -/
def Tree.located (around : List String) : Tree → List (List String × Part Item)
  | .item only => [(around, .one only)]
  | .block name _ body => (around, .block name) :: Tree.locatedOf (around ++ [name]) body

/-- What stands in a list of trees. -/
def Tree.locatedOf (around : List String) : List Tree → List (List String × Part Item)
  | [] => []
  | tree :: rest => tree.located around ++ Tree.locatedOf around rest

end

/-- The items of module blocks, each in its block. -/
def Block.locatedOf (blocks : List Block) : List (List String × Part Item) :=
  blocks.flatMap fun b => Part.inside [b.fqn] b.items

/-- What stands in a document: in its trees, and in the blocks of modules. -/
def Document.located (d : Document) : List (List String × Part Item) :=
  Tree.locatedOf [] d.script ++ Block.locatedOf d.blocks

/-- What stands in trees is what stands in the first ones and then in the others. -/
theorem Tree.locatedOf_append (around : List String) (trees more : List Tree) :
    locatedOf around (trees ++ more) = locatedOf around trees ++ locatedOf around more := by
  induction trees with
  | nil => rfl
  | cons tree rest ih => rw [List.cons_append, locatedOf, locatedOf, ih, List.append_assoc]

/-- Items that stand as trees stand where the trees do. -/
theorem Tree.locatedOf_map_item (around : List String) (items : List Item) :
    locatedOf around (items.map .item) = Part.inside around items := by
  induction items with
  | nil => rfl
  | cons item rest ih => rw [List.map_cons, locatedOf, ih, located]; rfl

/-- A block stands where it does, and its body stands inside it. -/
theorem Tree.locatedOf_block (around : List String) (name : String) (lead : Option Lead)
    (body : List Tree) :
    locatedOf around [.block name lead body]
      = (around, .block name) :: locatedOf (around ++ [name]) body := by
  rw [locatedOf, locatedOf, List.append_nil, located]

mutual

/-- What stands in a tree besides blocks are its items. -/
theorem Tree.ones_located (around : List String) :
    ∀ tree : Tree, Part.ones (tree.located around) = tree.items
  | .item _ => rfl
  | .block name _ body => Tree.ones_locatedOf (around ++ [name]) body

/-- What stands in a list of trees besides blocks are its items. -/
theorem Tree.ones_locatedOf (around : List String) :
    ∀ trees : List Tree, Part.ones (Tree.locatedOf around trees) = Tree.itemsOf trees
  | [] => rfl
  | tree :: rest => by
    rw [Tree.locatedOf, Part.ones_append, Tree.ones_located around tree,
      Tree.ones_locatedOf around rest, Tree.itemsOf]

end

/-- Every item of a document stands somewhere. -/
theorem Document.ones_located (d : Document) : Part.ones d.located = d.items := by
  rw [located, Part.ones_append, Tree.ones_locatedOf, Block.locatedOf, Part.ones_flatMap, items]
  exact congrArg _ (List.flatMap_congr fun b _ => Part.ones_inside _ _)

/-! ## Where entries stand -/

/-- The entries of planned blocks, each in its block. -/
def Entry.planned (plans : List (String × List Entry)) : List (List String × Part Entry) :=
  plans.flatMap fun plan => Part.inside [plan.1] plan.2

namespace Writer

variable (w : Writer)

mutual

/-- Where the global tree has a namespace: its entries are in its block, and an interface that is
made from it stands beside the block, if there is one. -/
def locatedTree (around : List String) : Namespace → List (List String × Part Entry)
  | ⟨scope, nested⟩ =>
    if w.emitted.contains (w.nameOf scope.link) then
      let here := around ++ [scope.name]
      let inner := Part.inside here (typeEntries scope) ++ locatedTreeOf here nested
      if w.isInterface (w.nameOf scope.link) then
        (around, .one (.nameSpace scope)) ::
          if Namespace.hasAggregates ⟨scope, nested⟩ then (around, .block scope.name) :: inner
          else []
      else (around, .block scope.name) :: Part.inside here (valueEntries scope) ++ inner
    else []

/-- The same for the namespaces of a list. -/
def locatedTreeOf (around : List String) : List Namespace → List (List String × Part Entry)
  | [] => []
  | ns :: rest => locatedTree around ns ++ locatedTreeOf around rest

end

/-- Where a document has its entries. -/
def locatedEntries (flavor : Flavor) (modules : Ordered.Set String) (top : Namespace) :
    List (List String × Part Entry) :=
  let own := Part.inside [] (valueEntries top.scope ++ typeEntries top.scope)
  match flavor with
  | .globals => own ++ w.locatedTreeOf [] top.nested
  | .modules => own ++ Part.inside [] (w.nestedInterfaceEntries top)
      ++ Entry.planned (w.blockPlansOf modules top.nested)

/-- Where the entries of a list of namespaces stand is where those of each one stand. -/
theorem locatedTreeOf_eq (around : List String) (nested : List Namespace) :
    w.locatedTreeOf around nested = nested.flatMap (w.locatedTree around) := by
  induction nested with
  | nil => rfl
  | cons ns rest ih => rw [locatedTreeOf, ih, List.flatMap_cons]

/-- The entries that stand in the tree of a namespace are its entries in the global tree. -/
theorem ones_locatedTree (ns : Namespace) :
    ∀ around, Part.ones (w.locatedTree around ns) = w.treeEntries ns := by
  induction ns using Namespace.induction with
  | step scope nested ih =>
    intro around
    -- The types and the nested namespaces come last in a block and in an interface alike.
    have hinner : Part.ones (Part.inside (around ++ [scope.name]) (typeEntries scope)
        ++ w.locatedTreeOf (around ++ [scope.name]) nested)
        = typeEntries scope ++ w.treeEntriesOf nested := by
      rw [Part.ones_append, Part.ones_inside, locatedTreeOf_eq, treeEntriesOf_eq, Part.ones_flatMap]
      exact congrArg _ (List.flatMap_congr fun child hchild => ih child hchild _)
    rw [locatedTree, treeEntries, List.append_assoc]
    dsimp only
    cases w.emitted.contains (w.nameOf scope.link) with
    | false => rfl
    | true =>
      cases w.isInterface (w.nameOf scope.link) with
      | false =>
        rw [if_pos rfl, if_neg Bool.false_ne_true, if_pos rfl, if_neg Bool.false_ne_true, ← hinner]
        refine (Part.ones_append ((around, .block scope.name) :: _) _).trans ?_
        exact congrArg (· ++ _) (Part.ones_inside (around ++ [scope.name]) (valueEntries scope))
      | true =>
        cases haggregates : Namespace.hasAggregates ⟨scope, nested⟩ with
        | false =>
          obtain ⟨htypes, rfl⟩ := eq_nil_of_not_hasAggregates haggregates
          rw [htypes]
          rfl
        | true =>
          rw [if_pos rfl, if_pos rfl, if_pos rfl, if_pos rfl, if_pos rfl, ← hinner]
          rfl

/-- Every entry of a document stands somewhere. -/
theorem ones_locatedEntries (flavor : Flavor) (modules : Ordered.Set String) (top : Namespace) :
    Part.ones (w.locatedEntries flavor modules top) = w.entries flavor modules top := by
  cases flavor with
  | globals =>
    rw [locatedEntries, entries_globals, Part.ones_append, Part.ones_inside, locatedTreeOf_eq,
      Part.ones_flatMap]
    exact congrArg _ (List.flatMap_congr fun ns _ => w.ones_locatedTree ns [])
  | modules =>
    rw [locatedEntries, entries, Part.ones_append, Part.ones_append, Part.ones_inside,
      Part.ones_inside, Entry.planned, Part.ones_flatMap]
    exact congrArg _ (List.flatMap_congr fun plan _ => Part.ones_inside _ _)

end Writer

/-! ## Views -/

/-- A way to look at items. On the pages that it admits, what it shows of the item for an entry is
always the same. -/
structure View (w : Writer) (γ : Type) where
  admits : Page → Prop
  observe : Item → γ
  value : Entry → Option γ
  answer : ∀ entry page, admits page →
    ((w.write entry).run page).1.map observe = value entry
  keeps : ∀ entry page, admits page → admits ((w.write entry).run page).2

namespace View

variable {w : Writer} {γ : Type} (v : View w γ)

/-- What is shown of items, where they stand. -/
def shown (items : List (List String × Part Item)) : List (List String × Part γ) :=
  Part.mapAll? (fun item => some (v.observe item)) items

/-- What is to be shown of entries, where they stand. -/
def expected (entries : List (List String × Part Entry)) : List (List String × Part γ) :=
  Part.mapAll? v.value entries

/-- What is shown of two lists of items is what is shown of each. -/
theorem shown_append (items more : List (List String × Part Item)) :
    v.shown (items ++ more) = v.shown items ++ v.shown more :=
  List.filterMap_append

/-- What is to be shown of two lists of entries is what is to be shown of each. -/
theorem expected_append (entries more : List (List String × Part Entry)) :
    v.expected (entries ++ more) = v.expected entries ++ v.expected more :=
  List.filterMap_append

/-- Blocks are shown as they are. -/
theorem shown_block (around : List String) (name : String)
    (items : List (List String × Part Item)) :
    v.shown ((around, .block name) :: items) = (around, .block name) :: v.shown items := rfl

/-- Blocks are to be shown as they are. -/
theorem expected_block (around : List String) (name : String)
    (entries : List (List String × Part Entry)) :
    v.expected ((around, .block name) :: entries) = (around, .block name) :: v.expected entries :=
  rfl

/-- Of one entry, its value is to be shown where it stands, if it has one. -/
theorem expected_one (around : List String) (entry : Entry) :
    v.expected [(around, .one entry)]
      = ((v.value entry).map fun value => (around, .one value)).toList := by
  rw [expected, Part.mapAll?, List.filterMap_cons, Part.map?, Option.map_map]
  cases v.value entry <;> rfl

/-- On a page that is admitted, an action answers items of which is shown what is to be shown of
entries; the page stays one that is admitted. -/
structure Presents {α : Type} (m : Writing α) (items : α → List (List String × Part Item))
    (entries : List (List String × Part Entry)) : Prop where
  answer : ∀ page, v.admits page → v.shown (items (m.run page).1) = v.expected entries
  keeps : ∀ page, v.admits page → v.admits (m.run page).2

namespace Presents

variable {v} {α β : Type} {m : Writing α} {k : α → Writing β}
  {items : α → List (List String × Part Item)} {all : β → List (List String × Part Item)}
  {entries more : List (List String × Part Entry)}

/-- What shows what is to be shown presents it. -/
theorem pure {a : α} (h : v.shown (items a) = v.expected entries) :
    v.Presents (Pure.pure a) items entries :=
  ⟨fun _ _ => h, fun _ hpage => hpage⟩

/-- Two actions, one after the other. -/
theorem bind (h : v.Presents m items entries)
    (hk : ∀ a, v.shown (items a) = v.expected entries → v.Presents (k a) all more) :
    v.Presents (m >>= k) all more where
  answer page hpage := (hk _ (h.answer page hpage)).answer _ (h.keeps page hpage)
  keeps page hpage := (hk _ (h.answer page hpage)).keeps _ (h.keeps page hpage)

end Presents

variable {v}

/-- Entries that are written one by one in the same place. -/
theorem presents_writeSome (around : List String) (entries : List Entry) :
    v.Presents (writeSome w.write entries) (Part.inside around) (Part.inside around entries) := by
  induction entries with
  | nil => exact .pure rfl
  | cons entry rest ih =>
    have hentry : v.Presents (w.write entry) (fun item => Part.inside around item.toList)
        [(around, .one entry)] := by
      refine ⟨fun page hpage => ?_, v.keeps entry⟩
      rw [expected_one, ← v.answer entry page hpage]
      cases ((w.write entry).run page).1 <;> rfl
    refine hentry.bind fun item hitem => ih.bind fun items hitems => .pure ?_
    rw [Part.inside, List.map_append]
    exact (v.shown_append _ _).trans
      ((congr (congrArg _ hitem) hitems).trans (v.expected_append [(around, .one entry)] _).symm)

/-- The values of a scope present their entries, where the scope stands. -/
theorem presents_values (around : List String) (s : Scope) :
    v.Presents (w.values s) (Part.inside around) (Part.inside around (valueEntries s)) := by
  rw [Writer.values_eq]
  exact presents_writeSome around _

/-- The aggregates of a scope present their entries, where the scope stands. -/
theorem presents_aggregates (around : List String) (s : Scope) :
    v.Presents (w.aggregates s) (Part.inside around) (Part.inside around (typeEntries s)) := by
  rw [Writer.aggregates_eq]
  exact presents_writeSome around _

/-- Nested interfaces present their entries, where the namespace around them has its items. -/
theorem presents_nestedInterfaces (around : List String) (ns : Namespace) :
    v.Presents (w.nestedInterfaces ns) (Part.inside around)
      (Part.inside around (w.nestedInterfaceEntries ns)) := by
  rw [Writer.nestedInterfaces_eq]
  exact presents_writeSome around _

/-- A namespace that is written as an interface. -/
theorem presents_nameSpaceInterface (around : List String) (s : Scope) :
    v.Presents (w.nameSpaceInterface s) (fun item => [(around, .one item)])
      [(around, .one (.nameSpace s))] := by
  refine ⟨fun page hpage => ?_, v.keeps (.nameSpace s)⟩
  rw [expected_one, ← v.answer (.nameSpace s) page hpage]
  rfl

/-! ### The global tree -/

/-- A list of namespaces in the global tree presents its entries if every namespace does. -/
theorem presents_globalNamespaces {nested : List Namespace} {around : List String}
    (h : ∀ ns ∈ nested, v.Presents (w.globalNamespace ns) (Tree.locatedOf around)
      (w.locatedTree around ns)) :
    v.Presents (w.globalNamespaces nested) (Tree.locatedOf around)
      (w.locatedTreeOf around nested) := by
  induction nested with
  | nil => exact .pure rfl
  | cons ns rest ih =>
    obtain ⟨hfirst, hrest⟩ := List.forall_mem_cons.mp h
    rw [Writer.globalNamespaces, Writer.locatedTreeOf]
    refine hfirst.bind fun trees ht => (ih hrest).bind fun more hm => .pure ?_
    rw [Tree.locatedOf_append, shown_append, ht, hm, expected_append]

/-- A namespace of the global tree shows its entries where they stand. -/
theorem presents_globalNamespace (ns : Namespace) :
    ∀ around, v.Presents (w.globalNamespace ns) (Tree.locatedOf around)
      (w.locatedTree around ns) := by
  induction ns using Namespace.induction with
  | step scope nested ih =>
    intro around
    have hnested := presents_globalNamespaces fun child hchild =>
      ih child hchild (around ++ [scope.name])
    rw [Writer.globalNamespace, Writer.locatedTree]
    dsimp only
    cases w.emitted.contains (w.nameOf scope.link) with
    | false => exact .pure rfl
    | true =>
      -- The cases are those in which the namespace is a block, an interface, or both.
      cases w.isInterface (w.nameOf scope.link) with
      | false =>
        refine (presents_values (around ++ [scope.name]) scope).bind fun values hv =>
          (presents_aggregates (around ++ [scope.name]) scope).bind fun aggregates ha =>
          hnested.bind fun inner hi => .pure ?_
        rw [if_pos rfl, if_neg Bool.false_ne_true, Tree.locatedOf_block, Tree.locatedOf_append,
          Tree.locatedOf_map_item, Part.inside_append, List.cons_append, shown_block,
          expected_block, shown_append, shown_append, expected_append, expected_append, hv, ha, hi,
          List.append_assoc]
      | true =>
        cases haggregates : Namespace.hasAggregates ⟨scope, nested⟩ with
        | false =>
          refine (presents_nameSpaceInterface around scope).bind fun item hitem => .pure ?_
          rw [if_pos rfl, if_pos rfl, if_neg Bool.false_ne_true]
          exact hitem
        | true =>
          refine (presents_nameSpaceInterface around scope).bind fun item hitem =>
            (presents_aggregates (around ++ [scope.name]) scope).bind fun aggregates ha =>
            hnested.bind fun inner hi => .pure ?_
          have hexpected := v.expected_append [(around, .one (.nameSpace scope))]
            ((around, .block scope.name) ::
              (Part.inside (around ++ [scope.name]) (typeEntries scope)
                ++ w.locatedTreeOf (around ++ [scope.name]) nested))
          rw [if_pos rfl, if_pos rfl, if_pos rfl, Tree.locatedOf, Tree.located,
            Tree.locatedOf_block, Tree.locatedOf_append, Tree.locatedOf_map_item, shown_append,
            hitem, shown_block, shown_append, ha, hi]
          exact (hexpected.trans (by rw [expected_block, expected_append])).symm

/-- The global tree presents its entries where they stand. -/
theorem presents_globalTree (top : Namespace) (modules : Ordered.Set String) :
    v.Presents (w.globalTree top) (Tree.locatedOf [])
      (w.locatedEntries .globals modules top) := by
  refine (presents_values [] top.scope).bind fun values hv =>
    (presents_aggregates [] top.scope).bind fun aggregates ha =>
    (presents_globalNamespaces fun ns _ => presents_globalNamespace ns []).bind fun inner hi =>
    .pure ?_
  rw [Tree.locatedOf_append, Tree.locatedOf_map_item, Part.inside, List.map_append, shown_append,
    shown_append, Writer.locatedEntries, Part.inside_append, expected_append, expected_append]
  exact congr (congrArg _ (congr (congrArg _ hv) ha)) hi

/-! ### Module blocks -/

section Blocks

variable (hall : ∀ page, v.admits page)
include hall

/-- A module block presents the entries of its namespace, inside the block. -/
theorem presents_moduleBlock (ns : Namespace) :
    v.Presents (w.moduleBlock (w.nameOf ns.scope.link) ns)
      (fun b => Part.inside [b.fqn] b.items)
      (Part.inside [w.nameOf ns.scope.link] (w.blockEntries ns)) := by
  have hunseen {α : Type} (m : Writing α) : v.Presents m (fun _ => []) [] :=
    ⟨fun _ _ => rfl, fun _ _ => hall _⟩
  rw [Writer.moduleBlock_eq]
  exact (hunseen _).bind fun _ _ =>
    (presents_writeSome [w.nameOf ns.scope.link] (w.blockEntries ns)).bind fun items hitems =>
    (hunseen _).bind fun _ _ => (hunseen _).bind fun _ _ => .pure hitems

omit hall in
/-- Blocks that are written one after the other. -/
theorem Presents.append {m n : Writing (List Block)} {plans more : List (String × List Entry)}
    (hm : v.Presents m Block.locatedOf (Entry.planned plans))
    (hn : v.Presents n Block.locatedOf (Entry.planned more)) :
    v.Presents (m >>= fun first => n >>= fun rest => Pure.pure (first ++ rest)) Block.locatedOf
      (Entry.planned (plans ++ more)) := by
  refine hm.bind fun first hf => hn.bind fun rest hr => .pure ?_
  rw [Block.locatedOf, List.flatMap_append, shown_append, Entry.planned, List.flatMap_append,
    expected_append]
  exact congr (congrArg _ hf) hr

omit hall in
/-- The blocks of a list of namespaces present what is planned for them if those of each do. -/
theorem presents_nestedBlocks {modules : Ordered.Set String} {nested : List Namespace}
    (h : ∀ ns ∈ nested, v.Presents (w.blocks modules ns) Block.locatedOf
      (Entry.planned (w.blockPlans modules ns))) :
    v.Presents (w.nestedBlocks modules nested) Block.locatedOf
      (Entry.planned (w.blockPlansOf modules nested)) := by
  induction nested with
  | nil => exact .pure rfl
  | cons ns rest ih =>
    obtain ⟨hfirst, hrest⟩ := List.forall_mem_cons.mp h
    rw [Writer.nestedBlocks, Writer.blockPlansOf]
    exact hfirst.append (ih hrest)

/-- The blocks of a namespace and of those nested in it present what is planned for them. -/
theorem presents_blocks (modules : Ordered.Set String) (ns : Namespace) :
    v.Presents (w.blocks modules ns) Block.locatedOf (Entry.planned (w.blockPlans modules ns)) := by
  induction ns using Namespace.induction with
  | step scope nested ih =>
    have hnested := presents_nestedBlocks ih
    rw [Writer.blocks, Writer.blockPlans]
    dsimp only
    cases w.emitted.contains (w.nameOf scope.link) with
    | false => exact .pure rfl
    | true =>
      cases modules.contains (w.nameOf scope.link) with
      | false => exact hnested
      | true =>
        have hblock : v.Presents (w.moduleBlock (w.nameOf scope.link) ⟨scope, nested⟩ >>=
            fun block => pure [block]) Block.locatedOf
            (Entry.planned [(w.nameOf scope.link, w.blockEntries ⟨scope, nested⟩)]) := by
          refine (presents_moduleBlock hall ⟨scope, nested⟩).bind fun block hb => .pure ?_
          rw [Block.locatedOf, List.flatMap_singleton, Entry.planned, List.flatMap_singleton]
          exact hb
        exact hblock.append hnested

end Blocks

/-! ### Documents -/

/-- Of a document is shown what is to be shown of its entries, where they stand. With module blocks
the place of writing changes, so the view has to admit every page. -/
theorem shown_document (flavor : Flavor) (hall : flavor = .modules → ∀ page, v.admits page)
    (modules : Ordered.Set String) (top : Namespace) (page : Page) (hpage : v.admits page) :
    v.shown ((w.document flavor modules top).run page).1.located
      = v.expected (w.locatedEntries flavor modules top) := by
  suffices h : v.Presents (w.document flavor modules top) Document.located
      (w.locatedEntries flavor modules top) from h.answer page hpage
  cases flavor with
  | globals =>
    refine (presents_globalTree top modules).bind fun trees ht => .pure ?_
    rw [Document.located, Block.locatedOf, List.flatMap_nil, List.append_nil]
    exact ht
  | modules =>
    have hscript : v.Presents (w.scriptItems top) (Part.inside []) (Part.inside []
        (valueEntries top.scope ++ typeEntries top.scope ++ w.nestedInterfaceEntries top)) := by
      refine (presents_values [] top.scope).bind fun values hv =>
        (presents_aggregates [] top.scope).bind fun aggregates ha =>
        (presents_nestedInterfaces [] top).bind fun interfaces hi => .pure ?_
      rw [Part.inside, List.map_append, List.map_append, shown_append, shown_append,
        Part.inside_append, Part.inside_append, expected_append, expected_append]
      exact congr (congrArg _ (congr (congrArg _ hv) ha)) hi
    refine hscript.bind fun script hs =>
      (presents_nestedBlocks fun ns _ => presents_blocks (hall rfl) modules ns).bind
        fun blocks hb => .pure ?_
    rw [Document.located, Tree.locatedOf_map_item, shown_append, Writer.locatedEntries,
      ← Part.inside_append, expected_append]
    exact congr (congrArg _ hs) hb

/-- Whatever is shown of the items of a document, wherever they stand, is what is to be shown of its
entries. -/
theorem map_observe_document (flavor : Flavor)
    (hall : flavor = .modules → ∀ page, v.admits page) (modules : Ordered.Set String)
    (top : Namespace) (page : Page) (hpage : v.admits page) :
    ((w.document flavor modules top).run page).1.items.map v.observe
      = (w.entries flavor modules top).filterMap v.value := by
  have hshown := congrArg Part.ones (shown_document flavor hall modules top page hpage)
  rw [shown, expected, Part.ones_mapAll?, Part.ones_mapAll?, Document.ones_located,
    w.ones_locatedEntries] at hshown
  rwa [← List.filterMap_eq_map]

end View

end Ambient.Declaration
