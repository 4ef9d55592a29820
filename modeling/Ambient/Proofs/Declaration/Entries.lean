import Ambient.Declaration.Emission
import Ambient.Proofs.Declaration.Outline

/-!
# What is written in each flavor

Both flavors write the same kinds of entries, each as one item: variables, functions, classes,
interfaces and enums, and namespaces as interfaces. They differ in the order in which they go
through the namespaces, and in what they put into a block. Here the entries are listed for each
flavor, and its document and warnings are read off the list.
-/

namespace Ambient.Declaration

open Api

/-- What is written as one item. -/
inductive Entry where
  | constant (v : Variable)
  | function (f : Function)
  | aggregate (n : TypeNode)
  | nameSpace (s : Scope)

/-- The variables and functions of a namespace as entries. -/
def valueEntries (s : Scope) : List Entry :=
  s.constants.map .constant ++ s.functions.map .function

/-- The classes, interfaces and enums of a namespace as entries. -/
def typeEntries (s : Scope) : List Entry := s.types.map .aggregate

/-- The simple name of an entry. -/
def Entry.name : Entry → String
  | .constant v => v.name
  | .function f => f.name
  | .aggregate n => n.name
  | .nameSpace s => s.name

/-- The form in which an entry is declared. -/
def Entry.form : Entry → Form
  | .constant _ => .constant
  | .function _ => .function
  | .aggregate n => typeForm n
  | .nameSpace _ => .nameSpace

namespace Writer

variable (w : Writer)

/-- Writes an entry. -/
def write : Entry → Writing (Option Item)
  | .constant v => w.constant v
  | .function f => w.function f
  | .aggregate (.classType c) => w.classType c
  | .aggregate (.interfaceType i) => w.interfaceType i
  | .aggregate (.enumType e) => w.enumType e
  | .nameSpace s => do return some (← w.nameSpaceInterface s)

/-- The outline of an entry, unless it is left out. -/
def outline? : Entry → Option Outline
  | .constant v =>
    let o : Outline := ⟨w.nameOf.variableTitle .constant v, []⟩
    if keepsItem w.directives o then some o else none
  | .function f =>
    let o : Outline := ⟨w.nameOf.functionTitle .function f, []⟩
    if keepsItem w.directives o then some o else none
  | .aggregate n =>
    if w.emitted.contains (w.nameOf n.link) then some (typeOutline w.directives w.nameOf n)
    else none
  | .nameSpace s => some (nameSpaceOutline w.directives w.nameOf s)

/-- The outline of an entry has its name and form. -/
theorem title_of_outline? {entry : Entry} {o : Outline} (h : w.outline? entry = some o) :
    o.title.name = entry.name ∧ o.title.form = entry.form := by
  have hkept {condition : Bool} {own : Outline} (h : (if condition then some own else none) = some o) :
      own = o := Option.some.inj (Option.ite_none_right_eq_some.mp h).2
  cases entry with
  | constant v => exact hkept h ▸ ⟨rfl, rfl⟩
  | function f => exact hkept h ▸ ⟨rfl, rfl⟩
  | aggregate n => exact hkept h ▸ ⟨rfl, rfl⟩
  | nameSpace s => exact Option.some.inj h ▸ ⟨rfl, rfl⟩

/-- The outlines of the entries that are not left out. -/
def outlines (entries : List Entry) : List Outline := entries.filterMap w.outline?

/-- The warnings about entries. -/
def warnings (entries : List Entry) : List Warning :=
  entries.flatMap fun entry => notesOf (w.write entry)

/-- The outlines of two runs of entries are those of the first, then those of the second. -/
theorem outlines_append (entries more : List Entry) :
    w.outlines (entries ++ more) = w.outlines entries ++ w.outlines more :=
  List.filterMap_append

/-- The warnings of two runs of entries are those of the first, then those of the second. -/
theorem warnings_append (entries more : List Entry) :
    w.warnings (entries ++ more) = w.warnings entries ++ w.warnings more :=
  List.flatMap_append

/-- Writing an entry gives its outline. -/
theorem writes_entry (entry : Entry) :
    Writes (w.write entry) (Option.map Item.outline) (w.outline? entry)
      (notesOf (w.write entry)) := by
  suffices h : ∃ notes, Writes (w.write entry) (Option.map Item.outline) (w.outline? entry)
      notes by
    obtain ⟨notes, h⟩ := h
    exact h.notesOf
  cases entry with
  | constant v => exact w.writes_constant v
  | function f => exact w.writes_function f
  | aggregate n =>
    cases n with
    | classType c => exact w.writes_classType c
    | interfaceType i => exact w.writes_interfaceType i
    | enumType e => exact w.writes_enumType e
  | nameSpace s =>
    obtain ⟨notes, h⟩ := w.writes_nameSpaceInterface s
    exact ⟨notes ++ [], h.bind fun item hitem => .pure (congrArg some hitem)⟩

/-- An action writes entries: what it answers has their outlines, and it adds their warnings. -/
def WritesEntries {α : Type} (m : Writing α) (observe : α → List Outline)
    (entries : List Entry) : Prop :=
  Writes m observe (w.outlines entries) (w.warnings entries)

variable {w}

namespace WritesEntries

variable {α β γ : Type} {m : Writing α} {n : Writing β} {observe : α → List Outline}
  {observe' : β → List Outline} {entries more : List Entry}

/-- Nodes of one kind that are written one by one. -/
theorem ofList (write : α → Writing (Option Item)) (entry : α → Entry)
    (hwrite : ∀ a, write a = w.write (entry a)) (xs : List α) :
    w.WritesEntries (writeSome write xs) (List.map Item.outline) (xs.map entry) := by
  have hlist := writes_writeSome write Item.outline (fun a => w.outline? (entry a))
    (fun a => notesOf (w.write (entry a))) xs fun a => by
      rw [hwrite]
      exact w.writes_entry (entry a)
  rw [WritesEntries, outlines, warnings, List.filterMap_map, List.flatMap_map]
  exact hlist

/-- The warnings of the parts of an action are those of its entries. -/
theorem of {notes : List Warning} (h : Writes m observe (w.outlines entries) notes)
    (hnotes : notes = w.warnings entries) : w.WritesEntries m observe entries := by
  rwa [WritesEntries, ← hnotes]

end WritesEntries

/-- Writing the values of a scope writes the variables and the functions, in this order. -/
theorem writes_values (s : Scope) :
    w.WritesEntries (w.values s) (List.map Item.outline) (valueEntries s) := by
  have hconstants := WritesEntries.ofList (w := w) w.constant .constant (fun _ => rfl) s.constants
  have hfunctions := WritesEntries.ofList (w := w) w.function .function (fun _ => rfl) s.functions
  refine .of (Writes.bind hconstants fun constants hc => Writes.bind hfunctions fun functions hf =>
    .pure ?_) ?_
  · rw [List.map_append, hc, hf, valueEntries, outlines_append]
  · rw [List.append_nil, valueEntries, warnings_append]

/-- The types of a scope are its classes, its interfaces and its enums, in this order. -/
theorem typeEntries_eq (s : Scope) :
    typeEntries s = s.classes.map (fun c => .aggregate (.classType c))
      ++ s.interfaces.map (fun i => .aggregate (.interfaceType i))
      ++ s.enums.map (fun e => .aggregate (.enumType e)) := by
  simp only [typeEntries, Scope.types, List.map_append, List.map_map]
  rfl

/-- Writing the aggregates of a scope writes its types. -/
theorem writes_aggregates (s : Scope) :
    w.WritesEntries (w.aggregates s) (List.map Item.outline) (typeEntries s) := by
  have hclasses := WritesEntries.ofList (w := w) w.classType (fun c => .aggregate (.classType c))
    (fun _ => rfl) s.classes
  have hinterfaces := WritesEntries.ofList (w := w) w.interfaceType
    (fun i => .aggregate (.interfaceType i)) (fun _ => rfl) s.interfaces
  have henums := WritesEntries.ofList (w := w) w.enumType (fun e => .aggregate (.enumType e))
    (fun _ => rfl) s.enums
  refine .of (Writes.bind hclasses fun classes hc => Writes.bind hinterfaces fun interfaces hi =>
    Writes.bind henums fun enums he => .pure ?_) ?_
  · rw [List.map_append, List.map_append, hc, hi, he, typeEntries_eq, outlines_append,
      outlines_append]
  · rw [List.append_nil, typeEntries_eq, warnings_append, warnings_append, List.append_assoc]

/-- A namespace that is written as an interface is one entry. -/
theorem writes_nameSpace (s : Scope) :
    w.WritesEntries (w.nameSpaceInterface s) (fun item => [item.outline]) [.nameSpace s] := by
  obtain ⟨notes, hitem⟩ := w.writes_nameSpaceInterface s
  refine .of (hitem.notesOf.imp fun item h => ?_) ?_
  · rw [h]
    rfl
  · rw [warnings, List.flatMap_singleton]
    rfl

/-! ## The global tree -/

variable (w)

mutual

/-- What the global tree has of a namespace. -/
def treeEntries : Namespace → List Entry
  | ⟨scope, nested⟩ =>
    if w.emitted.contains (w.nameOf scope.link) then
      (if w.isInterface (w.nameOf scope.link) then [.nameSpace scope] else valueEntries scope)
        ++ typeEntries scope ++ treeEntriesOf nested
    else []

/-- What the global tree has of the namespaces of a list. -/
def treeEntriesOf : List Namespace → List Entry
  | [] => []
  | ns :: rest => treeEntries ns ++ treeEntriesOf rest

end

/-- The entries of nested namespaces are gathered namespace by namespace. -/
theorem treeEntriesOf_eq (nested : List Namespace) :
    w.treeEntriesOf nested = nested.flatMap w.treeEntries := by
  induction nested with
  | nil => rfl
  | cons ns rest ih => rw [treeEntriesOf, ih, List.flatMap_cons]

/-- A namespace itself: an interface, or its variables and functions. -/
def ownEntries (ns : Namespace) : List Entry :=
  if w.isInterface (w.nameOf.nameSpace ns) then [.nameSpace ns.scope] else valueEntries ns.scope

/-- A namespace that is written gives its own entries, its types and what is nested in it; one that
is not gives none. -/
theorem treeEntries_eq (ns : Namespace) :
    w.treeEntries ns = if w.emitted.contains (w.nameOf.nameSpace ns) then
      w.ownEntries ns ++ typeEntries ns.scope ++ ns.nested.flatMap w.treeEntries else [] := by
  obtain ⟨scope, nested⟩ := ns
  rw [treeEntries, treeEntriesOf_eq]
  rfl

variable {w}

/-- The items of two rows of trees are those of the first, then those of the second. -/
theorem itemsOf_append (trees more : List Tree) :
    Tree.itemsOf (trees ++ more) = Tree.itemsOf trees ++ Tree.itemsOf more := by
  induction trees with
  | nil => rfl
  | cons tree rest ih => rw [List.cons_append, Tree.itemsOf, Tree.itemsOf, ih, List.append_assoc]

/-- Items as trees have themselves as items. -/
theorem itemsOf_map_item (items : List Item) : Tree.itemsOf (items.map .item) = items := by
  induction items with
  | nil => rfl
  | cons item rest ih => rw [List.map_cons, Tree.itemsOf, ih, Tree.items, List.singleton_append]

/-- The outlines of the items in trees. -/
def treeOutlines (trees : List Tree) : List Outline := (Tree.itemsOf trees).map Item.outline

/-- The outlines of two rows of trees are those of the first, then those of the second. -/
theorem treeOutlines_append (trees more : List Tree) :
    treeOutlines (trees ++ more) = treeOutlines trees ++ treeOutlines more := by
  rw [treeOutlines, itemsOf_append, List.map_append]
  rfl

/-- Items as trees have the outlines of the items. -/
theorem treeOutlines_map_item (items : List Item) :
    treeOutlines (items.map .item) = items.map Item.outline := by
  rw [treeOutlines, itemsOf_map_item]

/-- An item in front of trees has its outline in front of theirs. -/
theorem treeOutlines_cons_item (item : Item) (trees : List Tree) :
    treeOutlines (.item item :: trees) = item.outline :: treeOutlines trees := rfl

/-- A block has the outlines of its body. -/
theorem treeOutlines_block (name : String) (lead : Option Lead) (body : List Tree) :
    treeOutlines [.block name lead body] = treeOutlines body := by
  simp [treeOutlines, Tree.itemsOf, Tree.items]

/-- A namespace without namespaces, classes, interfaces and enums has no entries but itself. -/
theorem eq_nil_of_not_hasAggregates {scope : Scope} {nested : List Namespace}
    (h : Namespace.hasAggregates ⟨scope, nested⟩ = false) :
    typeEntries scope = [] ∧ nested = [] := by
  simp only [Namespace.hasAggregates, Bool.or_eq_false_iff, Bool.not_eq_false',
    List.isEmpty_iff] at h
  obtain ⟨⟨⟨hnested, hclasses⟩, hinterfaces⟩, henums⟩ := h
  refine ⟨?_, hnested⟩
  rw [typeEntries_eq, hclasses, hinterfaces, henums]
  rfl

/-- If each nested namespace writes its entries, all of them in a row write theirs. -/
theorem writes_globalNamespaces {nested : List Namespace}
    (h : ∀ ns ∈ nested, w.WritesEntries (w.globalNamespace ns) treeOutlines (w.treeEntries ns)) :
    w.WritesEntries (w.globalNamespaces nested) treeOutlines (w.treeEntriesOf nested) := by
  induction nested with
  | nil => exact .of (.pure rfl) rfl
  | cons ns rest ih =>
    obtain ⟨hfirst, hrest⟩ := List.forall_mem_cons.mp h
    rw [globalNamespaces, treeEntriesOf]
    refine .of (Writes.bind hfirst fun trees ht => Writes.bind (ih hrest) fun more hm =>
      .pure ?_) ?_
    · rw [treeOutlines_append, ht, hm, outlines_append]
    · rw [List.append_nil, warnings_append]

/-- Writing a namespace into the global tree writes its entries. -/
theorem writes_globalNamespace (ns : Namespace) :
    w.WritesEntries (w.globalNamespace ns) treeOutlines (w.treeEntries ns) := by
  induction ns using Namespace.induction with
  | step scope nested ih =>
    have hnested := writes_globalNamespaces ih
    rw [globalNamespace, treeEntries]
    dsimp only
    cases hemitted : w.emitted.contains (w.nameOf scope.link) with
    | false => exact .of (.pure rfl) rfl
    | true =>
      -- A namespace that is no interface is a block with all it has. An interface stands in front
      -- of the block of its types and nested namespaces, which is left out if there are none.
      cases hinterface : w.isInterface (w.nameOf scope.link) with
      | false =>
        refine .of (Writes.bind (writes_values scope) fun values hv =>
          Writes.bind (writes_aggregates scope) fun aggregates ha =>
          Writes.bind hnested fun inner hi => .pure ?_) ?_
        · rw [treeOutlines_block, treeOutlines_append, treeOutlines_map_item, List.map_append, hv,
            ha, hi, if_pos rfl, if_neg Bool.false_ne_true, outlines_append, outlines_append]
        · rw [if_pos rfl, if_neg Bool.false_ne_true, warnings_append, warnings_append,
            List.append_nil, List.append_assoc]
      | true =>
        cases haggregates : Namespace.hasAggregates ⟨scope, nested⟩ with
        | false =>
          obtain ⟨htypes, rfl⟩ := eq_nil_of_not_hasAggregates haggregates
          rw [htypes]
          refine .of (Writes.bind (writes_nameSpace scope) fun item hitem => .pure ?_) ?_
          · rw [treeOutlines_cons_item]
            exact hitem
          · rw [List.append_nil]
            rfl
        | true =>
          refine .of (Writes.bind (writes_nameSpace scope) fun item hitem =>
            Writes.bind (writes_aggregates scope) fun aggregates ha =>
            Writes.bind hnested fun inner hi => .pure ?_) ?_
          · rw [treeOutlines_cons_item, treeOutlines_block, treeOutlines_append,
              treeOutlines_map_item, ha, hi, if_pos rfl, if_pos rfl, outlines_append,
              outlines_append, ← hitem]
            rfl
          · rw [if_pos rfl, if_pos rfl, warnings_append, warnings_append, List.append_nil,
              List.append_assoc]

/-! ## Module blocks -/

variable (w)

/-- What is written of the namespaces nested in one that are interfaces. -/
def nestedInterfaceEntries (ns : Namespace) : List Entry :=
  (ns.nested.filter w.isEmittedInterface).map fun child => .nameSpace child.scope

/-- What the block of a namespace has. -/
def blockEntries (ns : Namespace) : List Entry :=
  (if w.isInterface (w.nameOf ns.scope.link) then [] else valueEntries ns.scope)
    ++ typeEntries ns.scope ++ w.nestedInterfaceEntries ns

mutual

/-- The blocks for a namespace and those nested in it: the dotted name and what the block has. -/
def blockPlans (modules : Ordered.Set String) : Namespace → List (String × List Entry)
  | ⟨scope, nested⟩ =>
    if w.emitted.contains (w.nameOf scope.link) then
      (if modules.contains (w.nameOf scope.link) then
        [(w.nameOf scope.link, w.blockEntries ⟨scope, nested⟩)] else [])
        ++ blockPlansOf modules nested
    else []

/-- The blocks for the namespaces of a list. -/
def blockPlansOf (modules : Ordered.Set String) : List Namespace → List (String × List Entry)
  | [] => []
  | ns :: rest => blockPlans modules ns ++ blockPlansOf modules rest

end

/-- The plans of nested namespaces are gathered namespace by namespace. -/
theorem blockPlansOf_eq (modules : Ordered.Set String) (nested : List Namespace) :
    w.blockPlansOf modules nested = nested.flatMap (w.blockPlans modules) := by
  induction nested with
  | nil => rfl
  | cons ns rest ih => rw [blockPlansOf, ih, List.flatMap_cons]

/-- The block of a namespace, if it has one. -/
def ownPlan (modules : Ordered.Set String) (ns : Namespace) : List (String × List Entry) :=
  if modules.contains (w.nameOf.nameSpace ns) then
    [(w.nameOf.nameSpace ns, w.blockEntries ns)] else []

/-- A namespace that is written plans its own block and those of the namespaces nested in it; one
that is not plans none. -/
theorem blockPlans_eq (modules : Ordered.Set String) (ns : Namespace) :
    w.blockPlans modules ns = if w.emitted.contains (w.nameOf.nameSpace ns) then
      w.ownPlan modules ns ++ ns.nested.flatMap (w.blockPlans modules) else [] := by
  obtain ⟨scope, nested⟩ := ns
  rw [blockPlans, blockPlansOf_eq]
  rfl

variable {w}

/-- The nested namespaces that are interfaces are written as the entries of that name. -/
theorem writes_nestedInterfaces (ns : Namespace) :
    w.WritesEntries (w.nestedInterfaces ns) (List.map Item.outline)
      (w.nestedInterfaceEntries ns) := by
  have hlist (children : List Namespace) :
      w.WritesEntries (children.mapM fun child => w.nameSpaceInterface child.scope)
        (List.map Item.outline) (children.map fun child => .nameSpace child.scope) := by
    induction children with
    | nil => exact .of (.pure rfl) rfl
    | cons child rest ih =>
      rw [List.mapM_cons]
      refine .of (Writes.bind (writes_nameSpace child.scope) fun item hi =>
        Writes.bind ih fun items hs => .pure ?_) ?_
      · rw [List.map_cons, hs, List.map_cons, ← List.singleton_append, hi, ← outlines_append]
        rfl
      · rw [List.append_nil, ← warnings_append]
        rfl
  exact hlist _

/-- The name of a block and the outlines of its items. -/
def blockOutline (b : Block) : String × List Outline := (b.fqn, b.items.map Item.outline)

/-- Moving to a place writes nothing and warns of nothing. -/
theorem writes_moveTo (place : Reference.Place) : Writes (moveTo place) id () [] :=
  ⟨fun _ => rfl, fun _ => rfl⟩

/-- Reading the imports off a place writes nothing and warns of nothing. -/
theorem writes_importsHere : Writes importsHere (fun _ => ()) () [] where
  answer _ := rfl
  warnings page := by
    obtain ⟨place, warnings⟩ := page
    cases place <;> rfl

/-- The rest of a block, after its variables and functions. -/
theorem writes_blockRest (ns : Namespace) (lead : Option Lead) (values : List Item) :
    Writes (do
        let aggregates ← w.aggregates ns.scope
        let interfaces ← w.nestedInterfaces ns
        let imports ← importsHere
        moveTo .script
        return (⟨w.nameOf ns.scope.link, lead, imports,
          values ++ aggregates ++ interfaces⟩ : Block))
      blockOutline
      (w.nameOf ns.scope.link, values.map Item.outline
        ++ w.outlines (typeEntries ns.scope ++ w.nestedInterfaceEntries ns))
      (w.warnings (typeEntries ns.scope ++ w.nestedInterfaceEntries ns)) := by
  rw [warnings_append, ← List.append_nil (w.warnings (w.nestedInterfaceEntries ns))]
  refine Writes.bind (writes_aggregates ns.scope) fun aggregates ha =>
    Writes.bind (writes_nestedInterfaces ns) fun interfaces hi =>
    Writes.bind writes_importsHere fun imports _ =>
    Writes.bind (writes_moveTo .script) fun _ _ => .pure ?_
  simp only [blockOutline, List.map_append, ha, hi, outlines_append, List.append_assoc]

/-- The module block of a namespace has its name and the outlines of its entries. -/
theorem writes_moduleBlock (ns : Namespace) :
    Writes (w.moduleBlock (w.nameOf ns.scope.link) ns) blockOutline
      (w.nameOf ns.scope.link, w.outlines (w.blockEntries ns))
      (w.warnings (w.blockEntries ns)) := by
  unfold moduleBlock blockEntries
  dsimp only
  cases hinterface : w.isInterface (w.nameOf ns.scope.link) with
  | true => exact Writes.bind (writes_moveTo _) fun _ _ => writes_blockRest ns none []
  | false =>
    simp only [Bool.false_eq_true, if_false]
    rw [List.append_assoc, outlines_append, warnings_append,
      ← List.nil_append (w.warnings (valueEntries ns.scope)), List.append_assoc]
    refine Writes.bind (writes_moveTo _) fun _ _ =>
      Writes.bind (writes_values ns.scope) fun values hv => ?_
    rw [← hv]
    exact writes_blockRest ns _ values

/-- The names of planned blocks and the outlines of what they have. -/
def planOutlines (w : Writer) (plans : List (String × List Entry)) :
    List (String × List Outline) :=
  plans.map fun plan => (plan.1, w.outlines plan.2)

/-- An action writes the blocks that are planned. -/
def WritesBlocks (w : Writer) (m : Writing (List Block)) (plans : List (String × List Entry)) :
    Prop :=
  Writes m (List.map blockOutline) (w.planOutlines plans) (w.warnings (plans.flatMap Prod.snd))

/-- Blocks that are written one after the other. -/
theorem WritesBlocks.append {m n : Writing (List Block)} {plans more : List (String × List Entry)}
    (hm : w.WritesBlocks m plans) (hn : w.WritesBlocks n more) :
    w.WritesBlocks (m >>= fun first => n >>= fun rest => pure (first ++ rest)) (plans ++ more) := by
  rw [WritesBlocks, List.flatMap_append, warnings_append,
    ← List.append_nil (w.warnings (more.flatMap Prod.snd))]
  refine Writes.bind hm fun blocks hb => Writes.bind hn fun others ho => .pure ?_
  rw [List.map_append, hb, ho, planOutlines, planOutlines, planOutlines, List.map_append]

/-- If each nested namespace writes its blocks, all of them in a row write theirs. -/
theorem writes_nestedBlocks {modules : Ordered.Set String} {nested : List Namespace}
    (h : ∀ ns ∈ nested, w.WritesBlocks (w.blocks modules ns) (w.blockPlans modules ns)) :
    w.WritesBlocks (w.nestedBlocks modules nested) (w.blockPlansOf modules nested) := by
  induction nested with
  | nil => exact Writes.pure rfl
  | cons ns rest ih =>
    obtain ⟨hfirst, hrest⟩ := List.forall_mem_cons.mp h
    rw [nestedBlocks, blockPlansOf]
    exact hfirst.append (ih hrest)

/-- Writing the blocks of a namespace writes what is planned for them. -/
theorem writes_blocks (modules : Ordered.Set String) (ns : Namespace) :
    w.WritesBlocks (w.blocks modules ns) (w.blockPlans modules ns) := by
  induction ns using Namespace.induction with
  | step scope nested ih =>
    have hnested := writes_nestedBlocks ih
    have hblock : w.WritesBlocks (w.moduleBlock (w.nameOf scope.link) ⟨scope, nested⟩ >>=
        fun block => pure [block]) [(w.nameOf scope.link, w.blockEntries ⟨scope, nested⟩)] := by
      rw [WritesBlocks, List.flatMap_singleton, ← List.append_nil (w.warnings _)]
      exact Writes.bind (writes_moduleBlock ⟨scope, nested⟩) fun block hb =>
        .pure (congrArg List.singleton hb)
    rw [blocks, blockPlans]
    dsimp only
    cases w.emitted.contains (w.nameOf scope.link) with
    | false => exact Writes.pure rfl
    | true =>
      cases modules.contains (w.nameOf scope.link) with
      | false => exact hnested
      | true => exact hblock.append hnested

/-! ## Documents -/

/-- The outlines of the items of a document: at script level, and block by block. -/
def documentOutline (d : Document) : List Outline × List (String × List Outline) :=
  (treeOutlines d.script, d.blocks.map blockOutline)

/-- The outlines of a document's items are those of its script part, then those of its blocks. -/
theorem map_outline_items (d : Document) :
    d.items.map Item.outline
      = (documentOutline d).1 ++ (documentOutline d).2.flatMap Prod.snd := by
  rw [Document.items, List.map_append, List.map_flatMap, documentOutline, List.flatMap_map]
  rfl

variable (w)

/-- What a document has at script level, and block by block. -/
def documentPlan (flavor : Flavor) (modules : Ordered.Set String) (top : Namespace) :
    List Entry × List (String × List Entry) :=
  let own := valueEntries top.scope ++ typeEntries top.scope
  match flavor with
  | .globals => (own ++ w.treeEntriesOf top.nested, [])
  | .modules => (own ++ w.nestedInterfaceEntries top, w.blockPlansOf modules top.nested)

/-- Everything a document has. -/
def entries (flavor : Flavor) (modules : Ordered.Set String) (top : Namespace) : List Entry :=
  (w.documentPlan flavor modules top).1 ++ (w.documentPlan flavor modules top).2.flatMap Prod.snd

/-- In the global tree the entries are the values and the types of the top level and the trees
below. -/
theorem entries_globals (modules : Ordered.Set String) (top : Namespace) :
    w.entries .globals modules top
      = valueEntries top.scope ++ typeEntries top.scope ++ top.nested.flatMap w.treeEntries := by
  rw [← treeEntriesOf_eq]
  exact List.append_nil _

/-- In modules the entries are the values, the types and the nested interfaces of the top level,
then those of the planned blocks. -/
theorem entries_modules (modules : Ordered.Set String) (top : Namespace) :
    w.entries .modules modules top
      = valueEntries top.scope ++ typeEntries top.scope ++ w.nestedInterfaceEntries top
        ++ top.nested.flatMap fun child => (w.blockPlans modules child).flatMap Prod.snd := by
  rw [← List.flatMap_assoc, ← blockPlansOf_eq]
  rfl

variable {w}

/-- The global tree is written as the values, the types and the nested namespaces of the top level.
-/
theorem writes_globalTree (top : Namespace) :
    w.WritesEntries (w.globalTree top) treeOutlines
      (valueEntries top.scope ++ typeEntries top.scope ++ w.treeEntriesOf top.nested) := by
  have hnested := writes_globalNamespaces fun ns (_ : ns ∈ top.nested) =>
    writes_globalNamespace (w := w) ns
  refine .of (Writes.bind (writes_values top.scope) fun values hv =>
    Writes.bind (writes_aggregates top.scope) fun aggregates ha =>
    Writes.bind hnested fun inner hi => .pure ?_) ?_
  · rw [treeOutlines_append, treeOutlines_map_item, List.map_append, hv, ha, hi, outlines_append,
      outlines_append]
  · rw [List.append_nil, warnings_append, warnings_append, List.append_assoc]

/-- The script part of the modules is written as the values, the types and the nested interfaces of
the top level. -/
theorem writes_scriptItems (top : Namespace) :
    w.WritesEntries (w.scriptItems top) (List.map Item.outline)
      (valueEntries top.scope ++ typeEntries top.scope ++ w.nestedInterfaceEntries top) := by
  refine .of (Writes.bind (writes_values top.scope) fun values hv =>
    Writes.bind (writes_aggregates top.scope) fun aggregates ha =>
    Writes.bind (writes_nestedInterfaces top) fun interfaces hi => .pure ?_) ?_
  · rw [List.map_append, List.map_append, hv, ha, hi, outlines_append, outlines_append]
  · rw [List.append_nil, warnings_append, warnings_append, List.append_assoc]

/-- Writing a document writes what is planned for it. -/
theorem writes_document (flavor : Flavor) (modules : Ordered.Set String) (top : Namespace) :
    Writes (w.document flavor modules top) documentOutline
      (w.outlines (w.documentPlan flavor modules top).1,
        w.planOutlines (w.documentPlan flavor modules top).2)
      (w.warnings (w.entries flavor modules top)) := by
  have hblocks := writes_nestedBlocks fun ns (_ : ns ∈ top.nested) =>
    writes_blocks (w := w) modules ns
  cases flavor with
  | globals =>
    rw [entries, warnings_append]
    exact Writes.bind (writes_globalTree top) fun trees ht => .pure (Prod.ext ht rfl)
  | modules =>
    rw [entries, warnings_append, ← List.append_nil (w.warnings ((documentPlan ..).2.flatMap _))]
    refine Writes.bind (writes_scriptItems top) fun script hs =>
      Writes.bind hblocks fun blocks hb => .pure (Prod.ext ?_ hb)
    rw [documentOutline, treeOutlines_map_item]
    exact hs

end Writer

/-! ## Emission -/

section Emission

open Writer

variable (library : String) (table : Symbol.Table) (d : Directives) (flavor : Flavor)
  (nameOf : Naming) (top : Namespace)

/-- What is emitted is what is planned for the document. -/
theorem documentOutline_emitNamed :
    let plan := Plan.of d nameOf top
    let w := writerFor library table d nameOf plan
    documentOutline (emitNamed library table d flavor nameOf top).document
      = (w.outlines (w.documentPlan flavor plan.modules top).1,
        w.planOutlines (w.documentPlan flavor plan.modules top).2) := by
  intro plan w
  exact (writes_document flavor plan.modules top).answer _

/-- The document that comes out has the outlines and the warnings of the plan, in its order. -/
theorem map_outline_emitNamed :
    let plan := Plan.of d nameOf top
    let w := writerFor library table d nameOf plan
    (emitNamed library table d flavor nameOf top).document.items.map Item.outline
      = w.outlines (w.entries flavor plan.modules top) := by
  intro plan w
  rw [map_outline_items, documentOutline_emitNamed, entries, outlines_append,
    planOutlines, List.flatMap_map]
  refine congrArg (HAppend.hAppend _) ?_
  rw [outlines, List.filterMap_flatMap]
  rfl

/-- The warnings of an emission are those of the plan, and then those about what is written. -/
theorem warnings_emitNamed :
    let plan := Plan.of d nameOf top
    let w := writerFor library table d nameOf plan
    (emitNamed library table d flavor nameOf top).warnings
      = ((Ordered.Set.ofList plan.warnings).insertAll
          (w.warnings (w.entries flavor plan.modules top))).toList := by
  intro plan w
  exact congrArg Ordered.Set.toList
    ((writes_document flavor plan.modules top).warnings ⟨startingPlace flavor, _⟩)

end Emission

end Ambient.Declaration
