import Ambient.Declaration.Render

/-!
# The lines of a document

The text of a document is its lines, one after another. The lines of every item stand together among
them, at the depth of the blocks around the item, and one of them has the word for what the item is
and the name of the item behind it. So what is known of the items of a document can be read in its
text.
-/

namespace Ambient.Declaration

/-- The text of lines is the text of the first ones and then that of the others. -/
theorem Line.join_append (lines more : List Line) :
    join (lines ++ more) = join lines ++ join more := by
  simp [join]

/-- The lines of the text of a document. -/
def Document.lines (d : Document) : List Line :=
  let body := Tree.linesOf 0 d.script ++ d.blocks.flatMap Block.lines
  if d.registry.isEmpty then body
  else body ++ (if needsGap (Line.join body) then [⟨0, ""⟩] else []) ++ registryLines d.registry

/-- The text of a document is that of its lines; the gap before the registry is one of them. -/
theorem Document.text_eq_join (d : Document) : d.text = Line.join d.lines := by
  rw [text, lines]
  split
  · rfl
  · rw [Line.join_append, Line.join_append]
    split <;> simp [Line.join, Line.written, String.append_assoc]

/-- The lines of a document begin with those of its declarations; the registry is behind them. -/
theorem Document.isPrefix_lines (d : Document) :
    Tree.linesOf 0 d.script ++ d.blocks.flatMap Block.lines <+: d.lines := by
  rw [lines]
  split
  · exact List.prefix_rfl
  · rw [List.append_assoc]
    exact List.prefix_append _ _

/-! ## The line of a name -/

/-- The word in front of the name of a class, interface or enum. -/
def Header.word : Header → String
  | .classType isAbstract _ _ => if isAbstract then "abstract class " else "class "
  | .interfaceType _ | .nameSpace _ => "interface "
  | .enumType => "enum "

/-- The word in front of the name of an item. -/
def Item.word : Item → String
  | .constant _ _ => "const "
  | .function _ _ => "function "
  | .aggregate _ header _ => header.word

/-- A header begins with its word and the name. -/
theorem Header.exists_text (header : Header) (name : String) :
    ∃ rest, header.text name = header.word ++ name ++ rest := by
  cases header with
  | classType isAbstract base implemented =>
    refine ⟨clause "extends" base.toList ++ clause "implements" implemented, ?_⟩
    cases isAbstract <;> simp [text, word, String.append_assoc]
  | interfaceType bases => exact ⟨clause "extends" bases, rfl⟩
  | enumType => exact ⟨"", String.append_empty.symm⟩
  | nameSpace isBare => exact ⟨"", String.append_empty.symm⟩

/-- An item has a line in which its name follows the word for what it is. -/
theorem Item.exists_line (depth : Nat) (item : Item) :
    ∃ rest, ⟨depth, exposure depth ++ item.word ++ item.head.name ++ rest⟩ ∈ item.lines depth := by
  cases item with
  | constant head type =>
    refine ⟨": " ++ type ++ ";", List.mem_append_right _ (List.mem_singleton.mpr ?_)⟩
    simp [word, Item.head, String.append_assoc]
  | function head signature =>
    refine ⟨signature.text ++ ";", List.mem_append_right _ (List.mem_singleton.mpr ?_)⟩
    simp [word, Item.head, String.append_assoc]
  | aggregate head header members =>
    obtain ⟨rest, htext⟩ := header.exists_text head.name
    rw [lines, htext]
    cases header.isBare with
    | true =>
      refine ⟨rest ++ " \x7b\x7d", List.mem_append_right _ (List.mem_singleton.mpr ?_)⟩
      simp [word, Item.head, String.append_assoc]
    | false =>
      refine ⟨rest ++ " \x7b", List.mem_append_right _ (List.mem_cons.mpr (.inl ?_))⟩
      simp [word, Item.head, String.append_assoc]

/-! ## The lines of an item -/

/-- A document lays an item out if the lines of the item stand together among its own, with the
word for what the item is and its name on one of them. -/
def Document.LaysOut (d : Document) (item : Item) : Prop :=
  ∃ depth rest, item.lines depth <:+: d.lines ∧
    ⟨depth, exposure depth ++ item.word ++ item.head.name ++ rest⟩ ∈ item.lines depth

mutual

/-- The lines of an item in a tree stand together in the tree. -/
theorem Tree.exists_isInfix_lines {item : Item} :
    ∀ (tree : Tree) (depth : Nat), item ∈ tree.items →
      ∃ inner, item.lines inner <:+: tree.lines depth
  | .item only, depth, h => by
    obtain rfl := List.mem_singleton.mp h
    exact ⟨depth, List.infix_rfl⟩
  | .block name lead body, depth, h => by
    obtain ⟨inner, hbody⟩ := Tree.exists_isInfix_linesOf body (depth + 1) h
    refine ⟨inner, hbody.trans ?_⟩
    rw [Tree.lines]
    exact ((List.suffix_cons _ _).isInfix.trans (List.suffix_append _ _).isInfix).trans
      (List.prefix_append _ _).isInfix

/-- The lines of an item in a list of trees stand together in the list. -/
theorem Tree.exists_isInfix_linesOf {item : Item} :
    ∀ (trees : List Tree) (depth : Nat), item ∈ Tree.itemsOf trees →
      ∃ inner, item.lines inner <:+: Tree.linesOf depth trees
  | [], _, h => nomatch h
  | tree :: rest, depth, h => by
    rw [Tree.linesOf]
    obtain hfirst | hrest := List.mem_append.mp h
    · obtain ⟨inner, hlines⟩ := Tree.exists_isInfix_lines tree depth hfirst
      exact ⟨inner, hlines.trans (List.prefix_append _ _).isInfix⟩
    · obtain ⟨inner, hlines⟩ := Tree.exists_isInfix_linesOf rest depth hrest
      exact ⟨inner, hlines.trans (List.suffix_append _ _).isInfix⟩

end

/-- What one element of a list is made into stands together in what the list is made into. -/
theorem isInfix_flatMap {α β : Type} {f : α → List β} {a : α} {list : List α} (h : a ∈ list) :
    f a <:+: list.flatMap f :=
  List.infix_of_mem_flatten (List.mem_map_of_mem h)

/-- The lines of an item in a module block stand together in the block, one level deep. -/
theorem Block.isInfix_lines {item : Item} {b : Block} (h : item ∈ b.items) :
    item.lines 1 <:+: b.lines := by
  rw [Block.lines]
  exact ((isInfix_flatMap h).trans (List.suffix_append _ _).isInfix).trans
    (List.prefix_append _ _).isInfix

/-- A document lays out its items. -/
theorem Document.laysOut_of_mem {d : Document} {item : Item} (h : item ∈ d.items) :
    d.LaysOut item := by
  have hbody : ∃ depth, item.lines depth
      <:+: Tree.linesOf 0 d.script ++ d.blocks.flatMap Block.lines := by
    obtain hscript | hblocks := List.mem_append.mp h
    · obtain ⟨depth, hlines⟩ := Tree.exists_isInfix_linesOf d.script 0 hscript
      exact ⟨depth, hlines.trans (List.prefix_append _ _).isInfix⟩
    · obtain ⟨b, hb, hitem⟩ := List.mem_flatMap.mp hblocks
      exact ⟨1, ((Block.isInfix_lines hitem).trans (isInfix_flatMap hb)).trans
        (List.suffix_append _ _).isInfix⟩
  obtain ⟨depth, hlines⟩ := hbody
  obtain ⟨rest, hname⟩ := item.exists_line depth
  exact ⟨depth, rest, hlines.trans d.isPrefix_lines.isInfix, hname⟩

end Ambient.Declaration
