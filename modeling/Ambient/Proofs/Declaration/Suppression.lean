import Ambient.Proofs.Comment
import Ambient.Proofs.Declaration.Answers
import Ambient.Proofs.Declaration.Lines
import Ambient.Proofs.Declaration.Registry
import Ambient.Proofs.Declaration.Resolution
import Ambient.Proofs.SourceText

/-!
# Suppressed declarations

The reason why the complaints about a declaration are suppressed stands in a comment between the
documentation of the declaration and the line that declares it. Such a comment goes to the end of
its line, and the reason is free text that is written as it is: so its first line is in the comment,
and every further one is a line of its own between the comment and the declaration.
-/

namespace Ambient

namespace Declaration

open Api
open Text (endsLine endedLines isOneLine)

/-! ## What stands on the lines of a document -/

/-- A declaration with what is above it, or a line that declares nothing. -/
inductive Piece where
  | declared (head : Head) (line : Line)
  | plain (line : Line)
deriving DecidableEq

namespace Piece

/-- The lines of a piece. -/
def lines : Piece → List Line
  | .declared head line => head.lead.lines line.depth ++ [line]
  | .plain line => [line]

/-- The head of the declaration that a piece is. -/
def head? : Piece → Option Head
  | .declared head _ => some head
  | .plain _ => none

/-- Lines that declare nothing. -/
def plains (lines : List Line) : List Piece := lines.map .plain

/-- The lines of pieces. -/
def linesOf (pieces : List Piece) : List Line := pieces.flatMap lines

/-- The heads of the declarations among pieces. -/
def headsOf (pieces : List Piece) : List Head := pieces.filterMap head?

variable (pieces more : List Piece) (piece : Piece) (own : List Line)

/-- No pieces have no lines. -/
@[simp]
theorem linesOf_nil : linesOf [] = [] := rfl

/-- The lines of pieces begin with those of the first one. -/
@[simp]
theorem linesOf_cons : linesOf (piece :: pieces) = piece.lines ++ linesOf pieces := rfl

/-- The lines of pieces are those of the first ones and then those of the others. -/
@[simp]
theorem linesOf_append : linesOf (pieces ++ more) = linesOf pieces ++ linesOf more :=
  List.flatMap_append

/-- Lines that declare nothing are pieces with just these lines. -/
@[simp]
theorem linesOf_plains : linesOf (plains own) = own := by
  rw [linesOf, plains, List.flatMap_map]
  exact List.flatMap_singleton' own

/-- The heads of pieces are those of the first ones and then those of the others. -/
@[simp]
theorem headsOf_append : headsOf (pieces ++ more) = headsOf pieces ++ headsOf more :=
  List.filterMap_append

/-- Lines that declare nothing have no heads. -/
@[simp]
theorem headsOf_plains : headsOf (plains own) = [] := by
  rw [headsOf, plains, List.filterMap_map]
  exact List.filterMap_eq_nil_iff.mpr fun _ _ => rfl

end Piece

/-- A member as a piece. -/
def Member.piece (depth : Nat) (m : Member) : Piece := .declared m.head ⟨depth, m.text⟩

/-- The pieces of an item: its declaration, its members, and the brace behind them. -/
def Item.pieces (depth : Nat) : Item → List Piece
  | .constant head type =>
    [.declared head ⟨depth, exposure depth ++ "const " ++ head.name ++ ": " ++ type ++ ";"⟩]
  | .function head signature =>
    [.declared head ⟨depth, exposure depth ++ "function " ++ head.name ++ signature.text ++ ";"⟩]
  | .aggregate head header members =>
    let first := exposure depth ++ header.text head.name
    if header.isBare then [.declared head ⟨depth, first ++ " \x7b\x7d"⟩]
    else
      .declared head ⟨depth, first ++ " \x7b"⟩ :: members.map (Member.piece (depth + 1))
        ++ Piece.plains [⟨depth, "\x7d"⟩]

mutual

/-- The pieces of a tree. What opens and closes a block declares nothing. -/
def Tree.pieces (depth : Nat) : Tree → List Piece
  | .item only => only.pieces depth
  | .block name lead body =>
    Piece.plains ((lead.map (Lead.lines depth)).getD []
        ++ [⟨depth, exposure depth ++ "namespace " ++ name ++ " \x7b"⟩])
      ++ Tree.piecesOf (depth + 1) body ++ Piece.plains [⟨depth, "\x7d"⟩]

/-- The pieces of a list of trees. -/
def Tree.piecesOf (depth : Nat) : List Tree → List Piece
  | [] => []
  | tree :: rest => tree.pieces depth ++ Tree.piecesOf depth rest

end

/-- The pieces of a module block. -/
def Block.pieces (b : Block) : List Piece :=
  Piece.plains ((b.lead.map (Lead.lines 0)).getD []
      ++ ⟨0, "declare module \x22" ++ Reference.modulePath b.fqn ++ "\x22 \x7b"⟩
        :: importLines b.imports)
    ++ b.items.flatMap (Item.pieces 1) ++ Piece.plains (Line.leveled 0 ["\x7d", ""])

/-- The pieces of a document in front of its registry. -/
def Document.pieces (d : Document) : List Piece :=
  Tree.piecesOf 0 d.script ++ d.blocks.flatMap Block.pieces

/-- The heads of an item and its members. -/
def Item.heads : Item → List Head
  | .constant head _ => [head]
  | .function head _ => [head]
  | .aggregate head _ members => head :: members.map Member.head

/-- The pieces of an item have the lines of the item. -/
theorem Item.linesOf_pieces (depth : Nat) (item : Item) :
    Piece.linesOf (item.pieces depth) = item.lines depth := by
  cases item with
  | constant head type => simp [pieces, lines, Piece.lines]
  | function head signature => simp [pieces, lines, Piece.lines]
  | aggregate head header members =>
    have hmembers : Piece.linesOf (members.map (Member.piece (depth + 1)))
        = members.flatMap (Member.lines (depth + 1)) := List.flatMap_map ..
    rw [pieces, lines]
    split
    · simp [Piece.lines]
    · simp [Piece.lines, hmembers]

/-- The pieces of items have the lines of the items, one item after another. -/
theorem linesOf_flatMap_item (depth : Nat) (items : List Item) :
    Piece.linesOf (items.flatMap (Item.pieces depth)) = items.flatMap (Item.lines depth) := by
  rw [Piece.linesOf, List.flatMap_assoc]
  exact List.flatMap_congr fun item _ => item.linesOf_pieces depth

mutual

/-- The pieces of a tree have the lines of the tree. -/
theorem Tree.linesOf_pieces (depth : Nat) :
    ∀ tree : Tree, Piece.linesOf (tree.pieces depth) = tree.lines depth
  | .item only => by
    rw [Tree.pieces, Tree.lines]
    exact only.linesOf_pieces depth
  | .block name lead body => by
    have hbody := Tree.linesOf_piecesOf (depth + 1) body
    rw [Tree.pieces, Tree.lines]
    simp [hbody]

/-- The pieces of a list of trees have the lines of the list. -/
theorem Tree.linesOf_piecesOf (depth : Nat) :
    ∀ trees : List Tree, Piece.linesOf (Tree.piecesOf depth trees) = Tree.linesOf depth trees
  | [] => rfl
  | tree :: rest => by
    rw [Tree.piecesOf, Tree.linesOf, Piece.linesOf_append, Tree.linesOf_pieces depth tree,
      Tree.linesOf_piecesOf depth rest]

end

/-- The pieces of a module block have the lines of the block. -/
theorem Block.linesOf_pieces (b : Block) : Piece.linesOf b.pieces = b.lines := by
  simp [pieces, lines, linesOf_flatMap_item]

/-- The pieces of a document have all its lines but those of the registry. -/
theorem Document.linesOf_pieces (d : Document) :
    Piece.linesOf d.pieces = Tree.linesOf 0 d.script ++ d.blocks.flatMap Block.lines := by
  have hblocks : Piece.linesOf (d.blocks.flatMap Block.pieces) = d.blocks.flatMap Block.lines := by
    rw [Piece.linesOf, List.flatMap_assoc]
    exact List.flatMap_congr fun b _ => b.linesOf_pieces
  rw [pieces, Piece.linesOf_append, Tree.linesOf_piecesOf, hblocks]

/-! ### Heads -/

/-- A body that is not written has no members. -/
def Item.IsWhole : Item → Prop
  | .aggregate _ header members => header.isBare = true → members = []
  | .constant .. => True
  | .function .. => True

/-- An item that is written as a whole has its own head and those of its members. -/
theorem Item.IsWhole.headsOf_pieces {item : Item} (h : item.IsWhole) (depth : Nat) :
    Piece.headsOf (item.pieces depth) = item.heads := by
  cases item with
  | constant head type => rfl
  | function head signature => rfl
  | aggregate head header members =>
    have hmembers : Piece.headsOf (members.map (Member.piece (depth + 1)))
        = members.map Member.head := by
      rw [Piece.headsOf, List.filterMap_map]
      exact congrFun (List.filterMap_eq_map (f := Member.head)) members
    rw [pieces, heads]
    split
    · next hbare =>
      rw [h hbare]
      rfl
    · rw [Piece.headsOf_append, Piece.headsOf_plains, List.append_nil, ← hmembers]
      rfl

/-- The heads on the lines of items are those of the items and their members. -/
theorem headsOf_flatMap_item {items : List Item} (h : ∀ item ∈ items, item.IsWhole) (depth : Nat) :
    Piece.headsOf (items.flatMap (Item.pieces depth)) = items.flatMap Item.heads := by
  rw [Piece.headsOf, List.filterMap_flatMap]
  exact List.flatMap_congr fun item hitem => (h item hitem).headsOf_pieces depth

mutual

/-- The heads on the lines of a tree are those of its items. -/
theorem Tree.headsOf_pieces (depth : Nat) : ∀ tree : Tree, (∀ item ∈ tree.items, item.IsWhole) →
    Piece.headsOf (tree.pieces depth) = tree.items.flatMap Item.heads
  | .item only, h => by
    have hwhole : only.IsWhole := h only (by simp [Tree.items])
    rw [Tree.pieces, Tree.items, hwhole.headsOf_pieces, List.flatMap_singleton]
  | .block name lead body, h => by
    have hbody := Tree.headsOf_piecesOf (depth + 1) body h
    rw [Tree.pieces, Tree.items, Piece.headsOf_append, Piece.headsOf_append, hbody]
    simp

/-- The heads on the lines of a list of trees are those of its items. -/
theorem Tree.headsOf_piecesOf (depth : Nat) : ∀ trees : List Tree,
    (∀ item ∈ Tree.itemsOf trees, item.IsWhole) →
    Piece.headsOf (Tree.piecesOf depth trees) = (Tree.itemsOf trees).flatMap Item.heads
  | [], _ => rfl
  | tree :: rest, h => by
    rw [Tree.itemsOf, List.forall_mem_append] at h
    rw [Tree.piecesOf, Tree.itemsOf, Piece.headsOf_append, List.flatMap_append,
      Tree.headsOf_pieces depth tree h.1, Tree.headsOf_piecesOf depth rest h.2]

end

/-- The declarations on the lines of a document are its items and their members. -/
theorem Document.headsOf_pieces {d : Document} (h : ∀ item ∈ d.items, item.IsWhole) :
    Piece.headsOf d.pieces = d.items.flatMap Item.heads := by
  rw [items, List.forall_mem_append] at h
  have hblock : ∀ b ∈ d.blocks, Piece.headsOf b.pieces = b.items.flatMap Item.heads := by
    intro b hb
    have hitems : ∀ item ∈ b.items, item.IsWhole := fun item hitem =>
      h.2 item (List.mem_flatMap.mpr ⟨b, hb, hitem⟩)
    rw [Block.pieces, Piece.headsOf_append, Piece.headsOf_append, headsOf_flatMap_item hitems]
    simp
  rw [pieces, items, Piece.headsOf_append, List.flatMap_append, Tree.headsOf_piecesOf 0 _ h.1,
    List.flatMap_assoc, Piece.headsOf, List.filterMap_flatMap]
  exact congrArg _ (List.flatMap_congr hblock)

/-! ## Reasons -/

/-- The reason above a declaration is the one that the directives have for its dotted name. -/
def Head.Suppresses (d : Directives) (head : Head) : Prop :=
  head.lead.suppression = d.suppression? head.fqn

/-- An item is written as a whole, it and its members with the reasons for their dotted names. -/
def Item.Suppresses (d : Directives) (item : Item) : Prop :=
  item.IsWhole ∧ ∀ head ∈ item.heads, head.Suppresses d

namespace Writer

variable (w : Writer)

/-- A head without parameters has the reason for its dotted name. -/
theorem suppresses_headOf (fqn name : String) (doc : Doc) :
    (w.headOf fqn name doc).Suppresses w.directives := rfl

/-- The head of a function has the reason for its dotted name. -/
theorem suppresses_functionHead (fqn : String) (f : Function) :
    (w.functionHead fqn f).Suppresses w.directives := rfl

/-- A member has the reason for its dotted name, however it is written. -/
theorem answers_construct (f : Function) : Answers (w.construct f) fun answer =>
    ∀ m ∈ answer, m.head.Suppresses w.directives :=
  Answers.kept (m := w.constructorSignature f >>= fun signature =>
    Pure.pure (⟨w.functionHead (w.nameOf f.link) f, .construct signature⟩ : Member))
    (.seq fun _ => .pure (w.suppresses_functionHead _ f))

/-- A field or property has the reason for its dotted name, however it is written. -/
theorem answers_property (v : Variable) : Answers (w.property v) fun answer =>
    ∀ m ∈ answer, m.head.Suppresses w.directives :=
  Answers.kept (m := _ >>= fun type =>
    Pure.pure (⟨w.headOf (w.nameOf v.link) v.name v.doc, .property v.isStatic type⟩ : Member))
    (.seq fun _ => .pure (w.suppresses_headOf _ v.name v.doc))

/-- A function as a member has the reason for its dotted name. -/
theorem answers_memberFunction (fqn : String) (f : Function) :
    Answers (w.memberFunction fqn f) fun m => m.head.Suppresses w.directives :=
  .seq fun _ => .pure (w.suppresses_functionHead fqn f)

/-- A method has the reason for its dotted name, however it is written. -/
theorem answers_method (f : Function) : Answers (w.method f) fun answer =>
    ∀ m ∈ answer, m.head.Suppresses w.directives :=
  .kept (w.answers_memberFunction _ f)

/-- A function of a namespace as a method has the reason for its dotted name. -/
theorem answers_nameSpaceMethod (f : Function) : Answers (w.nameSpaceMethod f) fun answer =>
    ∀ m ∈ answer, m.head.Suppresses w.directives :=
  .kept (w.answers_memberFunction _ f)

/-- A value of an enum has the reason for its dotted name, however it is written. -/
theorem answers_enumValue (v : Variable) : Answers (w.enumValue v) fun answer =>
    ∀ m ∈ answer, m.head.Suppresses w.directives :=
  Answers.kept (m := Pure.pure (⟨w.headOf (w.nameOf v.link) v.name v.doc, .value⟩ : Member))
    (.pure (w.suppresses_headOf _ v.name v.doc))

end Writer

/-- An aggregate has its reasons if its head and all its members have theirs, and a body that is not
written has no members. -/
theorem Item.suppresses_aggregate {d : Directives} {head : Head} {header : Header}
    {members : List Member} (hhead : head.Suppresses d)
    (hbare : header.isBare = true → members = [])
    (hmembers : ∀ m ∈ members, m.head.Suppresses d) :
    (Item.aggregate head header members).Suppresses d :=
  ⟨hbare, List.forall_mem_cons.mpr ⟨hhead, List.forall_mem_map.mpr hmembers⟩⟩

namespace Writer

variable (w : Writer)

/-- A variable of a namespace has the reason for its dotted name. -/
theorem answers_constant (v : Variable) : Answers (w.constant v) fun answer =>
    ∀ item ∈ answer, item.Suppresses w.directives :=
  Answers.kept (m := TypeExpr.writeOptional w.toResolver v.type >>= fun type =>
    Pure.pure (Item.constant (w.headOf (w.nameOf v.link) v.name v.doc) type))
    (.seq fun _ => .pure ⟨trivial, List.forall_mem_singleton.mpr (w.suppresses_headOf ..)⟩)

/-- A function of a namespace has the reason for its dotted name. -/
theorem answers_function (f : Function) : Answers (w.function f) fun answer =>
    ∀ item ∈ answer, item.Suppresses w.directives :=
  Answers.kept (m := w.signature f >>= fun signature =>
    Pure.pure (Item.function (w.functionHead (w.nameOf f.link) f) signature))
    (.seq fun _ => .pure ⟨trivial, List.forall_mem_singleton.mpr (w.suppresses_functionHead ..)⟩)

/-- A class and its members have the reasons for their dotted names. -/
theorem answers_classType (c : Api.Class) : Answers (w.classType c) fun answer =>
    ∀ item ∈ answer, item.Suppresses w.directives := by
  unfold classType
  dsimp only
  split
  · exact .pure (by simp)
  cases c.base
  all_goals
    refine .seq fun base => .seq fun interfaces =>
      (Answers.writeSome w.answers_construct c.constructors).bind fun constructors hconstructors =>
      (Answers.writeSome w.answers_property c.fields).bind fun fields hfields =>
      (Answers.writeSome w.answers_method c.methods).bind fun methods hmethods => .pure ?_
    rintro item ⟨⟩
    exact Item.suppresses_aggregate (w.suppresses_headOf ..) nofun
      (List.forall_mem_append.mpr ⟨List.forall_mem_append.mpr ⟨hconstructors, hfields⟩, hmethods⟩)

/-- An interface and its members have the reasons for their dotted names. -/
theorem answers_interfaceType (i : Interface) : Answers (w.interfaceType i) fun answer =>
    ∀ item ∈ answer, item.Suppresses w.directives := by
  unfold interfaceType
  dsimp only
  split
  · exact .pure (by simp)
  refine .seq fun bases =>
    (Answers.writeSome w.answers_property i.properties).bind fun properties hproperties =>
    (Answers.writeSome w.answers_method i.methods).bind fun methods hmethods => .pure ?_
  rintro item ⟨⟩
  exact Item.suppresses_aggregate (w.suppresses_headOf ..) nofun
    (List.forall_mem_append.mpr ⟨hproperties, hmethods⟩)

/-- An enum and its values have the reasons for their dotted names. -/
theorem answers_enumType (e : Enum) : Answers (w.enumType e) fun answer =>
    ∀ item ∈ answer, item.Suppresses w.directives := by
  unfold enumType
  dsimp only
  split
  · exact .pure (by simp)
  refine (Answers.writeSome w.answers_enumValue e.values).bind fun values hvalues => .pure ?_
  rintro item ⟨⟩
  exact Item.suppresses_aggregate (w.suppresses_headOf ..) nofun hvalues

/-- The interface made from a namespace has its body on the line of its header only if there is
nothing to be written into the body. -/
theorem answers_nameSpaceInterface (s : Scope) :
    Answers (w.nameSpaceInterface s) fun item => item.Suppresses w.directives := by
  refine ((Answers.writeSome w.answers_property s.constants).and (.writeSome_nil _ _)).bind
    fun properties hproperties =>
    ((Answers.writeSome w.answers_nameSpaceMethod s.functions).and (.writeSome_nil _ _)).bind
    fun methods hmethods => .pure ?_
  refine Item.suppresses_aggregate (w.suppresses_headOf ..) (fun hbare => ?_)
    (List.forall_mem_append.mpr ⟨hproperties.1, hmethods.1⟩)
  rw [Header.isBare, Bool.and_eq_true, List.isEmpty_iff, List.isEmpty_iff] at hbare
  rw [hproperties.2 hbare.1, hmethods.2 hbare.2, List.append_nil]

/-- Whatever is written for an entry has the reasons for its dotted names. -/
theorem answers_write (entry : Entry) : Answers (w.write entry) fun answer =>
    ∀ item ∈ answer, item.Suppresses w.directives := by
  cases entry with
  | constant v => exact w.answers_constant v
  | function f => exact w.answers_function f
  | aggregate n =>
    cases n with
    | classType c => exact w.answers_classType c
    | interfaceType i => exact w.answers_interfaceType i
    | enumType e => exact w.answers_enumType e
  | nameSpace s =>
    refine (w.answers_nameSpaceInterface s).bind fun item hitem => .pure ?_
    rintro _ ⟨⟩
    exact hitem

end Writer

/-! ## Comments with reasons -/

/-- How a comment with a reason starts. -/
def suppressionStart : String := "// @ts-ignore: "

/-- A reason is written behind the documentation of a declaration, as it is. -/
theorem Lead.lines_of_suppression {lead : Lead} {reason : String}
    (h : lead.suppression = some reason) (depth : Nat) :
    lead.lines depth = Line.leveled depth lead.comment.lines
      ++ [⟨depth, suppressionStart ++ reason⟩] := by
  rw [lines, h, Line.leveled, List.map_append]
  rfl

/-- Written lines end in a line feed, if there are any. -/
theorem Line.join_eq (lines : List Line) :
    join lines = "" ∨ ∃ front, join lines = front ++ "\n" := by
  induction lines using List.reverseRecOn with
  | nil => exact .inl rfl
  | append_singleton front last _ =>
    refine .inr ?_
    rw [join_append]
    by_cases hlast : last.text.isEmpty
    · exact ⟨join front, by simp [join, written, hlast]⟩
    · exact ⟨join front ++ margin last.depth ++ last.text, by
        simp [join, written, hlast, String.append_assoc]⟩

/-- A line with text is written behind its margin. -/
theorem Line.written_of_ne {line : Line} (h : line.text ≠ "") :
    line.written = margin line.depth ++ line.text ++ "\n" := by
  simp [written, h]

/-- A comment with a reason is never empty, even if the reason is. -/
theorem suppressionStart_append_ne (reason : String) : suppressionStart ++ reason ≠ "" := by
  intro h
  have hempty := congrArg String.toList h
  simp [suppressionStart] at hempty

/-- In front of a comment with a reason, nothing ends the line. -/
theorem endsLine_margin (depth : Nat) :
    ∀ c ∈ (Line.margin depth ++ suppressionStart).toList, endsLine c = false := by
  intro c hc
  rw [String.toList_append, List.mem_append, Line.margin, String.toList_ofList] at hc
  obtain hblank | hstart := hc
  · rw [List.eq_of_mem_replicate hblank]
    rfl
  · have hall : suppressionStart.toList.all (fun c => !endsLine c) = true := by decide
    simpa using List.all_eq_true.mp hall c hstart

/-- The text above the comment with the reason for a declaration: what comes before the declaration,
and its documentation. -/
def Document.above (before : List Piece) (head : Head) (line : Line) : String :=
  Line.join (Piece.linesOf before ++ Line.leveled line.depth head.lead.comment.lines)

/-- The comment with a reason at a depth of nesting. -/
def suppressionLine (depth : Nat) (reason : String) : String :=
  Line.margin depth ++ suppressionStart ++ reason ++ "\n"

/-- Between what comes before a declaration and the line that declares it stand its documentation
and the comment with the reason. -/
theorem Document.exists_text_eq {document : Document} {before after : List Piece} {head : Head}
    {line : Line} {reason : String} (h : document.pieces = before ++ .declared head line :: after)
    (hreason : head.lead.suppression = some reason) :
    ∃ rest, document.text
      = above before head line ++ suppressionLine line.depth reason ++ line.written ++ rest := by
  obtain ⟨gap, -, htext⟩ := document.text_eq
  have hlines : Tree.linesOf 0 document.script ++ document.blocks.flatMap Block.lines
      = Piece.linesOf before ++ Line.leveled line.depth head.lead.comment.lines
        ++ [⟨line.depth, suppressionStart ++ reason⟩] ++ [line] ++ Piece.linesOf after := by
    rw [← document.linesOf_pieces, h]
    simp [Piece.lines, Lead.lines_of_suppression hreason]
  have hcomment : Line.join [⟨line.depth, suppressionStart ++ reason⟩]
      = suppressionLine line.depth reason := by
    have hwritten : (Line.mk line.depth (suppressionStart ++ reason)).written
        = Line.margin line.depth ++ (suppressionStart ++ reason) ++ "\n" :=
      Line.written_of_ne (suppressionStart_append_ne reason)
    simp [Line.join, hwritten, suppressionLine, String.append_assoc]
  have hline : Line.join [line] = line.written := by simp [Line.join]
  refine ⟨Line.join (Piece.linesOf after) ++ gap ++ Line.join (registryLines document.registry), ?_⟩
  rw [htext, hlines, Line.join_append, Line.join_append, Line.join_append, hcomment, hline, above]
  simp only [String.append_assoc]

/-- The comment with a reason holds its first line, and every further line of the reason is a line
of its own. -/
theorem endedLines_suppressionLine (before : List Piece) (head : Head) (line : Line)
    (reason : String) :
    ∃ first others, endedLines (reason ++ "\n") = first :: others ∧
      endedLines (Document.above before head line ++ suppressionLine line.depth reason)
        = endedLines (Document.above before head line)
          ++ (Line.margin line.depth ++ suppressionStart ++ first) :: others ∧
      (others = [] ↔ isOneLine reason = true) := by
  obtain ⟨first, others, hreason, hcomment, hone⟩ :=
    Text.exists_endedLines_newline (endsLine_margin line.depth) reason
  refine ⟨first, others, hreason, ?_, hone⟩
  rw [Document.above, Text.endedLines_append _ (Line.join_eq _), suppressionLine, hcomment]

end Declaration

namespace Library

open Declaration Api
open Text (endedLines isOneLine)

variable {primary : Library} {dependencies : List Library} {isStrict : Bool} {p : Prepared}

/-- Whatever directives a prepared library is emitted with, in either flavor: on the lines of the
text stand the items of the document and their members, and where the directives have a reason for
the dotted name of one, the comment with the reason comes directly above the line that declares it.
The comment takes up the first line of the reason and the other lines of the reason are lines of the
output, so the comment is the line above the declaration, and the reason adds no other line, exactly
if the reason is one line. -/
theorem suppression_isOneLine_iff (hp : primary.prepare dependencies isStrict = .ok p)
    (d : Directives) (flavor : Flavor) :
    let emitted : Prepared := { p with directives := d }
    ∃ e, emitted.emit flavor = .ok e ∧
      Piece.headsOf e.document.pieces = e.document.items.flatMap Item.heads ∧
      ∀ before head line after reason,
        e.document.pieces = before ++ .declared head line :: after →
        d.suppression? head.fqn = some reason →
        let above := Document.above before head line
        let comment := suppressionLine line.depth reason
        (∃ rest, e.text = above ++ comment ++ line.written ++ rest) ∧
        ∃ first others, endedLines (reason ++ "\n") = first :: others ∧
          endedLines (above ++ comment) = endedLines above
            ++ (Line.margin line.depth ++ suppressionStart ++ first) :: others ∧
          (others = [] ↔ isOneLine reason = true) := by
  intro emitted
  obtain ⟨e, hemit⟩ : ∃ e, emitted.emit flavor = .ok e :=
    ⟨_, emit_of_run (of_prepare hp).1 p.table d flavor⟩
  have hitems : ∀ item ∈ e.document.items, item.Suppresses d := by
    rw [Prepared.document_of_emit hemit]
    exact Writer.answers_document emitted.writer.answers_write flavor _ _ _
  have hheads := Document.headsOf_pieces fun item hitem => (hitems item hitem).1
  refine ⟨e, hemit, hheads, fun before head line after reason hpieces hreason => ?_⟩
  have hhead : head ∈ e.document.items.flatMap Item.heads := by
    rw [← hheads, hpieces, Piece.headsOf_append]
    exact List.mem_append_right _ (List.mem_cons_self ..)
  obtain ⟨item, hitem, hmem⟩ := List.mem_flatMap.mp hhead
  have hsuppression : head.lead.suppression = some reason :=
    ((hitems item hitem).2 head hmem).trans hreason
  exact ⟨Document.exists_text_eq hpieces hsuppression,
    endedLines_suppressionLine before head line reason⟩

/-- A library with reasons for a class and its method, that for the method of two lines. -/
def complaining : Library where
  name := "app"
  description := .ofTop (.plain "" [] [.plain "ui" [{ Class.plain "Panel" with
    methods := [{ (default : Function) with kind := .functionDesc, name := "open" }] }] []])
  directives := { Directives.empty with
    suppressions := .ofListLast [("ui.Panel", "generics differ"), ("ui.Panel.open", "see\nbase")] }

/-- A reason without line breaks is one line above the class that it is for. -/
theorem suppression_isOneLine_iff_complaining :
    ∃ p, complaining.prepare [] true = .ok p ∧ ∃ e, p.emit .modules = .ok e ∧
      ∃ above rest, e.text = above ++ "    // @ts-ignore: generics differ\n"
          ++ "    export class Panel \x7b\n" ++ rest ∧
        endedLines (above ++ "    // @ts-ignore: generics differ\n")
          = endedLines above ++ ["    // @ts-ignore: generics differ"] := by
  obtain ⟨p, hp⟩ : ∃ p, complaining.prepare [] true = .ok p := ⟨_, rfl⟩
  let panel : Head := ⟨"ui.Panel", "Panel", ⟨.empty, some "generics differ"⟩⟩
  have hread : (complaining.prepare [] true).map (fun p =>
      (p.directives.suppression? "ui.Panel",
        (p.emit .modules).map fun e => decide
          (Piece.declared panel ⟨1, "export class Panel \x7b"⟩ ∈ e.document.pieces)))
      = .ok (some "generics differ", .ok true) := by decide +kernel
  rw [hp] at hread
  obtain ⟨hreason, hpiece⟩ := Prod.mk.inj (Except.ok.inj hread)
  obtain ⟨e, hemit, -, hall⟩ := suppression_isOneLine_iff hp p.directives .modules
  rw [show p.emit .modules = .ok e from hemit] at hpiece
  obtain ⟨before, after, hpieces⟩ :=
    List.append_of_mem (of_decide_eq_true (Except.ok.inj hpiece))
  obtain ⟨⟨rest, htext⟩, first, others, hfirst, hlines, -⟩ :=
    hall before panel _ after _ hpieces hreason
  have hreasons : endedLines ("generics differ" ++ "\n") = ["generics differ"] := by decide
  obtain ⟨rfl, rfl⟩ := List.cons.inj (hreasons.symm.trans hfirst)
  exact ⟨p, hp, e, hemit, _, rest, htext, hlines⟩

/-- The line above a declaration is no comment but the last line of the reason. -/
theorem not_suppression_isOneLine_complaining :
    ∃ p, complaining.prepare [] true = .ok p ∧
      p.directives.suppression? "ui.Panel.open" = some "see\nbase" ∧
      ∃ e, p.emit .modules = .ok e ∧ ∃ above lines rest,
        e.text = above ++ "        open(): void;\n" ++ rest ∧
        endedLines above = lines ++ ["        // @ts-ignore: see", "base"] := by
  obtain ⟨p, hp⟩ : ∃ p, complaining.prepare [] true = .ok p := ⟨_, rfl⟩
  let opening : Head := ⟨"ui.Panel.open", "open", ⟨.empty, some "see\nbase"⟩⟩
  have hread : (complaining.prepare [] true).map (fun p =>
      (p.directives.suppression? "ui.Panel.open",
        (p.emit .modules).map fun e => decide
          (Piece.declared opening ⟨2, "open(): void;"⟩ ∈ e.document.pieces)))
      = .ok (some "see\nbase", .ok true) := by decide +kernel
  rw [hp] at hread
  obtain ⟨hreason, hpiece⟩ := Prod.mk.inj (Except.ok.inj hread)
  obtain ⟨e, hemit, hpiece⟩ : ∃ e, p.emit .modules = .ok e ∧
      decide (Piece.declared opening ⟨2, "open(): void;"⟩ ∈ e.document.pieces) = true := by
    cases hemit : p.emit .modules with
    | error failure =>
      rw [hemit] at hpiece
      cases hpiece
    | ok e =>
      rw [hemit] at hpiece
      exact ⟨e, rfl, Except.ok.inj hpiece⟩
  obtain ⟨before, after, hpieces⟩ := List.append_of_mem (of_decide_eq_true hpiece)
  obtain ⟨rest, htext⟩ := Document.exists_text_eq hpieces rfl
  obtain ⟨first, others, hfirst, hlines, -⟩ :=
    endedLines_suppressionLine before opening ⟨2, "open(): void;"⟩ "see\nbase"
  have hreasons : endedLines ("see\nbase" ++ "\n") = ["see", "base"] := by decide
  obtain ⟨rfl, rfl⟩ := List.cons.inj (hreasons.symm.trans hfirst)
  exact ⟨p, hp, hreason, e, hemit, _, _, rest, htext, hlines⟩

end Library

end Ambient
