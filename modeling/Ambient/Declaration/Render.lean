import Ambient.Correction.Loader
import Ambient.Declaration.Basic
import Ambient.Identifier

/-!
# The text of declarations

A document is laid out in lines, each at its depth of nesting, and the text is the lines written
one after another. At the top level declarations are declared; inside blocks they are exported.
-/

namespace Ambient.Declaration

/-- A line of text at a depth of nesting. -/
structure Line where
  depth : Nat
  text : String
deriving DecidableEq, Repr, Inhabited

namespace Line

/-- The blanks in front of a line, four for each level. -/
def margin (depth : Nat) : String := String.ofList (List.replicate (4 * depth) ' ')

/-- The written line; an empty line has no margin. -/
def written (l : Line) : String :=
  if l.text.isEmpty then "\n" else margin l.depth ++ l.text ++ "\n"

/-- The text of lines. -/
def join (lines : List Line) : String := String.join (lines.map written)

/-- Lines at one depth. -/
def leveled (depth : Nat) (texts : List String) : List Line := texts.map (Line.mk depth)

end Line

/-- The lines above a declaration. -/
def Lead.lines (depth : Nat) (lead : Lead) : List Line :=
  Line.leveled depth
    (lead.comment.lines ++ (lead.suppression.map fun reason => "// @ts-ignore: " ++ reason).toList)

/-- The text of a parameter. -/
def Slot.text (p : Slot) : String :=
  p.name ++ (if p.isMarked then "?: " else ": ") ++ p.type

/-- The text of a signature. -/
def Signature.text (s : Signature) : String :=
  let result := match s.result with
    | some type => ": " ++ type
    | none => ""
  "(" ++ ", ".intercalate (s.parameters.map Slot.text) ++ ")" ++ result

/-- The word in front of a static member. -/
def staticWord (isStatic : Bool) : String := if isStatic then "static " else ""

/-- The line that declares a member. -/
def Member.text (m : Member) : String :=
  match m.body with
  | .construct signature => "constructor" ++ signature.text ++ ";"
  | .property isStatic type =>
    staticWord isStatic ++ Identifier.propertyKey m.head.name ++ ": " ++ type ++ ";"
  | .method isStatic signature =>
    staticWord isStatic ++ Identifier.propertyKey m.head.name ++ signature.text ++ ";"
  | .value => Identifier.propertyKey m.head.name ++ " = " ++ Identifier.literal m.head.name ++ ","

/-- The lines of a member. -/
def Member.lines (depth : Nat) (m : Member) : List Line :=
  m.head.lead.lines depth ++ [⟨depth, m.text⟩]

/-- A clause of a header, left out if it lists nothing. -/
def clause (word : String) (names : List String) : String :=
  if names.isEmpty then "" else " " ++ word ++ " " ++ ", ".intercalate names

/-- The first line of a class, interface or enum, without its brace. -/
def Header.text (name : String) : Header → String
  | .classType isAbstract base implemented =>
    (if isAbstract then "abstract class " else "class ") ++ name ++ clause "extends" base.toList
      ++ clause "implements" implemented
  | .interfaceType bases => "interface " ++ name ++ clause "extends" bases
  | .enumType => "enum " ++ name
  | .nameSpace _ => "interface " ++ name

/-- Whether the body is written on the line of the header. -/
def Header.isBare : Header → Bool
  | .nameSpace isBare => isBare
  | _ => false

/-- The word in front of a declaration at a depth. -/
def exposure (depth : Nat) : String := if depth = 0 then "declare " else "export "

/-- The lines of an item. -/
def Item.lines (depth : Nat) : Item → List Line
  | .constant head type =>
    head.lead.lines depth
      ++ [⟨depth, exposure depth ++ "const " ++ head.name ++ ": " ++ type ++ ";"⟩]
  | .function head signature =>
    head.lead.lines depth
      ++ [⟨depth, exposure depth ++ "function " ++ head.name ++ signature.text ++ ";"⟩]
  | .aggregate head header members =>
    let first := exposure depth ++ header.text head.name
    head.lead.lines depth ++
      (if header.isBare then [⟨depth, first ++ " \x7b\x7d"⟩]
      else
        ⟨depth, first ++ " \x7b"⟩ :: members.flatMap (Member.lines (depth + 1))
          ++ [⟨depth, "\x7d"⟩])

mutual

/-- The lines of a tree. -/
def Tree.lines (depth : Nat) : Tree → List Line
  | .item only => only.lines depth
  | .block name lead body =>
    (lead.map (Lead.lines depth)).getD []
      ++ ⟨depth, exposure depth ++ "namespace " ++ name ++ " \x7b"⟩
        :: Tree.linesOf (depth + 1) body ++ [⟨depth, "\x7d"⟩]

/-- The lines of a list of trees. -/
def Tree.linesOf (depth : Nat) : List Tree → List Line
  | [] => []
  | tree :: rest => tree.lines depth ++ Tree.linesOf depth rest

end

/-- The lines of the imports of a block, and an empty one after them. -/
def importLines (imports : List Reference.Import) : List Line :=
  if imports.isEmpty then [] else Line.leveled 1 (imports.map Reference.Import.line ++ [""])

/-- The lines of a module block. -/
def Block.lines (b : Block) : List Line :=
  (b.lead.map (Lead.lines 0)).getD []
    ++ ⟨0, "declare module \x22" ++ Reference.modulePath b.fqn ++ "\x22 \x7b"⟩
      :: importLines b.imports
    ++ b.items.flatMap (Item.lines 1) ++ Line.leveled 0 ["\x7d", ""]

/-- The lines that register module paths, if there are any. -/
def registryLines (paths : List String) : List Line :=
  if paths.isEmpty then []
  else
    ⟨0, "interface " ++ Correction.moduleNamesInterface ++ " \x7b"⟩
      :: Line.leveled 1 (paths.map fun path => Identifier.literal path ++ ": true;")
        ++ [⟨0, "\x7d"⟩]

/-- Whether an empty line belongs between a text and what follows it. -/
def needsGap (text : String) : Bool :=
  !text.isEmpty && !"\n\n".toList.isSuffixOf text.toList

/-- The text of a document: its declarations, then the registry after an empty line. -/
def Document.text (d : Document) : String :=
  let body := Line.join (Tree.linesOf 0 d.script ++ d.blocks.flatMap Block.lines)
  if d.registry.isEmpty then body
  else body ++ (if needsGap body then "\n" else "") ++ Line.join (registryLines d.registry)

end Ambient.Declaration
