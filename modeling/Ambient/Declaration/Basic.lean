import Ambient.Comment
import Ambient.Reference
import Ambient.Warning

/-!
# Declarations

What the emitter writes, before it is text. Items are the declarations of a namespace; in the
global tree they stand in nested blocks, in the other flavor in one module block per namespace.
Every item and every member is an entity: its dotted name and the form in which it is declared.
-/

namespace Ambient.Declaration

/-- What stands above a declaration: its comment, and the reason why the compiler's complaints
about it are suppressed. -/
structure Lead where
  comment : Comment
  suppression : Option String
deriving DecidableEq, Repr, Inhabited

/-- The name of a declaration, dotted and simple, and what stands above it. -/
structure Head where
  fqn : String
  name : String
  lead : Lead
deriving DecidableEq, Repr, Inhabited

/-- A parameter of a signature. -/
structure Slot where
  name : String
  /-- Whether the name is marked, so that a call may leave the parameter out. -/
  isMarked : Bool
  type : String
deriving DecidableEq, Repr, Inhabited

/-- A signature; constructors have no result. -/
structure Signature where
  parameters : List Slot
  result : Option String
deriving DecidableEq, Repr, Inhabited

/-- What a member declares under its name. -/
inductive Member.Body where
  | construct (signature : Signature)
  | property (isStatic : Bool) (type : String)
  | method (isStatic : Bool) (signature : Signature)
  | value
deriving DecidableEq, Repr, Inhabited

/-- A member of a class, interface or enum. -/
structure Member where
  head : Head
  body : Member.Body
deriving DecidableEq, Repr, Inhabited

/-- What the first line of a class, interface or enum says beside its name. -/
inductive Header where
  | classType (isAbstract : Bool) (base : Option String) (implemented : List String)
  | interfaceType (bases : List String)
  | enumType
  /-- An interface made from a namespace; it is bare if the namespace has neither variables nor
  functions. -/
  | nameSpace (isBare : Bool)
deriving DecidableEq, Repr, Inhabited

/-- A declaration of a namespace. -/
inductive Item where
  | constant (head : Head) (type : String)
  | function (head : Head) (signature : Signature)
  | aggregate (head : Head) (header : Header) (members : List Member)
deriving DecidableEq, Repr, Inhabited

/-- An item, or a namespace block with the declarations in it. -/
inductive Tree where
  | item (item : Item)
  | block (name : String) (lead : Option Lead) (body : List Tree)
deriving Repr, Inhabited

/-- A module block. -/
structure Block where
  /-- The dotted name of the namespace the block is for. -/
  fqn : String
  lead : Option Lead
  imports : List Reference.Import
  items : List Item
deriving DecidableEq, Repr, Inhabited

/-- What is emitted for a library: script-level declarations, module blocks, and the paths that
the library registers with the loader. -/
structure Document where
  script : List Tree
  blocks : List Block
  registry : List String
deriving Repr, Inhabited

/-! ## Entities -/

/-- The forms of entities. -/
inductive Form where
  | constant
  | function
  | classType
  | interfaceType
  | enumType
  | nameSpace
  | construct
  | property
  | method
  | value
deriving DecidableEq, Repr, Inhabited

/-- A declared name and its form. -/
structure Entity where
  fqn : String
  form : Form
deriving DecidableEq, Repr, Inhabited

/-- The form of a member. -/
def Member.Body.form : Member.Body → Form
  | .construct _ => .construct
  | .property .. => .property
  | .method .. => .method
  | .value => .value

/-- The entity of a member. -/
def Member.entity (m : Member) : Entity := ⟨m.head.fqn, m.body.form⟩

/-- The form of a class, interface or enum. -/
def Header.form : Header → Form
  | .classType .. => .classType
  | .interfaceType _ => .interfaceType
  | .enumType => .enumType
  | .nameSpace _ => .nameSpace

/-- The name of an item and what stands above it. -/
def Item.head : Item → Head
  | .constant head _ => head
  | .function head _ => head
  | .aggregate head _ _ => head

/-- The entities an item declares: itself and its members. -/
def Item.entities : Item → List Entity
  | .constant head _ => [⟨head.fqn, .constant⟩]
  | .function head _ => [⟨head.fqn, .function⟩]
  | .aggregate head header members => ⟨head.fqn, header.form⟩ :: members.map Member.entity

mutual

/-- The items in a tree. -/
def Tree.items : Tree → List Item
  | .item only => [only]
  | .block _ _ body => Tree.itemsOf body

/-- The items in a list of trees. -/
def Tree.itemsOf : List Tree → List Item
  | [] => []
  | tree :: rest => tree.items ++ Tree.itemsOf rest

end

/-- All items of a document. -/
def Document.items (d : Document) : List Item :=
  Tree.itemsOf d.script ++ d.blocks.flatMap Block.items

/-- All entities of a document. -/
def Document.entities (d : Document) : List Entity := d.items.flatMap Item.entities

end Ambient.Declaration
