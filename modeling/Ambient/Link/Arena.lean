import Ambient.Api.Basic

/-!
# Arenas of links

One entry for each tagged node of a description, numbered from zero, with a link to its parent.
Names are read off the links: the dotted name of a node joins the names from the outermost
namespace down to the node. The walk to the root takes at most as many steps as there are entries,
so that it ends in a cyclic arena too.

Numbers are natural numbers without a bound. Numbers of 32 bits are the same up to `2 ^ 32` entries
and start again from zero after that, so what is proved of arenas holds of those only below this
bound. It takes a description of more than `2 ^ 32` bytes to come to it, as every tagged node takes
several.
-/

namespace Ambient

/-- The entry of a node. Types and the root have no name. -/
structure Arena.Entry where
  kind : Api.Kind
  name : Option String
  parent : Option Nat
deriving DecidableEq, Repr, Inhabited

/-- The entries by number. Numbers have no bound here; with 32 bits there are no more than `2 ^ 32`
of them. -/
structure Arena where
  entries : Array Arena.Entry
deriving DecidableEq, Repr, Inhabited

/-- Why the name of a node cannot be read off its links. -/
inductive Arena.Error where
  | unlinked (name : String)
  | brokenChain (id : Nat)
deriving DecidableEq, Repr, Inhabited

/-- The text of an error. -/
def Arena.Error.message : Arena.Error → String
  | .unlinked name =>
    "`" ++ name ++ "` has no parent link; run the transform pipeline before emitting"
  | .brokenChain id => "broken parent chain at node " ++ Nat.repr id

namespace Arena

/-- The arena without entries. -/
def empty : Arena := ⟨#[]⟩

/-- The number of entries. -/
def size (a : Arena) : Nat := a.entries.size

/-- The entry with a number. -/
def get? (a : Arena) (id : Nat) : Option Entry := a.entries[id]?

/-- Adds an entry without a parent; its number is the old size. -/
def alloc (a : Arena) (kind : Api.Kind) (name : Option String) : Arena :=
  ⟨a.entries.push ⟨kind, name, none⟩⟩

/-- Sets the parent of an entry, if there is one with that number. -/
def setParent (a : Arena) (child parent : Nat) : Arena :=
  ⟨a.entries.modify child fun entry => { entry with parent := some parent }⟩

/-- The parent of an entry. -/
def parent? (a : Arena) (id : Nat) : Option Nat := do (← a.get? id).parent

/-- The entries met on the way up from a number, at most as many as there are steps. -/
def walk (a : Arena) : Nat → Option Nat → List (Nat × Entry)
  | steps + 1, some id =>
    match a.get? id with
    | some entry => (id, entry) :: a.walk steps entry.parent
    | none => []
  | _, _ => []

/-- The entries met on the way up from a node, itself included. -/
def ancestors (a : Arena) (id : Nat) : List (Nat × Entry) := a.walk a.size (some id)

/-- The dotted name of a node: the names that are not empty, met before the first root. -/
def fqn (a : Arena) (id : Nat) : Except Error String :=
  let chain := a.ancestors id
  let below := chain.takeWhile fun step => step.2.kind ≠ .root
  if below.length = chain.length then .error (.brokenChain id)
  else
    let names := below.reverse.filterMap fun step => step.2.name.filter fun name => !name.isEmpty
    .ok (".".intercalate names)

/-- The dotted name of the node with a link; `name` is its own name for the message. -/
def fqnOf (a : Arena) (link : Api.Link) (name : String) : Except Error String :=
  match link.id with
  | some id => a.fqn id
  | none => .error (.unlinked (if name.isEmpty then "<top-level namespace>" else name))

/-- Whether entries of a kind are namespaces, classes, interfaces or enums. -/
def isAggregate (kind : Api.Kind) : Bool :=
  kind = .nameSpace || kind = .classType || kind = .interfaceType || kind = .enumType

/-- The dotted names of all namespaces, classes, interfaces and enums, as far as they can be
read, by number. -/
def aggregateNames (a : Arena) : List String :=
  (List.range a.size).filterMap fun id =>
    match a.get? id with
    | some entry => if isAggregate entry.kind then (a.fqn id).toOption else none
    | none => none

end Arena

end Ambient
