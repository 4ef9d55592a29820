import Ambient.Json.Basic
import Ambient.Text.Replace

/-!
# API descriptions

The tree that describes the public API of one library. Namespaces nest; what a namespace declares
itself is its `Scope`. A parameter has a declared type or is an option object that is documented
entry by entry, where the entries are parameters again.
-/

namespace Ambient.Api

/-- The kinds of nodes. -/
inductive Kind where
  | root
  | nameSpace
  | classType
  | interfaceType
  | enumType
  | variableDesc
  | functionDesc
  | parameter
  | simpleType
  | unionType
deriving DecidableEq, Repr, Inhabited

/-- The word for a kind in descriptions and messages. -/
def Kind.word : Kind → String
  | .root => "Root"
  | .nameSpace => "Namespace"
  | .classType => "Class"
  | .interfaceType => "Interface"
  | .enumType => "Enum"
  | .variableDesc => "Variable"
  | .functionDesc => "FunctionDesc"
  | .parameter => "Parameter"
  | .simpleType => "SimpleType"
  | .unionType => "UnionType"

/-- All kinds. -/
def Kind.all : List Kind :=
  [.root, .nameSpace, .classType, .interfaceType, .enumType, .variableDesc, .functionDesc,
    .parameter, .simpleType, .unionType]

/-- Where a node stands in the arena of links: its own number and its parent's, once it has been
linked. -/
structure Link where
  id : Option Nat
  parent : Option Nat
deriving DecidableEq, Repr, Inhabited

/-- The link of a node that has not been linked. -/
def Link.unset : Link := ⟨none, none⟩

/-- How far a symbol is exposed. -/
inductive Visibility where
  | restricted
  | guarded
  | open
deriving DecidableEq, Repr, Inhabited

/-- A notice that something is deprecated or experimental. -/
structure Notice where
  text : Option String
  since : Option String
deriving DecidableEq, Repr, Inhabited

/-- The documentation of a symbol. -/
structure Doc where
  description : Option String
  since : Option String
  deprecation : Option Notice
  experimental : Option Notice
  notes : List String
deriving DecidableEq, Repr, Inhabited

/-- Whether nothing is documented. -/
def Doc.isEmpty (doc : Doc) : Bool :=
  doc.description.isNone && doc.since.isNone && doc.deprecation.isNone
    && doc.experimental.isNone && doc.notes.isEmpty

/-- A type expression as it is written in the description. -/
structure SimpleType where
  name : String
  /-- Whether typo corrections leave this occurrence alone. -/
  skipsCorrection : Bool
  link : Link
deriving DecidableEq, Repr, Inhabited

/-- A declared type: one type expression, or the union of several. -/
inductive DeclaredType where
  | simple (type : SimpleType)
  | union (members : List SimpleType) (link : Link)
deriving DecidableEq, Repr, Inhabited

/-- What a parameter says about itself, its type apart. -/
structure ParameterInfo where
  kind : Option Kind
  name : String
  default : Option Json
  isOptional : Bool
  description : Option String
  link : Link
deriving Repr, Inhabited, BEq

mutual

/-- A parameter of a function, or an entry of an option object. -/
inductive Parameter where
  | mk (info : ParameterInfo) (type : ParameterType)

/-- The type of a parameter: none, a declared one, or an option object given by its entries. -/
inductive ParameterType where
  | unspecified
  | declared (type : DeclaredType)
  | shape (entries : List (String × Parameter))

end

deriving instance Repr, BEq for Parameter
deriving instance Repr, BEq for ParameterType

/-- By default a type is left out. -/
instance : Inhabited ParameterType := ⟨.unspecified⟩
/-- By default nothing is said of a parameter. -/
instance : Inhabited Parameter := ⟨.mk default .unspecified⟩

namespace Parameter

/-- What the parameter says about itself. -/
def info : Parameter → ParameterInfo
  | .mk info _ => info

/-- The type of the parameter. -/
def type : Parameter → ParameterType
  | .mk _ type => type

/-- The name of the parameter. -/
def name (p : Parameter) : String := p.info.name

/-- Whether a call may leave the parameter out: it says so, or has a default. -/
def mayBeLeftOut (p : Parameter) : Bool := p.info.isOptional || p.info.default.isSome

end Parameter

/-- A variable, field, property or enum value. -/
structure Variable where
  kind : Kind
  name : String
  isStatic : Bool
  type : Option DeclaredType
  visibility : Option Visibility
  doc : Doc
  link : Link
deriving DecidableEq, Repr, Inhabited

/-- What a function returns, or an error it throws. -/
structure Outcome where
  type : Option DeclaredType
  description : Option String
deriving DecidableEq, Repr, Inhabited

/-- A function, method or constructor. -/
structure Function where
  kind : Kind
  name : String
  isStatic : Bool
  /-- Whether it overrides an inherited signature. -/
  overwrites : Bool
  parameters : List Parameter
  returns : Option Outcome
  throws : List Outcome
  visibility : Option Visibility
  doc : Doc
  link : Link
deriving Repr, Inhabited, BEq

/-- A class. -/
structure Class where
  kind : Kind
  name : String
  /-- The dotted name of the class it extends. -/
  base : Option String
  /-- The dotted names of the interfaces it implements. -/
  implemented : List String
  constructors : List Function
  fields : List Variable
  methods : List Function
  isAbstract : Bool
  visibility : Option Visibility
  /-- Whether it derives from the framework's base object. -/
  derivesFromBase : Bool
  doc : Doc
  link : Link
deriving Repr, Inhabited, BEq

/-- An interface. -/
structure Interface where
  kind : Kind
  name : String
  /-- The dotted names of the interfaces it extends. -/
  bases : List String
  methods : List Function
  properties : List Variable
  visibility : Option Visibility
  stakeholders : List String
  doc : Doc
  link : Link
deriving Repr, Inhabited, BEq

/-- An enum. -/
structure Enum where
  kind : Kind
  name : String
  visibility : Option Visibility
  values : List Variable
  doc : Doc
  link : Link
deriving DecidableEq, Repr, Inhabited

/-- What a namespace declares itself, the namespaces nested in it apart. -/
structure Scope where
  kind : Kind
  name : String
  visibility : Option Visibility
  doc : Doc
  constants : List Variable
  functions : List Function
  classes : List Class
  interfaces : List Interface
  enums : List Enum
  link : Link
deriving Repr, Inhabited, BEq

/-- A namespace. -/
structure Namespace where
  scope : Scope
  nested : List Namespace
deriving Repr, BEq

/-- By default a namespace has nothing in it. -/
instance : Inhabited Namespace := ⟨⟨default, []⟩⟩

namespace Namespace

/-- The simple name of a namespace. -/
def name (ns : Namespace) : String := ns.scope.name

/-- Whether the namespace holds nothing at all. -/
def isEmpty (ns : Namespace) : Bool :=
  ns.nested.isEmpty && ns.scope.constants.isEmpty && ns.scope.functions.isEmpty
    && ns.scope.classes.isEmpty && ns.scope.interfaces.isEmpty && ns.scope.enums.isEmpty

/-- Whether the namespace holds a namespace, class, interface or enum. -/
def hasAggregates (ns : Namespace) : Bool :=
  !ns.nested.isEmpty || !ns.scope.classes.isEmpty || !ns.scope.interfaces.isEmpty
    || !ns.scope.enums.isEmpty

/-- The namespace reached by a path of names, taking the first namespace of each name. -/
def find? : List String → Namespace → Option Namespace
  | [], ns => some ns
  | name :: path, ns => do find? path (← ns.nested.find? fun child => child.name == name)

/-- The namespace reached by a dotted path. -/
def findDotted? (path : String) (ns : Namespace) : Option Namespace :=
  ns.find? (Text.segments '.' path)

/-- Replaces the first element of a list that passes a test. -/
def replaceFirst {α : Type} (test : α → Bool) (change : α → α) : List α → List α
  | [] => []
  | a :: rest => if test a then change a :: rest else a :: replaceFirst test change rest

/-- Changes the namespace that `find?` finds. -/
def modifyAt (change : Namespace → Namespace) : List String → Namespace → Namespace
  | [], ns => change ns
  | name :: path, ns =>
    { ns with nested :=
        replaceFirst (fun child => child.name == name) (modifyAt change path) ns.nested }

end Namespace

/-- The description of one library. -/
structure Description where
  kind : Kind
  version : String
  top : Namespace
  link : Link
deriving Repr, Inhabited, BEq

/-- Joins a path and a name with a dot; an empty path gives the name alone. -/
def joined (path name : String) : String :=
  if path.isEmpty then name else path ++ "." ++ name

end Ambient.Api
