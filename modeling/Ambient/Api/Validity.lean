import Ambient.Api.Decode
import Ambient.Files.Fault
import Ambient.Json.Reader

/-!
# Valid descriptions

A description is valid when every node stands in a collection of its own kind and every node that
declares a symbol, the top-level namespace apart, has a name. Constructors are exempt from both;
their parameters are not.
-/

namespace Ambient.Api

/-- Why a description is refused. -/
inductive Error where
  | malformed
  | unexpectedKind (parent : String) (expected found : Kind)
  | missingName (parent : String) (kind : Kind)
  | unreadable (path : String) (fault : Files.Fault)
deriving DecidableEq, Repr, Inhabited

/-- The text of an error. -/
def Error.message : Error → String
  | .malformed => "malformed API description"
  | .unexpectedKind parent expected found =>
    "expected a " ++ expected.word ++ " node under `" ++ parent ++ "`, found " ++ found.word
  | .missingName parent kind => kind.word ++ " node under `" ++ parent ++ "` has no name"
  | .unreadable path fault => "failed to read " ++ path ++ ": " ++ fault.message

/-- Fails unless a node has the kind its collection is for. -/
def expectKind (parent : String) (expected found : Kind) : Except Error Unit :=
  if expected = found then .ok () else .error (.unexpectedKind parent expected found)

/-- Fails if a node has no name. -/
def expectName (parent : String) (kind : Kind) (name : String) : Except Error Unit :=
  if name.isEmpty then .error (.missingName parent kind) else .ok ()

/-- Fails unless a node has the kind of its collection and a name. -/
def expectNode (parent : String) (expected found : Kind) (name : String) : Except Error Unit := do
  expectKind parent expected found
  expectName parent expected name

/-- The word for a namespace in messages: its path, or a mark for the top level. -/
def shown (path : String) : String := if path.isEmpty then "<top>" else path

/-- Checks a parameter's own kind and name. -/
def ParameterInfo.check (parent : String) (info : ParameterInfo) : Except Error Unit := do
  match info.kind with
  | some kind => expectKind parent .parameter kind
  | none => pure ()
  expectName parent .parameter info.name

mutual

/-- Checks a parameter and the entries of its option object. -/
def Parameter.check (parent : String) : Parameter → Except Error Unit
  | .mk info type => do
    info.check parent
    ParameterType.check (joined parent info.name) type

/-- Checks the entries of an option object. -/
def ParameterType.check (parent : String) : ParameterType → Except Error Unit
  | .shape entries => Parameter.checkEntries parent entries
  | _ => .ok ()

/-- Checks the entries one by one. -/
def Parameter.checkEntries (parent : String) : List (String × Parameter) → Except Error Unit
  | [] => .ok ()
  | (_, entry) :: rest => do
    Parameter.check parent entry
    Parameter.checkEntries parent rest

end

/-- Checks a variable. -/
def Variable.check (parent : String) (v : Variable) : Except Error Unit :=
  expectNode parent .variableDesc v.kind v.name

/-- Checks the parameters of a function. -/
def Function.checkParameters (parent : String) (f : Function) : Except Error Unit :=
  f.parameters.forM (Parameter.check parent)

/-- Checks a function. -/
def Function.check (parent : String) (f : Function) : Except Error Unit := do
  expectNode parent .functionDesc f.kind f.name
  f.checkParameters (joined parent f.name)

/-- Checks a class of the namespace at a path. -/
def Class.check (path : String) (c : Class) : Except Error Unit := do
  expectNode (shown path) .classType c.kind c.name
  let here := joined path c.name
  c.constructors.forM (Function.checkParameters here)
  c.fields.forM (Variable.check here)
  c.methods.forM (Function.check here)

/-- Checks an interface of the namespace at a path. -/
def Interface.check (path : String) (i : Interface) : Except Error Unit := do
  expectNode (shown path) .interfaceType i.kind i.name
  let here := joined path i.name
  i.properties.forM (Variable.check here)
  i.methods.forM (Function.check here)

/-- Checks an enum of the namespace at a path. -/
def Enum.check (path : String) (e : Enum) : Except Error Unit := do
  expectNode (shown path) .enumType e.kind e.name
  e.values.forM (Variable.check (joined path e.name))

/-- Checks what the namespace at a path declares itself. -/
def Scope.check (path : String) (s : Scope) : Except Error Unit := do
  s.constants.forM (Variable.check (shown path))
  s.functions.forM (Function.check (shown path))
  s.classes.forM (Class.check path)
  s.interfaces.forM (Interface.check path)
  s.enums.forM (Enum.check path)

mutual

/-- Checks everything in the namespace at a path, nested namespaces first. -/
def Namespace.check (path : String) : Namespace → Except Error Unit
  | ⟨scope, nested⟩ => do
    Namespace.checkNested path nested
    scope.check path

/-- Checks namespaces nested in the one at a path. -/
def Namespace.checkNested (path : String) : List Namespace → Except Error Unit
  | [] => .ok ()
  | ⟨scope, nested⟩ :: rest => do
    expectNode (shown path) .nameSpace scope.kind scope.name
    Namespace.check (joined path scope.name) ⟨scope, nested⟩
    Namespace.checkNested path rest

end

/-- Checks a whole description. -/
def Description.check (d : Description) : Except Error Unit := do
  expectKind "<root>" .root d.kind
  expectKind "<root>" .nameSpace d.top.scope.kind
  d.top.check ""

/-- Reads and checks the description in a text. -/
def Description.parse (text : String) : Except Error Description :=
  match (Json.read? text).bind Description.ofJson? with
  | none => .error .malformed
  | some description => do
    description.check
    return description

end Ambient.Api
