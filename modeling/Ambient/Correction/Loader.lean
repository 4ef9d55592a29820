import Ambient.Symbol.Table

/-!
# The loader's signatures

The library that ships the module loader documents the dependencies of a module as arbitrary
strings. The correction narrows them to the names that are known to the loader: the keys of an
interface to which every library adds its modules.
-/

namespace Ambient.Correction

open Api

/-- The library that ships the module loader. -/
def coreLibrary : String := "sap.ui.core"

/-- The interface whose keys are the names of the modules. -/
def moduleNamesInterface : String := "IUI5DefineDependencyNames"

/-- The path of the namespace that holds the loader's functions. -/
def loaderPath : List String := ["sap", "ui"]

/-- The dotted name of that namespace. -/
def loaderNamespace : String := ".".intercalate loaderPath

/-- The loader's functions, each with the parameter that lists dependencies. -/
def loaderFunctions : List (String × String) :=
  [("define", "aDependencies"), ("require", "vDependencies")]

/-- The narrower text for the type of one dependency or of a list of them. -/
def narrowed? (name : String) : Option String :=
  if name = "string" then some ("keyof " ++ moduleNamesInterface)
  else if name = "string[]" then some ("(keyof " ++ moduleNamesInterface ++ ")[]")
  else none

/-- Narrows a type expression; the result is not to be corrected any further. -/
def narrowSimple (type : SimpleType) : SimpleType :=
  match narrowed? type.name with
  | some name => { type with name := name, skipsCorrection := true }
  | none => type

/-- The number of type expressions that are narrowed in a declared type. -/
def narrowings : DeclaredType → Nat
  | .simple type => if (narrowed? type.name).isSome then 1 else 0
  | .union members _ => members.countP fun member => (narrowed? member.name).isSome

/-- Narrows a declared type. -/
def narrowType : DeclaredType → DeclaredType
  | .simple type => .simple (narrowSimple type)
  | .union members link => .union (members.map narrowSimple) link

/-- Narrows the declared type of a parameter. -/
def narrowParameter : Parameter → Parameter
  | .mk info (.declared type) => .mk info (.declared (narrowType type))
  | parameter => parameter

/-- The number of type expressions that are narrowed in the type of a parameter. -/
def parameterNarrowings (p : Parameter) : Nat :=
  match p.type with
  | .declared type => narrowings type
  | _ => 0

/-- Narrows the first parameter of a name. -/
def narrowFunction (parameter : String) (f : Function) : Function :=
  { f with parameters :=
      Namespace.replaceFirst (fun p => p.name == parameter) narrowParameter f.parameters }

/-- The number of type expressions that are narrowed in a function. -/
def functionNarrowings (parameter : String) (f : Function) : Nat :=
  match f.parameters.find? fun p => p.name == parameter with
  | some p => parameterNarrowings p
  | none => 0

/-- Narrows the first function of a loader function's name. -/
def narrowFirst (functions : List Function) (target : String × String) : List Function :=
  Namespace.replaceFirst (fun f => f.name == target.1) (narrowFunction target.2) functions

/-- Narrows the first function of each of the loader's names. -/
def narrowScope (s : Scope) : Scope :=
  { s with functions := loaderFunctions.foldl narrowFirst s.functions }

/-- The number of type expressions that are narrowed in a namespace. -/
def scopeNarrowings (s : Scope) : Nat :=
  (loaderFunctions.map fun target =>
    match s.functions.find? fun f => f.name == target.1 with
    | some f => functionNarrowings target.2 f
    | none => 0).foldr (· + ·) 0

/-- Whether the loader's signatures are to be narrowed: in the core library, if its table has the
loader's namespace. -/
def narrowsLoader (library : String) (table : Symbol.Table) : Bool :=
  library == coreLibrary
    && (table.get? loaderNamespace).any fun symbol => symbol.kind = .nameSpace

/-- Narrows the loader's signatures in a description. -/
def narrowLoader (library : String) (table : Symbol.Table) (d : Description) : Description :=
  if narrowsLoader library table then
    { d with top :=
        d.top.modifyAt (fun ns => { ns with scope := narrowScope ns.scope }) loaderPath }
  else d

/-- The number of type expressions that `narrowLoader` changes. -/
def loaderNarrowings (library : String) (table : Symbol.Table) (d : Description) : Nat :=
  if narrowsLoader library table then
    match d.top.find? loaderPath with
    | some ns => scopeNarrowings ns.scope
    | none => 0
  else 0

end Ambient.Correction
