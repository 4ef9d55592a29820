import Ambient.Declaration.Basic
import Ambient.Declaration.Page
import Ambient.Declaration.Plan
import Ambient.TypeExpr.Render

/-!
# Items from descriptions

The declarations of what a namespace holds itself. Excluded members are left out with a warning,
and so are constants and functions whose name cannot be declared. Writing goes through a
description from left to right, because imports and warnings appear in the order of the text.
-/

namespace Ambient.Declaration

open Api

/-- What items are written against: the resolver, and the dotted names of nodes. -/
structure Writer extends Resolver where
  nameOf : Naming

/-- Writes the elements of a list that are not left out. -/
def writeSome {α β : Type} (write : α → Writing (Option β)) : List α → Writing (List β)
  | [] => return []
  | a :: rest => do
    let written ← write a
    return written.toList ++ (← writeSome write rest)

namespace Writer

variable (w : Writer)

/-- What stands above a declaration. -/
def lead (fqn : String) (comment : Comment) : Lead := ⟨comment, w.directives.suppression? fqn⟩

/-- A declared type as comments name it. -/
def typeName : DeclaredType → String
  | .simple type => w.directives.correct type
  | .union members _ => "|".intercalate (members.map w.directives.correct)

/-- The comment for a function. -/
def functionComment (f : Function) : Comment := Comment.ofFunction w.typeName f

/-! ## Exclusion -/

/-- Whether a member is kept; if it is excluded by its dotted name, that is a warning. -/
def keeps (fqn : String) : Writing Bool := do
  if w.directives.isBadSymbol fqn then
    warn .excluded ("`" ++ fqn ++ "` excluded")
    return false
  return true

/-- Whether a method is kept; its simple name can exclude it too. -/
def keepsMethod (fqn name : String) : Writing Bool := do
  if !(← w.keeps fqn) then return false
  if w.directives.isBadMethod name then
    warn .excluded ("method `" ++ fqn ++ "` excluded by name")
    return false
  return true

/-- Whether a constant or function is kept; its simple name has to be a binding. -/
def keepsValue (fqn name : String) : Writing Bool := do
  if !(← w.keeps fqn) then return false
  if Identifier.isBinding name then return true
  warn .excluded ("`" ++ fqn ++ "` skipped: `" ++ name ++ "` is not a valid binding name")
  return false

/-! ## Signatures -/

/-- Writes a parameter. An optional one is marked unless a required one comes later; then its type
admits that it is undefined. -/
def slot (p : Parameter) (requiredLater : Bool) : Writing Slot := do
  let type ← TypeExpr.writeParameterType w.toResolver p.type
  let name := Identifier.parameterName p.name
  if !p.mayBeLeftOut then return ⟨name, false, type⟩
  if requiredLater then return ⟨name, false, type ++ " | undefined"⟩
  return ⟨name, true, type⟩

/-- Writes parameters from left to right. -/
def slots : List Parameter → Writing (List Slot)
  | [] => return []
  | p :: rest => do
    let first ← w.slot p (rest.any fun later => !later.mayBeLeftOut)
    return first :: (← slots rest)

/-- Writes the signature of a constructor. -/
def constructorSignature (f : Function) : Writing Signature := do
  return ⟨← w.slots f.parameters, none⟩

/-- Writes the signature of a function; without a result type it returns nothing. -/
def signature (f : Function) : Writing Signature := do
  let parameters ← w.slots f.parameters
  let result ← match f.returns.bind Outcome.type with
    | some type => TypeExpr.writeDeclared w.toResolver type
    | none => pure "void"
  return ⟨parameters, some result⟩

/-! ## Members -/

/-- The head of a declaration that is documented without parameters. -/
def headOf (fqn name : String) (doc : Doc) : Head := ⟨fqn, name, w.lead fqn (Comment.ofDoc doc)⟩

/-- The head of the declaration of a function. -/
def functionHead (fqn : String) (f : Function) : Head :=
  ⟨fqn, f.name, w.lead fqn (w.functionComment f)⟩

/-- Writes a constructor. -/
def construct (f : Function) : Writing (Option Member) := do
  let fqn := w.nameOf f.link
  if !(← w.keeps fqn) then return none
  return some ⟨w.functionHead fqn f, .construct (← w.constructorSignature f)⟩

/-- Writes a field or property. -/
def property (v : Variable) : Writing (Option Member) := do
  let fqn := w.nameOf v.link
  if !(← w.keeps fqn) then return none
  let type ← TypeExpr.writeOptional w.toResolver v.type
  return some ⟨w.headOf fqn v.name v.doc, .property v.isStatic type⟩

/-- Writes a function as a member. -/
def memberFunction (fqn : String) (f : Function) : Writing Member := do
  return ⟨w.functionHead fqn f, .method f.isStatic (← w.signature f)⟩

/-- Writes a method of a class or interface. -/
def method (f : Function) : Writing (Option Member) := do
  let fqn := w.nameOf f.link
  if !(← w.keepsMethod fqn f.name) then return none
  return some (← w.memberFunction fqn f)

/-- Writes a function of a namespace as a method; its simple name does not exclude it. -/
def nameSpaceMethod (f : Function) : Writing (Option Member) := do
  let fqn := w.nameOf f.link
  if !(← w.keeps fqn) then return none
  return some (← w.memberFunction fqn f)

/-- Writes a value of an enum. -/
def enumValue (v : Variable) : Writing (Option Member) := do
  let fqn := w.nameOf v.link
  if !(← w.keeps fqn) then return none
  return some ⟨w.headOf fqn v.name v.doc, .value⟩

/-! ## Constants and functions -/

/-- Writes a variable of a namespace. -/
def constant (v : Variable) : Writing (Option Item) := do
  let fqn := w.nameOf v.link
  if !(← w.keepsValue fqn v.name) then return none
  return some (.constant (w.headOf fqn v.name v.doc) (← TypeExpr.writeOptional w.toResolver v.type))

/-- Writes a function of a namespace. -/
def function (f : Function) : Writing (Option Item) := do
  let fqn := w.nameOf f.link
  if !(← w.keepsValue fqn f.name) then return none
  return some (.function (w.functionHead fqn f) (← w.signature f))

/-- Writes the variables and functions of a namespace. -/
def values (s : Scope) : Writing (List Item) := do
  let constants ← writeSome w.constant s.constants
  return constants ++ (← writeSome w.function s.functions)

/-! ## Classes, interfaces and enums -/

/-- Writes the reference to a supertype; one that leads nowhere is dropped. -/
def supertype (owner fqn : String) : Writing (Option String) := do
  let corrected := w.directives.correctName fqn
  match w.resolve corrected with
  | .ok symbol => return some (← refer symbol)
  | .error cause =>
    warn .unresolvedType
      ("supertype `" ++ corrected ++ "` of `" ++ owner ++ "` " ++ cause.reason ++ "; dropped")
    return none

/-- Writes an implemented interface; a bad one is stripped. -/
def implemented (owner fqn : String) : Writing (Option String) := do
  if w.directives.isBadInterface fqn then
    warn .excluded ("`" ++ fqn ++ "` stripped from the implements list of `" ++ owner ++ "`")
    return none
  w.supertype owner fqn

/-- Writes a class. -/
def classType (c : Api.Class) : Writing (Option Item) := do
  let fqn := w.nameOf c.link
  if !w.emitted.contains fqn then return none
  let base ← match c.base with
    | some base => w.supertype fqn base
    | none => pure none
  let interfaces ← writeSome (w.implemented fqn) c.implemented
  let constructors ← writeSome w.construct c.constructors
  let fields ← writeSome w.property c.fields
  let methods ← writeSome w.method c.methods
  return some (.aggregate (w.headOf fqn c.name c.doc) (.classType c.isAbstract base interfaces)
    (constructors ++ fields ++ methods))

/-- Writes an interface. -/
def interfaceType (i : Interface) : Writing (Option Item) := do
  let fqn := w.nameOf i.link
  if !w.emitted.contains fqn then return none
  let bases ← writeSome (w.supertype fqn) i.bases
  let properties ← writeSome w.property i.properties
  let methods ← writeSome w.method i.methods
  return some (.aggregate (w.headOf fqn i.name i.doc) (.interfaceType bases)
    (properties ++ methods))

/-- Writes an enum. -/
def enumType (e : Enum) : Writing (Option Item) := do
  let fqn := w.nameOf e.link
  if !w.emitted.contains fqn then return none
  return some (.aggregate (w.headOf fqn e.name e.doc) .enumType
    (← writeSome w.enumValue e.values))

/-- Writes the classes, interfaces and enums of a namespace. -/
def aggregates (s : Scope) : Writing (List Item) := do
  let classes ← writeSome w.classType s.classes
  let interfaces ← writeSome w.interfaceType s.interfaces
  let enums ← writeSome w.enumType s.enums
  return classes ++ interfaces ++ enums

/-- Writes a namespace as an interface: variables become properties and functions methods. -/
def nameSpaceInterface (s : Scope) : Writing Item := do
  let fqn := w.nameOf s.link
  let properties ← writeSome w.property s.constants
  let methods ← writeSome w.nameSpaceMethod s.functions
  return .aggregate (w.headOf fqn s.name s.doc)
    (.nameSpace (s.constants.isEmpty && s.functions.isEmpty)) (properties ++ methods)

end Writer

end Ambient.Declaration
