import Ambient.Correction.Loader
import Ambient.Declaration.Page
import Ambient.Identifier
import Ambient.TypeExpr.Correct

/-!
# Writing types

Type expressions as TypeScript. Names of the documentation dialect have fixed meanings; dotted
names and names of top-level symbols are references; what leads nowhere is written as `any` and
reported.
-/

namespace Ambient.TypeExpr

open Declaration (Resolver Writing warn refer)

/-- Names that exist without an import. -/
def environmentNames : List String :=
  ["ArrayBuffer", "Blob", "CSSStyleDeclaration", "DOMRect", "Date", "Document", "Element",
    "Error", "Event", "File", "HTMLElement", "HTMLInputElement", "Iterable", "KeyboardEvent",
    "Map", "MessageEvent", "MouseEvent", "Node", "Partial", "Record", "RegExp", "Request",
    "Response", "Set", "Storage", "TouchEvent", "Uint8Array", "WeakMap", "Window", "Worker",
    "XMLHttpRequest", Correction.moduleNamesInterface]

/-- The array of a written item type, which parentheses keep together. -/
def arrayOf (item : String) : String :=
  if Text.contains item " | " || "keyof ".toList.isPrefixOf item.toList then "(" ++ item ++ ")[]"
  else item ++ "[]"

/-- A name with its written arguments. -/
def withArguments (name : String) (args : List String) : String :=
  if args.isEmpty then name else name ++ "<" ++ ", ".intercalate args ++ ">"

/-- The alternatives without repeats, with bars between them. -/
def alternatives (members : List String) : String :=
  " | ".intercalate (Ordered.Set.ofList members).toList

/-- The written form of a name that has a fixed meaning. -/
def builtin? (name : String) (args : List String) : Option String :=
  if ["string", "String"].contains name then some "string"
  else if ["number", "Number", "int", "integer", "float", "double"].contains name then
    some "number"
  else if ["boolean", "Boolean", "bool"].contains name then some "boolean"
  else if ["any", "*"].contains name then some "any"
  else if ["void", "undefined", "null", "never", "unknown", "this", "symbol", "bigint",
      "object"].contains name then some name
  else if ["function", "Function"].contains name then some "Function"
  else if name = "map" then some "Record<string, any>"
  else if name = "Object" then
    match args with
    | [] => some "Record<string, any>"
    | [value] => some ("Record<string, " ++ value ++ ">")
    | key :: value :: _ => some ("Record<" ++ key ++ ", " ++ value ++ ">")
  else if ["array", "Array"].contains name then
    match args with
    | [] => some "any[]"
    | item :: _ => some (arrayOf item)
  else if name = "Promise" then some ("Promise<" ++ args.headD "any" ++ ">")
  else if name = "DomRef" then some "Element"
  else none

/-- Writes a name whose arguments have been written. -/
def writeName (r : Resolver) (name : String) (args : List String) : Writing String :=
  match builtin? name args with
  | some text => pure text
  | none =>
    if name.toList.contains '.' || r.table.contains name then
      match r.resolve name with
      | .ok symbol => do return withArguments (← refer symbol) args
      | .error cause => do
        warn .unresolvedType ("type `" ++ name ++ "` " ++ cause.reason ++ "; emitted as any")
        return "any"
    else if environmentNames.contains name then pure (withArguments name args)
    else do
      warn .unresolvedType ("type `" ++ name ++ "` is unknown; emitted as any")
      return "any"

mutual

/-- Writes an expression. -/
def write (r : Resolver) : TypeExpr → Writing String
  | .name word args => do writeName r word (← writeAll r args)
  | .array item => do return arrayOf (← write r item)
  | .union members => do return alternatives (← writeAll r members)
  | .keyof operand => do return "keyof " ++ (← write r operand)
  | .literal text => pure text
  | .function => pure "Function"
  | .unparsed raw => do
    warn .simplified ("type `" ++ raw ++ "` could not be parsed; emitted as any")
    return "any"

/-- Writes expressions from left to right. -/
def writeAll (r : Resolver) : List TypeExpr → Writing (List String)
  | [] => return []
  | expr :: rest => do
    let text ← write r expr
    return text :: (← writeAll r rest)

end

/-! ## Types of descriptions -/

/-- The expression for an occurrence of a type. A text that is corrected as a whole is taken as
its correction is; otherwise the names in it are corrected. -/
def ofSimple (d : Directives) (type : Api.SimpleType) : TypeExpr :=
  let raw := d.correct type
  if !type.skipsCorrection && raw == type.name then correct d.typos (ofText raw) else ofText raw

/-- Writes an occurrence of a type. -/
def writeSimple (r : Resolver) (type : Api.SimpleType) : Writing String :=
  write r (ofSimple r.directives type)

/-- Writes a declared type; a union without members is written as `any`. -/
def writeDeclared (r : Resolver) : Api.DeclaredType → Writing String
  | .simple type => writeSimple r type
  | .union members _ => do
    let texts ← members.mapM (writeSimple r)
    return if texts.isEmpty then "any" else alternatives texts

/-- Writes the type of a variable; without one it is `any`. -/
def writeOptional (r : Resolver) : Option Api.DeclaredType → Writing String
  | some type => writeDeclared r type
  | none => pure "any"

mutual

/-- Writes the type of a parameter. -/
def writeParameterType (r : Resolver) : Api.ParameterType → Writing String
  | .unspecified => pure "any"
  | .declared type => writeDeclared r type
  | .shape [] => pure "object"
  | .shape (entry :: rest) => do
    return "\x7b " ++ " ".intercalate (← writeEntries r (entry :: rest)) ++ " \x7d"

/-- Writes a parameter as a property of an option object under a key. -/
def writeEntry (r : Resolver) (key : String) : Api.Parameter → Writing String
  | .mk info type => do
    let mark := if info.isOptional || info.default.isSome then "?" else ""
    let text ← writeParameterType r type
    return Identifier.propertyKey key ++ mark ++ ": " ++ text ++ ";"

/-- Writes the properties of an option object. -/
def writeEntries (r : Resolver) : List (String × Api.Parameter) → Writing (List String)
  | [] => return []
  | (key, entry) :: rest => do
    let text ← writeEntry r key entry
    return text :: (← writeEntries r rest)

end

end Ambient.TypeExpr
