import Ambient.Api.Basic
import Ambient.Json.Record

/-!
# Reading API descriptions

Decoding the tree from JSON. Documented nodes (namespaces, classes, interfaces, enums, variables
and functions) are objects whose every further member must be readable, since documentation is
looked for among them; the other records are plain. A parameter's type is tried as a declared type
first and as an option object second.
-/

namespace Ambient.Api

open Json (Members)

/-! ## Words, documentation and declared types -/

/-- Reads a kind. -/
def Kind.ofJson? : Json → Option Kind :=
  Json.asWord? (Kind.all.map fun kind => (kind.word, kind))

/-- Reads a visibility. -/
def Visibility.ofJson? : Json → Option Visibility :=
  Json.asWord? [("restricted", .restricted), ("protected", .guarded), ("public", .open)]

/-- Reads a notice. -/
def Notice.ofJson? (json : Json) : Option Notice := do
  let members ← Json.record? ["text", "since"] json
  return {
    text := ← members.optional "text" Json.asText?
    since := ← members.optional "since" Json.asText? }

/-- The keys under which documentation stands. -/
def Doc.keys : List String :=
  ["description", "since", "deprecation", "experimental", "additionalNotes"]

/-- Reads the documentation among the members of a node. -/
def Doc.ofMembers? (members : Members) : Option Doc := do
  return {
    description := ← members.optional "description" Json.asText?
    since := ← members.optional "since" Json.asText?
    deprecation := ← members.optional "deprecation" Notice.ofJson?
    experimental := ← members.optional "experimental" Notice.ofJson?
    notes := ← members.defaulted "additionalNotes" (Json.asList? Json.asText?) [] }

/-- The members of a documented node with the given fields: none of them and of the documentation
is given twice, and everything but the fields can be read. -/
def documented? (keys : List String) : Json → Option Members
  | .object members =>
    let areOthersReadable := members.all fun member =>
      keys.contains member.1 || member.2.isReadable
    if Members.areSingle members (keys ++ Doc.keys) && areOthersReadable then some members
    else none
  | _ => none

/-- Reads a type expression. -/
def SimpleType.ofMembers? (members : Members) : Option SimpleType := do
  return {
    name := ← members.required "type" Json.asText?
    skipsCorrection := ← members.defaulted "skipCorrection" Json.asBool? false
    link := .unset }

/-- The fields of a type expression. -/
def SimpleType.keys : List String := ["type", "skipCorrection"]

/-- Reads a member of a union. -/
def SimpleType.ofJson? (json : Json) : Option SimpleType := do
  SimpleType.ofMembers? (← Json.record? SimpleType.keys json)

/-- Reads the declared type of a kind from the rest of its record. -/
def DeclaredType.ofRecord? (kind : Kind) (rest : Json) : Option DeclaredType :=
  match kind with
  | .simpleType => do
    return .simple (← SimpleType.ofMembers? (← Json.record? SimpleType.keys rest))
  | .unionType => do
    let members ← Json.record? ["types"] rest
    return .union (← members.defaulted "types" (Json.asList? SimpleType.ofJson?) []) .unset
  | _ => none

/-- Reads the kind of a declared type: its word, or, where `byPosition`, its place among the two
kinds. -/
def DeclaredType.kind? (byPosition : Bool) : Json → Option Kind
  | .text word => [Kind.simpleType, .unionType].find? fun kind => kind.word == word
  | .number (.natural n) => if byPosition then [Kind.simpleType, .unionType][n]? else none
  | _ => none

/-- Reads a declared type: a record that names its kind in a field of its own, or in front. -/
def DeclaredType.ofJsonWith? (byPosition : Bool) (json : Json) : Option DeclaredType :=
  if json.isReadable then
    match json with
    | .object members => do
      match Members.valuesOf members "kind" with
      | [kind] =>
        DeclaredType.ofRecord? (← DeclaredType.kind? byPosition kind)
          (.object (members.filter fun member => member.1 != "kind"))
      | _ => none
    | .array (kind :: rest) => do
      DeclaredType.ofRecord? (← DeclaredType.kind? byPosition kind) (.array rest)
    | _ => none
  else none

/-- Reads a declared type. -/
def DeclaredType.ofJson? : Json → Option DeclaredType := DeclaredType.ofJsonWith? false

/-! ## Parameters -/

/-- The fields of a parameter. -/
def Parameter.keys : List String :=
  ["kind", "name", "type", "defaultValue", "optional", "description"]

/-- Reads a value of any kind. -/
def anyValue? (json : Json) : Option Json :=
  if json.isReadable then some json else none

/-- Reads what a parameter says about itself. -/
def ParameterInfo.ofMembers? (members : Members) : Option ParameterInfo := do
  return {
    kind := ← members.optional "kind" Kind.ofJson?
    name := ← members.defaulted "name" Json.asText? ""
    default := ← members.optional "defaultValue" anyValue?
    isOptional := ← members.defaulted "optional" Json.asBool? false
    description := ← members.optional "description" Json.asText?
    link := .unset }

/-- The map in which a key that comes several times stands where it came first and has the entry
that came last. -/
def lastEntries (entries : List (String × Parameter)) : List (String × Parameter) :=
  (Ordered.Map.ofListLast entries).entries

mutual

/-- Reads a parameter. -/
def Parameter.ofJson? : Json → Option Parameter
  | .object members => do
    let info ← ParameterInfo.ofMembers? (← Json.record? Parameter.keys (.object members))
    return .mk info (← ParameterType.ofMembers? members)
  | .array items => do
    let info ← ParameterInfo.ofMembers? (← Json.record? Parameter.keys (.array items))
    match items with
    | _ :: _ :: type :: _ => return .mk info (← ParameterType.ofJson? type)
    | _ => return .mk info .unspecified
  | _ => none

/-- Reads the type among the members of a parameter. -/
def ParameterType.ofMembers? : List (String × Json) → Option ParameterType
  | [] => some .unspecified
  | (key, value) :: rest =>
    if key = "type" then ParameterType.ofJson? value else ParameterType.ofMembers? rest

/-- Reads the type of a parameter. -/
def ParameterType.ofJson? : Json → Option ParameterType
  | .null => some .unspecified
  | .object members =>
    match DeclaredType.ofJsonWith? true (.object members) with
    | some type => some (.declared type)
    | none =>
      if Json.areReadableMembers members then
        (Parameter.entriesOf? members).map fun entries => .shape (lastEntries entries)
      else none
  | json => (DeclaredType.ofJsonWith? true json).map .declared

/-- Reads the entries of an option object. -/
def Parameter.entriesOf? : List (String × Json) → Option (List (String × Parameter))
  | [] => some []
  | (key, value) :: rest => do
    let entry ← Parameter.ofJson? value
    return (key, entry) :: (← Parameter.entriesOf? rest)

end

/-! ## Functions, variables and aggregates -/

/-- Reads what a function returns, or an error it throws. -/
def Outcome.ofJson? (json : Json) : Option Outcome := do
  let members ← Json.record? ["type", "description"] json
  return {
    type := ← members.optional "type" DeclaredType.ofJson?
    description := ← members.optional "description" Json.asText? }

/-- Reads a variable. -/
def Variable.ofJson? (json : Json) : Option Variable := do
  let members ← documented? ["kind", "name", "static", "type", "visibility"] json
  return {
    kind := ← members.required "kind" Kind.ofJson?
    name := ← members.defaulted "name" Json.asText? ""
    isStatic := ← members.defaulted "static" Json.asBool? false
    type := ← members.optional "type" DeclaredType.ofJson?
    visibility := ← members.optional "visibility" Visibility.ofJson?
    doc := ← Doc.ofMembers? members
    link := .unset }

/-- Reads a function. -/
def Function.ofJson? (json : Json) : Option Function := do
  let members ← documented?
    ["kind", "name", "static", "overwrite", "parameters", "returns", "throws", "visibility"] json
  return {
    kind := ← members.required "kind" Kind.ofJson?
    name := ← members.defaulted "name" Json.asText? ""
    isStatic := ← members.defaulted "static" Json.asBool? false
    overwrites := ← members.defaulted "overwrite" Json.asBool? false
    parameters := ← members.defaulted "parameters" (Json.asList? Parameter.ofJson?) []
    returns := ← members.optional "returns" Outcome.ofJson?
    throws := ← members.defaulted "throws" (Json.asList? Outcome.ofJson?) []
    visibility := ← members.optional "visibility" Visibility.ofJson?
    doc := ← Doc.ofMembers? members
    link := .unset }

/-- Reads a class. -/
def Class.ofJson? (json : Json) : Option Class := do
  let members ← documented?
    ["kind", "name", "extends", "implements", "constructors", "fields", "methods", "abstract",
      "visibility", "implementsBaseObject"] json
  return {
    kind := ← members.required "kind" Kind.ofJson?
    name := ← members.defaulted "name" Json.asText? ""
    base := ← members.optional "extends" Json.asText?
    implemented := ← members.defaulted "implements" (Json.asList? Json.asText?) []
    constructors := ← members.defaulted "constructors" (Json.asList? Function.ofJson?) []
    fields := ← members.defaulted "fields" (Json.asList? Variable.ofJson?) []
    methods := ← members.defaulted "methods" (Json.asList? Function.ofJson?) []
    isAbstract := ← members.defaulted "abstract" Json.asBool? false
    visibility := ← members.optional "visibility" Visibility.ofJson?
    derivesFromBase := ← members.defaulted "implementsBaseObject" Json.asBool? false
    doc := ← Doc.ofMembers? members
    link := .unset }

/-- Reads an interface. -/
def Interface.ofJson? (json : Json) : Option Interface := do
  let members ← documented?
    ["kind", "name", "extends", "methods", "properties", "visibility", "stakeholders"] json
  return {
    kind := ← members.required "kind" Kind.ofJson?
    name := ← members.defaulted "name" Json.asText? ""
    bases := ← members.defaulted "extends" (Json.asList? Json.asText?) []
    methods := ← members.defaulted "methods" (Json.asList? Function.ofJson?) []
    properties := ← members.defaulted "properties" (Json.asList? Variable.ofJson?) []
    visibility := ← members.optional "visibility" Visibility.ofJson?
    stakeholders := ← members.defaulted "stakeholders" (Json.asList? Json.asText?) []
    doc := ← Doc.ofMembers? members
    link := .unset }

/-- Reads an enum. -/
def Enum.ofJson? (json : Json) : Option Enum := do
  let members ← documented? ["kind", "name", "visibility", "values"] json
  return {
    kind := ← members.required "kind" Kind.ofJson?
    name := ← members.defaulted "name" Json.asText? ""
    visibility := ← members.optional "visibility" Visibility.ofJson?
    values := ← members.defaulted "values" (Json.asList? Variable.ofJson?) []
    doc := ← Doc.ofMembers? members
    link := .unset }

/-- Reads what a namespace declares itself. -/
def Scope.ofJson? (json : Json) : Option Scope := do
  let members ← documented?
    ["kind", "name", "visibility", "namespaces", "variables", "functions", "classes", "interfaces",
      "enums"] json
  return {
    kind := ← members.required "kind" Kind.ofJson?
    name := ← members.defaulted "name" Json.asText? ""
    visibility := ← members.optional "visibility" Visibility.ofJson?
    doc := ← Doc.ofMembers? members
    constants := ← members.defaulted "variables" (Json.asList? Variable.ofJson?) []
    functions := ← members.defaulted "functions" (Json.asList? Function.ofJson?) []
    classes := ← members.defaulted "classes" (Json.asList? Class.ofJson?) []
    interfaces := ← members.defaulted "interfaces" (Json.asList? Interface.ofJson?) []
    enums := ← members.defaulted "enums" (Json.asList? Enum.ofJson?) []
    link := .unset }

mutual

/-- Reads a namespace. -/
def Namespace.ofJson? : Json → Option Namespace
  | .object members => do
    let scope ← Scope.ofJson? (.object members)
    return ⟨scope, ← Namespace.nestedOf? members⟩
  | _ => none

/-- Reads the nested namespaces among the members of a namespace. -/
def Namespace.nestedOf? : List (String × Json) → Option (List Namespace)
  | [] => some []
  | (key, value) :: rest =>
    if key = "namespaces" then
      match value with
      | .array items => Namespace.listOf? items
      | _ => none
    else Namespace.nestedOf? rest

/-- Reads a list of namespaces. -/
def Namespace.listOf? : List Json → Option (List Namespace)
  | [] => some []
  | item :: rest => do
    let ns ← Namespace.ofJson? item
    return ns :: (← Namespace.listOf? rest)

end

/-- Reads the description of a library. -/
def Description.ofJson? (json : Json) : Option Description := do
  let members ← Json.record? ["kind", "version", "topLevelNamespace"] json
  return {
    kind := ← members.required "kind" Kind.ofJson?
    version := ← members.defaulted "version" Json.asText? ""
    top := ← members.required "topLevelNamespace" Namespace.ofJson?
    link := .unset }

end Ambient.Api
