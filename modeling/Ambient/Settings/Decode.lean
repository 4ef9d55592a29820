import Ambient.Files.Fault
import Ambient.Settings.Basic
import Ambient.Toml.Document

/-!
# Reading settings

The sections of a settings file are records. A record is a table, where unknown keys are ignored,
or an array of its fields in their order, where what follows them is ignored and only fields with
a default may be missing.
-/

namespace Ambient

namespace Toml

/-- The fields of a record with the given keys: of a table by key, of an array by place. A moment of
time counts as a table without any of the keys. -/
inductive Fields where
  | named (entries : Entries)
  | placed (keys : List String) (items : List Toml)

/-- The fields of a value that is to be a record. -/
def fields? (keys : List String) : Toml → Option Fields
  | .table _ entries => some (.named entries)
  | .array _ items => some (.placed keys items)
  | .moment _ => some (.named [])
  | _ => none

namespace Fields

/-- The value of a field. -/
def get? (fields : Fields) (key : String) : Option Toml :=
  match fields with
  | .named entries => entries.get? key
  | .placed keys items => (keys.zip items).lookup key

/-- A field that must be there. -/
def required {α : Type} (fields : Fields) (key : String) (read : Toml → Option α) : Option α :=
  (fields.get? key).bind read

/-- A field that has a default. -/
def defaulted {α : Type} (fields : Fields) (key : String) (read : Toml → Option α) (absent : α) :
    Option α :=
  match fields.get? key with
  | some value => read value
  | none => some absent

/-- A field of a table that may be absent; in an array it must be there. -/
def optional {α : Type} (fields : Fields) (key : String) (read : Toml → Option α) :
    Option (Option α) :=
  match fields.get? key, fields with
  | some value, _ => (read value).map some
  | none, .named _ => some none
  | none, .placed .. => none

end Fields

/-- A string. -/
def asText? : Toml → Option String
  | .text s => some s
  | _ => none

/-- A truth value. -/
def asBool? : Toml → Option Bool
  | .bool b => some b
  | _ => none

/-- An array all of whose items can be read. -/
def asList? {α : Type} (read : Toml → Option α) : Toml → Option (List α)
  | .array _ items => items.mapM read
  | _ => none

/-- Whether a value is an empty array or table. -/
def isHollow : Toml → Bool
  | .array _ items => items.isEmpty
  | .table _ entries => entries.isEmpty
  | _ => false

/-- One of a list of words: a string, or a table that holds something empty under the word and
nothing else. -/
def asWord? {α : Type} (words : List (String × α)) : Toml → Option α
  | .text word => words.lookup word
  | .table _ [(word, value)] => if value.isHollow then words.lookup word else none
  | _ => none

end Toml

namespace Settings

open Toml

/-- Why settings cannot be read. -/
inductive Error where
  | unreadable (path : String) (fault : Files.Fault)
  | malformed (path : String)
deriving DecidableEq, Repr, Inhabited

/-- The text of an error. -/
def Error.message : Error → String
  | .unreadable path fault => "failed to read config " ++ path ++ ": " ++ fault.message
  | .malformed path => "invalid config " ++ path

/-- The words for flavors. -/
def flavorWords : List (String × Flavor) := Flavor.all.map fun flavor => (flavor.word, flavor)

/-- Reads the section of the primary library. -/
def source? (value : Toml) : Option Source := do
  let fields ← value.fields? ["name", "api", "directives"]
  return {
    name := ← fields.required "name" asText?
    api := ← fields.required "api" asText?
    directives := ← fields.defaulted "directives" (asList? asText?) [] }

/-- Reads the section of a dependency. -/
def dependency? (value : Toml) : Option Dependency := do
  let fields ← value.fields? ["name", "api", "directives", "declarations", "globals_declarations"]
  return {
    name := ← fields.required "name" asText?
    api := ← fields.required "api" asText?
    directives := ← fields.defaulted "directives" (asList? asText?) []
    declarations := ← fields.optional "declarations" asText?
    globals := ← fields.optional "globals_declarations" asText? }

/-- The fields of a section; a section that is missing is empty. -/
def sectionFields? (top : Entries) (name : String) (keys : List String) : Option Fields :=
  match top.get? name with
  | some value => value.fields? keys
  | none => some (.named [])

/-- Reads settings, seen from a directory. -/
def ofEntries? (top : Entries) (base : String) : Option Settings := do
  let library ← match top.get? "library" with
    | some value => (source? value).map some
    | none => some none
  let dependencies ← match top.get? "dependency" with
    | some value => asList? dependency? value
    | none => some []
  let output ← sectionFields? top "output" ["dir", "flavors", "augmentation_stubs"]
  let format ← sectionFields? top "format" ["command"]
  let check ← sectionFields? top "check" ["enabled", "command"]
  let symbols ← sectionFields? top "symbols" ["fail_on_collision"]
  return {
    library := library
    dependencies := dependencies
    output := ← output.optional "dir" asText?
    flavorChoice := ← output.optional "flavors" (asList? (asWord? flavorWords))
    stubChoice := ← output.optional "augmentation_stubs" asBool?
    formatCommand := ← format.optional "command" (asList? asText?)
    checkChoice := ← check.optional "enabled" asBool?
    checkCommand := ← check.optional "command" asText?
    strictChoice := ← symbols.optional "fail_on_collision" asBool?
    base := base }

/-- Reads the settings in a text, seen from a directory. -/
def parse? (text base : String) : Option Settings :=
  (Toml.read? text).bind fun top => ofEntries? top base

end Settings

end Ambient
