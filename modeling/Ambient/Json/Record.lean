import Ambient.Json.Basic
import Ambient.Ordered.Map

/-!
# Records in JSON

Reading structures of the library from JSON values. A field may be given once; a plain record may
also be written as the array of its fields in their order, where trailing ones may be missing.
-/

namespace Ambient.Json

/-- The members of an object. -/
abbrev Members := List (String × Json)

namespace Members

/-- The values of the members with a key. -/
def valuesOf (members : Members) (key : String) : List Json :=
  members.filterMap fun member => if member.1 = key then some member.2 else none

/-- Whether none of the keys is given twice. -/
def areSingle (members : Members) (keys : List String) : Bool :=
  keys.all fun key => (members.valuesOf key).length ≤ 1

/-- The value of a field that may be absent, read with `read`. -/
def field? {α : Type} (members : Members) (key : String) (read : Json → Option α) :
    Option (Option α) :=
  match members.valuesOf key with
  | [] => some none
  | value :: _ => (read value).map some

/-- The value of a field that must be there. -/
def required {α : Type} (members : Members) (key : String) (read : Json → Option α) : Option α := do
  (← members.field? key read)

/-- The value of a field that has a default. -/
def defaulted {α : Type} (members : Members) (key : String) (read : Json → Option α)
    (absent : α) : Option α := do
  return (← members.field? key read).getD absent

/-- The value of a field that may be absent or null. -/
def optional {α : Type} (members : Members) (key : String) (read : Json → Option α) :
    Option (Option α) := do
  let value ← members.field? key fun value =>
    match value with
    | .null => some none
    | value => (read value).map some
  return value.getD none

end Members

/-- The members of a plain record with the given fields. -/
def record? (keys : List String) : Json → Option Members
  | .object members => if Members.areSingle members keys then some members else none
  | .array items => if items.length ≤ keys.length then some (keys.zip items) else none
  | _ => none

/-- A string. -/
def asText? : Json → Option String
  | .text s => some s
  | _ => none

/-- A boolean. -/
def asBool? : Json → Option Bool
  | .bool b => some b
  | _ => none

/-- An array all of whose items can be read. -/
def asList? {α : Type} (read : Json → Option α) : Json → Option (List α)
  | .array items => items.mapM read
  | _ => none

/-- An object all of whose values can be read; of several members with one key the last counts, in
the place of the first. -/
def asMap? {α : Type} (read : Json → Option α) : Json → Option (Ordered.Map String α)
  | .object members => do
    let entries ← members.mapM fun member => (read member.2).map fun value => (member.1, value)
    return Ordered.Map.ofListLast entries
  | _ => none

/-- One of a list of words, written as a string or as the only key of an object that holds null. -/
def asWord? {α : Type} (words : List (String × α)) : Json → Option α
  | .text word => words.lookup word
  | .object [(word, .null)] => words.lookup word
  | _ => none

end Ambient.Json
