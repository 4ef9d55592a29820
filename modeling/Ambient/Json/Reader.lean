import Ambient.Json.Token

/-!
# Reading JSON

The syntactic half of reading JSON: a stack of the containers that are open takes the tokens one
by one. A container inside 127 others is consumed like any other and comes out `unreadable`.
-/

namespace Ambient.Json

/-- A container that is open, with what it holds so far, last first. An object also says whether
all its keys can be read, and has the key of the member that is being read. -/
inductive Frame where
  | array (items : List Json)
  | object (members : List (String × Json)) (hasKeys : Bool) (key : String)

/-- What may come next. -/
inductive Expectation where
  | value
  | firstItem
  | firstKey
  | key
  | colon
  | separator
  | nothing

/-- The containers that are open, innermost first, what may come next, and the value once it is
complete. -/
structure Reader where
  stack : List Frame
  next : Expectation
  result : Option Json

/-- The greatest number of containers that may be open at a time. -/
def depthLimit : Nat := 127

namespace Reader

/-- Nothing read yet. -/
def start : Reader := ⟨[], .value, none⟩

/-- A value is complete: it belongs to the innermost open container, or is the whole text. -/
def complete (stack : List Frame) (value : Json) : Reader :=
  match stack with
  | [] => ⟨[], .nothing, some value⟩
  | .array items :: outer => ⟨.array (value :: items) :: outer, .separator, none⟩
  | .object members hasKeys key :: outer =>
    ⟨.object ((key, value) :: members) hasKeys key :: outer, .separator, none⟩

/-- A container is complete; `outer` are those around it. -/
def close (outer : List Frame) (value : Json) : Reader :=
  complete outer (if outer.length < depthLimit then value else .unreadable)

/-- The reader after a token, or `none` where the token may not stand. -/
def step (r : Reader) (token : Token) : Option Reader :=
  match r.next, token, r.stack with
  | .value, .openArray, stack | .firstItem, .openArray, stack =>
    some ⟨.array [] :: stack, .firstItem, none⟩
  | .value, .openObject, stack | .firstItem, .openObject, stack =>
    some ⟨.object [] true "" :: stack, .firstKey, none⟩
  | .firstItem, .closeArray, .array _ :: outer => some (close outer (.array []))
  | .firstKey, .closeObject, .object .. :: outer => some (close outer (.object []))
  | .firstKey, .text key, .object members hasKeys _ :: outer
  | .key, .text key, .object members hasKeys _ :: outer =>
    some ⟨.object members (hasKeys && key.isSome) (key.getD "") :: outer, .colon, none⟩
  | .separator, .comma, .array items :: outer => some ⟨.array items :: outer, .value, none⟩
  | .separator, .comma, .object members hasKeys key :: outer =>
    some ⟨.object members hasKeys key :: outer, .key, none⟩
  | .separator, .closeArray, .array items :: outer => some (close outer (.array items.reverse))
  | .separator, .closeObject, .object members hasKeys _ :: outer =>
    some (close outer (if hasKeys then .object members.reverse else .unreadable))
  | .colon, .colon, stack => some ⟨stack, .value, none⟩
  | .value, token, stack | .firstItem, token, stack => token.value?.map (complete stack)
  | _, _, _ => none

end Reader

/-- The value a text stands for, if it is well formed. -/
def read? (s : String) : Option Json := do
  let reader ← (← tokens s).foldlM Reader.step Reader.start
  reader.result

end Ambient.Json
