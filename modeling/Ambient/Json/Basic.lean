import Ambient.Decimal.Double

/-!
# JSON values

A value as it is written: an object keeps the order and the repeats of its keys. Text that is
well formed but stands for nothing that can be read has a value of its own, `unreadable`, so that
it does harm only where somebody looks at it.
-/

namespace Ambient

/-- A number: a whole one that fits 64 bits, without or with a sign, or a double. -/
inductive Json.Number where
  | natural (n : Nat)
  | negative (n : Nat)
  | real (isNegative : Bool) (magnitude : Decimal.Double)
deriving DecidableEq, Repr, Inhabited

/-- A JSON value. -/
inductive Json where
  | null
  | bool (b : Bool)
  | number (n : Json.Number)
  | text (s : String)
  | array (items : List Json)
  | object (members : List (String × Json))
  /-- A string with an unpaired surrogate, a number beyond the doubles, an object with such a
  string for a key, or a container inside more containers than are allowed. -/
  | unreadable
deriving Repr, BEq, Inhabited

namespace Json

mutual

/-- Whether every part of the value can be read. -/
def isReadable : Json → Bool
  | .array items => areReadable items
  | .object members => areReadableMembers members
  | .unreadable => false
  | _ => true

/-- Whether every part of the values can be read. -/
def areReadable : List Json → Bool
  | [] => true
  | item :: rest => item.isReadable && areReadable rest

/-- Whether every part of the members can be read. -/
def areReadableMembers : List (String × Json) → Bool
  | [] => true
  | (_, value) :: rest => value.isReadable && areReadableMembers rest

end

end Json

end Ambient
