import Ambient.Decimal.Shortest
import Ambient.Json.Basic

/-!
# Printing JSON compactly

One line without spaces. Keys are sorted by their characters, and of several members with one key
the last one counts.
-/

namespace Ambient.Json

/-- A hexadecimal digit in lower case. -/
def hexDigit (n : Nat) : Char :=
  if n < 10 then Char.ofNat ('0'.toNat + n) else Char.ofNat ('a'.toNat + (n - 10))

/-- A character inside a quoted string. -/
def quotedChar (c : Char) : List Char :=
  match c with
  | '\x22' => ['\\', '\x22']
  | '\\' => ['\\', '\\']
  | '\x08' => ['\\', 'b']
  | '\x0c' => ['\\', 'f']
  | '\n' => ['\\', 'n']
  | '\r' => ['\\', 'r']
  | '\t' => ['\\', 't']
  | _ =>
    if c.toNat < 0x20 then ['\\', 'u', '0', '0', hexDigit (c.toNat / 16), hexDigit (c.toNat % 16)]
    else [c]

/-- A quoted string. -/
def quoted (s : String) : String :=
  String.ofList ('\x22' :: s.toList.flatMap quotedChar ++ ['\x22'])

/-- The text of a number. -/
def Number.render : Number → String
  | .natural n => Nat.repr n
  | .negative n => "-" ++ Nat.repr n
  | .real isNegative magnitude => (if isNegative then "-" else "") ++ magnitude.render

/-- Puts the text of a member in its place among sorted ones; a member with the same key gives
way. -/
def insertSorted (key text : String) : List (String × String) → List (String × String)
  | [] => [(key, text)]
  | (other, otherText) :: rest =>
    if key = other then (key, text) :: rest
    else if key < other then (key, text) :: (other, otherText) :: rest
    else (other, otherText) :: insertSorted key text rest

/-- The texts of the members sorted by their keys. -/
def sortedTexts (texts : List (String × String)) : List (String × String) :=
  texts.foldl (fun sorted member => insertSorted member.1 member.2 sorted) []

mutual

/-- The text of a value. -/
def render : Json → String
  | .null => "null"
  | .bool true => "true"
  | .bool false => "false"
  | .number n => n.render
  | .text s => quoted s
  | .array items => "[" ++ ",".intercalate (renderItems items) ++ "]"
  | .object members =>
    let texts := (sortedTexts (renderMembers members)).map fun member =>
      quoted member.1 ++ ":" ++ member.2
    "\x7b" ++ ",".intercalate texts ++ "\x7d"
  | .unreadable => "null"

/-- The texts of the items of an array. -/
def renderItems : List Json → List String
  | [] => []
  | item :: rest => item.render :: renderItems rest

/-- The keys of the members of an object with the texts of their values. -/
def renderMembers : List (String × Json) → List (String × String)
  | [] => []
  | (key, value) :: rest => (key, value.render) :: renderMembers rest

end

end Ambient.Json
