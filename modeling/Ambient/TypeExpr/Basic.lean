import Ambient.Ordered.Map

/-!
# Type expressions

The dialect in which descriptions write types: names with arguments, arrays, unions, key types,
literals and functions. A function type is not looked into.
-/

namespace Ambient

/-- A type expression. -/
inductive TypeExpr where
  | name (name : String) (args : List TypeExpr)
  | array (item : TypeExpr)
  | union (members : List TypeExpr)
  | keyof (operand : TypeExpr)
  /-- A string literal, with its double quotes. -/
  | literal (text : String)
  | function
  /-- Text in the place of an expression that is not one. -/
  | unparsed (raw : String)
deriving Repr, Inhabited

end Ambient
