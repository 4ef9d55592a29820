import Ambient.Ordered.Map
import Ambient.TypeExpr.Parser

/-!
# Typo corrections inside expressions

Every name of an expression that is a key of the corrections gives way to its correction. What
has been put in place is not corrected again: neither the expression that a bare name is replaced
by, nor the arguments of a name that is replaced by another.
-/

namespace Ambient.TypeExpr

mutual

/-- The expression with its names corrected. -/
def correct (typos : Ordered.Map String String) : TypeExpr → TypeExpr
  | .name word args =>
    match typos.get? word with
    | some fixed => if args.isEmpty then ofText fixed else .name fixed args
    | none => .name word (correctAll typos args)
  | .array item => .array (correct typos item)
  | .union members => .union (correctAll typos members)
  | .keyof operand => .keyof (correct typos operand)
  | .literal text => .literal text
  | .function => .function
  | .unparsed raw => .unparsed raw

/-- The expressions with their names corrected. -/
def correctAll (typos : Ordered.Map String String) : List TypeExpr → List TypeExpr
  | [] => []
  | expr :: rest => correct typos expr :: correctAll typos rest

end

end Ambient.TypeExpr
