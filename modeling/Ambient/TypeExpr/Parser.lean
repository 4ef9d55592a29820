import Ambient.TypeExpr.Basic
import Ambient.TypeExpr.Token

/-!
# Reading type expressions

    union   ::= postfixed ('|' postfixed)*
    postfixed ::= primary ('[' ']')*
    primary ::= '(' union ')' | literal | 'keyof' primary
              | 'function' group (':' postfixed)? | name ('<' union (',' union)* '>')?

A group is a balanced run of tokens in parentheses, whatever they are. Each function reads as much
as it can from the front and answers the tokens that are left; there is no going back. The first
argument bounds the nesting of calls, of which a text needs at most four for each of its tokens.
-/

namespace Ambient.TypeExpr

/-- Why reading ends without an expression. -/
inductive Stop where
  /-- The tokens do not make up an expression. -/
  | refused
  /-- A parenthesis closes a group that none has opened. -/
  | unopened
  /-- The bound on nested calls has been reached. -/
  | exhausted
deriving DecidableEq, Repr

/-- How many parentheses are open after one more token. -/
def nextDepth (depth : Nat) : Token → Except Stop Nat
  | .mark '(' => .ok (depth + 1)
  | .mark ')' => if depth = 0 then .error .unopened else .ok (depth - 1)
  | _ => .ok depth

/-- Drops a balanced run of tokens; `depth` parentheses are open. -/
def skipGroup : Nat → List Token → Except Stop (List Token)
  | _, [] => .error .refused
  | depth, token :: rest => do
    let depth ← nextDepth depth token
    if depth = 0 then return rest else skipGroup depth rest

/-- Reads the brackets that follow an expression. -/
def brackets : TypeExpr → List Token → Except Stop (TypeExpr × List Token)
  | item, .mark '[' :: .mark ']' :: rest => brackets (.array item) rest
  | _, .mark '[' :: _ => .error .refused
  | item, rest => .ok (item, rest)

/-- The union of alternatives, or the only one. -/
def unionOf (first : TypeExpr) (others : List TypeExpr) : TypeExpr :=
  if others.isEmpty then first else .union (first :: others)

mutual

/-- Reads a union. -/
def parseUnion : Nat → List Token → Except Stop (TypeExpr × List Token)
  | 0, _ => .error .exhausted
  | bound + 1, tokens => do
    let (first, rest) ← parsePostfixed bound tokens
    let (others, rest) ← parseAlternatives bound rest
    return (unionOf first others, rest)

/-- Reads further alternatives of a union. -/
def parseAlternatives : Nat → List Token → Except Stop (List TypeExpr × List Token)
  | 0, _ => .error .exhausted
  | bound + 1, .mark '|' :: rest => do
    let (first, rest) ← parsePostfixed bound rest
    let (others, rest) ← parseAlternatives bound rest
    return (first :: others, rest)
  | _ + 1, rest => .ok ([], rest)

/-- Reads a primary expression and the brackets that follow it. -/
def parsePostfixed : Nat → List Token → Except Stop (TypeExpr × List Token)
  | 0, _ => .error .exhausted
  | bound + 1, tokens => do
    let (item, rest) ← parsePrimary bound tokens
    brackets item rest

/-- Reads a primary expression. -/
def parsePrimary : Nat → List Token → Except Stop (TypeExpr × List Token)
  | 0, _ => .error .exhausted
  | bound + 1, .mark '(' :: rest => do
    let (inner, rest) ← parseUnion bound rest
    match rest with
    | .mark ')' :: rest => return (inner, rest)
    | _ => .error .refused
  | _ + 1, .literal text :: rest => .ok (.literal text, rest)
  | bound + 1, .name word :: rest =>
    if word = "keyof" then do
      let (operand, rest) ← parsePrimary bound rest
      return (.keyof operand, rest)
    else if word = "function" ∧ rest.head? = some (.mark '(') then do
      match ← skipGroup 0 rest with
      | .mark ':' :: rest => do
        let (_, rest) ← parsePostfixed bound rest
        return (.function, rest)
      | rest => return (.function, rest)
    else
      match rest with
      | .mark '<' :: rest => do
        let (args, rest) ← parseArguments bound rest
        return (.name word args, rest)
      | rest => .ok (.name word [], rest)
  | _ + 1, _ => .error .refused

/-- Reads the arguments of a name and the bracket that closes them. -/
def parseArguments : Nat → List Token → Except Stop (List TypeExpr × List Token)
  | 0, _ => .error .exhausted
  | bound + 1, tokens => do
    let (first, rest) ← parseUnion bound tokens
    match rest with
    | .mark ',' :: rest => do
      let (others, rest) ← parseArguments bound rest
      return (first :: others, rest)
    | .mark '>' :: rest => return ([first], rest)
    | _ => .error .refused

end

/-- Reads a list of tokens to its end. -/
def read (tokens : List Token) : Except Stop TypeExpr := do
  match ← parseUnion (4 * tokens.length + 4) tokens with
  | (expr, []) => return expr
  | _ => .error .refused

/-- The expression that a list of tokens makes up. -/
def ofTokens? (tokens : List Token) : Option TypeExpr := (read tokens).toOption

/-- The expression that a text makes up. -/
def parse? (raw : String) : Option TypeExpr := do ofTokens? (← tokens? raw)

/-- The expression that a text makes up, or the text itself in its place. -/
def ofText (raw : String) : TypeExpr := (parse? raw).getD (.unparsed raw)

end Ambient.TypeExpr
