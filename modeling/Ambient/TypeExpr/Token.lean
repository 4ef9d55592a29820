import Ambient.Text.Alphanumeric
import Ambient.Text.Blank

/-!
# Tokens of type expressions

Names are maximal runs of letters, digits, underscores, dollar signs, dots and asterisks. A
literal runs from a quote to the next one of its kind, without escapes. Blanks separate.
-/

namespace Ambient.TypeExpr

/-- A token. -/
inductive Token where
  | name (name : String)
  /-- A string literal, with double quotes. -/
  | literal (text : String)
  | mark (c : Char)
deriving DecidableEq, Repr, Inhabited

/-- Whether a character may stand in a name. -/
def isNameChar (c : Char) : Bool :=
  Text.isAlphanumeric c || c == '_' || c == '$' || c == '.' || c == '*'

/-- Whether a character is a token by itself. -/
def isMark (c : Char) : Bool := "<>,|[]():".toList.contains c

/-- Whether a character opens a literal, and closes it again. -/
def isQuote (c : Char) : Bool := c == '\x22' || c == '\x27'

/-- The characters up to the next quote of the kind, if there is one. -/
def untilQuote? (quote : Char) (cs : List Char) : Option (List Char) :=
  if cs.contains quote then some (cs.takeWhile fun c => c != quote) else none

/-- The tokens of the characters; the first `skip` ones belong to a token that has been read
already. -/
def tokensFrom : Nat → List Char → Option (List Token)
  | _, [] => some []
  | skip + 1, _ :: rest => tokensFrom skip rest
  | 0, c :: rest =>
    if Text.isBlank c then tokensFrom 0 rest
    else if isNameChar c then do
      let more := rest.takeWhile isNameChar
      return .name (String.ofList (c :: more)) :: (← tokensFrom more.length rest)
    else if isQuote c then do
      let content ← untilQuote? c rest
      let text := String.ofList ('\x22' :: content ++ ['\x22'])
      return .literal text :: (← tokensFrom (content.length + 1) rest)
    else if isMark c then do
      return .mark c :: (← tokensFrom 0 rest)
    else none

/-- The tokens of a text, unless a character may not stand where it does. -/
def tokens? (raw : String) : Option (List Token) := tokensFrom 0 raw.toList

end Ambient.TypeExpr
