import Ambient.Text.Replace

/-!
# Names in declarations

Which names can be written as they are: plain ASCII identifiers, and among them those that are
not reserved words. Other names are quoted as property keys, and made over as parameter names.
-/

namespace Ambient.Identifier

/-- Whether a character may start a plain identifier. -/
def isStart (c : Char) : Bool := c.isAlpha || c == '_' || c == '$'

/-- Whether a character may stand in a plain identifier. -/
def isPart (c : Char) : Bool := c.isAlphanum || c == '_' || c == '$'

/-- Whether the characters are a plain identifier. -/
def isPlainChars : List Char → Bool
  | [] => false
  | first :: rest => isStart first && rest.all isPart

/-- Whether a name is a plain identifier. -/
def isPlain (name : String) : Bool := isPlainChars name.toList

/-- The reserved words, those of strict code included. -/
def reservedWords : List String :=
  ["break", "case", "catch", "class", "const", "continue", "debugger", "default", "delete", "do",
    "else", "enum", "export", "extends", "false", "finally", "for", "function", "if", "import",
    "in", "instanceof", "new", "null", "return", "super", "switch", "this", "throw", "true",
    "try", "typeof", "var", "void", "while", "with", "implements", "interface", "let", "package",
    "private", "protected", "public", "static", "yield", "await"]

/-- Whether a name is a reserved word. -/
def isReserved (name : String) : Bool := reservedWords.contains name

/-- Whether a name can be declared as a binding. -/
def isBinding (name : String) : Bool := isPlain name && !isReserved name

/-- A character inside a double-quoted literal. -/
def literalChar (c : Char) : List Char :=
  if c = '\\' || c = '\x22' then ['\\', c] else [c]

/-- A double-quoted string literal. -/
def literal (value : String) : String :=
  String.ofList ('\x22' :: value.toList.flatMap literalChar ++ ['\x22'])

/-- A property key: the name, quoted unless it is a plain identifier. -/
def propertyKey (name : String) : String :=
  if isPlain name then name else literal name

/-- The characters with an underscore for each that may not stand in an identifier, and one in
front unless an identifier may start as they do. -/
def cleaned (cs : List Char) : List Char :=
  let parts := cs.map fun c => if isPart c then c else '_'
  match parts with
  | [] => ['_']
  | first :: _ => if first.isDigit then '_' :: parts else parts

/-- The name under which a parameter is written in a signature. -/
def parameterName (name : String) : String :=
  if isReserved name then name ++ "_"
  else if isPlain name then name
  else String.ofList (cleaned name.toList)

end Ambient.Identifier
