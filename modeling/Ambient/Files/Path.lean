import Ambient.Text.Replace

/-!
# Paths as texts

Paths are joined as they are written and never normalized; a walk through the file tree gives
them their meaning.
-/

namespace Ambient.Files

/-- Whether a path starts at the root. -/
def isAbsolute (path : String) : Bool := path.toList.head? == some '/'

/-- A path seen from a base: absolute paths stay, and nothing stands for the working directory. -/
def join (base path : String) : String :=
  if isAbsolute path || base.isEmpty then path
  else if base.toList.getLast? == some '/' then base ++ path
  else base ++ "/" ++ path

/-- The reversed characters of a path without the separators and needless dots they start with. -/
def trimReversed : List Char → List Char
  | ['/'] => ['/']
  | '/' :: rest => trimReversed rest
  | ['.', '/'] => ['/']
  | '.' :: '/' :: rest => trimReversed rest
  | cs => cs

/-- The path of the directory that holds a file. -/
def parent (path : String) : String :=
  let name := trimReversed path.toList.reverse
  String.ofList (trimReversed (name.dropWhile fun c => c != '/')).reverse

/-- The names in a path, dots included. -/
def parts (path : String) : List String :=
  (Text.segments '/' path).filter fun part => !part.isEmpty

/-- Whether a path ends in a separator, so that it can only be that of a directory. -/
def endsInSeparator (path : String) : Bool := path.toList.getLast? == some '/'

end Ambient.Files
