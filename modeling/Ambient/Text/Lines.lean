/-!
# Lines

A line ends at a line feed, or at a carriage return followed by one. The last line need not be
ended, and an ended line starts no further one.
-/

namespace Ambient.Text

/-- Drops the carriage return that stands last in a line held in reverse. -/
def dropReturn : List Char → List Char
  | [] => []
  | c :: rest => if c = '\r' then rest else c :: rest

/-- The lines of the characters to come; `line` holds, last first, the line that is being read. -/
def linesFrom (line : List Char) : List Char → List (List Char)
  | [] => if line.isEmpty then [] else [line.reverse]
  | c :: rest =>
    if c = '\n' then (dropReturn line).reverse :: linesFrom [] rest
    else linesFrom (c :: line) rest

/-- The lines of a text, without what ends them. -/
def lines (s : String) : List String :=
  (linesFrom [] s.toList).map String.ofList

end Ambient.Text
