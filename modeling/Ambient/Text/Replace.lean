/-!
# Searching and replacing

Occurrences of a fixed text: whether there is one, and their replacement from left to right,
where the search goes on after each occurrence.
-/

namespace Ambient.Text

/-- Whether `part` stands somewhere in the characters. -/
def occurs (part : List Char) : List Char → Bool
  | [] => part.isEmpty
  | c :: rest => part.isPrefixOf (c :: rest) || occurs part rest

/-- Whether `part` stands somewhere in the text. -/
def contains (s part : String) : Bool :=
  occurs part.toList s.toList

/-- Replaces the occurrences of `old`, which is not empty; the first `skip` characters belong to
an occurrence that has been replaced already. -/
def replaceFrom (old new : List Char) : Nat → List Char → List Char
  | _, [] => []
  | skip + 1, _ :: rest => replaceFrom old new skip rest
  | 0, c :: rest =>
    if old.isPrefixOf (c :: rest) then new ++ replaceFrom old new (old.length - 1) rest
    else c :: replaceFrom old new 0 rest

/-- Replaces the occurrences of `old`, which is not empty, by `new`. -/
def replace (s old new : String) : String :=
  String.ofList (replaceFrom old.toList new.toList 0 s.toList)

/-- The parts of the characters between the separators; `part` holds, last first, the part that
is being read. -/
def segmentsFrom (separator : Char) (part : List Char) : List Char → List (List Char)
  | [] => [part.reverse]
  | c :: rest =>
    if c = separator then part.reverse :: segmentsFrom separator [] rest
    else segmentsFrom separator (c :: part) rest

/-- The parts of a text between the separators: one more than there are separators. -/
def segments (separator : Char) (s : String) : List String :=
  (segmentsFrom separator [] s.toList).map String.ofList

end Ambient.Text
