import Ambient.Toml.Scalar

/-!
# TOML texts

Keys, arrays, inline tables, and the statements of a text. A statement assigns a value to a key of
the current table, or opens a table by a header. A table may be defined once; tables that were only
named on the way may still be, unless dotted keys made them.
-/

namespace Ambient.Toml

/-! ## Blanks and comments -/

/-- Reads blanks on a line. -/
def spaces : Reader Unit := do
  let _ ← run isSpace

/-- The characters after blanks, line ends and comments. A comment ends before a character that it
may not hold. -/
def dropGaps (inComment : Bool) : List Char → List Char
  | [] => []
  | '\n' :: rest => dropGaps false rest
  | '\r' :: '\n' :: rest => dropGaps false rest
  | c :: rest =>
    if inComment then if isPrintable c then dropGaps true rest else c :: rest
    else if isSpace c then dropGaps false rest
    else if c == '#' then dropGaps true rest
    else c :: rest

/-- Reads blanks, line ends and comments. -/
def gaps : Reader Unit := modify (dropGaps false)

/-- Reads to the end of the line, where only a comment may stand. -/
def endOfLine : Reader Unit := do
  spaces
  if (← next?) == some '#' then
    let _ ← run isPrintable
  match (← get) with
  | [] => pure ()
  | '\n' :: rest => set rest
  | '\r' :: '\n' :: rest => set rest
  | _ => failure

/-! ## Keys -/

/-- Whether a character may stand in a key without quotes. -/
def isKeyPart (c : Char) : Bool := c.isAlphanum || c == '_' || c == '-'

/-- Reads one part of a key. -/
def keyPart : Reader String := do
  match (← next?) with
  | some '\x22' | some '\x27' => lineString
  | _ =>
    let part ← run isKeyPart
    if part.isEmpty then failure else return String.ofList part

/-- The number of parts that a key may not reach, and of values that may not be nested. -/
def depthLimit : Nat := 80

/-- Reads a dotted key of at most `limit` parts. -/
def keyPath : Nat → Reader (List String)
  | 0 => failure
  | limit + 1 => do
    spaces
    let part ← keyPart
    spaces
    if (← next?) == some '.' then
      skip
      return part :: (← keyPath limit)
    return [part]

/-- Reads a key. -/
def key : Reader (List String) := keyPath (depthLimit - 1)

/-! ## Values -/

/-- Reads the items of an array after its opening bracket; `fuel` bounds their number. -/
def items (item : Reader Toml) : Nat → Reader (List Toml)
  | 0 => failure
  | fuel + 1 => do
    gaps
    if (← next?) == some ']' then
      skip
      return []
    let first ← item
    gaps
    match (← next?) with
    | some ',' =>
      skip
      return first :: (← items item fuel)
    | some ']' =>
      skip
      return [first]
    | _ => failure

/-- Reads a key, the sign of equality, and a value. -/
def assignment (item : Reader Toml) : Reader (List String × Toml) := do
  let path ← key
  expect '='
  spaces
  return (path, ← item)

/-- Reads the assignments of an inline table after its opening brace; `fuel` bounds their
number. -/
def assignments (item : Reader Toml) : Nat → Reader (List (List String × Toml))
  | 0 => failure
  | fuel + 1 => do
    let first ← assignment item
    spaces
    match (← next?) with
    | some ',' =>
      skip
      return first :: (← assignments item fuel)
    | some '\x7d' =>
      skip
      return [first]
    | _ => failure

/-- Reads an inline table after its opening brace. -/
def inlineTable (item : Reader Toml) : Reader Toml := do
  spaces
  if (← next?) == some '\x7d' then
    skip
    return .table .inline []
  let members ← assignments item (← get).length
  let entries ← members.foldlM (fun entries (path, value) => assign path value .inline entries) []
  return .table .inline entries

/-- Reads a value without parts. -/
def scalar : Reader Toml := do
  match (← next?) with
  | some '\x22' | some '\x27' => return .text (← string)
  | _ => word

/-- Reads a value, in which at most `depth` arrays and inline tables are open at a time. -/
def value : Nat → Reader Toml
  | 0 => scalar
  | depth + 1 => do
    match (← next?) with
    | some '[' =>
      skip
      return .array false (← items (value depth) (← get).length)
    | some '\x7b' =>
      skip
      inlineTable (value depth)
    | _ => scalar

/-! ## Statements -/

/-- What has been read of a text: its top table, and the path of the table that is being filled. -/
structure Document where
  top : Entries
  current : List String
deriving Inhabited

namespace Document

/-- Assigns a value to a key of the current table. -/
def assign (d : Document) (path : List String) (v : Toml) : Option Document := do
  return { d with top := ← within .path (Toml.assign path v) d.current .header d.top }

/-- Opens a table at a path: one that is new or was only named by headers below it. -/
def openTable (d : Document) (path : List String) : Option Document := do
  let key ← path.getLast?
  let define (_ : Origin) (entries : Entries) : Option Entries :=
    match entries.get? key with
    | none => some (entries.put key (.table .header []))
    | some (.table .path inner) => some (entries.put key (.table .header inner))
    | some _ => none
  return ⟨← within .path define path.dropLast .header d.top, path⟩

/-- Opens the next table of the headed array at a path. -/
def openItem (d : Document) (path : List String) : Option Document := do
  let key ← path.getLast?
  let add (_ : Origin) (entries : Entries) : Option Entries :=
    match entries.get? key with
    | none => some (entries.put key (.array true [.table .header []]))
    | some (.array true tables) =>
      some (entries.put key (.array true (tables ++ [.table .header []])))
    | some _ => none
  return ⟨← within .path add path.dropLast .header d.top, path⟩

end Document

/-- Reads a header after its first bracket. -/
def header (d : Document) : Reader Document := do
  if (← next?) == some '[' then
    skip
    let path ← key
    expect ']'
    expect ']'
    endOfLine
    d.openItem path
  else
    let path ← key
    expect ']'
    endOfLine
    d.openTable path

/-- Reads a statement or an empty line. -/
def statement (d : Document) : Reader Document := do
  spaces
  match (← get) with
  | [] | '#' :: _ | '\n' :: _ | '\r' :: _ =>
    endOfLine
    return d
  | '[' :: rest =>
    set rest
    header d
  | _ =>
    let (path, v) ← assignment (value (depthLimit - 1))
    endOfLine
    d.assign path v

/-- Reads statements to the end of the text; `fuel` bounds their number. -/
def statements : Nat → Document → Reader Document
  | 0, d => return d
  | fuel + 1, d => do
    if (← get).isEmpty then return d
    statements fuel (← statement d)

/-- The entries of the top table of a text, which may start with a byte order mark. -/
def read? (s : String) : Option Entries := do
  let cs := match s.toList with
    | '\uFEFF' :: rest => rest
    | cs => cs
  let (d, _) ← (statements cs.length ⟨[], []⟩).run cs
  return d.top

end Ambient.Toml
