import Ambient.Tool.Shell.Arithmetic
import Ambient.Tool.Shell.Format
import Ambient.Tool.Shell.Job
import Ambient.Tool.Shell.State
import Ambient.Tool.Shell.Variables

/-!
# Commands of the shell itself

Commands that need no program and run no other command: they write their words, test conditions,
leave parts of a script, and change what the shell knows. A fault of one of them is thrown.
-/

/-!
## Aliases

Words that stand for the start of a command. They are kept in the order in which they came, and told
in the order of a table that each name has its row in.
-/

namespace Ambient.Tool.Shell

/-- The row of a name in a table with some rows: its first character counts sixteen times more than
the others. -/
def tableRow (rows : Nat) (name : Raw) : Nat :=
  ((name.headD '\x00').toNat * 16 + (name.map Char.toNat).foldr (· + ·) 0) % rows

/-- Entries in the order of a table. -/
def inTableOrder {α : Type} (rows : Nat) (entries : List (Raw × α)) : List (Raw × α) :=
  entries.mergeSort fun a b => tableRow rows a.1 ≤ tableRow rows b.1

namespace Alias

/-- The number of rows in the table of aliases. -/
def rows : Nat := 39

/-- An alias as it can be written again. -/
def text (name value : Raw) : Raw := name ++ '=' :: quoted value ++ ['\n']

/-- Gives a name a value; a name that is there keeps its place. -/
def enter (name value : Raw) (aliases : List (Raw × Raw)) : List (Raw × Raw) :=
  if aliases.any fun entry => entry.1 == name then
    aliases.map fun entry => if entry.1 == name then (name, value) else entry
  else aliases ++ [(name, value)]

/-- Says that there is no alias with a name. -/
def refuse (command : String) (name : Raw) : Action Unit := do
  Action.warn (raw (command ++ ": ") ++ name ++ raw " not found")
  Action.finish 1

/-- A name with its value, if an equals sign stands behind its first character. -/
def split? (word : Raw) : Option (Raw × Raw) :=
  let name := word.take 1 ++ (word.drop 1).takeWhile fun c => c != '='
  match word.drop name.length with
  | [] => none
  | _ :: value => some (name, value)

/-- Makes aliases, or tells them. -/
def define : Builtin := fun words => do
  Action.finish 0
  if words.isEmpty then
    for (name, value) in inTableOrder rows (← get).aliases do
      Action.put (text name value)
  forEach (fun word => do
    match split? word with
    | some (name, value) => modify fun s => { s with aliases := enter name value s.aliases }
    | none =>
      match (← get).aliases.lookup word with
      | some value => Action.put (text word value)
      | none => refuse "alias" word) words

/-- Forgets aliases. -/
def forget : Builtin := fun arguments => do
  let (options, names) ← optionsOf ['a'] [] arguments
  Action.finish 0
  if !options.isEmpty then modify fun s => { s with aliases := [] }
  else
    forEach (fun name => do
      let aliases := (← get).aliases
      if aliases.any fun entry => entry.1 == name then
        modify fun s => { s with aliases := s.aliases.filter fun entry => entry.1 != name }
      else refuse "unalias" name) names

end Alias

end Ambient.Tool.Shell

/-!
## Conditions

The expressions that are tested for a status: comparisons of texts and numbers, questions about
files, and what joins them. A word is an operator only where its neighbours leave room for one.
-/

namespace Ambient.Tool.Shell.Condition

/-- What a word of an expression is. -/
inductive Lexeme where
  | ended
  | operand
  | unary (letter : Char)
  | binary (sign : String)
  | not
  | and
  | or
  | opening
  | closing
deriving DecidableEq, Repr, Inhabited

/-- The letters of the operators on one operand. -/
def unaryLetters : List Char := "rwxefdcbpugkstznhOGLS".toList

/-- The operators between two operands. -/
def binarySigns : List String :=
  ["=", "!=", "<", ">", "-eq", "-ne", "-ge", "-gt", "-le", "-lt", "-nt", "-ot", "-ef"]

/-- The operator that a word can be. -/
def operator? (word : Raw) : Option Lexeme :=
  match word with
  | ['!'] => some .not
  | ['('] => some .opening
  | [')'] => some .closing
  | ['-', 'a'] => some .and
  | ['-', 'o'] => some .or
  | ['-', letter] => if unaryLetters.contains letter then some (.unary letter) else sign?
  | _ => sign?
where
  /-- The operator between two operands that the word can be. -/
  sign? : Option Lexeme := (binarySigns.find? fun sign => sign.toList == word).map Lexeme.binary

/-- Whether a word is an operand because of what follows it. -/
def isOperand : List Raw → Bool
  | [] => true
  | [_] => false
  | next :: _ => operator? next matches some (.binary _)

/-- What the first of some words is. -/
def lexeme : List Raw → Lexeme
  | [] => .ended
  | word :: rest =>
    match operator? word with
    | some (.unary letter) => if isOperand rest then .operand else .unary letter
    | some .opening => if rest.isEmpty then .operand else .opening
    | some operator => operator
    | none => .operand

/-- What stands at a path. -/
def found? (w : World) (path : Raw) : Option Files.Entry :=
  (w.tree.find w.working (toText path)).toOption

/-- The value of an operator on one operand. -/
def unary (w : World) (letter : Char) (operand : Raw) : Except String Bool := do
  let entry := found? w operand
  match letter with
  | 'z' => return operand.isEmpty
  | 'n' => return !operand.isEmpty
  | 't' =>
    let _ ← wholeNumber operand
    return false
  | 'e' | 'r' | 'w' | 'O' | 'G' => return entry.isSome
  | 'f' => return (entry matches some (.file _) | some (.data _) | some .program)
  | 'd' => return (entry matches some .directory)
  | 'x' => return (entry matches some .directory | some .program)
  | 'c' => return (entry matches some .void)
  | 's' =>
    return match entry with
      | some .directory | some .program => true
      | some found => found.bytes.toOption.any fun bytes => !bytes.isEmpty
      | none => false
  | _ => return false

/-- The value of an operator between two operands. -/
def binary (w : World) (sign : String) (a b : Raw) : Except String Bool := do
  match sign with
  | "=" => return a == b
  | "!=" => return a != b
  | "<" => return decide (a < b)
  | ">" => return decide (b < a)
  | "-nt" | "-ot" => return false
  | "-ef" =>
    return match w.tree.locate w.working (toText a), w.tree.locate w.working (toText b) with
      | .ok first, .ok second => first == second && (found? w a).isSome
      | _, _ => false
  | _ =>
    let first ← wholeNumber a
    let second ← wholeNumber b
    return match sign with
      | "-eq" => first == second
      | "-ne" => first != second
      | "-ge" => second ≤ first
      | "-gt" => second < first
      | "-le" => first ≤ second
      | _ => first < second

mutual

/-- The value of expressions of which one has to hold, and the words from the last one on that has
been used. -/
def disjunction (w : World) : Nat → List Raw → Except String (Bool × List Raw)
  | 0, words => .ok (false, words)
  | bound + 1, words => do
    let (first, words) ← conjunction w bound words
    if lexeme (words.drop 1) = .or then
      let (second, words) ← disjunction w bound (words.drop 2)
      return (first || second, words)
    else return (first, words)

/-- The value of expressions of which all have to hold. -/
def conjunction (w : World) : Nat → List Raw → Except String (Bool × List Raw)
  | 0, words => .ok (false, words)
  | bound + 1, words => do
    let (first, words) ← negation w bound words
    if lexeme (words.drop 1) = .and then
      let (second, words) ← conjunction w bound (words.drop 2)
      return (first && second, words)
    else return (first, words)

/-- The value of an expression that may be negated. -/
def negation (w : World) : Nat → List Raw → Except String (Bool × List Raw)
  | 0, words => .ok (false, words)
  | bound + 1, words => do
    if lexeme words ≠ .not then primary w bound words
    else if words.length = 1 then return (true, words)
    else
      let (value, words) ← negation w bound (words.drop 1)
      return (!value, words)

/-- The value of a single expression. -/
def primary (w : World) : Nat → List Raw → Except String (Bool × List Raw)
  | 0, words => .ok (false, words)
  | bound + 1, words => do
    match lexeme words, words with
    | .ended, _ | _, [] => return (false, words)
    | .opening, _ :: rest =>
      if lexeme rest = .closing then return (false, rest)
      let (value, words) ← disjunction w bound rest
      if lexeme (words.drop 1) = .closing then return (value, words.drop 1)
      else throw "closing paren expected"
    | .unary letter, [_] => throw (toText ['-', letter] ++ ": argument expected")
    | .unary letter, _ :: operand :: rest => return (← unary w letter operand, operand :: rest)
    | _, first :: rest =>
      match lexeme rest, rest with
      | .binary sign, [_] => throw (sign ++ ": argument expected")
      | .binary sign, _ :: second :: rest => return (← binary w sign first second, second :: rest)
      | _, _ => return (!first.isEmpty, first :: rest)

end

/-- The value of an expression to which nothing may be added. -/
def whole (w : World) (words : List Raw) : Except String Bool := do
  let (value, words) ← disjunction w (4 * words.length + 8) words
  match words with
  | last :: _ :: _ =>
    throw (if last.isEmpty then "unexpected operator" else toText last ++ ": unexpected operator")
  | _ => return value

/-- Whether the condition that some words are holds, or does not if it is negated. Three words with
an operator in the middle, and up to four words in parentheses or behind a negation, are never read
in another way; several such negations count as one. The bound is the number of words. -/
def holdsFrom (w : World) (isNegated : Bool) : Nat → List Raw → Except String Bool
  | 0, _ | _, [] => return isNegated
  | bound + 1, words =>
    let decide (value : Except String Bool) : Except String Bool :=
      value.map fun holds => holds != isNegated
    let enclosed : Bool := words.head? = some ['('] && words.getLast? = some [')']
    let other (rest : List Raw) : Except String Bool :=
      if enclosed then decide (whole w rest.dropLast)
      else if words.head? = some ['!'] then holdsFrom w true bound rest
      else decide (whole w words)
    match words with
    | [a, sign, b] =>
      match operator? sign with
      | some (.binary sign) => decide (binary w sign a b)
      | _ => other [sign, b]
    | [_, b, c, d] => other [b, c, d]
    | words => decide (whole w words)

/-- Whether the condition that some words are holds. -/
def holds (w : World) (words : List Raw) : Except String Bool :=
  holdsFrom w false words.length words

end Ambient.Tool.Shell.Condition

/-!
## The directory of a script

A script has a directory and a path for it, which keeps the form in which the script has come there:
a part of dots takes back the part before it, whether that leads anywhere or not.
-/

namespace Ambient.Tool.Shell.Directory

/-- The path of a location. -/
def pathOf (place : Files.Location) : Raw := raw ("/" ++ "/".intercalate place)

/-- The parts of a path between separators. -/
def partsOf (path : Raw) : List Raw := (path.splitOn '/').filter fun part => !part.isEmpty

/-- The path that another one leads to, seen from a directory. Two separators at the start are
kept. -/
def follow (current path : Raw) : Raw :=
  let isAbsolute := path.head? = some '/'
  let base := if isAbsolute then path else current
  let root : Raw := match base with
    | '/' :: '/' :: '/' :: _ => ['/']
    | '/' :: '/' :: _ => ['/', '/']
    | _ => ['/']
  let start := if isAbsolute then [] else (partsOf current).reverse
  let parts := (partsOf path).foldl (fun found part =>
    if part = ['.'] then found
    else if part = ['.', '.'] then found.tail
    else part :: found) start
  root ++ ['/'].intercalate parts.reverse

/-- Whether the physical path is asked for by the last of some options. -/
def isPhysical (options : List (Char × Raw)) : Bool := options.getLast?.any fun o => o.1 == 'P'

/-- Writes the path of the directory. -/
def tell : Builtin := fun arguments => do
  let (options, _) ← optionsOf ['L', 'P'] [] arguments
  let s ← get
  Action.put ((if isPhysical options then pathOf s.world.working else s.directory) ++ ['\n'])
  Action.finish 0

/-- The paths at which a name is looked for below the directories in a list; the flag says whether
that directory is written. -/
def candidates (directories name : Raw) : List (Bool × Raw) :=
  (directories.splitOn ':').map fun directory =>
    if directory.isEmpty then (false, name) else (true, directory ++ '/' :: name)

/-- The location of the directory at a path. -/
def locate? (w : World) (path : Raw) : Option Files.Location :=
  match w.tree.locate w.working (toText path) with
  | .ok place => if w.tree.entry? place = some .directory then some place else none
  | .error _ => none

/-- Gives a variable that programs see a value. -/
def setExported (name : String) (value : Raw) : Action Unit := do
  Action.assign (raw name) value
  modify fun s => s.setVariable (raw name) ⟨some value, true, s.isReadOnly (raw name)⟩

/-- Goes to the directory at a path, if there is one. -/
def goTo? (isPhysical : Bool) (path : Raw) : Action Bool := do
  let s ← get
  let logical := follow s.directory path
  match locate? s.world (if isPhysical then path else logical) with
  | none => return false
  | some place =>
    let shown := if isPhysical then pathOf place else logical
    setExported "OLDPWD" s.directory
    modify fun s =>
      { s with
        world := { s.world with working := place }
        directory := shown
        used := s.used.map fun (name, path, _) => (name, path, true) }
    setExported "PWD" shown
    return true

/-- Whether a path is seen from the directory itself, wherever else names are looked for. -/
def isFixed (path : Raw) : Bool :=
  match partsOf path, path with
  | _, '/' :: _ => true
  | first :: _, _ => first == ['.'] || first == ['.', '.']
  | [], _ => false

/-- Changes the directory, and tells it if it was not named in full. -/
def change : Builtin := fun arguments => do
  let (options, operands) ← optionsOf ['L', 'P'] [] arguments
  let s ← get
  let isBack := operands.head? = some ['-']
  let path := match operands with
    | [] => (s.held? (raw "HOME")).getD []
    | path :: _ => if isBack then (s.held? (raw "OLDPWD")).getD [] else path
  let asked := if path.isEmpty then ['.'] else path
  let listed := match isFixed path, s.held? (raw "CDPATH") with
    | false, some directories => candidates directories asked
    | _, _ => []
  let (isNamed, found) :=
    (listed.find? fun entry => (locate? s.world entry.2).isSome).getD (false, asked)
  if ← goTo? (isPhysical options) found then
    if isBack || isNamed then Action.put ((← get).directory ++ ['\n'])
    Action.finish 0
  else Action.abort (raw "can\x27t cd to " ++ path)

end Ambient.Tool.Shell.Directory

/-!
## Permissions of new files

The permissions that new files are not given: nine bits, three for the owner of a file, for its
group and for all others. They are written in octal digits, or as changes of what is given.
-/

namespace Ambient.Tool.Shell.FileMode

/-- All permissions. -/
def all : Nat := 0o777

/-- The permissions that are not among some. -/
def without (mode : Nat) : Nat := all - mode % (all + 1)

/-- The places of the bits that a letter for users stands for, one bit for each three. -/
def places? : Char → Option Nat
  | 'a' => some 0o111
  | 'u' => some 0o100
  | 'g' => some 0o010
  | 'o' => some 0o001
  | _ => none

/-- The three bits that a letter for permissions stands for, where some are given. -/
def bits? (given : Nat) : Char → Option Nat
  | 'r' => some 4
  | 'w' => some 2
  | 'x' => some 1
  | 'u' => some (given / 64 % 8)
  | 'g' => some (given / 8 % 8)
  | 'o' => some (given % 8)
  | 'X' => some (if given &&& 0o111 = 0 then 0 else 1)
  | 's' => some 0
  | _ => none

/-- The bits of the letters that characters start with, and the rest. -/
def gathered (bits? : Char → Option Nat) (cs : Raw) : Nat × Raw :=
  ((cs.takeWhile fun c => (bits? c).isSome).foldl (fun n c => n ||| (bits? c).getD 0) 0,
    cs.dropWhile fun c => (bits? c).isSome)

/-- What changes make of the permissions that are given, or nothing if they cannot be read. `users`
are the places of the users before, and the bound is the number of characters. -/
def changedFrom (given : Nat) : Nat → Nat → Nat → Raw → Option Nat
  | 0, _, result, _ | _, _, result, [] => some result
  | bound + 1, users, result, cs =>
    let (named, rest) := gathered places? cs
    let users := if users ||| named = 0 then 0o111 else users ||| named
    match rest with
    | [] => some result
    | sign :: rest =>
      let (bits, after) := gathered (bits? given) rest
      let chosen := bits * users
      let kept? : Option Nat := match sign with
        | '-' => some (result &&& without chosen)
        | '=' => some (chosen ||| (result &&& without (users * 7)))
        | '+' => some (result ||| chosen)
        | _ => none
      match kept?, after with
      | none, _ => none
      | some result, [] => some result
      | some result, ',' :: after => changedFrom given bound 0 result after
      | some result, next :: _ =>
        if ['=', '+', '-'].contains next then changedFrom given bound users result after else none

/-- The mask that a word asks for. -/
def read (mask : Nat) (word : Raw) : Except String Nat :=
  if word.head?.any Char.isDigit then
    if word.all fun c => '0' ≤ c && c ≤ '7' then
      .ok (word.foldl (fun n c => (n * 8 + (c.toNat - '0'.toNat)) % 0o10000) 0 % (all + 1))
    else .error ("Illegal number: " ++ toText word)
  else
    match changedFrom (without mask) (word.length + 1) 0 (without mask) word with
    | some given => .ok (without given)
    | none => .error ("Illegal mode: " ++ toText word)

/-- Three bits by their letters. -/
def letters (bits : Nat) : String :=
  (if bits &&& 4 = 0 then "" else "r") ++ (if bits &&& 2 = 0 then "" else "w")
    ++ (if bits &&& 1 = 0 then "" else "x")

/-- A mask by the permissions that it leaves. -/
def symbolic (mask : Nat) : String :=
  let given := without mask
  "u=" ++ letters (given / 64 % 8) ++ ",g=" ++ letters (given / 8 % 8) ++ ",o=" ++ letters (given % 8)

/-- A mask in four octal digits. -/
def octal (mask : Nat) : String :=
  String.ofList ([mask / 512 % 8, mask / 64 % 8, mask / 8 % 8, mask % 8].map Nat.digitChar)

/-- Changes the mask, or shows it. -/
def command : Builtin := fun arguments => do
  let (options, operands) ← optionsOf ['S'] [] arguments
  let mask := (← get).world.mask
  match operands with
  | [] => Action.put (raw ((if options.isEmpty then octal mask else symbolic mask) ++ "\n"))
  | word :: _ =>
    match read mask word with
    | .ok mask => modify fun s => { s with world := { s.world with mask := mask } }
    | .error text => Action.abort (raw text)
  Action.finish 0

end Ambient.Tool.Shell.FileMode

/-!
## Limits of resources

How much of a resource processes can take. A limit can be lowered, and raised again up to a second
one, which can only be lowered.
-/

namespace Ambient.Tool.Shell.Limit

/-- A resource: its letter, its name, the unit that a limit is written in, and the limit at the
start, if there is one. -/
structure Resource where
  letter : Char
  name : String
  unit : Nat
  start : Option Nat
deriving Repr, Inhabited

/-- The resources. -/
def resources : List Resource :=
  [⟨'t', "time(seconds)", 1, none⟩, ⟨'f', "file(blocks)", 512, none⟩,
    ⟨'d', "data(kbytes)", 1024, none⟩, ⟨'s', "stack(kbytes)", 1024, some (8192 * 1024)⟩,
    ⟨'c', "coredump(blocks)", 512, some 0⟩, ⟨'m', "memory(kbytes)", 1024, none⟩,
    ⟨'l', "locked memory(kbytes)", 1024, some (8192 * 1024)⟩, ⟨'p', "process", 1, none⟩,
    ⟨'n', "nofiles", 1, some 1024⟩, ⟨'v', "vmemory(kbytes)", 1024, none⟩,
    ⟨'w', "locks", 1, none⟩, ⟨'r', "rtprio", 1, some 0⟩]

/-- The limit of a resource, and the one that it can be raised to. Some resources are not limited
further at the start. -/
def current (w : World) (r : Resource) : Option Nat × Option Nat :=
  (w.limits.lookup r.letter).getD
    (r.start, if r.letter = 's' ∨ r.letter = 'c' then none else r.start)

/-- A limit in the unit of its resource. -/
def text (r : Resource) (limit : Option Nat) : String :=
  match limit with
  | none => "unlimited"
  | some value => Nat.repr (value / r.unit)

/-- The limit that a word asks for. -/
def read (r : Resource) (word : Raw) : Except String (Option Nat) :=
  if word = raw "unlimited" then .ok none
  else if word.all Char.isDigit then
    .ok (some (word.foldl (fun n c => n * 10 + (c.toNat - '0'.toNat)) 0 * r.unit))
  else .error "bad number"

/-- Whether a limit is above another one. -/
def isAbove (a b : Option Nat) : Bool :=
  match a, b with
  | _, none => false
  | none, some _ => true
  | some a, some b => b < a

/-- Changes a limit, or shows it. -/
def command : Builtin := fun arguments => do
  let letters := resources.map Resource.letter
  let (options, operands) ← optionsOf (['H', 'S', 'a'] ++ letters) [] arguments
  let given := options.map Prod.fst
  let kind := (given.reverse.find? fun c => c == 'H' || c == 'S')
  let letter := (given.reverse.find? letters.contains).getD 'f'
  let r := (resources.find? fun r => r.letter == letter).getD default
  let shown (w : World) (r : Resource) : String :=
    text r (if kind = some 'H' then (current w r).2 else (current w r).1) ++ "\n"
  let s ← get
  match operands with
  | [] =>
    let line (r : Resource) : String :=
      r.name ++ String.ofList (List.replicate (20 - r.name.length) ' ') ++ " " ++ shown s.world r
    Action.put (raw (if given.contains 'a' then String.join (resources.map line)
      else shown s.world r))
  | word :: rest =>
    if given.contains 'a' || !rest.isEmpty then Action.abort (raw "too many arguments")
    match read r word with
    | .error text => Action.abort (raw text)
    | .ok limit =>
      let (soft, hard) := current s.world r
      let refuse (reason : String) : Action Unit :=
        Action.abort (raw ("error setting limit (" ++ reason ++ ")"))
      let newSoft := if kind = some 'H' then soft else limit
      let newHard := if kind = some 'S' then hard else limit
      if isAbove newSoft newHard then refuse "Invalid argument"
      if isAbove newHard hard then refuse "Operation not permitted"
      modify fun s =>
        { s with world := { s.world with
            limits := State.replace r.letter (newSoft, newHard) s.world.limits } }
  Action.finish 0

end Ambient.Tool.Shell.Limit

namespace Ambient.Tool.Shell

namespace Builtin

/-! ## Output -/

/-- Ends with a status. -/
def always (status : Nat) : Builtin := fun _ => Action.finish status

/-- Writes words. -/
def writeWords : Builtin := fun words => do
  Action.put (echo words)
  Action.finish 0

/-- Writes words in a format. Warnings come before the output. -/
def writeFormatted : Builtin := fun arguments => do
  let (_, operands) ← optionsOf [] [] arguments
  match operands with
  | [] => Action.abort (raw "usage: printf format [arg ...]")
  | format :: words =>
    let printed := formatted format words
    forEach (fun text => Action.complain text) (printed.warnings.map raw)
    match printed.fault with
    | some fault => Action.complain (raw fault)
    | none => pure ()
    Action.put printed.output
    if printed.fault.isSome then
      Action.finish 2
      throw .fault
    Action.finish (if printed.warnings.isEmpty then 0 else 1)

/-! ## Conditions -/

/-- Tests a condition. -/
def test : Builtin := fun words => do
  match Condition.holds (← get).world words with
  | .ok holds => Action.finish (if holds then 0 else 1)
  | .error text => Action.abort (raw text)

/-- Tests a condition in brackets. -/
def testInBrackets : Builtin := fun words =>
  if words.getLast? = some [']'] then test words.dropLast else Action.abort (raw "missing ]")

/-! ## Leaving -/

/-- Ends the script with the status that is given. In the script of a signal, the status before it
counts if none is given. -/
def exit : Builtin := fun arguments => do
  match arguments, (← get).trapped with
  | word :: _, _ => Action.finish (← numberOf word)
  | [], some status => Action.finish status
  | [], none => pure ()
  throw .script

/-- Ends a function with the status that is given. In the script of a signal, the status before it
counts if none is given. -/
def «return» : Builtin := fun arguments => do
  match arguments, (← get).trapped with
  | word :: _, _ => Action.finish (← numberOf word)
  | [], some status => Action.finish status
  | [], none => pure ()
  throw .function

/-- Leaves loops, or goes on with their next turn. -/
def leaveLoops (goesOn : Bool) : Builtin := fun arguments => do
  let count ← match arguments with
    | [] => pure 1
    | word :: _ => do
      let count ← numberOf word
      if count = 0 then Action.abort (raw "Illegal number: " ++ word) else pure count
  Action.finish 0
  let loops := (← get).loops
  if 0 < loops then throw (.loops (min count loops) goesOn)

/-! ## All commands -/

/-- Tells the times that the shell has taken, none of which are measured. -/
def tellTimes : Builtin := fun _ => do
  Action.put (raw "0m0.000000s 0m0.000000s\n0m0.000000s 0m0.000000s\n")
  Action.finish 0

/-- The commands that can be named. -/
def find? (name : String) : Option Builtin :=
  match name with
  | ":" | "true" => some (always 0)
  | "false" => some (always 1)
  | "echo" => some writeWords
  | "printf" => some writeFormatted
  | "test" => some test
  | "[" => some testInBrackets
  | "pwd" => some Directory.tell
  | "cd" | "chdir" => some Directory.change
  | "exit" => some exit
  | "return" => some «return»
  | "break" => some (leaveLoops false)
  | "continue" => some (leaveLoops true)
  | "trap" => some Trap.command
  | "kill" => some Trap.kill
  | "jobs" => some Job.list
  | "fg" | "bg" => some Job.resume
  | "alias" => some Alias.define
  | "unalias" => some Alias.forget
  | "export" => some exportAll
  | "readonly" => some protect
  | "unset" => some unset
  | "local" => some localize
  | "shift" => some shift
  | "set" => some change
  | "read" => some readLine
  | "getopts" => some nextOption
  | "umask" => some FileMode.command
  | "ulimit" => some Limit.command
  | "times" => some tellTimes
  | _ => none

/-- The names of commands that run others or look for them. -/
def runningNames : List String :=
  ["eval", ".", "exec", "command", "type", "hash", "wait"]

/-- The names of commands whose operands can be assignments. -/
def declaringNames : List String := ["alias", "export", "readonly", "local"]

end Builtin

end Ambient.Tool.Shell
