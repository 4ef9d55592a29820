import Ambient.Tool.Shell.Arithmetic
import Ambient.Tool.Shell.State

/-!
# Commands on variables

Commands of the shell that change variables and parameters: they give names properties, read lines
into them, and take options apart.
-/

namespace Ambient.Tool.Shell

/-- Runs an action for each of some words. -/
def forEach (action : Raw → Action Unit) : List Raw → Action Unit
  | [] => return
  | word :: rest => do
    action word
    forEach action rest

/-- A name with the value that follows it, if one does. -/
def definition (word : Raw) : Raw × Option Raw :=
  let name := word.takeWhile fun c => c != '='
  match word.drop name.length with
  | [] => (name, none)
  | _ :: value => (name, some value)

/-- Refuses what is no name. -/
def checkName (name : Raw) : Action Unit := do
  if !isName name then Action.abort (name ++ raw ": bad variable name")

/-- A text in quotes, as it can be read again: single quotes stand in double ones, everything else
in single ones. The bound is the number of characters. -/
def quotedFrom : Nat → Raw → Raw
  | 0, _ => []
  | bound + 1, text =>
    let plain := text.takeWhile fun c => c != '\x27'
    let rest := text.drop plain.length
    let quotes := rest.takeWhile fun c => c == '\x27'
    let after := rest.drop quotes.length
    ['\x27'] ++ plain ++ ['\x27']
      ++ (if quotes.isEmpty then [] else ['\x22'] ++ quotes ++ ['\x22'])
      ++ (if after.isEmpty then [] else quotedFrom bound after)

/-- A text in quotes, as it can be read again. -/
def quoted (text : Raw) : Raw := quotedFrom (text.length + 1) text

/-- Shows variables, sorted by their names, behind a text. -/
def showVariables (before : Raw) (isShown : Variable → Bool) (showsUnset : Bool) : Action Unit := do
  let s ← get
  let shown := (s.bindings.filter fun entry =>
    isShown entry.2 && (showsUnset || entry.2.value.isSome)).mergeSort fun a b =>
      inOrder a.1 b.1
  let line (entry : Raw × Variable) : Raw :=
    before ++ entry.1 ++ (match entry.2.value with
      | some value => '=' :: quoted value
      | none => []) ++ ['\n']
  modify fun s => s.put (shown.flatMap line)

/-- Changes a property of variables, or shows those that have it. -/
def declare (command : String) (has : Variable → Bool) (mark : Variable → Variable)
    (arguments : List Raw) : Action Unit := do
  let (options, names) ← optionsOf ['p'] [] arguments
  if !options.isEmpty || names.isEmpty then showVariables (raw (command ++ " ")) has true
  else
    forEach (fun word => do
      let (name, value) := definition word
      checkName name
      match value with
      | some value => Action.assign name value
      | none => pure ()
      modify fun s =>
        s.setVariable name (mark ((s.bindings.lookup name).getD ⟨none, false, false⟩))) names
  Action.finish 0

/-- Lets programs see variables. -/
def exportAll : List Raw → Action Unit :=
  declare "export" Variable.isExported fun v => { v with isExported := true }

/-- Protects variables from changes. -/
def protect : List Raw → Action Unit :=
  declare "readonly" Variable.isReadOnly fun v => { v with isReadOnly := true }

/-- Forgets variables or functions. -/
def unset (arguments : List Raw) : Action Unit := do
  let (options, names) ← optionsOf ['f', 'v'] [] arguments
  if options.any fun option => option.1 == 'f' then
    modify fun s =>
      { s with functions := s.functions.filter fun entry => !names.contains entry.1 }
  else
    forEach (fun name => do
      checkName name
      Action.checkOpen name
      modify fun s => s.dropVariable name) names
  Action.finish 0

/-- Makes variables belong to the current function, after which they are what they were. -/
def localize (words : List Raw) : Action Unit := do
  if (← get).saved.isEmpty then Action.abort (raw "not in a function")
  forEach (fun word => do
    let (name, value) := definition word
    if name ≠ ['-'] then checkName name
    modify fun s =>
      match s.saved with
      | top :: outer =>
        let old := if name = ['-'] then some ⟨some s.flags, false, false⟩
          else s.bindings.lookup name
        { s with saved := ((name, old) :: top) :: outer }
      | [] => s
    match value with
    | some value => Action.assign name value
    | none => pure ()) words
  Action.finish 0

/-- The count that an argument is. -/
def numberOf (word : Raw) : Action Nat :=
  match countOf word with
  | .ok number => pure number
  | .error _ => Action.abort (raw "Illegal number: " ++ word)

/-- Drops parameters from the front. -/
def shift (arguments : List Raw) : Action Unit := do
  let count ← match arguments with
    | [] => pure 1
    | word :: _ => numberOf word
  if (← get).parameters.length < count then Action.abort (raw "can\x27t shift that many")
  modify fun s =>
    { s with parameters := s.parameters.drop count, optionPlace := 1, letterPlace := none }
  Action.finish 0

/-- Changes options and parameters, or shows them. -/
def change (arguments : List Raw) : Action Unit := do
  if arguments.isEmpty then showVariables [] (fun _ => true) false
  else
    let s ← get
    match readOptions false s.flags arguments with
    | .error text => Action.abort (raw text)
    | .ok reading =>
      set { s with flags := reading.flags.filter fun flag => flag != 'm' }
      modify fun s => s.put (raw reading.shown)
      if reading.flags.contains 'm' then
        Action.complain (raw "can\x27t access tty; job control turned off")
      if !reading.rest.isEmpty || reading.isEnded then
        modify fun s =>
          { s with parameters := reading.rest, optionPlace := 1, letterPlace := none }
  Action.finish 0

/-! ## Reading lines -/

/-- The characters of a line, each with whether it may divide the line, whether the line has an end,
and what follows it. The bound is the number of characters. -/
def lineFrom (isRaw : Bool) : Nat → Raw → List (Char × Bool) × Bool × Raw
  | 0, cs => ([], false, cs)
  | _, [] => ([], false, [])
  | bound + 1, c :: rest =>
    if c = '\n' then ([], true, rest)
    else if c = '\x00' then lineFrom isRaw bound rest
    else if c = '\\' ∧ !isRaw then
      match rest with
      | [] => ([], false, [])
      | '\n' :: rest => lineFrom isRaw bound rest
      | d :: rest =>
        let (line, hasEnd, after) := lineFrom isRaw bound rest
        ((d, false) :: line, hasEnd, after)
    else
      let (line, hasEnd, after) := lineFrom isRaw bound rest
      ((c, true) :: line, hasEnd, after)

/-- Divides a line into at most as many fields as asked for; the last one takes what is left. -/
def divide (separators : Raw) : Nat → List (Char × Bool) → List Raw
  | 0, _ => []
  | count + 1, line =>
    let separates (c : Char × Bool) : Bool := c.2 && separators.contains c.1
    let isSpace (c : Char × Bool) : Bool := separates c && [' ', '\t', '\n'].contains c.1
    let line := line.dropWhile isSpace
    let field := line.takeWhile fun c => !separates c
    let afterBlanks := (line.drop field.length).dropWhile isSpace
    let rest := match afterBlanks with
      | c :: rest => if separates c then rest.dropWhile isSpace else afterBlanks
      | [] => []
    if rest.isEmpty then [field.map Prod.fst]
    else if count = 0 then [((line.reverse.dropWhile isSpace).reverse).map Prod.fst]
    else field.map Prod.fst :: divide separators count rest

/-- Gives names values, an empty one where there are not enough. -/
def assignAll : List Raw → List Raw → Action Unit
  | [], _ => return
  | name :: names, values => do
    checkName name
    Action.assign name (values.headD [])
    assignAll names values.tail

/-- Reads a line of the input into variables. -/
def readLine (arguments : List Raw) : Action Unit := do
  let (options, names) ← optionsOf ['r'] ['p'] arguments
  if names.isEmpty then Action.abort (raw "arg count")
  let s ← get
  let input := s.input 0
  let isRaw := options.any fun option => option.1 == 'r'
  let (line, hasEnd, rest) := lineFrom isRaw input.length input
  set (s.setInput 0 rest)
  assignAll names (divide s.separators names.length line)
  Action.finish (if hasEnd then 0 else 1)

/-! ## Taking options apart -/

/-- Whether an option is among those that are written in a text, and whether it has a value. -/
def optionIn (letter : Char) : Raw → Option Bool
  | [] => none
  | c :: ':' :: rest => if c = letter then some true else optionIn letter rest
  | c :: rest => if c = letter then some false else optionIn letter rest

/-- What the next option was found to be: the letter to be told, its value if there is one, the
complaint about it, the number of the argument that comes next, and the place of the next letter in
the argument before that. -/
structure FoundOption where
  letter : Char
  value : Option Raw
  complaint : Option Raw
  place : Nat
  letterPlace : Option Nat

/-- The next option of some words, from the word with the number `place` on. -/
def findOption (known : Raw) (words : List Raw) (place : Nat) (letterPlace : Option Nat) :
    Option FoundOption × Nat :=
  let within : Raw := match letterPlace with
    | some offset => if place ≤ 1 then [] else (words.getD (place - 2) []).drop offset
    | none => []
  let (found, next) : Raw × Nat := match within, words[place - 1]? with
    | _ :: _, _ => (within, place)
    | [], some ('-' :: letter :: letters) =>
      if letter = '-' ∧ letters.isEmpty then ([], place + 1) else (letter :: letters, place + 1)
    | [], _ => ([], place)
  match found with
  | [] => (none, next)
  | letter :: letters =>
    let isSilent := known.head? = some ':'
    let offset := some ((words.getD (next - 2) []).length - letters.length)
    let (known, wrong) := if isSilent then (known.tail, some [letter]) else (known, none)
    let complain (text : Raw) : Option Raw := if isSilent then none else some text
    let result : FoundOption := match optionIn letter known with
      | none => ⟨'?', wrong, complain (raw "Illegal option -" ++ [letter]), next, offset⟩
      | some false => ⟨letter, some [], none, next, offset⟩
      | some true =>
        match letters, words[next - 1]? with
        | _ :: _, _ => ⟨letter, some letters, none, next, none⟩
        | [], some value => ⟨letter, some value, none, next + 1, none⟩
        | [], none =>
          ⟨if isSilent then ':' else '?', wrong,
            complain (raw "No arg for -" ++ letter :: raw " option"), next, offset⟩
    (some result, next)

/-- Takes the next option of the parameters, or of other words, into a variable. -/
def nextOption (arguments : List Raw) : Action Unit := do
  let (_, operands) ← optionsOf [] [] arguments
  match operands with
  | known :: name :: given =>
    let s ← get
    let words := if given.isEmpty then s.parameters else given
    let isBehind := words.length + 1 < s.optionPlace
    let (found, next) :=
      findOption known words (if isBehind then 1 else s.optionPlace)
        (if isBehind then none else s.letterPlace)
    let tell (letter : Char) (place : Nat) (letterPlace : Option Nat) : Action Unit := do
      Action.assign (raw "OPTIND") (State.decimal place)
      modify fun s => { s with optionPlace := place, letterPlace := letterPlace }
      checkName name
      Action.assign name [letter]
    match found with
    | none =>
      tell '?' next none
      Action.finish 1
    | some option =>
      match option.complaint with
      | some text => Action.warn text
      | none => pure ()
      match option.value with
      | some value => Action.assign (raw "OPTARG") value
      | none => modify fun s => s.dropVariable (raw "OPTARG")
      tell option.letter option.place option.letterPlace
      Action.finish 0
  | _ => Action.abort (raw "Usage: getopts optstring var [arg...]")

end Ambient.Tool.Shell
