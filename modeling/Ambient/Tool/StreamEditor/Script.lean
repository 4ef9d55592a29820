import Ambient.Tool.Pattern

/-!
# Scripts of the stream editor

A script is a list of commands, each with the addresses of the lines it applies to and what it does
to them. Blocks stand in the list as their two ends.
-/

namespace Ambient.Tool.StreamEditor

/-- An address. A pattern that is left out is the one that was applied last. -/
inductive Address where
  | line (number : Nat)
  /-- Every so many lines from one on. -/
  | step (first size : Nat)
  | last
  /-- Every line. -/
  | every
  | matching (m : Option Matcher)
deriving DecidableEq, Repr, Inhabited

/-- The end of a range of lines. -/
inductive RangeEnd where
  | address (a : Address)
  /-- A number of lines after the first one. -/
  | after (count : Nat)
  /-- The next line whose number is a multiple. -/
  | multiple (size : Nat)
deriving DecidableEq, Repr, Inhabited

/-- How letters of a replacement are written: as they are, or in upper or lower case. -/
inductive LetterCase where
  | asWritten
  | upper
  | lower
deriving DecidableEq, Repr, Inhabited

/-- A part of a replacement. -/
inductive Piece where
  | byte (c : Char)
  | group (number : Nat)
  /-- The case of what follows, or only of its first letter. -/
  | letters (c : LetterCase) (isFirstOnly : Bool)
deriving DecidableEq, Repr, Inhabited

/-- A substitution: from the occurrence with a number on, once or everywhere. -/
structure Substitution where
  matcher : Option Matcher
  replacement : List Piece
  occurrence : Nat
  isGlobal : Bool
  /-- Whether the result is run as a command, whose output takes its place. -/
  evaluates : Bool
  /-- Whether the result is written before it is run. -/
  printsFirst : Bool
  prints : Bool
  /-- The file that lines with a replacement go to. -/
  target : Option Raw
deriving DecidableEq, Repr, Inhabited

/-- When a command goes on at a label: always, if there was a replacement, or if there was none. -/
inductive Jumping where
  | always
  | afterReplacement
  | withoutReplacement
deriving DecidableEq, Repr, Inhabited

/-- What a command does. -/
inductive Action where
  | openBlock
  | closeBlock
  | label (name : Raw)
  /-- Goes on at a label, or at the end of the script. -/
  | jump (condition : Jumping) (label : Raw)
  | substitute (s : Substitution)
  | transliterate (pairs : List (Char × Char))
  | append (text : Raw)
  | insert (text : Raw)
  | change (text : Raw)
  | delete
  | deleteFirst
  | print
  | printFirst
  | printHidden (width : Option Nat)
  | number
  | fileName
  | next
  | nextAppended
  | getHeld
  | getHeldAppended
  | hold
  | holdAppended
  | exchange
  | clear
  | quit (prints : Bool) (status : Nat)
  /-- Writes a file behind the line, or at once. -/
  | readFile (path : Raw) (isFirst : Bool)
  | readLine (path : Raw)
  | write (path : Raw)
  | writeFirst (path : Raw)
  /-- Runs a command and writes its output, or puts the output of the line in its place. -/
  | execute (command : Option Raw)
deriving DecidableEq, Repr, Inhabited

/-- A command. -/
structure Command where
  first : Option Address
  second : Option RangeEnd
  isNegated : Bool
  action : Action
deriving DecidableEq, Repr, Inhabited

/-- A script, and whether lines are only written where a command says so. -/
structure Script where
  commands : Array Command
  isQuiet : Bool
  /-- What complaints name where the script itself runs into a fault. -/
  place : String
deriving Repr, Inhabited

/-- Why a script cannot be read, or its work ends before its time: the status, and what is said. -/
structure Failure where
  status : Nat
  text : String
deriving Repr, Inhabited

namespace Script

/-- The place of the end of the block that is open, from a place on; `depth` counts the blocks that
have been opened since. -/
def blockEndFrom (depth place : Nat) : List Command → Nat
  | [] => place
  | command :: rest =>
    match command.action, depth with
    | .closeBlock, 0 => place
    | .closeBlock, depth + 1 => blockEndFrom depth (place + 1) rest
    | .openBlock, depth => blockEndFrom (depth + 1) (place + 1) rest
    | _, depth => blockEndFrom depth (place + 1) rest

/-- The place of the end of the block that opens at a place. -/
def blockEnd (s : Script) (place : Nat) : Nat :=
  blockEndFrom 0 (place + 1) (s.commands.toList.drop (place + 1))

/-- The place where a label stands last, or the end of the script. -/
def placeOf (s : Script) (name : Raw) : Nat :=
  let after := s.commands.toList.reverse.takeWhile fun command => command.action != .label name
  if name.isEmpty || after.length = s.commands.size then s.commands.size
  else s.commands.size - after.length - 1

/-- The places of the commands whose ranges are open before the first line. -/
def openRanges (s : Script) : List Nat :=
  s.commands.toList.zipIdx.filterMap fun (command, place) =>
    if command.first = some (.line 0) then some place else none

/-- The last label that a command goes on at and that is not there. -/
def missingLabel? (s : Script) : Option Raw :=
  s.commands.toList.reverse.findSome? fun command =>
    match command.action with
    | .jump _ name =>
      if name.isEmpty || s.commands.any fun other => other.action == .label name then none
      else some name
    | _ => none

end Script

end Ambient.Tool.StreamEditor

/-!
## Reading scripts of the stream editor

A script is put together from arguments and files. A complaint names the part of the script it is
about, and the character or the line.
-/

namespace Ambient.Tool.StreamEditor

/-- Where a part of a script comes from. -/
inductive Origin where
  | expression (number : Nat)
  | file (path : Raw)
deriving DecidableEq, Repr, Inhabited

/-- What complaints name: an expression with the number of characters that have been read of it, or
a file with a line. -/
def Origin.place (origin : Origin) (consumed line : Nat) : String :=
  match origin with
  | .expression number =>
    "-e expression #" ++ Nat.repr number ++ ", char " ++ Nat.repr consumed ++ ": "
  | .file path => "file " ++ toText path ++ " line " ++ Nat.repr line ++ ": "

/-- A block that is open. -/
structure OpenBlock where
  origin : Origin
  line : Nat
deriving DecidableEq, Repr, Inhabited

/-- How scripts are read: how patterns are spelled, and whether other files and programs are out of
reach. -/
structure Rules where
  dialect : Pattern.Dialect
  isConfined : Bool
deriving DecidableEq, Repr, Inhabited

/-- How far the reading of a script has come: what is left of the current part, how many characters
of it have been read, its line, the commands, last first, the blocks that are open, and a command
that still waits for its text, which may come in the next part. Files that commands write to are
made as they are met. -/
structure Draft where
  world : World
  rules : Rules
  rest : Raw
  consumed : Nat
  line : Nat
  origin : Origin
  /-- Whether no part has been read before. -/
  isFirstPart : Bool
  commands : List Command
  blocks : List OpenBlock
  /-- The text so far of a command that waits for more, and what is made of it. -/
  awaiting : Option (Raw × (Raw → Command))
  isQuiet : Bool

/-- A reader of scripts. -/
abbrev Reader := ExceptT Failure (StateM Draft)

namespace Reader

/-- The status of a script that is wrong. -/
def wrongScript : Nat := 1

/-- Complains about a place. -/
def complainAt {α : Type} (origin : Origin) (consumed line : Nat) (text : String) : Reader α :=
  throw ⟨wrongScript, origin.place consumed line ++ text⟩

/-- Complains about the current place. -/
def refuse {α : Type} (text : String) : Reader α := do
  let d ← get
  complainAt d.origin d.consumed d.line text

/-- Whether only what all tools know is known. -/
def isStrict : Reader Bool := return (← get).rules.dialect.isStrict

/-- Complains where other files and programs are out of reach. -/
def checkReach : Reader Unit := do
  if (← get).rules.isConfined then refuse "e/r/w commands disabled in sandbox mode"

/-- The next character. -/
def glance : Reader (Option Char) := return (← get).rest.head?

/-- Passes a number of characters. -/
def skip (count : Nat) : Reader Unit :=
  modify fun d =>
    let passed := d.rest.take count
    { d with
      rest := d.rest.drop count
      consumed := d.consumed + passed.length
      line := d.line + passed.count '\n' }

/-- Takes the next character. -/
def take : Reader (Option Char) := do
  let c ← glance
  skip 1
  return c

/-- Takes all characters that fit. -/
def takeWhile (fits : Char → Bool) : Reader Raw := do
  let found := (← get).rest.takeWhile fits
  skip found.length
  return found

/-- Whether a character is a blank in a line. -/
def isBlank (c : Char) : Bool := c == ' ' || c == '\t'

/-- Whether a character is a blank or ends a line. -/
def isSpace (c : Char) : Bool := c == ' ' || ('\t' ≤ c && c ≤ '\r')

/-- Passes blanks. -/
def skipBlanks : Reader Unit := do
  let _ ← takeWhile isBlank

/-- Takes a number. -/
def number : Reader Nat := do
  let digits ← takeWhile Char.isDigit
  return digits.foldl (fun n c => n * 10 + Pattern.digitValue c) 0

/-- Takes the end of a command, except for a brace or a comment that follows. -/
def endOfCommand : Reader Unit := do
  skipBlanks
  match ← glance with
  | none | some '\x7d' | some '#' => return
  | some c =>
    skip 1
    if c ≠ '\n' ∧ c ≠ ';' then refuse "extra characters after command"

end Reader

/-! ## Parts between delimiters -/

/-- The number of characters of a set from its opening on, if it is closed on the line. `inside` is the sign
that a named member of the set stands in. -/
def setLength (inside : Option Char) (isFirst : Bool) : Raw → Option Nat
  | [] => none
  | c :: rest =>
    match inside, c with
    | _, '\n' => none
    | some sign, _ =>
      if c = sign ∧ rest.head? = some ']' then (setLength (some ' ') false rest).map (· + 1)
      else if sign = ' ' then (setLength none false rest).map (· + 1)
      else (setLength inside false rest).map (· + 1)
    | none, ']' => if isFirst then (setLength none false rest).map (· + 1) else some 1
    | none, '[' =>
      match rest.head? with
      | some sign =>
        if sign = ':' ∨ sign = '.' ∨ sign = '=' then
          (setLength (some sign) false rest).map (· + 1)
        else (setLength none false rest).map (· + 1)
      | none => none
    | none, _ => (setLength none false rest).map (· + 1)

/-- The number of characters of a set behind its bracket, if it is closed. -/
def setLengthOf (cs : Raw) : Option Nat :=
  match cs with
  | '^' :: rest => (setLength none true rest).map (· + 1)
  | _ => setLength none true cs

/-- The characters up to a delimiter, and how many there are with it; the answer says whether it was
found. A backslash takes the meaning from the delimiter. In a pattern the delimiter may stand in a
set. The bound is the number of characters. -/
def upTo (isPattern : Bool) (delimiter : Char) : Nat → Raw → Raw × Nat × Bool
  | 0, _ | _, [] => ([], 0, false)
  | bound + 1, c :: rest =>
    let andThen (part : Raw) (count : Nat) (rest : Raw) : Raw × Nat × Bool :=
      let (more, size, isFound) := upTo isPattern delimiter bound rest
      (part ++ more, count + size, isFound)
    if c = '\n' then ([], 0, false)
    else if c = delimiter then ([], 1, true)
    else if c = '\\' then
      match rest with
      | [] => ([], 1, false)
      | '\n' :: rest => andThen ['\n'] 2 rest
      | d :: rest =>
        if d = delimiter ∧ (isPattern ∨ d ≠ '&') then andThen [d] 2 rest
        else andThen ['\\', d] 2 rest
    else if c = '[' ∧ isPattern then
      match setLengthOf rest with
      | some size => andThen ('[' :: rest.take size) (size + 1) (rest.drop size)
      | none => ([], (rest.takeWhile fun c => c != '\n').length + 1, false)
    else andThen [c] 1 rest

namespace Reader

/-- Takes a part up to a delimiter. -/
def part (isPattern : Bool) (delimiter : Char) (complaint : String) : Reader Raw := do
  let rest := (← get).rest
  let (found, size, isFound) := upTo isPattern delimiter rest.length rest
  skip size
  if isFound then return found else refuse complaint

/-- Takes the delimiter of a command. -/
def delimiter (complaint : String) : Reader Char := do
  match ← take with
  | some c => return c
  | none => refuse complaint

/-- The matcher of a pattern that is not empty. -/
def matcher (written : Raw) (ignoresCase seesLines : Bool) : Reader (Option Matcher) := do
  if written.isEmpty then
    if ignoresCase || seesLines then refuse "cannot specify modifiers on empty regexp"
    return none
  match Pattern.read (← get).rules.dialect written with
  | .ok (pattern, groups) => return some ⟨pattern, groups, ignoresCase, seesLines⟩
  | .error text => refuse text

/-! ## Addresses -/

/-- Takes the modifiers of an address; the bound is the number of characters. -/
def modifiers (ignoresCase seesLines : Bool) : Nat → Reader (Bool × Bool)
  | 0 => return (ignoresCase, seesLines)
  | bound + 1 => do
    skipBlanks
    match ← glance, ← isStrict with
    | some 'I', false =>
      skip 1
      modifiers true seesLines bound
    | some 'M', false =>
      skip 1
      modifiers ignoresCase true bound
    | _, _ => return (ignoresCase, seesLines)

/-- Takes an address, if there is one. -/
def address : Reader (Option RangeEnd) := do
  let strict ← isStrict
  match ← glance with
  | some '$' =>
    skip 1
    return some (.address .last)
  | some c =>
    if c = '/' ∨ c = '\\' then
      skip 1
      let sign ← if c = '/' then pure '/' else delimiter "unterminated address regex"
      let written ← part true sign "unterminated address regex"
      let (ignoresCase, seesLines) ← modifiers false false (← get).rest.length
      return some (.address (.matching (← matcher written ignoresCase seesLines)))
    else if c.isDigit then
      let first ← number
      skipBlanks
      if (← glance) = some '~' ∧ !strict then
        skip 1
        skipBlanks
        let size ← number
        return some (.address (if size = 0 then .line first else .step first size))
      else return some (.address (.line first))
    else if (c = '+' ∨ c = '~') ∧ !strict then
      skip 1
      skipBlanks
      let count ← number
      return some (if c = '+' then .after count else .multiple count)
    else return none
  | none => return none

/-- Takes what may follow the first address of a command. -/
def secondAddress : Reader (Option RangeEnd) := do
  skipBlanks
  if (← glance) ≠ some ',' then return none
  skip 1
  skipBlanks
  match ← address with
  | some second => return some second
  | none =>
    skip 1
    refuse "unexpected \x60,\x27"

/-- Takes the addresses of a command. A count that is zero stands for every line where it comes
first. -/
def addresses : Reader (Option Address × Option RangeEnd) := do
  match ← address with
  | none => return (none, none)
  | some (.after 0) | some (.multiple 0) => return (some .every, ← secondAddress)
  | some (.after _) | some (.multiple _) =>
    refuse "invalid usage of +N or ~N as first address"
  | some (.address first) =>
    let second ← secondAddress
    let isPattern := second matches some (.address (.matching _))
    if first = .line 0 ∧ (!isPattern ∨ (← isStrict)) then
      skipBlanks
      let isReading := (← glance) = some 'r' ∧ second.isNone ∧ !(← isStrict)
      if !isReading then
        skip 1
        refuse "invalid usage of line address 0"
    return (some first, second)

/-! ## Arguments of commands -/

/-- The text of a command without its escapes, with a line end. -/
def unescaped : Nat → Raw → Raw
  | 0, _ | _, [] => []
  | bound + 1, '\\' :: rest =>
    match Pattern.escaped? rest, rest with
    | some (c, rest), _ => c :: unescaped bound rest
    | none, c :: rest => c :: unescaped bound rest
    | none, [] => []
  | bound + 1, c :: rest => c :: unescaped bound rest

/-- Takes text up to a line end without a backslash; the answer says whether it broke off after
one. The bound is the number of characters. -/
def textFrom : Nat → Reader (Raw × Bool)
  | 0 => return ([], false)
  | bound + 1 => do
    match ← take with
    | none | some '\n' => return ([], false)
    | some '\\' =>
      match ← take with
      | none => return ([], true)
      | some c =>
        let (rest, isBroken) ← textFrom bound
        return ('\\' :: c :: rest, isBroken)
    | some c =>
      let (rest, isBroken) ← textFrom bound
      return (c :: rest, isBroken)

/-- Adds a command. -/
def add (command : Command) : Reader Unit :=
  modify fun d => { d with commands := command :: d.commands }

/-- Refuses escapes that cannot be resolved. -/
def checkEscapes (written : Raw) : Reader Unit := do
  if Pattern.hasNestedControl written then refuse Pattern.nestedControl

/-- What is said where a text breaks off. -/
def incomplete : String := "incomplete command"

/-- Takes the text of a command behind what has been written before, and adds the command. A text
that breaks off goes on in the next part of the script; only one that is complete loses its
escapes. -/
def addText (before : Raw) (make : Raw → Command) : Reader Unit := do
  let (added, isBroken) ← textFrom ((← get).rest.length + 1)
  let written := before ++ added ++ ['\n']
  if isBroken then
    if ← isStrict then refuse incomplete
    modify fun d => { d with awaiting := some (written, make) }
  else
    checkEscapes written
    add (make (unescaped written.length written))

/-- Takes a label. -/
def label : Reader Raw := do
  skipBlanks
  takeWhile fun c => !isSpace c && !([';', '\x7d', '#'].contains c)

/-- Whether a version comes after another one: numbers in them count as a whole, unless they start
with a zero. `inNumber` says whether a number goes on. -/
def isNewer (inNumber : Bool) : Raw → Raw → Bool
  | [], _ => false
  | _ :: _, [] => true
  | x :: xs, y :: ys =>
    if x = y then isNewer (x.isDigit && (inNumber || x ≠ '0')) xs ys
    else
      let digits (cs : Raw) : Nat := (cs.takeWhile Char.isDigit).length
      let isWhole := inNumber || (x.isDigit && y.isDigit && x ≠ '0' && y ≠ '0')
      let long := digits (x :: xs)
      let short := digits (y :: ys)
      if isWhole ∧ long ≠ short then short < long else y < x

/-- The version of the tool. -/
def version : Raw := raw "4.9"

/-- Takes the version that a script needs. -/
def neededVersion : Reader Unit := do
  if isNewer false (← label) version then refuse "expected newer version of sed"

/-- Takes the name of a file, which goes on to the end of the line. -/
def path : Reader Raw := do
  checkReach
  skipBlanks
  let found ← takeWhile fun c => c != '\n'
  skip 1
  if found.isEmpty then refuse "missing filename in r/R/w/W commands"
  return found

/-- Takes the name of a file that is written, which is made anew. -/
def target : Reader Raw := do
  let found ← path
  if found = raw "/dev/stdout" ∨ found = raw "/dev/stderr" then return found
  match (← get).world.write found [] with
  | .ok tree =>
    modify fun d => { d with world := { d.world with tree := tree } }
    return found
  | .error fault =>
    throw ⟨4, "couldn\x27t open file " ++ toText found ++ ": " ++ faultText fault⟩

/-- The change of the case that a letter after a backslash asks for. -/
def caseChange? : Char → Option Piece
  | 'U' => some (.letters .upper false)
  | 'L' => some (.letters .lower false)
  | 'E' => some (.letters .asWritten false)
  | 'u' => some (.letters .upper true)
  | 'l' => some (.letters .lower true)
  | _ => none

/-- The pieces of a replacement; the bound is the number of characters. -/
def pieces (isStrict : Bool) : Nat → Raw → List Piece
  | 0, _ | _, [] => []
  | bound + 1, '\\' :: rest =>
    match rest with
    | c :: after =>
      match (if isStrict then none else caseChange? c), Pattern.escaped? rest with
      | some piece, _ => piece :: pieces isStrict bound after
      | none, some (found, after) => .byte found :: pieces isStrict bound after
      | none, none =>
        (if c.isDigit then .group (Pattern.digitValue c) else .byte c)
          :: pieces isStrict bound after
    | [] => [.byte '\\']
  | bound + 1, '&' :: rest => .group 0 :: pieces isStrict bound rest
  | bound + 1, c :: rest => .byte c :: pieces isStrict bound rest

/-- What the flags of a substitution have come to. -/
structure Flags where
  occurrence : Nat
  isGlobal : Bool
  evaluates : Bool
  printsFirst : Bool
  prints : Bool
  ignoresCase : Bool
  seesLines : Bool
  target : Option Raw
deriving Inhabited

/-- Takes the flags of a substitution with the end of the command; the bound is the number of
characters. -/
def flags : Nat → Flags → Reader Flags
  | 0, f => return f
  | bound + 1, f => do
    match ← glance with
    | some '\x7d' | some '#' => return f
    | some c =>
      if c.isDigit then
        if f.occurrence ≠ 0 then
          skip 1
          refuse "multiple number options to \x60s\x27 command"
        let occurrence ← number
        if occurrence = 0 then refuse "number option to \x60s\x27 command may not be zero"
        flags bound { f with occurrence := occurrence }
      else
        skip 1
        match c, ← isStrict with
        | '\n', _ | ';', _ => return f
        | ' ', _ | '\t', _ => flags bound f
        | 'i', false | 'I', false => flags bound { f with ignoresCase := true }
        | 'm', false | 'M', false => flags bound { f with seesLines := true }
        | 'e', false =>
          checkReach
          flags bound { f with evaluates := true }
        | 'g', _ =>
          if f.isGlobal then refuse "multiple \x60g\x27 options to \x60s\x27 command"
          flags bound { f with isGlobal := true }
        | 'p', _ =>
          if f.prints || f.printsFirst then
            refuse "multiple \x60p\x27 options to \x60s\x27 command"
          flags bound
            (if f.evaluates then { f with prints := true } else { f with printsFirst := true })
        | 'w', _ => return { f with target := some (← target) }
        | _, _ => refuse "unknown option to \x60s\x27"
    | none => return f

/-- Takes a substitution after its letter. -/
def substitution : Reader Substitution := do
  let complaint := "unterminated \x60s\x27 command"
  let sign ← delimiter complaint
  let written ← part true sign complaint
  let replacement ← part false sign complaint
  checkEscapes replacement
  let f ← flags ((← get).rest.length + 1) ⟨0, false, false, false, false, false, false, none⟩
  let m ← matcher written f.ignoresCase f.seesLines
  let replacement := pieces (← isStrict) replacement.length replacement
  let greatest := (replacement.filterMap fun piece =>
    match piece with
    | .group number => some number
    | _ => none).foldl max 0
  match m with
  | some m =>
    if m.groups < greatest ∧ !(← isStrict) then
      refuse ("invalid reference \\" ++ Nat.repr greatest ++ " on \x60s\x27 command\x27s RHS")
  | none => pure ()
  return {
    matcher := m
    replacement := replacement
    occurrence := f.occurrence
    isGlobal := f.isGlobal
    evaluates := f.evaluates
    printsFirst := f.printsFirst && f.evaluates
    prints := f.prints || (f.printsFirst && !f.evaluates)
    target := f.target }

/-- The bytes of one side of a transliteration; the bound is the number of characters. -/
def side : Nat → Raw → Raw
  | 0, _ | _, [] | _, ['\\', 'c'] => []
  | bound + 1, '\\' :: rest =>
    match Pattern.escaped? rest, rest with
    | some (c, rest), _ | none, c :: rest => c :: side bound rest
    | none, [] => ['\\']
  | bound + 1, c :: rest => c :: side bound rest

/-- Takes a transliteration after its letter. -/
def transliteration : Reader (List (Char × Char)) := do
  let complaint := "unterminated \x60y\x27 command"
  let sign ← delimiter complaint
  let source ← part false sign complaint
  checkEscapes source
  let target ← part false sign complaint
  checkEscapes target
  let source := side source.length source
  let target := side target.length target
  if source.length ≠ target.length then
    refuse "strings for \x60y\x27 command are different lengths"
  return source.zip target

/-! ## Commands -/

/-- What is said where a text does not start as it should. -/
def lacksText : String := "expected \\ after \x60a\x27, \x60c\x27 or \x60i\x27"

/-- Takes the text of a command, which may have to wait for the next part of the script. -/
def addWithText (make : Raw → Command) : Reader Unit := do
  skipBlanks
  match ← glance with
  | none => refuse lacksText
  | some '\\' =>
    skip 1
    match ← glance with
    | none =>
      if ← isStrict then refuse incomplete
      modify fun d => { d with awaiting := some ([], make) }
    | some '\n' =>
      skip 1
      addText [] make
    | some c =>
      skip 1
      addText [c] make
  | some _ =>
    if ← isStrict then
      skip 1
      refuse lacksText
    addText [] make

/-- The action of a letter that stands alone. -/
def plainAction? : Char → Option Action
  | '=' => some .number
  | 'd' => some .delete
  | 'D' => some .deleteFirst
  | 'F' => some .fileName
  | 'g' => some .getHeld
  | 'G' => some .getHeldAppended
  | 'h' => some .hold
  | 'H' => some .holdAppended
  | 'n' => some .next
  | 'N' => some .nextAppended
  | 'p' => some .print
  | 'P' => some .printFirst
  | 'x' => some .exchange
  | 'z' => some .clear
  | _ => none

/-- Takes the number that may follow a letter, and the end of the command. -/
def numberThenEnd : Reader (Option Nat) := do
  skipBlanks
  let hasNumber := (← glance).any Char.isDigit && !(← isStrict)
  let found ← if hasNumber then some <$> number else pure none
  endOfCommand
  return found

/-- Refuses a letter that is no command. -/
def refuseLetter {α : Type} (c : Char) : Reader α :=
  refuse ("unknown command: \x60" ++ toText [c] ++ "\x27")

/-- Refuses a command that can only have one address. -/
def refuseRange {α : Type} : Reader α := refuse "command only uses one address"

/-- Refuses what not all tools know, if nothing else may be used. -/
def checkLetter (c : Char) (hasRange : Bool) : Reader Unit := do
  if ← isStrict then
    if "eFvzLQTRW".toList.contains c then refuseLetter c
    if hasRange && "ail=r".toList.contains c then refuseRange

/-- Takes the command that is to be executed. -/
def addExecution (make : Option Raw → Command) : Reader Unit := do
  checkReach
  skipBlanks
  let finish (text : Raw) : Command :=
    make (if text.isEmpty then none else some text.dropLast)
  match ← glance with
  | none | some '\n' =>
    skip 1
    add (make none)
  | some _ => addWithText finish

/-- Takes a command after its addresses. -/
def action (first : Option Address) (second : Option RangeEnd) (isNegated : Bool) :
    Reader Unit := do
  let make (a : Action) : Command := ⟨first, second, isNegated, a⟩
  let letter ← take
  match letter with
  | some c => checkLetter c second.isSome
  | none => pure ()
  match letter with
  | none => refuse "missing command"
  | some '\x7b' =>
    let d ← get
    set { d with blocks := ⟨d.origin, d.line⟩ :: d.blocks }
    add (make .openBlock)
  | some '\x7d' =>
    match (← get).blocks with
    | [] => refuse "unexpected \x60\x7d\x27"
    | _ :: outer =>
      if first.isSome then refuse "\x60\x7d\x27 doesn\x27t want any addresses"
      modify fun d => { d with blocks := outer }
      endOfCommand
      add (make .closeBlock)
  | some ':' =>
    if first.isSome then refuse ": doesn\x27t want any addresses"
    let name ← label
    if name.isEmpty then refuse "\x22:\x22 lacks a label"
    add (make (.label name))
  | some 'b' => add (make (.jump .always (← label)))
  | some 't' => add (make (.jump .afterReplacement (← label)))
  | some 'T' => add (make (.jump .withoutReplacement (← label)))
  | some 'a' => addWithText fun text => make (.append text)
  | some 'i' => addWithText fun text => make (.insert text)
  | some 'c' => addWithText fun text => make (.change text)
  | some 's' => add (make (.substitute (← substitution)))
  | some 'y' =>
    let pairs ← transliteration
    endOfCommand
    add (make (.transliterate pairs))
  | some 'l' => add (make (.printHidden (← numberThenEnd)))
  | some 'r' =>
    let isFirst := first = some (.line 0) ∧ second.isNone
    let path ← path
    add { make (.readFile path isFirst) with first := if isFirst then some (.line 1) else first }
  | some 'R' => add (make (.readLine (← path)))
  | some 'w' => add (make (.write (← target)))
  | some 'W' => add (make (.writeFirst (← target)))
  | some 'e' => addExecution fun command => make (.execute command)
  | some 'v' => neededVersion
  | some c =>
    if c = 'q' ∨ c = 'Q' then
      if second.isSome then refuseRange
      add (make (.quit (c = 'q') ((← numberThenEnd).getD 0)))
    else
      match plainAction? c with
      | some found =>
        endOfCommand
        add (make found)
      | none => refuseLetter c

/-- Takes a comment after its sign. A script whose first two characters are a comment sign and
an `n` is quiet, whatever the comment goes on to say. -/
def comment : Reader Unit := do
  let d ← get
  let words ← takeWhile fun c => c != '\n'
  if d.isFirstPart ∧ d.consumed = 1 ∧ words.head? = some 'n' then
    modify fun d => { d with isQuiet := true }

/-- Takes the commands of a part of the script; the bound is the number of characters. -/
def commands : Nat → Reader Unit
  | 0 => return
  | bound + 1 => do
    let _ ← takeWhile fun c => isSpace c || c == ';'
    if (← glance).isNone then return
    let (first, second) ← addresses
    skipBlanks
    let isNegated ← if (← glance) = some '!' then do
        skip 1
        skipBlanks
        if (← glance) = some '!' then
          skip 1
          refuse "multiple \x60!\x27s"
        pure true
      else pure false
    if (← glance) = some '#' then
      skip 1
      if first.isSome then refuse "comments don\x27t accept any addresses"
      comment
    else action first second isNegated
    commands bound

/-- Takes a part of the script, which may start with the text of a command before it. -/
def source (origin : Origin) (written : Raw) : Reader Unit := do
  modify fun d => { d with rest := written, consumed := 0, line := 1, origin := origin }
  match (← get).awaiting with
  | some (before, make) =>
    modify fun d => { d with awaiting := none }
    addText before make
  | none => pure ()
  commands (written.length + 1)
  modify fun d => { d with isFirstPart := false }

/-- Takes all parts of a script. -/
def sources : List (Origin × Raw) → Reader Unit
  | [] => do
    match (← get).awaiting with
    | some (before, make) => add (make before)
    | none => pure ()
    match (← get).blocks with
    | block :: _ => complainAt block.origin 0 block.line "unmatched \x60\x7b\x27"
    | [] => return
  | (origin, written) :: rest => do
    source origin written
    sources rest

end Reader

/-- Reads a script from its parts, and answers with the files as the reading leaves them. -/
def Script.read (rules : Rules) (w : World) (parts : List (Origin × Raw)) :
    Except Failure Script × World :=
  let start : Draft :=
    { world := w, rules := rules, rest := [], consumed := 0, line := 1, origin := .expression 1
      isFirstPart := true, commands := [], blocks := [], awaiting := none, isQuiet := false }
  let (result, d) := (Reader.sources parts).run start
  (result.map fun _ =>
    ⟨d.commands.reverse.toArray, d.isQuiet, d.origin.place 0 d.line⟩, d.world)

end Ambient.Tool.StreamEditor
