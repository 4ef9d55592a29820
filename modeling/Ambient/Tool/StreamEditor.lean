import Ambient.Tool.StreamEditor.Script

/-!
# The stream editor

Edits an input or files line by line with a script, and writes the result, or puts it in the place
of the files.
-/

/-!
## The work of the stream editor

A script runs once for every line. The line is changed in one buffer while another one keeps text
from line to line; what is to follow a line waits until the next one is read. A file is opened when
its first line is asked for, so that one which is never reached is never missed.
-/

namespace Ambient.Tool.StreamEditor

/-! ## Substituting -/

/-- How the letters that follow are written: all of them, and the first one. -/
structure Casing where
  all : LetterCase
  first : LetterCase
deriving DecidableEq, Repr, Inhabited

/-- A letter in a case. -/
def LetterCase.apply (c : Char) : LetterCase → Char
  | .asWritten => c
  | .upper => c.toUpper
  | .lower => c.toLower

/-- Writes a text, the first letter in a case of its own. -/
def Casing.apply (casing : Casing) : Raw → Raw × Casing
  | [] => ([], casing)
  | c :: rest =>
    let first := if casing.first = .asWritten then casing.all else casing.first
    (first.apply c :: rest.map fun c => casing.all.apply c, { casing with first := .asWritten })

/-- The text of a replacement for a match. -/
def replaced (whole : Raw) (groups : List (Nat × Raw)) (casing : Casing) : List Piece → Raw
  | [] => []
  | .letters c isFirstOnly :: rest =>
    replaced whole groups
      (if isFirstOnly then { casing with first := c } else ⟨c, .asWritten⟩) rest
  | .byte c :: rest =>
    let (text, casing) := casing.apply [c]
    text ++ replaced whole groups casing rest
  | .group number :: rest =>
    let text := if number = 0 then whole else (groups.lookup number).getD []
    let (text, casing) := casing.apply text
    text ++ replaced whole groups casing rest

/-- Substitutes in what is left of a text. `skip` bytes belong to a match that has been replaced,
`wanted` matches are still to be passed over, and an empty match may not follow a match. The answer
says whether anything was replaced. -/
def substituteFrom (m : Matcher) (s : Substitution) (taken : Nat) (before : Option Char)
    (skip wanted : Nat) (afterMatch : Bool) : Raw → Bool × Raw
  | [] =>
    if skip = 0 ∧ !afterMatch ∧ wanted ≤ 1 then
      match m.matchAt? ⟨taken, before, [], []⟩ with
      | some p => (true, replaced [] p.groups default s.replacement)
      | none => (false, [])
    else (false, [])
  | c :: rest =>
    if 0 < skip then substituteFrom m s (taken + 1) (some c) (skip - 1) wanted (skip = 1) rest
    else
      let keep (wanted : Nat) : Bool × Raw :=
        let (found, after) := substituteFrom m s (taken + 1) (some c) 0 wanted false rest
        (found, c :: after)
      match m.matchAt? ⟨taken, before, c :: rest, []⟩ with
      | none => keep wanted
      | some p =>
        let length := p.taken - taken
        if length = 0 then
          if afterMatch then keep wanted
          else if 1 < wanted then keep (wanted - 1)
          else
            let text := replaced [] p.groups default s.replacement
            if s.isGlobal then
              let (_, after) := keep 0
              (true, text ++ after)
            else (true, text ++ c :: rest)
        else if 1 < wanted then
          let (found, after) := substituteFrom m s (taken + 1) (some c) (length - 1) (wanted - 1)
            (length = 1) rest
          (found, (c :: rest).take length ++ after)
        else
          let text := replaced ((c :: rest).take length) p.groups default s.replacement
          if s.isGlobal then
            let (_, after) :=
              substituteFrom m s (taken + 1) (some c) (length - 1) 0 (length = 1) rest
            (true, text ++ after)
          else (true, text ++ (c :: rest).drop length)

/-! ## State -/

/-- A text, and whether it is written with an end. -/
structure Buffer where
  text : Raw
  hasEnd : Bool
deriving DecidableEq, Repr, Inhabited

/-- A file that is open: its path, whether it is the input, and what is left of it if it is not. -/
structure Source where
  path : Raw
  isStandard : Bool
  rest : Raw
deriving DecidableEq, Repr, Inhabited

/-- Where something is written: the outputs, a file, or the file that takes the place of the one
that is read. The output that a command names is kept apart from the one that lines go to. -/
inductive Sink where
  | output
  | namedOutput
  | errors
  | file (path : Raw)
  | edited
deriving DecidableEq, Repr, Inhabited

/-- The sink of a file that a command names. -/
def Sink.named (path : Raw) : Sink :=
  if path = raw "/dev/stdout" then .namedOutput
  else if path = raw "/dev/stderr" then .errors
  else .file path

/-- What is written when the next line is read. -/
inductive Waiting where
  | text (t : Raw)
  | file (path : Raw)
deriving DecidableEq, Repr, Inhabited

/-- How lines are edited. -/
structure Style where
  isQuiet : Bool
  /-- The byte that ends lines. -/
  ending : Char
  /-- Whether every file is edited for itself. -/
  isSeparate : Bool
  isInPlace : Bool
  /-- What the name of a file that is kept is made with. -/
  suffix : Raw
  /-- The width at which hidden bytes are shown. -/
  width : Nat
  /-- Whether only what all tools know is known. -/
  isStrict : Bool
deriving DecidableEq, Repr, Inhabited

/-- How far a range of lines has come: it goes on, up to a line if its number is known, or it has
been passed. -/
inductive RangeState where
  | isOpen (last : Option Nat)
  | isOver
deriving DecidableEq, Repr, Inhabited

/-- The state of the work. -/
structure Work where
  world : World
  style : Style
  script : Script
  shell? : Option Program
  /-- What is left of the input. -/
  input : Raw
  /-- The files that have not been opened. -/
  operands : List Raw
  source : Option Source
  /-- The file that was opened last. -/
  fileName : Raw
  /-- Whether the next file starts anew. -/
  startsAnew : Bool
  /-- Whether there was a file that could not be read. -/
  hasFaults : Bool
  /-- The number of the line. -/
  number : Nat
  space : Buffer
  held : Buffer
  /-- Whether the text that was given up last had an end. -/
  hadEnd : Bool
  waiting : List Waiting
  /-- Whether there was a replacement since the last line was read. -/
  hasReplaced : Bool
  /-- The ranges of commands that have been met. -/
  ranges : List (Nat × RangeState)
  /-- What has been written, last piece first. -/
  written : List (Sink × List Raw)
  /-- The sinks whose last line lacks its end. -/
  lacking : List Sink
  /-- What is left of the files that are read line by line. -/
  readers : List (Raw × Raw)
  lastMatcher : Option Matcher

/-- A step of the work. -/
abbrev Editing := ExceptT Failure (StateM Work)

namespace Work

/-! ## Writing -/

/-- Writes pieces, the last one first, after the end that the last line may lack. -/
def putPieces (w : Work) (sink : Sink) (pieces : List Raw) (hasEnd : Bool) : Work :=
  let stream := if sink = .namedOutput then .output else sink
  let before := (w.written.lookup stream).getD []
  let missing : List Raw := if w.lacking.contains sink then [[w.style.ending]] else []
  { w with
    written := (stream, pieces ++ missing ++ before)
      :: w.written.filter fun entry => entry.1 != stream
    lacking := (if hasEnd then [] else [sink]) ++ w.lacking.filter fun other => other != sink }

/-- Writes a line. -/
def put (w : Work) (sink : Sink) (text : Raw) (hasEnd : Bool) : Work :=
  w.putPieces sink (if hasEnd then [[w.style.ending], text] else [text]) hasEnd

/-- Writes a text that has its own ends. -/
def putText (w : Work) (sink : Sink) (text : Raw) : Work := w.putPieces sink [text] true

/-- What has been written to a sink. -/
def writtenTo (w : Work) (sink : Sink) : Raw := ((w.written.lookup sink).getD []).reverse.flatten

/-- Where the lines go. -/
def sink (w : Work) : Sink := if w.style.isInPlace then .edited else .output

/-- Writes a text to where the lines go, with the end of lines in the place of its last byte. -/
def putBlock (w : Work) (text : Raw) : Work :=
  w.putText w.sink (if text.isEmpty then [] else text.dropLast ++ [w.style.ending])

/-- Writes a buffer to where the lines go. -/
def putBuffer (w : Work) (b : Buffer) : Work := w.put w.sink b.text b.hasEnd

/-- The files with a content for one of them; what cannot be written is lost. -/
def store (w : Work) (path content : Raw) : Work :=
  match w.world.write path content with
  | .ok tree => { w with world := { w.world with tree := tree } }
  | .error _ => w

/-- Puts what has been written to files into them. -/
def settle (w : Work) : Work :=
  w.written.foldl (fun settled entry =>
    match entry.1 with
    | .file path => settled.store path entry.2.reverse.flatten
    | _ => settled) w

/-- Complains. -/
def complain (w : Work) (text : String) : Work :=
  w.putText .errors (w.world.complaint (raw text)).2

/-- The content of a file that a command names; the input is all that is left of it. A file that
cannot be opened is empty. -/
def contentOf (path : Raw) : Editing Raw := do
  let w ← get
  if path = raw "/dev/stdin" ∧ !w.style.isStrict then
    set { w with input := [] }
    return w.input
  let w := w.settle
  set w
  match w.world.read path with
  | .ok content => return content
  | .error .isDirectory =>
    throw ⟨4, "read error on " ++ toText path ++ ": Is a directory"⟩
  | .error _ => return []

/-- Writes a part of what waits. -/
def writeWaiting : Waiting → Editing Unit
  | .text t => modify fun w => w.putText w.sink t
  | .file path => do
    let text ← contentOf path
    modify fun w => w.putText w.sink text

/-- Writes what waits. -/
def flush : Editing Unit := do
  let waiting := (← get).waiting
  modify fun w => { w with waiting := [] }
  for item in waiting do
    writeWaiting item

/-! ## Reading -/

/-- The path of the file that keeps what was there before. -/
def backupOf (suffix path : Raw) : Raw :=
  if suffix.contains '*' then
    let name := (path.reverse.takeWhile fun c => c != '/').reverse
    let directory := path.take (path.length - name.length)
    let kept := suffix.flatMap fun c => if c = '*' then name else [c]
    if kept.contains '/' then kept else directory ++ kept
  else path ++ suffix

/-- Puts the file that has been edited into the place of the one that was read, which may be
kept. -/
def replaceFile (w : Work) (path : Raw) : Work :=
  let edited := w.writtenTo .edited
  let kept := match w.style.suffix.isEmpty, w.world.read path with
    | false, .ok before => w.store (backupOf w.style.suffix path) before
    | _, _ => w
  { kept.store path edited with
    written := w.written.filter fun entry => entry.1 != .edited
    lacking := w.lacking.filter fun sink => sink != .edited }

/-- Closes the file that is open. -/
def close (w : Work) : Work :=
  match w.source with
  | none => w
  | some source =>
    let w := if w.style.isInPlace then w.replaceFile source.path else w
    { w with source := none, startsAnew := w.style.isSeparate }

/-- What is left of the file that is open. -/
def left (w : Work) : Raw :=
  match w.source with
  | some source => if source.isStandard then w.input else source.rest
  | none => []

/-- Leaves only the last part of the file that is open. -/
def setLeft (w : Work) (rest : Raw) : Work :=
  match w.source with
  | some source =>
    if source.isStandard then { w with input := rest }
    else { w with source := some { source with rest := rest } }
  | none => w

/-- Opens a file. One that cannot be read is complained about; a directory can be opened, and is
refused when it is read or edited. -/
def openFile (w : Work) (path : Raw) (isLookAhead : Bool) : Except Failure Work :=
  if path = ['-'] ∧ !w.style.isInPlace then
    match w.world.inputFault?, isLookAhead with
    | none, _ => .ok { w with source := some ⟨path, true, []⟩, fileName := path }
    | some _, true => .ok { w with fileName := path }
    | some text, false => .error ⟨4, "read error on stdin: " ++ text⟩
  else
    match w.world.read path with
    | .ok content => .ok { w with source := some ⟨path, false, content⟩, fileName := path }
    | .error .isDirectory =>
      if w.style.isInPlace then
        .error ⟨4, "couldn\x27t edit " ++ toText path ++ ": not a regular file"⟩
      else if isLookAhead then .ok { w with fileName := path }
      else .error ⟨4, "read error on " ++ toText path ++ ": Is a directory"⟩
    | .error fault =>
      .ok { w.complain ("can\x27t read " ++ toText path ++ ": " ++ faultText fault) with
        hasFaults := true }

/-- The ranges that are open before the first line. -/
def rangesOf (s : Script) : List (Nat × RangeState) :=
  s.openRanges.map fun place => (place, .isOpen none)

/-- Starts a file anew: lines are counted from the first one on, nothing is kept, and ranges are
closed. -/
def startAnew (w : Work) : Work :=
  { w with
    startsAnew := false
    number := 0
    held := { w.held with text := [] }
    ranges := rangesOf w.script
    readers := [] }

/-- Takes the next line of the file that is open, if there is one. -/
def takeOpen : Editing (Option Buffer) := do
  let w ← get
  let text := w.left
  let line := text.takeWhile fun c => c != w.style.ending
  match text, text.drop line.length with
  | [], _ => return none
  | _, [] =>
    set (w.setLeft [])
    return some ⟨line, false⟩
  | _, _ :: rest =>
    set (w.setLeft rest)
    return some ⟨line, true⟩

/-- Opens the first of some files that have not been opened. -/
def openNext (isLookAhead : Bool) (path : Raw) (rest : List Raw) : Editing Unit := do
  let closed := (← get).close
  let fresh := if closed.startsAnew then closed.startAnew else closed
  set fresh
  let opened ← MonadExcept.ofExcept (fresh.openFile path isLookAhead)
  set { opened with operands := rest }

/-- Takes the next line of the file that is open, or of those that have not been opened. -/
def takeLine : List Raw → Editing (Option Buffer)
  | [] => do
    match ← takeOpen with
    | some line => return some line
    | none =>
      modify close
      return none
  | path :: rest => do
    match ← takeOpen with
    | some line => return some line
    | none =>
      openNext false path rest
      takeLine rest

/-- Reads the next line, if there is one. It takes the place of the text, or is added to it. -/
def readNext (appends : Bool) : Editing Bool := do
  flush
  match ← takeLine (← get).operands with
  | none => return false
  | some line =>
    modify fun w =>
      let text := if appends then w.space.text ++ w.style.ending :: line.text else line.text
      { w with number := w.number + 1, space := ⟨text, line.hasEnd⟩, hasReplaced := false }
    return true

/-- Whether no line follows, for which further files may have to be opened. -/
def isLastFrom : List Raw → Editing Bool
  | [] => do
    let w ← get
    if !w.left.isEmpty then return false
    if !w.style.isSeparate then set w.close
    return true
  | path :: rest => do
    let w ← get
    if !w.left.isEmpty then return false
    if w.style.isSeparate then return true
    openNext true path rest
    isLastFrom rest

/-- Whether the line is the last one. -/
def isLast : Editing Bool := do isLastFrom (← get).operands

/-- Takes the next line of a file that is read line by line, with its end, if it has one. -/
def takeFrom (path : Raw) : Editing (Option Raw) := do
  let w ← get
  let isInput := path = raw "/dev/stdin" && !w.style.isStrict
  let (content, w) := match w.readers.lookup path with
    | some content => (content, w)
    | none => if isInput then (w.input, w) else
      let w := w.settle
      ((w.world.read path).toOption.getD [], w)
  let line := content.takeWhile fun c => c != w.style.ending
  let size := line.length + 1
  let rest := content.drop size
  set (if isInput then { w with input := rest }
    else { w with readers := (path, rest) :: w.readers.filter fun entry => entry.1 != path })
  return if content.isEmpty then none else some (content.take size)

/-! ## Selecting lines -/

/-- The matcher that a command asks for, or the last one, which has to have some groups. Lines
inside a text only count where they are the lines of the input. -/
def matcher (m : Option Matcher) (groups : Nat) : Editing Matcher := do
  let w ← get
  match m, w.lastMatcher with
  | some m, _ | none, some m =>
    if m.groups < groups ∧ !w.style.isStrict then
      throw ⟨1, w.script.place ++ "invalid reference \\" ++ Nat.repr groups
        ++ " on \x60s\x27 command\x27s RHS"⟩
    set { w with lastMatcher := some m }
    return { m with seesLines := m.seesLines && w.style.ending == '\n' }
  | none, none => throw ⟨1, w.script.place ++ "no previous regular expression"⟩

/-- Whether an address selects the line. -/
def selects : Address → Editing Bool
  | .line n => return n == (← get).number
  | .step first size => do
    let number := (← get).number
    return decide (first ≤ number) && (number - first) % size == 0
  | .last => isLast
  | .every => return true
  | .matching m => do return (← matcher m 0).occursIn (← get).space.text

/-- Sets the state of the range of a command. -/
def setRange (w : Work) (place : Nat) (state : RangeState) : Work :=
  { w with ranges := (place, state) :: w.ranges.filter fun entry => entry.1 != place }

/-- Whether the range of a command goes on. -/
def isInRange (w : Work) (place : Nat) : Bool :=
  w.ranges.lookup place matches some (.isOpen _)

/-- Whether a range goes on on the line. One that is counted from its first line on takes a line
beyond its end, if the end itself was passed over. -/
def goesOn (place : Nat) (last : Option Nat) (second : RangeEnd) : Editing Bool := do
  let number := (← get).number
  match last, second with
  | some last, _ =>
    if last ≤ number then modify fun w => w.setRange place .isOver
    return number ≤ last || !(second matches .address _)
  | none, .address a =>
    if ← selects a then modify fun w => w.setRange place .isOver
    return true
  | none, _ =>
    modify fun w => w.setRange place .isOver
    return false

/-- Starts a range on the line, where it may end at once. -/
def start (place : Nat) (second : RangeEnd) : Editing Unit := do
  let number := (← get).number
  let upTo (last : Nat) : RangeState := if last ≤ number then .isOver else .isOpen (some last)
  let state ← match second with
    | .address (.line last) => pure (upTo last)
    | .after count => pure (upTo (number + count))
    | .multiple size =>
      pure (upTo (if size = 0 then number else (number / size + 1) * size))
    | .address (.matching _) => pure (.isOpen none)
    | .address a => pure (if ← selects a then .isOver else .isOpen none)
  modify fun w => w.setRange place state

/-- Whether a range begins on the line. One that begins at a line with a number does so once, and
late if that line was passed over, but not behind its end. -/
def begins (place : Nat) (first : Address) (second : RangeEnd) : Editing Bool := do
  match first with
  | .line n =>
    let w ← get
    let isBehind := match second with
      | .address (.line last) => n < w.number && last < w.number
      | _ => false
    return n ≤ w.number && !isBehind && !(w.ranges.lookup place).isSome
  | _ => selects first

/-- Whether a command applies to the line. -/
def applies (place : Nat) (c : Command) : Editing Bool := do
  let found ← match c.first, c.second with
    | none, _ => pure true
    | some first, none => selects first
    | some first, some second =>
      match (← get).ranges.lookup place with
      | some (.isOpen last) => goesOn place last second
      | _ => do
        let found ← begins place first second
        if found then start place second
        pure found
  return found != c.isNegated

/-! ## Hidden bytes -/

/-- A byte as it is shown with the hidden ones. -/
def shown (c : Char) : Raw :=
  match c with
  | '\\' => ['\\', '\\']
  | '\x07' => ['\\', 'a']
  | '\x08' => ['\\', 'b']
  | '\x0c' => ['\\', 'f']
  | '\n' => ['\\', 'n']
  | '\r' => ['\\', 'r']
  | '\t' => ['\\', 't']
  | '\x0b' => ['\\', 'v']
  | c =>
    if ' ' ≤ c ∧ c ≤ '~' then [c]
    else
      let digit (n : Nat) : Char := Char.ofNat ('0'.toNat + n % 8)
      ['\\', digit (c.toNat / 64), digit (c.toNat / 8), digit c.toNat]

/-- A text with its hidden bytes in lines of a width; `column` is the place in the line. -/
def shownFrom (ending : Char) (width column : Nat) : Raw → Raw
  | [] => ['$', ending]
  | c :: rest =>
    let piece := shown c
    if 0 < width ∧ width - 1 < column + piece.length then
      ['\\', ending] ++ piece ++ shownFrom ending width piece.length rest
    else piece ++ shownFrom ending width (column + piece.length) rest

/-! ## Running -/

/-- How a script goes on after a command. -/
inductive Flow where
  | next
  | jump (place : Nat)
  /-- The script ends for the line, which may be written. -/
  | over (prints : Bool)
  /-- The script runs again without another line. -/
  | again
  | quit (prints : Bool) (status : Nat)
deriving DecidableEq, Repr, Inhabited

/-- The first line of a text, and what follows it. -/
def firstLine (ending : Char) (text : Raw) : Raw × Option Raw :=
  let first := text.takeWhile fun c => c != ending
  (first, (text.drop first.length).tail?)

/-- Runs a command in a shell, and answers with what it has written. It sees the input, unless
that has been opened. -/
def evaluate (command : Raw) : Editing Raw := do
  let w := (← get).settle
  match w.shell? with
  | none => throw ⟨4, "error in subprocess"⟩
  | some shell =>
    let isOpen := (w.source.map Source.isStandard).getD false
    let input := if isOpen then [] else w.input
    let outcome := shell [['-', 'c'], command] input { w.world with name := raw "sh" }
    let after := { w with
      world := { w.world with tree := outcome.tree }
      input := if isOpen then w.input else outcome.unread }
    let complaints := outcome.written .errors
    set (if complaints.isEmpty then after else after.putText .errors complaints)
    return outcome.written .output

/-- A text without the end of its last line. -/
def dropEnding (ending : Char) (text : Raw) : Raw :=
  if text.getLast? = some ending then text.dropLast else text

/-- Substitutes in the text. -/
def substitute (s : Substitution) : Editing Unit := do
  let references := s.replacement.filterMap fun piece =>
    match piece with
    | .group number => some number
    | _ => none
  let m ← matcher s.matcher (references.foldl max 0)
  let w ← get
  let (found, result) := substituteFrom m s 0 none 0 s.occurrence false w.space.text
  if !found then return
  modify fun w =>
    { w with
      space := { w.space with text := result }
      hadEnd := w.space.hasEnd
      hasReplaced := true }
  if s.printsFirst then modify fun w => w.putBuffer w.space
  if s.evaluates then
    let output ← evaluate result
    modify fun w => { w with space := { w.space with text := dropEnding w.style.ending output } }
  if s.prints then modify fun w => w.putBuffer w.space
  match s.target with
  | some path => modify fun w => w.put (.named path) w.space.text w.space.hasEnd
  | none => return

/-- Runs a command at a place that applies to the line. -/
def act (place : Nat) (c : Command) : Editing Flow := do
  let w ← get
  let space := w.space
  let setText (text : Raw) : Editing Unit :=
    modify fun w => { w with space := { w.space with text := text } }
  let wait (item : Waiting) : Editing Unit :=
    modify fun w => { w with waiting := w.waiting ++ [item] }
  let write (f : Work → Work) : Editing Flow := do
    modify f
    return .next
  match c.action with
  | .openBlock | .closeBlock | .label _ => return .next
  | .jump condition name =>
    let target := Flow.jump (w.script.placeOf name)
    match condition with
    | .always => return target
    | .afterReplacement =>
      modify fun w => { w with hasReplaced := false }
      return if w.hasReplaced then target else .next
    | .withoutReplacement =>
      modify fun w => { w with hasReplaced := false }
      return if w.hasReplaced then .next else target
  | .substitute s =>
    substitute s
    return .next
  | .transliterate pairs =>
    setText (space.text.map fun c => (pairs.lookup c).getD c)
    return .next
  | .append text =>
    wait (.text text)
    return .next
  | .insert text => write fun w => w.putBlock text
  | .change text =>
    if c.isNegated || !w.isInRange place then modify fun w => w.putBlock text
    return .over false
  | .delete => return .over false
  | .deleteFirst =>
    match firstLine w.style.ending space.text with
    | (_, some rest) =>
      setText rest
      return .again
    | (_, none) => return .over false
  | .print => write fun w => w.putBuffer space
  | .printFirst =>
    match firstLine w.style.ending space.text with
    | (first, some _) => write fun w => w.put w.sink first true
    | (_, none) => write fun w => w.putBuffer space
  | .printHidden width =>
    let width := width.getD w.style.width
    write fun w => w.putText w.sink (shownFrom w.style.ending width 0 space.text)
  | .number => write fun w => w.putText w.sink (raw (Nat.repr w.number) ++ [w.style.ending])
  | .fileName => write fun w => w.putText w.sink (w.fileName ++ [w.style.ending])
  | .next =>
    if ← isLast then return .over true
    if !w.style.isQuiet then modify fun w => w.putBuffer space
    return if ← readNext false then .next else .over false
  | .nextAppended =>
    if ← isLast then return .over (!w.style.isStrict)
    return if ← readNext true then .next else .over true
  | .getHeld => write fun w => { w with space := w.held }
  | .getHeldAppended =>
    let text := space.text ++ w.style.ending :: w.held.text
    write fun w => { w with space := ⟨text, w.held.hasEnd⟩ }
  | .hold => write fun w => { w with held := space }
  | .holdAppended =>
    let text := w.held.text ++ w.style.ending :: space.text
    write fun w => { w with held := ⟨text, space.hasEnd⟩ }
  | .exchange => write fun w => { w with space := w.held, held := space }
  | .clear =>
    setText []
    return .next
  | .quit prints status => return .quit prints status
  | .readFile path true =>
    let text ← contentOf path
    if !text.isEmpty then modify fun w => w.putText w.sink text
    return .next
  | .readFile path false =>
    wait (.file path)
    return .next
  | .readLine path =>
    match ← takeFrom path with
    | some line => wait (.text line)
    | none => pure ()
    return .next
  | .write path => write fun w => w.put (.named path) space.text space.hasEnd
  | .writeFirst path =>
    match firstLine w.style.ending space.text with
    | (first, some _) => write fun w => w.put (.named path) first true
    | (_, none) => write fun w => w.put (.named path) space.text space.hasEnd
  | .execute none =>
    let output ← evaluate space.text
    write fun w =>
      { w with
        space := ⟨dropEnding w.style.ending output, w.hadEnd⟩
        hadEnd := w.space.hasEnd }
  | .execute (some command) =>
    let output ← evaluate command
    write fun w => w.putText w.sink output

/-- The end of the work: how it ended, and its state. -/
structure Done where
  status : Nat
  work : Work

/-- Writes the line unless the work is quiet. -/
def finishLine (w : Work) (prints : Bool) : Work :=
  if prints && !w.style.isQuiet then w.putBuffer w.space else w

/-- The end of the work by a failure. -/
def fail (w : Work) (failure : Failure) : Done := ⟨failure.status, w.complain failure.text⟩

/-- The end of the work with the input. -/
def finish (w : Work) : Done := ⟨if w.hasFaults then 2 else 0, w⟩

/-- The end of the work because a command asks for it. -/
def quit (w : Work) (prints : Bool) (status : Nat) : Done :=
  let status := if w.hasFaults then 2 else status
  if prints then
    match flush.run ((w.finishLine true).putText w.sink []) with
    | (.error failure, w) => w.fail failure
    | (.ok _, w) => ⟨status, w.close⟩
  else ⟨status, w.close⟩

/-- Runs the script from a place on, and then for all further lines; the bound is the number of
commands. -/
def run : Nat → Nat → Work → Done
  | 0, _, w => w.finish
  | bound + 1, place, w =>
    let finishCycle (prints : Bool) (w : Work) : Done :=
      match (readNext false).run (w.finishLine prints) with
      | (.ok true, w) => run bound 0 w
      | (.ok false, w) => w.finish
      | (.error failure, w) => w.fail failure
    match w.script.commands[place]? with
    | none => finishCycle true w
    | some c =>
      match (applies place c).run w with
      | (.error failure, w) => w.fail failure
      | (.ok false, w) =>
        run bound (if c.action = .openBlock then w.script.blockEnd place else place + 1) w
      | (.ok true, w) =>
        match (act place c).run w with
        | (.error failure, w) => w.fail failure
        | (.ok flow, w) =>
          match flow with
          | .next => run bound (place + 1) w
          | .jump target => run bound target w
          | .over prints => finishCycle prints w
          | .again =>
            match flush.run w with
            | (.error failure, w) => w.fail failure
            | (.ok _, w) => run bound 0 w
          | .quit prints status => w.quit prints status

/-- A bound on the number of commands that no work reaches which ends. -/
def commandLimit : Nat := 1000000000

/-- Runs the script for all lines. -/
def runAll (w : Work) : Done :=
  match (readNext false).run w with
  | (.ok true, w) => run commandLimit 0 w
  | (.ok false, w) => w.finish
  | (.error failure, w) => w.fail failure

end Work

end Ambient.Tool.StreamEditor

namespace Ambient.Tool.StreamEditor

/-- How the tool is called by a name. -/
def usage (name : Raw) : Raw := raw "Usage: " ++ name ++ raw (
  " [OPTION]... \x7bscript-only-if-no-other-script\x7d [input-file]...\n\n" ++
  "  -n, --quiet, --silent\n                 suppress automatic printing of pattern space\n" ++
  "      --debug\n                 annotate program execution\n" ++
  "  -e script, --expression=script\n" ++
  "                 add the script to the commands to be executed\n" ++
  "  -f script-file, --file=script-file\n" ++
  "                 add the contents of script-file to the commands to be executed\n" ++
  "  --follow-symlinks\n                 follow symlinks when processing in place\n" ++
  "  -i[SUFFIX], --in-place[=SUFFIX]\n" ++
  "                 edit files in place (makes backup if SUFFIX supplied)\n" ++
  "  -l N, --line-length=N\n" ++
  "                 specify the desired line-wrap length for the \x60l\x27 command\n" ++
  "  --posix\n                 disable all GNU extensions.\n" ++
  "  -E, -r, --regexp-extended\n" ++
  "                 use extended regular expressions in the script\n" ++
  "                 (for portability use POSIX -E).\n" ++
  "  -s, --separate\n                 consider files as separate rather than as a single,\n" ++
  "                 continuous long stream.\n" ++
  "      --sandbox\n                 operate in sandbox mode (disable e/r/w commands).\n" ++
  "  -u, --unbuffered\n" ++
  "                 load minimal amounts of data from the input files and flush\n" ++
  "                 the output buffers more often\n" ++
  "  -z, --null-data\n                 separate lines by NUL characters\n" ++
  "      --help     display this help and exit\n" ++
  "      --version  output version information and exit\n\n" ++
  "If no -e, --expression, -f, or --file option is given, then the first\n" ++
  "non-option argument is taken as the sed script to interpret.  All\n" ++
  "remaining arguments are names of input files; if no input files are\n" ++
  "specified, then the standard input is read.\n\n" ++
  "GNU sed home page: <https:/" ++ "/www.gnu.org/software/sed/>.\n" ++
  "General help using GNU software: <https:/" ++ "/www.gnu.org/gethelp/>.\n")

/-- The options. Those that have only a long name stand under letters that cannot be given. -/
def options : Options :=
  { letters := ['n', 'E', 'r', 's', 'u', 'z', 'b']
    valued := ['e', 'f', 'l']
    attached := ['i']
    long := [("binary", 'b'), ("regexp-extended", 'r'), ("debug", 'D'), ("in-place", 'i'),
      ("expression", 'e'), ("file", 'f'), ("line-length", 'l'), ("null-data", 'z'),
      ("zero-terminated", 'z'), ("quiet", 'n'), ("posix", 'P'), ("silent", 'n'),
      ("sandbox", 'S'), ("separate", 's'), ("unbuffered", 'u'), ("version", Options.version),
      ("help", Options.help), ("follow-symlinks", 'F')]
    endsAtOperand := false
    hint := usage }

/-- The parts of a script that options give, or the file that cannot be read. `count` is the number
of the next expression. -/
def partsOf (w : World) (count : Nat) :
    List (Char × Raw) → Except (Raw × Files.Fault) (List (Origin × Raw))
  | [] => .ok []
  | ('e', written) :: rest =>
    (partsOf w (count + 1) rest).map ((.expression count, written) :: ·)
  | ('f', path) :: rest =>
    match w.read path with
    | .error fault => .error (path, fault)
    | .ok written => (partsOf w count rest).map ((.file path, written) :: ·)
  | _ :: rest => partsOf w count rest

/-- The number that a text starts with, behind blanks. -/
def leadingNumber (text : Raw) : Nat :=
  ((text.dropWhile fun c => c == ' ').takeWhile Char.isDigit).foldl (fun n c => n * 10 + Pattern.digitValue c) 0

/-- What has not been read of the input. A file is left where the reading has come to; anything else
has been taken in blocks. -/
def unreadOf (w : World) (input left : Raw) : Raw :=
  let block := 4096
  match w.input with
  | .file .. => left
  | _ => input.drop ((input.length - left.length + block - 1) / block * block)

/-- Edits the operands by a script. -/
def edit (shell? : Option Program) (a : Arguments) (script : Script) (operands : List Raw)
    (input : Raw) (w : World) : Outcome :=
  let isInPlace := a.has 'i'
  let style : Style :=
    { isQuiet := script.isQuiet || a.has 'n'
      ending := if a.has 'z' then '\x00' else '\n'
      isSeparate := isInPlace || a.has 's'
      isInPlace := isInPlace
      suffix := (a.last? 'i').getD []
      width := ((a.last? 'l').map leadingNumber).getD 70
      isStrict := a.has 'P' }
  let start : Work :=
    { world := w, style := style, script := script, shell? := shell?, input := input
      operands := if operands.isEmpty then [['-']] else operands
      source := none, fileName := ['-'], startsAnew := false, hasFaults := false, number := 0
      space := ⟨[], true⟩, held := ⟨[], true⟩, hadEnd := true, waiting := [], hasReplaced := false
      ranges := Work.rangesOf script, written := [], lacking := [], readers := []
      lastMatcher := none }
  let done := start.runAll
  let last := done.work.settle
  let isLost := w.output = .closed
  let closing : List (Outlet × Raw) :=
    if isLost then [w.complaint (raw ("couldn\x27t close stdout: " ++ World.closedText))] else []
  { ending := .exited (if isLost then 4 else done.status)
    pieces := [(.errors, last.writtenTo .errors), (.output, last.writtenTo .output)] ++ closing
    unread := unreadOf w input last.input
    tree := last.world.tree }

/-- Reads a script, and edits the operands by it. -/
def editBy (shell? : Option Program) (a : Arguments) (parts : List (Origin × Raw))
    (operands : List Raw) (input : Raw) (w : World) : Outcome :=
  let rules : Rules := ⟨⟨a.has 'E' || a.has 'r', a.has 'P'⟩, a.has 'S'⟩
  let (result, w) := Script.read rules w parts
  match result with
  | .error failure => w.refuse input failure.status failure.text
  | .ok script =>
    match script.missingLabel? with
    | some name =>
      w.refuse input 4 ("can\x27t find label for jump to \x60" ++ toText name ++ "\x27")
    | none =>
      if a.has 'i' ∧ operands.isEmpty then w.refuse input 4 "no input files"
      else edit shell? a script operands input w

/-- The tool, which runs commands in a shell if there is one. -/
def streamEdit (shell? : Option Program) : Program := fun arguments input w =>
  match options.read arguments with
  | .error message => options.misuse w input message
  | .ok a =>
    if a.has Options.help then w.leaving 0 [(.output, usage w.name)] input
    else
      match partsOf w 1 a.options, a.operands with
      | .error (path, fault), _ =>
        w.refuse input 4 ("couldn\x27t open file " ++ toText path ++ ": " ++ faultText fault)
      | .ok [], [] => w.leaving 1 [(.errors, usage w.name)] input
      | .ok [], script :: operands => editBy shell? a [(.expression 1, script)] operands input w
      | .ok parts, operands => editBy shell? a parts operands input w

end Ambient.Tool.StreamEditor
