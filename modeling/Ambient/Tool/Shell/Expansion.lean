import Ambient.Tool.Basic
import Ambient.Tool.Shell.Arithmetic
import Ambient.Tool.Shell.State

/-!
# What words turn into

The parts of a word turn into characters, each with whether it means only itself and whether it may
divide the word. A word then falls into fields at the characters that divide, and fields that are
patterns turn into the paths that fit them.
-/

/-!
## Patterns of names

Patterns as they are written for names of files and for texts: a star for any characters, a
question mark for one, and sets in brackets. Characters that stood in quotes mean themselves.
-/

namespace Ambient.Tool.Shell

/-- A character, and whether it means only itself. -/
structure Glyph where
  char : Char
  isLiteral : Bool
deriving DecidableEq, Repr, Inhabited

/-- An element of a pattern. -/
inductive Glob where
  | char (c : Char)
  | one
  | many
  | set (isNegated : Bool) (members : Raw)
deriving DecidableEq, Repr, Inhabited

namespace Glob

/-- Reads the members of a set up to its closing bracket; the bound is the number of characters. A
bracket that comes first is a member. -/
def members : Nat → Bool → List Glyph → Option (Raw × List Glyph)
  | 0, _, _ | _, _, [] => none
  | bound + 1, isFirst, glyph :: rest =>
    let andThen (found : Raw) (rest : List Glyph) : Option (Raw × List Glyph) :=
      (members bound false rest).map fun (more, after) => (found ++ more, after)
    if glyph = ⟨']', false⟩ ∧ !isFirst then some ([], rest)
    else
      match glyph, rest with
      | ⟨'[', false⟩, ⟨':', false⟩ :: more =>
        let name := more.takeWhile fun g => g.char.isAlpha
        match more.dropWhile fun g => g.char.isAlpha with
        | ⟨':', false⟩ :: ⟨']', false⟩ :: after =>
          andThen ((byteClass? (String.ofList (name.map Glyph.char))).getD []) after
        | _ => andThen ['['] rest
      | _, ⟨'-', false⟩ :: high :: after =>
        if high = ⟨']', false⟩ then andThen [glyph.char] rest
        else andThen (bytesBetween glyph.char high.char) after
      | _, _ => andThen [glyph.char] rest

/-- Reads a pattern; the bound is the number of characters. -/
def readFrom : Nat → List Glyph → List Glob
  | 0, _ | _, [] => []
  | bound + 1, glyph :: rest =>
    if glyph.isLiteral then .char glyph.char :: readFrom bound rest
    else
      match glyph.char with
      | '*' => .many :: readFrom bound rest
      | '?' => .one :: readFrom bound rest
      | '\\' =>
        match rest with
        | next :: rest => .char next.char :: readFrom bound rest
        | [] => [.char '\\']
      | '[' =>
        let (isNegated, inner) := match rest with
          | ⟨'!', false⟩ :: inner => (true, inner)
          | _ => (false, rest)
        match members (inner.length + 1) true inner with
        | some (found, after) => .set isNegated found :: readFrom bound after
        | none => .char '[' :: readFrom bound rest
      | c => .char c :: readFrom bound rest

/-- Reads a pattern. -/
def read (glyphs : List Glyph) : List Glob := readFrom glyphs.length glyphs

/-- A text and its ends of every length. -/
def tails : Raw → List Raw
  | [] => [[]]
  | c :: rest => (c :: rest) :: tails rest

/-- Whether a pattern fits all of a text. -/
def fits : List Glob → Raw → Bool
  | [], cs => cs.isEmpty
  | .many :: rest, cs => (tails cs).any (fits rest)
  | .one :: rest, _ :: cs => fits rest cs
  | .char c :: rest, d :: cs => c == d && fits rest cs
  | .set isNegated members :: rest, d :: cs => members.contains d != isNegated && fits rest cs
  | _, [] => false

/-- Whether a pattern can fit more than one text. -/
def isOpen (pattern : List Glob) : Bool :=
  pattern.any fun element => !(element matches .char _)

/-- A text without what a pattern fits at one of its ends: as little as possible, or as much. A
pattern fits no text across a gap. -/
def cut (pattern : List Glob) (gap : Char) (atEnd isLongest : Bool) (cs : Raw) : Raw :=
  let first (cs : Raw) : Raw := cs.takeWhile fun c => c != gap
  let places :=
    if atEnd = isLongest then List.range ((first cs).length + 1)
    else (List.range (cs.length + 1)).reverse
  let fitting? := places.find? fun n =>
    fits pattern (first (if atEnd then cs.drop n else cs.take n))
  match fitting? with
  | some n => if atEnd then cs.take n else cs.drop n
  | none => cs

end Glob

/-- The paths that fit the parts of a pattern below a location, each with the text that leads
there. -/
def pathsBelow (t : Files.Tree) (place : Files.Location) (written : Raw) :
    List (List Glyph) → List Raw
  | [] => [written]
  | part :: rest =>
    let pattern := Glob.read part
    let separator : Raw := if rest.isEmpty then [] else ['/']
    if Glob.isOpen pattern then
      let fitting := ("." :: ".." :: t.names place).filter fun name =>
        Glob.fits pattern (raw name)
          && ((raw name).head? ≠ some '.' || part.head?.any fun glyph => glyph.char == '.')
      fitting.flatMap fun name =>
        let next := Files.Tree.step place name
        if rest.isEmpty || (t.entry? next matches some .directory) then
          pathsBelow t next (written ++ raw name ++ separator) rest
        else []
    else
      let name := part.map Glyph.char
      let next := if name.isEmpty then place else Files.Tree.step place (toText name)
      if (t.entry? next).isSome then pathsBelow t next (written ++ name ++ separator) rest else []

/-- The parts of a pattern between separators. -/
def globParts : List Glyph → List (List Glyph)
  | [] => [[]]
  | glyph :: rest =>
    match globParts rest with
    | first :: more => if glyph.char = '/' then [] :: first :: more else (glyph :: first) :: more
    | [] => [[glyph]]

/-- The paths that a word stands for: those that fit it as a pattern, sorted, or the word itself if
there are none. -/
def pathsOf (w : World) (word : List Glyph) : List Raw :=
  let plain := word.map Glyph.char
  if !Glob.isOpen (Glob.read word) then [plain]
  else
    let start := if plain.head? = some '/' then [] else w.working
    match (pathsBelow w.tree start [] (globParts word)).mergeSort inOrder with
    | [] => [plain]
    | found => found

end Ambient.Tool.Shell

namespace Ambient.Tool.Shell

/-! ## Fields -/

/-- What a part of a word turns into: a character that may divide the word, a sign that there is a
word even if it stays empty, the place between two parameters, or the start of what may divide the
word: a value, or the list of all parameters, each of which stays a word of its own. -/
inductive Item where
  | glyph (g : Glyph) (mayDivide : Bool)
  | mark
  | gap
  | start (isList : Bool)
deriving DecidableEq, Repr, Inhabited

/-- The character that stands between two parameters that stay apart. It is in no text. -/
def gapChar : Char := Char.ofNat 0

/-- Whether a separator of fields is a blank, so that several in a row count as one. -/
def isBlank (c : Char) : Bool := c == ' ' || c == '\t' || c == '\n'

namespace Item

/-- The items of a text. -/
def ofText (text : Raw) (isLiteral mayDivide : Bool) : List Item :=
  text.map fun c => if c = gapChar then .gap else .glyph ⟨c, isLiteral⟩ mayDivide

/-- The items of a text that divides the word, if it may. -/
def ofValue (text : Raw) (isLiteral mayDivide : Bool) : List Item :=
  let items := ofText text isLiteral mayDivide
  if mayDivide then .start false :: items else items

/-- The characters of items. -/
def glyphs (items : List Item) : List Glyph :=
  items.filterMap fun item =>
    match item with
    | .glyph g _ => some g
    | _ => none

/-- The text of items. -/
def text (items : List Item) : Raw := (glyphs items).map Glyph.char

/-- Whether an item separates fields: `some true` if it is a blank there. -/
def separation? (separators : Raw) : Item → Option Bool
  | .gap => some true
  | .glyph g true => if separators.contains g.char then some (isBlank g.char) else none
  | _ => none

end Item

/-- Where the division of a word stands: the field that is open, last character first; whether what
may divide it is a list of parameters, and whether what did so before was one; and, behind a blank,
whether a separator that is no blank would still belong to it. -/
structure Division where
  current : Option (List Glyph) := none
  isList : Bool := false
  isAfterList : Bool := false
  behind : Option Bool := none
deriving Inhabited

namespace Division

/-- Goes on to the next item, and answers with the field that ends there. Blanks fade where no field
is open, but none does between the parameters of a list or right behind it. -/
def step (separators : Raw) (d : Division) (item : Item) : Division × Option (List Glyph) :=
  let divided (isBlank : Bool) : Division × Option (List Glyph) :=
    let fades := isBlank && !d.isList && !d.isAfterList
    if fades && d.current.isNone then (d, none)
    else
      let behind := if fades then some true else none
      ({ d with current := none, behind := behind }, some (d.current.getD []).reverse)
  match item, item.separation? separators, d.behind with
  | .start isList, _, _ =>
    ({ d with isList := isList, isAfterList := d.isList, behind := none }, none)
  | _, some true, some _ => (d, none)
  | _, some false, some true => ({ d with behind := some false }, none)
  | _, some isBlank, _ => divided isBlank
  | .glyph g _, none, _ => ({ d with current := some (g :: d.current.getD []), behind := none }, none)
  | _, none, _ => ({ d with current := some (d.current.getD []), behind := none }, none)

/-- The field that is left at the end. A list ends with a field, even an empty one. -/
def last (d : Division) : Option (List Glyph) :=
  if d.isList || d.current.isSome then some (d.current.getD []).reverse else none

/-- The fields of further items. -/
def fields (separators : Raw) (d : Division) : List Item → List (List Glyph)
  | [] => d.last.toList
  | item :: rest =>
    let (next, field) := d.step separators item
    field.toList ++ fields separators next rest

end Division

/-- The fields that items fall into. -/
def fields (separators : Raw) (items : List Item) : List (List Glyph) :=
  Division.fields separators {} items

/-! ## Parameters -/

/-- How a word is expanded: whether it may turn into several, whether its own text may divide it,
and whether it is the value of an assignment, so that a colon starts another path. -/
structure Manner where
  splits : Bool := false
  divides : Bool := false
  isAssigned : Bool := false
deriving DecidableEq, Repr, Inhabited

/-- Whether a name stands for all parameters. -/
def isAll (name : Raw) : Bool := name == ['@'] || name == ['*']

/-- The text of all parameters: apart from each other where they turn into words, and in one with
the first separator of fields between them elsewhere. -/
def State.allText (s : State) (name : Raw) (splits isQuoted : Bool) : Raw :=
  let separator : Raw :=
    if splits && isQuoted && name == ['@'] then [gapChar]
    else
      match s.held? (raw "IFS") with
      | some separators => if splits && !isQuoted then [gapChar] else separators.take 1
      | none => [' ']
  separator.intercalate s.parameters

/-- The value of a parameter, if it is set. -/
def State.textOf? (s : State) (manner : Manner) (name : Raw) (isQuoted : Bool) : Option Raw :=
  if isAll name then some (s.allText name manner.splits isQuoted) else s.value? name

/-- What the value of a parameter turns into. -/
def State.itemsOf (s : State) (name value : Raw) (isQuoted : Bool) : List Item :=
  if isQuoted && name == ['@'] && !s.parameters.isEmpty then
    .start true :: Item.ofText value true false
  else Item.ofValue value isQuoted !isQuoted

/-- Whether the word of a use takes the place of a value. -/
def isLacking (coversEmpty : Bool) (value : Option Raw) : Bool :=
  match value with
  | none => true
  | some text => coversEmpty && text.isEmpty

/-! ## Homes -/

/-- The home directories of users. -/
def homes : List (Raw × Raw) :=
  [("root", "/root"), ("daemon", "/usr/sbin"), ("bin", "/bin"), ("sys", "/dev"),
    ("nobody", "/nonexistent")].map fun (user, home) => (raw user, raw home)

/-- The home directory of a user, or that of the script itself. -/
def State.home? (s : State) (user : Raw) : Option Raw :=
  if user.isEmpty then s.held? (raw "HOME") else homes.lookup user

/-- The items of a text in which the sign for a home directory stands for it, at the start of a word
and behind colons if it is assigned. A name that goes on in another part is none. The bound is the
number of characters. -/
def State.homeItems (s : State) (manner : Manner) (isLast : Bool) :
    Nat → Bool → Raw → List Item
  | 0, _, _ | _, _, [] => []
  | bound + 1, isStart, text =>
    let endsName (c : Char) : Bool := c == '/' || (manner.isAssigned && c == ':')
    let home? : Option (Raw × Raw) :=
      match isStart, text with
      | true, '~' :: more =>
        let user := more.takeWhile fun c => !endsName c
        let after := more.drop user.length
        if after.isEmpty && !isLast then none else (s.home? user).map fun home => (home, after)
      | _, _ => none
    match home? with
    | some (home, after) =>
      Item.ofText home true false ++ s.homeItems manner isLast bound false after
    | none =>
      let before := if manner.isAssigned then text.takeWhile fun c => c != ':' else text
      let through := text.take (before.length + 1)
      Item.ofValue through false manner.divides
        ++ s.homeItems manner isLast bound true (text.drop through.length)

/-! ## Expansion -/

/-- Runs a script, and answers with what it has written. -/
abbrev Capture := List Command → Action Raw

/-- Refuses a parameter that is not set. -/
def refuseUnset {α : Type} (name : Raw) : Action α :=
  Action.abort (name ++ raw ": parameter not set")

mutual

/-- Expands the parts of a word, from its start on or not. -/
def expandParts (capture : Capture) (manner : Manner) (isStart : Bool) :
    List Part → Action (List Item)
  | [] => return []
  | .text chars false :: rest => do
    let first := (← get).homeItems manner rest.isEmpty (chars.length + 1) isStart chars
    return first ++ (← expandParts capture manner false rest)
  | part :: rest => do
    let first ← expandPart capture manner part
    return first ++ (← expandParts capture manner false rest)

/-- Expands a part of a word. -/
def expandPart (capture : Capture) (manner : Manner) : Part → Action (List Item)
  | .text chars isQuoted => return .mark :: Item.ofText chars isQuoted false
  | .output script isQuoted => do
    return Item.ofValue (← capture script) isQuoted !isQuoted
  | .sum expression isQuoted => do
    let written := Item.text (← expandParts capture {} false expression)
    let s ← get
    let values : Sum.Values := ⟨fun name => (s.value? name).getD [], []⟩
    match (do (← Sum.read written |>.mapError (Sum.fault written)).value written values) with
    | .ok (value, values) =>
      for (name, number) in values.changed.reverse do
        Action.assign name (raw (toString number))
      return Item.ofValue (raw (toString value)) isQuoted !isQuoted
    | .error text => Action.abort (raw text)
  | .parameter name use isQuoted => expandUse capture manner name isQuoted use

/-- Expands a parameter. -/
def expandUse (capture : Capture) (manner : Manner) (name : Raw) (isQuoted : Bool) :
    Use → Action (List Item)
  | .value => do
    let s ← get
    match s.textOf? manner name isQuoted with
    | some value => return s.itemsOf name value isQuoted
    | none => if s.has 'u' then refuseUnset name else return []
  | .length => do
    let s ← get
    match s.textOf? {} name isQuoted with
    | some value => return s.itemsOf name (State.decimal value.length) isQuoted
    | none => if s.has 'u' then refuseUnset name else return s.itemsOf name ['0'] isQuoted
  | .replaced coversEmpty word => do
    let s ← get
    let value := s.textOf? manner name isQuoted
    if isLacking coversEmpty value then
      expandParts capture { manner with divides := !isQuoted } true word
    else return s.itemsOf name (value.getD []) isQuoted
  | .alternative coversEmpty word => do
    let s ← get
    if isLacking coversEmpty (s.textOf? manner name isQuoted) then
      return s.itemsOf name [] isQuoted
    else expandParts capture { manner with divides := !isQuoted } true word
  | .assigned coversEmpty word => do
    let s ← get
    let value := s.textOf? manner name isQuoted
    if isLacking coversEmpty value then
      let value := Item.text (← expandParts capture {} true word)
      if !isName name then Action.abort (name ++ raw ": bad variable name")
      Action.assign name value
      return s.itemsOf name value isQuoted
    else return s.itemsOf name (value.getD []) isQuoted
  | .demanded coversEmpty word => do
    let s ← get
    let value := s.textOf? manner name isQuoted
    if isLacking coversEmpty value then
      let text := Item.text (← expandParts capture {} true word)
      let reason :=
        if !word.isEmpty then text
        else if coversEmpty then raw "parameter not set or null"
        else raw "parameter not set"
      Action.abort (name ++ raw ": " ++ reason)
    else return s.itemsOf name (value.getD []) isQuoted
  | .cut atEnd isLongest pattern => do
    let s ← get
    match s.textOf? manner name isQuoted with
    | some value =>
      let pattern := Glob.read (Item.glyphs (← expandParts capture {} true pattern))
      return s.itemsOf name (Glob.cut pattern gapChar atEnd isLongest value) isQuoted
    | none => if s.has 'u' then refuseUnset name else return []
  | .malformed => Action.abort (raw "Bad substitution")

end

/-- The words that a word turns into. -/
def expandFields (capture : Capture) (word : Word) : Action (List Raw) := do
  let items ← expandParts capture { splits := true } true word
  let s ← get
  let found := fields s.separators items
  return if s.has 'f' then found.map fun field => field.map Glyph.char
    else found.flatMap (pathsOf s.world)

/-- The words that some words turn into. -/
def expandAll (capture : Capture) : List Word → Action (List Raw)
  | [] => return []
  | word :: rest => do
    let first ← expandFields capture word
    return first ++ (← expandAll capture rest)

/-- The text that a word turns into where there can be only one. -/
def expandText (capture : Capture) (word : Word) : Action Raw := do
  return Item.text (← expandParts capture {} true word)

/-- The text that the value of an assignment turns into. -/
def expandValue (capture : Capture) (word : Word) : Action Raw := do
  return Item.text (← expandParts capture { isAssigned := true } true word)

/-- The pattern that a word turns into. -/
def expandPattern (capture : Capture) (word : Word) : Action (List Glob) := do
  return Glob.read (Item.glyphs (← expandParts capture {} true word))

end Ambient.Tool.Shell

/-!
## Redirections

Descriptors are led elsewhere in two steps: what the words of redirections turn into is found first,
and then files are opened and documents are filled in one after another, up to the first that
cannot be.
-/

namespace Ambient.Tool.Shell

/-- A redirection whose words have been expanded, up to the text of a document. -/
inductive Redirecting where
  | file (descriptor : Nat) (opening : Opening) (path : Raw)
  /-- Leads to where another descriptor leads, or nowhere. -/
  | copy (descriptor : Nat) (source : Option Nat)
  | document (descriptor : Nat) (text : Word)
deriving Inhabited

/-- The descriptor that is led elsewhere. -/
def Redirecting.descriptor : Redirecting → Nat
  | .file descriptor _ _ | .copy descriptor _ | .document descriptor _ => descriptor

/-- Refuses what is no descriptor. This shows where the script is being read. -/
def refuseDescriptor {α : Type} : Action α := do
  modify fun s => { s with line := s.readingLine }
  Action.abort (raw "Syntax error: Bad fd number")

/-- Expands the words of a redirection. -/
def Redirection.expand (capture : Capture) : Redirection → Action Redirecting
  | .file descriptor opening path => return .file descriptor opening (← expandText capture path)
  | .document descriptor number => do
    return .document descriptor (((← get).documents.lookup number).getD [])
  | .copy descriptor _ source => do
    match ← expandText capture source with
    | ['-'] => return .copy descriptor none
    | [c] =>
      if c.isDigit then return .copy descriptor (some (Sum.digit c)) else refuseDescriptor
    | _ => refuseDescriptor

/-- Expands the words of redirections. -/
def expandRedirections (capture : Capture) : List Redirection → Action (List Redirecting)
  | [] => return []
  | first :: rest => do
    let found ← first.expand capture
    return found :: (← expandRedirections capture rest)

/-- Lets a descriptor lead to a new channel. -/
def lead (descriptor : Nat) (channel : Channel) : Action Unit :=
  modify fun s =>
    let (number, s) := s.openChannel channel
    s.direct descriptor number

/-- Lets a descriptor lead to where another one leads. -/
def duplicate (descriptor source : Nat) : Action Unit := do
  let s ← get
  match s.descriptors.lookup source with
  | some number => set (s.direct descriptor number)
  | none => Action.abort (State.decimal source ++ raw ": Bad file descriptor")

/-- Refuses a path that cannot be opened. -/
def refusePath (isOutput : Bool) (path : Raw) (fault : Files.Fault) : Action Unit :=
  let reason := match fault with
    | .missing | .notDirectory =>
      if isOutput then "Directory nonexistent" else "No such file"
    | fault => faultText fault
  let verb := if isOutput then "cannot create " else "cannot open "
  Action.abort (raw verb ++ path ++ raw (": " ++ reason))

/-- Opens the file of a redirection. -/
def openPath (descriptor : Nat) (opening : Opening) (path : Raw) : Action Unit := do
  let s ← get
  let isOutput := opening ≠ .reading
  let found :=
    if isOutput then s.world.tree.locateFile s.world.working (toText path)
    else s.world.tree.locate s.world.working (toText path)
  match found with
  | .error fault => refusePath isOutput path fault
  | .ok place =>
    match s.world.tree.entry? place, opening with
    | none, .reading => refusePath false path .missing
    | some .directory, .reading => lead descriptor .directory
    | some .directory, _ => refusePath true path .isDirectory
    | some found, .writing overrides =>
      if s.has 'C' && !overrides && found != .void then refusePath true path .exists
      else
        set { s with world := { s.world with tree := s.world.tree.replace place (.file "") } }
        lead descriptor (.file place 0 opening)
    | entry, _ =>
      if entry.isNone then
        set { s with world := { s.world with tree := s.world.tree.put place (.file "") } }
      lead descriptor (.file place 0 opening)

/-- Leads a descriptor elsewhere. -/
def Redirecting.apply (capture : Capture) : Redirecting → Action Unit
  | .document descriptor text => do
    let content := Item.text (← expandParts capture {} true text)
    lead descriptor (.source content)
  | .copy descriptor none =>
    modify fun s => { s with descriptors := s.descriptors.filter fun pair => pair.1 != descriptor }
  | .copy descriptor (some source) => duplicate descriptor source
  | .file descriptor opening path =>
    match String.ofList path with
    | "/dev/stdin" | "/dev/fd/0" => duplicate descriptor 0
    | "/dev/stdout" | "/dev/fd/1" => duplicate descriptor 1
    | "/dev/stderr" | "/dev/fd/2" => duplicate descriptor 2
    | _ => openPath descriptor opening path

/-- Leads descriptors elsewhere, one after another. -/
def applyAll (capture : Capture) : List Redirecting → Action Unit
  | [] => return
  | first :: rest => do
    first.apply capture
    applyAll capture rest

/-- The state in which descriptors lead to where they led before, without the channels that have
been opened since then. -/
def State.restoreDescriptors (before : State) (all : List Redirecting) (s : State) : State :=
  let restored := all.foldl (fun (s : State) r =>
    match before.descriptors.lookup r.descriptor with
    | some number => s.direct r.descriptor number
    | none =>
      { s with descriptors := s.descriptors.filter fun pair => pair.1 != r.descriptor }) s
  restored.dropChannels before.nextChannel

/-- Runs an action after descriptors have been led elsewhere. The answer says whether they could. -/
def redirectingForGood (capture : Capture) (all : List Redirecting) (action : Action Unit) :
    Action Bool := do
  match (applyAll capture all).run (← get) with
  | (.ok _, s) =>
    set s
    action
    return true
  | (.error .fault, s) =>
    set s
    return false
  | (.error leaving, s) =>
    set s
    throw leaving

/-- Runs an action while descriptors lead elsewhere. The answer says whether they could. -/
def redirecting (capture : Capture) (all : List Redirecting) (action : Action Unit) :
    Action Bool := do
  let before ← get
  (redirectingForGood capture all action).thenRestore (before.restoreDescriptors all)

end Ambient.Tool.Shell
