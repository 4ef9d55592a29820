import Ambient.Tool.Shell.Script

/-!
# Tokens of scripts

What the text of a script is made of: words with their quotes and substitutions, the signs between
them, and the documents that follow a line. A script inside a word is read by a reader that is
handed in.
-/

namespace Ambient.Tool.Shell

/-! ## Readers -/

/-- What is wrong with a script, and the line where that shows. -/
structure Complaint where
  line : Nat
  text : String
deriving Repr, Inhabited

/-- The words that begin, join and end commands. -/
inductive Keyword where
  | not
  | case
  | do
  | done
  | elif
  | else
  | esac
  | fi
  | for
  | if
  | in
  | then
  | until
  | while
  | begin
  | end
deriving DecidableEq, Repr, Inhabited

/-- The keywords as they are written. -/
def Keyword.all : List (String × Keyword) :=
  [("!", .not), ("case", .case), ("do", .do), ("done", .done), ("elif", .elif), ("else", .else),
    ("esac", .esac), ("fi", .fi), ("for", .for), ("if", .if), ("in", .in), ("then", .then),
    ("until", .until), ("while", .while), ("\x7b", .begin), ("\x7d", .end)]

/-- What the sign of a redirection asks for. -/
inductive Sign where
  | file (opening : Opening)
  | copy (isOutput : Bool)
  | document (stripsTabs : Bool)
deriving DecidableEq, Repr, Inhabited

/-- A token. -/
inductive Token where
  | finish
  | newline
  | semicolon
  | background
  | and
  | or
  | pipe
  | opening
  | closing
  | endCase
  | redirection (descriptor : Nat) (sign : Sign)
  | word (parts : Word) (isQuoted : Bool)
  | keyword (keyword : Keyword)

/-- By default a token is the end of the script. -/
instance : Inhabited Token := ⟨.finish⟩

/-- How complaints name a token. -/
def Token.name : Token → String
  | .finish => "end of file"
  | .newline => "newline"
  | .semicolon => "\x22;\x22"
  | .background => "\x22&\x22"
  | .and => "\x22&&\x22"
  | .or => "\x22||\x22"
  | .pipe => "\x22|\x22"
  | .opening => "\x22(\x22"
  | .closing => "\x22)\x22"
  | .endCase => "\x22;;\x22"
  | .redirection .. => "redirection"
  | .word .. => "word"
  | .keyword k =>
    "\x22" ++ ((Keyword.all.find? fun entry => entry.2 == k).map Prod.fst).getD "" ++ "\x22"

/-- A document that is still to be read: its number, the line that ends it, whether it stands as it
is written, and whether tabs in front of its lines are dropped. -/
structure Awaited where
  number : Nat
  ending : Raw
  isLiteral : Bool
  stripsTabs : Bool
deriving Inhabited

/-- An alias whose value stands in a script in its place: the length of what follows the value,
whether the value ends in a blank, so that the word behind it can be an alias as well, and whether
the value has been read to its end. -/
structure Substituted where
  name : Raw
  after : Nat
  endsInBlank : Bool
  isPassed : Bool
deriving Inhabited

/-- Where the reading of a script stands: what is left of it, the line, a token that has been put
back, the documents that are awaited and those that have been read, and the number of the next
one. -/
structure Cursor where
  rest : Raw
  line : Nat
  pushed : Option Token
  awaited : List Awaited
  documents : List (Nat × Word)
  count : Nat
  /-- The document that is read, if that is what the text at hand belongs to. -/
  document : Option Awaited
  /-- The aliases, with their values. -/
  aliases : List (Raw × Raw)
  /-- The aliases that are in use, the innermost first. -/
  substituted : List Substituted
  /-- Whether the end of a value with a blank was met while a token was read. -/
  meetsBlank : Bool
deriving Inhabited

namespace Cursor

/-- The cursor that has come to what is left now: an alias is in use up to the character behind its
value. -/
def pass (cursor : Cursor) : Cursor :=
  match cursor.substituted with
  | [] => cursor
  | all =>
    let left := cursor.rest.length
    let kept := all.filter fun s => s.after ≤ left
    let meets := kept.any fun s => s.after = left && !s.isPassed && s.endsInBlank
    { cursor with
      substituted := kept.map fun s => if s.after = left then { s with isPassed := true } else s
      meetsBlank := cursor.meetsBlank || meets }

/-- The value of a word as an alias, unless it is in use. -/
def alias? (cursor : Cursor) (word : Raw) : Option Raw :=
  if cursor.substituted.any fun s => s.name == word then none else cursor.aliases.lookup word

/-- Puts the value of an alias in front of what is left. -/
def substitute (cursor : Cursor) (name value : Raw) : Cursor :=
  if value.isEmpty then cursor
  else
    let endsInBlank := value.getLast?.any fun c => c == ' ' || c == '\t'
    { cursor with
      rest := value ++ cursor.rest
      substituted := ⟨name, cursor.rest.length, endsInBlank, false⟩ :: cursor.substituted }

/-- A bound on the number of characters that are read before a line is complete: each character may
belong to an alias, which stands for its value, and no value contains itself. -/
def room (cursor : Cursor) : Nat :=
  let longest := (cursor.aliases.map fun entry => entry.2.length).foldl max 0
  (cursor.rest.length + 4) * Nat.pow (longest + 2) cursor.aliases.length

end Cursor

/-- A reader of a script. -/
abbrev Reader := StateT Cursor (Except Complaint)

namespace Reader

/-- Refuses the script. -/
def refuse {α : Type} (text : String) : Reader α := do throw ⟨(← get).line, text⟩

/-- Drops line ends behind a backslash; the lines are counted. -/
def dropContinuations (line : Nat) : Raw → Nat × Raw
  | '\\' :: '\n' :: rest => dropContinuations (line + 1) rest
  | cs => (line, cs)

/-- The next character, if there is one. -/
def glance : Reader (Option Char) := do
  let cursor ← get
  let (line, rest) := dropContinuations cursor.line cursor.rest
  set { cursor with line := line, rest := rest }.pass
  return rest.head?

/-- Takes the next character as it stands. -/
def takeRaw : Reader (Option Char) := do
  let cursor := (← get).pass
  match cursor.rest with
  | [] => return none
  | c :: rest =>
    set { cursor with rest := rest, line := if c = '\n' then cursor.line + 1 else cursor.line }
    return some c

/-- Takes the next character. -/
def take : Reader (Option Char) := do
  let _ ← glance
  takeRaw

/-- Takes the next character if it is a given one. -/
def takeIf (c : Char) : Reader Bool := do
  if (← glance) = some c then
    let _ ← takeRaw
    return true
  else return false

/-- At the start of a line of a document, drops the tabs that do not count, and takes the mark that
ends the document if it stands there. -/
def endsDocument : Reader Bool := do
  let cursor ← get
  match cursor.document with
  | none => return false
  | some awaited =>
    let (line, rest) := dropContinuations cursor.line cursor.rest
    let rest := if awaited.stripsTabs then rest.dropWhile fun c => c == '\t' else rest
    let after := rest.drop awaited.ending.length
    let isEnd := rest.take awaited.ending.length == awaited.ending
      && (after.isEmpty || after.head? == some '\n')
    set { cursor with
      line := if isEnd then line + 1 else line
      rest := if isEnd then after.drop 1 else rest }
    return isEnd

/-- Whether a character that has been taken ends a line in front of the mark of a document, which is
then taken as well. -/
def endsDocumentAfter (c : Char) : Reader Bool := do
  if c = '\n' then endsDocument else return false

/-- Takes characters that fit; the bound is their number. -/
def takeWhile (fits : Char → Bool) : Nat → Reader Raw
  | 0 => return []
  | bound + 1 => do
    match ← glance with
    | some c =>
      if fits c then
        let _ ← takeRaw
        return c :: (← takeWhile fits bound)
      else return []
    | none => return []

/-- Takes all characters that fit. -/
def takeAll (fits : Char → Bool) : Reader Raw := do takeWhile fits (← get).rest.length

end Reader

/-! ## Words -/

/-- Whether a character ends a word. -/
def endsWord (c : Char) : Bool := [' ', '\t', '\n', ';', '&', '|', '<', '>', '(', ')'].contains c

/-- Whether a character names a parameter by itself, other than a digit. -/
def isSpecial (c : Char) : Bool := ['@', '*', '#', '?', '-', '$', '!'].contains c

/-- Puts a character in front of parts. -/
def consChar (c : Char) (isQuoted : Bool) : Word → Word
  | .text chars quoted :: rest =>
    if quoted = isQuoted then .text (c :: chars) quoted :: rest
    else .text [c] isQuoted :: .text chars quoted :: rest
  | rest => .text [c] isQuoted :: rest

/-- Where characters stand: in a word, in the mark that ends a document, in quotes, in a document,
in an expression; the word of a parameter can stand in braces outside or inside of quotes, and
quotes can stand in such a word. -/
inductive Place where
  | bare
  | mark
  | braces
  | quotes (isInBraces : Bool)
  | quotedBraces
  | document
  | sum
deriving DecidableEq, Repr, Inhabited

namespace Place

/-- Whether what stands there keeps its form. -/
def isQuoted : Place → Bool
  | .bare | .mark | .braces => false
  | _ => true

/-- Whether a character ends what stands there. -/
def endsAt (place : Place) (c : Char) : Bool :=
  match place with
  | .bare | .mark => endsWord c
  | .braces | .quotedBraces => c == '\x7d'
  | .quotes _ => c == '\x22'
  | .document | .sum => false

/-- The complaint about braces that are not closed. -/
def missingBrace : String := "Missing \x27\x7d\x27"

/-- The complaint about quotes that are not closed. -/
def missingQuote : String := "Unterminated quoted string"

/-- What is wrong if the script or the document ends there. -/
def fault? (isInDocument : Bool) : Place → Option String
  | .bare | .mark | .document => none
  | .braces => some missingBrace
  | .quotes _ | .quotedBraces => some (if isInDocument then missingBrace else missingQuote)
  | .sum => some "Missing \x27))\x27"

/-- Whether a backslash takes its meaning from a character. -/
def escapes (place : Place) (c : Char) : Bool :=
  match place with
  | .bare | .mark | .braces => true
  | .quotedBraces => ['\\', Char.ofNat 96, '$', '\x22', '\x7d'].contains c
  | .document => ['\\', Char.ofNat 96, '$'].contains c
  | .quotes isInBraces =>
    ['\\', Char.ofNat 96, '$', '\x22'].contains c || (isInBraces && c == '\x7d')
  | .sum => ['\\', Char.ofNat 96, '$', '\x22'].contains c

end Place

/-- Refuses a script or a document that ends in quotes. -/
def refuseOpenQuotes {α : Type} : Reader α := do
  let isInDocument := (← get).document.isSome
  Reader.refuse (if isInDocument then Place.missingBrace else Place.missingQuote)

/-- Reads what stands in single quotes, after the first one; the bound is the number of
characters. -/
def singleQuoted : Nat → Reader Raw
  | 0 => refuseOpenQuotes
  | bound + 1 => do
    match ← Reader.takeRaw with
    | none => refuseOpenQuotes
    | some '\x27' => return []
    | some c =>
      if ← Reader.endsDocumentAfter c then refuseOpenQuotes
      else return c :: (← singleQuoted bound)

/-- Reads the text of a script between backquotes, after the first one. -/
def backquoted (place : Place) : Nat → Reader Raw
  | 0 => Reader.refuse "EOF in backquote substitution"
  | bound + 1 => do
    match ← Reader.take with
    | none => Reader.refuse "EOF in backquote substitution"
    | some c =>
      if c = Char.ofNat 96 then return []
      else if c = '\\' then
        match ← Reader.takeRaw with
        | none => Reader.refuse "EOF in backquote substitution"
        | some d =>
          let isPlain := d = '\\' || d = Char.ofNat 96 || d = '$'
            || (place.isQuoted && d = '\x22')
          let rest ← backquoted place bound
          return if isPlain then d :: rest else '\\' :: d :: rest
      else return c :: (← backquoted place bound)

/-- Runs a reader on another text, whose lines are counted from `line` on. -/
def onText {α : Type} (line : Nat) (text : Raw) (reader : Reader α) : Reader α := do
  let outer ← get
  set
    { outer with
      rest := text
      line := line
      pushed := none
      awaited := []
      document := none
      substituted := outer.substituted.map fun (s : Substituted) =>
        { s with after := 0, isPassed := true } }
  let result ← reader
  modify fun inner =>
    { inner with
      rest := outer.rest
      line := outer.line
      pushed := outer.pushed
      awaited := outer.awaited
      document := outer.document
      substituted := outer.substituted }
  return result

/-- What a name in braces is followed by: nothing, or the way its value is used, with a word. -/
inductive Follower where
  | ended
  | use (make : Word → Use) (isPattern : Bool)

/-- What follows a name that cannot be followed so. -/
def Follower.malformed : Follower := .use (fun _ => .malformed) false

/-- Takes the sign of a use. What is no sign is lost, and a line that ends there is not counted. -/
def useSign (coversEmpty : Bool) : Reader Follower := do
  let before ← get
  match ← Reader.take with
  | some '\x7d' => return if coversEmpty then .malformed else .ended
  | some '-' => return .use (.replaced coversEmpty) false
  | some '=' => return .use (.assigned coversEmpty) false
  | some '?' => return .use (.demanded coversEmpty) false
  | some '+' => return .use (.alternative coversEmpty) false
  | _ =>
    modify fun after => { after with line := before.line }
    return .malformed

/-- Reads the signs after a name in braces. -/
def follower : Reader Follower := do
  match ← Reader.glance with
  | some ':' =>
    let _ ← Reader.take
    useSign true
  | some '%' =>
    let _ ← Reader.take
    let isLongest ← Reader.takeIf '%'
    return .use (.cut true isLongest) true
  | some '#' =>
    let _ ← Reader.take
    let isLongest ← Reader.takeIf '#'
    return .use (.cut false isLongest) true
  | _ => useSign false

/-- Takes a name of letters or of digits. -/
def plainName (first : Char) : Reader Raw :=
  Reader.takeAll (if startsName first then isNamePart else Char.isDigit)

/-- Reads what stands in braces up to the word there. A number sign asks for a length in front of a
name, and in front of a sign that ends the braces; else it is a parameter itself. -/
def bracedStart : Reader (Raw × Follower) := do
  let ofLength (name : Raw) : Raw × Follower :=
    if name.all isNamePart || name.all isSpecial then (name, .use (fun _ => .length) false)
    else (name, .malformed)
  match ← Reader.glance with
  | none | some '\x7d' => return ([], .malformed)
  | some '#' =>
    let _ ← Reader.take
    match ← Reader.glance with
    | none => return (['#'], .malformed)
    | some c =>
      if isNamePart c then
        let name ← plainName c
        return if (← Reader.glance) = some '\x7d' then ofLength name else (name, .malformed)
      let before ← get
      let _ ← Reader.take
      if c ≠ '\x7d' ∧ (← Reader.glance) = some '\x7d' then return ofLength [c]
      else
        set before
        return (['#'], ← follower)
  | some c =>
    if isNamePart c then
      let name ← plainName c
      return (name, ← follower)
    else
      let before ← get
      let _ ← Reader.take
      if isSpecial c then return ([c], ← follower)
      else
        modify fun after => { after with line := before.line }
        return ([c], .malformed)

/-- The parts of a word that stand in quotes: there is a word even if they stay empty, but not if they
are all parameters, of which there may be none. -/
def inQuotes (inner : Word) : Word :=
  match inner with
  | [.parameter ['@'] .value _] => inner
  | _ => .text [] true :: inner ++ [.text [] true]

mutual

/-- Reads parts up to what ends their place, which is left; the answer says whether there were
quotes. `nested` reads a script up to its closing parenthesis or to the end of the text, and
`level` counts the parentheses that are open in an expression. -/
def parts (nested : Bool → Reader (List Command)) : Nat → Place → Nat → Reader (Word × Bool)
  | 0, _, _ => Reader.refuse "too long"
  | bound + 1, place, level => do
    match ← Reader.glance with
    | none =>
      match place.fault? (← get).document.isSome with
      | some fault => Reader.refuse fault
      | none => return ([], false)
    | some c =>
      if place.endsAt c then return ([], false)
      let andThen (first : Word) (isQuote : Bool) (level : Nat) : Reader (Word × Bool) := do
        let (rest, quoted) ← parts nested bound place level
        return (first ++ rest, isQuote || quoted)
      let literal (c : Char) (isQuoted isQuote : Bool) (level : Nat) : Reader (Word × Bool) := do
        let (rest, quoted) ← parts nested bound place level
        return (consChar c isQuoted rest, isQuote || quoted)
      let cursor ← get
      let _ ← Reader.take
      if c = '\\' then
        match ← Reader.takeRaw with
        | none => literal c true true level
        | some d =>
          if place.escapes d then literal d true true level
          else
            let (rest, _) ← parts nested bound place level
            return (consChar c true (consChar d true rest), true)
      else if c = Char.ofNat 96 ∧ place ≠ .mark then
        let text ← backquoted place cursor.rest.length
        let script ← onText 1 text (nested false)
        andThen [.output script place.isQuoted] false level
      else if c = '$' ∧ place ≠ .mark then
        andThen [← substitution nested bound place] false level
      else if c = '\x22' ∧ place ≠ .document ∧ place ≠ .sum then
        let isInBraces := place = .braces || place = .quotedBraces
        let (inner, _) ← parts nested bound (.quotes isInBraces) 0
        let _ ← Reader.take
        andThen (inQuotes inner) true level
      else if c = '\x27' ∧ !place.isQuoted then
        let inner ← singleQuoted cursor.rest.length
        andThen [.text inner true] true level
      else if ← Reader.endsDocumentAfter c then
        match place.fault? true with
        | some fault => Reader.refuse fault
        | none => return ([.text [c] true], false)
      else if place = .sum then
        if c = '(' then literal c true false (level + 1)
        else if c = ')' then
          if 0 < level then literal c true false (level - 1)
          else if ← Reader.takeIf ')' then return ([], false)
          else literal c true false level
        else literal c true false level
      else literal c place.isQuoted false level

/-- Reads a substitution after its sign. -/
def substitution (nested : Bool → Reader (List Command)) : Nat → Place → Reader Part
  | 0, _ => Reader.refuse "too long"
  | bound + 1, place => do
    let quoted := place.isQuoted
    match ← Reader.glance with
    | some '(' =>
      let _ ← Reader.take
      if ← Reader.takeIf '(' then
        let (expression, _) ← parts nested bound .sum 0
        return .sum expression quoted
      else return .output (← nested true) quoted
    | some '\x7b' =>
      let _ ← Reader.take
      let (name, next) ← bracedStart
      braced nested bound place name next
    | some c =>
      if startsName c then return .parameter (← Reader.takeAll isNamePart) .value quoted
      else if c.isDigit || isSpecial c then
        let _ ← Reader.take
        return .parameter [c] .value quoted
      else return .text ['$'] quoted
    | none => return .text ['$'] quoted

/-- Reads what follows the name of a parameter in braces. -/
def braced (nested : Bool → Reader (List Command)) :
    Nat → Place → Raw → Follower → Reader Part
  | 0, _, _, _ => Reader.refuse "too long"
  | bound + 1, place, name, next => do
    match next with
    | .ended => return .parameter name .value place.isQuoted
    | .use make isPattern =>
      let inner := if isPattern || !place.isQuoted then Place.braces else .quotedBraces
      let (word, _) ← parts nested bound inner 0
      let _ ← Reader.take
      return .parameter name (make word) place.isQuoted

end

/-- The characters of a word without substitutions. -/
def literal? : Word → Option Raw
  | [] => some []
  | .text chars _ :: rest => (literal? rest).map (chars ++ ·)
  | _ => none

/-! ## Documents -/

/-- The body of a document that stands as it is written, what follows it, and the number of its
lines with the one that ends it. -/
def bodyOf (awaited : Awaited) : Nat → Raw → Raw × Raw × Nat
  | 0, cs => ([], cs, 0)
  | bound + 1, cs =>
    let stripped := if awaited.stripsTabs then cs.dropWhile fun c => c == '\t' else cs
    let line := stripped.takeWhile fun c => c != '\n'
    match stripped.dropWhile fun c => c != '\n' with
    | [] => (if line = awaited.ending then [] else line, [], 0)
    | _ :: rest =>
      if line = awaited.ending then ([], rest, 1)
      else
        let (body, after, count) := bodyOf awaited bound rest
        (line ++ '\n' :: body, after, count + 1)

/-- Reads a document, with the line that ends it. -/
def readDocument (nested : Bool → Reader (List Command)) (awaited : Awaited) : Reader Word := do
  let cursor ← get
  if awaited.isLiteral then
    let (body, rest, count) := bodyOf awaited (cursor.rest.length + 1) cursor.rest
    set { cursor with rest := rest, line := cursor.line + count }
    return [.text body true]
  else
    set { cursor with document := some awaited }
    let isEmpty ← Reader.endsDocument
    let word ←
      if isEmpty then pure []
      else do
        let (word, _) ← parts nested (2 * cursor.room + 2) .document 0
        pure word
    modify fun after => { after with document := cursor.document }
    return word

/-- Reads the documents that are awaited. -/
def readDocuments (nested : Bool → Reader (List Command)) : Reader Unit := do
  let cursor ← get
  set { cursor with awaited := [] }
  for awaited in cursor.awaited do
    let word ← readDocument nested awaited
    modify fun after => { after with documents := (awaited.number, word) :: after.documents }

/-! ## Tokens -/

/-- What is asked of the next token: that line ends before it are skipped, that keywords count, that
aliases count, and that it is the mark of a document. -/
structure Demand where
  skipsLines : Bool := false
  seesKeywords : Bool := false
  seesAliases : Bool := false
  isMark : Bool := false
deriving Inhabited

namespace Demand

/-- A word or a sign. -/
def plain : Demand := {}

/-- A keyword, if it is one, or an alias. -/
def command : Demand := { seesKeywords := true, seesAliases := true }

/-- A keyword, if it is one, or an alias, maybe on another line. -/
def further : Demand := { command with skipsLines := true }

/-- A keyword, if it is one, maybe on another line. -/
def pattern : Demand := { skipsLines := true, seesKeywords := true }

/-- A word that is no assignment yet, or an alias. -/
def name : Demand := { seesAliases := true }

end Demand

/-- Reads the sign of a redirection. -/
def redirection (written : Raw) : Reader Token := do
  let first ← Reader.take
  let isOutput := first = some '>'
  let digit := written.head?.map fun c => c.toNat - '0'.toNat
  let descriptor := digit.getD (if isOutput then 1 else 0)
  let next ← Reader.glance
  let sign ←
    if isOutput then
      match next with
      | some '>' => do let _ ← Reader.take; pure (Sign.file .appending)
      | some '&' => do let _ ← Reader.take; pure (.copy true)
      | some '|' => do let _ ← Reader.take; pure (.file (.writing true))
      | _ => pure (.file (.writing false))
    else
      match next with
      | some '<' => do
        let _ ← Reader.take
        pure (.document (← Reader.takeIf '-'))
      | some '&' => do let _ ← Reader.take; pure (.copy false)
      | some '>' => do let _ ← Reader.take; pure (.file .both)
      | _ => pure (.file .reading)
  return .redirection descriptor sign

/-- Takes characters up to the end of the line. -/
def skipComment : Nat → Reader Unit
  | 0 => return
  | bound + 1 => do
    match (← get).rest with
    | [] | '\n' :: _ => return
    | _ =>
      let _ ← Reader.takeRaw
      skipComment bound

/-- Reads a word. -/
def wholeWord (nested : Bool → Reader (List Command)) (isMark : Bool) : Reader (Word × Bool) := do
  parts nested (2 * (← get).room + 2) (if isMark then .mark else .bare) 0

/-- Reads a token as it is written; the bound is the number of characters. -/
def lexical (nested : Bool → Reader (List Command)) (isMark : Bool) : Nat → Reader Token
  | 0 => return .finish
  | bound + 1 => do
    let pair (c : Char) (double single : Token) : Reader Token := do
      let _ ← Reader.take
      return if ← Reader.takeIf c then double else single
    match ← Reader.glance with
    | none => return .finish
    | some ' ' | some '\t' => do
      let _ ← Reader.take
      lexical nested isMark bound
    | some '#' => do
      skipComment (bound + 1)
      lexical nested isMark bound
    | some '\n' => do
      let _ ← Reader.take
      return .newline
    | some '&' => pair '&' .and .background
    | some '|' => pair '|' .or .pipe
    | some ';' => pair ';' .endCase .semicolon
    | some '(' => do
      let _ ← Reader.take
      return .opening
    | some ')' => do
      let _ ← Reader.take
      return .closing
    | some _ => do
      let (word, isQuoted) ← wholeWord nested isMark
      let next ← Reader.glance
      match literal? word with
      | some written =>
        let isSmall := written.isEmpty || (written.length = 1 && written.all Char.isDigit)
        if (next = some '<' || next = some '>') && !isQuoted && isSmall then redirection written
        else return .word word isQuoted
      | none => return .word word isQuoted

/-- The keyword that a token is, if it counts as one. -/
def Token.resolved (token : Token) : Token :=
  match token with
  | .word parts false =>
    match literal? parts with
    | some written => ((Keyword.all.lookup (String.ofList written)).map Token.keyword).getD token
    | none => token
  | _ => token

/-- Reads tokens until one is not a line end that is to be skipped. -/
def skipLines (nested : Bool → Reader (List Command)) (isMark : Bool) :
    Nat → Token → Reader Token
  | bound + 1, .newline => do
    readDocuments nested
    modify fun cursor => { cursor with meetsBlank := false }
    skipLines nested isMark bound (← lexical nested isMark (← get).room)
  | _, token => return token

/-- Reads the next token; the bound is on the number of aliases in each other. -/
def tokenFrom (nested : Bool → Reader (List Command)) (demand : Demand) : Nat → Reader Token
  | 0 => return .finish
  | bound + 1 => do
    let cursor ← get
    set { cursor with pushed := none }
    let first ← match cursor.pushed with
      | some token => pure token
      | none => lexical nested demand.isMark cursor.room
    let token ←
      if demand.skipsLines then skipLines nested demand.isMark (cursor.room + 1) first
      else pure first
    let resolved := if demand.seesKeywords then token.resolved else token
    let cursor := (← get).pass
    let demand := { demand with seesAliases := demand.seesAliases || cursor.meetsBlank }
    set cursor
    match resolved with
    | .word parts false =>
      if !demand.seesAliases then return resolved
      match literal? parts with
      | some name =>
        match cursor.alias? name with
        | some value =>
          set (cursor.substitute name value)
          tokenFrom nested demand bound
        | none => return resolved
      | none => return resolved
    | _ => return resolved

/-- Reads the next token. -/
def nextToken (nested : Bool → Reader (List Command)) (demand : Demand) : Reader Token := do
  modify fun cursor => { cursor with meetsBlank := false }
  tokenFrom nested demand ((← get).room + 1)

/-- Puts a token back. -/
def pushBack (token : Token) : Reader Unit :=
  modify fun cursor => { cursor with pushed := some token }

end Ambient.Tool.Shell
