import Ambient.Tool.Basic

/-!
# Patterns

Regular expressions over bytes. A match starts as far left as it can and is as long as it can be
there.
-/

namespace Ambient.Tool

/-- A place between two bytes. -/
inductive Edge where
  | lineStart
  | lineEnd
  | textStart
  | textEnd
  | wordStart
  | wordEnd
  /-- One of the ends of a word, or none of them. -/
  | word (isEdge : Bool)
deriving DecidableEq, Repr, Inhabited

/-- A regular expression. -/
inductive Pattern where
  | nothing
  | byte (members : Raw) (isNegated : Bool)
  | edge (e : Edge)
  | group (number : Nat) (inner : Pattern)
  /-- The text of a group once more. -/
  | again (number : Nat)
  | sequence (first second : Pattern)
  | either (first second : Pattern)
  | repeated (inner : Pattern) (low : Nat) (high : Option Nat)
deriving DecidableEq, Repr, Inhabited

/-- A pattern with the way it is applied: upper and lower case may count as one, and lines may start
and end inside a text. -/
structure Matcher where
  pattern : Pattern
  /-- The number of groups of the pattern. -/
  groups : Nat
  ignoresCase : Bool
  seesLines : Bool
deriving DecidableEq, Repr, Inhabited

namespace Pattern

/-- Whether a byte belongs to words. -/
def isWordByte (c : Char) : Bool := c.isAlphanum || c == '_'

/-! ## Matching -/

/-- What has been matched: how much of the text, the byte before the place, what is left of the
text, and the groups. -/
structure Progress where
  taken : Nat
  before : Option Char
  rest : Raw
  groups : List (Nat × Raw)
deriving Inhabited

/-- Whether a place is an edge. -/
def Progress.isAt (seesLines : Bool) (p : Progress) (e : Edge) : Bool :=
  let wordBefore := p.before.any isWordByte
  let wordAfter := p.rest.head?.any isWordByte
  match e with
  | .textStart => p.taken == 0
  | .textEnd => p.rest.isEmpty
  | .lineStart => p.taken == 0 || (seesLines && p.before == some '\n')
  | .lineEnd => p.rest.isEmpty || (seesLines && p.rest.head? == some '\n')
  | .wordStart => !wordBefore && wordAfter
  | .wordEnd => wordBefore && !wordAfter
  | .word isEdge => (wordBefore != wordAfter) == isEdge

/-- The progress after a number of bytes. -/
def Progress.skip (p : Progress) : Nat → Progress
  | 0 => p
  | count + 1 =>
    match p.rest with
    | [] => p
    | c :: rest => { p with taken := p.taken + 1, before := some c, rest := rest }.skip count

/-- Repeats a step at most `bound` times, the longest runs first. A step that takes nothing ends the
run; it is made where steps are missing, or where it gives a group a text. -/
def repeatStep (step : Progress → List Progress) (low : Nat) (high : Option Nat) :
    Nat → Nat → Progress → List Progress
  | 0, done, p => if low ≤ done then [p] else []
  | bound + 1, done, p =>
    let next := if high = some done then [] else step p
    let further := (next.filter fun q => p.taken < q.taken).flatMap
      (repeatStep step low high bound (done + 1))
    let empty := next.filter fun q =>
      q.taken == p.taken && (done < low || q.groups != p.groups)
    further ++ (if low ≤ done then [p] else []) ++ empty

/-- Whether two bytes count as one. -/
def areAlike (ignoresCase : Bool) (a b : Char) : Bool :=
  a == b || (ignoresCase && a.toLower == b.toLower)

/-- The ways to go on with a pattern, the preferred ones first. Where lines may end inside a text,
their ends are matched only by what names them. -/
def ways (ignoresCase seesLines : Bool) : Pattern → Progress → List Progress
  | .nothing, p => [p]
  | .byte members isNegated, p =>
    match p.rest with
    | [] => []
    | c :: rest =>
      let found := members.contains c
        || (ignoresCase && (members.contains c.toLower || members.contains c.toUpper))
      if found != isNegated && !(isNegated && seesLines && c == '\n') then
        [{ p with taken := p.taken + 1, before := some c, rest := rest }]
      else []
  | .edge e, p => if p.isAt seesLines e then [p] else []
  | .group number inner, p =>
    (ways ignoresCase seesLines inner p).map fun q =>
      { q with groups := (number, p.rest.take (q.taken - p.taken)) :: q.groups }
  | .again number, p =>
    match p.groups.lookup number with
    | none => []
    | some text =>
      let next := p.rest.take text.length
      if next.length = text.length && (next.zip text).all fun (a, b) => areAlike ignoresCase a b
      then [p.skip text.length] else []
  | .sequence first second, p =>
    (ways ignoresCase seesLines first p).flatMap (ways ignoresCase seesLines second)
  | .either first second, p =>
    ways ignoresCase seesLines first p ++ ways ignoresCase seesLines second p
  | .repeated inner low high, p =>
    repeatStep (ways ignoresCase seesLines inner) low high (p.rest.length + low) 0 p

/-- The longest of several ways, the first of several that are equally long. -/
def longest : List Progress → Option Progress
  | [] => none
  | p :: rest =>
    match longest rest with
    | some q => if p.taken < q.taken then some q else some p
    | none => some p

end Pattern

namespace Matcher

/-- The longest match at a place. -/
def matchAt? (m : Matcher) (place : Pattern.Progress) : Option Pattern.Progress :=
  Pattern.longest (m.pattern.ways m.ignoresCase m.seesLines place)

/-- Whether there is a match after what has been passed of a text. -/
def occursFrom (m : Matcher) (passed : Nat) (before : Option Char) : Raw → Bool
  | [] => (m.matchAt? ⟨passed, before, [], []⟩).isSome
  | c :: rest =>
    (m.matchAt? ⟨passed, before, c :: rest, []⟩).isSome || m.occursFrom (passed + 1) (some c) rest

/-- Whether there is a match anywhere in a text. -/
def occursIn (m : Matcher) (text : Raw) : Bool := m.occursFrom 0 none text

end Matcher

end Ambient.Tool

/-!
## Reading patterns

The basic and the extended spelling of regular expressions. They differ in which signs mean
something by themselves and which after a backslash. Escapes of bytes are resolved in the text
before it is read, so that a byte means the same however it is written. A text is read from left to
right, and the first fault is the one that is told.
-/

namespace Ambient.Tool.Pattern

/-! ## Escapes -/

/-- The value of a digit in the bases up to sixteen. -/
def digitValue (c : Char) : Nat :=
  if c.isDigit then c.toNat - '0'.toNat
  else if 'a' ≤ c ∧ c ≤ 'f' then c.toNat - 'a'.toNat + 10
  else if 'A' ≤ c ∧ c ≤ 'F' then c.toNat - 'A'.toNat + 10
  else 16

/-- The byte that the digits of a number stand for, at most `count` of them. -/
def numbered? (base count : Nat) (cs : Raw) : Option (Char × Raw) :=
  let digits := (cs.take count).takeWhile fun c => digitValue c < base
  if digits.isEmpty then none
  else
    let value := digits.foldl (fun n c => n * base + digitValue c) 0
    some (Char.ofNat (value % 256), cs.drop digits.length)

/-- The byte that an escape stands for, after its backslash, and the rest. -/
def escaped? (cs : Raw) : Option (Char × Raw) :=
  match cs with
  | 'a' :: rest => some ('\x07', rest)
  | 'f' :: rest => some ('\x0c', rest)
  | 'n' :: rest => some ('\n', rest)
  | 'r' :: rest => some ('\r', rest)
  | 't' :: rest => some ('\t', rest)
  | 'v' :: rest => some ('\x0b', rest)
  | ['c'] => some ('\\', [])
  | 'c' :: '\\' :: '\\' :: rest => some ('\x1c', rest)
  | 'c' :: c :: rest => some (Char.ofNat (c.toUpper.toNat ^^^ 64), rest)
  | 'd' :: rest => numbered? 10 3 rest
  | 'o' :: rest => numbered? 8 3 rest
  | 'x' :: rest => numbered? 16 2 rest
  | _ => none

/-- Whether a text has the escape of a control byte for a byte that is escaped itself, other than a
backslash. -/
def hasNestedControl : Raw → Bool
  | '\\' :: 'c' :: '\\' :: c :: rest => c != '\\' || hasNestedControl rest
  | '\\' :: 'c' :: _ :: rest => hasNestedControl rest
  | '\\' :: _ :: rest => hasNestedControl rest
  | _ :: rest => hasNestedControl rest
  | [] => false

/-- The complaint about such an escape. -/
def nestedControl : String := "recursive escaping after \\c not allowed"

/-- How patterns are spelled: which signs mean something by themselves, and whether only what all
tools know is known. -/
structure Dialect where
  isExtended : Bool
  isStrict : Bool
deriving DecidableEq, Repr, Inhabited

/-- Where a text stands with regard to sets: outside of them, in a set, or in a named member of a
set with the sign of its kind. -/
inductive SetPlace where
  | outside
  | inSet
  | inMember (sign : Char)
deriving DecidableEq, Repr, Inhabited

/-- The place after a character, which follows another one and that one's predecessor. -/
def SetPlace.after (place : SetPlace) (earlier before c : Char) : SetPlace :=
  match place, c with
  | .outside, '[' => .inSet
  | .inSet, ']' => .outside
  | .inMember sign, ']' => if earlier ≠ sign ∧ before = sign then .inSet else place
  | .inSet, _ => if before = '[' ∧ (c = ':' ∨ c = '.' ∨ c = '=') then .inMember c else place
  | _, _ => place

/-- A text with the bytes that its escapes stand for. In the strict dialect there are no escapes in
sets. `earlier` and `before` are the characters in front, and the bound is the number of
characters. -/
def resolvedFrom (isStrict : Bool) (place : SetPlace) (earlier before : Char) : Nat → Raw → Raw
  | 0, _ | _, [] => []
  | bound + 1, '\\' :: c :: rest =>
    let copied : Raw := '\\' :: c :: resolvedFrom isStrict place '\\' c bound rest
    if isStrict ∧ place ≠ .outside then copied
    else
      match escaped? (c :: rest) with
      | some (found, rest) => found :: resolvedFrom isStrict place before found bound rest
      | none =>
        if c = 'd' ∨ c = 'o' ∨ c = 'x' then c :: resolvedFrom isStrict place before c bound rest
        else copied
  | bound + 1, c :: rest =>
    c :: resolvedFrom isStrict (place.after earlier before c) before c bound rest

/-- A text with the bytes that its escapes stand for. -/
def resolved (isStrict : Bool) (written : Raw) : Raw :=
  resolvedFrom isStrict .outside ' ' ' ' written.length written

/-! ## Sets -/

/-- The complaint about a set that is not closed. -/
def openSet : String := "Unmatched [, [^, [:, [., or [="

/-- A member of a set: a byte, or those of a class. -/
inductive Member where
  | single (c : Char)
  | several (members : Raw)
deriving Repr, Inhabited

/-- Reads a member of a set. -/
def member : Raw → Except String (Member × Raw)
  | '[' :: ':' :: rest =>
    let name := rest.takeWhile Char.isAlpha
    match rest.drop name.length with
    | ':' :: ']' :: after =>
      match byteClass? (String.ofList name) with
      | some found => .ok (.several found, after)
      | none => .error "Invalid character class name"
    | _ => .ok (.single '[', ':' :: rest)
  | '[' :: '.' :: c :: '.' :: ']' :: after => .ok (.single c, after)
  | '[' :: '=' :: c :: '=' :: ']' :: after => .ok (.single c, after)
  | c :: rest => .ok (.single c, rest)
  | [] => .error openSet

/-- Reads the members of a set after its opening; the bound is the number of characters. The first
member may be a closing bracket. -/
def members : Nat → Bool → Raw → Except String (Raw × Raw)
  | 0, _, _ => .error openSet
  | bound + 1, isFirst, cs => do
    match cs, isFirst with
    | ']' :: rest, false => return ([], rest)
    | _, _ =>
      let (first, after) ← member cs
      match after with
      | '-' :: ']' :: _ =>
        let (more, rest) ← members bound false after
        return (bytes first ++ more, rest)
      | '-' :: after =>
        let (second, rest) ← member after
        match first, second with
        | .single a, .single b =>
          if b < a then throw "Invalid range end"
          let (more, rest) ← members bound false rest
          return (bytesBetween a b ++ more, rest)
        | _, _ => throw "Invalid range end"
      | _ =>
        let (more, rest) ← members bound false after
        return (bytes first ++ more, rest)
where
  /-- The bytes of a member. -/
  bytes : Member → Raw
    | .single c => [c]
    | .several found => found

/-- Reads a set after its opening bracket. -/
def set (cs : Raw) : Except String (Pattern × Raw) := do
  let (isNegated, cs) := match cs with
    | '^' :: rest => (true, rest)
    | _ => (false, cs)
  let (found, rest) ← members (cs.length + 1) true cs
  return (.byte found isNegated, rest)

/-! ## Tokens -/

/-- The parts of an expression that mean something. A repetition knows how it is written. -/
inductive Token where
  | atom (pattern : Pattern)
  | edge (e : Edge)
  | again (number : Nat)
  | openGroup
  | closeGroup
  | bar
  | repeats (low : Nat) (high : Option Nat) (written : Char)
  | caret
  | dollar
deriving Repr, Inhabited

/-- The most repetitions that can be asked for. -/
def repetitionLimit : Nat := 32767

/-- What the limits of a repetition are written with. -/
inductive LimitSign where
  | digit (value : Nat)
  | comma
  | closing
  | other
deriving DecidableEq, Repr, Inhabited

/-- The signs of limits up to what closes them, and the rest. What closes them has a backslash in
the basic spelling. -/
def limitSigns (isExtended : Bool) : Raw → Option (List LimitSign × Raw)
  | [] => none
  | ['\\'] => none
  | '\\' :: c :: rest =>
    if !isExtended ∧ c = '\x7d' then some ([], rest)
    else
      let sign := if c = ',' then LimitSign.comma else if c = '0' then .digit 0 else .other
      (limitSigns isExtended rest).map fun (signs, after) => (sign :: signs, after)
  | c :: rest =>
    if isExtended ∧ c = '\x7d' then some ([], rest)
    else
      let sign :=
        if c = ',' then LimitSign.comma else if c.isDigit then .digit (digitValue c) else .other
      (limitSigns isExtended rest).map fun (signs, after) => (sign :: signs, after)

/-- The number of some digits, if there are any and nothing else. -/
def limitOf? (signs : List LimitSign) : Option Nat :=
  if signs.isEmpty then none
  else
    signs.foldlM (fun value sign =>
      match sign with
      | .digit d => some (min (repetitionLimit + 1) (value * 10 + d))
      | _ => none) 0

/-- Reads the limits of a repetition after its opening brace. A lower limit that is missing is
zero. -/
def limits (isExtended : Bool) (cs : Raw) : Except String (Token × Raw) := do
  match limitSigns isExtended cs with
  | none => throw "Unmatched \\\x7b"
  | some (signs, after) =>
    let invalid := "Invalid content of \\\x7b\\\x7d"
    let isComma (sign : LimitSign) : Bool := sign == .comma
    let first := signs.takeWhile fun sign => !isComma sign
    let (low, high) ← match signs.drop first.length with
      | [] =>
        match limitOf? first with
        | some low => pure (low, some low)
        | none => throw invalid
      | _ :: second => do
        let low ← if first.isEmpty then pure 0 else
          match limitOf? first with
          | some low => pure low
          | none => throw invalid
        if second.isEmpty then pure (low, none)
        else
          match limitOf? second with
          | some high => pure (low, some high)
          | none => throw invalid
    if high.any fun high => high < low then throw invalid
    if repetitionLimit < max low (high.getD 0) then throw "Regular expression too big"
    return (.repeats low high '\x7b', after)

/-- The token of a sign that means something by itself in the extended spelling, and after a
backslash in the basic one. -/
def sign? : Char → Option Token
  | '(' => some .openGroup
  | ')' => some .closeGroup
  | '|' => some .bar
  | '+' => some (.repeats 1 none '+')
  | '?' => some (.repeats 0 (some 1) '?')
  | _ => none

/-- The bytes of a class that an escape names. -/
def classBytes (name : String) : Raw := (byteClass? name).getD []

/-- The bytes of words. -/
def wordBytes : Raw := classBytes "alnum" ++ ['_']

/-- The token of an escape that has a meaning of its own, if it is known everywhere or that does not
matter. -/
def escapeToken (isStrict : Bool) (c : Char) : Token :=
  let known : Option Token :=
    match c with
    | 'w' => some (.atom (.byte wordBytes false))
    | 'W' => some (.atom (.byte wordBytes true))
    | 's' => some (.atom (.byte (classBytes "space") false))
    | 'S' => some (.atom (.byte (classBytes "space") true))
    | 'b' => some (.edge (.word true))
    | 'B' => some (.edge (.word false))
    | '<' => some (.edge .wordStart)
    | '>' => some (.edge .wordEnd)
    | '\x27' => some (.edge .textEnd)
    | '\x60' => some (.edge .textStart)
    | _ => none
  if '1' ≤ c ∧ c ≤ '9' then .again (digitValue c)
  else if isStrict then .atom (.byte [c] false)
  else known.getD (.atom (.byte [c] false))

/-- Whether a sign means something in the strict basic spelling. -/
def isStrictSign (c : Char) : Bool := c == '(' || c == ')'

/-- Reads one token. -/
def token (d : Dialect) : Raw → Except String (Token × Raw)
  | [] => .error "Premature end of regular expression"
  | ['\\'] => .error "Trailing backslash"
  | '\\' :: c :: rest =>
    if c = '\x7b' ∧ !d.isExtended then limits false rest
    else
      match sign? c with
      | some found =>
        let isPlain := d.isExtended || (d.isStrict && !isStrictSign c)
        .ok (if isPlain then .atom (.byte [c] false) else found, rest)
      | none => .ok (escapeToken d.isStrict c, rest)
  | '[' :: rest => (set rest).map fun (found, after) => (.atom found, after)
  | '.' :: rest => .ok (.atom (.byte [] true), rest)
  | '*' :: rest => .ok (.repeats 0 none '*', rest)
  | '^' :: rest => .ok (.caret, rest)
  | '$' :: rest => .ok (.dollar, rest)
  | c :: rest =>
    if d.isExtended ∧ c = '\x7b' then limits true rest
    else
      match d.isExtended, sign? c with
      | true, some found => .ok (found, rest)
      | _, _ => .ok (.atom (.byte [c] false), rest)

/-- Whether a text goes on with limits of a repetition, or with a star. -/
def startsRepetition (isExtended : Bool) : Raw → Bool
  | '*' :: _ => true
  | '\x7b' :: _ => isExtended
  | '\\' :: '\x7b' :: _ => !isExtended
  | _ => false

/-- Whether an alternative ends in front of a text in the basic spelling. -/
def endsAlternative : Raw → Bool
  | [] => true
  | '\\' :: c :: _ => c == ')' || c == '|'
  | _ => false

/-! ## Building -/

/-- The complaint about a repetition of nothing. -/
def nothingToRepeat : String := "Invalid preceding regular expression"

/-- A group that is open: its number, the alternatives that are complete, the parts of the current
one, last first, and the groups that were complete before it and in the earlier alternatives. -/
structure Frame where
  number : Nat
  earlier : Option Pattern
  parts : List Pattern
  outside : List Nat
  inside : List Nat
deriving Inhabited

/-- The pattern of the parts of an alternative. -/
def Frame.current (f : Frame) : Pattern :=
  f.parts.foldl (fun after part => if after matches .nothing then part else .sequence part after)
    .nothing

/-- The pattern of a group that is complete. -/
def Frame.pattern (f : Frame) : Pattern :=
  match f.earlier with
  | some first => .either first f.current
  | none => f.current

/-- Adds a part. -/
def Frame.add (f : Frame) (part : Pattern) : Frame := { f with parts := part :: f.parts }

/-- The groups that are open, innermost first, the number of the next one, the numbers of those
that are complete where the reading stands, and whether a repetition has just been read. -/
structure Building where
  next : Nat
  top : Frame
  outer : List Frame
  complete : List Nat
  afterRepetition : Bool
deriving Inhabited

/-- Where a building starts. -/
def Building.empty : Building := ⟨1, ⟨0, none, [], [], []⟩, [], [], false⟩

/-- Adds a part to the innermost group. -/
def Building.add (b : Building) (part : Pattern) : Building := { b with top := b.top.add part }

/-- Whether the innermost group ends in something that can be repeated. -/
def Building.canRepeat (b : Building) : Bool :=
  match b.top.parts with
  | [] | .edge _ :: _ => false
  | _ => true

/-- Refuses a repetition where none can stand: after nothing, and in the basic spelling after
another one. -/
def Building.checkRepetition (b : Building) (isExtended : Bool) (cs : Raw) :
    Except String Unit :=
  let opensLimits := cs.head? != some '*'
  if !startsRepetition isExtended cs then .ok ()
  else if !b.canRepeat && (isExtended || opensLimits) then .error nothingToRepeat
  else if !isExtended && b.afterRepetition then .error nothingToRepeat
  else .ok ()

/-- Takes a token in front of a text. In the basic spelling signs stand for themselves where they
would mean nothing. What is repeated again is only what a group of the same alternative has
matched. -/
def Building.take (d : Dialect) (later : Raw) (b : Building) : Token → Except String Building
  | .atom pattern => .ok (b.add pattern)
  | .edge e => .ok (b.add (.edge e))
  | .again number =>
    if b.complete.contains number then .ok (b.add (.again number))
    else .error "Invalid back reference"
  | .openGroup =>
    .ok { b with
      next := b.next + 1
      top := ⟨b.next, none, [], b.complete, []⟩
      outer := b.top :: b.outer }
  | .closeGroup =>
    match b.outer with
    | around :: rest =>
      .ok { b with
        top := around.add (.group b.top.number b.top.pattern)
        outer := rest
        complete := b.top.number :: b.complete ++ b.top.inside }
    | [] => if d.isStrict then .ok (b.add (.byte [')'] false)) else .error "Unmatched ) or \\)"
  | .bar =>
    .ok { b with
      top := { b.top with
        earlier := some b.top.pattern
        parts := []
        inside := b.complete ++ b.top.inside }
      complete := b.top.outside }
  | .repeats low high written =>
    match b.canRepeat, b.top.parts with
    | true, part :: parts =>
      .ok { b with
        top := { b.top with parts := .repeated part low high :: parts }
        afterRepetition := true }
    | _, _ =>
      if d.isExtended then .error nothingToRepeat else .ok (b.add (.byte [written] false))
  | .caret =>
    let isFirst := d.isExtended || b.top.parts.isEmpty
    .ok (b.add (if isFirst then .edge .lineStart else .byte ['^'] false))
  | .dollar =>
    let isLast := d.isExtended || endsAlternative later
    .ok (b.add (if isLast then .edge .lineEnd else .byte ['$'] false))

/-- Reads the rest of an expression; the bound is the number of characters. -/
def Building.readFrom (d : Dialect) : Nat → Building → Raw → Except String Building
  | 0, b, _ | _, b, [] => .ok b
  | bound + 1, b, cs => do
    b.checkRepetition d.isExtended cs
    let (found, rest) ← token d cs
    ({ b with afterRepetition := false }.take d rest found) >>= fun b => b.readFrom d bound rest

/-- Reads a pattern, and counts its groups. -/
def read (d : Dialect) (written : Raw) : Except String (Pattern × Nat) := do
  if hasNestedControl written then throw nestedControl
  let cs := resolved d.isStrict written
  let b ← Building.empty.readFrom d cs.length cs
  if b.outer.isEmpty then return (b.top.pattern, b.next - 1) else throw "Unmatched ( or \\("

end Ambient.Tool.Pattern
