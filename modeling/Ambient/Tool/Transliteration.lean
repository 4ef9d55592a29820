import Ambient.Tool.Basic

/-!
# Transliteration

Replaces, deletes or draws together bytes of an input. The last byte of the second set stands for
all that are missing, and classes of letters that face each other change the case.
-/

/-!
## Sets of bytes

The operands of a transliteration: bytes, ranges, classes, a byte that is equivalent to itself, and
repeats of a byte, as often as said or as needed. A set is read in two steps, first its escapes and
then its elements, because what is escaped has no meaning of its own in an element.
-/

namespace Ambient.Tool.Transliteration

/-- What is wrong with the sets. -/
inductive Fault where
  | missingClass
  | missingEquivalent
  | unknownClass (name : Raw)
  | longEquivalent (name : Raw)
  | badCount (written : Raw)
  | reversedRange (first last : Char)
  | fillInSource
  | severalFills
  | fillWithoutTranslation
  | equivalentInTarget
  | otherClassInTarget
  | misalignedCase
  | emptyTarget
  | classAtEndOfTarget
  | severalTargetsForComplement
deriving DecidableEq, Repr, Inhabited

/-- A byte by its character, if it has one, or by its octal digits. -/
def shown (c : Char) : Raw := if isVisible c then [c] else octalEscape c

/-- The text of a fault. -/
def Fault.message : Fault → Raw
  | .missingClass => raw "missing character class name \x27[::]\x27"
  | .missingEquivalent => raw "missing equivalence class character \x27[==]\x27"
  | .unknownClass name =>
    raw "invalid character class \x27" ++ name.flatMap shown ++ raw "\x27"
  | .longEquivalent name =>
    name.flatMap shown ++ raw ": equivalence class operand must be a single character"
  | .badCount written =>
    raw "invalid repeat count \x27" ++ written.flatMap shown ++ raw "\x27 in [c*n] construct"
  | .reversedRange first last =>
    raw "range-endpoints of \x27" ++ shown first ++ ['-'] ++ shown last
      ++ raw "\x27 are in reverse collating sequence order"
  | .fillInSource => raw "the [c*] repeat construct may not appear in string1"
  | .severalFills => raw "only one [c*] repeat construct may appear in string2"
  | .fillWithoutTranslation =>
    raw "the [c*] construct may appear in string2 only when translating"
  | .equivalentInTarget =>
    raw "[=c=] expressions may not appear in string2 when translating"
  | .otherClassInTarget =>
    raw "when translating, the only character classes that may appear in\nstring2 are "
      ++ raw "\x27upper\x27 and \x27lower\x27"
  | .misalignedCase => raw "misaligned [:upper:] and/or [:lower:] construct"
  | .emptyTarget => raw "when not truncating set1, string2 must be non-empty"
  | .classAtEndOfTarget =>
    raw "when translating with string1 longer than string2,\n"
      ++ raw "the latter string must not end with a character class"
  | .severalTargetsForComplement =>
    raw "when translating with complemented character classes,\n"
      ++ raw "string2 must map all characters in the domain to one"

/-! ## Escapes -/

/-- A byte of a written set, and whether a backslash stood in front of it. -/
structure Mark where
  byte : Char
  isEscaped : Bool
deriving DecidableEq, Repr, Inhabited

/-- Whether a byte is an octal digit. -/
def isOctal (c : Char) : Bool := '0' ≤ c && c ≤ '7'

/-- The number that octal digits stand for. -/
def octal (digits : Raw) : Nat :=
  digits.foldl (fun value c => value * 8 + (c.toNat - '0'.toNat)) 0

/-- The byte for the letter of an escape. -/
def escape : Char → Char
  | 'a' => '\x07'
  | 'b' => '\x08'
  | 'f' => '\x0c'
  | 'n' => '\n'
  | 'r' => '\r'
  | 't' => '\t'
  | 'v' => '\x0b'
  | c => c

/-- The warning about three octal digits that are too many for a byte. -/
def ambiguous (a b c : Char) : Raw :=
  raw "warning: the ambiguous octal escape \\" ++ [a, b, c]
    ++ raw " is being\n\tinterpreted as the 2-byte sequence \\0" ++ [a, b] ++ raw ", " ++ [c]

/-- The first byte of a set behind a backslash, the bytes after it, and a warning about it. -/
def escaped : Raw → Char × Raw × Option Raw
  | [] =>
    ('\\', [], some (raw "warning: an unescaped backslash at end of string is not portable"))
  | a :: rest =>
    let digits := (a :: rest.take 2).takeWhile isOctal
    if digits.isEmpty then (escape a, rest, none)
    else if octal digits < 256 then
      (Char.ofNat (octal digits), (a :: rest).drop digits.length, none)
    else
      (Char.ofNat (octal (digits.take 2)), (a :: rest).drop 2,
        some (ambiguous a (digits.getD 1 ' ') (digits.getD 2 ' ')))

/-- Reads escapes, with the warnings about them; the bound is the number of bytes. -/
def marks : Nat → Raw → List Mark × List Raw
  | 0, _ | _, [] => ([], [])
  | bound + 1, '\\' :: rest =>
    let (byte, later, warning) := escaped rest
    let (found, warnings) := marks bound later
    (⟨byte, !rest.isEmpty⟩ :: found, warning.toList ++ warnings)
  | bound + 1, c :: rest =>
    let (found, warnings) := marks bound rest
    (⟨c, false⟩ :: found, warnings)

/-! ## Elements -/

/-- An element of a set. A repeat without a count is as long as it has to be. -/
inductive Element where
  | byte (c : Char)
  | range (first last : Char)
  | named (name : String) (members : Raw)
  | equivalent (c : Char)
  | repeated (c : Char) (count : Nat)
deriving Repr, Inhabited

namespace Element

/-- The bytes of an element. -/
def bytes : Element → Raw
  | .byte c | .equivalent c => [c]
  | .range first last => bytesBetween first last
  | .named _ members => members
  | .repeated c count => List.replicate count c

/-- Whether the element is a repeat without a count. -/
def isFill : Element → Bool
  | .repeated _ count => count == 0
  | _ => false

/-- Whether the element is a class. -/
def isNamed : Element → Bool
  | .named _ _ => true
  | _ => false

/-- Whether the element is a class of letters of one case. -/
def isCase : Element → Bool
  | .named name _ => name == "upper" || name == "lower"
  | _ => false

/-- Whether the element is a byte in the brackets of an equivalence. -/
def isEquivalent : Element → Bool
  | .equivalent _ => true
  | _ => false

end Element

/-- The marks in front of a delimiter with a bracket, and those behind it. -/
def closing? (delimiter : Char) : List Mark → Option (List Mark × List Mark)
  | a :: b :: rest =>
    if a = ⟨delimiter, false⟩ ∧ b = ⟨']', false⟩ then some ([], rest)
    else (closing? delimiter (b :: rest)).map fun (found, later) => (a :: found, later)
  | _ => none

/-- Reads a repeat after its opening bracket. -/
def repeat? : List Mark → Except Fault (Option (Element × List Mark))
  | ⟨c, _⟩ :: ⟨'*', false⟩ :: rest =>
    let written := (rest.takeWhile fun m => m.byte != ']' && !m.isEscaped).map Mark.byte
    match rest.drop written.length with
    | ⟨']', false⟩ :: later =>
      let base := if written.head? = some '0' then 8 else 10
      let isDigit (d : Char) : Bool := d.isDigit && d.toNat - '0'.toNat < base
      let count := written.foldl (fun value d => value * base + (d.toNat - '0'.toNat)) 0
      if written.all isDigit && count < Nat.pow 2 64 - 1 then .ok (some (.repeated c count, later))
      else .error (.badCount written)
    | _ => .ok none
  | _ => .ok none

/-- Whether a star with digits and a closing bracket is next. -/
def isRepeatTail : List Mark → Bool
  | ⟨'*', false⟩ :: rest => (rest.dropWhile fun m => m.byte.isDigit).head? == some ⟨']', false⟩
  | _ => false

/-- The element for what stands between two delimiters. -/
def delimited (delimiter : Char) (name : Raw) : Except Fault Element :=
  if delimiter = ':' then
    match byteClass? (String.ofList name) with
    | some members => .ok (.named (String.ofList name) members)
    | none => .error (if name.isEmpty then .missingClass else .unknownClass name)
  else
    match name with
    | [] => .error .missingEquivalent
    | [c] => .ok (.equivalent c)
    | _ => .error (.longEquivalent name)

/-- Reads an element in brackets after the opening one. -/
def bracketed? (rest : List Mark) : Except Fault (Option (Element × List Mark)) :=
  match rest with
  | ⟨delimiter, false⟩ :: inner =>
    if delimiter = ':' ∨ delimiter = '=' then
      match closing? delimiter inner with
      | some (name, later) =>
        match delimited delimiter (name.map Mark.byte) with
        | .ok element => .ok (some (element, later))
        | .error fault =>
          if !name.isEmpty && isRepeatTail inner then repeat? rest else .error fault
      | none => repeat? rest
    else repeat? rest
  | _ => repeat? rest

/-- Reads the elements of a set; the bound is the number of marks. The last two marks stand for
themselves. -/
def elements : Nat → List Mark → Except Fault (List Element)
  | 0, _ => .ok []
  | bound + 1, first :: next :: last :: rest => do
    let found ← if first = ⟨'[', false⟩ then bracketed? (next :: last :: rest) else pure none
    match found with
    | some (element, later) => return element :: (← elements bound later)
    | none =>
      if next = ⟨'-', false⟩ then
        if last.byte < first.byte then throw (.reversedRange first.byte last.byte)
        return .range first.byte last.byte :: (← elements bound rest)
      else return .byte first.byte :: (← elements bound (next :: last :: rest))
  | _, few => .ok (few.map fun m => .byte m.byte)

/-- Reads a set, with the warnings about its escapes. -/
def readSet (written : Raw) : List Raw × Except Fault (List Element) :=
  let (found, warnings) := marks written.length written
  (warnings, elements found.length found)

end Ambient.Tool.Transliteration

namespace Ambient.Tool.Transliteration

/-- The options. -/
def options : Options :=
  { letters := ['c', 'C', 'd', 's', 't']
    valued := []
    attached := []
    long := [("complement", 'c'), ("delete", 'd'), ("squeeze-repeats", 's'),
      ("truncate-set1", 't'), ("help", Options.help), ("version", Options.version)]
    endsAtOperand := true
    hint := Options.usualHint }

/-- The bytes that are not in a set. -/
def complement (members : Raw) : Raw :=
  (bytesBetween '\x00' (Char.ofNat 255)).filter fun c => !members.contains c

/-- The bytes of a set, or those that are not in it. -/
def bytesOf (isComplement : Bool) (es : List Element) : Raw :=
  let members := es.flatMap Element.bytes
  if isComplement then complement members else members

/-! ## Pairs of bytes -/

/-- A byte of a set where it is translated, with the letters of its class if it begins a class of
letters of one case. -/
structure Place where
  byte : Char
  letters : Option Raw
deriving Repr, Inhabited

/-- The places of an element. -/
def places (e : Element) : List Place :=
  match e.bytes with
  | [] => []
  | first :: rest =>
    ⟨first, if e.isCase then some (first :: rest) else none⟩ :: rest.map fun c => ⟨c, none⟩

/-- The bytes of one list with those of the other that take their places. A class of letters faces a
class of letters as a whole. -/
def pairs (source target : List Place) : Except Fault (List (Char × Char)) :=
  match source, target with
  | s :: ss, ⟨_, some letters⟩ :: ts =>
    match s.letters with
    | some facing => do
      let later ← pairs (ss.drop (facing.length - 1)) (ts.drop (letters.length - 1))
      return facing.zip letters ++ later
    | none => .error .misalignedCase
  | [], ⟨_, some _⟩ :: _ => .error .misalignedCase
  | s :: ss, t :: ts => do return (s.byte, t.byte) :: (← pairs ss ts)
  | [], _ | _, [] => .ok []
termination_by target.length
decreasing_by all_goals (simp only [List.length_cons, List.length_drop]; omega)

/-- Gives a repeat without a count the length that is missing to a size. -/
def fill (size : Nat) (es : List Element) : List Element :=
  let missing := size - (es.flatMap Element.bytes).length
  es.map fun e =>
    match e with
    | .repeated c 0 => .repeated c missing
    | e => e

/-- The bytes that make a target as long as its source. -/
def extension (missing : Nat) (target : List Element) : Except Fault Raw :=
  match target.getLast? with
  | none => .error .emptyTarget
  | some (.named _ _) => .error .classAtEndOfTarget
  | some e => .ok (List.replicate missing (e.bytes.getLastD ' '))

/-- How a call translates: the bytes with those they give way to, and the bytes of the target. -/
structure Translation where
  table : List (Char × Char)
  target : Raw

/-- The translation from one set to another. -/
def translation (a : Arguments) (source target : List Element) : Except Fault Translation := do
  let isComplement := a.has 'c' || a.has 'C'
  let plain (c : Char) : Place := ⟨c, none⟩
  if target.any Element.isEquivalent then throw .equivalentInTarget
  if target.any fun e => e.isNamed && !e.isCase then throw .otherClassInTarget
  let sources :=
    if isComplement then (bytesOf true source).map plain else source.flatMap places
  let filled := fill sources.length target
  let targets :=
    if isComplement then (bytesOf false filled).map plain else filled.flatMap places
  let _ ← pairs sources targets
  let added ←
    if sources.length ≤ targets.length || a.has 't' then pure []
    else extension (sources.length - targets.length) filled
  let full := targets ++ added.map plain
  let bytes := bytesOf false filled ++ added
  let isUniform := full.length == sources.length && bytes.all fun c => some c == bytes.head?
  if isComplement && source.any Element.isNamed && !isUniform then
    throw .severalTargetsForComplement
  return ⟨(← pairs sources full).reverse, bytes⟩

/-- Draws repeats of the bytes of a set together. -/
def squeeze (members : Raw) : Raw → Raw
  | a :: b :: rest =>
    if a = b ∧ members.contains a then squeeze members (b :: rest)
    else a :: squeeze members (b :: rest)
  | cs => cs

/-! ## The tool -/

/-- What is made of the input. -/
def transform (a : Arguments) (source : List Element) (target? : Option (List Element))
    (input : Raw) : Except Fault Raw := do
  let chosen := bytesOf (a.has 'c' || a.has 'C') source
  if source.any Element.isFill then throw .fillInSource
  match target? with
  | none =>
    if a.has 'd' then return input.filter fun c => !chosen.contains c
    else return squeeze chosen input
  | some target =>
    if (target.filter Element.isFill).length > 1 then throw .severalFills
    if a.has 'd' then
      if target.any Element.isFill then throw .fillWithoutTranslation
      return squeeze (bytesOf false target) (input.filter fun c => !chosen.contains c)
    else
      let t ← translation a source target
      let changed := input.map fun c => (t.table.lookup c).getD c
      return if a.has 's' then squeeze t.target changed else changed

/-- What is wrong with the number of operands, if it is. -/
def countFault? (a : Arguments) : Option Raw :=
  let least := if a.has 'd' = a.has 's' then 2 else 1
  let most := if a.has 'd' && !a.has 's' then 1 else 2
  let count := a.operands.length
  if count = 0 then some (raw "missing operand")
  else if count < least then
    some (raw "missing operand after " ++ quotedText (a.operands.getLastD []) ++ raw ("\n" ++
      if a.has 's' then "Two strings must be given when both deleting and squeezing repeats."
      else "Two strings must be given when translating."))
  else if count > most then
    some (raw "extra operand " ++ quotedText (a.operands.getD most []) ++
      if count = 2 then
        raw "\nOnly one string may be given when deleting without squeezing repeats."
      else [])
  else none

/-- Translates the input by one or two sets. -/
def translate (a : Arguments) (one : Raw) (others : List Raw) (input : Raw) (w : World) : Outcome :=
  let (warnings, source) := readSet one
  let later := match source with
    | .ok _ => others.map readSet
    | .error _ => []
  let pieces := (warnings ++ later.flatMap Prod.fst).map w.complaint
  let result : Except Fault Raw := do
    let source ← source
    transform a source (← (later.head?.map Prod.snd).mapM id) input
  match result, w.inputFault? with
  | .error fault, _ => w.leaving 1 (pieces ++ [w.complaint fault.message]) input
  | .ok _, some text => w.leaving 1 (pieces ++ [w.complaint (raw ("read error: " ++ text))]) input
  | .ok output, none =>
    if w.output = .closed ∧ !output.isEmpty then
      w.after 1 (pieces ++ [w.complaint (raw ("write error: " ++ World.closedText))])
    else w.after 0 (pieces ++ [(.output, output)])

/-- The tool. -/
def transliterate : Program := fun arguments input w =>
  match options.read arguments with
  | .error message => options.misuse w input message
  | .ok a =>
    if a.has Options.help then
      w.leaving 0 [(.output, raw (Help.transliteration (toText w.name)))] input
    else
      match countFault? a, a.operands with
      | none, one :: others => translate a one others input w
      | found, _ => options.misuse w input (toText (found.getD []))

end Ambient.Tool.Transliteration
