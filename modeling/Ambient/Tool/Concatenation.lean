import Ambient.Tool.Basic

/-!
# Concatenation of files

Writes files one after another, the input in the place of a dash. Lines can be numbered, their
ends marked, and empty ones that follow each other drawn together; a line that a file leaves open
goes on in the next one.
-/

namespace Ambient.Tool.Concatenation

/-- The options. -/
def options : Options :=
  { letters := ['n', 'b', 's', 'E', 'T', 'v', 'A', 'e', 't', 'u']
    valued := []
    attached := []
    long := [("number-nonblank", 'b'), ("number", 'n'), ("squeeze-blank", 's'),
      ("show-nonprinting", 'v'), ("show-ends", 'E'), ("show-tabs", 'T'), ("show-all", 'A'),
      ("help", Options.help), ("version", Options.version)]
    endsAtOperand := false
    hint := Options.usualHint }

/-- How bytes are shown. -/
structure Style where
  numbersAll : Bool
  numbersFull : Bool
  squeezes : Bool
  showsEnds : Bool
  showsTabs : Bool
  showsHidden : Bool

/-- The style that options ask for. -/
def Style.of (a : Arguments) : Style :=
  let any (letters : List Char) : Bool := letters.any a.has
  { numbersAll := a.has 'n' && !a.has 'b'
    numbersFull := a.has 'b'
    squeezes := a.has 's'
    showsEnds := any ['E', 'A', 'e']
    showsTabs := any ['T', 'A', 't']
    showsHidden := any ['v', 'A', 'e', 't'] }

/-- Where the output stands: the number of the next line, whether it is at the start of a line,
whether the line before was empty, and whether a return is held back that may belong to the end of
the line. -/
structure Position where
  number : Nat
  isAtStart : Bool
  wasEmpty : Bool
  holdsReturn : Bool
deriving Inhabited

/-- The number in front of a line. -/
def label (number : Nat) : Raw :=
  let digits := Nat.repr number
  List.replicate (6 - digits.length) ' ' ++ digits.toList ++ ['\t']

/-- A byte below 128 by a printable character, behind a caret if it has none of its own. -/
def printable (code : Nat) : Raw :=
  if code < 0x20 then ['^', Char.ofNat (code + 0x40)]
  else if code = 0x7f then ['^', '?']
  else [Char.ofNat code]

/-- A byte of a line as it is shown. -/
def Style.byte (s : Style) (c : Char) : Raw :=
  if c = '\t' then if s.showsTabs then printable c.toNat else [c]
  else if !s.showsHidden then [c]
  else if c.toNat < 0x80 then printable c.toNat
  else 'M' :: '-' :: printable (c.toNat - 0x80)

/-- Shows a byte that is not held back. -/
def Style.put (s : Style) (p : Position) (c : Char) : Position × Raw :=
  if c = '\n' then
    if p.isAtStart ∧ p.wasEmpty ∧ s.squeezes then (p, [])
    else
      let isLabelled := p.isAtStart && s.numbersAll
      (⟨if isLabelled then p.number + 1 else p.number, true, p.isAtStart, false⟩,
        (if isLabelled then label p.number else []) ++ (if s.showsEnds then ['$'] else []) ++ [c])
  else
    let isLabelled := p.isAtStart && (s.numbersAll || s.numbersFull)
    (⟨if isLabelled then p.number + 1 else p.number, false, false, false⟩,
      (if isLabelled then label p.number else []) ++ s.byte c)

/-- Shows a byte. Where ends are shown, a return in front of an end belongs to it. -/
def Style.next (s : Style) (p : Position) (c : Char) : Position × Raw :=
  let held := { p with holdsReturn := false }
  if p.holdsReturn then
    if c = '\n' then
      let (p, shown) := s.put { held with isAtStart := false } c
      (p, printable '\r'.toNat ++ shown)
    else
      let (p, shown) := s.put held c
      (p, '\r' :: shown)
  else if c = '\r' ∧ s.showsEnds ∧ !s.showsHidden then
    let (p, shown) := s.put p c
    ({ p with holdsReturn := true }, shown.dropLast)
  else s.put p c

/-- Shows bytes. -/
def Style.show (s : Style) (p : Position) (content : Raw) : Position × Raw :=
  let (p, shown) := content.foldl (fun (p, shown) c =>
    let (p, text) := s.next p c
    (p, text.reverse ++ shown)) (p, ([] : Raw))
  (p, shown.reverse)

/-- Whether a file and the place in it where it is read are in front of the place where the output
goes, so that reading would meet what is written. -/
def meetsOutput (w : World) (written : Nat) (source : Connection) : Bool :=
  match source, w.output with
  | .file place position, .file outputPlace outputPosition =>
    place == outputPlace && position < outputPosition + written
  | _, _ => false

/-- What a path is connected to. -/
def connectionOf (w : World) (path : Raw) : Connection :=
  if isInput path then w.input
  else
    match w.tree.locate w.working (toText path) with
    | .ok place => .file place 0
    | .error _ => .closed

/-- The content of an operand, or why it cannot be read. -/
def contentOf (w : World) (written : Nat) (input path : Raw) : Except String Raw := do
  let content ←
    if isInput path then
      match w.inputFault? with
      | some text => .error text
      | none => .ok input
    else (w.read path).mapError faultText
  if meetsOutput w written (connectionOf w path) then throw "input file is output file"
  return content

/-- What is written for operands, what is left of the input, and whether there was a fault.
`written` is the number of bytes that have been written. -/
def gather (s : Style) (w : World) (p : Position) (written : Nat) (input : Raw) :
    List Raw → List (Outlet × Raw) × Raw × Bool
  | [] => (if p.holdsReturn then [(.output, ['\r'])] else [], input, false)
  | path :: rest =>
    match contentOf w written input path with
    | .ok content =>
      let (p, shown) := s.show p content
      let (pieces, left, isFaulty) :=
        gather s w p (written + shown.length) (if isInput path then [] else input) rest
      ((.output, shown) :: pieces, left, isFaulty)
    | .error text =>
      let (pieces, left, _) := gather s w p written input rest
      (w.complaint (shownName path ++ raw (": " ++ text)) :: pieces, left, true)

/-- Writes operands one after another. -/
def writeAll (a : Arguments) (input : Raw) (w : World) : Outcome :=
  let operands := if a.operands.isEmpty then [['-']] else a.operands
  let (pieces, left, isFaulty) := gather (.of a) w ⟨1, true, false, false⟩ 0 input operands
  let closing : List (Outlet × Raw) :=
    if w.input = .closed ∧ operands.contains ['-'] then
      [w.complaint (raw ("closing standard input: " ++ World.closedText))]
    else []
  w.leaving (if isFaulty then 1 else 0) (pieces ++ closing) left

/-- The tool. -/
def concatenate : Program := fun arguments input w =>
  match options.read arguments with
  | .error message => options.misuse w input message
  | .ok a =>
    if a.has Options.help then
      w.leaving 0 [(.output, raw (Help.concatenation (toText w.name)))] input
    else if w.output = .closed then
      w.refuse input 1 ("standard output: " ++ World.closedText)
    else writeAll a input w

end Ambient.Tool.Concatenation
