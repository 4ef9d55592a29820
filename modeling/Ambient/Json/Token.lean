import Ambient.Json.Basic

/-!
# JSON tokens

The lexical half of reading JSON: punctuation, the three words, numbers and strings. Each scanner
looks at the characters that follow and answers a token together with the number of characters
that belong to it.
-/

namespace Ambient.Json

/-- A token. A string whose escapes do not make up characters has no text. -/
inductive Token where
  | openArray
  | closeArray
  | openObject
  | closeObject
  | comma
  | colon
  | text (content : Option String)
  | scalar (value : Json)
deriving Repr, Inhabited

/-- The value a token is by itself. -/
def Token.value? : Token → Option Json
  | .text (some content) => some (.text content)
  | .text none => some .unreadable
  | .scalar value => some value
  | _ => none

/-! ## Numbers -/

/-- The greatest natural number of 64 bits. -/
def greatestWord : Nat := Nat.pow 2 64 - 1

/-- The value of a decimal digit. -/
def digitValue (c : Char) : Nat := c.toNat - '0'.toNat

/-- The significand of the digits read so far, the number of further digits of the integer part,
and the number of digits after the point that count. -/
structure Significand where
  value : Nat
  beyond : Nat
  places : Nat

/-- Appends the digits of the integer part; from the first one on with which the significand
would outgrow 64 bits they only count as places. -/
def Significand.wholeDigits (s : Significand) : List Char → Significand
  | [] => s
  | c :: rest =>
    let next := s.value * 10 + digitValue c
    if greatestWord < next then { s with beyond := rest.length + 1 }
    else Significand.wholeDigits { s with value := next } rest

/-- Appends the digits after the point, up to the first one with which the significand would
outgrow 64 bits. -/
def Significand.fractionDigits (s : Significand) : List Char → Significand
  | [] => s
  | c :: rest =>
    let next := s.value * 10 + digitValue c
    if greatestWord < next then s
    else Significand.fractionDigits { s with value := next, places := s.places + 1 } rest

/-- The parts of a number's text. -/
structure NumberText where
  isNegative : Bool
  whole : List Char
  fraction : Option (List Char)
  exponent : Option (Bool × List Char)

/-- The greatest exponent that is told apart from greater ones. -/
def greatestExponent : Nat := Nat.pow 2 31 - 1

/-- The value of the digits of an exponent. -/
def exponentValue (digits : List Char) : Nat :=
  digits.foldl (fun n c => n * 10 + digitValue c) 0

/-- The double a number's text stands for. -/
def NumberText.magnitude? (t : NumberText) : Option Decimal.Double :=
  let start : Significand := ⟨0, 0, 0⟩
  let s := (start.wholeDigits t.whole).fractionDigits (t.fraction.getD [])
  let shift : Int := (s.beyond : Int) - (s.places : Int)
  match t.exponent with
  | none => Decimal.Double.ofDecimal s.value shift
  | some (isNegative, digits) =>
    let power := exponentValue digits
    if greatestExponent < power then
      if s.value != 0 && !isNegative then none else some Decimal.Double.zero
    else
      Decimal.Double.ofDecimal s.value (if isNegative then shift - power else shift + power)

/-- The value of a number's text: a whole number that fits 64 bits stays whole, except that a
negative zero is a double. -/
def NumberText.value (t : NumberText) : Json :=
  let real := match t.magnitude? with
    | some magnitude => Json.number (.real t.isNegative magnitude)
    | none => .unreadable
  let whole := t.whole.foldl (fun n c => n * 10 + digitValue c) 0
  if t.fraction.isSome || t.exponent.isSome then real
  else if t.isNegative then
    if 0 < whole && whole ≤ Nat.pow 2 63 then .number (.negative whole) else real
  else if whole ≤ greatestWord then .number (.natural whole)
  else real

/-- The digits at the front. -/
def digitRun (cs : List Char) : List Char := cs.takeWhile Char.isDigit

/-- Reads the digits of the integer part: a single zero, or digits that start with another one. -/
def scanWhole (cs : List Char) : Option (List Char) :=
  match digitRun cs with
  | [] => none
  | '0' :: _ => some ['0']
  | digits => some digits

/-- Reads the point and the digits that follow it, if there is a point. -/
def scanFraction : List Char → Option (Option (List Char))
  | '.' :: rest => match digitRun rest with
    | [] => none
    | digits => some (some digits)
  | _ => some none

/-- Reads the exponent, if there is one: whether it has a minus sign, whether it has a sign at
all, and its digits. -/
def scanExponent : List Char → Option (Option (Bool × Bool × List Char))
  | [] => some none
  | c :: rest =>
    if c = 'e' || c = 'E' then
      let (isNegative, isSigned) := match rest with
        | '-' :: _ => (true, true)
        | '+' :: _ => (false, true)
        | _ => (false, false)
      match digitRun (if isSigned then rest.drop 1 else rest) with
      | [] => none
      | digits => some (some (isNegative, isSigned, digits))
    else some none

/-- Reads a number. -/
def scanNumber (cs : List Char) : Option (Json × Nat) := do
  let isNegative := cs.head? == some '-'
  let signLength := if isNegative then 1 else 0
  let unsigned := cs.drop signLength
  let whole ← scanWhole unsigned
  let afterWhole := unsigned.drop whole.length
  let fraction ← scanFraction afterWhole
  let fractionLength := match fraction with
    | some digits => digits.length + 1
    | none => 0
  let exponent ← scanExponent (afterWhole.drop fractionLength)
  let exponentLength := match exponent with
    | some (_, isSigned, digits) => digits.length + (if isSigned then 2 else 1)
    | none => 0
  let parts : NumberText := {
    isNegative := isNegative
    whole := whole
    fraction := fraction
    exponent := exponent.map fun (isNegative, _, digits) => (isNegative, digits) }
  return (parts.value, signLength + whole.length + fractionLength + exponentLength)

/-! ## Strings -/

/-- What a string's text is made of: characters, and escaped units of 16 bits. -/
inductive Piece where
  | char (c : Char)
  | unit (n : Nat)
deriving Repr, DecidableEq

/-- The value of a hexadecimal digit. -/
def hexValue? (c : Char) : Option Nat :=
  if '0' ≤ c && c ≤ '9' then some (c.toNat - '0'.toNat)
  else if 'a' ≤ c && c ≤ 'f' then some (c.toNat - 'a'.toNat + 10)
  else if 'A' ≤ c && c ≤ 'F' then some (c.toNat - 'A'.toNat + 10)
  else none

/-- The value of four hexadecimal digits. -/
def hexUnit? (a b c d : Char) : Option Nat := do
  return (((← hexValue? a) * 16 + (← hexValue? b)) * 16 + (← hexValue? c)) * 16 + (← hexValue? d)

/-- The character that a letter after a backslash stands for. -/
def escapedChar? (c : Char) : Option Char :=
  match c with
  | '\x22' => some '\x22'
  | '\\' => some '\\'
  | '/' => some '/'
  | 'b' => some '\x08'
  | 'f' => some '\x0c'
  | 'n' => some '\n'
  | 'r' => some '\r'
  | 't' => some '\t'
  | _ => none

/-- Reads the pieces of a string up to the quote that closes it, which counts as read. The first
`skip` characters belong to a piece that has been read already. -/
def scanPieces : Nat → List Char → Option (List Piece × Nat)
  | _, [] => none
  | skip + 1, _ :: rest => do
    let (pieces, count) ← scanPieces skip rest
    return (pieces, count + 1)
  | 0, c :: rest =>
    if c = '\x22' then some ([], 1)
    else if c = '\\' then
      match rest with
      | 'u' :: h₁ :: h₂ :: h₃ :: h₄ :: _ => do
        let unit ← hexUnit? h₁ h₂ h₃ h₄
        let (pieces, count) ← scanPieces 5 rest
        return (.unit unit :: pieces, count + 1)
      | letter :: _ => do
        let escaped ← escapedChar? letter
        let (pieces, count) ← scanPieces 1 rest
        return (.char escaped :: pieces, count + 1)
      | [] => none
    else if c.toNat < 0x20 then none
    else do
      let (pieces, count) ← scanPieces 0 rest
      return (.char c :: pieces, count + 1)

/-- The characters of the pieces; a high surrogate and the low one that follows it directly are
one character, and no other surrogate stands for one. -/
def charsOfPieces : List Piece → Option (List Char)
  | [] => some []
  | .char c :: rest => do return c :: (← charsOfPieces rest)
  | .unit high :: .unit low :: rest =>
    if 0xd800 ≤ high && high ≤ 0xdbff && 0xdc00 ≤ low && low ≤ 0xdfff then do
      let code := 0x10000 + (high - 0xd800) * 0x400 + (low - 0xdc00)
      return Char.ofNat code :: (← charsOfPieces rest)
    else if 0xd800 ≤ high && high ≤ 0xdfff then none
    else do return Char.ofNat high :: (← charsOfPieces (.unit low :: rest))
  | .unit high :: rest =>
    if 0xd800 ≤ high && high ≤ 0xdfff then none
    else do return Char.ofNat high :: (← charsOfPieces rest)

/-- Reads a string whose opening quote has been read. -/
def scanText (cs : List Char) : Option (Token × Nat) := do
  let (pieces, count) ← scanPieces 0 cs
  return (.text ((charsOfPieces pieces).map String.ofList), count)

/-! ## All tokens -/

/-- Whether the character may stand between tokens. -/
def isSpace (c : Char) : Bool :=
  c = ' ' || c = '\n' || c = '\t' || c = '\r'

/-- The token that starts with the character `c`, and the number of characters of `rest` that
belong to it. -/
def scanToken (c : Char) (rest : List Char) : Option (Token × Nat) :=
  match c with
  | '[' => some (.openArray, 0)
  | ']' => some (.closeArray, 0)
  | '\x7b' => some (.openObject, 0)
  | '\x7d' => some (.closeObject, 0)
  | ',' => some (.comma, 0)
  | ':' => some (.colon, 0)
  | '\x22' => scanText rest
  | 't' => if "rue".toList.isPrefixOf rest then some (.scalar (.bool true), 3) else none
  | 'f' => if "alse".toList.isPrefixOf rest then some (.scalar (.bool false), 4) else none
  | 'n' => if "ull".toList.isPrefixOf rest then some (.scalar .null, 3) else none
  | _ => (scanNumber (c :: rest)).map fun (value, count) => (.scalar value, count - 1)

/-- The tokens of the characters; the first `skip` ones belong to a token that has been read
already. -/
def tokensFrom : Nat → List Char → Option (List Token)
  | _, [] => some []
  | skip + 1, _ :: rest => tokensFrom skip rest
  | 0, c :: rest =>
    if isSpace c then tokensFrom 0 rest
    else do
      let (token, count) ← scanToken c rest
      return token :: (← tokensFrom count rest)

/-- The tokens of a text. -/
def tokens (s : String) : Option (List Token) := tokensFrom 0 s.toList

end Ambient.Json
