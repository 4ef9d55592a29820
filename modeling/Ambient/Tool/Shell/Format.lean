import Ambient.Decimal.Shortest
import Ambient.Tool.Shell.Arithmetic

/-!
# Formats

What is written for words, as they are or as a format asks: escapes of bytes, and slots for texts
and numbers with a width. A format is used as often as there are words for it.
-/

/-!
## Real numbers in arguments

Reads numbers with a fraction or a power, in decimal or hexadecimal digits, as doubles, and writes
doubles with as many digits as are asked for. Both are exact: the number that is read is the nearest
double, and what is written is the nearest of all texts with so many digits.
-/

namespace Ambient.Tool.Shell

open Decimal (Double Shortest)

/-- A number with its sign: a double, one beyond all doubles, or none at all. -/
inductive Real where
  | finite (isNegative : Bool) (size : Double)
  | infinite (isNegative : Bool)
  | notNumber (isNegative : Bool)
deriving DecidableEq, Repr, Inhabited

namespace Real

/-! ## Reading -/

/-- The number that is a natural one. -/
def ofNat (n : Nat) : Real :=
  match Double.ofNat n with
  | some size => .finite false size
  | none => .infinite false

/-- What characters start with in any case of letters, and the rest. -/
def word? (word : String) (cs : Raw) : Option Raw :=
  let length := word.length
  if (cs.take length).map Char.toLower = word.toList then some (cs.drop length) else none

/-- The digits before and behind a point that characters start with, and the rest. There has to be
a digit. -/
def fraction? (base : Nat) (cs : Raw) : Option (Raw × Raw × Raw) :=
  let isFitting (c : Char) : Bool := Sum.digit c < base
  let whole := cs.takeWhile isFitting
  let rest := cs.drop whole.length
  let (part, rest) := match rest with
    | '.' :: more => (more.takeWhile isFitting, more.dropWhile isFitting)
    | _ => ([], rest)
  if whole.isEmpty && part.isEmpty then none else some (whole, part, rest)

/-- The power behind a letter that characters start with, and the rest. -/
def power (letter : Char) (cs : Raw) : Int × Raw :=
  match cs with
  | c :: rest =>
    let (isNegative, digits) := match rest with
      | '-' :: digits => (true, digits)
      | '+' :: digits => (false, digits)
      | digits => (false, digits)
    if c.toLower = letter ∧ digits.head?.any Char.isDigit then
      let (size, after) := Sum.digitsFrom 10 digits
      (if isNegative then -size else size, after)
    else (0, cs)
  | [] => (0, cs)

/-- The double nearest to `digits` with a power of a base, and whether it is out of range: too large
for a double, or too small for one with all its digits. Powers beyond all doubles are not worked
out. -/
def nearest (isNegative : Bool) (digits : Nat) (base : Nat) (exponent : Int) : Real × Bool :=
  let length : Int := Nat.log2 digits / Nat.log2 base
  let zero : Real := .finite isNegative Double.zero
  if digits = 0 then (zero, false)
  else if 1200 < exponent + length then (.infinite isNegative, true)
  else if exponent + length < -1400 then (zero, true)
  else
    let (num, den) :=
      if 0 ≤ exponent then (digits * Nat.pow base exponent.toNat, 1)
      else (digits, Nat.pow base (-exponent).toNat)
    match Double.ofQuotient num den with
    | none => (.infinite isNegative, true)
    | some size =>
      let (a, b) := size.toQuotient
      (.finite isNegative size, size.mantissa < Nat.pow 2 52 && a * den != num * b)

/-- The number that characters start with behind its sign, with whether it is out of range, and the
rest. -/
def unsigned? (isNegative : Bool) (cs : Raw) : Option (Real × Bool × Raw) :=
  let number (base step : Nat) (powerBase : Nat) (letter : Char) (cs : Raw) :
      Option (Real × Bool × Raw) := do
    let (whole, part, rest) ← fraction? base cs
    let digits := (Sum.digitsFrom base (whole ++ part)).1
    let (exponent, rest) := power letter rest
    let (value, isBeyond) :=
      nearest isNegative digits powerBase (exponent - (step * part.length : Nat))
    return (value, isBeyond, rest)
  let hexadecimal? := (word? "0x" cs).bind (number 16 4 2 'p')
  match word? "infinity" cs, word? "inf" cs, word? "nan" cs, hexadecimal? with
  | some rest, _, _, _ | none, some rest, _, _ => some (.infinite isNegative, false, rest)
  | _, _, some rest, _ =>
    let isMark (c : Char) : Bool := c.isAlphanum || c == '_'
    let after := match rest with
      | '(' :: more =>
        match more.dropWhile isMark with
        | ')' :: after => after
        | _ => rest
      | _ => rest
    some (.notNumber isNegative, false, after)
  | _, _, _, some found => some found
  | _, _, _, none => number 10 1 10 'e' cs

/-- The number that a word starts with, behind blanks, with whether it is out of range, and the
rest. -/
def read? (word : Raw) : Option (Real × Bool × Raw) :=
  match word.dropWhile fun c => c == ' ' || ('\t' ≤ c && c ≤ '\r') with
  | '-' :: cs => unsigned? true cs
  | '+' :: cs => unsigned? false cs
  | cs => unsigned? false cs

/-! ## Writing -/

/-- Digits in front of `count` others behind a point. The point stands only in front of digits,
unless it is kept. -/
def pointed (keepsPoint : Bool) (count : Nat) (digits : Raw) : Raw :=
  let padded := List.replicate (count + 1 - digits.length) '0' ++ digits
  let whole := padded.take (padded.length - count)
  whole ++ (if count = 0 && !keepsPoint then [] else ['.']) ++ padded.drop whole.length

/-- The digits of a number in a base. -/
def digits (base n : Nat) : Raw := Nat.toDigits base n

/-- The size with a number of digits behind the point. -/
def fixed (keepsPoint : Bool) (places : Nat) (size : Double) : Raw :=
  let (num, den) := size.toQuotient
  pointed keepsPoint places (digits 10 (Double.roundQuotient (num * Nat.pow 10 places) den))

/-- The digits of a size with one in front of a number of others, and the power of ten of the first
one. -/
def leading (places : Nat) (size : Double) : Nat × Int :=
  if size.isZero then (0, 0)
  else
    let (num, den) := size.toQuotient
    let at_ (exponent : Int) : Nat :=
      let shift := (places : Int) - exponent
      if 0 ≤ shift then Double.roundQuotient (num * Nat.pow 10 shift.toNat) den
      else Double.roundQuotient num (den * Nat.pow 10 (-shift).toNat)
    let exponent := Shortest.magnitude size
    let found := at_ exponent
    if found < Nat.pow 10 (places + 1) then (found, exponent)
    else (at_ (exponent + 1), exponent + 1)

/-- A power with its sign and at least two digits. -/
def powerText (least : Nat) (exponent : Int) : Raw :=
  let digits := (Nat.repr exponent.natAbs).toList
  (if exponent < 0 then '-' else '+') :: List.replicate (least - digits.length) '0' ++ digits

/-- The size with one digit in front of the point, and a power of ten. -/
def scientific (keepsPoint : Bool) (places : Nat) (size : Double) : Raw :=
  let (found, exponent) := leading places size
  pointed keepsPoint places (digits 10 found) ++ 'e' :: powerText 2 exponent

/-- A text with a point without the zeros behind it. -/
def withoutZeros (text : Raw) : Raw :=
  if text.contains '.' then
    ((text.reverse.dropWhile fun c => c == '0').dropWhile fun c => c == '.').reverse
  else text

/-- The size with a number of digits in all, in the shorter of both ways. -/
def general (keepsZeros : Bool) (count : Nat) (size : Double) : Raw :=
  let count := max count 1
  let exponent := (leading (count - 1) size).2
  let trimmed (text : Raw) : Raw := if keepsZeros then text else withoutZeros text
  if -4 ≤ exponent ∧ exponent < count then
    trimmed (fixed keepsZeros ((count : Int) - 1 - exponent).toNat size)
  else
    let text := scientific keepsZeros (count - 1) size
    let front := text.takeWhile fun c => c != 'e'
    trimmed front ++ text.drop front.length

/-- The size in hexadecimal digits with a power of two; all digits are given that are needed unless
their number is told. -/
def hexadecimal (keepsPoint : Bool) (places : Option Nat) (size : Double) : Raw :=
  let isNormal := Nat.pow 2 52 ≤ size.mantissa
  let exponent : Int := if size.isZero then 0 else size.exponent + 52
  let below := size.mantissa % Nat.pow 2 52
  let needed : Raw := ((digits 16 (Nat.pow 2 52 + below)).tail.reverse.dropWhile
    fun c => c == '0').reverse
  let text := match places with
    | some places =>
      pointed keepsPoint places
        (digits 16 (Double.roundQuotient (size.mantissa * Nat.pow 16 places) (Nat.pow 2 52)))
    | none =>
      pointed keepsPoint needed.length ((if isNormal then '1' else '0') :: needed)
  text ++ 'p' :: powerText 1 exponent

/-- The text of a size for a letter of a format in lower case. -/
def sizeText (letter : Char) (isMarked : Bool) (precision : Option Nat) (size : Double) : Raw :=
  let places := precision.getD 6
  match letter with
  | 'f' => fixed isMarked places size
  | 'e' => scientific isMarked places size
  | 'g' => general isMarked places size
  | _ => hexadecimal isMarked precision size

end Real

end Ambient.Tool.Shell

namespace Ambient.Tool.Shell

/-! ## Escapes -/

/-- Whether a character is an octal digit. -/
def isOctalDigit (c : Char) : Bool := '0' ≤ c && c ≤ '7'

/-- The byte that an escape stands for, after its backslash, and the rest. What is no escape leaves
the backslash. -/
def escapeFrom (cs : Raw) : Char × Raw :=
  match cs with
  | 'a' :: rest => ('\x07', rest)
  | 'b' :: rest => ('\x08', rest)
  | 'e' :: rest => ('\x1b', rest)
  | 'f' :: rest => ('\x0c', rest)
  | 'n' :: rest => ('\n', rest)
  | 'r' :: rest => ('\r', rest)
  | 't' :: rest => ('\t', rest)
  | 'v' :: rest => ('\x0b', rest)
  | '\\' :: rest => ('\\', rest)
  | _ =>
    let digits := (cs.take 3).takeWhile isOctalDigit
    if digits.isEmpty then ('\\', cs)
    else
      let value := digits.foldl (fun n c => n * 8 + Sum.digit c) 0
      (Char.ofNat (value % 256), cs.drop digits.length)

/-- The bytes of a text with escapes, up to the one that ends all output; the answer says whether it
was met. Octal digits may follow a zero. The bound is the number of characters. -/
def unescapedFrom : Nat → Raw → Raw × Bool
  | 0, _ | _, [] => ([], false)
  | bound + 1, '\\' :: rest =>
    match rest with
    | 'c' :: _ => ([], true)
    | _ =>
      let (c, after) := match rest with
        | '0' :: d :: _ => escapeFrom (if isOctalDigit d then rest.tail else rest)
        | _ => escapeFrom rest
      let (text, isOver) := unescapedFrom bound after
      (c :: text, isOver)
  | bound + 1, c :: rest =>
    let (text, isOver) := unescapedFrom bound rest
    (c :: text, isOver)

/-- The bytes of a text with escapes. -/
def unescaped (cs : Raw) : Raw × Bool := unescapedFrom cs.length cs

/-- Writes words with blanks between them. -/
def echo (words : List Raw) : Raw :=
  let (hasEnd, words) := match words with
    | ['-', 'n'] :: rest => (false, rest)
    | words => (true, words)
  let (text, isOver) := unescaped ([' '].intercalate words)
  text ++ if hasEnd && !isOver then ['\n'] else []

/-! ## Slots -/

/-- A slot of a format: its flags, the least width, and the precision. -/
structure Slot where
  flags : Raw
  width : Nat
  precision : Option Nat
deriving Repr, Inhabited

namespace Slot

/-- Whether a slot has a flag. -/
def has (p : Slot) (flag : Char) : Bool := p.flags.contains flag

/-- Fills a text up to the width. -/
def fill (p : Slot) (text : Raw) : Raw :=
  let blanks := List.replicate (p.width - text.length) ' '
  if p.has '-' then text ++ blanks else blanks ++ text

/-- Shows a text. -/
def showText (p : Slot) (text : Raw) : Raw :=
  p.fill (match p.precision with
    | some limit => text.take limit
    | none => text)

/-- Shows the digits of a number behind its sign. -/
def showDigits (p : Slot) (sign digits : Raw) : Raw :=
  let least := match p.precision with
    | some least => least
    | none => if p.has '0' && !p.has '-' then p.width - sign.length else 1
  let digits := if digits = ['0'] ∧ p.precision = some 0 then [] else digits
  p.fill (sign ++ List.replicate (least - digits.length) '0' ++ digits)

/-- Shows a number with its sign. -/
def showSigned (p : Slot) (value : Int) : Raw :=
  let sign : Raw :=
    if value < 0 then ['-'] else if p.has '+' then ['+'] else if p.has ' ' then [' '] else []
  p.showDigits sign (Nat.repr value.natAbs).toList

/-- Shows a real number. What is no double is never filled with zeros. -/
def showReal (p : Slot) (letter : Char) (value : Real) : Raw :=
  let cased (text : Raw) : Raw := if letter.isUpper then text.map Char.toUpper else text
  let lower := letter.toLower
  let signOf (isNegative : Bool) : Raw :=
    if isNegative then ['-'] else if p.has '+' then ['+'] else if p.has ' ' then [' '] else []
  match value with
  | .infinite isNegative => p.fill (signOf isNegative ++ cased (raw "inf"))
  | .notNumber isNegative => p.fill (signOf isNegative ++ cased (raw "nan"))
  | .finite isNegative size =>
    let text := Real.sizeText lower (p.has '#') p.precision size
    let front := signOf isNegative ++ if lower = 'a' then raw "0x" else []
    let zeros := if p.has '0' && !p.has '-' then p.width - front.length - text.length else 0
    p.fill (cased (front ++ List.replicate zeros '0' ++ text))

/-- Shows the bits of a number in a base. -/
def showUnsigned (p : Slot) (letter : Char) (value : Nat) : Raw :=
  let digits := match letter with
    | 'o' => Nat.toDigits 8 value
    | 'x' => Nat.toDigits 16 value
    | 'X' => (Nat.toDigits 16 value).map Char.toUpper
    | _ => (Nat.repr value).toList
  if p.has '#' && letter = 'o' && digits.head? ≠ some '0' then p.showDigits [] ('0' :: digits)
  else if p.has '#' && (letter = 'x' || letter = 'X') && value ≠ 0 then
    p.showDigits ['0', letter] digits
  else p.showDigits [] digits

end Slot

/-! ## Formats -/

/-- What a format has come to: what it has written, the warnings, the words that are left, and
whether it has ended, by a fault or an escape. -/
structure Printing where
  output : Raw
  warnings : List String
  words : List Raw
  fault : Option String
  isOver : Bool
deriving Repr, Inhabited

namespace Printing

/-- Writes a text. -/
def write (p : Printing) (text : Raw) : Printing := { p with output := p.output ++ text }

/-- Takes the next word, or an empty one. -/
def take (p : Printing) : Raw × Printing := (p.words.headD [], { p with words := p.words.tail })

/-- Takes the next word as a number, which a quoted character is as well. -/
def takeNumber (p : Printing) (isSigned : Bool) : Int × Printing :=
  let (word, p) := p.take
  match word with
  | '\x27' :: rest | '\x22' :: rest => ((rest.headD '\x00').toNat, p)
  | _ =>
    let isBlank (c : Char) : Bool := c == ' ' || ('\t' ≤ c && c ≤ '\r')
    let cs := word.dropWhile isBlank
    let (isNegative, cs) := match cs with
      | '-' :: rest => (true, rest)
      | '+' :: rest => (false, rest)
      | _ => (false, cs)
    let (size, rest) := Sum.numberFrom cs
    let warn (text : String) : Printing :=
      { p with warnings := p.warnings ++ [toText word ++ ": " ++ text] }
    if !cs.head?.any Char.isDigit then
      (0, if word.isEmpty then p else warn "expected numeric value")
    else
      let greatest :=
        if !isSigned then Nat.pow 2 64 - 1
        else if isNegative then Nat.pow 2 63 else Nat.pow 2 63 - 1
      let kept : Nat := min size greatest
      let value : Int := if isNegative then -kept else kept
      (value,
        if !rest.isEmpty then warn "not completely converted"
        else if greatest < size then warn "Numerical result out of range"
        else p)

/-- Takes the next word as a real number, which a quoted character is as well. -/
def takeReal (p : Printing) : Real × Printing :=
  let (word, p) := p.take
  let warn (text : String) : Printing :=
    { p with warnings := p.warnings ++ [toText word ++ ": " ++ text] }
  match word with
  | '\x27' :: rest | '\x22' :: rest => (.ofNat (rest.headD '\x00').toNat, p)
  | _ =>
    match Real.read? word with
    | none => (.ofNat 0, if word.isEmpty then p else warn "expected numeric value")
    | some (value, isBeyond, rest) =>
      (value,
        if !rest.isEmpty then warn "not completely converted"
        else if isBeyond then warn "Numerical result out of range"
        else p)

/-- Takes the width or the precision of a slot, from the words if it is a star, and then in 32
bits. -/
def takeSize (p : Printing) (format : Raw) : Option Int × Printing × Raw :=
  match format with
  | '*' :: rest =>
    let (value, p) := p.takeNumber true
    (some (value.bmod (Nat.pow 2 32)), p, rest)
  | _ =>
    let digits := format.takeWhile Char.isDigit
    let value := digits.foldl (fun n c => n * 10 + Sum.digit c) 0
    (if digits.isEmpty then none else some value, p, format.drop digits.length)

/-- Shows the next word in a slot. -/
def showSlot (p : Printing) (slot : Slot) (letter : Char) (written : Raw) : Printing :=
  match letter with
  | 's' => let (word, p) := p.take; p.write (slot.showText word)
  | 'c' => let (word, p) := p.take; p.write (slot.fill [word.headD '\x00'])
  | 'b' =>
    let (word, p) := p.take
    let (text, isOver) := unescaped word
    { p.write (slot.showText text) with isOver := isOver }
  | 'd' | 'i' => let (value, p) := p.takeNumber true; p.write (slot.showSigned value)
  | 'o' | 'u' | 'x' | 'X' =>
    let (value, p) := p.takeNumber false
    p.write (slot.showUnsigned letter (Sum.bits value))
  | 'a' | 'A' | 'e' | 'E' | 'f' | 'F' | 'g' | 'G' =>
    let (value, p) := p.takeReal
    p.write (slot.showReal letter value)
  | _ => { p with fault := some (toText written ++ ": invalid directive") }

/-- Writes a format once; the bound is the number of its characters. -/
def once (p : Printing) : Nat → Raw → Printing
  | 0, _ | _, [] => p
  | bound + 1, '\\' :: rest =>
    let (c, after) := escapeFrom rest
    (p.write [c]).once bound after
  | bound + 1, '%' :: '%' :: rest => (p.write ['%']).once bound rest
  | bound + 1, '%' :: rest =>
    let isFlag (c : Char) : Bool := "#-+ 0".toList.contains c
    let flags := rest.takeWhile isFlag
    let (width, p, after) := p.takeSize (rest.dropWhile isFlag)
    let (precision, p, after) := match after with
      | '.' :: more =>
        let (size, p, after) := p.takeSize more
        (some (size.getD 0), p, after)
      | _ => (none, p, after)
    match after with
    | [] => { p with fault := some "missing format character" }
    | letter :: after =>
      let width := width.getD 0
      let slot : Slot :=
        ⟨if width < 0 then '-' :: flags else flags, width.natAbs,
          precision.bind fun size => if size < 0 then none else some size.toNat⟩
      let written := '%' :: rest.take (rest.length - after.length)
      let p := p.showSlot slot letter written
      if p.fault.isSome || p.isOver then p else p.once bound after
  | bound + 1, c :: rest => (p.write [c]).once bound rest

/-- Writes a format as often as there are words for it; the bound is their number. -/
def all (format : Raw) : Nat → Printing → Printing
  | 0, p => p
  | bound + 1, p =>
    let next := p.once format.length format
    if next.fault.isSome || next.isOver || next.words.isEmpty
      || next.words.length = p.words.length then next
    else all format bound next

end Printing

/-- Writes words in a format. -/
def formatted (format : Raw) (words : List Raw) : Printing :=
  Printing.all format (words.length + 1) ⟨[], [], words, none, false⟩

end Ambient.Tool.Shell
