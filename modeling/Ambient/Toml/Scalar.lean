import Ambient.Toml.Basic

/-!
# Words and strings of TOML

Values without parts. A word is a maximal run of the characters of which numbers, moments of time
and truth values are written, and is classified as a whole. Strings have four forms, of which two
go over several lines.
-/

namespace Ambient.Toml

/-- A reader answers what it has read and the characters that are left. -/
abbrev Reader (α : Type) := StateT (List Char) Option α

/-- The next character, which stays. -/
def next? : Reader (Option Char) := do return (← get).head?

/-- Reads one character. -/
def skip : Reader Unit := modify List.tail

/-- Reads the given character. -/
def expect (c : Char) : Reader Unit := fun cs =>
  match cs with
  | first :: rest => if first = c then some ((), rest) else none
  | [] => none

/-- Reads the longest run of characters that pass a test. -/
def run (test : Char → Bool) : Reader (List Char) := fun cs =>
  some (cs.takeWhile test, cs.dropWhile test)

/-- Whether a character separates words on a line. -/
def isSpace (c : Char) : Bool := c == ' ' || c == '\t'

/-- Whether a character may stand in comments and quotes. -/
def isPrintable (c : Char) : Bool := c == '\t' || (0x20 ≤ c.toNat && c.toNat != 0x7f)

/-! ## Numbers -/

/-- Whether the characters are digits, where single underscores may stand between them. -/
def isGrouped (isDigit : Char → Bool) : List Char → Bool
  | [] => false
  | [c] => isDigit c
  | c :: '_' :: rest => isDigit c && isGrouped isDigit rest
  | c :: rest => isDigit c && isGrouped isDigit rest

/-- The number that digits stand for in a base. -/
def digitsValue (base : Nat) (cs : List Char) : Nat :=
  cs.foldl (fun value c =>
    if c = '_' then value
    else if c.isDigit then value * base + (c.toNat - '0'.toNat)
    else value * base + (c.toLower.toNat - 'a'.toNat + 10)) 0

/-- Whether a character is a hexadecimal digit. -/
def isHexDigit (c : Char) : Bool :=
  c.isDigit || ('a' ≤ c && c ≤ 'f') || ('A' ≤ c && c ≤ 'F')

/-- The sign in front of a number, and the rest. -/
def splitSign : List Char → Bool × List Char
  | '-' :: rest => (true, rest)
  | '+' :: rest => (false, rest)
  | cs => (false, cs)

/-- Whether the characters are the decimal digits of a number without needless zeros. -/
def isWhole (cs : List Char) : Bool :=
  isGrouped Char.isDigit cs && (cs.length == 1 || cs.head? != some '0')

/-- The characters up to the first that passes a test, and those from there on. -/
def cutAt (test : Char → Bool) (cs : List Char) : List Char × List Char :=
  (cs.takeWhile fun c => !test c, cs.dropWhile fun c => !test c)

/-- Whether a word is an integer of 64 bits. -/
def isInteger (word : List Char) : Bool :=
  let within (isDigit : Char → Bool) (base : Nat) (digits : List Char) : Bool :=
    isGrouped isDigit digits && digitsValue base digits < Nat.pow 2 63
  match word with
  | '0' :: 'x' :: digits => within isHexDigit 16 digits
  | '0' :: 'o' :: digits => within (fun c => '0' ≤ c && c ≤ '7') 8 digits
  | '0' :: 'b' :: digits => within (fun c => c == '0' || c == '1') 2 digits
  | _ =>
    let (isNegative, digits) := splitSign word
    isWhole digits && digitsValue 10 digits < Nat.pow 2 63 + (if isNegative then 1 else 0)

/-- The numbers from which on a decimal number is rounded beyond the doubles. -/
def doubleLimit : Nat := Nat.pow 2 1024 - Nat.pow 2 970

/-- Whether a number with the given digits and exponent is beyond the doubles; numbers that are far
from the limit are told by their length alone. -/
def isBeyondDoubles (digits : List Char) (exponent : Int) : Bool :=
  let value := digitsValue 10 digits
  let length : Int := (Nat.repr value).length + exponent
  if value = 0 ∨ length < 300 then false
  else if 310 < length then true
  else if exponent < 0 then doubleLimit * Nat.pow 10 (-exponent).toNat ≤ value
  else doubleLimit ≤ value * Nat.pow 10 exponent.toNat

/-- The exponent of a fraction, or nothing if it is malformed. -/
def exponentOf? : List Char → Option Int
  | [] => some 0
  | _ :: rest =>
    let (isNegative, digits) := splitSign rest
    if isGrouped Char.isDigit digits then
      let value : Int := digitsValue 10 digits
      some (if isNegative then -value else value)
    else none

/-- Whether a word is a fraction or has an exponent, and is not beyond the positive doubles. -/
def isFraction (word : List Char) : Bool :=
  let (isNegative, rest) := splitSign word
  let (whole, rest) := cutAt (fun c => c == '.' || c == 'e' || c == 'E') rest
  let (places, exponent) := match rest with
    | '.' :: rest => cutAt (fun c => c == 'e' || c == 'E') rest
    | rest => ([], rest)
  let hasPlaces := rest.head? == some '.'
  match exponentOf? exponent with
  | none => false
  | some e =>
    let shift : Int := (places.filter Char.isDigit).length
    !rest.isEmpty && isWhole whole && (!hasPlaces || isGrouped Char.isDigit places)
      && (isNegative || !isBeyondDoubles (whole ++ places) (e - shift))

/-- Whether a word stands for no finite number. -/
def isSpecial (word : List Char) : Bool :=
  let rest := String.ofList (splitSign word).2
  rest == "inf" || rest == "nan"

/-! ## Moments of time -/

/-- Whether the characters are two digits for a number between two limits. -/
def isPair (low high : Nat) (a b : Char) : Bool :=
  a.isDigit && b.isDigit && low ≤ digitsValue 10 [a, b] && digitsValue 10 [a, b] ≤ high

/-- The number of days of a month. -/
def daysOf (year month : Nat) : Nat :=
  if month = 2 then
    if year % 4 = 0 ∧ (year % 100 ≠ 0 ∨ year % 400 = 0) then 29 else 28
  else if month = 4 ∨ month = 6 ∨ month = 9 ∨ month = 11 then 30
  else 31

/-- What follows a date at the start of the characters, if there is one. -/
def afterDate? : List Char → Option (List Char)
  | y₁ :: y₂ :: y₃ :: y₄ :: '-' :: m₁ :: m₂ :: '-' :: d₁ :: d₂ :: rest =>
    let year := digitsValue 10 [y₁, y₂, y₃, y₄]
    if [y₁, y₂, y₃, y₄].all Char.isDigit && isPair 1 12 m₁ m₂
        && isPair 1 (daysOf year (digitsValue 10 [m₁, m₂])) d₁ d₂ then some rest
    else none
  | _ => none

/-- What follows a time of day at the start of the characters, if there is one. -/
def afterTime? : List Char → Option (List Char)
  | h₁ :: h₂ :: ':' :: m₁ :: m₂ :: ':' :: s₁ :: s₂ :: rest =>
    if isPair 0 23 h₁ h₂ && isPair 0 59 m₁ m₂ && isPair 0 60 s₁ s₂ then
      match rest with
      | '.' :: digits =>
        if (digits.takeWhile Char.isDigit).isEmpty then none
        else some (digits.dropWhile Char.isDigit)
      | rest => some rest
    else none
  | _ => none

/-- Whether the characters are the distance from universal time. -/
def isOffset : List Char → Bool
  | ['Z'] | ['z'] => true
  | [sign, h₁, h₂, ':', m₁, m₂] =>
    (sign == '+' || sign == '-') && isPair 0 23 h₁ h₂ && isPair 0 59 m₁ m₂
  | _ => false

/-- Whether the characters are a time of day, with the distance from universal time if need be. -/
def isTimeWithOffset (cs : List Char) : Bool :=
  match afterTime? cs with
  | some rest => rest.isEmpty || isOffset rest
  | none => false

/-- Whether a word is a moment of time. -/
def isMoment (word : List Char) : Bool :=
  match afterDate? word with
  | some [] => true
  | some (c :: time) => (c == 'T' || c == 't') && isTimeWithOffset time
  | none => afterTime? word == some []

/-! ## Words -/

/-- Whether a character may stand in a word. -/
def isWordPart (c : Char) : Bool :=
  c.isAlphanum || c == '_' || c == '-' || c == '+' || c == '.' || c == ':'

/-- The value of a word. -/
def ofWord? (word : List Char) : Option Toml :=
  let written := String.ofList word
  if written = "true" then some (.bool true)
  else if written = "false" then some (.bool false)
  else if isInteger word || isFraction word || isSpecial word then some (.number written)
  else if isMoment word then some (.moment written)
  else none

/-- Reads a word. A date may be followed by a blank and a time of day. -/
def word : Reader Toml := fun cs =>
  let first := cs.takeWhile isWordPart
  let rest := cs.dropWhile isWordPart
  match afterDate? first, rest with
  | some [], ' ' :: more =>
    let time := more.takeWhile isWordPart
    if time.isEmpty then some (.moment (String.ofList first), rest)
    else if isTimeWithOffset time then
      some (.moment (String.ofList (first ++ ' ' :: time)), more.dropWhile isWordPart)
    else none
  | _, _ => (ofWord? first).map fun value => (value, rest)

/-! ## Strings -/

/-- The character with a code written in hexadecimal digits. -/
def charOfHex? (digits : List Char) : Option Char :=
  if digits.all isHexDigit then
    let code := digitsValue 16 digits
    if h : code.isValidChar then some (Char.ofNatAux code h) else none
  else none

/-- The character for the letter of an escape. -/
def escaped? : Char → Option Char
  | 'b' => some '\x08'
  | 't' => some '\t'
  | 'n' => some '\n'
  | 'f' => some '\x0c'
  | 'r' => some '\r'
  | '\x22' => some '\x22'
  | '\\' => some '\\'
  | _ => none

/-- Puts a character in front of what a reader of quoted text has read. -/
def before (c : Char) (read : Option (List Char × List Char)) : Option (List Char × List Char) :=
  read.map fun (content, rest) => (c :: content, rest)

/-- Reads a double-quoted text on one line, after its opening quote. -/
def basicLine : List Char → Option (List Char × List Char)
  | [] => none
  | '\x22' :: rest => some ([], rest)
  | '\\' :: 'u' :: a :: b :: c :: d :: rest => do
    before (← charOfHex? [a, b, c, d]) (basicLine rest)
  | '\\' :: 'U' :: a :: b :: c :: d :: e :: f :: g :: h :: rest => do
    before (← charOfHex? [a, b, c, d, e, f, g, h]) (basicLine rest)
  | '\\' :: c :: rest => do before (← escaped? c) (basicLine rest)
  | c :: rest => if isPrintable c then before c (basicLine rest) else none

/-- Whether only blanks are left on the line. -/
def endsLine (cs : List Char) : Bool :=
  match cs.dropWhile isSpace with
  | '\n' :: _ => true
  | '\r' :: '\n' :: _ => true
  | _ => false

/-- Reads a double-quoted text on several lines, after its opening quotes; after a backslash at
the end of a line, blanks and line ends are left out up to the next other character. -/
def basicLines (isFolding : Bool) : List Char → Option (List Char × List Char)
  | [] => none
  | '\n' :: rest =>
    if isFolding then basicLines true rest else before '\n' (basicLines false rest)
  | '\r' :: '\n' :: rest =>
    if isFolding then basicLines true rest else before '\n' (basicLines false rest)
  | '\x22' :: '\x22' :: '\x22' :: '\x22' :: '\x22' :: rest => some (['\x22', '\x22'], rest)
  | '\x22' :: '\x22' :: '\x22' :: '\x22' :: rest => some (['\x22'], rest)
  | '\x22' :: '\x22' :: '\x22' :: rest => some ([], rest)
  | '\\' :: 'u' :: a :: b :: c :: d :: rest => do
    before (← charOfHex? [a, b, c, d]) (basicLines false rest)
  | '\\' :: 'U' :: a :: b :: c :: d :: e :: f :: g :: h :: rest => do
    before (← charOfHex? [a, b, c, d, e, f, g, h]) (basicLines false rest)
  | '\\' :: c :: rest =>
    if endsLine (c :: rest) then basicLines true (c :: rest)
    else do before (← escaped? c) (basicLines false rest)
  | c :: rest =>
    if isFolding && isSpace c then basicLines true rest
    else if isPrintable c then before c (basicLines false rest)
    else none

/-- Reads a single-quoted text on one line, after its opening quote. -/
def literalLine : List Char → Option (List Char × List Char)
  | [] => none
  | '\x27' :: rest => some ([], rest)
  | c :: rest => if isPrintable c then before c (literalLine rest) else none

/-- Reads a single-quoted text on several lines, after its opening quotes. -/
def literalLines : List Char → Option (List Char × List Char)
  | [] => none
  | '\r' :: '\n' :: rest => before '\n' (literalLines rest)
  | '\x27' :: '\x27' :: '\x27' :: '\x27' :: '\x27' :: rest => some (['\x27', '\x27'], rest)
  | '\x27' :: '\x27' :: '\x27' :: '\x27' :: rest => some (['\x27'], rest)
  | '\x27' :: '\x27' :: '\x27' :: rest => some ([], rest)
  | c :: rest => if c == '\n' || isPrintable c then before c (literalLines rest) else none

/-- The characters without the line end they may start with. -/
def dropLineEnd : List Char → List Char
  | '\n' :: rest => rest
  | '\r' :: '\n' :: rest => rest
  | cs => cs

/-- Reads a string on one line. -/
def lineString : Reader String := fun cs => do
  let (content, rest) ← match cs with
    | '\x22' :: rest => basicLine rest
    | '\x27' :: rest => literalLine rest
    | _ => none
  return (String.ofList content, rest)

/-- Reads a string of any form. -/
def string : Reader String := fun cs =>
  match cs with
  | '\x22' :: '\x22' :: '\x22' :: rest =>
    (basicLines false (dropLineEnd rest)).map fun (content, rest) => (String.ofList content, rest)
  | '\x27' :: '\x27' :: '\x27' :: rest =>
    (literalLines (dropLineEnd rest)).map fun (content, rest) => (String.ofList content, rest)
  | cs => lineString cs

end Ambient.Toml
