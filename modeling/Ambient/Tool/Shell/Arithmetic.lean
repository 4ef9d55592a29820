import Ambient.Tool.Basic

/-!
# Arithmetic of the shell

Expressions over whole numbers of 64 bits that wrap around. An expression is read as a tree first;
its value is found with the values of its variables, which it can change.
-/

namespace Ambient.Tool.Shell

/-- An operator between two values. -/
inductive Operator where
  | multiply
  | divide
  | remainder
  | add
  | subtract
  | shiftLeft
  | shiftRight
  | less
  | lessEqual
  | greater
  | greaterEqual
  | equal
  | unequal
  | bitAnd
  | bitXor
  | bitOr
deriving DecidableEq, Repr, Inhabited

/-- How tightly an operator binds; a lower number binds more tightly. -/
def Operator.level : Operator → Nat
  | .multiply | .divide | .remainder => 0
  | .add | .subtract => 1
  | .shiftLeft | .shiftRight => 2
  | .less | .lessEqual | .greater | .greaterEqual => 3
  | .equal | .unequal => 4
  | .bitAnd => 5
  | .bitXor => 6
  | .bitOr => 7

/-- An operator on one value. -/
inductive Monadic where
  | negate
  | not
  | complement
deriving DecidableEq, Repr, Inhabited

/-- An expression. -/
inductive Sum where
  | number (value : Int)
  | parameter (name : Raw)
  | unary (operator : Monadic) (operand : Sum)
  | binary (operator : Operator) (first second : Sum)
  | both (first second : Sum)
  | either (first second : Sum)
  | choice (test first second : Sum)
  | assign (name : Raw) (operator : Option Operator) (value : Sum)
deriving Repr, Inhabited

namespace Sum

/-! ## Reading -/

/-- A token of an expression. -/
inductive Token where
  | number (value : Int)
  | name (chars : Raw)
  | operator (o : Operator)
  | assign (o : Option Operator)
  | not
  | complement
  | and
  | or
  | question
  | colon
  | opening
  | closing
  | wrong
deriving DecidableEq, Repr, Inhabited

/-- The greatest number. -/
def greatest : Nat := Nat.pow 2 63 - 1

/-- A value of 64 bits. -/
def wrap (value : Int) : Int := Int.bmod value (Nat.pow 2 64)

/-- The value of a digit. -/
def digit (c : Char) : Nat :=
  if c.isDigit then c.toNat - '0'.toNat
  else if 'a' ≤ c ∧ c ≤ 'z' then c.toNat - 'a'.toNat + 10
  else if 'A' ≤ c ∧ c ≤ 'Z' then c.toNat - 'A'.toNat + 10
  else 36

/-- The value of the digits that characters start with, and the rest. -/
def digitsFrom (base : Nat) (cs : Raw) : Nat × Raw :=
  let isFitting (c : Char) : Bool := digit c < base
  ((cs.takeWhile isFitting).foldl (fun value c => value * base + digit c) 0,
    cs.dropWhile isFitting)

/-- The number that characters start with, in the base that its start tells, and the rest. -/
def numberFrom (cs : Raw) : Nat × Raw :=
  match cs with
  | '0' :: x :: c :: rest =>
    if (x = 'x' ∨ x = 'X') ∧ digit c < 16 then digitsFrom 16 (c :: rest)
    else if (x = 'b' ∨ x = 'B') ∧ digit c < 2 then digitsFrom 2 (c :: rest)
    else digitsFrom 8 cs
  | '0' :: _ => digitsFrom 8 cs
  | _ => digitsFrom 10 cs

/-- The operator that characters start with, the longest one that fits. -/
def signOf? : Raw → Option (Token × Raw)
  | '<' :: '<' :: '=' :: rest => some (.assign (some .shiftLeft), rest)
  | '>' :: '>' :: '=' :: rest => some (.assign (some .shiftRight), rest)
  | '<' :: '<' :: rest => some (.operator .shiftLeft, rest)
  | '>' :: '>' :: rest => some (.operator .shiftRight, rest)
  | '<' :: '=' :: rest => some (.operator .lessEqual, rest)
  | '>' :: '=' :: rest => some (.operator .greaterEqual, rest)
  | '=' :: '=' :: rest => some (.operator .equal, rest)
  | '!' :: '=' :: rest => some (.operator .unequal, rest)
  | '&' :: '&' :: rest => some (.and, rest)
  | '|' :: '|' :: rest => some (.or, rest)
  | '*' :: '=' :: rest => some (.assign (some .multiply), rest)
  | '/' :: '=' :: rest => some (.assign (some .divide), rest)
  | '%' :: '=' :: rest => some (.assign (some .remainder), rest)
  | '+' :: '=' :: rest => some (.assign (some .add), rest)
  | '-' :: '=' :: rest => some (.assign (some .subtract), rest)
  | '&' :: '=' :: rest => some (.assign (some .bitAnd), rest)
  | '^' :: '=' :: rest => some (.assign (some .bitXor), rest)
  | '|' :: '=' :: rest => some (.assign (some .bitOr), rest)
  | '<' :: rest => some (.operator .less, rest)
  | '>' :: rest => some (.operator .greater, rest)
  | '=' :: rest => some (.assign none, rest)
  | '!' :: rest => some (.not, rest)
  | '&' :: rest => some (.operator .bitAnd, rest)
  | '|' :: rest => some (.operator .bitOr, rest)
  | '^' :: rest => some (.operator .bitXor, rest)
  | '*' :: rest => some (.operator .multiply, rest)
  | '/' :: rest => some (.operator .divide, rest)
  | '%' :: rest => some (.operator .remainder, rest)
  | '+' :: rest => some (.operator .add, rest)
  | '-' :: rest => some (.operator .subtract, rest)
  | '~' :: rest => some (.complement, rest)
  | '?' :: rest => some (.question, rest)
  | ':' :: rest => some (.colon, rest)
  | '(' :: rest => some (.opening, rest)
  | ')' :: rest => some (.closing, rest)
  | _ => none

/-- The tokens of an expression; what is no token spoils the rest. -/
def tokens : Nat → Raw → List Token
  | 0, _ | _, [] => []
  | bound + 1, c :: rest =>
    if c = ' ' ∨ c = '\t' ∨ c = '\n' then tokens bound rest
    else if c.isDigit then
      let (value, rest) := numberFrom (c :: rest)
      .number (min value greatest) :: tokens bound rest
    else if c.isAlpha ∨ c = '_' then
      let isPart (c : Char) : Bool := c.isAlphanum || c == '_'
      .name ((c :: rest).takeWhile isPart) :: tokens bound ((c :: rest).dropWhile isPart)
    else
      match signOf? (c :: rest) with
      | some (token, rest) => token :: tokens bound rest
      | none => [.wrong]

/-- A reader of expressions. -/
abbrev Parser := List Token → Except String (Sum × List Token)

mutual

/-- Reads an expression with an assignment, if it starts with one. -/
def assignment : Nat → Parser
  | 0, _ => .error "expecting primary"
  | bound + 1, ts =>
    match ts with
    | .name chars :: .assign operator :: rest => do
      let (value, after) ← assignment bound rest
      return (.assign chars operator value, after)
    | _ => condition bound ts

/-- Reads a choice between two expressions. -/
def condition : Nat → Parser
  | 0, _ => .error "expecting primary"
  | bound + 1, ts => do
    let (test, after) ← disjunction bound ts
    match after with
    | .question :: rest =>
      let (first, after) ← assignment bound rest
      match after with
      | .colon :: rest =>
        let (second, after) ← condition bound rest
        return (.choice test first second, after)
      | _ => throw "expecting \x27:\x27"
    | _ => return (test, after)

/-- Reads expressions of which one has to hold. -/
def disjunction : Nat → Parser
  | 0, _ => .error "expecting primary"
  | bound + 1, ts => do
    let (first, after) ← conjunction bound ts
    match after with
    | .or :: rest =>
      let (second, after) ← disjunction bound rest
      return (.either first second, after)
    | _ => return (first, after)

/-- Reads expressions of which all have to hold. -/
def conjunction : Nat → Parser
  | 0, _ => .error "expecting primary"
  | bound + 1, ts => do
    let (first, after) ← operation bound 7 ts
    match after with
    | .and :: rest =>
      let (second, after) ← conjunction bound rest
      return (.both first second, after)
    | _ => return (first, after)

/-- Reads operators up to a level. -/
def operation : Nat → Nat → Parser
  | 0, _, _ => .error "expecting primary"
  | bound + 1, level, ts => do
    let (first, after) ← if level = 0 then primary bound ts else operation bound (level - 1) ts
    further bound level first after

/-- Reads what operators of a level add to an expression. -/
def further : Nat → Nat → Sum → Parser
  | 0, _, _, _ => .error "expecting primary"
  | bound + 1, level, first, ts =>
    match ts with
    | .operator o :: rest =>
      if o.level = level then do
        let (second, after) ←
          if level = 0 then primary bound rest else operation bound (level - 1) rest
        further bound level (.binary o first second) after
      else .ok (first, ts)
    | _ => .ok (first, ts)

/-- Reads a single value. -/
def primary : Nat → Parser
  | 0, _ => .error "expecting primary"
  | bound + 1, ts =>
    match ts with
    | .number value :: rest => .ok (.number value, rest)
    | .name chars :: rest => .ok (.parameter chars, rest)
    | .operator .add :: rest => primary bound rest
    | .operator .subtract :: rest => do
      let (value, after) ← primary bound rest
      return (.unary .negate value, after)
    | .not :: rest => do
      let (value, after) ← primary bound rest
      return (.unary .not value, after)
    | .complement :: rest => do
      let (value, after) ← primary bound rest
      return (.unary .complement value, after)
    | .opening :: rest => do
      let (value, after) ← assignment bound rest
      match after with
      | .closing :: after => return (value, after)
      | _ => throw "expecting \x27)\x27"
    | _ => .error "expecting primary"

end

/-- Reads an expression. -/
def read (text : Raw) : Except String Sum := do
  let ts := tokens text.length text
  let (value, after) ← assignment (16 * ts.length + 32) ts
  if after.isEmpty then return value else throw "expecting EOF"

/-! ## Values -/

/-- A truth value as a number. -/
def truth (holds : Bool) : Int := if holds then 1 else 0

/-- The bits of a value. -/
def bits (value : Int) : Nat := (value % Int.pow 2 64).toNat

/-- What an operator makes of two values. -/
def Operator.apply (o : Operator) (a b : Int) : Except String Int :=
  match o with
  | .multiply => .ok (wrap (a * b))
  | .divide | .remainder =>
    if b = 0 then .error "division by zero"
    else if b = -1 ∧ a = -(Int.pow 2 63) then .error "divide error"
    else .ok (if o = .divide then Int.tdiv a b else Int.tmod a b)
  | .add => .ok (wrap (a + b))
  | .subtract => .ok (wrap (a - b))
  | .shiftLeft => .ok (wrap (a * Int.pow 2 (b % 64).toNat))
  | .shiftRight => .ok (Int.fdiv a (Int.pow 2 (b % 64).toNat))
  | .less => .ok (truth (a < b))
  | .lessEqual => .ok (truth (a ≤ b))
  | .greater => .ok (truth (b < a))
  | .greaterEqual => .ok (truth (b ≤ a))
  | .equal => .ok (truth (a = b))
  | .unequal => .ok (truth (a ≠ b))
  | .bitAnd => .ok (wrap (bits a &&& bits b))
  | .bitXor => .ok (wrap (bits a ^^^ bits b))
  | .bitOr => .ok (wrap (bits a ||| bits b))

/-- The number that a text stands for, with blanks around it. -/
def ofText? (text : Raw) : Option Int :=
  let isBlank (c : Char) : Bool := c == ' ' || ('\t' ≤ c && c ≤ '\r')
  let cs := text.dropWhile isBlank
  let (isNegative, cs) := match cs with
    | '-' :: rest => (true, rest)
    | '+' :: rest => (false, rest)
    | _ => (false, cs)
  if cs.isEmpty then if text.all isBlank then some 0 else none
  else if !cs.head?.any Char.isDigit then none
  else
    let (value, rest) := numberFrom cs
    if !rest.all isBlank then none
    else if value ≤ greatest then some (if isNegative then -value else value)
    else if isNegative ∧ value = greatest + 1 then some (-value)
    else none

/-- The values of variables as an expression sees and changes them: how one is found, and those
that have been changed, the last one first. -/
structure Values where
  find : Raw → Raw
  changed : List (Raw × Int)

/-- The value of a variable. -/
def Values.get (v : Values) (name : Raw) : Except String Int :=
  match v.changed.lookup name with
  | some value => .ok value
  | none =>
    match ofText? (v.find name) with
    | some value => .ok value
    | none => .error ("Illegal number: " ++ toText (v.find name))

/-- A fault in an expression, with the expression. -/
def fault (written : Raw) (text : String) : String :=
  "arithmetic expression: " ++ text ++ ": \x22" ++ toText written ++ "\x22"

/-- The value of an expression, and the variables it has changed. -/
def value (written : Raw) (v : Values) : Sum → Except String (Int × Values)
  | .number n => .ok (n, v)
  | .parameter name => do return (← v.get name, v)
  | .unary operator operand => do
    let (a, v) ← value written v operand
    return (match operator with
      | .negate => wrap (-a)
      | .not => truth (a = 0)
      | .complement => wrap (-a - 1), v)
  | .binary operator first second => do
    let (a, v) ← value written v first
    let (b, v) ← value written v second
    return (← (Operator.apply operator a b).mapError (fault written), v)
  | .both first second => do
    let (a, v) ← value written v first
    if a = 0 then return (0, v)
    let (b, v) ← value written v second
    return (truth (b ≠ 0), v)
  | .either first second => do
    let (a, v) ← value written v first
    if a ≠ 0 then return (1, v)
    let (b, v) ← value written v second
    return (truth (b ≠ 0), v)
  | .choice test first second => do
    let (a, v) ← value written v test
    if a ≠ 0 then value written v first else value written v second
  | .assign name operator operand => do
    let (b, v) ← value written v operand
    let result ← match operator with
      | none => .ok b
      | some o => do (Operator.apply o (← v.get name) b).mapError (fault written)
    return (result, { v with changed := (name, result) :: v.changed })

end Sum

/-! ## Numbers in arguments -/

/-- A whole number in decimal digits, with blanks around it. -/
def wholeNumber (word : Raw) : Except String Int := do
  let isBlank (c : Char) : Bool := c == ' ' || ('\t' ≤ c && c ≤ '\r')
  let cs := word.dropWhile isBlank
  let (isNegative, digits) := match cs with
    | '-' :: rest => (true, rest)
    | '+' :: rest => (false, rest)
    | _ => (false, cs)
  let size := (digits.takeWhile Char.isDigit).foldl (fun n c => n * 10 + Sum.digit c) 0
  let limit := if isNegative then Sum.greatest + 1 else Sum.greatest
  let isNumber := digits.head?.any Char.isDigit && (digits.dropWhile Char.isDigit).all isBlank
  if isNumber && size ≤ limit then
    return if isNegative then -size else size
  else throw ("Illegal number: " ++ toText word)

/-- A count: a whole number of 31 bits without a sign. -/
def countOf (word : Raw) : Except String Nat := do
  match ← wholeNumber word with
  | .ofNat n => if n < Nat.pow 2 31 then return n else throw ("Illegal number: " ++ toText word)
  | .negSucc _ => throw ("Illegal number: " ++ toText word)

end Ambient.Tool.Shell
