import Ambient.Execution
import Ambient.Files.Tree

/-!
# Text tools

Small programs as functions of their arguments, their input and the files they see. They work on
bytes, which stand as characters of the same code, so that a text beyond ASCII is a sequence of
several.
-/

namespace Ambient.Tool

/-- Bytes as characters of the same code. -/
abbrev Raw := List Char

/-- The bytes of a text. -/
def raw (s : String) : Raw := (Bytes.ofText s).map fun byte => Char.ofNat byte.toNat

/-- The bytes that characters stand for. -/
def toBytes (cs : Raw) : Bytes := cs.map fun c => c.toNat.toUInt8

/-- The text of characters that stand for bytes. -/
def toText (cs : Raw) : String := Bytes.lossyText (toBytes cs)

/-- The characters that stand for bytes. -/
def ofBytes (bytes : Bytes) : Raw := bytes.map fun byte => Char.ofNat byte.toNat

/-- Whether two texts are in the order of their bytes. -/
def inOrder (a b : Raw) : Bool := !b.lex a fun x y => x < y

/-- What an input or an output of a program is connected to: nothing at all, a directory, a file
and a place in it, or something that has no name. -/
inductive Connection where
  | closed
  | directory
  | file (place : Files.Location) (position : Nat)
  | other
deriving DecidableEq, Repr, Inhabited

/-- What a program sees: the name or path it is called by, the files, the directory it runs in, and
the variables that are given to it. -/
structure World where
  name : Raw
  tree : Files.Tree
  working : Files.Location
  environment : List (Raw × Raw)
  input : Connection := .other
  output : Connection := .other
  errors : Connection := .other
  /-- What can be read from the further descriptors that are open. -/
  further : List (Nat × Raw) := []
  /-- The permissions that new files are not given. -/
  mask : Nat := 0o022
  /-- The limits of resources that have been changed, by their letters, each with the one that it
  can be raised to again; nothing stands for no limit. -/
  limits : List (Char × Option Nat × Option Nat) := []
  /-- The signals that do nothing. -/
  ignored : List Nat := []
  /-- The number of the process. -/
  process : Nat := 4711
  /-- The number of the process that started it. -/
  parent : Nat := 4710

/-- An output of a program. -/
inductive Outlet where
  | output
  | errors
  | further (descriptor : Nat)
deriving DecidableEq, Repr, Inhabited

/-- What is left of a program: how it ended, what it wrote in its order, what it has not read of its
input, and the files. -/
structure Outcome where
  ending : Ending
  pieces : List (Outlet × Raw)
  unread : Raw
  tree : Files.Tree
  /-- What it has not read of further descriptors. -/
  furtherUnread : List (Nat × Raw) := []
  /-- The signals that it has sent to the process that started it. -/
  signals : List Nat := []

/-- A tool as a function of its arguments, its input and what it sees. -/
abbrev Program := List Raw → Raw → World → Outcome

/-- What went to one of the outputs. -/
def Outcome.written (o : Outcome) (outlet : Outlet) : Raw :=
  (o.pieces.filter fun piece => piece.1 == outlet).flatMap Prod.snd

/-- A fault as tools name it, without its number. -/
def faultText (fault : Files.Fault) : String := fault.title.1

namespace World

/-- The end of a program that has changed no files, with what it has left of its input. -/
def leaving (w : World) (status : Nat) (pieces : List (Outlet × Raw)) (unread : Raw) : Outcome :=
  { ending := .exited status, pieces := pieces, unread := unread, tree := w.tree }

/-- The end of a program that has read its input and changed no files. -/
def after (w : World) (status : Nat) (pieces : List (Outlet × Raw)) : Outcome :=
  w.leaving status pieces []

/-- A complaint of a program, under the name it is called by. -/
def complaint (w : World) (text : Raw) : Outlet × Raw :=
  (.errors, w.name ++ raw ": " ++ text ++ ['\n'])

/-- The end of a program that refuses to work. -/
def refuse (w : World) (input : Raw) (status : Nat) (reason : String) : Outcome :=
  w.leaving status [w.complaint (raw reason)] input

/-- What is written if a descriptor cannot be used that is closed. -/
def closedText : String := "Bad file descriptor"

/-- Why the input cannot be read, if it cannot. -/
def inputFault? (w : World) : Option String :=
  match w.input with
  | .closed => some closedText
  | .directory => some (faultText .isDirectory)
  | .file .. | .other => none

/-- The content of a file. -/
def read (w : World) (path : Raw) : Except Files.Fault Raw := do
  return ofBytes (← (← w.tree.find w.working (toText path)).bytes)

/-- The files with a content for the file at a path. -/
def write (w : World) (path content : Raw) : Except Files.Fault Files.Tree :=
  w.tree.writeEntry w.working (toText path) (.ofBytes (toBytes content))

end World

/-- Whether a path stands for the input. -/
def isInput (path : Raw) : Bool := path == ['-'] || path == raw "/dev/stdin"

/-! ## Options -/

/-- The options a tool knows: by letter, those with a value apart, and the long names of letters. -/
structure Options where
  letters : List Char
  valued : List Char
  /-- The letters whose value can only follow in the same argument. -/
  attached : List Char
  long : List (String × Char)
  /-- Whether everything from the first operand on is an operand. -/
  endsAtOperand : Bool
  /-- What is written below a complaint about the call of the tool by some name. -/
  hint : Raw → Raw

/-- The options of a call in their order, with their values, and the operands. -/
structure Arguments where
  options : List (Char × Raw)
  operands : List Raw
deriving Inhabited

namespace Arguments

/-- Whether an option was given. -/
def has (a : Arguments) (letter : Char) : Bool := a.options.any fun option => option.1 == letter

/-- The last value of an option. -/
def last? (a : Arguments) (letter : Char) : Option Raw :=
  (a.options.reverse.find? fun option => option.1 == letter).map Prod.snd

end Arguments

namespace Options

/-- The letters under which the long options stand that ask for help and for the version. What
follows one of them is not looked at. -/
def help : Char := 'H'

@[inherit_doc help]
def version : Char := 'V'

/-- The usual hint. -/
def usualHint (name : Raw) : Raw :=
  raw "Try \x27" ++ name ++ raw " --help\x27 for more information.\n"

/-- A text in quotes. -/
def inQuotes (text : String) : String := "\x27" ++ text ++ "\x27"

/-- Adds an option in front. -/
def withOption (letter : Char) (value : Raw) (rest : Except String Arguments) :
    Except String Arguments :=
  rest.map fun a => { a with options := (letter, value) :: a.options }

/-- Reads a cluster of letters; the value of the last one may be the rest of the cluster. -/
def readLetters (o : Options) (next : List Raw) : Raw → Except String (List (Char × Raw) × List Raw)
  | [] => .ok ([], next)
  | letter :: rest =>
    if o.attached.contains letter then .ok ([(letter, rest)], next)
    else if o.valued.contains letter then
      match rest, next with
      | [], value :: later => .ok ([(letter, value)], later)
      | [], [] => .error ("option requires an argument -- " ++ inQuotes (toText [letter]))
      | value, _ => .ok ([(letter, value)], next)
    else if o.letters.contains letter then
      (readLetters o next rest).map fun (found, later) => ((letter, []) :: found, later)
    else .error ("invalid option -- " ++ inQuotes (toText [letter]))

/-- The long option with a name, which may be cut short as long as it stays clear. -/
def longOption (o : Options) (name : Raw) (argument : Raw) : Except String (String × Char) :=
  let fitting := o.long.filter fun option => name.isPrefixOf option.1.toList
  match fitting.find? fun option => option.1.toList == name with
  | some option => .ok option
  | none =>
    match fitting with
    | [] => .error ("unrecognized option " ++ inQuotes (toText argument))
    | first :: others =>
      if others.all fun option => option.2 == first.2 then .ok first
      else
        .error ("option " ++ inQuotes (toText argument) ++ " is ambiguous; possibilities:"
          ++ String.join (fitting.map fun option => " " ++ inQuotes ("--" ++ option.1)))

/-- Reads a long option after its dashes, with the value behind an equals sign or in the next
argument. -/
def readLong (o : Options) (written : Raw) (next : List Raw) :
    Except String ((Char × Raw) × List Raw) := do
  let name := written.takeWhile fun c => c != '='
  let value := match written.drop name.length with
    | [] => none
    | _ :: value => some value
  let (full, letter) ← o.longOption name (['-', '-'] ++ written)
  let quoted := inQuotes ("--" ++ full)
  if o.valued.contains letter then
    match value, next with
    | some value, _ => return ((letter, value), next)
    | none, value :: later => return ((letter, value), later)
    | none, [] => throw ("option " ++ quoted ++ " requires an argument")
  else
    match value with
    | some value =>
      if o.attached.contains letter then return ((letter, value), next)
      else throw ("option " ++ quoted ++ " doesn\x27t allow an argument")
    | none => return ((letter, []), next)

/-- Reads the arguments of a call; the bound is their number. -/
def readFrom (o : Options) : Nat → List Raw → Except String Arguments
  | 0, _ | _, [] => .ok ⟨[], []⟩
  | bound + 1, argument :: rest =>
    match argument with
    | ['-', '-'] => .ok ⟨[], rest⟩
    | '-' :: '-' :: written => do
      let ((letter, value), later) ← o.readLong written rest
      withOption letter value
        (if letter = help ∨ letter = version then .ok ⟨[], []⟩ else o.readFrom bound later)
    | '-' :: letter :: letters => do
      let (found, later) ← o.readLetters rest (letter :: letters)
      (o.readFrom bound later).map fun a => { a with options := found ++ a.options }
    | _ =>
      if o.endsAtOperand then .ok ⟨[], argument :: rest⟩
      else (o.readFrom bound rest).map fun a => { a with operands := argument :: a.operands }

/-- Reads the arguments of a call. -/
def read (o : Options) (arguments : List Raw) : Except String Arguments :=
  o.readFrom arguments.length arguments

/-- The end of a call that is misused. -/
def misuse (o : Options) (w : World) (input : Raw) (message : String) : Outcome :=
  w.leaving 1 [w.complaint (raw message), (.errors, o.hint w.name)] input

end Options

end Ambient.Tool

/-!
## Classes of bytes

The classes that sets of bytes can name, as they are without regard to a language.
-/

namespace Ambient.Tool

/-- The bytes from one to another. -/
def bytesBetween (low high : Char) : Raw :=
  (List.range (high.toNat + 1 - low.toNat)).map fun i => Char.ofNat (low.toNat + i)

/-- The bytes of a class. -/
def byteClass? : String → Option Raw
  | "alnum" => some (bytesBetween '0' '9' ++ bytesBetween 'A' 'Z' ++ bytesBetween 'a' 'z')
  | "alpha" => some (bytesBetween 'A' 'Z' ++ bytesBetween 'a' 'z')
  | "blank" => some ['\t', ' ']
  | "cntrl" => some (bytesBetween '\x00' '\x1f' ++ ['\x7f'])
  | "digit" => some (bytesBetween '0' '9')
  | "graph" => some (bytesBetween '!' '~')
  | "lower" => some (bytesBetween 'a' 'z')
  | "print" => some (bytesBetween ' ' '~')
  | "punct" => some ((bytesBetween '!' '~').filter fun c => !c.isAlphanum)
  | "space" => some (bytesBetween '\t' '\r' ++ [' '])
  | "upper" => some (bytesBetween 'A' 'Z')
  | "xdigit" => some (bytesBetween '0' '9' ++ bytesBetween 'A' 'F' ++ bytesBetween 'a' 'f')
  | _ => none

end Ambient.Tool

/-!
## Quoting in complaints

How a complaint shows what it was given: a name stands as it is unless a reader could mistake it, a
text always stands between quotes, and a byte without a character of its own stands by an escape.
-/

namespace Ambient.Tool

/-- Whether a byte has a character of its own. -/
def isVisible (c : Char) : Bool := ' ' ≤ c && c ≤ '~'

/-- A byte by its octal digits. -/
def octalEscape (c : Char) : Raw :=
  '\\' :: [c.toNat / 64, c.toNat / 8 % 8, c.toNat % 8].map Nat.digitChar

/-- A byte by the letter of its escape, or by its octal digits. -/
def byteEscape (c : Char) : Raw :=
  match ('\x07', 'a') :: ('\x08', 'b') :: ('\t', 't') :: ('\n', 'n') :: ('\x0b', 'v')
      :: ('\x0c', 'f') :: [('\r', 'r')] |>.lookup c with
  | some letter => ['\\', letter]
  | none => octalEscape c

/-- A text between quotes. -/
def quotedText (text : Raw) : Raw :=
  let shown (c : Char) : Raw :=
    if c = '\x27' ∨ c = '\\' then ['\\', c] else if isVisible c then [c] else byteEscape c
  ['\x27'] ++ text.flatMap shown ++ ['\x27']

/-! ## Names -/

/-- Whether a name can stand as it is. -/
def isPlainName (name : Raw) : Bool :=
  let special := "!\x22$&\x27()*:;<=>?[\\^\x60| ".toList
  !name.isEmpty && name.all (fun c => isVisible c && !special.contains c)
    && !name.head?.any ['#', '~'].contains && name != ['\x7b'] && name != ['\x7d']

/-- Whether a name can stand between double quotes. -/
def fitsDoubleQuotes (name : Raw) : Bool :=
  let mild := "%+,-./:]_@ \x27".toList
  name.all fun c => c.isAlphanum || mild.contains c

/-- The rest of a name between single quotes, and whether escapes in quotes of their own are open
before it. -/
def nameTail : Bool → Raw → Raw
  | _, [] => ['\x27']
  | isEscaping, c :: rest =>
    if isVisible c then
      (if isEscaping then raw "\x27\x27" else []) ++
        (if c = '\x27' then raw "\x27\\\x27\x27" else [c]) ++ nameTail false rest
    else
      (if isEscaping then [] else raw "\x27$\x27") ++ byteEscape c ++ nameTail true rest

/-- A name as a complaint shows it. -/
def shownName (name : Raw) : Raw :=
  if isPlainName name then name
  else if name.contains '\x27' && fitsDoubleQuotes name then ['\x22'] ++ name ++ ['\x22']
  else '\x27' :: nameTail false name

end Ambient.Tool

/-!
## Help

What tools tell about themselves when they are asked for help.
-/

namespace Ambient.Tool.Help

/-- The options that every tool has. -/
def standardOptions : String :=
  "      --help        display this help and exit\n" ++
  "      --version     output version information and exit\n"

/-- Where more is told about the tool with a name. -/
def reference (tool : String) : String :=
  let home := "https:/" ++ "/www.gnu.org/software/coreutils/"
  "\nGNU coreutils online help: <" ++ home ++ ">\n" ++
  "Report any translation bugs to <https:/" ++ "/translationproject.org/team/>\n" ++
  "Full documentation <" ++ home ++ tool ++ ">\n" ++
  "or available locally via: info \x27(coreutils) " ++ tool ++ " invocation\x27\n"

/-- The help of the tool that concatenates files, called by a name. -/
def concatenation (name : String) : String :=
  "Usage: " ++ name ++ " [OPTION]... [FILE]...\n" ++
  "Concatenate FILE(s) to standard output.\n\n" ++
  "With no FILE, or when FILE is -, read standard input.\n\n" ++
  "  -A, --show-all           equivalent to -vET\n" ++
  "  -b, --number-nonblank    number nonempty output lines, overrides -n\n" ++
  "  -e                       equivalent to -vE\n" ++
  "  -E, --show-ends          display $ at end of each line\n" ++
  "  -n, --number             number all output lines\n" ++
  "  -s, --squeeze-blank      suppress repeated empty output lines\n" ++
  "  -t                       equivalent to -vT\n" ++
  "  -T, --show-tabs          display TAB characters as ^I\n" ++
  "  -u                       (ignored)\n" ++
  "  -v, --show-nonprinting   use ^ and M- notation, except for LFD and TAB\n" ++
  standardOptions ++
  "\nExamples:\n" ++
  "  " ++ name ++ " f - g  Output f\x27s contents, then standard input, then g\x27s contents.\n" ++
  "  " ++ name ++ "        Copy standard input to standard output.\n" ++
  reference "cat"

/-- The sets of bytes that can be written. -/
def sets : String :=
  "  \\NNN            character with octal value NNN (1 to 3 octal digits)\n" ++
  "  \\\\              backslash\n" ++
  "  \\a              audible BEL\n" ++
  "  \\b              backspace\n" ++
  "  \\f              form feed\n" ++
  "  \\n              new line\n" ++
  "  \\r              return\n" ++
  "  \\t              horizontal tab\n" ++
  "  \\v              vertical tab\n" ++
  "  CHAR1-CHAR2     all characters from CHAR1 to CHAR2 in ascending order\n" ++
  "  [CHAR*]         in ARRAY2, copies of CHAR until length of ARRAY1\n" ++
  "  [CHAR*REPEAT]   REPEAT copies of CHAR, REPEAT octal if starting with 0\n" ++
  "  [:alnum:]       all letters and digits\n" ++
  "  [:alpha:]       all letters\n" ++
  "  [:blank:]       all horizontal whitespace\n" ++
  "  [:cntrl:]       all control characters\n" ++
  "  [:digit:]       all digits\n" ++
  "  [:graph:]       all printable characters, not including space\n" ++
  "  [:lower:]       all lower case letters\n" ++
  "  [:print:]       all printable characters, including space\n" ++
  "  [:punct:]       all punctuation characters\n" ++
  "  [:space:]       all horizontal or vertical whitespace\n" ++
  "  [:upper:]       all upper case letters\n" ++
  "  [:xdigit:]      all hexadecimal digits\n" ++
  "  [=CHAR=]        all characters which are equivalent to CHAR\n"

/-- The help of the tool that translates bytes, called by a name. -/
def transliteration (name : String) : String :=
  "Usage: " ++ name ++ " [OPTION]... STRING1 [STRING2]\n" ++
  "Translate, squeeze, and/or delete characters from standard input,\n" ++
  "writing to standard output.  STRING1 and STRING2 specify arrays of\n" ++
  "characters ARRAY1 and ARRAY2 that control the action.\n\n" ++
  "  -c, -C, --complement    use the complement of ARRAY1\n" ++
  "  -d, --delete            delete characters in ARRAY1, do not translate\n" ++
  "  -s, --squeeze-repeats   replace each sequence of a repeated character\n" ++
  "                            that is listed in the last specified ARRAY,\n" ++
  "                            with a single occurrence of that character\n" ++
  "  -t, --truncate-set1     first truncate ARRAY1 to length of ARRAY2\n" ++
  standardOptions ++
  "\nARRAYs are specified as strings of characters.  Most represent themselves.\n" ++
  "Interpreted sequences are:\n\n" ++
  sets ++
  "\nTranslation occurs if -d is not given and both STRING1 and STRING2 appear.\n" ++
  "-t is only significant when translating.  ARRAY2 is extended to length of\n" ++
  "ARRAY1 by repeating its last character as necessary.  Excess characters\n" ++
  "of ARRAY2 are ignored.  Character classes expand in unspecified order;\n" ++
  "while translating, [:lower:] and [:upper:] may be used in pairs to\n" ++
  "specify case conversion.  Squeezing occurs after translation or deletion.\n" ++
  reference "tr"

/-- The help of a tool that only succeeds or fails, called by a name. -/
def constant (tool : String) (isSuccess : Bool) (name : String) : String :=
  "Usage: " ++ name ++ " [ignored command line arguments]\n" ++
  "  or:  " ++ name ++ " OPTION\n" ++
  "Exit with a status code indicating " ++ (if isSuccess then "success" else "failure") ++ ".\n\n" ++
  standardOptions ++
  "\nNOTE: your shell may have its own version of " ++ tool ++ ", which usually supersedes\n" ++
  "the version described here.  Please refer to your shell\x27s documentation\n" ++
  "for details about the options it supports.\n" ++
  reference tool

end Ambient.Tool.Help
