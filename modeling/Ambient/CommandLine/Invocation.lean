import Ambient.Flavor

/-!
# Command lines

What a list of arguments asks for. Options are written out or as letters, which can be drawn
together, with their values attached or in the next argument; only directive files may be named
several times. A list that does not fit asks for nothing.
-/

namespace Ambient.CommandLine

/-- The options of a call that generates declarations. -/
structure GenerateOptions where
  settings : Option String
  api : Option String
  library : Option String
  directives : List String
  flavor : Option Flavor
  output : Option String
  skipsCheck : Bool
deriving DecidableEq, Repr, Inhabited

/-- What help can be about: all commands, or one of them. -/
inductive Topic where
  | all
  | generate
  | symbols
  | help
deriving DecidableEq, Repr, Inhabited

/-- What a command line asks for. -/
inductive Invocation where
  | version
  | help (topic : Topic)
  | generate (options : GenerateOptions)
  | symbols (api library : String)
deriving DecidableEq, Repr, Inhabited

/-- The options of all commands. -/
inductive Switch where
  | debug
  | help
  | settings
  | api
  | library
  | directives
  | flavor
  | output
  | skipCheck
deriving DecidableEq, Repr, Inhabited

namespace Switch

/-- The name of an option. -/
def name : Switch → String
  | .debug => "debug"
  | .help => "help"
  | .settings => "config"
  | .api => "api"
  | .library => "library"
  | .directives => "directives"
  | .flavor => "flavor"
  | .output => "out"
  | .skipCheck => "no-check"

/-- The letter of an option, if it has one. -/
def letter? : Switch → Option Char
  | .debug => some 'd'
  | .help => some 'h'
  | .settings => some 'c'
  | .output => some 'o'
  | _ => none

/-- Whether an option has a value. -/
def hasValue : Switch → Bool
  | .debug | .help | .skipCheck => false
  | _ => true

/-- Whether a value is admitted. -/
def admits (switch : Switch) (value : String) : Bool :=
  match switch with
  | .settings | .api | .directives | .output => !value.isEmpty
  | .flavor => Flavor.all.any fun flavor => flavor.word == value
  | _ => true

/-- The options of the command that generates. -/
def ofGenerate : List Switch :=
  [.debug, .help, .settings, .api, .library, .directives, .flavor, .output, .skipCheck]

/-- The options of the command that lists symbols. -/
def ofSymbols : List Switch := [.debug, .help, .library]

end Switch

/-- The options given so far, with their values, and the other arguments. -/
structure Given where
  options : List (Switch × String)
  operands : List String
deriving Inhabited

namespace Given

/-- Nothing given yet. -/
def empty : Given := ⟨[], []⟩

/-- Whether an option was given. -/
def has (g : Given) (switch : Switch) : Bool := g.options.any fun option => option.1 == switch

/-- The values of an option. -/
def valuesOf (g : Given) (switch : Switch) : List String :=
  g.options.filterMap fun option => if option.1 = switch then some option.2 else none

/-- The value of an option that is given once. -/
def valueOf? (g : Given) (switch : Switch) : Option String := (g.valuesOf switch).head?

/-- Adds an option, unless it was given before or its value is not admitted. -/
def add (g : Given) (switch : Switch) (value : String) : Option Given :=
  if !switch.admits value || (g.has switch && switch != .directives) then none
  else some { g with options := g.options ++ [(switch, value)] }

end Given

/-- Whether an argument can be the value of an option before it. -/
def isValue (argument : String) : Bool :=
  argument = "-" || argument.toList.head? != some '-'

/-- A cluster of letters: the options given with it, and the one that waits for its value. -/
def readLetters (known : List Switch) (g : Given) : List Char → Option (Given × Option Switch)
  | [] => some (g, none)
  | letter :: rest => do
    let switch ← known.find? fun switch => switch.letter? = some letter
    if switch = .help then return (← g.add .help "", none)
    if !switch.hasValue then readLetters known (← g.add switch "") rest
    else
      match rest with
      | [] => return (g, some switch)
      | '=' :: value | value => return (← g.add switch (String.ofList value), none)

/-- The argument as an option that is written out, with its value if that is attached. -/
def longOption? (argument : String) : Option (List Char × Option String) :=
  match argument.toList with
  | '-' :: '-' :: rest =>
    let name := rest.takeWhile fun c => c != '='
    match rest.dropWhile fun c => c != '=' with
    | _ :: value => some (name, some (String.ofList value))
    | [] => some (name, none)
  | _ => none

/-- Adds an operand, if there is a place for it and it is not empty. -/
def Given.addOperand (g : Given) (places : Nat) (operand : String) : Option Given :=
  if g.operands.length < places ∧ !operand.isEmpty then
    some { g with operands := g.operands ++ [operand] }
  else none

/-- Reads the arguments of a command that has places for some operands; `waiting` is the option
that waits for its value. Nothing is read after a call for help, but what comes before it has to
fit. -/
def readArguments (known : List Switch) (places : Nat) (g : Given) (waiting : Option Switch) :
    List String → Option Given
  | [] => if waiting.isSome then none else some g
  | argument :: rest =>
    match waiting with
    | some switch =>
      if isValue argument then do readArguments known places (← g.add switch argument) none rest
      else none
    | none =>
      if argument = "--" then rest.foldlM (fun g operand => g.addOperand places operand) g
      else
        match longOption? argument with
        | some (name, value) => do
          let switch ← known.find? fun switch => switch.name.toList = name
          match switch.hasValue, value with
          | true, some value => readArguments known places (← g.add switch value) none rest
          | true, none => readArguments known places g (some switch) rest
          | false, none =>
            if switch = .help then g.add .help ""
            else readArguments known places (← g.add switch "") none rest
          | false, some _ => none
        | none =>
          if isValue argument then do
            readArguments known places (← g.addOperand places argument) none rest
          else do
            let (g, waiting) ← readLetters known g (argument.toList.drop 1)
            if g.has .help then return g
            readArguments known places g waiting rest

/-- The call that options of the generating command ask for. A description needs the name of its
library. -/
def generateOf (g : Given) : Option Invocation :=
  if g.has .help then some (.help .generate)
  else if g.has .api && !g.has .library then none
  else
    let flavor := (g.valueOf? .flavor).bind fun word =>
      Flavor.all.find? fun flavor => flavor.word == word
    some (.generate {
      settings := g.valueOf? .settings
      api := g.valueOf? .api
      library := g.valueOf? .library
      directives := g.valuesOf .directives
      flavor := flavor
      output := g.valueOf? .output
      skipsCheck := g.has .skipCheck })

/-- The name of a library that is not told. -/
def unnamedLibrary : String := "library"

/-- The call that the arguments of the listing command ask for. -/
def symbolsOf (g : Given) : Option Invocation :=
  if g.has .help then some (.help .symbols)
  else
    match g.operands with
    | [api] => some (.symbols api ((g.valueOf? .library).getD unnamedLibrary))
    | _ => none

/-- Reads letters in front of the command: whether the debug letter was given before, and what they
ask for by themselves. -/
def leadingLetters (debugs : Bool) : List Char → Option (Bool × Option Invocation)
  | [] => some (debugs, none)
  | 'd' :: rest => if debugs then none else leadingLetters true rest
  | 'V' :: _ => some (debugs, some .version)
  | 'h' :: _ => some (debugs, some (.help .all))
  | _ => none

/-- Reads a command line from the start, where `debugs` says whether the debug option was given. -/
def parseFrom (debugs : Bool) : List String → Option Invocation
  | [] => none
  | argument :: rest =>
    match argument with
    | "--version" => some .version
    | "--help" => some (.help .all)
    | "--debug" => if debugs then none else parseFrom true rest
    | "generate" => (readArguments Switch.ofGenerate 0 .empty none rest).bind generateOf
    | "symbols" => (readArguments Switch.ofSymbols 1 .empty none rest).bind symbolsOf
    | "help" =>
      match rest with
      | [] => some (.help .all)
      | ["generate"] => some (.help .generate)
      | ["symbols"] => some (.help .symbols)
      | ["help"] => some (.help .help)
      | _ => none
    | _ =>
      match argument.toList with
      | '-' :: letter :: letters =>
        match leadingLetters debugs (letter :: letters) with
        | some (_, some invocation) => some invocation
        | some (debugs, none) => parseFrom debugs rest
        | none => none
      | _ => none

/-- Reads a command line. -/
def parse (arguments : List String) : Option Invocation := parseFrom false arguments

end Ambient.CommandLine
