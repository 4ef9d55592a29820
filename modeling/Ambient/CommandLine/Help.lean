import Ambient.CommandLine.Invocation

/-!
# Help

What is printed when a call asks for help: what a command is for, how it is called, and a column of
terms with what each of them means. The terms of a column are as wide as the widest one.
-/

namespace Ambient.CommandLine

/-- A text with blanks in front, up to a width. -/
def padLeft (width : Nat) (s : String) : String :=
  String.ofList (List.replicate (width - s.length) ' ') ++ s

/-- A text with blanks behind, up to a width. -/
def padRight (width : Nat) (s : String) : String :=
  s ++ String.ofList (List.replicate (width - s.length) ' ')

namespace Help

/-- A term and what it means. -/
abbrev Entry := String × String

/-- Entries below a title, or nothing if there are none. -/
def column (title : String) (entries : List Entry) : String :=
  let width := (entries.map fun entry => entry.1.length).foldl max 0
  if entries.isEmpty then ""
  else
    "\n" ++ title ++ ":\n" ++ String.join (entries.map fun (term, meaning) =>
      "  " ++ padRight width term ++ "  " ++ meaning ++ "\n")

/-- The help of a command. -/
def page (purpose call : String) (columns : List (String × List Entry)) : String :=
  purpose ++ "\n\nUsage: " ++ call ++ "\n"
    ++ String.join (columns.map fun (title, entries) => column title entries)

/-- An option as it is given: its letter, its name, and a sign for its value. -/
def optionTerm (letter? : Option Char) (name : String) (hasValue : Bool) : String :=
  (match letter? with
    | some letter => "-" ++ letter.toString ++ ", "
    | none => "    ")
    ++ "--" ++ name ++ if hasValue then " <" ++ name.toUpper ++ ">" else ""

/-- An option with its meaning. -/
def option (switch : Switch) (meaning : String) : Entry :=
  (optionTerm switch.letter? switch.name switch.hasValue, meaning)

/-- The option of all commands that asks for more messages. -/
def debugOption : Entry :=
  option .debug "Enable verbose debug logging (overrides DTSGEN_LOG)"

/-- The option that asks for help. -/
def helpOption : Entry := option .help "Print help"

/-- What the command does that generates. -/
def generatePurpose : String := "Generate declaration files for the configured library"

/-- What the command does that lists symbols. -/
def symbolsPurpose : String := "Print the symbol table of an API description"

/-- What the command does that asks for help. -/
def helpPurpose : String := "Print this message or the help of the given subcommand(s)"

/-- The help on all commands. -/
def overview : String :=
  page "Generate TypeScript declarations from library API descriptions"
    "dtsgen [OPTIONS] <COMMAND>"
    [("Commands", [("generate", generatePurpose), ("symbols", symbolsPurpose),
        ("help", helpPurpose)]),
      ("Options", [debugOption, helpOption,
        (optionTerm (some 'V') "version" false, "Print version")])]

/-- The help on the command that generates. -/
def generate : String :=
  page generatePurpose "dtsgen generate [OPTIONS]"
    [("Options", [
      option .settings "Config file (default: dtsgen.toml in the current directory, if present)",
      debugOption,
      option .api "API description of the library, instead of the config\x27s [library]",
      option .library "Library name, used with --api",
      option .directives "Directive files, used with --api",
      option .flavor ("Only emit this flavor [possible values: "
        ++ ", ".intercalate (Flavor.all.map Flavor.word) ++ "]"),
      option .output "Output directory (overrides the config)",
      option .skipCheck "Skip the compiler check",
      helpOption])]

/-- The help on the command that lists symbols. -/
def symbols : String :=
  page symbolsPurpose "dtsgen symbols [OPTIONS] <API>"
    [("Arguments", [("<API>", "API description file")]),
      ("Options", [debugOption,
        option .library ("Library name recorded on each symbol [default: " ++ unnamedLibrary
          ++ "]"),
        helpOption])]

/-- The help on the command that asks for help. -/
def help : String :=
  page helpPurpose "dtsgen help [COMMAND]..."
    [("Arguments", [("[COMMAND]...", "Print help for the subcommand(s)")])]

end Help

/-- The help on a topic. -/
def Topic.text : Topic → String
  | .all => Help.overview
  | .generate => Help.generate
  | .symbols => Help.symbols
  | .help => Help.help

end Ambient.CommandLine
