import Ambient.Files.Path
import Ambient.Flavor
import Ambient.Text.Blank

/-!
# Settings

What a settings file says about a run, and what holds where it says nothing. Relative paths are
seen from the directory of the file.
-/

namespace Ambient

/-- The library to generate declarations for. -/
structure Settings.Source where
  name : String
  api : String
  /-- Directive files; the first one that has a key wins. -/
  directives : List String
deriving DecidableEq, Repr, Inhabited

/-- A library that the primary one refers to. -/
structure Settings.Dependency extends Settings.Source where
  /-- The file with its declarations in module blocks. -/
  declarations : Option String
  /-- The file with its declarations in the global tree. -/
  globals : Option String
deriving DecidableEq, Repr, Inhabited

/-- The settings of a run. -/
structure Settings where
  library : Option Settings.Source
  dependencies : List Settings.Dependency
  output : Option String
  flavorChoice : Option (List Flavor)
  stubChoice : Option Bool
  formatCommand : Option (List String)
  checkChoice : Option Bool
  checkCommand : Option String
  strictChoice : Option Bool
  /-- The directory from which relative paths are seen. -/
  base : String
deriving DecidableEq, Repr, Inhabited

namespace Settings

/-- Settings that say nothing. -/
def default : Settings := ⟨none, [], none, none, none, none, none, none, none, ""⟩

/-- The name of the settings file. -/
def fileName : String := "dtsgen.toml"

/-- The directory for declaration files as it is written. -/
def directory (s : Settings) : String := s.output.getD "out"

/-- The flavors to generate; an empty choice is none. -/
def flavors (s : Settings) : List Flavor :=
  match s.flavorChoice with
  | some (flavor :: rest) => flavor :: rest
  | _ => Flavor.all

/-- Whether files for hand-written additions are started. -/
def startsAugmentations (s : Settings) : Bool := s.stubChoice.getD true

/-- Whether the declarations are checked by a compiler. -/
def checks (s : Settings) : Bool := s.checkChoice.getD false

/-- Whether a collision of symbols stops the run. -/
def isStrict (s : Settings) : Bool := s.strictChoice.getD false

/-- A program and its arguments. -/
structure Command where
  program : String
  arguments : List String
deriving DecidableEq, Repr, Inhabited

/-- The command with a list of words, if there is any. -/
def Command.ofWords? : List String → Option Command
  | [] => none
  | program :: arguments => some ⟨program, arguments⟩

/-- The formatter. -/
def formatter (s : Settings) : Option Command := s.formatCommand.bind Command.ofWords?

/-- The command line of the compiler. -/
def compilerLine (s : Settings) : String := s.checkCommand.getD "tsc"

/-- The compiler. -/
def compiler (s : Settings) : Option Command := Command.ofWords? (Text.words s.compilerLine)

/-- A path of the settings, seen from their directory. -/
def resolve (s : Settings) (path : String) : String := Files.join s.base path

/-- The directory for declaration files. -/
def outputDirectory (s : Settings) : String := s.resolve s.directory

end Settings

end Ambient
