import Ambient.Api.Validity
import Ambient.Directives.Decode
import Ambient.Library
import Ambient.Output
import Ambient.Patch

/-!
# Generating declarations

A run reads the library and its dependencies, prepares and emits it in each flavor, finishes and
writes the text, and has the compiler check what was written. The first failure ends the run; what
was written before stays.
-/

namespace Ambient.Generation

/-- Why the compiler did not accept the declarations. -/
inductive CheckError where
  | notStarted (program : String) (fault : Files.Fault)
  | refused (ending : Ending) (output : String)
deriving DecidableEq, Repr, Inhabited

/-- The text of a failed check. -/
def CheckError.message : CheckError → String
  | .notStarted program fault =>
    "failed to run compiler `" ++ program ++ "`: " ++ fault.message
  | .refused ending output =>
    "compiler check failed with " ++ ending.message ++ ":\n" ++ output

/-- Why a run fails. -/
inductive Error where
  | noLibrary
  | api (cause : Api.Error)
  | directives (cause : Directives.Error)
  | library (cause : Library.Error)
  | naming (cause : Arena.Error)
  | write (path : String) (fault : Files.Fault)
  | check (cause : CheckError)
deriving Repr, Inhabited

/-- The text of an error. -/
def Error.message : Error → String
  | .noLibrary => "no library to generate; add a [library] section to the config"
  | .api cause => cause.message
  | .directives cause => cause.message
  | .library cause => cause.message
  | .naming cause => cause.message
  | .write path fault => "failed to write " ++ path ++ ": " ++ fault.message
  | .check cause => cause.message

/-- A file that a run has written. -/
structure File where
  flavor : Flavor
  path : String
  /-- The number of modules that are declared. -/
  modules : Nat
  warnings : List Warning
  startedAugmentation : Bool
deriving Repr, Inhabited

/-- What a run has done. -/
structure Report where
  library : String
  corrections : Correction.Report
  collisions : Nat
  files : List File
  isChecked : Bool
deriving Repr, Inhabited

/-- What is to be generated: settings, the flavors in their order, and whether to check. -/
structure Request where
  settings : Settings
  flavors : List Flavor
  checks : Bool
deriving DecidableEq, Repr, Inhabited

namespace Request

/-- The request that settings make by themselves. -/
def ofSettings (s : Settings) : Request := ⟨s, s.flavors, s.checks⟩

/-- The same request for other flavors. -/
def withFlavors (request : Request) (flavors : List Flavor) : Request :=
  { request with flavors := flavors }

/-- The same request without the check. -/
def withoutCheck (request : Request) : Request := { request with checks := false }

end Request

section

variable {m : Type → Type} [Monad m] [Host m]

/-- A run may fail. -/
abbrev Run (m : Type → Type) := ExceptT Error m

/-- The result of a computation that fails without effects. -/
def orFail {ε α : Type} (wrap : ε → Error) (result : Except ε α) : Run m α :=
  ExceptT.mk (pure (result.mapError wrap))

/-- Reads a file. -/
def readFile (wrap : Files.Fault → Error) (path : String) : Run m String := do
  let content ← (Host.read path : m (Except Files.Fault String))
  orFail wrap content

/-- Reads a description. -/
def readDescription (path : String) : Run m Api.Description := do
  let text ← readFile (fun fault => .api (.unreadable path fault)) path
  orFail .api (Api.Description.parse text)

/-- Reads a file of directives. -/
def readDirectives (path : String) : Run m Directives := do
  let text ← readFile (fun fault => .directives (.unreadable path fault)) path
  match Directives.parse? text with
  | some directives => return directives
  | none => throw (.directives (.malformed path))

/-- Reads a library: its description, then its directives. -/
def readLibrary (s : Settings) (source : Settings.Source) : Run m Library := do
  let description ← readDescription (s.resolve source.api)
  let directives ← source.directives.mapM fun path => readDirectives (s.resolve path)
  return ⟨source.name, description, Directives.empty.merge directives⟩

/-- The text of declarations as a formatter leaves it, unless it fails. -/
def format (formatter : Option Settings.Command) (text : String) : m (Option String) := do
  match formatter with
  | none => return some text
  | some command =>
    match ← Host.execute command (Bytes.ofText text) with
    | .ok execution =>
      return if execution.ending.isSuccess then Bytes.text? execution.output else none
    | .error _ => return none

/-- The finished text of an emission. -/
def finish (formatter : Option Settings.Command) (e : Declaration.Emission) : m String := do
  let formatted ← format formatter (Patch.applyStage .beforeFormat e.library e.flavor e.text)
  return Patch.finish (fun _ => formatted) e.library e.flavor e.text

/-- Emits, finishes and writes a library in a flavor. -/
def generateFlavor (s : Settings) (prepared : Library.Prepared) (flavor : Flavor) : Run m File := do
  let emission ← orFail .naming (prepared.emit flavor)
  let text ← (finish s.formatter emission : m String)
  let directory := s.outputDirectory
  let writing : ExceptT Files.Fault m Output.Written :=
    Output.write directory emission.library flavor text s.startsAugmentations
  let path := Output.declarationPath directory emission.library flavor
  let written ← orFail (.write path) (← (writing.run : m (Except Files.Fault Output.Written)))
  return ⟨flavor, written.path, emission.modules.length, emission.warnings,
    written.startedAugmentation⟩

/-- The declarations of the dependencies in the flavor of a file, and the file itself. -/
def checkedPaths (s : Settings) (file : File) : List String :=
  let declared (d : Settings.Dependency) : Option String :=
    match file.flavor with
    | .modules => d.declarations
    | .globals => d.globals
  (s.dependencies.filterMap declared).map s.resolve ++ [file.path]

/-- What a failed compiler has to say. -/
def complaint (execution : Execution) : String :=
  Text.trimEnd (Bytes.lossyText execution.output ++ Bytes.lossyText execution.errors)

/-- Has the compiler check a file. -/
def checkFile (compiler : Settings.Command) (s : Settings) (file : File) : Run m Unit := do
  let arguments := compiler.arguments ++ ["--noEmit", "--strict"] ++ checkedPaths s file
  match ← (Host.execute ⟨compiler.program, arguments⟩ [] : m (Except Files.Fault Execution)) with
  | .error fault => throw (.check (.notStarted compiler.program fault))
  | .ok execution =>
    if !execution.ending.isSuccess then
      throw (.check (.refused execution.ending (complaint execution)))

/-- Has the compiler check the files one by one; answers whether there is a compiler. -/
def check (s : Settings) (files : List File) : Run m Bool := do
  match s.compiler with
  | none => return false
  | some compiler =>
    files.forM (checkFile compiler s)
    return true

/-- Generates the declarations of the library that settings name. -/
def run (request : Request) : Run m Report := do
  let s := request.settings
  match s.library with
  | none => throw .noLibrary
  | some source =>
    let primary ← readLibrary s source
    let dependencies ← s.dependencies.mapM fun d => readLibrary s d.toSource
    let prepared ← orFail .library (primary.prepare dependencies s.isStrict)
    let files ← request.flavors.mapM (generateFlavor s prepared)
    let isChecked ← if request.checks then check s files else pure false
    return ⟨source.name, prepared.linked.report, prepared.table.collisions.length, files, isChecked⟩

end

end Ambient.Generation
