import Ambient.CommandLine.Help
import Ambient.Generation
import Ambient.Settings.Load

/-!
# Running a command line

What a call prints and how it ends. Results and reports are printed as lines with a label, and a
failure as the error and the fault behind it. A call that is misused ends with a status of its own.
-/

namespace Ambient.CommandLine

/-- How a call ends: its status, and what it prints to its two outputs. -/
structure Exit where
  status : Nat
  output : String
  errors : String
deriving DecidableEq, Repr, Inhabited

/-- The status of a call that failed. -/
def failed : Nat := 1

/-- The status of a call that was misused. -/
def misused : Nat := 2

/-- The version. -/
def version : String := "dtsgen 0.1.0"

/-- A line with a label. -/
def statusLine (label message : String) : String := padLeft 12 label ++ " " ++ message ++ "\n"

/-! ## Failures -/

/-- Why a call fails. -/
inductive Error where
  | settings (cause : Settings.Error)
  | api (cause : Api.Error)
  | generation (cause : Generation.Error)
  | noLibrary
deriving Repr, Inhabited

/-- The text of an error. -/
def Error.message : Error → String
  | .settings cause => cause.message
  | .api cause => cause.message
  | .generation cause => cause.message
  | .noLibrary =>
    "no library configured; pass --api and --library or create " ++ Settings.fileName

/-- The fault behind an error, if there is one. -/
def Error.fault? : Error → Option Files.Fault
  | .settings (.unreadable _ fault) => some fault
  | .api (.unreadable _ fault) => some fault
  | .generation (.api (.unreadable _ fault)) => some fault
  | .generation (.directives (.unreadable _ fault)) => some fault
  | .generation (.write _ fault) => some fault
  | .generation (.check (.notStarted _ fault)) => some fault
  | _ => none

/-- The error and the fault behind it. -/
def Error.chain (e : Error) : String :=
  match e.fault? with
  | some fault => e.message ++ ": " ++ fault.message
  | none => e.message

/-- How a call ends that fails. -/
def Exit.ofError (e : Error) : Exit := ⟨failed, "", statusLine "error" e.chain⟩

/-! ## Reports -/

/-- The lines about a file. -/
def fileLines (file : Generation.File) : String :=
  let counts :=
    Nat.repr file.modules ++ " modules, " ++ Nat.repr file.warnings.length ++ " warnings"
  statusLine "Generated" (file.path ++ " (" ++ file.flavor.word ++ ", " ++ counts ++ ")")
    ++ if file.startedAugmentation then statusLine "Created" "augmentation stub" else ""

/-- The lines about a run. -/
def reportLines (r : Generation.Report) : String :=
  String.join (r.files.map fileLines)
    ++ (if 0 < r.collisions then
      statusLine "Warning" (Nat.repr r.collisions ++ " duplicate symbol definition(s)") else "")
    ++ if r.isChecked then statusLine "Checked" "compiler accepted the declarations" else ""

/-- The line about a symbol. -/
def symbolLine (s : Symbol) : String :=
  padRight 10 s.kind.word ++ " " ++ (if s.fqn.isEmpty then "<top-level>" else s.fqn) ++ "\n"

/-- The line about a collision. -/
def collisionLine (c : Symbol.Collision) : String :=
  statusLine "Collision" (c.fqn ++ " defined as " ++ c.kept.word ++ ", also as " ++ c.dropped.word)

/-- How a listing of a table ends. -/
def Exit.ofTable (t : Symbol.Table) : Exit :=
  ⟨0, String.join (t.toList.map symbolLine), String.join (t.collisions.map collisionLine)⟩

/-! ## Calls -/

section

variable {m : Type → Type} [Monad m] [Host m]

/-- The settings of a call: those of its file, changed by its options. -/
def settingsOf (o : GenerateOptions) : ExceptT Error m Settings := do
  let working ← (Host.workingDirectory : m String)
  let loading : ExceptT Settings.Error m Settings :=
    match o.settings with
    | some path => Settings.load path
    | none => do return (← Settings.discover working).getD Settings.default
  let s ← ExceptT.mk (do return (← loading.run).mapError Error.settings)
  let s := match o.api, o.library with
    | some api, some name =>
      let source : Settings.Source :=
        ⟨name, Files.join working api, o.directives.map (Files.join working)⟩
      { s with library := some source }
    | _, _ => s
  return match o.output with
    | some directory => { s with output := some (Files.join working directory) }
    | none => s

/-- Generates declarations. -/
def generate (o : GenerateOptions) : ExceptT Error m Generation.Report := do
  let s ← settingsOf o
  if s.library.isNone then throw .noLibrary
  let request := match o.flavor with
    | some flavor => (Generation.Request.ofSettings s).withFlavors [flavor]
    | none => .ofSettings s
  let request := if o.skipsCheck then request.withoutCheck else request
  ExceptT.mk (do return (← (Generation.run request).run).mapError Error.generation)

/-- The table of the symbols in a description. -/
def symbolTable (api library : String) : ExceptT Error m Symbol.Table := do
  match ← (Host.read api : m (Except Files.Fault String)) with
  | .error fault => throw (.api (.unreadable api fault))
  | .ok text =>
    match Api.Description.parse text with
    | .error cause => throw (.api cause)
    | .ok description => return Symbol.Table.ofDescription library description

/-- Runs a call. -/
def runInvocation : Invocation → m Exit
  | .version => return ⟨0, version ++ "\n", ""⟩
  | .help topic => return ⟨0, topic.text, ""⟩
  | .generate options => do
    match ← (generate options).run with
    | .ok report => return ⟨0, "", reportLines report⟩
    | .error e => return .ofError e
  | .symbols api library => do
    match ← (symbolTable api library).run with
    | .ok table => return .ofTable table
    | .error e => return .ofError e

/-- Runs a command line. -/
def run (arguments : List String) : m Exit :=
  match parse arguments with
  | some invocation => runInvocation invocation
  | none => return ⟨misused, "", Help.overview⟩

end

end Ambient.CommandLine
