import Ambient.Correction.Loader
import Ambient.Flavor
import Ambient.Text.Replace

/-!
# Patches

Textual changes to the declarations of a library, before and after they go through a formatter.
The core library gets a hand-kept preamble; the namespace whose name is a reserved word is spelled
with a letter that looks alike, where it is declared and where it is referred to; every file gets
a header. A formatter that fails leaves the text as it was.
-/

namespace Ambient

/-- When a patch is applied. -/
inductive Patch.Stage where
  | beforeFormat
  | afterFormat
deriving DecidableEq, Repr, Inhabited

/-- A patch: where it applies, and what it makes of the text of a library. -/
structure Patch where
  name : String
  stage : Patch.Stage
  applies : String → Flavor → Bool
  apply : String → Flavor → String → String

namespace Patch

/-! ## The preamble of the core library -/

/-- The line of the preamble that opens the loader's module. -/
def loaderModule : String := "declare module \x22sap/ui/core/loader\x22 \x7b"

/-- The line that opens the loader's namespace in the global tree. -/
def loaderNamespace : String := "declare namespace sap.ui.core.loader \x7b"

/-- The line that opens what the loader declares. -/
def loaderLine : Flavor → String
  | .modules => loaderModule
  | .globals => loaderNamespace

/-- The preamble line by line. -/
def preambleLines (flavor : Flavor) : List String :=
  ["// Hand-maintained declarations for the module loader of sap.ui.core.",
    "",
    "/**",
    " * Names of all modules that can be loaded with `sap.ui.define` and",
    " * `sap.ui.require`. Each library\x27s declarations add its own module names.",
    " */",
    "interface IUI5DefineDependencyNames \x7b\x7d",
    "",
    loaderLine flavor,
    "    /**",
    "     * Any module name known to the loader.",
    "     */",
    "    export type ModuleName = keyof IUI5DefineDependencyNames;",
    "",
    "    /**",
    "     * Constructor of a class exported by a loaded module.",
    "     */",
    "    export type ClassConstructor<T = object> = new (...args: any[]) => T;",
    "\x7d",
    ""]

/-- The preamble of the core library. -/
def preamble (flavor : Flavor) : String :=
  String.join ((preambleLines flavor).map fun line => line ++ "\n")

/-- Puts the preamble and an empty line in front. -/
def addPreamble (flavor : Flavor) (text : String) : String := preamble flavor ++ "\n" ++ text

/-! ## The namespace with a reserved name -/

/-- The letter that looks like the first one of the reserved name. -/
def lookalike : Char := '\u0435'

/-- The reserved word with the letter that looks alike. -/
def respelled : String := String.ofList (lookalike :: "xport".toList)

/-- Respells the namespace where it is declared, then where it stands in front of a dotted name. -/
def respellExport (text : String) : String :=
  Text.replace (Text.replace text "namespace export " ("namespace " ++ respelled ++ " "))
    "sap.ui.export." ("sap.ui." ++ respelled ++ ".")

/-! ## The header -/

/-- The lines at the top of every file. -/
def header (library : String) (flavor : Flavor) : String :=
  "// Generated declarations for " ++ library ++ " (" ++ flavor.word ++ "). Do not edit.\n"
    ++ "// Hand-written additions belong in " ++ library ++ ".augment.d.ts.\n\n"

/-! ## Application -/

/-- All patches, in the order of application. -/
def all : List Patch :=
  [{ name := "core-preamble"
     stage := .beforeFormat
     applies := fun library _ => library == Correction.coreLibrary
     apply := fun _ flavor text => addPreamble flavor text },
    { name := "export-namespace"
      stage := .beforeFormat
      applies := fun _ flavor => flavor == .globals
      apply := fun _ _ text => respellExport text },
    { name := "generated-header"
      stage := .afterFormat
      applies := fun _ _ => true
      apply := fun library flavor text => header library flavor ++ text }]

/-- The patches that apply to a library in a flavor. -/
def applicable (library : String) (flavor : Flavor) : List Patch :=
  all.filter fun patch => patch.applies library flavor

/-- Applies the patches of a stage. -/
def applyStage (stage : Stage) (library : String) (flavor : Flavor) (text : String) : String :=
  ((applicable library flavor).filter fun patch => patch.stage = stage).foldl
    (fun text patch => patch.apply library flavor text) text

/-- The finished text for a text: patched, formatted if the formatter succeeds, and patched
again. -/
def finish (format : String → Option String) (library : String) (flavor : Flavor)
    (text : String) : String :=
  let patched := applyStage .beforeFormat library flavor text
  applyStage .afterFormat library flavor ((format patched).getD patched)

end Patch

end Ambient
