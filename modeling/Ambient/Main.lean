import Ambient.CommandLine.Run
import Ambient.Tool.Programs

/-!
# The program

A real machine as a host, and the program that runs a command line on it. Everything that is
decided is decided elsewhere: here files are read and written, and faults are named. No processes
are started: a formatter or a compiler has to be one of the tools, which run on a copy of the files
that their arguments name.
-/

namespace Ambient

/-- The fault that an error of the machine stands for. -/
def faultOf : IO.Error → Files.Fault
  | .noFileOrDirectory .. => .missing
  | .permissionDenied .. => .denied
  | .alreadyExists .. => .exists
  | .inappropriateType _ number _ => if number = 21 then .isDirectory else .notDirectory
  | error => .other error.toString

/-- The result of an action, or the fault for which it failed. -/
def attempt {α : Type} (action : IO α) : IO (Except Files.Fault α) := do
  match ← action.toBaseIO with
  | .ok result => return .ok result
  | .error error => return .error (faultOf error)

/-- The text of the file at a path. -/
def readText (path : String) : IO (Except Files.Fault String) := do
  match ← attempt (IO.FS.readBinFile path) with
  | .error fault => return .error fault
  | .ok bytes =>
    match String.fromUTF8? bytes with
    | some text => return .ok text
    | none => return .error .notText

/-- Whether the file or directory at a path can be opened. -/
def isThere (path : String) : IO Bool := do
  match ← attempt (IO.FS.Handle.mk path .read) with
  | .ok _ | .error .denied => return true
  | .error _ => return false

/-- The file at a path, if it can be read. -/
def entryAt (path : String) : IO (Option Files.Entry) := do
  match ← attempt (IO.FS.readBinFile path) with
  | .ok bytes => return some (.ofBytes bytes.toList)
  | .error _ => return none

/-- The tree of the directory and of the files with some paths. -/
def treeOf (working : Files.Location) (paths : List String) : IO Files.Tree := do
  let (tree, _) := Tool.machineTree.makeDirectories [] ("/".intercalate working)
  paths.foldlM (fun tree path => do
    match ← entryAt path, tree.locate working path with
    | some entry, .ok place => return tree.put place entry
    | _, _ => return tree) tree

/-- Runs a tool. It may read and change the files that its arguments name. -/
def runTool (command : Settings.Command) (input : Bytes) :
    IO (Except Files.Fault Execution) := do
  let working := Files.parts (← IO.currentDir).toString
  let tree ← treeOf working (command.program :: command.arguments)
  match Tool.programs command input working tree with
  | .error fault => return .error fault
  | .ok (execution, after) =>
    for (path, entry) in after.changes tree [] do
      match entry.bytes with
      | .ok bytes =>
        let _ ← attempt (IO.FS.writeBinFile ("/" ++ path) ⟨bytes.toArray⟩)
      | .error _ => pure ()
    return .ok execution

/-- Files and commands of the world outside. -/
instance : Host IO where
  read := readText
  write path content := attempt (IO.FS.writeFile path content)
  contains := isThere
  makeDirectories path :=
    if path.isEmpty then return .ok () else attempt (IO.FS.createDirAll path)
  workingDirectory := return (← IO.currentDir).toString
  execute := runTool

end Ambient

/-- Runs the command line. -/
def main (arguments : List String) : IO UInt32 := do
  let exit ← (Ambient.CommandLine.run arguments : IO Ambient.CommandLine.Exit)
  IO.print exit.output
  IO.eprint exit.errors
  return exit.status.toUInt32
