import Ambient.Execution
import Ambient.Files.Tree
import Ambient.Settings.Basic

/-!
# Hosts

What a run asks of the machine it runs on: files are read, written and looked for, directories are
made, and programs are executed. A `Machine` answers all of it without effects: its files are a
tree, and its programs a function of what they are given and of the files, which they may change.
-/

namespace Ambient

/-- A run's access to a machine. -/
class Host (m : Type → Type) where
  /-- The text of the file at a path. -/
  read : String → m (Except Files.Fault String)
  /-- Makes a text the content of the file at a path. -/
  write : String → String → m (Except Files.Fault Unit)
  /-- Whether there is anything at a path. -/
  contains : String → m Bool
  /-- Makes the directory at a path and those above it. -/
  makeDirectories : String → m (Except Files.Fault Unit)
  /-- The path from which relative paths are seen. -/
  workingDirectory : m String
  /-- Runs a program on an input to its end. -/
  execute : Settings.Command → Bytes → m (Except Files.Fault Execution)

/-- Programs as functions of the command, the input, the directory they run in and the files. They
leave the files as they have changed them, unless they cannot be started. -/
abbrev Programs :=
  Settings.Command → Bytes → Files.Location → Files.Tree →
    Except Files.Fault (Execution × Files.Tree)

/-- A machine without effects. -/
structure Machine where
  tree : Files.Tree
  working : Files.Location
  programs : Programs

namespace Machine

/-- The fault of an operation on the tree, which changes nothing if it fails. -/
def attempt (machine : Machine) (result : Except Files.Fault Files.Tree) :
    Except Files.Fault Unit × Machine :=
  match result with
  | .ok tree => (.ok (), { machine with tree := tree })
  | .error fault => (.error fault, machine)

/-- The content of the file at a path. -/
def read (machine : Machine) (path : String) : Except Files.Fault String :=
  machine.tree.read machine.working path

/-- A machine is the host of a computation that passes it on. -/
instance : Host (StateM Machine) where
  read path := do return (← get).read path
  write path content := fun machine =>
    machine.attempt (machine.tree.write machine.working path content)
  contains path := do
    let machine ← get
    return machine.tree.contains machine.working path
  makeDirectories path := fun machine =>
    let (tree, result) := machine.tree.makeDirectories machine.working path
    (result, { machine with tree := tree })
  workingDirectory := do return "/" ++ "/".intercalate (← get).working
  execute command input := fun machine =>
    match machine.programs command input machine.working machine.tree with
    | .ok (execution, tree) => (.ok execution, { machine with tree := tree })
    | .error fault => (.error fault, machine)

end Machine

end Ambient
