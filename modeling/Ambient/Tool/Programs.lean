import Ambient.Host
import Ambient.Tool.Concatenation
import Ambient.Tool.Shell
import Ambient.Tool.StreamEditor
import Ambient.Tool.Transliteration

/-!
# Programs of a machine

The tools by name: what settings can name as their formatter or their compiler on a machine that has
no other programs. A program can also be named by a path that leads to it. Formatters are mostly
calls of a stream editor, and compilers scripts that look at the files they are given, so there is a
shell beside the tools that it calls. A run needs none of this from a machine, whose programs can be
any function; the tools are one such function that can be computed.
-/

namespace Ambient.Tool

/-- The names of the tools. -/
def names : List String := ["cat", "false", "sed", "sh", "tr", "true"]

/-- The files of a machine that has the tools and nothing of its own. -/
def machineTree : Files.Tree := Files.Tree.system.install names

/-- A tool that only succeeds or fails. It gives help if nothing else is asked for. -/
def constant (tool : String) (isSuccess : Bool) : Program := fun arguments input w =>
  let pieces : List (Outlet × Raw) :=
    if arguments = [raw "--help"] then
      [(.output, raw (Help.constant tool isSuccess (toText w.name)))]
    else []
  w.leaving (if isSuccess then 0 else 1) pieces input

/-- The tool with a name. Shells can run shells down to a depth. -/
def find? : Nat → Shell.Lookup
  | depth, name =>
    match name, depth with
    | "cat", _ => some Concatenation.concatenate
    | "tr", _ => some Transliteration.transliterate
    | "sed", 0 => some (StreamEditor.streamEdit none)
    | "sed", depth + 1 => some (StreamEditor.streamEdit (some (Shell.shell (find? depth))))
    | "true", _ => some (constant "true" true)
    | "false", _ => some (constant "false" false)
    | "sh", depth + 1 => some (Shell.shell (find? depth))
    | _, _ => none

/-- Every tool is there for a shell. -/
example : names.all (fun name => (find? 1 name).isSome) = true := rfl

/-- The depth of shells in each other. -/
def shellDepth : Nat := 64

/-- The variables that programs are given. -/
def environment : List (Raw × Raw) :=
  [(raw "HOME", raw "/root"), (raw "PATH", raw "/usr/bin:/bin")]

/-- Why a program is not there: a path may lead to a file that is no program, the dots are names of
directories, and no file has a name that is too long. -/
def absence (program : String) (working : Files.Location) (tree : Files.Tree) : Files.Fault :=
  if program.toList.contains '/' then
    match tree.find working program with
    | .ok _ => .denied
    | .error fault => fault
  else if program = "." ∨ program = ".." then .denied
  else if Files.Tree.nameLimit < program.utf8ByteSize then .nameTooLong
  else .missing

/-- The tool that a command names, or the one that a path leads to. -/
def toolOf? (program : String) (working : Files.Location) (tree : Files.Tree) : Option Program :=
  if program.toList.contains '/' then (tree.programAt? working program).bind (find? shellDepth)
  else find? shellDepth program

/-- Runs the tool that a command names; there are no other programs. -/
def programs : Programs := fun command input working tree =>
  if (command.program :: command.arguments).any fun word => word.toList.contains '\x00' then
    .error .zeroInCommand
  else
    match toolOf? command.program working tree with
    | some tool =>
      let world : World :=
        { name := raw command.program, tree := tree, working := working
          environment := environment }
      let outcome := tool (command.arguments.map raw) (ofBytes input) world
      .ok (⟨outcome.ending, toBytes (outcome.written .output), toBytes (outcome.written .errors)⟩,
        outcome.tree)
    | none => .error (absence command.program working tree)

end Ambient.Tool
