import Ambient.Files.Fault
import Ambient.Files.Path
import Ambient.Ordered.Map
import Ambient.Text.Bytes

/-!
# File trees

The files and directories of a machine as a map from locations, and the operations that a run
needs. A path is walked part by part; every part but the last has to lead to a directory that is
there.
-/

namespace Ambient.Files

/-- The names from the root down to a file or directory. -/
abbrev Location := List String

/-- What stands at a location. -/
inductive Entry where
  | file (content : String)
  /-- A file whose bytes are no text. -/
  | data (content : Bytes)
  | directory
  /-- A file that stays empty whatever is written to it. -/
  | void
  /-- A program of the machine. Its content is not known, only that it is no text. -/
  | program
deriving DecidableEq, Repr, Inhabited

namespace Entry

/-- The file with some bytes. -/
def ofBytes (content : Bytes) : Entry :=
  match Bytes.text? content with
  | some text => .file text
  | none => .data content

/-- The text of a file. -/
def text : Entry → Except Fault String
  | .file content => .ok content
  | .data _ => .error .notText
  | .program => .error .notText
  | .directory => .error .isDirectory
  | .void => .ok ""

/-- The bytes of a file. -/
def bytes : Entry → Except Fault Bytes
  | .file content => .ok (Bytes.ofText content)
  | .data content => .ok content
  | .directory => .error .isDirectory
  | .void | .program => .ok []

end Entry

/-- The files and directories below the root, which is always there. -/
structure Tree where
  entries : Ordered.Map Location Entry

namespace Tree

/-- The tree of a root alone. -/
def empty : Tree := ⟨∅⟩

/-- By default a tree has nothing in it. -/
instance : Inhabited Tree := ⟨empty⟩

/-- What stands at a location. -/
def entry? (t : Tree) (place : Location) : Option Entry :=
  if place.isEmpty then some .directory else t.entries.get? place

/-- Puts something at a location. -/
def put (t : Tree) (place : Location) (entry : Entry) : Tree := ⟨t.entries.put place entry⟩

/-- The location that one part of a path leads to. -/
def step (place : Location) (part : String) : Location :=
  if part = "." then place
  else if part = ".." then place.dropLast
  else place ++ [part]

/-- The most bytes that a name can have. -/
def nameLimit : Nat := 255

/-- The most bytes that a path can have. -/
def pathLimit : Nat := 4095

/-- The location that the parts of a path lead to, where something may be or not. -/
def follow (t : Tree) (place : Location) : List String → Except Fault Location
  | [] => .ok place
  | part :: rest =>
    match t.entry? place with
    | none => .error .missing
    | some .directory =>
      if nameLimit < part.utf8ByteSize then .error .nameTooLong
      else t.follow (step place part) rest
    | some _ => .error .notDirectory

/-- Where a path starts, seen from a working directory. -/
def startOf (working : Location) (path : String) : Location :=
  if isAbsolute path then [] else working

/-- Whether a text can be a path at all. -/
def checkText (path : String) : Except Fault Unit :=
  if path.toList.contains '\x00' then .error .zeroInPath
  else if pathLimit < path.utf8ByteSize then .error .nameTooLong
  else .ok ()

/-- The location of a path. -/
def locate (t : Tree) (working : Location) (path : String) : Except Fault Location := do
  if path.isEmpty then throw .missing
  checkText path
  t.follow (startOf working path) (parts path ++ if endsInSeparator path then ["."] else [])

/-- What stands at a path. -/
def find (t : Tree) (working : Location) (path : String) : Except Fault Entry := do
  match t.entry? (← t.locate working path) with
  | some entry => return entry
  | none => throw .missing

/-- The location of a path at which a file can be written. A separator at the end asks for a
directory. -/
def locateFile (t : Tree) (working : Location) (path : String) : Except Fault Location := do
  if !endsInSeparator path then t.locate working path
  else
    checkText path
    let place ← t.follow (startOf working path) (parts path).dropLast
    match t.entry? place with
    | some .directory => throw .isDirectory
    | some _ => throw .notDirectory
    | none => throw .missing

/-- The content of the file at a path. -/
def read (t : Tree) (working : Location) (path : String) : Except Fault String := do
  (← t.find working path).text

/-- Whether something stands at a path. -/
def contains (t : Tree) (working : Location) (path : String) : Bool :=
  match t.locate working path with
  | .ok place => (t.entry? place).isSome
  | .error _ => false

/-- The tree with a file at a location, unless what is written there is lost. -/
def replace (t : Tree) (place : Location) (file : Entry) : Tree :=
  if t.entry? place = some .void then t else t.put place file

/-- The tree with a file at a path, which may be new. -/
def writeEntry (t : Tree) (working : Location) (path : String) (file : Entry) :
    Except Fault Tree := do
  let place ← t.locateFile working path
  match t.entry? place with
  | some .directory => throw .isDirectory
  | _ => return t.replace place file

/-- The tree with a content for the file at a path, which may be new. -/
def write (t : Tree) (working : Location) (path content : String) : Except Fault Tree :=
  t.writeEntry working path (.file content)

/-- Makes the directories that are missing on the way along the parts of a path. What has been
made stays if a file is in the way. -/
def makeAlong (t : Tree) (place : Location) : List String → Tree × Except Fault Unit
  | [] => (t, .ok ())
  | part :: rest =>
    let next := step place part
    match t.entry? next with
    | some .directory => t.makeAlong next rest
    | some _ => (t, .error .exists)
    | none =>
      if nameLimit < part.utf8ByteSize then (t, .error .nameTooLong)
      else (t.put next .directory).makeAlong next rest

/-- The parts without the dots they end in. -/
def dropDots (parts : List String) : List String :=
  (parts.reverse.dropWhile fun part => part == ".").reverse

/-- Makes the directories along the parts of a path. A directory that is named by a dot is not
made. -/
def makeParts (t : Tree) (start : Location) (all : List String) : Tree × Except Fault Unit :=
  let named := dropDots all
  if named = all then t.makeAlong start all
  else
    match t.makeAlong start named.dropLast with
    | (made, .ok ()) => (made, (made.follow start all).map fun _ => ())
    | failed => failed

/-- Makes the directory at a path and those above it, as far as they are missing. -/
def makeDirectories (t : Tree) (working : Location) (path : String) : Tree × Except Fault Unit :=
  let start := startOf working path
  match checkText path, t.follow start (parts path) with
  | .error fault, _ => (t, .error fault)
  | _, .error .notDirectory => (t, .error .notDirectory)
  | _, _ => t.makeParts start (parts path)

/-- The names of what stands in the directory at a location. -/
def names (t : Tree) (place : Location) : List String :=
  t.entries.keys.filterMap fun location =>
    if location.dropLast = place then location.getLast? else none

/-- The directories of a machine that hold its programs. -/
def programDirectories : List Location := [["bin"], ["usr", "bin"]]

/-- The tree of a machine without files of its own: the directories that are always there, those of
the programs, and the files that stay empty. -/
def system : Tree :=
  let directories := [["dev"], ["etc"], ["home"], ["root"], ["tmp"], ["usr"], ["var"]]
  let all := directories ++ programDirectories
  let base := all.foldl (fun t place => t.put place .directory) empty
  (base.put ["dev", "null"] .void).put ["dev", "stdin"] .void

/-- The tree with programs in the directories for them. -/
def install (t : Tree) (names : List String) : Tree :=
  programDirectories.foldl (fun t directory =>
    names.foldl (fun t name => t.put (directory ++ [name]) .program) t) t

/-- The name of the program at a path. -/
def programAt? (t : Tree) (working : Location) (path : String) : Option String :=
  match t.locate working path with
  | .ok place => if t.entry? place = some .program then place.getLast? else none
  | .error _ => none

/-- The files below a location that another tree lacks or has with another content, each with its
path from there. -/
def changes (t other : Tree) (place : Location) : List (String × Entry) :=
  t.entries.entries.filterMap fun (location, entry) =>
    let isFile := entry matches .file _ | .data _
    if isFile ∧ place.isPrefixOf location ∧ other.entry? location ≠ some entry then
      some ("/".intercalate (location.drop place.length), entry)
    else none

end Tree

end Ambient.Files
