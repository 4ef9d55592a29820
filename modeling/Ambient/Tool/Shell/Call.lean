import Ambient.Tool.Shell.Builtin
import Ambient.Tool.Shell.Expansion
import Ambient.Tool.Shell.Reader

/-!
# Calls

What the words of a simple command call: a command of the shell, a function, or a program. The words
are expanded up to the name that is called, since that tells how the others are expanded.
-/

/-!
## Where programs are found

A name without a separator is looked for in the directories of a list, one after another; the
directory that is left empty there is the current one. The places that have been found are
remembered until the list changes.
-/

namespace Ambient.Tool.Shell

/-- The programs that a script can call, by name. -/
abbrev Lookup := String → Option Program

/-- The program that a path leads to. -/
def programAt? (programs : Lookup) (w : World) (path : Raw) : Option Program :=
  (w.tree.programAt? w.working (toText path)).bind programs

/-- The directories in which programs are if nothing else is said. -/
def usualDirectories : Raw :=
  raw "/usr/local/sbin:/usr/local/bin:/usr/sbin:/usr/bin:/sbin:/bin"

/-- The directories in which a script looks for programs. -/
def State.programPath (s : State) : Raw := (s.held? (raw "PATH")).getD []

/-- The first of some paths at which there is a program, or why there is none: `reason` is what
kept an earlier one from being it. -/
def firstProgram (programs : Lookup) (w : World) (reason : String) :
    List Raw → Except String (Raw × Program)
  | [] => .error reason
  | path :: rest =>
    match programAt? programs w path with
    | some run => .ok (path, run)
    | none =>
      match w.tree.find w.working (toText path) with
      | .ok _ => firstProgram programs w "Permission denied" rest
      | .error .missing | .error .notDirectory => firstProgram programs w reason rest
      | .error fault => firstProgram programs w (faultText fault) rest

/-- The program with a name, in the directories of a list. -/
def searchProgram (programs : Lookup) (w : World) (directories name : Raw) :
    Except String (Raw × Program) :=
  firstProgram programs w "not found" ((Directory.candidates directories name).map Prod.snd)

/-- The state in which the place of a program is remembered. -/
def State.remember (s : State) (name path : Raw) : State :=
  if s.used.any fun entry => entry.1 == name then
    { s with used := s.used.map fun entry => if entry.1 == name then (name, path, false) else entry }
  else { s with used := s.used ++ [(name, path, false)] }

/-- The number of rows in the table of programs that are known. -/
def programRows : Nat := 31

end Ambient.Tool.Shell

namespace Ambient.Tool.Shell

/-- What a name calls: a command of the shell, one that runs other commands, a function, a program,
or nothing, with a status and a reason. -/
inductive Callee where
  | builtin (run : Builtin)
  | runner (name : String)
  | function (body : Command)
  | program (run : Program)
  | missing (status : Nat) (reason : String)

/-- The command of the shell with a name. -/
def ownCallee? (name : Raw) : Option Callee :=
  let text := String.ofList name
  if Builtin.runningNames.contains text then some (.runner text)
  else (Builtin.find? text).map .builtin

/-- The program that a path calls. A file that is no program cannot be run. -/
def pathCallee (programs : Lookup) (w : World) (path : Raw) : Callee :=
  match programAt? programs w path with
  | some run => .program run
  | none =>
    match w.tree.find w.working (toText path) with
    | .ok _ => .missing 126 "Permission denied"
    | .error .missing | .error .notDirectory => .missing 127 "not found"
    | .error fault => .missing 127 (faultText fault)

/-- What a name calls that takes the place of the shell. -/
def replacing (programs : Lookup) (s : State) (name : Raw) : Callee :=
  if name.contains '/' then pathCallee programs s.world name
  else
    match searchProgram programs s.world s.programPath name with
    | .ok (_, run) => .program run
    | .error reason => .missing (if reason = "Permission denied" then 126 else 127) reason

/-- What a name calls, functions first where they are seen, with the path of a program that has been
looked for. -/
def calleeOf (programs : Lookup) (s : State) (directories : Raw) (seesFunctions : Bool)
    (name : Raw) : Callee × Option Raw :=
  match if seesFunctions then s.functions.lookup name else none, ownCallee? name with
  | some body, _ => (.function body, none)
  | none, some callee => (callee, none)
  | none, none =>
    if name.contains '/' then (pathCallee programs s.world name, none)
    else
      match searchProgram programs s.world directories name with
      | .ok (path, run) => (.program run, some path)
      | .error reason => (.missing 127 reason, none)

/-- Finds what a name calls, and remembers where a program is. -/
def findCallee (programs : Lookup) (isUsual seesFunctions : Bool) (name : Raw) :
    Action (Callee × Option Raw) := do
  let s ← get
  let directories := if isUsual then usualDirectories else s.programPath
  let (callee, path?) := calleeOf programs s directories seesFunctions name
  match path?, isUsual with
  | some path, false => set (s.remember name path)
  | _, _ => pure ()
  return (callee, path?)

/-! ## Words -/

/-- A call as far as its words have been expanded: the words before the name that is called, the
name with further words, and those that are still to be expanded. -/
structure Head where
  before : List Raw
  fields : List Raw
  rest : List Word
  /-- Whether programs are looked for in the usual directories. -/
  isUsual : Bool
  /-- Whether a function can be called. -/
  seesFunctions : Bool
  /-- Whether the first command that is named is a special one of the shell. -/
  isSpecial : Bool
  /-- Whether operands can be assignments. -/
  declares : Bool

/-- Expands words up to the first one that does not vanish. -/
def firstFields (capture : Capture) : List Word → Action (List Raw × List Word)
  | [] => return ([], [])
  | word :: rest => do
    match ← expandFields capture word with
    | [] => firstFields capture rest
    | fields => return (fields, rest)

namespace Head

/-- Passes over the first word, if there is another one. -/
def pass? (capture : Capture) (h : Head) : Action (Option Head) := do
  match h.fields with
  | first :: second :: more =>
    return some { h with before := h.before ++ [first], fields := second :: more }
  | [first] =>
    let (fields, rest) ← firstFields capture h.rest
    return if fields.isEmpty then none
      else some { h with before := h.before ++ [first], fields := fields, rest := rest }
  | [] => return none

/-- Passes over the options of a command that calls another one, up to that. The flag says whether
there is one; a command that is only to be told of is none. -/
def passOptions (capture : Capture) : Nat → Head → Action (Head × Bool)
  | 0, h => return (h, false)
  | bound + 1, h => do
    match ← h.pass? capture with
    | none => return ({ h with rest := [] }, false)
    | some h =>
      match h.fields.headD [] with
      | ['-', '-'] =>
        match ← h.pass? capture with
        | none => return ({ h with rest := [] }, false)
        | some h => return (h, true)
      | '-' :: letter :: letters =>
        if (letter :: letters).all fun c => c == 'p' then
          passOptions capture bound { h with isUsual := true }
        else return (h, false)
      | _ => return (h, true)

/-- Passes over commands that call others. `isFirst` says whether none has been passed. -/
def passCommands (capture : Capture) : Nat → Bool → Head → Action Head
  | 0, _, h => return h
  | bound + 1, isFirst, h => do
    let name := String.ofList (h.fields.headD [])
    let isFunction := h.seesFunctions && ((← get).functions.lookup (h.fields.headD [])).isSome
    if isFunction || (ownCallee? (h.fields.headD [])).isNone then return h
    let h :=
      { h with
        isSpecial := if isFirst then specialNames.contains name else h.isSpecial
        declares := Builtin.declaringNames.contains name }
    if name ≠ "command" then return h
    let (passed, isCall) ← h.passOptions capture bound
    if isCall then passCommands capture bound false { passed with seesFunctions := false }
    else
      let words := passed.before.drop h.before.length ++ passed.fields
      return { passed with before := h.before, fields := words }

end Head

/-- A call: all its words, the name that is called, and the arguments. -/
structure Call where
  words : List Raw
  name : Raw
  arguments : List Raw
  isUsual : Bool
  seesFunctions : Bool
  isSpecial : Bool

namespace Call

/-- Expands the operands of a command that declares variables: assignments are not divided. -/
def expandDeclared (capture : Capture) : List Word → Action (List Raw)
  | [] => return []
  | word :: rest => do
    let first ← match assignment? word with
      | some (name, value) => do pure [name ++ '=' :: (← expandValue capture value)]
      | none => expandFields capture word
    return first ++ (← expandDeclared capture rest)

/-- The call that words come to, if they do not vanish. The bound is on the number of words. -/
def ofWords (capture : Capture) (bound : Nat) (words : List Word) : Action (Option Call) := do
  let (fields, rest) ← firstFields capture words
  if fields.isEmpty then return none
  let h ← Head.passCommands capture bound true ⟨[], fields, rest, false, true, false, false⟩
  let operands ← if h.declares then expandDeclared capture h.rest else expandAll capture h.rest
  return some
    { words := h.before ++ h.fields ++ operands
      name := h.fields.headD []
      arguments := h.fields.tail ++ operands
      isUsual := h.isUsual
      seesFunctions := h.seesFunctions
      isSpecial := h.isSpecial }

/-- Whether a call is one of a command of the shell with a name. -/
def isOwn (call : Call) (name : String) : Bool := call.name == raw name

/-- Finds what is called. -/
def callee (programs : Lookup) (call : Call) : Action Callee := do
  return (← findCallee programs call.isUsual call.seesFunctions call.name).1

end Call

/-! ## Telling what is called -/

/-- Tells what a name calls, with all words or as it can be called. -/
def tell (programs : Lookup) (isUsual isVerbose : Bool) (name : Raw) : Action Unit := do
  let say (words : String) : Action Unit := do
    Action.put (if isVerbose then name ++ raw (" is " ++ words ++ "\n") else name ++ ['\n'])
  let s ← get
  if (Keyword.all.lookup (String.ofList name)).isSome then say "a shell keyword"
  else
    match s.aliases.lookup name with
    | some value =>
      if isVerbose then say ("an alias for " ++ toText value)
      else Action.put (raw "alias " ++ Alias.text name value)
    | none =>
      let isTracked := !isUsual && s.used.any fun entry => entry.1 == name
      match ← findCallee programs isUsual true name with
      | (.function _, _) => say "a shell function"
      | (.missing 126 _, _) | (.program _, none) => say (toText name)
      | (.program _, some path) =>
        if isVerbose then say ((if isTracked then "a tracked alias for " else "") ++ toText path)
        else Action.put (path ++ ['\n'])
      | (.missing .., _) =>
        if isVerbose then Action.put (name ++ raw ": not found\n")
        Action.finish 127
      | (.builtin _, _) | (.runner _, _) =>
        let isSpecial := specialNames.contains (String.ofList name)
        say (if isSpecial then "a special shell builtin" else "a shell builtin")

/-- Tells what names call. -/
def tellAll (programs : Lookup) (names : List Raw) : Action Unit := do
  Action.finish 0
  forEach (tell programs false true) names

/-- Tells what a name calls, as options ask for. -/
def tellCommand (programs : Lookup) (arguments : List Raw) : Action Unit := do
  let (options, operands) ← optionsOf ['p', 'v', 'V'] [] arguments
  let has (letter : Char) : Bool := options.any fun option => option.1 == letter
  Action.finish 0
  match operands with
  | [] => return
  | name :: _ => if has 'v' || has 'V' then tell programs (has 'p') (has 'V') name

/-- Looks for programs, or tells which ones are known. Paths need no search. -/
def hash (programs : Lookup) (arguments : List Raw) : Action Unit := do
  let (options, names) ← optionsOf ['r'] [] arguments
  Action.finish 0
  if !options.isEmpty then modify fun s => { s with used := [] }
  else if names.isEmpty then
    for (_, path, isDoubtful) in inTableOrder programRows (← get).used do
      Action.put (path ++ (if isDoubtful then ['*'] else []) ++ ['\n'])
  else
    forEach (fun name => do
      if name.contains '/' then return
      modify fun s => { s with used := s.used.filter fun entry => entry.1 != name }
      match ← findCallee programs false true name with
      | (.missing _ reason, _) =>
        Action.complain (name ++ raw (": " ++ reason))
        Action.finish 1
      | _ => pure ()) names

/-- The path of a script that is looked for where programs are. -/
def State.scriptAt? (s : State) (name : Raw) : Option Raw :=
  if name.contains '/' then some name
  else
    let paths := (Directory.candidates s.programPath name).map Prod.snd
    paths.find? fun path =>
      match s.world.tree.find s.world.working (toText path) with
      | .ok .directory | .ok .void | .error _ => false
      | .ok _ => true

end Ambient.Tool.Shell
