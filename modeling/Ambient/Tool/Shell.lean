import Ambient.Tool.Shell.Builtin
import Ambient.Tool.Shell.Call

/-!
# The shell

Runs scripts: a line is read and then run before the next one is read. Every part of a script that
would be a process of its own runs on its own, one after another, so that a pipeline passes on all
that a command has written when the command has ended. What is put into the background runs when
the script next waits for anything.
-/

namespace Ambient.Tool.Shell

/-- How a command stands in its script: whether a failure of it is tested, so that it does not end
the script, and whether it is the last thing that its process does. -/
structure Role where
  isTested : Bool := false
  isLast : Bool := false
deriving DecidableEq, Repr, Inhabited

namespace Role

/-- The role of a command that others follow. -/
def followed (role : Role) : Role := { role with isLast := false }

/-- The role of a test. -/
def test : Role := { isTested := true }

/-- The role of the last command of a process. -/
def ending (role : Role) : Role := { role with isLast := true }

end Role

/-! ## Assignments -/

/-- Expands assignments one after another, each before the next. Those that are temporary are seen
by programs; the answer has what the variables were. -/
def assignEach (capture : Capture) (isTemporary isExported : Bool) :
    List (Raw × Word) → Action (List (Raw × Raw) × List (Raw × Option Variable))
  | [] => return ([], [])
  | (name, word) :: rest => do
    let value ← expandValue capture word
    let old := (← get).bindings.lookup name
    Action.assign name value
    if isTemporary then modify fun s => s.setVariable name ⟨some value, true, false⟩
    else if isExported then
      modify fun s => s.setVariable name ⟨some value, true, s.isReadOnly name⟩
    let (values, olds) ← assignEach capture isTemporary isExported rest
    return ((name, value) :: values, (name, old) :: olds)

/-- Makes variables what they were. The entry for the options has their letters. -/
def State.restoreVariables (olds : List (Raw × Option Variable)) (s : State) : State :=
  olds.reverse.foldl (fun s (name, old) =>
    if name = ['-'] then { s with flags := (old.bind Variable.value).getD [] }
    else
      match old with
      | some v => s.setVariable name v
      | none => s.dropVariable name) s

/-- What stands in front of commands that are shown: it is expanded, unless that cannot be done.
Commands in there are not shown. -/
def traceSign (capture : Capture) : Action Raw := fun s =>
  let written := (s.held? (raw "PS4")).getD []
  let expand : Action Raw := do
    match signParts s.documentCount written with
    | .ok parts => return Item.text (← expandParts capture {} false parts)
    | .error complaint => Action.abort (raw ("Syntax error: " ++ complaint.text))
  let restore (after : State) : State :=
    { after with flags := s.flags, status := s.status, innerStatus := s.innerStatus }
  match expand.run { s with flags := turn false 'x' s.flags } with
  | (.error .fault, after) => (.ok written, restore after)
  | (result, after) => (result, restore after)

/-- Shows a command before it runs, if that is asked for. -/
def trace (capture : Capture) (number : Option Nat) (values : List (Raw × Raw))
    (words : List Raw) : Action Unit := do
  match number, (← get).has 'x' with
  | some number, true =>
    let sign ← traceSign capture
    let shown := (values.map fun (name, value) => name ++ '=' :: value) ++ words
    modify fun s => (s.writeTo number (sign ++ [' '].intercalate shown ++ ['\n'])).2
  | _, _ => return

/-! ## Leaving -/

/-- Runs an action up to where it is left; only the end of the shell itself, or of its process,
goes on. -/
def contained (action : Action Unit) : Action Unit := fun s =>
  match action.run s with
  | (.error (.killed signal), s) => (.error (.killed signal), s)
  | (.error (.replaced ending), s) => (.error (.replaced ending), s)
  | (_, s) => (.ok (), s)

/-- Runs an action, which a fault ends. -/
def absorbing (action : Action Unit) : Action Unit := fun s =>
  match action.run s with
  | (.error .fault, s) => (.ok (), s)
  | result => result

/-- Runs an action, which the end of a function ends. -/
def returning (action : Action Unit) : Action Unit := fun s =>
  match action.run s with
  | (.error .function, s) => (.ok (), s)
  | result => result

/-- Runs a turn of a loop; the answer says whether there may be another one. -/
def turning (action : Action Unit) : Action Bool := fun s =>
  match action.run s with
  | (.ok _, s) => (.ok true, s)
  | (.error (.loops count goesOn), s) =>
    if 1 < count then (.error (.loops (count - 1) goesOn), s) else (.ok goesOn, s)
  | (.error leaving, s) => (.error leaving, s)

/-- Runs an action inside a loop. -/
def looping (action : Action Unit) : Action Unit := do
  modify fun s => { s with loops := s.loops + 1 }
  action.thenRestore fun s => { s with loops := s.loops - 1 }

/-- Runs an action in a process of its own that starts in a situation, and then what the process
leaves behind. The answer is how the process ends. -/
def apart (start : Situation) (action rest : Action Unit) : Action Ending := fun before =>
  let (result, after) := action.run (before.enter start)
  let (_, after) := rest.run after
  let rejoined := before.rejoin after
  match result with
  | .error (.killed signal) => (.error (.killed signal), rejoined)
  | .error (.replaced ending) => (.ok ending, rejoined)
  | _ => (.ok (.exited (after.status % 256)), rejoined)

/-- Ends the script if its last command failed and that is asked for; failures that are tested do
not count. -/
def checkStatus (role : Role) : Action Unit := do
  let s ← get
  if !role.isTested && s.has 'e' && s.status ≠ 0 then throw .script

/-- Takes over the ending of a process. If the process that waited for it does nothing else, it ends
in the same way. -/
def endAs (role : Role) (ending : Ending) : Action Unit := do
  if role.isLast && !(← get).hasTraps then throw (.replaced ending)
  Action.takeOver ending
  Trap.noteEnd

/-- Runs an action while a command of the shell is at work. What it could not write is complained
about at its end. -/
def calling (name : Raw) (action : Action Unit) : Action Unit := do
  let before ← get
  set { before with caller := some name, hasLostOutput := false }
  let complete : Action Unit := do
    action
    if (← get).hasLostOutput then
      Action.complain (name ++ raw ": I/O error")
      modify fun s => { s with status := s.status ||| 1 }
  complete.thenRestore fun s =>
    { s with caller := before.caller, hasLostOutput := before.hasLostOutput }

/-- Puts the line of a command into the state. -/
def atLine (line : Nat) : Action Unit := modify fun s => { s with line := line }

/-- Runs a program that is called by a name in a process of its own, or in the place of the one that
calls it. -/
def runProgram (run : Program) (isInPlace : Bool) (name : Raw) (arguments : List Raw) :
    Action Ending := do
  if !isInPlace then modify State.startProcess
  let s ← get
  let world := s.worldFor name
  let outcome := run arguments (s.input 0) (if isInPlace then
    { world with process := s.process, parent := s.parent } else world)
  let after := { s with world := { s.world with tree := outcome.tree } }.setInput 0 outcome.unread
  set (outcome.furtherUnread.foldl (fun s entry => s.setInput entry.1 entry.2) after)
  modify fun s => outcome.pieces.foldl (fun s (outlet, text) =>
    s.write (match outlet with
      | .output => 1
      | .errors => 2
      | .further descriptor => descriptor) text) s
  modify State.seeJobs
  for signal in outcome.signals.reverse do
    Trap.receive signal
  return outcome.ending

/-! ## Running -/

mutual

/-- Runs a command; the bound limits the depth of the work and the turns of loops. -/
def run (programs : Lookup) : Nat → Role → Command → Action Unit
  | 0, _, _ => throw .fault
  | bound + 1, role, command => do
    let capture := captured programs bound
    if (← get).has 'n' then return
    match command with
    | .sequence commands => runAll programs bound role commands
    | .negated inner =>
      run programs bound .test inner
      modify fun s => { s with status := if s.status = 0 then 1 else 0 }
    | .both first second =>
      run programs bound .test first
      if (← get).status = 0 then run programs bound role second
    | .either first second =>
      run programs bound .test first
      if (← get).status ≠ 0 then run programs bound role second
    | .background inner =>
      let members := match inner with
        | .pipeline commands => commands.length
        | _ => 1
      modify fun s => s.addJob members inner
      Action.finish 0
    | .pipeline commands =>
      runJobs programs bound
      runPiped programs bound role none commands
      Trap.noteEnd
      runDue programs bound
      checkStatus role
    | .subshell line body redirections =>
      atLine line
      runJobs programs bound
      modify State.startProcess
      let ending ← apart (← get).toSituation
        (concluded programs bound (do
          let all ← expandRedirections capture redirections
          if !(← redirecting capture all (run programs bound role.ending body)) then
            Action.finish 2))
        (runJobs programs bound)
      endAs role ending
      runDue programs bound
      checkStatus role
    | .redirected line body redirections =>
      atLine line
      let all ← expandRedirections capture redirections
      if !(← redirecting capture all (run programs bound role.followed body)) then
        Action.finish 2
    | .branch test body otherwise =>
      run programs bound .test test
      if (← get).status = 0 then run programs bound role body
      else if otherwise.isNothing then Action.finish 0
      else run programs bound role otherwise
    | .loop isUntil test body =>
      looping (repeated programs bound role.followed isUntil test body 0)
    | .each line name words body =>
      atLine line
      let values ← expandAll capture words
      Action.finish 0
      looping (runEach programs bound role.followed name body values)
    | .choice line word cases =>
      atLine line
      let value ← expandText capture word
      runChoice programs bound role value cases
    | .define name body =>
      modify fun s => { s with functions := State.replace name body s.functions }
      Action.finish 0
    | .simple line assignments words redirections =>
      atLine line
      modify fun s => { s with innerStatus := 0 }
      runSimple programs bound role assignments words redirections
      runDue programs bound
      checkStatus role

/-- Runs a simple command. -/
def runSimple (programs : Lookup) :
    Nat → Role → List (Raw × Word) → List Word → List Redirection → Action Unit
  | 0, _, _, _, _ => throw .fault
  | bound + 1, role, assignments, words, redirections => do
    let capture := captured programs bound
    let call? ← Call.ofWords capture bound words
    let redirected ← expandRedirections capture redirections
    let errors := (← get).descriptors.lookup 2
    match call? with
    | none =>
      let done ← redirecting capture redirected do
        let (values, _) ← assignEach capture false false assignments
        if !values.isEmpty then trace capture errors values []
        Action.finish (← get).innerStatus
      if !done then Action.finish 2
    | some call =>
      let isExec := call.isOwn "exec"
      let invocation : Action Unit := do
        let (values, olds) ← assignEach capture (!call.isSpecial)
          (isExec && !call.arguments.isEmpty) assignments
        trace capture errors values call.words
        let callee ← call.callee programs
        let invoked := invoke programs bound role callee call.name call.arguments
        if call.isSpecial then invoked
        else
          let guarded := match callee with
            | .builtin _ | .runner _ => absorbing invoked
            | _ => invoked
          guarded.thenRestore (State.restoreVariables olds)
      let redirect := if isExec ∧ call.arguments.isEmpty then redirectingForGood else redirecting
      if !(← redirect capture redirected invocation) then
        Action.finish 2
        if call.isSpecial then throw .fault

/-- Runs commands one after another. -/
def runAll (programs : Lookup) : Nat → Role → List Command → Action Unit
  | 0, _, _ => throw .fault
  | _, _, [] => return
  | bound + 1, role, [last] => run programs bound role last
  | bound + 1, role, first :: rest => do
    run programs bound role.followed first
    runAll programs bound role rest

/-- Runs the scripts of the signals that have come, the one with the lowest number first. They leave
the status as it was. -/
def runDue (programs : Lookup) : Nat → Action Unit
  | 0 => throw .fault
  | bound + 1 => do
    let s ← get
    match s.due.min? with
    | none => return
    | some signal =>
      let status := s.trapped.getD s.status
      set
        { s with due := s.due.filter fun other => other != signal, trapped := some status }
      match s.traps.lookup signal with
      | some script =>
        (runText programs bound {} false script).thenRestore fun after =>
          { after with trapped := s.trapped }
        Action.finish status
      | none => modify fun after => { after with trapped := s.trapped }
      runDue programs bound

/-- Runs the jobs that wait, the first one first. -/
def runJobs (programs : Lookup) : Nat → Action Unit
  | 0 => throw .fault
  | bound + 1 => do
    let waiting? (job : Job) : Option (Nat × Situation × Command) :=
      match job.progress with
      | .waiting start command => some (job.process, start, command)
      | .ended _ => none
    let status := (← get).status
    match (← get).jobs.reverse.findSome? waiting? with
    | none => return
    | some (process, start, command) =>
      let start :=
        { start with world := { start.world with ignored := start.world.ignored ++ [2, 3] } }
      let ending ← apart start
        (concluded programs bound (do
          lead 0 .nothing
          run programs bound { isLast := true } command))
        (runJobs programs bound)
      modify fun s => s.updateJob process fun job =>
        some { job with progress := .ended ending }
      Trap.noteEnd
      Action.finish status
      runJobs programs bound

/-- Runs what a name calls. -/
def invoke (programs : Lookup) : Nat → Role → Callee → Raw → List Raw → Action Unit
  | 0, _, _, _, _ => throw .fault
  | bound + 1, role, callee, name, arguments => do
    match callee with
    | .builtin action => calling name (action arguments)
    | .program action =>
      runJobs programs bound
      let isInPlace := role.isLast && !(← get).hasTraps
      endAs role (← runProgram action isInPlace name arguments)
    | .missing status reason =>
      Action.complain (name ++ raw (": " ++ reason))
      Action.finish status
    | .function body =>
      let before ← get
      set
        { before with
          parameters := arguments
          loops := 0
          saved := [] :: before.saved
          optionPlace := 1
          letterPlace := none }
      (returning (run programs bound role.followed body)).thenRestore fun s =>
        let restored :=
          { s with
            parameters := before.parameters
            loops := before.loops
            saved := before.saved
            optionPlace := before.optionPlace
            letterPlace := before.letterPlace }
        restored.restoreVariables (s.saved.headD []).reverse
    | .runner "eval" =>
      Action.finish 0
      calling name (runText programs bound role.followed false ([' '].intercalate arguments))
    | .runner "." => calling name (runFile programs bound role.followed arguments)
    | .runner "exec" =>
      match arguments with
      | [] => Action.finish 0
      | other :: rest =>
        match replacing programs (← get) other with
        | .program action =>
          runJobs programs bound
          throw (.replaced (← runProgram action true other rest))
        | callee =>
          calling name (invoke programs bound role callee other rest)
          throw .script
    | .runner "wait" =>
      runJobs programs bound
      calling name (Job.await arguments)
    | .runner "hash" => calling name (hash programs arguments)
    | .runner "command" => calling name (tellCommand programs arguments)
    | .runner _ => calling name (tellAll programs arguments)

/-- Runs the script in a file, which is looked for where programs are. -/
def runFile (programs : Lookup) : Nat → Role → List Raw → Action Unit
  | 0, _, _ => throw .fault
  | bound + 1, role, arguments => do
    let (_, operands) ← optionsOf [] [] arguments
    match operands with
    | [] => Action.finish 0
    | name :: _ =>
      let s ← get
      match s.scriptAt? name with
      | none => Action.abort (name ++ raw ": not found")
      | some path =>
        match s.world.read path with
        | .ok script =>
          Action.finish 0
          calling path (returning (runText programs bound role true script))
        | .error .isDirectory => Action.finish 0
        | .error .missing | .error .notDirectory =>
          Action.abort (raw "cannot open " ++ path ++ raw ": No such file")
        | .error fault =>
          Action.abort (raw "cannot open " ++ path ++ raw (": " ++ faultText fault))

/-- Runs a script that is a text. -/
def runText (programs : Lookup) : Nat → Role → Bool → Raw → Action Unit
  | 0, _, _, _ => throw .fault
  | bound + 1, role, showsLines, text => do
    let line := (← get).readingLine
    (runLines programs bound role showsLines (Cursor.start text)).thenRestore fun s =>
      { s with readingLine := line }

/-- Runs what is left of a script line by line. Lines that are shown are those of files. -/
def runLines (programs : Lookup) : Nat → Role → Bool → Cursor → Action Unit
  | 0, _, _, _ => throw .fault
  | bound + 1, role, showsLines, cursor => do
    if cursor.isFinished then return
    let s ← get
    match nextLine s.aliases s.documentCount cursor with
    | .error complaint =>
      atLine complaint.line
      Action.abort (raw ("Syntax error: " ++ complaint.text))
    | .ok (command, next) =>
      set
        { s with
          documents := next.documents ++ s.documents
          documentCount := next.count
          readingLine := next.line }
      let consumed := cursor.rest.take (cursor.rest.length - next.rest.length)
      if showsLines && s.has 'v' then modify fun s => s.write 2 consumed
      let isLast := role.isLast && (next.pushed matches some .finish)
      run programs bound { role with isLast := isLast } command
      runLines programs bound role showsLines next

/-- Runs the commands of a pipeline, each on its own with what the one before has written. -/
def runPiped (programs : Lookup) : Nat → Role → Option Raw → List Command → Action Unit
  | 0, _, _, _ => throw .fault
  | _, _, _, [] => return
  | bound + 1, role, input, first :: rest => do
    modify State.startProcess
    let before ← get
    let mark := before.nextChannel
    let isLast := rest.isEmpty
    let start : Action Unit := do
      match input with
      | some text => lead 0 (.source text)
      | none => pure ()
      if !isLast then lead 1 (.sink [])
    let number := if input.isSome then mark + 1 else mark
    let ending ← apart before.toSituation
      (concluded programs bound (do
        start
        run programs bound role.ending first))
      (runJobs programs bound)
    Action.takeOver ending
    let written := (← get).collected number
    modify fun s => s.dropChannels mark
    if !isLast then runPiped programs bound role (some written) rest

/-- Runs a script on its own, and answers with what it has written, without line ends behind it. -/
def captured (programs : Lookup) : Nat → List Command → Action Raw
  | 0, _ => throw .fault
  | bound + 1, script => do
    runJobs programs bound
    modify State.startProcess
    let before ← get
    let number := before.nextChannel
    let ending ← apart before.toSituation
      (concluded programs bound (do
        lead 1 (.sink [])
        runAll programs bound { isLast := true } script))
      (runJobs programs bound)
    Action.takeOver ending
    Trap.noteEnd
    let after ← get
    set ({ after with status := before.status, innerStatus := after.status }.dropChannels number)
    let written := (after.collected number).filter fun c => c != '\x00'
    return (written.reverse.dropWhile fun c => c == '\n').reverse

/-- Runs an action that is left where it ends, and what is to be run at the end. That leaves the
status as it is, unless it is ended with another one or by a fault. -/
def concluded (programs : Lookup) : Nat → Action Unit → Action Unit
  | 0, _ => throw .fault
  | bound + 1, action => do
    contained action
    match (← get).traps.lookup 0 with
    | none => return
    | some script =>
      let status := (← get).status
      modify fun s =>
        { s with traps := s.traps.filter fun entry => entry.1 != 0, trapped := some status }
      let inner : Action Unit := fun s =>
        match (runText programs bound {} false script).run s with
        | (.ok _, s) | (.error .function, s) | (.error (.loops _ _), s) =>
          (.ok (), { s with status := status })
        | result => result
      contained inner

/-- Runs the turns of a loop while a test holds, or until it does. `last` is the status of the turn
before. -/
def repeated (programs : Lookup) : Nat → Role → Bool → Command → Command → Nat → Action Unit
  | 0, _, _, _, _, _ => throw .fault
  | bound + 1, role, isUntil, test, body, last => do
    if ← turning (run programs bound .test test) then
      if ((← get).status = 0) = isUntil then Action.finish last
      else if ← turning (run programs bound role body) then
        repeated programs bound role isUntil test body (← get).status
    else return

/-- Runs a command for each of some values of a variable. -/
def runEach (programs : Lookup) : Nat → Role → Raw → Command → List Raw → Action Unit
  | 0, _, _, _, _ => throw .fault
  | _, _, _, _, [] => return
  | bound + 1, role, name, body, value :: rest => do
    Action.assign name value
    if ← turning (run programs bound role body) then
      runEach programs bound role name body rest

/-- Runs the first of some cases that a value fits. -/
def runChoice (programs : Lookup) :
    Nat → Role → Raw → List (List Word × Command) → Action Unit
  | 0, _, _, _ => throw .fault
  | _, _, _, [] => Action.finish 0
  | bound + 1, role, value, (patterns, body) :: rest => do
    if ← fitsAny programs bound value patterns then
      if body.isNothing then Action.finish 0 else run programs bound role body
    else runChoice programs bound role value rest

/-- Whether a value fits one of some patterns. -/
def fitsAny (programs : Lookup) : Nat → Raw → List Word → Action Bool
  | 0, _, _ => throw .fault
  | _, _, [] => return false
  | bound + 1, value, pattern :: rest => do
    let fitting ← expandPattern (captured programs bound) pattern
    if Glob.fits fitting value then return true
    else fitsAny programs bound value rest

end

/-! ## The tool -/

/-- A bound on the depth of the work that no script reaches which ends. -/
def depthLimit : Nat := 1000000

/-- The channels of a process at its start, with the descriptors that lead to them. -/
def startChannels (w : World) (input : Raw) : List (Nat × Nat) × List (Nat × Channel) :=
  let own : List (Nat × Connection × Channel) :=
    [(0, w.input, .source input), (1, w.output, .outlet .output), (2, w.errors, .outlet .errors)]
  let opened := own.filterMap fun (descriptor, connection, channel) =>
    match connection with
    | .closed => none
    | .directory => some (descriptor, .directory)
    | _ => some (descriptor, channel)
  let further := w.further.map fun (descriptor, rest) =>
    (descriptor, if rest.isEmpty then .outlet (.further descriptor) else Channel.source rest)
  let all := opened ++ further
  (all.map fun entry => (entry.1, entry.1), all)

/-- The state of a script at its start. -/
def startState (w : World) (flags : List Char) (name : Raw) (parameters : List Raw) (input : Raw) :
    State :=
  let (descriptors, channels) := startChannels w input
  let ofEnvironment := w.environment.map fun (name, value) => (name, Variable.mk value true false)
  let own (name : String) (value : Raw) : Raw × Variable := (raw name, ⟨some value, false, false⟩)
  let others := [own "OPTIND" ['1'], own "IFS" (raw " \t\n"), own "PS1" (raw "# "),
    own "PS2" (raw "> "), own "PS4" (raw "+ "), own "PPID" (State.decimal w.parent)]
  let directory := Directory.pathOf w.working
  let start : State :=
    { world := w
      directory := directory
      descriptors := descriptors
      name := name
      parameters := parameters
      bindings := others.foldl (fun all (name, v) => State.replace name v all) ofEnvironment
      functions := []
      aliases := []
      used := []
      flags := flags
      status := 0
      innerStatus := 0
      line := 0
      readingLine := 1
      caller := none
      hasLostOutput := false
      loops := 0
      saved := []
      traps := []
      outerTraps := none
      due := []
      trapped := none
      optionPlace := 1
      letterPlace := none
      background := none
      process := w.process
      parent := w.parent
      pieces := []
      channels := channels
      documents := []
      documentCount := 0
      arrived := []
      signals := []
      lastProcess := w.process
      jobs := [] }
  start.setVariable (raw "PWD") ⟨some directory, true, false⟩

/-- Runs a script, which may be a text or come from a file. -/
def runScript (programs : Lookup) (w : World) (reading : OptionReading) (flags : List Char)
    (name : Raw) (parameters : List Raw) (input : Raw) (isText : Bool) (script : Raw) : Outcome :=
  let warning := raw "can\x27t access tty; job control turned off"
  let action : Action Unit := do
    modify fun s => s.put (raw reading.shown)
    if flags.contains 'm' then Action.complain warning
    concluded programs depthLimit
      (runText programs depthLimit { isLast := isText } (!isText) script)
  let flags := flags.filter fun flag => flag != 'm'
  let (result, s) := action.run (startState w flags name parameters input)
  let (_, s) := (runJobs programs depthLimit).run s
  let ending : Ending := match result with
    | .error (.killed signal) => .killed signal
    | .error (.replaced ending) => ending
    | _ => .exited (s.status % 256)
  let unread (descriptor : Nat) : Raw := match s.channels.lookup descriptor with
    | some (.source rest) => rest
    | _ => []
  { ending := ending
    pieces := s.pieces.reverse
    unread := unread 0
    tree := s.world.tree
    furtherUnread := w.further.map fun (descriptor, _) => (descriptor, unread descriptor)
    signals := s.signals }

/-- The tool: it runs a script that is an argument, stands in a file, or is the input. -/
def shell (programs : Lookup) : Program := fun arguments input w =>
  let refuse (text : String) : Outcome := w.refuse input 2 ("0: " ++ text)
  match readOptions true [] arguments with
  | .error text => refuse text
  | .ok reading =>
    let start := runScript programs w reading
    match reading.isCommand, reading.flags.contains 's', reading.rest with
    | true, _, [] => refuse "-c requires an argument"
    | true, _, script :: rest =>
      start reading.flags (rest.headD w.name) rest.tail input true script
    | false, false, path :: rest =>
      match w.read path with
      | .ok script => start reading.flags path rest input false script
      | .error .isDirectory => w.after 0 []
      | .error _ => refuse ("cannot open " ++ toText path ++ ": No such file")
    | false, _, rest => start (turn true 's' reading.flags) w.name rest [] false input

end Ambient.Tool.Shell
