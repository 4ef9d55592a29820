import Ambient.Tool.Shell.Variables

/-!
# Jobs

Parts of a script that run in the background. A job keeps its number until the script has waited for
it and another process is started, or until its end has been told.
-/

namespace Ambient.Tool.Shell

namespace Job

/-- How a job has ended, if it has. -/
def ending? (job : Job) : Option Ending :=
  match job.progress with
  | .waiting .. => none
  | .ended ending => some ending

/-- The status that a job leaves. -/
def status (job : Job) : Nat :=
  match job.ending? with
  | some (.exited status) => status % 256
  | some (.killed signal) => 128 + signal
  | none => 0

/-- The progress of a job in words. -/
def progressText (job : Job) : String :=
  match job.ending? with
  | none => "Running"
  | some (.exited status) =>
    if status % 256 = 0 then "Done" else "Done(" ++ Nat.repr (status % 256) ++ ")"
  | some (.killed signal) => Signal.description signal

/-- Fills a text up to the column of commands, which are not told. -/
def filled (text : String) : String :=
  text ++ String.ofList (List.replicate (max 1 (33 - text.length)) ' ')

/-- What is told of jobs. -/
inductive Detail where
  | progress
  | processes
  | numbers
deriving DecidableEq, Repr, Inhabited

/-- What is told of a job, with a sign for the last one and the one before. -/
def text (job : Job) (detail : Detail) (sign : Char) : String :=
  let first := job.process + 1 - job.members
  let head := "[" ++ Nat.repr job.number ++ "] " ++ String.ofList [sign] ++ " "
  let others := List.range (job.members - 1)
  match detail with
  | .numbers => Nat.repr first ++ "\n"
  | .progress =>
    filled (head ++ job.progressText) ++ String.join (others.map fun _ => " | ") ++ "\n"
  | .processes =>
    let indent := String.ofList (List.replicate head.length ' ')
    let line (i : Nat) : String := " |\n" ++ filled (indent ++ Nat.repr (first + i + 1) ++ " ")
    filled (head ++ Nat.repr first ++ " " ++ job.progressText) ++ String.join (others.map line)
      ++ "\n"

end Job

/-! ## The list of jobs -/

namespace State

/-- The state in which a job is replaced by what becomes of it, if anything does. -/
def updateJob (s : State) (process : Nat) (change : Job → Option Job) : State :=
  { s with jobs := s.jobs.filterMap fun job =>
      if job.process = process then change job else some job }

/-- The lowest number that a job can be given, and the state in which it is free. -/
def freeNumber (s : State) : Nat × State :=
  let isTaken (number : Nat) : Bool := s.jobs.any fun job =>
    job.number = number && !(job.isSettled && job.ending?.isSome)
  let number := ((List.range (s.jobs.length + 1)).map (· + 1)).find? fun n => !isTaken n
  let number := number.getD 1
  (number, { s with jobs := s.jobs.filter fun job => job.number != number })

/-- The state after a process has been started: it takes the next number. -/
def startProcess (s : State) : State := { s with lastProcess := s.lastProcess + 1 }.freeNumber.2

/-- The state with one more job, which waits to be run. -/
def addJob (s : State) (members : Nat) (command : Command) : State :=
  let (number, s) := s.freeNumber
  let process := s.lastProcess + members
  let job : Job := ⟨number, process, members, .waiting s.toSituation command, false, false⟩
  { s with lastProcess := process, background := some process, jobs := job :: s.jobs }

/-- The state in which the shell has seen all that has ended. -/
def seeJobs (s : State) : State :=
  { s with jobs := s.jobs.map fun job => { job with isSeen := job.isSeen || job.ending?.isSome } }

/-- The job that a word names. -/
def findJob (s : State) (word : Raw) : Except String Job :=
  let demand (job? : Option Job) (text : String) : Except String Job :=
    match job? with
    | some job => .ok job
    | none => .error text
  let missing := "No such job: " ++ toText word
  match word with
  | ['%'] | ['%', '+'] | ['%', '%'] => demand s.jobs[0]? "No current job"
  | ['%', '-'] => demand s.jobs[1]? "No previous job"
  | '%' :: name =>
    match if name.all Char.isDigit then (toText name).toNat? else none with
    | some number => demand (s.jobs.find? fun job => job.number = number) missing
    | none => .error missing
  | _ => .error missing

end State

namespace Job

/-- The job that a word names, or the last one. -/
def named (word : Raw) : Action Job := do
  match (← get).findJob word with
  | .ok job => return job
  | .error text => Action.abort (raw text)

/-- Tells of a job, and forgets it if it has ended. -/
def tell (detail : Detail) (job : Job) : Action Unit := do
  let jobs := (← get).jobs
  let isAt (i : Nat) : Bool := jobs[i]?.any fun other => other.process == job.process
  Action.put (raw (job.text detail (if isAt 0 then '+' else if isAt 1 then '-' else ' ')))
  if detail ≠ .numbers ∧ job.ending?.isSome then
    modify fun s => s.updateJob job.process fun _ => none

/-- Tells of each of some jobs. -/
def tellAll (detail : Detail) : List Job → Action Unit
  | [] => return
  | job :: rest => do
    tell detail job
    tellAll detail rest

/-- Tells of all jobs, or of those that are named. -/
def list : Builtin := fun arguments => do
  let (options, names) ← optionsOf ['l', 'p'] [] arguments
  let detail := match options.getLast? with
    | none => Detail.progress
    | some _ => if options.any fun option => option.1 == 'p' then .numbers else .processes
  if names.isEmpty then
    modify State.seeJobs
    tellAll detail (← get).jobs
  else forEach (fun name => do tell detail (← named name)) names
  Action.finish 0

/-- Settles a job that is waited for, and tells by what it was ended if that has not been seen. -/
def settle (job : Job) : Action Unit := do
  match job.ending?, job.isSeen with
  | some (.killed signal), false => Action.report signal
  | _, _ => pure ()
  modify fun s => s.updateJob job.process fun job =>
    some { job with isSeen := true, isSettled := true }
  Action.finish job.status

/-- Waits for jobs, all of which have ended. -/
def await : Builtin := fun arguments => do
  let (_, names) ← optionsOf [] [] arguments
  if names.isEmpty then
    modify fun s =>
      { s with jobs := s.jobs.map fun job => { job with isSeen := true, isSettled := true } }
    Action.finish 0
  else
    Action.finish 127
    forEach (fun name => do
      if name.head? = some '%' then settle (← named name)
      else
        let number ← numberOf name
        match (← get).jobs.find? fun job => job.process = number with
        | some job => settle job
        | none => pure ()) names
  modify State.seeJobs

/-- Refuses to bring a job to the front, since no terminal controls it. -/
def resume : Builtin := fun arguments => do
  let (_, names) ← optionsOf [] [] arguments
  let _ ← named (names.headD ['%'])
  Action.abort (raw "job " ++ names.headD (raw "(null)") ++ raw " not created under job control")

end Job

end Ambient.Tool.Shell

/-!
## Traps

What a script does at signals, and the signals that it sends.
-/

namespace Ambient.Tool.Shell.Trap

/-- Sets what is done at signals, up to the first word that is none. -/
def setAll (script : Option Raw) : List Raw → Action Unit
  | [] => Action.finish 0
  | word :: rest => do
    match Signal.ofWord? 0 word with
    | none =>
      Action.warn (raw "trap: " ++ word ++ raw ": bad trap")
      Action.finish 1
    | some signal =>
      modify fun s =>
        let others := s.traps.filter fun entry => entry.1 != signal
        { s with traps := match script with
          | some script => (signal, script) :: others
          | none => others }
      setAll script rest

/-- Says what is to be run at a signal or at the end of the script, or shows it. -/
def command : Builtin := fun arguments => do
  let (_, operands) ← optionsOf [] [] arguments
  match operands with
  | [] =>
    let traps := (← get).traps.mergeSort fun a b => a.1 ≤ b.1
    Action.put (traps.flatMap fun (signal, script) =>
      raw "trap -- " ++ quoted script ++ raw (" " ++ Signal.name signal ++ "\n"))
    Action.finish 0
  | [word] => setAll none [word]
  | script :: signals =>
    if (Signal.ofNumber? script).isSome then setAll none operands
    else setAll (if script = ['-'] then none else some script) signals

/-- Sends a signal to the shell itself. One that has a script waits for the end of the command. -/
def receive (signal : Nat) : Action Unit := do
  let s ← get
  if s.world.ignored.contains signal then return
  match (s.outerTraps.getD s.traps).lookup signal, Signal.isUnstoppable signal with
  | some [], false => return
  | some _, false =>
    set (if s.outerTraps.isSome then { s with arrived := signal :: s.arrived }
      else { s with due := signal :: s.due })
  | _, _ => if !Signal.isIdle signal then throw (.killed signal)

/-- Takes note that a process has ended which the script has waited for. -/
def noteEnd : Action Unit := do
  let s ← get
  match s.traps.lookup Signal.childEnded with
  | some (_ :: _) => set { s with due := Signal.childEnded :: s.due }
  | _ => return

/-! ## Sending signals -/

/-- How signals are sent. -/
def usage : String :=
  "Usage: kill [-s sigspec | -signum | -sigspec] [pid | job]... or\nkill -l [exitstatus]"

/-- Tells the name of a signal, which can be written as the status that it leaves, or all names. -/
def tellNames : List Raw → Action Unit
  | [] => do
    Action.put (raw ("0\n" ++ String.join (Signal.names.tail.map fun name => name ++ "\n")))
    Action.finish 0
  | word :: _ => do
    let number ← numberOf word
    let signal := if 128 < number then number - 128 else number
    if signal = 0 ∨ Signal.names.length ≤ signal then
      Action.abort (raw "invalid signal number or exit status: " ++ word)
    Action.put (raw (Signal.name signal ++ "\n"))
    Action.finish 0

/-- Sends a signal to a job. One that has not been run ends at once. -/
def sendToJob (signal : Nat) (job : Job) : Action Bool := do
  match job.progress with
  | .ended _ => return !job.isSeen
  | .waiting start _ =>
    let isIgnored := start.world.ignored.contains signal
      || start.traps.lookup signal == some [] || Signal.isIdle signal
    if !isIgnored || Signal.isUnstoppable signal then
      modify fun s => s.updateJob job.process fun job =>
        some { job with progress := .ended (.killed signal) }
    return true

/-- Sends a signal to the process with a number, if there is one: the shell itself, the one that has
started it, or one in the background. -/
def sendTo (signal number : Nat) : Action Bool := do
  let s ← get
  if number = s.world.process ∨ number = 0 then
    receive signal
    return true
  else if number = s.world.parent then
    set { s with signals := signal :: s.signals }
    return true
  else
    match s.jobs.find? fun job => job.process = number with
    | some job => sendToJob signal job
    | none => return false

/-- Sends a signal to all whom words name. -/
def sendAll (signal : Nat) : List Raw → Action Unit
  | [] => return
  | word :: rest => do
    let isSent ← match word with
      | '%' :: _ => do
        let _ ← Job.named word
        pure false
      | '-' :: number => do
        let _ ← numberOf number
        pure false
      | _ => do sendTo signal (← numberOf word)
    if !isSent then
      Action.complain (raw "No such process\n")
      Action.finish 1
    sendAll signal rest

/-- What the options of a command that sends signals ask for: to tell names, or a signal. -/
def asked (arguments : List Raw) : Action (Bool × Option Nat × List Raw) := do
  match arguments with
  | ('-' :: word) :: rest =>
    match Signal.ofWord? 1 word with
    | some signal => return (false, some signal, rest)
    | none =>
      let (options, operands) ← optionsOf ['l'] ['s'] arguments
      let tells := options.any fun option => option.1 == 'l'
      match options.reverse.lookup 's' with
      | none => return (tells, if tells then none else some Signal.terminate, operands)
      | some word =>
        match Signal.ofWord? 1 word with
        | some signal => return (tells, some signal, operands)
        | none => Action.abort (raw "invalid signal number or name: " ++ word)
  | _ => return (false, some Signal.terminate, arguments)

/-- Sends a signal to processes, or tells the names of signals. -/
def kill : Builtin := fun arguments => do
  match ← asked arguments with
  | (true, none, operands) => tellNames operands
  | (true, some _, []) => tellNames []
  | (false, some _, []) | (true, some _, _) | (false, none, _) => Action.abort (raw usage)
  | (false, some signal, processes) =>
    Action.finish 0
    sendAll signal processes

end Ambient.Tool.Shell.Trap
