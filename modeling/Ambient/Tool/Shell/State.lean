import Ambient.Tool.Basic
import Ambient.Tool.Shell.Script

/-!
# The state of the shell

What a script sees and changes: its parameters and variables, the files, the channels that its
descriptors lead to, and the jobs in the background. A part of a script that runs on its own starts
in the same situation, and shares the files and the channels with the rest; what else it changes is
lost.
-/

/-!
## Signals

The signals that processes send each other, by number: the names they are called by, and what is
said of a process that one of them has ended. The end of a script counts as the signal zero.
-/

namespace Ambient.Tool.Shell.Signal

/-- The signal that asks a process to end. -/
def terminate : Nat := 15

/-- The signal that tells a process that one it has started is done. -/
def childEnded : Nat := 17

/-- The names of the signals from zero on. One that has no name of its own is called by its
number, and those in real time by their distance from the first or the last one. -/
def names : List String :=
  let standard := Ending.signalNames.mapIdx fun i name => if i = 15 then "16" else name
  let fromFirst := (List.range 15).map fun i => "RTMIN+" ++ Nat.repr (i + 1)
  let toLast := (List.range 14).map fun i => "RTMAX-" ++ Nat.repr (14 - i)
  "EXIT" :: standard ++ ["32", "33", "RTMIN"] ++ fromFirst ++ toLast ++ ["RTMAX"]

/-- There are 64 signals besides the end of a script. -/
example : names.length = 65 := rfl

/-- The name of a signal. -/
def name (signal : Nat) : String := names.getD signal ""

/-- The signal whose number is written. -/
def ofNumber? (word : Raw) : Option Nat :=
  if word.isEmpty || !word.all Char.isDigit then none
  else (toText word).toNat?.bind fun number => if number < names.length then some number else none

/-- The signal that is written as a number or as a name, the names counted from one on. -/
def ofWord? (least : Nat) (word : Raw) : Option Nat :=
  match ofNumber? word with
  | some signal => some signal
  | none =>
    let name := String.ofList (word.map Char.toUpper)
    ((names.drop least).findIdx? fun known => known == name).map (· + least)

/-- What is said of a process that a signal has ended. -/
def description (signal : Nat) : String :=
  let standard :=
    ["Hangup", "Interrupt", "Quit", "Illegal instruction", "Trace/breakpoint trap", "Aborted",
      "Bus error", "Floating point exception", "Killed", "User defined signal 1",
      "Segmentation fault", "User defined signal 2", "Broken pipe", "Alarm clock", "Terminated",
      "Stack fault", "Child exited", "Continued", "Stopped (signal)", "Stopped",
      "Stopped (tty input)", "Stopped (tty output)", "Urgent I/O condition",
      "CPU time limit exceeded", "File size limit exceeded", "Virtual timer expired",
      "Profiling timer expired", "Window changed", "I/O possible", "Power failure",
      "Bad system call", "Unknown signal 32", "Unknown signal 33"]
  if signal = 0 then "" else standard.getD (signal - 1) ("Real-time signal " ++ Nat.repr (signal - 34))

/-- Whether it is said that a signal has ended a process: an interruption and an output that nobody
reads are passed over. -/
def isReported (signal : Nat) : Bool := signal != 2 && signal != 13

/-- Whether a signal does nothing unless a script says what it does. -/
def isIdle (signal : Nat) : Bool := [0, 17, 18, 23, 28].contains signal

/-- Whether a script cannot say what a signal does. -/
def isUnstoppable (signal : Nat) : Bool := signal == 9 || signal == 19

end Ambient.Tool.Shell.Signal

namespace Ambient.Tool.Shell

/-- A way in or out that is open: what is still to be read, what has been written with the last
piece first, one of the outputs of the shell, a file and the place where it is read or written, a
directory, or nothing. -/
inductive Channel where
  | source (rest : Raw)
  | sink (written : List Raw)
  | outlet (outlet : Outlet)
  | file (place : Files.Location) (offset : Nat) (opening : Opening)
  | directory
  | nothing
deriving Inhabited

/-- A variable. -/
structure Variable where
  value : Option Raw
  isExported : Bool
  isReadOnly : Bool
deriving DecidableEq, Repr, Inhabited

/-- What a script has for itself. -/
structure Situation where
  world : World
  /-- The path of the directory, as the script has come there. -/
  directory : Raw
  /-- The channels that descriptors lead to. -/
  descriptors : List (Nat × Nat)
  name : Raw
  parameters : List Raw
  bindings : List (Raw × Variable)
  functions : List (Raw × Command)
  aliases : List (Raw × Raw)
  /-- The programs that have been looked for, with their paths and whether these are in doubt. -/
  used : List (Raw × Raw × Bool)
  /-- The letters of the options that are on. -/
  flags : List Char
  status : Nat
  /-- The status of the last substitution of a command. -/
  innerStatus : Nat
  line : Nat
  /-- The line that is read next. -/
  readingLine : Nat
  /-- The command of the shell itself that is at work. -/
  caller : Option Raw
  /-- Whether that command could not write what it wanted to. -/
  hasLostOutput : Bool
  /-- The number of loops around the current command. -/
  loops : Nat
  /-- For each function around the current command the variables to be restored. -/
  saved : List (List (Raw × Option Variable))
  /-- The scripts to be run at signals. -/
  traps : List (Nat × Raw)
  /-- In a part that runs on its own, the scripts that the shell itself runs at signals. -/
  outerTraps : Option (List (Nat × Raw))
  /-- The signals that have come and have a script. -/
  due : List Nat
  /-- The status before the script of a signal, while it runs. -/
  trapped : Option Nat
  /-- The number of the argument that options are read from next. -/
  optionPlace : Nat
  /-- The place of the next letter in the argument before it, if there may be one. -/
  letterPlace : Option Nat
  /-- The number of the last process in the background. -/
  background : Option Nat
  /-- The number of the process, which differs from that of the shell in a part that runs on its
  own. -/
  process : Nat
  /-- The number of the process that started it. -/
  parent : Nat

/-- How far a job has come: it still waits to be run in the situation it was started in, or it has
ended. -/
inductive Progress where
  | waiting (start : Situation) (command : Command)
  | ended (ending : Ending)

/-- A part of a script in the background, by its number among them and that of its last process.
One in which several processes pass on what they write has as many members. -/
structure Job where
  number : Nat
  process : Nat
  members : Nat
  progress : Progress
  /-- Whether the shell has seen it end. -/
  isSeen : Bool
  /-- Whether the script has waited for it, so that its number may be given away. -/
  isSettled : Bool

/-- The state of a script: what it has for itself, and what it shares with its parts. -/
structure State extends Situation where
  /-- What has gone to the outputs of the shell, the last piece first. -/
  pieces : List (Outlet × Raw)
  /-- The channels that have been opened, by number. -/
  channels : List (Nat × Channel)
  documents : List (Nat × Word)
  documentCount : Nat
  /-- The signals that parts have sent to the shell itself, which has a script for them. -/
  arrived : List Nat
  /-- The signals that have been sent to the process that started the shell. -/
  signals : List Nat
  /-- The number of the last process that has been started. -/
  lastProcess : Nat
  /-- The jobs, the last one first. -/
  jobs : List Job

namespace State

/-! ## Channels -/

/-- Replaces the entry of a key in a list, or adds it. -/
def replace {α β : Type} [BEq α] (key : α) (value : β) (entries : List (α × β)) : List (α × β) :=
  (key, value) :: entries.filter fun entry => entry.1 != key

/-- The number of the next channel. -/
def nextChannel (s : State) : Nat := (s.channels.map fun entry => entry.1 + 1).foldl max 0

/-- Opens a channel; the answer is its number. -/
def openChannel (s : State) (channel : Channel) : Nat × State :=
  let number := s.nextChannel
  (number, { s with channels := (number, channel) :: s.channels })

/-- Lets a descriptor lead to a channel. -/
def direct (s : State) (descriptor number : Nat) : State :=
  { s with descriptors := replace descriptor number s.descriptors }

/-- The channel of a descriptor. -/
def channelOf? (s : State) (descriptor : Nat) : Option (Nat × Channel) := do
  let number ← s.descriptors.lookup descriptor
  return (number, ← s.channels.lookup number)

/-- Changes a channel. -/
def setChannel (s : State) (number : Nat) (channel : Channel) : State :=
  { s with channels := replace number channel s.channels }

/-- A text with another one written over it from a place on. -/
def overwrite (content text : Raw) (offset : Nat) : Raw :=
  let start := content.take offset
  start ++ List.replicate (offset - start.length) '\x00' ++ text
    ++ content.drop (offset + text.length)

/-- The bytes of the file at a location, none if there is no file. -/
def contentAt (s : State) (place : Files.Location) : Raw :=
  match s.world.tree.entry? place with
  | some entry => (entry.bytes.toOption.map ofBytes).getD []
  | none => []

/-- Writes to a channel. The answer says whether it takes what is written. -/
def writeTo (s : State) (number : Nat) (text : Raw) : Bool × State :=
  match s.channels.lookup number with
  | some (.sink written) => (true, s.setChannel number (.sink (text :: written)))
  | some (.outlet outlet) => (true, { s with pieces := (outlet, text) :: s.pieces })
  | some (.file place offset opening) =>
    if opening = .reading then (false, s)
    else
      let content := s.contentAt place
      let offset := if opening = .appending then content.length else offset
      let entry := Files.Entry.ofBytes (toBytes (overwrite content text offset))
      (true,
        { s.setChannel number (.file place (offset + text.length) opening) with
          world := { s.world with tree := s.world.tree.replace place entry } })
  | some .nothing => (true, s)
  | _ => (false, s)

/-- Writes to a descriptor. -/
def write (s : State) (descriptor : Nat) (text : Raw) : State :=
  if text.isEmpty then s
  else
    match s.descriptors.lookup descriptor with
    | some number => (s.writeTo number text).2
    | none => s

/-- Writes to the output, and takes note if that is lost. -/
def put (s : State) (text : Raw) : State :=
  if text.isEmpty then s
  else
    match s.descriptors.lookup 1 with
    | some number =>
      let (isTaken, s) := s.writeTo number text
      { s with hasLostOutput := s.hasLostOutput || !isTaken }
    | none => { s with hasLostOutput := true }

/-- What is to be read from a descriptor. -/
def input (s : State) (descriptor : Nat) : Raw :=
  match s.channelOf? descriptor with
  | some (_, .source rest) => rest
  | some (_, .file place offset _) => (s.contentAt place).drop offset
  | _ => []

/-- Leaves only the last part of what is to be read from a descriptor. -/
def setInput (s : State) (descriptor : Nat) (rest : Raw) : State :=
  match s.channelOf? descriptor with
  | some (number, .source _) => s.setChannel number (.source rest)
  | some (number, .file place offset opening) =>
    let read := (s.input descriptor).length - rest.length
    s.setChannel number (.file place (offset + read) opening)
  | _ => s

/-- What a descriptor is connected to. -/
def connection (s : State) (descriptor : Nat) : Connection :=
  match s.channelOf? descriptor with
  | none => .closed
  | some (_, .directory) => .directory
  | some (_, .file place offset opening) =>
    .file place (if opening = .appending then (s.contentAt place).length else offset)
  | some _ => .other

/-- What has been written to a channel. -/
def collected (s : State) (number : Nat) : Raw :=
  match s.channels.lookup number with
  | some (.sink written) => written.reverse.flatten
  | _ => []

/-! ## Parameters and variables -/

/-- Whether an option is on. -/
def has (s : State) (flag : Char) : Bool := s.flags.contains flag

/-- The value of a variable, if it has one. -/
def held? (s : State) (name : Raw) : Option Raw := (s.bindings.lookup name).bind Variable.value

/-- The state after a change of a variable: with the places where programs are looked for, those that
are known are forgotten, and options are taken from the place that is set for them. -/
def afterChange (s : State) (name : Raw) (v : Option Variable) : State :=
  if name = raw "PATH" then { s with used := [] }
  else if name = raw "OPTIND" then
    let place := ((v.bind Variable.value).bind fun value => (toText value).toNat?).getD 0
    { s with optionPlace := if place = 0 then 1 else place, letterPlace := none }
  else s

/-- Changes a variable. -/
def setVariable (s : State) (name : Raw) (v : Variable) : State :=
  { s with bindings := replace name v s.bindings }.afterChange name (some v)

/-- Forgets a variable. -/
def dropVariable (s : State) (name : Raw) : State :=
  { s with bindings := s.bindings.filter fun entry => entry.1 != name }.afterChange name none

/-- Gives a variable a value. -/
def assign (s : State) (name value : Raw) : State :=
  let old := (s.bindings.lookup name).getD ⟨none, false, false⟩
  s.setVariable name { old with value := some value, isExported := old.isExported || s.has 'a' }

/-- Whether a variable cannot be changed. -/
def isReadOnly (s : State) (name : Raw) : Bool :=
  ((s.bindings.lookup name).map Variable.isReadOnly).getD false

/-- The letters of options in the order in which they are told. -/
def toldLetters : List Char := "pubaCEVvxsnmiIfe".toList

/-- A number in decimal digits. -/
def decimal (n : Nat) : Raw := (Nat.repr n).toList

/-- The value of a parameter other than the lists of all, if it has one. -/
def value? (s : State) (name : Raw) : Option Raw :=
  match name with
  | ['#'] => some (decimal s.parameters.length)
  | ['?'] => some (decimal s.status)
  | ['-'] => some (toldLetters.filter s.has)
  | ['$'] => some (decimal s.world.process)
  | ['!'] => s.background.map decimal
  | _ =>
    if name.all Char.isDigit then
      match (String.ofList name).toNat? with
      | some 0 => some s.name
      | some number => s.parameters[number - 1]?
      | none => none
    else s.held? name

/-- The characters that divide fields. -/
def separators (s : State) : Raw := (s.held? (raw "IFS")).getD [' ', '\t', '\n']

/-- What a program that is called by a name sees: the files, the variables that are exported, what
its descriptors lead to, and which signals do nothing. -/
def worldFor (s : State) (name : Raw) : World :=
  { s.world with
    name := name
    environment := s.bindings.filterMap fun (name, v) =>
      if v.isExported then v.value.map fun value => (name, value) else none
    input := s.connection 0
    output := s.connection 1
    errors := s.connection 2
    further := s.descriptors.filterMap fun (descriptor, _) =>
      if 2 < descriptor then some (descriptor, s.input descriptor) else none
    ignored := s.world.ignored
      ++ s.traps.filterMap fun (signal, script) => if script.isEmpty then some signal else none
    process := s.lastProcess
    parent := s.process }

/-- The state at the start of a part that runs on its own in a situation. -/
def enter (s : State) (start : Situation) : State :=
  { s with
    toSituation :=
      { start with
        world := { start.world with tree := s.world.tree }
        traps := start.traps.filter fun entry => entry.2.isEmpty
        outerTraps := some (start.outerTraps.getD start.traps)
        due := []
        process := s.lastProcess
        parent := start.process }
    jobs := [] }

/-- The state after a part that ran on its own: it leaves the files, the channels and its status.
Signals that it has sent reach the shell itself. -/
def rejoin (before after : State) : State :=
  let isPart := before.outerTraps.isSome
  { after with
    toSituation :=
      { before.toSituation with
        world := { before.world with tree := after.world.tree }
        status := after.status % 256
        due := if isPart then before.due else after.arrived ++ before.due }
    arrived := if isPart then after.arrived else []
    jobs := before.jobs }

/-- Whether a script is to be run at some signal. -/
def hasTraps (s : State) : Bool := s.traps.any fun entry => !entry.2.isEmpty

/-- Whether a descriptor of the script, or of a job that waits, leads to a channel. -/
def leadsTo (s : State) (number : Nat) : Bool :=
  let leads (situation : Situation) : Bool := situation.descriptors.any fun pair => pair.2 == number
  leads s.toSituation || s.jobs.any fun job =>
    match job.progress with
    | .waiting start _ => leads start
    | .ended _ => false

/-- The state without the channels from a number on that no descriptor leads to. -/
def dropChannels (s : State) (first : Nat) : State :=
  { s with channels := s.channels.filter fun entry => entry.1 < first || s.leadsTo entry.1 }

end State

/-! ## Actions -/

/-- Why a part of a script is left: a number of loops ends or goes on, a function or the script
ends, a command is at fault, the process has become a program that has ended, or the shell is
killed. -/
inductive Leaving where
  | loops (count : Nat) (goesOn : Bool)
  | function
  | script
  | fault
  | replaced (ending : Ending)
  | killed (signal : Nat)
deriving DecidableEq, Repr, Inhabited

/-- A step of a script, which changes the state and may leave a part of the script. -/
abbrev Action := ExceptT Leaving (StateM State)

namespace Action

/-- Writes a text to the output. -/
def put (text : Raw) : Action Unit := modify fun s => s.put text

/-- Writes a line to the errors. -/
def warn (text : Raw) : Action Unit := modify fun s => s.write 2 (text ++ ['\n'])

/-- Writes a complaint, with the name of the command that has it. -/
def complain (text : Raw) : Action Unit := do
  let s ← get
  warn (s.name ++ raw ": " ++ State.decimal s.line ++ raw ": "
    ++ (match s.caller with
      | some name => name ++ raw ": "
      | none => [])
    ++ text)

/-- Sets the status. -/
def finish (status : Nat) : Action Unit := modify fun s => { s with status := status }

/-- Complains, and leaves the command, which is at fault. -/
def abort {α : Type} (text : Raw) : Action α := do
  complain text
  finish 2
  throw .fault

/-- Refuses to change a variable that is protected. -/
def checkOpen (name : Raw) : Action Unit := do
  if (← get).isReadOnly name then abort (name ++ raw ": is read only")

/-- Gives a variable a value, unless it cannot be changed. The place of options is a number. -/
def assign (name value : Raw) : Action Unit := do
  checkOpen name
  if name = raw "OPTIND" ∧ (value.isEmpty ∨ !value.all Char.isDigit) then
    abort (raw "Illegal number: " ++ value)
  modify fun s => s.assign name value

/-- Changes the state at the end of an action, however it ends. -/
def thenRestore {α : Type} (action : Action α) (restore : State → State) : Action α := fun s =>
  let (result, s) := action.run s
  (result, restore s)

/-- Says that a signal has ended a process. -/
def report (signal : Nat) : Action Unit := do
  if Signal.isReported signal then warn (raw (Signal.description signal))

/-- Takes over the ending of a process that the script has waited for. -/
def takeOver (ending : Ending) : Action Unit := do
  match ending with
  | .exited status => finish (status % 256)
  | .killed signal =>
    report signal
    finish (128 + signal)

end Action

/-- A command of the shell as an action for its arguments. -/
abbrev Builtin := List Raw → Action Unit

end Ambient.Tool.Shell

/-!
## Options of the shell

Options are letters that are turned on behind a dash and off behind a plus sign; most have a long
name as well. They stand on the command line of the shell, and a script can change them.
-/

namespace Ambient.Tool.Shell

/-- The options by their long names, with their letters. -/
def optionNames : List (String × Char) :=
  [("errexit", 'e'), ("noglob", 'f'), ("ignoreeof", 'I'), ("interactive", 'i'), ("monitor", 'm'),
    ("noexec", 'n'), ("stdin", 's'), ("xtrace", 'x'), ("verbose", 'v'), ("vi", 'V'),
    ("emacs", 'E'), ("noclobber", 'C'), ("allexport", 'a'), ("notify", 'b'), ("nounset", 'u'),
    ("privileged", 'p'), ("nolog", 'Λ'), ("debug", 'Δ')]

/-- Turns an option on or off. -/
def turn (isOn : Bool) (letter : Char) (flags : List Char) : List Char :=
  if isOn then if flags.contains letter then flags else flags ++ [letter]
  else flags.filter fun flag => flag != letter

/-- All options, as they are shown or as commands that bring them about. -/
def showOptions (asCommands : Bool) (isOn : Char → Bool) : String :=
  let line (option : String × Char) : String :=
    if asCommands then
      "set " ++ (if isOn option.2 then "-o " else "+o ") ++ option.1 ++ "\n"
    else
      option.1 ++ String.ofList (List.replicate (16 - option.1.length) ' ')
        ++ (if isOn option.2 then "on" else "off") ++ "\n"
  (if asCommands then "" else "Current option settings\n") ++ String.join (optionNames.map line)

/-- What options have come to: the letters that are on, whether the command is an argument, whether
the list of options was ended by a sign, what was shown of them, and the arguments that are left. -/
structure OptionReading where
  flags : List Char
  isCommand : Bool
  isEnded : Bool
  shown : String
  rest : List Raw
deriving Repr, Inhabited

namespace OptionReading

/-- Takes the letters of an argument. On the command line of the shell all options count as on until
its end. -/
def takeLetters (isCommandLine isOn : Bool) : Raw → OptionReading → Except String OptionReading
  | [], r => .ok r
  | letter :: letters, r =>
    if letter = 'c' ∧ isCommandLine then
      takeLetters isCommandLine isOn letters { r with isCommand := true }
    else if letter = 'l' ∧ isCommandLine then takeLetters isCommandLine isOn letters r
    else if letter = 'o' then
      match r.rest with
      | [] =>
        let text := showOptions (!isOn) fun flag => isCommandLine || r.flags.contains flag
        takeLetters isCommandLine isOn letters { r with shown := r.shown ++ text }
      | name :: rest =>
        match optionNames.lookup (toText name) with
        | some flag =>
          takeLetters isCommandLine isOn letters
            { r with flags := turn isOn flag r.flags, rest := rest }
        | none => .error ("Illegal option -o " ++ toText name)
    else if optionNames.any fun option => option.2 == letter then
      takeLetters isCommandLine isOn letters { r with flags := turn isOn letter r.flags }
    else .error ("Illegal option -" ++ toText [letter])

/-- Takes options; the bound is the number of arguments. -/
def take (isCommandLine : Bool) : Nat → OptionReading → Except String OptionReading
  | 0, r => .ok r
  | bound + 1, r =>
    match r.rest with
    | ['-'] :: rest =>
      let flags := if isCommandLine then r.flags else turn false 'x' (turn false 'v' r.flags)
      .ok { r with flags := flags, rest := rest }
    | ['-', '-'] :: rest => .ok { r with isEnded := true, rest := rest }
    | ('-' :: letters) :: rest => do
      take isCommandLine bound (← takeLetters isCommandLine true letters { r with rest := rest })
    | ('+' :: letters) :: rest => do
      take isCommandLine bound (← takeLetters isCommandLine false letters { r with rest := rest })
    | _ => .ok r

end OptionReading

/-- Reads the options that arguments start with. -/
def readOptions (isCommandLine : Bool) (flags : List Char) (arguments : List Raw) :
    Except String OptionReading :=
  OptionReading.take isCommandLine arguments.length ⟨flags, false, false, "", arguments⟩

/-- Takes the options of a command of the shell, letters that may come with a value, and leaves its
operands; the bound is the number of arguments. -/
def takeOptions (letters valued : List Char) :
    Nat → List Raw → Action (List (Char × Raw) × List Raw)
  | 0, rest => return ([], rest)
  | _, ['-', '-'] :: rest => return ([], rest)
  | bound + 1, ('-' :: letter :: more) :: rest => do
    let andThen (value : Raw) (rest : List Raw) : Action (List (Char × Raw) × List Raw) := do
      let (found, operands) ← takeOptions letters valued bound rest
      return ((letter, value) :: found, operands)
    if valued.contains letter then
      match more, rest with
      | [], value :: rest => andThen value rest
      | [], [] => Action.abort (raw "No arg for -" ++ [letter] ++ raw " option")
      | value, _ => andThen value rest
    else if letters.contains letter then
      andThen [] (if more.isEmpty then rest else ('-' :: more) :: rest)
    else Action.abort (raw "Illegal option -" ++ [letter])
  | _, rest => return ([], rest)

/-- The options of a command of the shell, and its operands. -/
def optionsOf (letters valued : List Char) (arguments : List Raw) :
    Action (List (Char × Raw) × List Raw) :=
  takeOptions letters valued ((arguments.map List.length).foldr (· + ·) 1) arguments

end Ambient.Tool.Shell
