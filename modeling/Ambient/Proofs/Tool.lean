import Ambient.Proofs.Machine
import Ambient.Tool.Programs

/-!
# Tools as formatters and compilers

A failing run can be accounted for if its compiler changes no files and its formatter is a function
of its input. Of the tools that a machine can have, the ones that only succeed or fail, the one that
copies files and the one that translates bytes change no files. The last one is a function of its
input, and so is the one that copies if it is given nothing but its input. The others can change
files: a shell by what it runs, a stream editor by the files that it writes.
-/

namespace Ambient.Tool

/-! ## Programs that leave files alone -/

/-- The world with other files. -/
def World.withTree (w : World) (tree : Files.Tree) : World := { w with tree := tree }

/-- Whatever it is given, a program leaves the files that it sees. -/
def LeavesFiles (tool : Program) : Prop :=
  ∀ arguments input w, (tool arguments input w).tree = w.tree

/-- With some arguments, a program does the same whatever the files are, and leaves them. -/
def IgnoresFiles (tool : Program) (arguments : List Raw) : Prop :=
  ∀ input w tree, tool arguments input (w.withTree tree)
    = { tool arguments input w with tree := tree }

/-- A tool that only succeeds or fails leaves the files. -/
theorem leavesFiles_constant (name : String) (isSuccess : Bool) :
    LeavesFiles (constant name isSuccess) :=
  fun _ _ _ => rfl

namespace Transliteration

variable (a : Arguments) (one : Raw) (others : List Raw) (input : Raw) (w : World)

/-- Translating ends without a look at the files. -/
theorem translate_withTree (tree : Files.Tree) :
    translate a one others input (w.withTree tree)
      = { translate a one others input w with tree := tree } := by
  have hcomplaint : (w.withTree tree).complaint = w.complaint := rfl
  have hinput : (w.withTree tree).inputFault? = w.inputFault? := rfl
  have houtput : (w.withTree tree).output = w.output := rfl
  simp only [translate, hcomplaint, hinput, houtput]
  split
  · rfl
  · rfl
  · split <;> rfl

/-- The tool that translates bytes does not look at the files. -/
theorem ignoresFiles (arguments : List Raw) : IgnoresFiles transliterate arguments := by
  intro input w tree
  unfold transliterate
  cases options.read arguments with
  | error message => rfl
  | ok a =>
    dsimp only
    split
    · rfl
    · split
      · exact translate_withTree ..
      · rfl

end Transliteration

/-- A program that ignores files leaves them. -/
theorem leavesFiles_of_ignoresFiles {tool : Program}
    (h : ∀ arguments, IgnoresFiles tool arguments) : LeavesFiles tool :=
  fun arguments input w => congrArg Outcome.tree (h arguments input w w.tree)

namespace Concatenation

/-- The tool that copies files leaves them. -/
theorem leavesFiles : LeavesFiles concatenate := by
  intro arguments input w
  unfold concatenate
  cases options.read arguments with
  | error message => rfl
  | ok a =>
    dsimp only
    split
    · rfl
    · split <;> rfl

/-! ## Copying the input -/

/-- The style without any options. -/
def plain : Style := .of ⟨[], []⟩

/-- A byte is shown as it is, and nothing is held back. -/
theorem plain_next {p : Position} (h : p.holdsReturn = false) (c : Char) :
    (plain.next p c).1.holdsReturn = false ∧ (plain.next p c).2 = [c] := by
  rw [Style.next, h, if_neg Bool.false_ne_true, if_neg (by simp [plain, Style.of, Arguments.has]),
    Style.put]
  by_cases hend : c = '\n'
  · rw [if_pos hend, if_neg (by simp [plain, Style.of, Arguments.has])]
    exact ⟨rfl, by simp [plain, Style.of, Arguments.has]⟩
  · rw [if_neg hend]
    exact ⟨rfl, by simp [plain, Style.of, Arguments.has, Style.byte]⟩

/-- Shows a byte behind what is shown, which is kept in reverse. -/
def plainStep (shown : Position × Raw) (c : Char) : Position × Raw :=
  ((plain.next shown.1 c).1, (plain.next shown.1 c).2.reverse ++ shown.2)

/-- Bytes are put in front of what is shown, the last one first. -/
theorem foldl_plainStep (content : Raw) : ∀ {p : Position} (shown : Raw), p.holdsReturn = false →
    (content.foldl plainStep (p, shown)).1.holdsReturn = false ∧
      (content.foldl plainStep (p, shown)).2 = content.reverse ++ shown := by
  induction content with
  | nil => exact fun shown hp => ⟨hp, rfl⟩
  | cons c rest ih =>
    intro p shown hp
    obtain ⟨hnext, htext⟩ := plain_next hp c
    obtain ⟨hheld, hshown⟩ := ih ((plain.next p c).2.reverse ++ shown) hnext
    rw [List.foldl_cons, plainStep]
    refine ⟨hheld, hshown.trans ?_⟩
    rw [htext, List.reverse_singleton, List.reverse_cons, List.append_assoc]

/-- The input is shown as it is. -/
theorem plain_show {p : Position} (h : p.holdsReturn = false) (content : Raw) :
    (plain.show p content).1.holdsReturn = false ∧ (plain.show p content).2 = content := by
  have hshow : plain.show p content = ((content.foldl plainStep (p, [])).1,
      (content.foldl plainStep (p, [])).2.reverse) := rfl
  obtain ⟨hheld, hshown⟩ := foldl_plainStep content [] h
  rw [hshow, hshown]
  exact ⟨hheld, by rw [List.append_nil, List.reverse_reverse]⟩

/-- Without arguments, the input is copied. -/
theorem concatenate_nil (input : Raw) {w : World} (hinput : w.input = .other)
    (houtput : w.output = .other) :
    concatenate [] input w = w.leaving 0 [(.output, input)] [] := by
  have hcontent : contentOf w 0 input ['-'] = .ok input := by
    have hconnection : connectionOf w ['-'] = .other := hinput
    have hfault : w.inputFault? = none := by rw [World.inputFault?, hinput]
    simp only [contentOf, isInput, hfault, hconnection, BEq.rfl, Bool.true_or, if_true]
    rfl
  have hgather : gather (.of ⟨[], []⟩) w ⟨1, true, false, false⟩ 0 input [['-']]
      = ([(.output, input)], [], false) := by
    obtain ⟨hheld, hshown⟩ := plain_show (p := ⟨1, true, false, false⟩) rfl input
    change gather plain w _ 0 input [['-']] = _
    rw [gather, hcontent]
    dsimp only
    rw [gather, hheld, hshown]
    rfl
  have hread : options.read [] = .ok ⟨[], []⟩ := rfl
  rw [concatenate, hread]
  dsimp only
  rw [if_neg (by simp [Arguments.has]), if_neg (by simp [houtput]), writeAll]
  simp only [List.isEmpty_nil, if_true, hinput, hgather]
  rfl

end Concatenation

/-! ## The tools of a machine -/

/-- Bytes can be read off the characters that stand for them. -/
theorem toBytes_ofBytes (bytes : Bytes) : toBytes (ofBytes bytes) = bytes := by
  have hbyte (b : UInt8) : (Char.ofNat b.toNat).toNat.toUInt8 = b := by
    have hsmall : b.toNat < 256 := b.toNat_lt
    have hvalid : b.toNat.isValidChar := .inl (by omega)
    rw [Char.ofNat, dif_pos hvalid]
    exact UInt8.ofNat_toNat
  rw [toBytes, ofBytes, List.map_map]
  exact (List.map_congr_left fun b _ => hbyte b).trans (List.map_id bytes)

/-- The names of the tools that never change a file. -/
def harmless : List String := ["cat", "false", "tr", "true"]

/-- A harmless tool is found by its name, whatever the files are. -/
theorem exists_tool_of_mem_harmless {name : String} (h : name ∈ harmless) :
    ∃ tool, (∀ working tree, toolOf? name working tree = some tool) ∧ LeavesFiles tool := by
  simp only [harmless, List.mem_cons, List.not_mem_nil, or_false] at h
  obtain rfl | rfl | rfl | rfl := h
  · exact ⟨_, fun _ _ => rfl, Concatenation.leavesFiles⟩
  · exact ⟨_, fun _ _ => rfl, leavesFiles_constant _ _⟩
  · exact ⟨_, fun _ _ => rfl, leavesFiles_of_ignoresFiles Transliteration.ignoresFiles⟩
  · exact ⟨_, fun _ _ => rfl, leavesFiles_constant _ _⟩

/-- What a program that is called by a name sees. -/
def worldOf (name : String) (working : Files.Location) (tree : Files.Tree) : World :=
  { name := raw name, tree := tree, working := working, environment := environment }

/-- What is left of a program besides the files. -/
def Outcome.execution (o : Outcome) : Execution :=
  ⟨o.ending, toBytes (o.written .output), toBytes (o.written .errors)⟩

/-- Whether a command can be passed on: no program is given a zero. -/
def isPassable (command : Settings.Command) : Bool :=
  !(command.program :: command.arguments).any fun word => word.toList.contains '\x00'

/-- The tool that a command names runs with its arguments, if the command can be passed on. -/
theorem programs_eq {command : Settings.Command} {working : Files.Location} {tree : Files.Tree}
    {tool : Program} (h : toolOf? command.program working tree = some tool) (input : Bytes) :
    programs command input working tree
      = if isPassable command then
          let outcome := tool (command.arguments.map raw) (ofBytes input)
            (worldOf command.program working tree)
          .ok (outcome.execution, outcome.tree)
        else .error .zeroInCommand := by
  rw [programs, h, isPassable]
  cases (command.program :: command.arguments).any fun word => word.toList.contains '\x00' <;> rfl

/-- On a machine with these tools, the harmless ones can be the compiler of a run. -/
theorem leavesFiles_of_mem_harmless {m : Machine} (hprograms : m.programs = programs)
    {name : String} (h : name ∈ harmless) : m.LeavesFiles name := by
  intro arguments input tree execution after hresult
  obtain ⟨tool, hfound, hleaves⟩ := exists_tool_of_mem_harmless h
  rw [hprograms, programs_eq (hfound _ _)] at hresult
  split at hresult
  · cases hresult
    exact hleaves _ _ _
  · cases hresult

/-- A tool that ignores the files when it is given the arguments of a command can be the formatter
of a run. -/
theorem filters_of_ignoresFiles {m : Machine} (hprograms : m.programs = programs)
    {command : Settings.Command} {tool : Program}
    (hfound : ∀ tree, toolOf? command.program m.working tree = some tool)
    (h : IgnoresFiles tool (command.arguments.map raw)) : m.Filters command := by
  refine ⟨fun input => if isPassable command then
    .ok (tool (command.arguments.map raw) (ofBytes input)
      (worldOf command.program m.working .empty)).execution
    else .error .zeroInCommand, fun input tree => ?_⟩
  rw [hprograms, programs_eq (hfound tree)]
  have hsame := h (ofBytes input) (worldOf command.program m.working .empty) tree
  change tool _ _ (worldOf command.program m.working tree) = _ at hsame
  dsimp only
  rw [hsame]
  cases isPassable command <;> rfl

/-- Without arguments, the tool that copies files passes its input on. -/
theorem programs_cat (input : Bytes) (working : Files.Location) (tree : Files.Tree) :
    programs ⟨"cat", []⟩ input working tree = .ok (⟨.exited 0, input, []⟩, tree) := by
  have hfound : toolOf? "cat" working tree = some Concatenation.concatenate := rfl
  have hpassable : isPassable ⟨"cat", []⟩ = true := by decide
  have hcopied := Concatenation.concatenate_nil (ofBytes input) (w := worldOf "cat" working tree)
    rfl rfl
  rw [programs_eq hfound, if_pos hpassable]
  dsimp only
  rw [List.map_nil, hcopied]
  have houtput : ((worldOf "cat" working tree).leaving 0 [(.output, ofBytes input)] []).execution
      = ⟨.exited 0, toBytes (ofBytes input ++ []), []⟩ := rfl
  rw [houtput, List.append_nil, toBytes_ofBytes]
  rfl

/-- Whether a command is a tool that is a function of its input: bytes are translated, or the input
is copied. -/
def IsFilter (command : Settings.Command) : Prop :=
  command.program = "tr" ∨ command = ⟨"cat", []⟩

/-- On a machine with these tools, such a command can be the formatter of a run. -/
theorem filters_of_isFilter {m : Machine} (hprograms : m.programs = programs)
    {command : Settings.Command} (h : IsFilter command) : m.Filters command := by
  obtain htr | rfl := h
  · refine filters_of_ignoresFiles hprograms (fun tree => ?_)
      (Transliteration.ignoresFiles (command.arguments.map raw))
    rw [htr]
    rfl
  · exact ⟨fun input => .ok ⟨.exited 0, input, []⟩,
      fun input tree => hprograms ▸ programs_cat input _ tree⟩

end Ambient.Tool
