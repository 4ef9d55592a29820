import Ambient.Proofs.Generation.Loading
import Ambient.Proofs.Output
import Ambient.Proofs.Tool

/-!
# What a failing run leaves behind

A run that fails before it writes has changed nothing: everything that can be refused is refused
while the library is loaded, and emission, which comes between the writes, cannot fail. A run whose
declarations the compiler refuses has written all of them, as it would have without the check.
-/

namespace Ambient.Generation

open Machine Files Files.Tree

variable {m after : Machine} {t : Tree} {s : Settings} {prepared : Library.Prepared}
  {flavor : Flavor} {file : File}

/-! ## Formatting -/

/-- The finished text of an emission on a machine. -/
def finishedText (m : Machine) (formatter : Option Settings.Command) (e : Declaration.Emission) :
    String :=
  ((finish formatter e : StateM Machine String).run m).1

/-- With a formatter that is a function of its input, the finished text does not depend on the
files, and finishing does not change them. -/
theorem finish_run (formatter : Option Settings.Command)
    (hformatter : ∀ command, formatter = some command → m.Filters command)
    (e : Declaration.Emission) (t : Tree) :
    (finish formatter e : StateM Machine String).run (m.withTree t)
      = (finishedText m formatter e, m.withTree t) := by
  have hformat (text : String) : ∃ formatted, ∀ t,
      (format formatter text : StateM Machine (Option String)).run (m.withTree t)
        = (formatted, m.withTree t) := by
    cases formatter with
    | none => exact ⟨some text, fun _ => rfl⟩
    | some command =>
      obtain ⟨answer, hexecute⟩ := (hformatter command rfl).execute (Bytes.ofText text)
      unfold format
      simp only [StateT.run_bind, hexecute]
      cases answer with
      | error fault => exact ⟨none, fun _ => rfl⟩
      | ok execution =>
        exact ⟨if execution.ending.isSuccess then Bytes.text? execution.output else none,
          fun _ => rfl⟩
  obtain ⟨formatted, hformatted⟩ := hformat
    (Patch.applyStage .beforeFormat e.library e.flavor e.text)
  have hrun (t : Tree) : (finish formatter e : StateM Machine String).run (m.withTree t)
      = (Patch.finish (fun _ => formatted) e.library e.flavor e.text, m.withTree t) := by
    rw [finish, StateT.run_bind, hformatted]
    rfl
  have htext : finishedText m formatter e = _ := congrArg Prod.fst (hrun m.tree)
  rw [hrun, htext]

/-! ## Writing -/

/-- What can be emitted fails to be generated only when it is written. -/
theorem exists_write_of_generateFlavor {error : Error}
    (hemit : ∃ e, prepared.emit flavor = .ok e)
    (h : m.perform (generateFlavor s prepared flavor) = (.error error, after)) :
    ∃ path fault, error = .write path fault := by
  obtain ⟨e, he⟩ := hemit
  unfold generateFlavor at h
  rw [he] at h
  obtain h | ⟨_, _, hemission, h⟩ := of_perform_bind_error h
  · cases h
  cases hemission
  obtain h | ⟨text, _, _, h⟩ := of_perform_bind_error h
  · cases h
  obtain h | ⟨result, _, _, h⟩ := of_perform_bind_error h
  · cases h
  obtain h | ⟨_, _, _, h⟩ := of_perform_bind_error h
  · cases result with
    | error fault =>
      cases h
      exact ⟨_, fault, rfl⟩
    | ok written => cases h
  · cases h

/-- A flavor that has been generated is in its declaration file. -/
theorem of_generateFlavor {e : Declaration.Emission} (hemit : prepared.emit flavor = .ok e)
    (hformatter : ∀ command, s.formatter = some command → m.Filters command)
    (h : (m.withTree t).perform (generateFlavor s prepared flavor) = (.ok file, after)) :
    ∃ u, after = m.withTree u ∧
      Updates (Output.fileNames (join s.outputDirectory e.library) flavor) t u ∧
      (t.IsPlain → u.Holds m.working
        (Output.declarationPath s.outputDirectory e.library flavor)
        (finishedText m s.formatter e)) := by
  unfold generateFlavor at h
  rw [hemit] at h
  obtain ⟨_, _, hemission, h⟩ := of_perform_bind h
  cases hemission
  obtain ⟨text, between, hfinish, h⟩ := of_perform_bind h
  have hfinished := of_perform_lift hfinish
  rw [finish_run _ hformatter] at hfinished
  cases hfinished
  obtain ⟨result, next, hwriting, h⟩ := of_perform_bind h
  obtain ⟨written, _, hwritten, h⟩ := of_perform_bind h
  cases result with
  | error fault => cases hwritten
  | ok result =>
    cases hwritten
    cases h
    have hwrite : (m.withTree t).perform (Output.write s.outputDirectory e.library flavor
        (finishedText m s.formatter e) s.startsAugmentations) = (.ok written, after) :=
      of_perform_lift hwriting
    exact Output.of_write hwrite

/-- The declaration file of a flavor holds its text. -/
def Delivered (m : Machine) (s : Settings) (emission : Flavor → Declaration.Emission) (t : Tree)
    (flavor : Flavor) : Prop :=
  t.Holds m.working
    (Output.declarationPath s.outputDirectory (emission flavor).library flavor)
    (finishedText m s.formatter (emission flavor))

/-- Generating a flavor delivers it, and what has been delivered of a library stays delivered. -/
theorem delivered_of_generateFlavor {emission : Flavor → Declaration.Emission} {library : String}
    (hemit : ∀ flavor, prepared.emit flavor = .ok (emission flavor))
    (hlibrary : ∀ flavor, (emission flavor).library = library)
    (hformatter : ∀ command, s.formatter = some command → m.Filters command) (hplain : t.IsPlain)
    (h : (m.withTree t).perform (generateFlavor s prepared flavor) = (.ok file, after)) :
    ∃ u, after = m.withTree u ∧ u.IsPlain ∧ Delivered m s emission u flavor ∧
      ∀ other, Delivered m s emission t other → Delivered m s emission u other := by
  obtain ⟨u, hafter, hupdates, hholds⟩ := of_generateFlavor (hemit flavor) hformatter h
  refine ⟨u, hafter, hupdates.isPlain hplain, hholds hplain, fun other hother => ?_⟩
  -- Another flavor has gone to a file of another name, in whatever directory that is.
  by_cases hsame : other = flavor
  · rw [hsame]
    exact hholds hplain
  · rw [Delivered, hlibrary, Output.declarationPath_eq] at hother ⊢
    rw [hlibrary] at hupdates
    exact hother.of_updates (Output.isEnding_fileSuffix other) hupdates
      (Output.fileName_not_mem_fileNames _ hsame)

/-- All flavors that have been generated are delivered. -/
theorem delivered_of_mapM {emission : Flavor → Declaration.Emission} {library : String}
    (hemit : ∀ flavor, prepared.emit flavor = .ok (emission flavor))
    (hlibrary : ∀ flavor, (emission flavor).library = library)
    (hformatter : ∀ command, s.formatter = some command → m.Filters command)
    {flavors : List Flavor} {files : List File} (hplain : t.IsPlain)
    (h : (m.withTree t).perform (flavors.mapM (generateFlavor s prepared)) = (.ok files, after)) :
    ∃ u, after = m.withTree u ∧
      ∀ flavor, flavor ∈ flavors ∨ Delivered m s emission t flavor →
        Delivered m s emission u flavor := by
  induction flavors generalizing t files with
  | nil =>
    cases h
    exact ⟨t, rfl, fun _ h => h.resolve_left nofun⟩
  | cons first rest ih =>
    rw [List.mapM_cons] at h
    obtain ⟨_, _, hfirst, h⟩ := of_perform_bind h
    obtain ⟨_, _, hrest, h⟩ := of_perform_bind h
    cases h
    obtain ⟨u, rfl, hplain, hdelivered, hkept⟩ :=
      delivered_of_generateFlavor hemit hlibrary hformatter hplain hfirst
    obtain ⟨v, hafter, hall⟩ := ih hplain hrest
    refine ⟨v, hafter, fun flavor hflavor => hall flavor ?_⟩
    obtain hmem | hbefore := hflavor
    · obtain rfl | hmem := List.mem_cons.mp hmem
      · exact .inr hdelivered
      · exact .inl hmem
    · exact .inr (hkept flavor hbefore)

/-! ## Checking -/

/-- Whether an error is one of the check. -/
def Error.isCheck : Error → Bool
  | .check _ => true
  | _ => false

/-- A check fails with an error of the check. -/
theorem exists_check_of_checkFile {compiler : Settings.Command} {error : Error}
    (h : m.perform (checkFile compiler s file) = (.error error, after)) :
    ∃ cause, error = .check cause := by
  unfold checkFile at h
  obtain h | ⟨result, _, _, h⟩ := of_perform_bind_error h
  · cases h
  · cases result with
    | error fault =>
      cases h
      exact ⟨_, rfl⟩
    | ok execution =>
      simp only at h
      split at h
      · cases h
        exact ⟨_, rfl⟩
      · cases h

/-- A check fails with an error of checks. -/
theorem exists_check_of_check {files : List File} {error : Error}
    (h : m.perform (check s files) = (.error error, after)) : ∃ cause, error = .check cause := by
  unfold check at h
  split at h
  · cases h
  · obtain h | ⟨_, _, _, h⟩ := of_perform_bind_error h
    · obtain ⟨_, _, _, hfails⟩ := of_perform_forM_error h
      exact exists_check_of_checkFile hfails
    · cases h

/-- A compiler that changes no files leaves the machine as it is when it checks one. -/
theorem checkFile_leaves {compiler : Settings.Command} (h : m.LeavesFiles compiler.program)
    (file : File) : (m.perform (checkFile compiler s file)).2 = m := by
  unfold checkFile
  refine perform_bind_leaves (h.execute _ []) fun result => ?_
  cases result with
  | error fault => rfl
  | ok execution =>
    simp only
    split <;> rfl

/-- If the compiler changes no files, neither does a check. -/
theorem check_leaves (h : ∀ command, s.compiler = some command → m.LeavesFiles command.program)
    (files : List File) : (m.perform (check s files)).2 = m := by
  unfold check
  split
  · rfl
  · next compiler hcompiler =>
    refine perform_bind_leaves ?_ fun _ => rfl
    induction files with
    | nil => rfl
    | cons file rest ih =>
      exact perform_bind_leaves (checkFile_leaves (h compiler hcompiler) file) fun _ => ih

/-! ## Runs -/

/-- The second phase of a run: the flavors are generated and the files checked. -/
def deliver (request : Request) (source : Settings.Source) (prepared : Library.Prepared) :
    Run (StateM Machine) Report := do
  let s := request.settings
  let files ← request.flavors.mapM (generateFlavor s prepared)
  let isChecked ← if request.checks then check s files else pure false
  return ⟨source.name, prepared.linked.report, prepared.table.collisions.length, files, isChecked⟩

/-- A run loads, and then delivers. -/
theorem run_eq {request : Request} {source : Settings.Source}
    (h : request.settings.library = some source) :
    (run request : Run (StateM Machine) Report)
      = load request.settings source >>= deliver request source := by
  simp only [run, h, load, bind_assoc]
  rfl

/-- What has been loaded can be emitted in each flavor, under the name of the library. -/
theorem exists_emission_of_load {source : Settings.Source}
    (h : m.perform (load s source) = (.ok prepared, after)) :
    ∃ emission : Flavor → Declaration.Emission,
      (∀ flavor, prepared.emit flavor = .ok (emission flavor)) ∧
        ∀ flavor, (emission flavor).library = source.name := by
  obtain ⟨primary, dependencies, hname, hprepare⟩ := exists_prepare_of_load h
  obtain ⟨hrun, _, _⟩ := Library.of_prepare hprepare
  exact ⟨_, fun flavor => Declaration.emit_of_run hrun _ _ flavor, fun _ => hname⟩

/-- A delivery that fails does so when a file is written, or when the files that have all been
generated are checked. -/
theorem of_deliver_error {request : Request} {source : Settings.Source} {error : Error}
    (hemit : ∀ flavor, ∃ e, prepared.emit flavor = .ok e)
    (h : m.perform (deliver request source prepared) = (.error error, after)) :
    (∃ path fault, error = .write path fault) ∨ (∃ cause, error = .check cause) ∧
      ∃ files between, m.perform (request.flavors.mapM (generateFlavor request.settings prepared))
        = (.ok files, between) ∧ between.perform (check request.settings files)
          = (.error error, after) := by
  unfold deliver at h
  obtain h | ⟨files, between, hfiles, h⟩ := of_perform_bind_error h
  · obtain ⟨flavor, _, _, hfails⟩ := of_perform_mapM_error h
    exact .inl (exists_write_of_generateFlavor (hemit flavor) hfails)
  · right
    split at h
    · obtain h | ⟨_, _, _, h⟩ := of_perform_bind_error h
      · exact ⟨exists_check_of_check h, files, between, hfiles, h⟩
      · cases h
    · cases h

/-- Without a check, a delivery is done when the flavors have been generated. -/
theorem deliver_unchecked {request : Request} {source : Settings.Source} {files : List File}
    (h : m.perform (request.flavors.mapM (generateFlavor request.settings prepared))
      = (.ok files, after)) :
    ∃ report, m.perform (deliver { request with checks := false } source prepared)
      = (.ok report, after) := by
  unfold deliver
  rw [perform_bind_ok h]
  exact ⟨_, rfl⟩

/-- If the compiler refuses what a delivery has written, then the delivery would have left the very
same machine without the check, and every flavor is delivered there. -/
theorem delivered_of_refused {request : Request} {source : Settings.Source} {cause : CheckError}
    {emission : Flavor → Declaration.Emission} {library : String}
    (hemit : ∀ flavor, prepared.emit flavor = .ok (emission flavor))
    (hlibrary : ∀ flavor, (emission flavor).library = library)
    (hformatter : ∀ command, request.settings.formatter = some command → m.Filters command)
    (hcompiler : ∀ command, request.settings.compiler = some command →
      m.LeavesFiles command.program) (hplain : m.tree.IsPlain)
    (h : m.perform (deliver request source prepared) = (.error (.check cause), after)) :
    (∃ report, m.perform (deliver { request with checks := false } source prepared)
      = (.ok report, after)) ∧
    ∃ u, after = m.withTree u ∧ ∀ flavor ∈ request.flavors,
      Delivered m request.settings emission u flavor := by
  obtain ⟨_, _, hwrite⟩ | ⟨_, files, between, hfiles, hcheck⟩ :=
    of_deliver_error (fun flavor => ⟨_, hemit flavor⟩) h
  · cases hwrite
  · obtain ⟨u, rfl, hdelivered⟩ :=
      delivered_of_mapM hemit hlibrary hformatter hplain (t := m.tree) hfiles
    obtain rfl : m.withTree u = after := by
      have hleaves := check_leaves (m := m.withTree u) hcompiler files
      rw [hcheck] at hleaves
      exact hleaves.symm
    exact ⟨deliver_unchecked hfiles, u, rfl, fun flavor hflavor => hdelivered flavor (.inl hflavor)⟩

/-- A run that fails before it writes leaves the machine as it was. If the formatter is a function
of its input, if neither it nor the compiler changes files, and if the compiler refuses what a run
has written, then the run would have left the very same machine without the check, and there the
declaration file of every flavor holds the finished text of what was emitted. -/
theorem leaves_of_error {request : Request} {error : Error}
    (h : m.perform (run request) = (.error error, after)) :
    (error.isEarly = true → after = m) ∧
    ((∀ command, request.settings.formatter = some command → m.Filters command) →
      (∀ command, request.settings.compiler = some command → m.LeavesFiles command.program) →
      m.tree.IsPlain → ∀ cause, error = .check cause →
        ∃ source prepared report, request.settings.library = some source ∧
          m.perform (load request.settings source) = (.ok prepared, m) ∧
          m.perform (run { request with checks := false }) = (.ok report, after) ∧
          ∀ flavor ∈ request.flavors, ∃ e, prepared.emit flavor = .ok e ∧
            after.read (Output.declarationPath request.settings.outputDirectory source.name flavor)
              = .ok (finishedText m request.settings.formatter e)) := by
  cases hsource : request.settings.library with
  | none =>
    simp only [run, hsource] at h
    cases h
    exact ⟨fun _ => rfl, fun _ _ _ _ => nofun⟩
  | some source =>
    rw [run_eq hsource] at h
    obtain ⟨prepared, hload⟩ | ⟨early, hload, hearly⟩ := reads_load request.settings source m
    · rw [perform_bind_ok hload] at h
      obtain ⟨emission, hemit, hlibrary⟩ := exists_emission_of_load hload
      refine ⟨fun hearly => ?_, fun hformatter hcompiler hplain cause hcause => ?_⟩
      · -- The second flavor is emitted after the first one was written, but emission cannot fail.
        obtain ⟨_, _, rfl⟩ | ⟨⟨_, rfl⟩, _⟩ := of_deliver_error (fun flavor => ⟨_, hemit flavor⟩) h
        all_goals cases hearly
      · obtain ⟨⟨report, hunchecked⟩, u, rfl, hdelivered⟩ :=
          delivered_of_refused hemit hlibrary hformatter hcompiler hplain (hcause ▸ h)
        refine ⟨source, prepared, report, rfl, hload, ?_, fun flavor hflavor => ?_⟩
        · have hrun : (run { request with checks := false } : Run (StateM Machine) Report)
              = load request.settings source >>= deliver { request with checks := false } source :=
            run_eq hsource
          rw [hrun, perform_bind_ok hload]
          exact hunchecked
        · have hread := (hdelivered flavor hflavor).read
          rw [hlibrary] at hread
          exact ⟨_, hemit flavor, hread⟩
    · rw [perform_bind_error hload] at h
      cases h
      refine ⟨fun _ => rfl, fun _ _ _ cause hcause => ?_⟩
      rw [hcause] at hearly
      cases hearly

/-- A machine with the description of an empty library and with the usual tools, one of which passes
its input on and another refuses everything. -/
def refusing : Machine where
  tree := Tree.empty.put ["api.json"]
    (.file "\x7b\"kind\":\"Root\",\"topLevelNamespace\":\x7b\"kind\":\"Namespace\"\x7d\x7d")
  working := []
  programs := Tool.programs

/-- The request to generate and check both flavors of the library with some description. -/
def checking (api : String) : Request where
  settings := { Settings.default with
    library := some ⟨"lib", api, []⟩
    formatCommand := some ["cat"]
    checkCommand := some "false" }
  flavors := Flavor.all
  checks := true

/-- On that machine a request for a missing description changes nothing, and a request for the
empty library is refused once both of its files are there. -/
theorem leaves_of_error_refusing :
    (∃ error, error.isEarly = true ∧
      refusing.perform (run (checking "other.json")) = (.error error, refusing)) ∧
    ∃ cause report after,
      refusing.perform (run (checking "api.json")) = (.error (.check cause), after) ∧
      refusing.perform (run { checking "api.json" with checks := false }) = (.ok report, after) ∧
      ∀ flavor, ∃ prepared e, Library.Prepared.emit prepared flavor = .ok e ∧
        after.read (Output.declarationPath "out" "lib" flavor)
          = .ok (finishedText refusing (some ⟨"cat", []⟩) e) := by
  constructor
  · have hread : ((refusing.perform (run (checking "other.json"))).1.mapError Error.isEarly).map
        (fun _ => ()) = .error true := by decide +kernel
    rcases h : refusing.perform (run (checking "other.json")) with ⟨error | _, after⟩
    all_goals rw [h] at hread
    · have hearly : error.isEarly = true := Except.error.inj hread
      obtain rfl := (leaves_of_error h).1 hearly
      exact ⟨error, hearly, rfl⟩
    · cases hread
  · have hread : ((refusing.perform (run (checking "api.json"))).1.mapError Error.isCheck).map
        (fun _ => ()) = .error true := by decide +kernel
    rcases h : refusing.perform (run (checking "api.json")) with ⟨error | _, after⟩
    all_goals rw [h] at hread
    · cases error with
      | check cause =>
        have hcat : refusing.Filters ⟨"cat", []⟩ := Tool.filters_of_isFilter rfl (.inr rfl)
        have hfalse : refusing.LeavesFiles "false" :=
          Tool.leavesFiles_of_mem_harmless rfl (by decide)
        have hplain : refusing.tree.IsPlain := by
          intro place hvoid
          by_cases hplace : place = ["api.json"]
          · rw [hplace, refusing, entry?_put_self _ _ (by decide)] at hvoid
            cases hvoid
          · rw [refusing, entry?_put_of_ne _ _ hplace] at hvoid
            cases place <;> cases hvoid
        obtain ⟨source, prepared, report, hsource, -, hunchecked, hfiles⟩ :=
          (leaves_of_error h).2 (fun command hcommand => by cases hcommand; exact hcat)
            (fun command hcommand => by cases hcommand; exact hfalse) hplain cause rfl
        cases hsource
        refine ⟨cause, report, after, rfl, hunchecked, fun flavor => ?_⟩
        obtain ⟨e, hemit, hfile⟩ := hfiles flavor (by cases flavor <;> decide)
        exact ⟨prepared, e, hemit, hfile⟩
      | _ => cases hread
    · cases hread

end Ambient.Generation
