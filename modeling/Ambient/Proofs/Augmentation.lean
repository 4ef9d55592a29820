import Ambient.Proofs.Output

/-!
# Files for additions

A file for additions is started where nothing was and never written to again, unless a library has
a name that makes its declaration file one for additions: `x.augment` in modules and the additions
to `x` share a path. Main statement: in every course of writes and of edits by hand that is free of
such names, what stands at the place of a file for additions stays what its last edit made of it,
and it is started by the one write that says so.
-/

namespace Ambient.Output

open Files Files.Tree Machine

variable {m after between last : Machine} {directory library text : String} {flavor : Flavor}
  {place : Location}

/-! ## Places -/

/-- Where the declaration file of a library is. -/
def declarationPlace (working : Location) (directory library : String) (flavor : Flavor) :
    Location := placeOf working (declarationPath directory library flavor)

/-- Where the file for additions to a library is. -/
def augmentationPlace (working : Location) (directory library : String) : Location :=
  placeOf working (augmentationPath directory library)

/-- Whether a place is one for additions, to whatever library. -/
def IsForAdditions (place : Location) : Prop :=
  ∃ front name, place = front ++ [name] ∧ ".augment.d.ts".toList <:+ name.toList

/-- Whether a library does not have, in modules, a name that makes its declaration file one for
additions. -/
def Spares (library : String) (flavor : Flavor) : Prop :=
  flavor = .modules → ¬ ".augment".toList <:+ library.toList

/-- The file for additions is at a place for additions. -/
theorem augmentationPlace_isForAdditions (working : Location) (directory library : String) :
    IsForAdditions (augmentationPlace working directory library) := by
  rw [augmentationPlace, augmentationPath_eq, placeOf_append isEnding_augment]
  exact ⟨_, _, rfl, by simp [fileName]⟩

/-- A library that spares additions does not have its declarations at a place for them. -/
theorem declarationPlace_not_isForAdditions (working : Location) (directory : String)
    (h : Spares library flavor) :
    ¬ IsForAdditions (declarationPlace working directory library flavor) := by
  rintro ⟨front, name, hplace, hname⟩
  rw [declarationPlace, declarationPath_eq, placeOf_append (isEnding_fileSuffix flavor)] at hplace
  obtain ⟨-, hlast⟩ := List.append_inj' hplace rfl
  obtain rfl := List.singleton_injective hlast
  rw [fileName, String.toList_append] at hname
  cases flavor with
  | modules =>
    have hcut : ".augment.d.ts".toList
        = ".augment".toList ++ ("." ++ Flavor.modules.fileSuffix).toList := rfl
    rw [hcut, List.suffix_append_self_iff] at hname
    exact h rfl (suffix_of_suffix_fileName (by decide) hname)
  | globals =>
    have hlength : ".augment.d.ts".toList.length
        = ("." ++ Flavor.globals.fileSuffix).toList.length := by decide
    rw [← List.nil_append ".augment.d.ts".toList,
      List.suffix_append_inj_of_length_eq hlength] at hname
    exact absurd hname.2 (by decide)

/-- Paths in one directory that lead to one place have the same name. -/
theorem append_eq_of_placeOf_eq {working : Location} {other tail tail' : String}
    (h : '/' ∉ library.toList) (hother : '/' ∉ other.toList) (htail : IsEnding tail)
    (htail' : IsEnding tail')
    (heq : placeOf working (join directory library ++ tail)
      = placeOf working (join directory other ++ tail')) :
    library ++ tail = other ++ tail' := by
  rw [placeOf_append htail, placeOf_append htail', fileName_join h, fileName_join hother] at heq
  exact List.singleton_injective (List.append_inj' heq rfl).2

/-- Names without separators lead to one declaration file only if they are the same, or if one of
them ends in the word for a flavor. -/
theorem declarationPlace_eq_iff (working : Location) (directory : String) {library other : String}
    (h : '/' ∉ library.toList) (hother : '/' ∉ other.toList) (flavor flavor' : Flavor) :
    declarationPlace working directory library flavor
        = declarationPlace working directory other flavor' ↔
      library = other ∧ flavor = flavor' ∨
        library = other ++ ".globals" ∧ flavor = .modules ∧ flavor' = .globals ∨
        other = library ++ ".globals" ∧ flavor' = .modules ∧ flavor = .globals := by
  have hpath (name : String) : declarationPath directory (name ++ ".globals") .modules
      = declarationPath directory name .globals := by
    simp only [declarationPath, String.append_assoc]
    rfl
  constructor
  · intro heq
    rw [declarationPlace, declarationPlace, declarationPath_eq, declarationPath_eq] at heq
    have hname := append_eq_of_placeOf_eq h hother (isEnding_fileSuffix flavor)
      (isEnding_fileSuffix flavor') heq
    have hcut (name : String) : name ++ ("." ++ Flavor.globals.fileSuffix)
        = name ++ ".globals" ++ ("." ++ Flavor.modules.fileSuffix) := by
      rw [String.append_assoc]
      rfl
    cases flavor <;> cases flavor'
    · exact .inl ⟨String.append_left_inj _ |>.mp hname, rfl⟩
    · rw [hcut] at hname
      exact .inr (.inl ⟨String.append_left_inj _ |>.mp hname, rfl, rfl⟩)
    · rw [hcut] at hname
      exact .inr (.inr ⟨(String.append_left_inj _ |>.mp hname).symm, rfl, rfl⟩)
    · exact .inl ⟨String.append_left_inj _ |>.mp hname, rfl⟩
  · rintro (⟨rfl, rfl⟩ | ⟨rfl, rfl, rfl⟩ | ⟨rfl, rfl, rfl⟩)
    · rfl
    · rw [declarationPlace, hpath, declarationPlace]
    · rw [declarationPlace, declarationPlace, hpath]

/-- A declaration file is one for additions, both to libraries with names without separators, only
if it is one in modules and the name ends in the word for additions. -/
theorem declarationPlace_eq_augmentationPlace_iff (working : Location) (directory : String)
    {library other : String} (h : '/' ∉ library.toList) (hother : '/' ∉ other.toList)
    (flavor : Flavor) :
    declarationPlace working directory library flavor = augmentationPlace working directory other ↔
      library = other ++ ".augment" ∧ flavor = .modules := by
  constructor
  · intro heq
    rw [declarationPlace, augmentationPlace, declarationPath_eq, augmentationPath_eq] at heq
    have hname := append_eq_of_placeOf_eq h hother (isEnding_fileSuffix flavor) isEnding_augment heq
    cases flavor with
    | modules =>
      have hcut : other ++ ".augment.d.ts"
          = other ++ ".augment" ++ ("." ++ Flavor.modules.fileSuffix) := by
        rw [String.append_assoc]
        rfl
      rw [hcut] at hname
      exact ⟨String.append_left_inj _ |>.mp hname, rfl⟩
    | globals =>
      have hchars : library.toList ++ ("." ++ Flavor.globals.fileSuffix).toList
          = other.toList ++ ".augment.d.ts".toList := by
        rw [← String.toList_append, hname, String.toList_append]
      have hlength : ("." ++ Flavor.globals.fileSuffix).toList.length
          = ".augment.d.ts".toList.length := by decide
      exact absurd (List.append_inj' hchars hlength).2 (by decide)
  · rintro ⟨rfl, rfl⟩
    rw [declarationPlace, augmentationPlace, declarationPath, augmentationPath,
      String.append_assoc, String.append_assoc]
    rfl

/-! ## Courses of writes and edits -/

/-- What happens to the files of a directory: a write with its outcome, or an edit by hand. -/
inductive Event where
  | write (library : String) (flavor : Flavor) (text : String) (startsAugmentations : Bool)
      (outcome : Except Fault Written)
  | edit (place : Location)

/-- The place of the file for additions that an event is reported to have started. -/
def Event.started (working : Location) (directory : String) : Event → Option Location
  | .write library _ _ _ (.ok written) =>
    if written.startedAugmentation then some (augmentationPlace working directory library) else none
  | _ => none

/-- Whether an event writes no declarations to a file for additions. -/
def Event.Spares : Event → Prop
  | .write library flavor _ _ _ => Output.Spares library flavor
  | .edit _ => True

/-- An event changes a machine: a write as it does, an edit by hand whatever stands at a place for
additions, except that it neither unmakes nor makes a directory. -/
inductive Step (directory : String) (m : Machine) : Event → Machine → Prop
  | write {library flavor text startsAugmentations outcome after} :
      m.perform (Output.write directory library flavor text startsAugmentations)
          = (outcome, after) →
        Step directory m (.write library flavor text startsAugmentations outcome) after
  | edit {place tree} : IsForAdditions place → m.tree.entry? place ≠ some .directory →
      tree.entry? place ≠ some .directory →
        (∀ other, other ≠ place → tree.entry? other = m.tree.entry? other) →
          Step directory m (.edit place) (m.withTree tree)

/-- A course of events, one after the other. -/
inductive Course (directory : String) : Machine → List Event → Machine → Prop
  | done (m : Machine) : Course directory m [] m
  | step {m between last : Machine} {event events} : Step directory m event between →
      Course directory between events last → Course directory m (event :: events) last

/-- An event leaves the working directory. -/
theorem Step.working {event : Event} (h : Step directory m event after) :
    after.working = m.working := by
  cases h with
  | write hwrite =>
    cases write_result hwrite <;> rfl
  | edit => rfl

/-- A course of events leaves the working directory. -/
theorem Course.working {events : List Event} (h : Course directory m events last) :
    last.working = m.working := by
  induction h with
  | done => rfl
  | step hstep _ ih => rw [ih, hstep.working]

/-- Nothing changes at a place, but that a directory may be made where nothing was. -/
def Unchanged (place : Location) (t u : Tree) : Prop :=
  u.entry? place = t.entry? place ∨ t.entry? place = none ∧ u.entry? place = some .directory

/-- Where no files are written, nothing changes at a place. -/
theorem unchanged_of_updates {t u : Tree} (h : Updates [] t u) (place : Location) :
    Unchanged place t u := by
  cases hbefore : t.entry? place with
  | some entry => exact .inl (by rw [h.others place entry hbefore nofun, hbefore])
  | none =>
    cases hafter : u.entry? place with
    | none => exact .inl (by rw [hbefore, hafter])
    | some entry =>
      by_cases hentry : entry = .directory
      · exact .inr ⟨hbefore, by rw [hafter, hentry]⟩
      · rw [h.files place entry hafter hentry nofun] at hbefore
        cases hbefore

/-- What did not change at a place has not changed there if it stayed as it was afterwards. -/
theorem Unchanged.of_eq {t u v : Tree} (h : Unchanged place t u)
    (heq : v.entry? place = u.entry? place) : Unchanged place t v := by
  rwa [Unchanged, heq]

/-- Declarations are written elsewhere than additions. -/
theorem unchanged_of_declared {made declared : Tree} (hspares : Spares library flavor)
    (hplace : IsForAdditions place) (hmade : Updates [] m.tree made)
    (hdeclared : made.write m.working (declarationPath directory library flavor) text
      = .ok declared) : Unchanged place m.tree declared := by
  rw [declarationPath_eq] at hdeclared
  obtain ⟨target, hlocate, -, rfl⟩ :=
    exists_replace_of_write (isEnding_fileSuffix flavor) hdeclared
  have htarget : target = declarationPlace m.working directory library flavor := by
    rw [declarationPlace, declarationPath_eq]
    exact eq_placeOf_of_locate (isEnding_fileSuffix flavor) hlocate
  have hne : place ≠ target := by
    rintro rfl
    exact declarationPlace_not_isForAdditions m.working directory hspares (htarget ▸ hplace)
  exact (unchanged_of_updates hmade place).of_eq (entry?_replace_of_ne _ _ hne)

/-- A file for additions is started at its place, where nothing was. -/
theorem replace_of_started {working : Location} {t u : Tree}
    (hcontains : t.contains working (augmentationPath directory library) = false)
    (hstub : t.write working (augmentationPath directory library) text = .ok u) :
    t.entry? (augmentationPlace working directory library) = none ∧
      u = t.replace (augmentationPlace working directory library) (.file text) := by
  rw [augmentationPath_eq] at hcontains hstub
  obtain ⟨target, hlocate, -, rfl⟩ := exists_replace_of_write isEnding_augment hstub
  have htarget : augmentationPlace working directory library = target := by
    rw [augmentationPlace, augmentationPath_eq]
    exact (eq_placeOf_of_locate isEnding_augment hlocate).symm
  rw [htarget]
  exact ⟨by simpa [contains, hlocate] using hcontains, rfl⟩

/-- At a place for additions a write either changes nothing, or it starts the file there and says
so. -/
theorem write_at {startsAugmentations : Bool} {outcome : Except Fault Written}
    (h : m.perform (write directory library flavor text startsAugmentations) = (outcome, after))
    (hspares : Spares library flavor) (hplace : IsForAdditions place) :
    (Event.write library flavor text startsAugmentations outcome).started m.working directory
          ≠ some place ∧ Unchanged place m.tree after.tree ∨
      (Event.write library flavor text startsAugmentations outcome).started m.working directory
          = some place ∧ augmentationPlace m.working directory library = place ∧
        m.tree.entry? place = none ∧
        after.tree.entry? place = some (.file (augmentationStart library)) := by
  cases write_result h with
  | failed hmade => exact .inl ⟨nofun, unchanged_of_updates hmade place⟩
  | declared hmade hdeclared hreported =>
    refine .inl ⟨?_, unchanged_of_declared hspares hplace hmade hdeclared⟩
    cases outcome with
    | error fault => exact nofun
    | ok written => simp [Event.started, hreported written rfl]
  | started hmade hdeclared hcontains hstub =>
    have hunchanged := unchanged_of_declared hspares hplace hmade hdeclared
    obtain ⟨hnothing, hreplaced⟩ := replace_of_started hcontains hstub
    rw [withTree_tree, hreplaced]
    by_cases hsame : augmentationPlace m.working directory library = place
    · subst hsame
      have hroot : augmentationPlace m.working directory library ≠ [] := fun hroot => by
        rw [hroot] at hnothing
        cases hnothing
      have hbefore : m.tree.entry? (augmentationPlace m.working directory library) = none := by
        obtain hkept | ⟨hbefore, -⟩ := hunchanged
        · rw [← hkept, hnothing]
        · exact hbefore
      refine .inr ⟨by simp [Event.started], rfl, hbefore, ?_⟩
      exact entry?_replace_self _ _ hroot (by simp [hnothing])
    · refine .inl ⟨by simpa [Event.started] using hsame, ?_⟩
      exact hunchanged.of_eq (entry?_replace_of_ne _ _ (Ne.symm hsame))

/-- What an event other than an edit of it does at a place for additions. -/
theorem Step.at_place {event : Event} (h : Step directory m event after) (hspares : event.Spares)
    (hplace : IsForAdditions place) (hedit : event ≠ .edit place) :
    event.started m.working directory ≠ some place ∧ Unchanged place m.tree after.tree ∨
      event.started m.working directory = some place ∧ m.tree.entry? place = none ∧
        ∃ library, augmentationPlace m.working directory library = place ∧
          after.tree.entry? place = some (.file (augmentationStart library)) := by
  cases h with
  | write hwrite =>
    obtain hkept | ⟨hstarted, hlibrary, hnothing, hfile⟩ := write_at hwrite hspares hplace
    · exact .inl hkept
    · exact .inr ⟨hstarted, hnothing, _, hlibrary, hfile⟩
  | @edit other tree _ _ _ hothers =>
    have hne : place ≠ other := fun hsame => hedit (hsame ▸ rfl)
    exact .inl ⟨nofun, .inl (hothers place hne)⟩

/-- How many events of a course are reported to have started the file for additions at a place. -/
def starts (working : Location) (directory : String) (place : Location) (events : List Event) :
    Nat := events.countP fun event => event.started working directory = some place

/-- What stands at a place for additions stays in a course that does not edit it. -/
theorem Course.keeps {events : List Event} {entry : Entry} (h : Course directory m events last)
    (hspares : ∀ event ∈ events, event.Spares) (hplace : IsForAdditions place)
    (hedits : .edit place ∉ events) (hentry : m.tree.entry? place = some entry) :
    last.tree.entry? place = some entry ∧ starts m.working directory place events = 0 := by
  induction h with
  | done m => exact ⟨hentry, rfl⟩
  | @step m between last event events hstep _ ih =>
    rw [List.forall_mem_cons] at hspares
    rw [List.mem_cons, not_or] at hedits
    obtain ⟨hstarted, hkept | ⟨hnothing, -⟩⟩ | ⟨-, hnothing, -⟩ :=
      hstep.at_place hspares.1 hplace (Ne.symm hedits.1)
    · obtain ⟨hlast, hcount⟩ := ih hspares.2 hedits.2 (hkept.trans hentry)
      rw [hstep.working] at hcount
      exact ⟨hlast, by simpa [starts, hstarted] using hcount⟩
    · rw [hnothing] at hentry
      cases hentry
    · rw [hnothing] at hentry
      cases hentry

/-- In a course that does not edit it, a file for additions that was not there is there in the end
exactly if one event was reported to start it, and then it is as it was started; no more than one
event is. -/
theorem Course.starts_once {events : List Event} (h : Course directory m events last)
    (hspares : ∀ event ∈ events, event.Spares) (hplace : IsForAdditions place)
    (hedits : .edit place ∉ events) (hnothing : m.tree.entry? place = none) :
    starts m.working directory place events = 0 ∧
        (last.tree.entry? place = none ∨ last.tree.entry? place = some .directory) ∨
      starts m.working directory place events = 1 ∧
        ∃ library, augmentationPlace m.working directory library = place ∧
          last.tree.entry? place = some (.file (augmentationStart library)) := by
  induction h with
  | done m => exact .inl ⟨rfl, .inl hnothing⟩
  | @step m between last event events hstep hrest ih =>
    rw [List.forall_mem_cons] at hspares
    rw [List.mem_cons, not_or] at hedits
    have hworking := hstep.working
    obtain ⟨hstarted, hkept⟩ | ⟨hstarted, -, library, hlibrary, hfile⟩ :=
      hstep.at_place hspares.1 hplace (Ne.symm hedits.1)
    · have hcount : starts m.working directory place (event :: events)
          = starts m.working directory place events := by simp [starts, hstarted]
      rw [hcount]
      obtain hkept | ⟨-, hdirectory⟩ := hkept
      · rw [← hworking]
        exact ih hspares.2 hedits.2 (hkept.trans hnothing)
      · obtain ⟨hlast, hzero⟩ := hrest.keeps hspares.2 hplace hedits.2 hdirectory
        rw [← hworking]
        exact .inl ⟨hzero, .inr hlast⟩
    · obtain ⟨hlast, hzero⟩ := hrest.keeps hspares.2 hplace hedits.2 hfile
      rw [hworking] at hzero
      refine .inr ⟨?_, library, hlibrary, hlast⟩
      have hcount : starts m.working directory place (event :: events)
          = starts m.working directory place events + 1 := by simp [starts, hstarted]
      rw [hcount, hzero]

/-- Take any moment of a course after which the file for additions to a library is not edited and no
library is written to a file for additions. What is there at that moment stays to the end, and
nothing is reported to start it. If nothing is there, then a file is there in the end exactly if one
event was reported to start it, and no more than one is. Among names without separators, two
declaration files are one only if library and flavor are, or if one name is the other with the
word for globals; and one is a file for additions only in modules, with the word for that. -/
theorem augmentations_survive {earlier later : List Event}
    (hearlier : Course directory m earlier between) (hlater : Course directory between later last)
    (hspares : ∀ event ∈ later, event.Spares) (library : String)
    (hedits : .edit (augmentationPlace m.working directory library) ∉ later) :
    (let place := augmentationPlace m.working directory library
      let count := starts m.working directory place later
      (∀ entry, between.tree.entry? place = some entry →
        last.tree.entry? place = some entry ∧ count = 0) ∧
      (between.tree.entry? place = none →
        count = 0 ∧ (last.tree.entry? place = none ∨ last.tree.entry? place = some .directory) ∨
        count = 1 ∧ ∃ other, augmentationPlace m.working directory other = place ∧
          last.tree.entry? place = some (.file (augmentationStart other)))) ∧
    (∀ name other : String, '/' ∉ name.toList → '/' ∉ other.toList → ∀ flavor flavor',
      (declarationPlace m.working directory name flavor
          = declarationPlace m.working directory other flavor' ↔
        name = other ∧ flavor = flavor' ∨
          name = other ++ ".globals" ∧ flavor = .modules ∧ flavor' = .globals ∨
          other = name ++ ".globals" ∧ flavor' = .modules ∧ flavor = .globals) ∧
      (declarationPlace m.working directory name flavor
          = augmentationPlace m.working directory other ↔
        name = other ++ ".augment" ∧ flavor = .modules)) := by
  refine ⟨?_, fun name other hname hother flavor flavor' =>
    ⟨declarationPlace_eq_iff m.working directory hname hother flavor flavor',
      declarationPlace_eq_augmentationPlace_iff m.working directory hname hother flavor⟩⟩
  have hplace := augmentationPlace_isForAdditions m.working directory library
  rw [← hearlier.working] at hplace hedits ⊢
  exact ⟨fun entry hentry => hlater.keeps hspares hplace hedits hentry,
    fun hnothing => hlater.starts_once hspares hplace hedits hnothing⟩

/-- A machine with additions to `x` that have been written by hand. -/
def handWritten : Machine where
  tree := (Tree.empty.put ["out"] .directory).put ["out", "x.augment.d.ts"] (.file "mine")
  working := []
  programs _ _ _ _ := .error .missing

/-- Two flavors are written, and the additions stay. -/
theorem augmentations_survive_flavors :
    let first := handWritten.perform (Output.write "out" "x" .modules "one" true)
    let second := first.2.perform (Output.write "out" "x" .globals "two" true)
    second.2.tree.entry? ["out", "x.augment.d.ts"] = some (.file "mine") ∧
      starts [] "out" ["out", "x.augment.d.ts"]
        [.write "x" .modules "one" true first.1, .write "x" .globals "two" true second.1] = 0 := by
  intro first second
  have hcourse : Course "out" handWritten
      [.write "x" .modules "one" true first.1, .write "x" .globals "two" true second.1]
      second.2 := .step (.write rfl) (.step (.write rfl) (.done _))
  have hspares : ∀ event ∈ [Event.write "x" .modules "one" true first.1,
      .write "x" .globals "two" true second.1], event.Spares := by
    simp only [List.forall_mem_cons, Event.Spares, Spares]
    exact ⟨fun _ => by decide, nofun, nofun⟩
  have hplace : augmentationPlace [] "out" "x" = ["out", "x.augment.d.ts"] := by decide
  obtain ⟨⟨hkeeps, -⟩, -⟩ := augmentations_survive (.done _) hcourse hspares "x" (by simp)
  have hthere : handWritten.tree.entry? ["out", "x.augment.d.ts"] = some (.file "mine") := by decide
  exact hplace ▸ hkeeps (.file "mine") (hplace ▸ hthere)

/-- The declarations of `x.augment` in modules are written over the additions to `x`. -/
theorem not_augmentations_survive_named :
    handWritten.read (augmentationPath "out" "x") = .ok "mine" ∧
      (handWritten.perform (Output.write "out" "x.augment" .modules "text" true)).2.read
        (augmentationPath "out" "x") = .ok "text" := by
  decide +kernel

end Ambient.Output
