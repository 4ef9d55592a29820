import Ambient.Proofs.Files.Paths

/-!
# What writing changes

Making directories and writing files leaves all directories where they are, so that every path still
leads where it led. Nothing else is changed but the files with the names that were written, and a
file that was written can be read.
-/

namespace Ambient.Files.Tree

variable {t u v : Tree} {place other working : Location} {path stem tail text : String}

/-- Putting an entry at a place leaves all other places. -/
theorem entry?_put_of_ne (t : Tree) (entry : Entry) (h : other ≠ place) :
    Tree.entry? (t.put place entry) other = t.entry? other := by
  unfold entry? put
  rw [Ordered.Map.get?_put_of_ne _ _ h]

/-- What was put at a place is there. -/
theorem entry?_put_self (t : Tree) (entry : Entry) (h : place ≠ []) :
    Tree.entry? (t.put place entry) place = some entry := by
  have hplace : place.isEmpty = false := by simpa using h
  unfold entry? put
  rw [hplace, Ordered.Map.get?_put_self]
  rfl

/-- Replacing a file leaves all other places. -/
theorem entry?_replace_of_ne (t : Tree) (file : Entry) (h : other ≠ place) :
    Tree.entry? (t.replace place file) other = t.entry? other := by
  rw [replace]
  split
  · rfl
  · exact entry?_put_of_ne t file h

/-- What was replaced is there, unless everything is lost there. -/
theorem entry?_replace_self (t : Tree) (file : Entry) (h : place ≠ [])
    (hvoid : t.entry? place ≠ some .void) :
    Tree.entry? (t.replace place file) place = some file := by
  rw [replace, if_neg hvoid, entry?_put_self t file h]

/-! ## Updates -/

/-- A tree has become another by making directories and writing files of some names. -/
structure Updates (names : List String) (t u : Tree) : Prop where
  directories : ∀ place, t.entry? place = some .directory → u.entry? place = some .directory
  others : ∀ place entry, t.entry? place = some entry →
    (∀ name ∈ names, place.getLast? ≠ some name) → u.entry? place = some entry
  files : ∀ place entry, u.entry? place = some entry → entry ≠ .directory →
    (∀ name ∈ names, place.getLast? ≠ some name) → t.entry? place = some entry
  voids : ∀ place, u.entry? place = some .void → t.entry? place = some .void

namespace Updates

variable {names : List String}

/-- A tree that nothing is done to is updated by nothing. -/
theorem refl (t : Tree) : Updates names t t :=
  ⟨fun _ h => h, fun _ _ h _ => h, fun _ _ h _ _ => h, fun _ h => h⟩

/-- Two updates of files with some names, one after the other, are one. -/
theorem trans (h : Updates names t u) (h' : Updates names u v) : Updates names t v where
  directories place hplace := h'.directories place (h.directories place hplace)
  others place entry hplace hnames :=
    h'.others place entry (h.others place entry hplace hnames) hnames
  files place entry hplace hfile hnames :=
    h.files place entry (h'.files place entry hplace hfile hnames) hfile hnames
  voids place hplace := h.voids place (h'.voids place hplace)

/-- An update of files with some names is one of files with more names. -/
theorem mono {more : List String} (h : Updates names t u) (hsub : ∀ name ∈ names, name ∈ more) :
    Updates more t u where
  directories := h.directories
  others place entry hplace hnames :=
    h.others place entry hplace fun name hname => hnames name (hsub name hname)
  files place entry hplace hfile hnames :=
    h.files place entry hplace hfile fun name hname => hnames name (hsub name hname)
  voids := h.voids

/-- A directory is made where nothing was. -/
theorem put_directory (h : t.entry? place = none) : Updates names t (t.put place .directory) := by
  have hkept (other : Location) (entry : Entry) (hother : t.entry? other = some entry) :
      Tree.entry? (t.put place .directory) other = some entry := by
    rw [entry?_put_of_ne _ _ fun hsame => by rw [hsame, h] at hother; cases hother]
    exact hother
  have hroot : place ≠ [] := by
    rintro rfl
    cases h
  have hfile (other : Location) (entry : Entry) (hother : Tree.entry? (t.put place .directory) other
      = some entry) (hentry : entry ≠ .directory) : t.entry? other = some entry := by
    by_cases hsame : other = place
    · rw [hsame, entry?_put_self _ _ hroot] at hother
      exact absurd (Option.some.inj hother).symm hentry
    · rwa [entry?_put_of_ne _ _ hsame] at hother
  exact ⟨fun other => hkept other _, fun other entry hother _ => hkept other entry hother,
    fun other entry hother hentry _ => hfile other entry hother hentry,
    fun other hother => hfile other .void hother nofun⟩

/-- A file is written where no directory was. -/
theorem replace_file {name : String} {directory : Location}
    (h : t.entry? (directory ++ [name]) ≠ some .directory) (text : String) :
    Updates [name] t (t.replace (directory ++ [name]) (.file text)) := by
  rw [replace]
  split
  · exact .refl t
  · refine ⟨fun other hother => ?_, fun other entry hother hnames => ?_,
      fun other entry hother _ hnames => ?_, fun other hother => ?_⟩
    · rw [entry?_put_of_ne _ _ fun hsame => h (by rw [← hsame]; exact hother)]
      exact hother
    · rw [entry?_put_of_ne _ _ fun hsame => ?_]
      · exact hother
      · rw [hsame] at hnames
        exact hnames name List.mem_cons_self List.getLast?_concat
    · rw [entry?_put_of_ne _ _ fun hsame => ?_] at hother
      · exact hother
      · rw [hsame] at hnames
        exact hnames name List.mem_cons_self List.getLast?_concat
    · by_cases hsame : other = directory ++ [name]
      · rw [hsame, entry?_put_self _ _ (by simp)] at hother
        cases hother
      · rwa [entry?_put_of_ne _ _ hsame] at hother

end Updates

/-! ## Making directories -/

/-- Making the directories along a path writes no files. -/
theorem updates_makeAlong (parts : List String) (t : Tree) (place : Location) :
    Updates [] t (t.makeAlong place parts).1 := by
  induction parts generalizing t place with
  | nil => exact .refl t
  | cons part rest ih =>
    rw [makeAlong]
    split
    · exact ih t _
    · exact .refl t
    · next hnone =>
      split
      · exact .refl t
      · exact (Updates.put_directory hnone).trans (ih _ _)

/-- Making directories changes nothing that is there, be it finished or not. -/
theorem updates_makeDirectories (t : Tree) (working : Location) (path : String) :
    Updates [] t (t.makeDirectories working path).1 := by
  have hparts (start : Location) (all : List String) :
      Updates [] t (t.makeParts start all).1 := by
    simp only [makeParts]
    split
    · exact updates_makeAlong _ t start
    · have hmade := updates_makeAlong (dropDots all).dropLast t start
      split
      · next made hdone =>
        rw [hdone] at hmade
        exact hmade
      · exact hmade
  simp only [makeDirectories]
  split
  · exact .refl t
  · exact .refl t
  · exact hparts _ _

/-! ## Walks -/

/-- Where all directories stay, a walk leads where it led. -/
theorem follow_mono (h : ∀ place, t.entry? place = some .directory →
    u.entry? place = some .directory) {parts : List String} {start place : Location}
    (hfollow : t.follow start parts = .ok place) : u.follow start parts = .ok place := by
  induction parts generalizing start with
  | nil => exact hfollow
  | cons part rest ih =>
    rw [follow] at hfollow ⊢
    split at hfollow
    · cases hfollow
    · next hdirectory =>
      rw [h start hdirectory]
      split at hfollow
      · cases hfollow
      · next hname =>
        simp only [hname, if_false]
        exact ih hfollow
    · cases hfollow

/-- A text that can be a path leads where its parts lead. -/
theorem locate_eq_ok : t.locate working path = .ok place ↔
    path.isEmpty = false ∧ checkText path = .ok () ∧
      t.follow (startOf working path) (parts path ++ if endsInSeparator path then ["."] else [])
        = .ok place := by
  unfold locate
  cases path.isEmpty with
  | true => exact ⟨nofun, nofun⟩
  | false =>
    cases checkText path with
    | error fault => exact ⟨nofun, fun h => nomatch h.2.1⟩
    | ok _ => exact ⟨fun h => ⟨rfl, rfl, h⟩, fun h => h.2.2⟩

/-- A path leads where it led, too. -/
theorem locate_mono (h : ∀ place, t.entry? place = some .directory →
    u.entry? place = some .directory) (hlocate : t.locate working path = .ok place) :
    u.locate working path = .ok place := by
  obtain ⟨hempty, htext, hfollow⟩ := locate_eq_ok.mp hlocate
  exact locate_eq_ok.mpr ⟨hempty, htext, follow_mono h hfollow⟩

/-- The location that a path leads to, if it leads anywhere. -/
def placeOf (working : Location) (path : String) : Location :=
  (parts path).foldl step (startOf working path)

/-- Following a path takes its steps one after another. -/
theorem eq_foldl_of_follow {parts : List String} {start : Location}
    (h : t.follow start parts = .ok place) : place = parts.foldl step start := by
  induction parts generalizing start with
  | nil => exact (Except.ok.inj h).symm
  | cons part rest ih =>
    rw [follow] at h
    split at h
    · cases h
    · split at h
      · cases h
      · exact ih h
    · cases h

/-- A path with an ending leads from a directory to the file of its name there. -/
theorem step_fileName (h : IsEnding tail) (directory : Location) (stem : String) :
    step directory (fileName stem tail) = directory ++ [fileName stem tail] := by
  have hlong := length_fileName h stem
  rw [step, if_neg fun hdot => by rw [hdot] at hlong; exact absurd hlong (by decide),
    if_neg fun hdots => by rw [hdots] at hlong; exact absurd hlong (by decide)]

/-- Where a path with an ending leads, the directory depends on the stem alone. -/
theorem placeOf_append (h : IsEnding tail) (working : Location) (stem : String) :
    placeOf working (stem ++ tail)
      = (folders stem).foldl step (startOf working stem) ++ [fileName stem tail] := by
  rw [placeOf, parts_append h, List.foldl_append, List.foldl_cons, List.foldl_nil,
    step_fileName h, startOf, startOf, isAbsolute_append h]

/-- A path with an ending leads only to its location. -/
theorem eq_placeOf_of_locate (h : IsEnding tail)
    (hlocate : t.locate working (stem ++ tail) = .ok place) :
    place = placeOf working (stem ++ tail) := by
  obtain ⟨_, _, hfollow⟩ := locate_eq_ok.mp hlocate
  rw [endsInSeparator_append h, if_neg Bool.false_ne_true, List.append_nil] at hfollow
  exact eq_foldl_of_follow hfollow

/-- A path with an ending leads to the name that it ends in, in some directory. -/
theorem exists_of_locate (h : IsEnding tail)
    (hlocate : t.locate working (stem ++ tail) = .ok place) :
    ∃ directory, place = directory ++ [fileName stem tail] := by
  rw [eq_placeOf_of_locate h hlocate, placeOf_append h]
  exact ⟨_, rfl⟩

/-! ## Files that hold a text -/

/-- A path leads to a file with a text. -/
def Holds (t : Tree) (working : Location) (path text : String) : Prop :=
  ∃ place, t.locate working path = .ok place ∧ t.entry? place = some (.file text)

/-- A file that holds a text is read as the text. -/
theorem Holds.read (h : t.Holds working path text) : t.read working path = .ok text := by
  obtain ⟨place, hlocate, hentry⟩ := h
  have hfind : t.find working path = .ok (.file text) := by
    simp only [find, hlocate, bind, Except.bind, hentry]
    rfl
  rw [Tree.read, hfind]
  rfl

/-- A file keeps its text while others are written. -/
theorem Holds.of_updates {names : List String} (h : t.Holds working (stem ++ tail) text)
    (htail : IsEnding tail) (hupdates : Updates names t u)
    (hname : fileName stem tail ∉ names) : u.Holds working (stem ++ tail) text := by
  obtain ⟨place, hlocate, hentry⟩ := h
  obtain ⟨directory, rfl⟩ := exists_of_locate htail hlocate
  refine ⟨_, locate_mono hupdates.directories hlocate, hupdates.others _ _ hentry ?_⟩
  intro name hmem hlast
  rw [List.getLast?_concat] at hlast
  exact hname (Option.some.inj hlast ▸ hmem)

/-- The files in which everything that is written is lost. -/
def devices : List Location := [["dev", "null"], ["dev", "stdin"]]

/-- No other file loses what is written to it. -/
def IsPlain (t : Tree) : Prop := ∀ place, t.entry? place = some .void → place ∈ devices

/-- Updates bring no files in which everything is lost. -/
theorem Updates.isPlain {names : List String} (h : Updates names t u) (ht : t.IsPlain) :
    u.IsPlain :=
  fun place hplace => ht place (h.voids place hplace)

/-- What is written to a path with an ending is put where the path leads. -/
theorem exists_replace_of_write (htail : IsEnding tail)
    (h : t.write working (stem ++ tail) text = .ok u) :
    ∃ place, t.locate working (stem ++ tail) = .ok place ∧ t.entry? place ≠ some .directory ∧
      u = t.replace place (.file text) := by
  have hfile : t.locateFile working (stem ++ tail) = t.locate working (stem ++ tail) := by
    rw [locateFile, endsInSeparator_append htail]
    rfl
  rw [write, writeEntry, hfile] at h
  cases hlocate : t.locate working (stem ++ tail) with
  | error fault =>
    rw [hlocate] at h
    cases h
  | ok place =>
    rw [hlocate] at h
    simp only [bind, Except.bind] at h
    split at h
    · cases h
    · next hnot =>
      cases h
      exact ⟨place, rfl, hnot, rfl⟩

/-- What is written to a path with an ending changes only the file of that name, which then holds
the text. -/
theorem of_write (htail : IsEnding tail) (h : t.write working (stem ++ tail) text = .ok u) :
    Updates [fileName stem tail] t u ∧ (t.IsPlain → u.Holds working (stem ++ tail) text) := by
  obtain ⟨place, hlocate, hnot, rfl⟩ := exists_replace_of_write htail h
  obtain ⟨directory, rfl⟩ := exists_of_locate htail hlocate
  have hupdates := Updates.replace_file hnot text
  refine ⟨hupdates, fun hplain => ⟨_, locate_mono hupdates.directories hlocate, ?_⟩⟩
  have hkept : t.entry? (directory ++ [fileName stem tail]) ≠ some .void := by
    -- No device has a dot in its name, and an ending brings one.
    intro hvoid
    have hname : fileName stem tail ∈ ["null", "stdin"] := by
      have hlast := List.mem_map_of_mem (hplain _ hvoid) (f := List.getLast?)
      simpa [devices] using hlast
    have hdot := hasDot_fileName htail stem
    revert hdot
    simp only [List.mem_cons, List.not_mem_nil, or_false] at hname
    rcases hname with hname | hname <;> rw [hname] <;> decide
  exact entry?_replace_self _ _ (by simp) hkept

end Ambient.Files.Tree
