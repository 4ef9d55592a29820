import Ambient.Output
import Ambient.Proofs.Files.Tree
import Ambient.Proofs.Machine

/-!
# Writing declaration files

All the files of a library have the directory and the name of the library for a stem. What has been
written in a flavor is in the declaration file of that flavor; beside it only the file for additions
may have been started, and the declarations of the other flavor are left alone.
-/

namespace Ambient.Output

open Files Files.Tree Machine

/-- How the path of a declaration file ends. -/
theorem isEnding_fileSuffix (flavor : Flavor) : IsEnding ("." ++ flavor.fileSuffix) := by
  cases flavor <;> exact ⟨by decide, by decide, by decide⟩

/-- How the path of a file for additions ends. -/
theorem isEnding_augment : IsEnding ".augment.d.ts" := ⟨by decide, by decide, by decide⟩

/-- The path of a declaration file ends in the suffix of its flavor. -/
theorem declarationPath_eq (directory library : String) (flavor : Flavor) :
    declarationPath directory library flavor
      = join directory library ++ ("." ++ flavor.fileSuffix) := by
  rw [declarationPath, String.append_assoc, join_append _ _ (isEnding_fileSuffix flavor)]

/-- The path of a file for additions ends in the suffix of such files. -/
theorem augmentationPath_eq (directory library : String) :
    augmentationPath directory library = join directory library ++ ".augment.d.ts" :=
  join_append _ _ isEnding_augment

/-- The names of the files that a library with a stem is written to in a flavor. -/
def fileNames (stem : String) (flavor : Flavor) : List String :=
  [fileName stem ("." ++ flavor.fileSuffix), fileName stem ".augment.d.ts"]

/-- A declaration file is not the file for additions. -/
theorem fileName_ne_augment (stem : String) (flavor : Flavor) :
    fileName stem ("." ++ flavor.fileSuffix) ≠ fileName stem ".augment.d.ts" := fun h =>
  absurd (fileName_injective h) (by cases flavor <;> decide)

/-- The declaration file of one flavor is none of those that another one is written to. -/
theorem fileName_not_mem_fileNames (stem : String) {flavor other : Flavor} (h : flavor ≠ other) :
    fileName stem ("." ++ flavor.fileSuffix) ∉ fileNames stem other := by
  have hsuffix : "." ++ flavor.fileSuffix ≠ "." ++ other.fileSuffix := by
    revert h
    cases flavor <;> cases other <;> decide
  intro hmem
  obtain hsame | hsame : _ = _ ∨ _ = _ := by simpa [fileNames] using hmem
  · exact hsuffix (fileName_injective hsame)
  · exact fileName_ne_augment stem flavor hsame

variable {m after : Machine} {t : Tree} {directory library text : String} {flavor : Flavor}

/-- A machine writes a file if its tree does. -/
theorem perform_write_ok {path : String} {u : Tree} (h : t.write m.working path text = .ok u) :
    (m.withTree t).perform (ExceptT.mk (Host.write path text)) = (.ok (), m.withTree u) := by
  show (m.withTree t).attempt (t.write m.working path text) = _
  rw [h]
  rfl

/-- A write that fails is a fault, and leaves the machine. -/
theorem perform_write_error {path : String} {fault : Fault}
    (h : t.write m.working path text = .error fault) :
    (m.withTree t).perform (ExceptT.mk (Host.write path text)) = (.error fault, m.withTree t) := by
  show (m.withTree t).attempt (t.write m.working path text) = _
  rw [h]
  rfl

/-- All that starting a file for additions can come to. -/
inductive StartResult (m : Machine) (t : Tree) (directory library : String) :
    Except Fault Bool → Machine → Prop
  /-- Something is there, or nothing can be. -/
  | left {outcome} : outcome ≠ .ok true →
      StartResult m t directory library outcome (m.withTree t)
  | started {u} : t.contains m.working (augmentationPath directory library) = false →
      t.write m.working (augmentationPath directory library) (augmentationStart library) = .ok u →
        StartResult m t directory library (.ok true) (m.withTree u)

/-- Starting a file for additions comes to one of the results that are told. -/
theorem startAugmentation_result {outcome : Except Fault Bool}
    (h : (m.withTree t).perform (startAugmentation directory library) = (outcome, after)) :
    StartResult m t directory library outcome after := by
  unfold startAugmentation at h
  have hlook : (m.withTree t).perform (liftM (Host.contains (augmentationPath directory library) :
      StateM Machine Bool) : ExceptT Fault (StateM Machine) Bool) =
        (.ok (t.contains m.working (augmentationPath directory library)), m.withTree t) := rfl
  dsimp only at h
  rw [perform_bind_ok hlook] at h
  cases hcontains : t.contains m.working (augmentationPath directory library) with
  | true =>
    rw [hcontains] at h
    cases h
    exact .left nofun
  | false =>
    rw [hcontains] at h
    cases hwrite : t.write m.working (augmentationPath directory library)
        (augmentationStart library) with
    | error fault =>
      rw [if_neg Bool.false_ne_true, perform_bind_error (perform_write_error hwrite)] at h
      cases h
      exact .left nofun
    | ok u =>
      rw [if_neg Bool.false_ne_true, perform_bind_ok (perform_write_ok hwrite)] at h
      cases h
      exact .started hcontains hwrite

/-- All that a write can come to: it makes directories, then it writes the declarations, then it
starts the file for additions where nothing is, and says so only then. -/
inductive WriteResult (m : Machine) (directory library : String) (flavor : Flavor)
    (text : String) : Except Fault Written → Machine → Prop
  | failed {made fault} : Updates [] m.tree made →
      WriteResult m directory library flavor text (.error fault) (m.withTree made)
  | declared {made declared outcome} : Updates [] m.tree made →
      made.write m.working (declarationPath directory library flavor) text = .ok declared →
        (∀ written, outcome = .ok written → written.startedAugmentation = false) →
          WriteResult m directory library flavor text outcome (m.withTree declared)
  | started {made declared u} : Updates [] m.tree made →
      made.write m.working (declarationPath directory library flavor) text = .ok declared →
        declared.contains m.working (augmentationPath directory library) = false →
          declared.write m.working (augmentationPath directory library)
              (augmentationStart library) = .ok u →
            WriteResult m directory library flavor text
              (.ok ⟨declarationPath directory library flavor, true⟩) (m.withTree u)

/-- Writing an output comes to one of the results that are told. -/
theorem write_result {startsAugmentations : Bool} {outcome : Except Fault Written}
    (h : m.perform (write directory library flavor text startsAugmentations) = (outcome, after)) :
    WriteResult m directory library flavor text outcome after := by
  let made := (m.tree.makeDirectories m.working directory).1
  have hmade : Updates [] m.tree made := updates_makeDirectories _ _ _
  unfold write at h
  rcases hmake : m.perform (ExceptT.mk (Host.makeDirectories directory)) with ⟨fault | _, between⟩
  all_goals obtain rfl : between = m.withTree made := (Prod.mk.inj hmake).2.symm
  · rw [perform_bind_error hmake] at h
    cases h
    exact .failed hmade
  rw [perform_bind_ok hmake] at h
  -- The directories were made. What is left can fail at the declarations or at the file for
  -- additions.
  cases hwrite : made.write m.working (declarationPath directory library flavor) text with
  | error fault =>
    rw [perform_bind_error (perform_write_error hwrite)] at h
    cases h
    exact .failed hmade
  | ok declared =>
    rw [perform_bind_ok (perform_write_ok hwrite)] at h
    cases startsAugmentations with
    | false =>
      cases h
      exact .declared hmade hwrite fun written hwritten => by cases hwritten; rfl
    | true =>
      dsimp only at h
      rcases hstart : (m.withTree declared).perform (startAugmentation directory library) with
        ⟨fault | started, next⟩
      · rw [if_pos rfl, perform_bind_error hstart] at h
        cases h
        cases startAugmentation_result hstart with
        | left _ => exact .declared hmade hwrite nofun
      · rw [if_pos rfl, perform_bind_ok hstart] at h
        cases h
        cases startAugmentation_result hstart with
        | left hleft =>
          exact .declared hmade hwrite fun written hwritten => by
            cases hwritten
            simpa using hleft
        | started hcontains hstub => exact .started hmade hwrite hcontains hstub

/-- A library that has been written is in its declaration file. -/
theorem of_write {startsAugmentations : Bool} {written : Written}
    (h : (m.withTree t).perform (write directory library flavor text startsAugmentations)
      = (.ok written, after)) :
    ∃ u, after = m.withTree u ∧ Updates (fileNames (join directory library) flavor) t u ∧
      (t.IsPlain → u.Holds m.working (declarationPath directory library flavor) text) := by
  have hdeclares {made declared : Tree} (hmade : Updates [] t made)
      (hdeclared : made.write m.working (declarationPath directory library flavor) text
        = .ok declared) :
      Updates (fileNames (join directory library) flavor) t declared ∧
        (t.IsPlain → declared.Holds m.working (declarationPath directory library flavor) text) := by
    rw [declarationPath_eq] at hdeclared ⊢
    obtain ⟨hwriting, hholds⟩ := Tree.of_write (isEnding_fileSuffix flavor) hdeclared
    exact ⟨(hmade.mono nofun).trans (hwriting.mono (by simp [fileNames])),
      fun hplain => hholds (hmade.isPlain hplain)⟩
  cases write_result h with
  | declared hmade hdeclared _ => exact ⟨_, rfl, hdeclares hmade hdeclared⟩
  | @started made declared u hmade hdeclared _ hstub =>
    obtain ⟨hupdates, hholds⟩ := hdeclares hmade hdeclared
    rw [augmentationPath_eq] at hstub
    have hstarting := (Tree.of_write isEnding_augment hstub).1
    refine ⟨u, rfl, hupdates.trans (hstarting.mono (by simp [fileNames])), fun hplain => ?_⟩
    rw [declarationPath_eq] at hholds ⊢
    exact (hholds hplain).of_updates (isEnding_fileSuffix flavor) hstarting
      (by simpa using fileName_ne_augment (join directory library) flavor)

end Ambient.Output
