import Ambient.Proofs.Correction.Definitions
import Ambient.Proofs.Correction.Loader

/-!
# Corrections are made once

Each correction counts what it changes, and where it counts nothing it changes nothing. In a
corrected description both counts are zero, before it is linked and after, so that correcting it
again, or running it through all phases again, gives what was there.
-/

namespace Ambient.Correction

open Api

/-- Nothing is left to correct in a description. -/
structure Settled (library : String) (table : Symbol.Table) (d : Description) : Prop where
  hidden : d.top.hidden = 0
  narrowings : loaderNarrowings library table d = 0

variable {library : String} {table : Symbol.Table} {d : Description}

/-- Nothing is left to correct in a corrected description. -/
theorem settled_correct (library : String) (table : Symbol.Table) (d : Description) :
    Settled library table (correct library table d).1 where
  hidden := (hidden_narrowLoader library table d.visible).trans d.top.hidden_visible
  narrowings := loaderNarrowings_narrowLoader library table d.visible

/-- Links leave nothing to correct. -/
theorem Settled.attach (h : Settled library table d) :
    Settled library table (Link.attach d).1 where
  hidden := by
    have htop : (Link.attach d).1.top.unlinked = d.top.unlinked :=
      congrArg Description.top (Link.unlinked_attach d)
    rw [← Namespace.hidden_unlinked, htop, Namespace.hidden_unlinked, h.hidden]
  narrowings := by
    rw [← loaderNarrowings_unlinked, Link.unlinked_attach, loaderNarrowings_unlinked, h.narrowings]

/-- What is settled stays as it is. -/
theorem Settled.correct_eq (h : Settled library table d) :
    correct library table d = (d, { removed := 0, fixed := 0, linked := 0 }) := by
  have hvisible : d.visible = d := by
    rw [Description.visible, Namespace.visible_eq_self d.top h.hidden]
  rw [correct, hvisible, narrowLoader_eq_self library table h.narrowings, h.hidden, h.narrowings]

/-- A run links what is settled, and does nothing else. -/
theorem Settled.run_eq (h : Settled library table d) (hlibrary : table.library = library) :
    run library table d = .ok ⟨library, (Link.attach d).1, (Link.attach d).2,
      { removed := 0, fixed := 0, linked := (Link.attach d).2.size }⟩ := by
  rw [run, if_pos hlibrary, h.correct_eq]

/-- A second correction counts nothing and changes nothing. The same holds of the corrections of a
linked description, and linking it again gives the same links in the same arena: when a description
that a run has answered is run through again, only the number of its links is counted. -/
theorem corrections_idempotent (library : String) (table : Symbol.Table) (d : Description) :
    correct library table (correct library table d).1
        = ((correct library table d).1, { removed := 0, fixed := 0, linked := 0 }) ∧
      ∀ linked, run library table d = .ok linked →
        run library table linked.description = .ok { linked with
          report := { removed := 0, fixed := 0, linked := linked.report.linked } } := by
  have hsettled := settled_correct library table d
  refine ⟨hsettled.correct_eq, fun linked hrun => ?_⟩
  obtain ⟨hlibrary, rfl⟩ := run_eq_ok.mp hrun
  show run library table (Link.attach (correct library table d).1).1 = _
  rw [hsettled.attach.run_eq hlibrary, Link.attach_attach]
  rfl

/-- The core library with two functions of one name, of which the first lists dependencies twice. -/
def loading : Description :=
  let list (name : String) : Parameter := .mk { (default : ParameterInfo) with name := name }
    (.declared (.union [⟨"string", false, .unset⟩, ⟨"string[]", false, .unset⟩] .unset))
  let define (parameters : List Parameter) : Function :=
    { (default : Function) with name := "define", parameters := parameters }
  let ui : Namespace :=
    .plain "ui" [{ Class.plain "Hidden" with visibility := some .restricted }] []
  .ofTop (.plain "" [] [.plain "sap" [] [{ ui with scope := { ui.scope with
    functions := [define [list "aDependencies", list "aDependencies"],
      define [list "aDependencies"]] } }]])

/-- Of two functions of one name the first has one list narrowed, once and for all. -/
theorem corrections_idempotent_loading :
    let table := Symbol.Table.ofDescription coreLibrary loading
    ∃ linked, run coreLibrary table loading = .ok linked ∧
      linked.report = { removed := 1, fixed := 2, linked := 18 } ∧
      run coreLibrary table linked.description = .ok { linked with
        report := { removed := 0, fixed := 0, linked := linked.report.linked } } := by
  intro table
  have hlibrary : table.library = coreLibrary := by decide
  refine ⟨_, run_eq_ok.mpr ⟨hlibrary, rfl⟩, by decide +kernel, ?_⟩
  exact (corrections_idempotent coreLibrary table loading).2 _ (run_eq_ok.mpr ⟨hlibrary, rfl⟩)

end Ambient.Correction
