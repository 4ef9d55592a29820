import Mathlib.Data.List.Nodup
import Ambient.Library
import Ambient.Proofs.Declaration.Names

/-!
# Preparing a library

A library without collisions can be prepared, whatever it depends on and however strict the run.
Every dotted name that is read off its links is then that of one definition only.
-/

namespace Ambient.Library

open Api Declaration

variable {primary : Library}

/-- A library can be corrected with its own table. -/
theorem exists_run (primary : Library) :
    ∃ linked, Correction.run primary.name primary.table primary.description = .ok linked :=
  ⟨_, Correction.run_eq_ok.mpr
    ⟨Symbol.Table.library_ofDescription primary.name primary.description, rfl⟩⟩

/-- Any library can be prepared if collisions are let pass, whatever it depends on. -/
theorem exists_prepare (primary : Library) (dependencies : List Library) :
    ∃ p, primary.prepare dependencies false = .ok p := by
  obtain ⟨linked, hrun⟩ := exists_run primary
  rw [prepare, hrun]
  exact ⟨_, rfl⟩

/-- A library without collisions can be prepared; its own table is the one that it is corrected
with. -/
theorem prepare_of_clear (hclear : primary.table.ensureNoCollisions = .ok ())
    (dependencies : List Library) (isStrict : Bool) :
    ∃ linked, Correction.run primary.name primary.table primary.description = .ok linked ∧
      primary.prepare dependencies isStrict = .ok
        ⟨linked, primary.table.withDependencies (dependencies.map visibleTable),
          primary.directives.merge (dependencies.map directives)⟩ := by
  obtain ⟨linked, hrun⟩ := exists_run primary
  refine ⟨linked, hrun, ?_⟩
  cases isStrict with
  | true =>
    rw [prepare, hclear, hrun]
    rfl
  | false =>
    rw [prepare, hrun]
    rfl

/-- What is in a prepared library: the library corrected with its own table, and the tables and
directives of all libraries in play. -/
theorem of_prepare {dependencies : List Library} {isStrict : Bool} {p : Prepared}
    (h : primary.prepare dependencies isStrict = .ok p) :
    Correction.run primary.name primary.table primary.description = .ok p.linked ∧
      p.table = primary.table.withDependencies (dependencies.map visibleTable) ∧
      p.directives = primary.directives.merge (dependencies.map directives) := by
  obtain ⟨linked, hrun⟩ := exists_run primary
  rw [prepare, hrun] at h
  cases isStrict with
  | true =>
    rw [if_pos rfl] at h
    cases hclear : primary.table.ensureNoCollisions with
    | error clash =>
      rw [hclear] at h
      cases h
    | ok _ =>
      rw [hclear] at h
      cases h
      exact ⟨hrun, rfl, rfl⟩
  | false =>
    cases h
    exact ⟨hrun, rfl, rfl⟩

/-- The paths of what a library without collisions defines are distinct. -/
theorem nodup_paths (hclear : primary.table.ensureNoCollisions = .ok ()) :
    (primary.description.definitions.map Definition.path).Nodup := by
  have hlists := Symbol.Table.lists_ofDescription primary.name primary.description
  have hnodup := hlists.nodup hclear
  rwa [List.map_map] at hnodup

/-- The dotted names of what is left of a library without collisions are distinct. -/
theorem nodup_names (hd : primary.description.check = .ok ())
    (hclear : primary.table.ensureNoCollisions = .ok ()) {linked : Correction.Linked}
    (hrun : Correction.run primary.name primary.table primary.description = .ok linked) :
    (linked.description.definitions.map fun x => namingOf linked.arena x.link).Nodup := by
  have hpaths : (linked.description.definitions.map Definition.path).Nodup := by
    have hsublist := (Correction.symbols_sublist_of_run hrun "" "").map Symbol.fqn
    rw [List.map_map, List.map_map] at hsublist
    exact (nodup_paths hclear).sublist hsublist
  have hnames : (linked.description.definitions.map fun x => namingOf linked.arena x.link)
      = (linked.description.definitions.map Definition.path).map
          (under primary.description.top.name) := by
    rw [List.map_map]
    exact List.map_congr_left fun x hx => namingOf_of_run hd hrun hx
  rw [hnames]
  exact hpaths.map (under_injective _)

/-- Whatever a library without collisions depends on, what is left of it has its own symbols. -/
theorem get?_of_mem_definitions (hclear : primary.table.ensureNoCollisions = .ok ())
    {linked : Correction.Linked}
    (hrun : Correction.run primary.name primary.table primary.description = .ok linked)
    (dependencies : List Symbol.Table) {x : Definition}
    (hx : x ∈ linked.description.definitions) :
    (primary.table.withDependencies dependencies).get? x.path = some (x.symbol primary.name) := by
  obtain ⟨y, hy, hsame⟩ := Correction.exists_definition_of_run hrun hx primary.name
  have hlists := Symbol.Table.lists_ofDescription primary.name primary.description
  have hown := hlists.get?_eq hclear (List.mem_map_of_mem hy)
  rw [hsame] at hown
  exact Symbol.Table.get?_withDependencies hown dependencies

end Ambient.Library
