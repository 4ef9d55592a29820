import Ambient.Proofs.Correction.Definitions
import Ambient.Proofs.Link.Naming
import Ambient.Proofs.Symbol.Listing

/-!
# Names against table keys

A library has two computations of dotted names. Its symbol table accumulates paths from the top
level down, before anything is left out, and starts from the empty path. The links of the corrected
description are followed from a node up to the root and give every name on the way. The two agree
exactly if the top-level namespace has no name; otherwise all names read off the links have that
name in front.
-/

namespace Ambient.Correction

open Api

/-- Every namespace, class, interface and enum that is left can be looked up in a table under the
name that its links give, and so can every such name in the arena. -/
def RoundTrips (table : Symbol.Table) (linked : Linked) : Prop :=
  (∀ x ∈ linked.description.definitions, linked.arena.fqnOf x.link x.name = .ok x.path) ∧
    ∀ fqn ∈ linked.arena.aggregateNames, table.contains fqn = true

section Run

variable {library : String} {table : Symbol.Table} {d : Description} {linked : Linked}

/-- The name read off the links of a definition is its path with the name of the top level in
front. -/
theorem fqnOf_of_run (hd : d.check = .ok ()) (h : run library table d = .ok linked)
    {x : Definition} (hx : x ∈ linked.description.definitions) (name : String) :
    linked.arena.fqnOf x.link name = .ok (under d.top.name x.path) := by
  have hnames := inside_name_ne_of_run hd h
  have htop := top_name_of_run h
  have hunder := Namespace.definitions_under d.top.name linked.description.top (hnames "")
  rw [under_empty_path] at hunder
  have hseen : x.under d.top.name ∈
      linked.description.top.definitions linked.description.top.name := by
    rw [htop, hunder]
    exact List.mem_map_of_mem hx
  obtain ⟨_, rfl⟩ := run_eq_ok.mp h
  exact Link.fqnOf_definition (hnames _) hseen name

/-- The names in the arena are the paths of what is defined, with the name of the top level in
front. -/
theorem mem_aggregateNames_of_run (hd : d.check = .ok ()) (h : run library table d = .ok linked)
    {fqn : String} :
    fqn ∈ linked.arena.aggregateNames ↔
      ∃ x ∈ linked.description.definitions, under d.top.name x.path = fqn := by
  have hnames := inside_name_ne_of_run hd h
  have htop := top_name_of_run h
  have hunder := Namespace.definitions_under d.top.name linked.description.top (hnames "")
  rw [under_empty_path, ← htop] at hunder
  obtain ⟨_, rfl⟩ := run_eq_ok.mp h
  rw [Link.mem_aggregateNames (hnames _), hunder, ← htop]
  simp only [List.mem_map]
  constructor
  · rintro ⟨_, ⟨x, hx, rfl⟩, hpath⟩
    exact ⟨x, hx, hpath⟩
  · rintro ⟨x, hx, hpath⟩
    exact ⟨_, ⟨x, hx, rfl⟩, hpath⟩

/-- What is left of a description is in the description's table under its path. -/
theorem contains_of_run (h : run library table d = .ok linked) {x : Definition}
    (hx : x ∈ linked.description.definitions) :
    (Symbol.Table.ofDescription library d).contains x.path = true := by
  obtain ⟨y, hy, hsame⟩ := exists_definition_of_run h hx library
  have hpath : y.path = x.path := congrArg Symbol.fqn hsame
  rw [(Symbol.Table.lists_ofDescription library d).contains_iff, List.map_map, ← hpath]
  exact List.mem_map_of_mem hy

end Run

/-- Correcting a library with its own table leaves a part of its definitions in their order. For
each of them the table has an entry under its path, and the name read off its links is that path
with the name of the top-level namespace in front. The names can be looked up in the table as they
are exactly if that namespace has no name. -/
theorem roundTrips_iff_unnamed (library : String) {d : Description} (hd : d.check = .ok ()) :
    ∃ linked, run library (Symbol.Table.ofDescription library d) d = .ok linked ∧
      (linked.description.definitions.map (Definition.symbol library)).Sublist
        (d.definitions.map (Definition.symbol library)) ∧
      (∀ x ∈ linked.description.definitions,
        (Symbol.Table.ofDescription library d).contains x.path = true ∧
          linked.arena.fqnOf x.link x.name = .ok (under d.top.name x.path)) ∧
      (RoundTrips (Symbol.Table.ofDescription library d) linked ↔ d.top.name = "") := by
  obtain ⟨linked, hrun⟩ : ∃ linked, run library (Symbol.Table.ofDescription library d) d =
      .ok linked := ⟨_, run_eq_ok.mpr ⟨Symbol.Table.library_ofDescription library d, rfl⟩⟩
  refine ⟨linked, hrun, symbols_sublist_of_run hrun library "",
    fun x hx => ⟨contains_of_run hrun hx, fqnOf_of_run hd hrun hx x.name⟩, ?_⟩
  constructor
  · rintro ⟨hread, _⟩
    have htop : linked.description.top.definition "" ∈ linked.description.definitions :=
      Namespace.mem_definitions.mpr (.inl rfl)
    have hempty := hread _ htop
    rw [fqnOf_of_run hd hrun htop] at hempty
    exact Except.ok.inj hempty
  · intro hunnamed
    constructor
    · intro x hx
      rw [fqnOf_of_run hd hrun hx, hunnamed, under_unnamed]
    · intro fqn hfqn
      obtain ⟨x, hx, rfl⟩ := (mem_aggregateNames_of_run hd hrun).mp hfqn
      rw [hunnamed, under_unnamed]
      exact contains_of_run hrun hx

/-- A library with a class in a namespace, and a restricted one beside it. -/
def layered (top : String) : Description :=
  .ofTop (.plain top [] [.plain "lib"
    [.plain "Widget", { Class.plain "Hidden" with visibility := some .restricted }] []])

/-- Below a top level without a name, every name that is read off is a key of the table. -/
theorem roundTrips_iff_unnamed_layered :
    (layered "").check = .ok () ∧
      ∃ linked, run "lib" (Symbol.Table.ofDescription "lib" (layered "")) (layered "") =
          .ok linked ∧
        RoundTrips (Symbol.Table.ofDescription "lib" (layered "")) linked := by
  have hvalid : (layered "").check = .ok () := by decide
  obtain ⟨linked, hrun, _, _, hiff⟩ := roundTrips_iff_unnamed "lib" hvalid
  exact ⟨hvalid, linked, hrun, hiff.mpr rfl⟩

/-- Below a named top level the names read off the links are not those of the table. -/
theorem not_roundTrips_named :
    ∃ d : Description, d.check = .ok () ∧
      ∃ linked, run "lib" (Symbol.Table.ofDescription "lib" d) d = .ok linked ∧
        ¬ RoundTrips (Symbol.Table.ofDescription "lib" d) linked := by
  refine ⟨.ofTop (.plain "x" [] []), by decide, _, rfl, ?_⟩
  rintro ⟨_, hcontains⟩
  have hread := hcontains "x" (by decide)
  revert hread
  decide

end Ambient.Correction
