import Mathlib.Data.List.Pairwise
import Ambient.Proofs.Preparation
import Ambient.Proofs.Symbol.Merged

/-!
# Overlaps between libraries

A strict run checks the library's own table and nothing else. The symbols of other libraries are
added afterwards, one by one: a symbol whose dotted name is taken is dropped, and that is recorded
unless it is a namespace that meets a namespace. What a strict run has prepared is therefore free of
collisions exactly if everything that came into play can stand side by side.
-/

namespace Ambient

open Api

namespace Symbol

/-- Two symbols can stand side by side: under one dotted name only if both are namespaces. -/
def Shareable (s t : Symbol) : Prop :=
  s.fqn = t.fqn → s.kind = .nameSpace ∧ t.kind = .nameSpace

/-- Whether two symbols can share a name is decided by their kinds. -/
instance (s t : Symbol) : Decidable (Shareable s t) :=
  inferInstanceAs (Decidable (s.fqn = t.fqn → s.kind = .nameSpace ∧ t.kind = .nameSpace))

/-- Sharing a name is symmetric. -/
theorem Shareable.symm {s t : Symbol} (h : Shareable s t) : Shareable t s :=
  fun hfqn => (h hfqn.symm).symm

/-- What is recorded when a symbol of another library meets what stands under its dotted name. -/
def overlap (kept : Option Symbol) (s : Symbol) : List Collision :=
  match kept with
  | some kept =>
    if kept.kind = .nameSpace ∧ s.kind = .nameSpace then []
    else [⟨s.fqn, kept.kind, s.kind, s.library⟩]
  | none => []

/-- What is recorded when symbols are added one after the other; those in `met` have come
before them. -/
def overlaps : List Symbol → List Symbol → List Collision
  | _, [] => []
  | met, s :: rest =>
    overlap (met.find? fun other => other.fqn == s.fqn) s ++ overlaps (met ++ [s]) rest

/-- Nothing is recorded of a symbol that can stand beside everything before it. -/
theorem overlap_eq_nil_iff {met : List Symbol} (hmet : met.Pairwise Shareable) (s : Symbol) :
    overlap (met.find? fun other => other.fqn == s.fqn) s = [] ↔ ∀ other ∈ met, Shareable other s := by
  cases hfind : met.find? fun other => other.fqn == s.fqn with
  | none =>
    refine ⟨fun _ other hother hfqn => ?_, fun _ => rfl⟩
    have hnot := List.find?_eq_none.mp hfind other hother
    exact absurd (beq_iff_eq.mpr hfqn) hnot
  | some kept =>
    have hkept : kept.fqn = s.fqn := by simpa using List.find?_some hfind
    have hmem := List.mem_of_find?_eq_some hfind
    have hrecorded : overlap (some kept) s = [] ↔ Shareable kept s := by
      rw [overlap, Shareable]
      split
      · next hboth => simp [hboth]
      · next hother => simpa [hkept] using hother
    rw [hrecorded]
    constructor
    · intro hshareable other hother hfqn
      obtain ⟨hkeptKind, hkind⟩ := hshareable hkept
      -- The one that is kept can stand beside the others, so these are namespaces as well.
      refine ⟨?_, hkind⟩
      by_cases hsame : other = kept
      · rw [hsame, hkeptKind]
      · have hsymm : Std.Symm Shareable := ⟨fun _ _ => Shareable.symm⟩
        exact (hmet.forall hother hmem hsame (hfqn.trans hkept.symm)).1
    · exact fun hall => hall kept hmem

/-- Nothing is recorded of symbols exactly if all of them can stand side by side. -/
theorem overlaps_eq_nil_iff (rest : List Symbol) :
    ∀ {met : List Symbol}, met.Pairwise Shareable →
      (overlaps met rest = [] ↔ (met ++ rest).Pairwise Shareable) := by
  induction rest with
  | nil =>
    intro met hmet
    rw [List.append_nil]
    exact iff_of_true rfl hmet
  | cons s rest ih =>
    intro met hmet
    have hnext : (met ++ [s]).Pairwise Shareable ↔ ∀ other ∈ met, Shareable other s := by
      simp [List.pairwise_append, hmet]
    have hsplit : met ++ s :: rest = (met ++ [s]) ++ rest := by simp
    rw [overlaps, List.append_eq_nil_iff, overlap_eq_nil_iff hmet, ← hnext, hsplit]
    constructor
    · rintro ⟨hpairwise, hrest⟩
      exact (ih hpairwise).mp hrest
    · intro hall
      have hpairwise := (List.pairwise_append.mp hall).1
      exact ⟨hpairwise, (ih hpairwise).mpr hall⟩

namespace Table

variable {t : Table} {met : List Symbol}

/-- Adopting a symbol records the overlap with what the table has under its name. -/
theorem collisions_adopt (t : Table) (s : Symbol) :
    (t.adopt s).collisions = t.collisions ++ overlap (t.get? s.fqn) s := by
  cases hget : t.get? s.fqn with
  | none =>
    simp only [adopt, hget, overlap]
    rw [List.append_nil]
  | some kept =>
    simp only [adopt, hget, overlap]
    split
    · rw [List.append_nil]
    · simp only [insert, hget]

/-- Adopting a symbol adds it under its dotted name, if nothing is there. -/
theorem get?_adopt_eq (t : Table) (s : Symbol) (fqn : String) :
    (t.adopt s).get? fqn = (t.get? fqn).or (if s.fqn = fqn then some s else none) := by
  cases hget : t.get? fqn with
  | none => rw [get?_adopt_of_none hget, Option.none_or]
  | some kept => rw [get?_adopt hget, Option.some_or]

/-- A table that has the first symbol of every dotted name keeps doing so while symbols are added,
and records their overlaps. -/
theorem foldl_adopt (symbols : List Symbol) :
    ∀ {t : Table} {met : List Symbol},
      (∀ fqn, t.get? fqn = met.find? fun s => s.fqn == fqn) →
      (symbols.foldl adopt t).collisions = t.collisions ++ overlaps met symbols ∧
        ∀ fqn, (symbols.foldl adopt t).get? fqn
          = (met ++ symbols).find? fun s => s.fqn == fqn := by
  induction symbols with
  | nil =>
    intro t met h
    rw [List.append_nil]
    exact ⟨(List.append_nil _).symm, h⟩
  | cons s rest ih =>
    intro t met h
    have hnext (fqn : String) :
        (t.adopt s).get? fqn = (met ++ [s]).find? fun s => s.fqn == fqn := by
      rw [get?_adopt_eq, h, List.find?_append, List.find?_singleton]
      simp only [beq_iff_eq]
    obtain ⟨hcollisions, hget⟩ := ih hnext
    rw [List.append_assoc] at hget
    refine ⟨?_, hget⟩
    rw [List.foldl_cons, hcollisions, collisions_adopt, h, overlaps, List.append_assoc]

/-- Dependencies are added symbol by symbol. -/
theorem withDependencies_eq (t : Table) (dependencies : List Table) :
    t.withDependencies dependencies = (dependencies.flatMap toList).foldl adopt t :=
  List.foldl_flatMap.symm

/-- The collisions of a merged table are its own, and then the overlaps of what was added. -/
theorem Lists.collisions_withDependencies (h : t.Lists met) (dependencies : List Table) :
    (t.withDependencies dependencies).collisions
      = t.collisions ++ overlaps met (dependencies.flatMap toList) := by
  rw [withDependencies_eq]
  exact (foldl_adopt _ h.get?_eq_find?).1

end Table

end Symbol

namespace Library

open Ambient.Symbol

variable {primary : Library} {dependencies : List Library}

/-- The symbols of everything that a library defines. -/
def ownSymbols (lib : Library) : List Symbol :=
  lib.description.definitions.map (Definition.symbol lib.name)

/-- The symbols that the libraries of a list let others see, each library's first ones only. -/
def foreignSymbols (dependencies : List Library) : List Symbol :=
  dependencies.flatMap fun dependency => dependency.visibleTable.toList

/-- A strict run succeeds exactly if the library has no collisions of its own. -/
theorem exists_prepare_strict_iff (primary : Library) (dependencies : List Library) :
    (∃ p, primary.prepare dependencies true = .ok p) ↔
      primary.table.ensureNoCollisions = .ok () := by
  constructor
  · rintro ⟨p, hp⟩
    cases hclear : primary.table.ensureNoCollisions with
    | ok _ => rfl
    | error clash =>
      rw [prepare, if_pos rfl, hclear] at hp
      cases hp
  · intro hclear
    obtain ⟨linked, _, hprepare⟩ := prepare_of_clear hclear dependencies true
    exact ⟨_, hprepare⟩

/-- A strict run succeeds exactly if the dotted paths of what the library itself defines are
distinct, whatever it depends on. The table of what it has prepared then records the symbols of
other libraries that overlap with what is there before them, and nothing else: there is no collision
exactly if all symbols that came into play, of the library and of the others, can stand side by
side. -/
theorem strict_clear_iff_shareable (primary : Library) (dependencies : List Library) :
    ((∃ p, primary.prepare dependencies true = .ok p) ↔
      (primary.description.definitions.map Definition.path).Nodup) ∧
    ∀ p, primary.prepare dependencies true = .ok p →
      p.table.collisions = overlaps primary.ownSymbols (foreignSymbols dependencies) ∧
      (p.table.collisions = [] ↔
        (primary.ownSymbols ++ foreignSymbols dependencies).Pairwise Shareable) := by
  have hlists : primary.table.Lists primary.ownSymbols :=
    Table.lists_ofDescription primary.name primary.description
  have hpaths : primary.ownSymbols.map Symbol.fqn
      = primary.description.definitions.map Definition.path := List.map_map
  have hstrict := exists_prepare_strict_iff primary dependencies
  rw [← hpaths, ← hlists.ensureNoCollisions_iff]
  refine ⟨hstrict, fun p hp => ?_⟩
  have hclear := hstrict.mp ⟨p, hp⟩
  have hown : primary.ownSymbols.Pairwise Shareable := by
    refine (List.pairwise_map.mp (hlists.nodup hclear)).imp ?_
    exact fun hne hfqn => absurd hfqn hne
  have hcollisions : p.table.collisions
      = overlaps primary.ownSymbols (foreignSymbols dependencies) := by
    rw [(of_prepare hp).2.1, hlists.collisions_withDependencies, List.flatMap_map,
      Table.ensureNoCollisions_eq_ok.mp hclear, List.nil_append]
    rfl
  refine ⟨hcollisions, ?_⟩
  rw [hcollisions]
  exact overlaps_eq_nil_iff _ hown

/-- A library whose classes are all in one namespace. -/
def ofClasses (name : String) (classes : List String) : Library :=
  ⟨name, .ofTop (.plain "" [] [.plain "ui" (classes.map Class.plain) []]), .empty⟩

/-- Two libraries that share only a namespace are prepared without collisions. -/
theorem strict_clear_iff_shareable_namespace :
    ∃ p, (ofClasses "app" ["Panel"]).prepare [ofClasses "lib" ["Widget"]] true = .ok p ∧
      p.table.collisions = [] := by
  obtain ⟨hsucceeds, hprepared⟩ :=
    strict_clear_iff_shareable (ofClasses "app" ["Panel"]) [ofClasses "lib" ["Widget"]]
  obtain ⟨p, hp⟩ := hsucceeds.mpr (by decide)
  exact ⟨p, hp, (hprepared p hp).2.mpr (by decide)⟩

/-- A strict run lets the classes of two libraries overlap. -/
theorem not_strict_clear_classes :
    ∃ p, (ofClasses "app" ["Panel"]).prepare [ofClasses "lib" ["Panel"]] true = .ok p ∧
      p.table.collisions = [⟨"ui.Panel", .classType, .classType, "lib"⟩] := by
  have hprepare : (ofClasses "app" ["Panel"]).prepare [ofClasses "lib" ["Panel"]] true = .ok _ :=
    rfl
  exact ⟨_, hprepare, by decide⟩

end Library

end Ambient
