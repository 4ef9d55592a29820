import Ambient.Proofs.Generation.Loading
import Ambient.Proofs.Ordered

/-!
# Directives from several sources

Directives come from the files of a library and from the libraries that it depends on, and are merged
in the order in which these are named. Every set of the result is the union of the sets and every map
the union of the maps, in order of first appearance, where the first value of a key counts. Nothing
else determines the result: not how the directives are grouped before they are merged, nor over how
many files they are spread.
-/

namespace Ambient

namespace Directives

/-- Directives are the union of those in a list, field by field. -/
structure IsUnion (merged : Directives) (all : List Directives) : Prop where
  badMethods : merged.badMethods.IsUnion (all.map Directives.badMethods)
  badInterfaces : merged.badInterfaces.IsUnion (all.map Directives.badInterfaces)
  badSymbols : merged.badSymbols.IsUnion (all.map Directives.badSymbols)
  typos : merged.typos.IsUnion (all.map Directives.typos)
  interfaceNamespaces : merged.interfaceNamespaces.IsUnion (all.map Directives.interfaceNamespaces)
  suppressions : merged.suppressions.IsUnion (all.map Directives.suppressions)

/-- Directives are split into parts: what they have is in the parts, one after the other. -/
structure IsSplit (d : Directives) (parts : List Directives) : Prop where
  badMethods : d.badMethods.toList = parts.flatMap fun part => part.badMethods.toList
  badInterfaces : d.badInterfaces.toList = parts.flatMap fun part => part.badInterfaces.toList
  badSymbols : d.badSymbols.toList = parts.flatMap fun part => part.badSymbols.toList
  typos : d.typos.entries = parts.flatMap fun part => part.typos.entries
  interfaceNamespaces :
    d.interfaceNamespaces.entries = parts.flatMap fun part => part.interfaceNamespaces.entries
  suppressions : d.suppressions.entries = parts.flatMap fun part => part.suppressions.entries

/-- A field of merged directives is what uniting the fields one after the other gives. -/
theorem field_merge {γ : Type} {field : Directives → γ} {union : γ → γ → γ}
    (habsorb : ∀ d other : Directives, field (d.absorb other) = union (field d) (field other))
    (d : Directives) (others : List Directives) :
    field (d.merge others) = (others.map field).foldl union (field d) := by
  induction others generalizing d with
  | nil => rfl
  | cons other rest ih =>
    rw [List.map_cons, List.foldl_cons, ← habsorb]
    exact ih (d.absorb other)

/-- Merging gives the union of the directives, and nothing else is their union. -/
theorem isUnion_cons_iff {merged d : Directives} {others : List Directives} :
    merged.IsUnion (d :: others) ↔ merged = d.merge others := by
  have hset {s : Ordered.Set String} (field : Directives → Ordered.Set String)
      (habsorb : ∀ d other : Directives, field (d.absorb other) = (field d).union (field other)) :
      s.IsUnion ((d :: others).map field) ↔ s = field (d.merge others) := by
    rw [List.map_cons, Ordered.Set.isUnion_iff, field_merge habsorb]
  have hmap {β : Type} {m : Ordered.Map String β} (field : Directives → Ordered.Map String β)
      (habsorb : ∀ d other : Directives, field (d.absorb other) = (field d).union (field other)) :
      m.IsUnion ((d :: others).map field) ↔ m = field (d.merge others) := by
    rw [List.map_cons, Ordered.Map.isUnion_iff, field_merge habsorb]
  constructor
  · rintro ⟨hmethods, hinterfaces, hsymbols, htypos, hnamespaces, hsuppressions⟩
    calc merged
      _ = ⟨merged.badMethods, merged.badInterfaces, merged.badSymbols, merged.typos,
          merged.interfaceNamespaces, merged.suppressions⟩ := rfl
      _ = ⟨(d.merge others).badMethods, (d.merge others).badInterfaces,
          (d.merge others).badSymbols, (d.merge others).typos,
          (d.merge others).interfaceNamespaces, (d.merge others).suppressions⟩ := by
        rw [(hset Directives.badMethods fun _ _ => rfl).mp hmethods,
          (hset Directives.badInterfaces fun _ _ => rfl).mp hinterfaces,
          (hset Directives.badSymbols fun _ _ => rfl).mp hsymbols,
          (hmap Directives.typos fun _ _ => rfl).mp htypos,
          (hmap Directives.interfaceNamespaces fun _ _ => rfl).mp hnamespaces,
          (hmap Directives.suppressions fun _ _ => rfl).mp hsuppressions]
      _ = d.merge others := rfl
  · rintro rfl
    exact ⟨(hset _ fun _ _ => rfl).mpr rfl, (hset _ fun _ _ => rfl).mpr rfl,
      (hset _ fun _ _ => rfl).mpr rfl, (hmap _ fun _ _ => rfl).mpr rfl,
      (hmap _ fun _ _ => rfl).mpr rfl, (hmap _ fun _ _ => rfl).mpr rfl⟩

/-- No directives in front of others add nothing. -/
theorem isUnion_empty_cons_iff {merged : Directives} {all : List Directives} :
    merged.IsUnion (empty :: all) ↔ merged.IsUnion all :=
  ⟨fun ⟨a, b, c, d, e, f⟩ => ⟨a, b, c, ⟨d.1, d.2⟩, ⟨e.1, e.2⟩, ⟨f.1, f.2⟩⟩,
    fun ⟨a, b, c, d, e, f⟩ => ⟨a, b, c, ⟨d.1, d.2⟩, ⟨e.1, e.2⟩, ⟨f.1, f.2⟩⟩⟩

/-- Directives are the union of others exactly if these merged into none give them. -/
theorem isUnion_iff {merged : Directives} {all : List Directives} :
    merged.IsUnion all ↔ merged = empty.merge all :=
  isUnion_empty_cons_iff.symm.trans isUnion_cons_iff

/-- Directives that are split are the union of their parts. -/
theorem IsSplit.isUnion {d : Directives} {parts : List Directives} (h : d.IsSplit parts) :
    d.IsUnion parts := by
  have hset {s : Ordered.Set String} {field : Directives → Ordered.Set String}
      (hsplit : s.toList = parts.flatMap fun part => (field part).toList) :
      s.IsUnion (parts.map field) := by
    rw [Ordered.Set.IsUnion, List.flatMap_map, ← hsplit]
    exact Ordered.Set.inOrder_of_nodup s.distinct
  have hmap {β : Type} {m : Ordered.Map String β} {field : Directives → Ordered.Map String β}
      (hsplit : m.entries = parts.flatMap fun part => (field part).entries) :
      m.IsUnion (parts.map field) := by
    refine ⟨?_, fun key => ?_⟩
    · have hkeys : m.keys = (parts.map field).flatMap Ordered.Map.keys := by
        rw [Ordered.Map.keys, hsplit, List.map_flatMap, List.flatMap_map]
        rfl
      rw [← hkeys]
      exact Ordered.Set.inOrder_of_nodup m.distinct
    · rw [Ordered.Map.get?, hsplit, Ordered.Map.lookup_flatMap, List.findSome?_map]
      rfl
  exact ⟨hset h.badMethods, hset h.badInterfaces, hset h.badSymbols, hmap h.typos,
    hmap h.interfaceNamespaces, hmap h.suppressions⟩

/-! ## Grouping -/

/-- Directives are absorbed in any grouping alike. -/
theorem absorb_assoc (d e f : Directives) : (d.absorb e).absorb f = d.absorb (e.absorb f) := by
  simp only [absorb, Ordered.Set.union_assoc, Ordered.Map.union_assoc]

/-- Directives that have been merged before are merged as they would be one by one. -/
theorem merge_merge (d e : Directives) (others : List Directives) :
    d.merge [e.merge others] = d.merge (e :: others) := by
  induction others generalizing e with
  | nil => rfl
  | cons other rest ih =>
    have hstep : d.merge (e.absorb other :: rest) = d.merge (e :: other :: rest) :=
      congrArg (merge · rest) (absorb_assoc d e other).symm
    exact (ih (e.absorb other)).trans hstep

/-- Directives merged into none stay as they are. -/
theorem empty_merge_singleton (d : Directives) : empty.merge [d] = d :=
  (isUnion_iff.mp (isUnion_cons_iff.mpr rfl)).symm

/-- Groups that are merged each for itself, or one group after the other, are merged as all that
they hold. -/
theorem merge_groups (d : Directives) (groups : List (List Directives)) :
    d.merge (groups.map empty.merge) = d.merge groups.flatten ∧
      groups.foldl merge d = d.merge groups.flatten := by
  induction groups generalizing d with
  | nil => exact ⟨rfl, rfl⟩
  | cons group rest ih =>
    have hflatten : d.merge (group :: rest).flatten = (d.merge group).merge rest.flatten :=
      List.foldl_append
    have hgroup : d.absorb (empty.merge group) = d.merge group := by
      exact merge_merge d empty group
    rw [hflatten, List.map_cons, List.foldl_cons]
    refine ⟨?_, (ih _).2⟩
    rw [← (ih _).1, ← hgroup]
    rfl

end Directives

/-! ## Files and libraries -/

namespace Generation

open Machine

/-- A library is read with the directives of its files, if these can be read. -/
theorem readLibrary_of_files {m : Machine} {s : Settings} {source : Settings.Source}
    {description : Api.Description} {files : List Directives}
    (hdescription : m.perform (readDescription (s.resolve source.api)) = (.ok description, m))
    (hfiles : List.Forall₂ (fun path file =>
      m.perform (readDirectives (s.resolve path)) = (.ok file, m)) source.directives files) :
    m.perform (readLibrary s source)
      = (.ok ⟨source.name, description, Directives.empty.merge files⟩, m) := by
  rw [readLibrary, perform_bind_ok hdescription, perform_bind_ok (perform_mapM_ok hfiles)]
  rfl

end Generation

namespace Directives

open Machine Generation

/-- Merging directives gives their union in order of first appearance, where the first value of a key
counts, and nothing else is their union; it is associative, and directives that say nothing are its
identity. So directives may be grouped as one likes and merged group by group, and directives that
are split into parts come out of the parts as they were. That is how a library is read that has its
directives in several files, and what it is prepared with are the directives of the library and of
those it depends on. -/
theorem merge_unites (d : Directives) (others : List Directives) :
    (∀ merged, merged = d.merge others ↔ merged.IsUnion (d :: others)) ∧
    (∀ e f : Directives, (d.merge [e]).merge [f] = d.merge [e.merge [f]]) ∧
    empty.merge [d] = d ∧ d.merge [empty] = d ∧
    (∀ groups : List (List Directives), groups.flatten = others →
      groups.foldl merge d = d.merge others ∧ d.merge (groups.map empty.merge) = d.merge others) ∧
    (∀ parts, d.IsSplit parts → empty.merge parts = d) ∧
    (∀ (m : Machine) (s : Settings) (source : Settings.Source) description files,
      m.perform (readDescription (s.resolve source.api)) = (.ok description, m) →
      List.Forall₂ (fun path file =>
        m.perform (readDirectives (s.resolve path)) = (.ok file, m)) source.directives files →
      ∃ read : Directives,
        m.perform (readLibrary s source) = (.ok ⟨source.name, description, read⟩, m) ∧
          read.IsUnion files ∧ (d.IsSplit files → read = d)) ∧
    ∀ (primary : Library) (dependencies : List Library) (isStrict : Bool) (p : Library.Prepared),
      primary.prepare dependencies isStrict = .ok p →
      p.directives.IsUnion ((primary :: dependencies).map Library.directives) := by
  refine ⟨fun merged => isUnion_cons_iff.symm, absorb_assoc d, empty_merge_singleton d, rfl,
    fun groups hgroups => ?_, fun parts hsplit => (isUnion_iff.mp hsplit.isUnion).symm,
    fun m s source description files hdescription hfiles => ?_,
    fun primary dependencies isStrict p hp => ?_⟩
  · obtain ⟨hmerged, hfolded⟩ := merge_groups d groups
    rw [hgroups] at hmerged hfolded
    exact ⟨hfolded, hmerged⟩
  · exact ⟨_, readLibrary_of_files hdescription hfiles, isUnion_iff.mpr rfl,
      fun hsplit => (isUnion_iff.mp hsplit.isUnion).symm⟩
  · rw [(Library.of_prepare hp).2.2, List.map_cons]
    exact isUnion_cons_iff.mpr rfl

/-- The part of some directives that the first file of a library has. -/
def opening : Directives := { empty with
  badMethods := .ofList ["open"]
  interfaceNamespaces := .ofListLast [("ui.busy", false)] }

/-- The part that the second file has. -/
def closing : Directives := { empty with
  badMethods := .ofList ["close"]
  interfaceNamespaces := .ofListLast [("ui.core", true)] }

/-- The directives as a whole. -/
def whole : Directives := { empty with
  badMethods := .ofList ["open", "close"]
  interfaceNamespaces := .ofListLast [("ui.busy", false), ("ui.core", true)] }

/-- A machine with the two files and the description of an empty library. -/
def spread : Machine where
  tree := ((Files.Tree.empty.put ["api.json"]
    (.file "\x7b\"kind\":\"Root\",\"topLevelNamespace\":\x7b\"kind\":\"Namespace\"\x7d\x7d")).put
      ["first.json"]
    (.file ("\x7b\"badMethods\":[\"open\"],"
      ++ "\"namespacesToInterfaces\":\x7b\"ui.busy\":false\x7d\x7d"))).put
      ["second.json"]
    (.file ("\x7b\"badMethods\":[\"close\"],"
      ++ "\"namespacesToInterfaces\":\x7b\"ui.core\":true\x7d\x7d"))
  working := []
  programs _ _ _ _ := .error .missing

/-- A library that comes with the opposite about the namespaces. -/
def opposed : Library := ⟨"lib", .ofTop (.plain "" [] []), { empty with
  interfaceNamespaces := .ofListLast [("ui.core", false), ("ui.busy", true), ("ui.menu", true)] }⟩

/-- The library is read with the directives as a whole. What it has to say about a namespace stands
against a library that it depends on, also if it says no. -/
theorem merge_unites_spread :
    ∃ library, spread.perform (readLibrary Settings.default
        ⟨"app", "api.json", ["first.json", "second.json"]⟩) = (.ok library, spread) ∧
      library.directives = whole ∧
      whole.merge [empty.merge [opening], empty.merge [closing]] = whole.merge [opening, closing] ∧
      ∃ p, library.prepare [opposed] false = .ok p ∧
        p.directives.interfaceNamespaces.get? "ui.busy" = some false := by
  have hread : (spread.perform (readDescription "api.json")).1.isOk = true := by decide +kernel
  obtain ⟨description, hdescription⟩ | ⟨error, herror, -⟩ := Reads.readDescription "api.json" spread
  · obtain ⟨-, -, -, -, hgroups, hsplit, hreads, -⟩ := merge_unites whole [opening, closing]
    have hwhole : whole.IsSplit [opening, closing] := ⟨rfl, rfl, rfl, rfl, rfl, rfl⟩
    obtain ⟨read, hlibrary, -, hsame⟩ := hreads spread Settings.default
      ⟨"app", "api.json", ["first.json", "second.json"]⟩ description [opening, closing] hdescription
      (.cons rfl (.cons rfl .nil))
    obtain rfl := hsame hwhole
    obtain ⟨p, hp⟩ := Library.exists_prepare ⟨"app", description, whole⟩ [opposed]
    obtain ⟨-, -, -, -, -, -, -, hprepared⟩ := merge_unites whole []
    have hunion := hprepared _ _ _ p hp
    have hfirst : ([whole, opposed.directives].map interfaceNamespaces).findSome?
        (fun one => one.get? "ui.busy") = some false := by decide
    exact ⟨_, hlibrary, rfl, (hgroups [[opening], [closing]] rfl).2, p, hp,
      (hunion.interfaceNamespaces.get? "ui.busy").trans hfirst⟩
  · rw [herror] at hread
    cases hread

end Directives

end Ambient
