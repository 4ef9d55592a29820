import Ambient.Proofs.Directives
import Ambient.Proofs.Symbol.Overlaps

/-!
# Independent dependencies

Dependencies are independent if they share no symbols but namespaces, and no key of a map in their
directives has different values. Then no dependency stands in the way of another: a name leads to
the library's own symbol or to that of the only dependency that has one, and every recorded overlap
is one with the library's own symbols. So the order in which they are listed does not matter.
-/

namespace Ambient

/-! ## Lists in any order -/

/-- What is found first in a list and in one with the same elements looks the same, if everything
that can be found does. -/
theorem map_findSome?_of_perm {α β γ : Type} {f : α → Option β} {g : β → γ} {as bs : List α}
    (hperm : as.Perm bs)
    (hsame : ∀ a ∈ as, ∀ b ∈ as, ∀ x ∈ f a, ∀ y ∈ f b, g x = g y) :
    (as.findSome? f).map g = (bs.findSome? f).map g := by
  cases has : as.findSome? f with
  | none =>
    have hnone : bs.findSome? f = none := List.findSome?_eq_none_iff.mpr fun b hb =>
      List.findSome?_eq_none_iff.mp has b (hperm.mem_iff.mpr hb)
    rw [hnone]
  | some x =>
    obtain ⟨a, ha, hx⟩ := List.exists_of_findSome?_eq_some has
    cases hbs : bs.findSome? f with
    | none =>
      have hnone := List.findSome?_eq_none_iff.mp hbs a (hperm.mem_iff.mp ha)
      rw [hx] at hnone
      cases hnone
    | some y =>
      obtain ⟨b, hb, hy⟩ := List.exists_of_findSome?_eq_some hbs
      exact congrArg some (hsame a ha b (hperm.mem_iff.mpr hb) x hx y hy)

namespace Symbol

/-- Symbols that can stand side by side overlap with nothing but what was there before all of
them. -/
theorem overlaps_of_shareable {symbols : List Symbol} (h : symbols.Pairwise Shareable) :
    ∀ met : List Symbol, overlaps met symbols
      = symbols.flatMap fun s => overlap (met.find? fun other => other.fqn == s.fqn) s := by
  induction symbols with
  | nil => exact fun _ => rfl
  | cons first rest ih =>
    obtain ⟨hfirst, hrest⟩ := List.pairwise_cons.mp h
    intro met
    rw [overlaps, ih hrest, List.flatMap_cons]
    refine congrArg _ (List.flatMap_congr fun s hs => ?_)
    rw [List.find?_append]
    cases met.find? fun other => other.fqn == s.fqn with
    | some kept => rfl
    | none =>
      rw [Option.none_or, List.find?_singleton]
      by_cases hfqn : first.fqn = s.fqn
      · rw [if_pos (by simpa using hfqn), overlap, if_pos (hfirst s hs hfqn)]
        rfl
      · rw [if_neg (by simpa using hfqn)]

/-- What can be told of a symbol if namespaces are shared: its kind, and all of it unless it is a
namespace. -/
def shared (s : Symbol) : Kind × Option Symbol :=
  (s.kind, if s.kind = .nameSpace then none else some s)

/-- Of a symbol that is no namespace all can be told, so it is found exactly if that is told. -/
theorem map_shared_eq_some_iff {found : Option Symbol} {s : Symbol} (h : s.kind ≠ .nameSpace) :
    found.map shared = some (s.kind, some s) ↔ found = some s := by
  rw [Option.map_eq_some_iff]
  constructor
  · rintro ⟨other, rfl, hshared⟩
    rw [shared] at hshared
    split at hshared
    · cases (Prod.mk.inj hshared).2
    · rw [Option.some.inj (Prod.mk.inj hshared).2]
  · rintro rfl
    exact ⟨s, rfl, by rw [shared, if_neg h]⟩

namespace Table

/-- Two tables are the same to everyone who asks: they have the same symbols, where namespaces may
be those of different libraries, and they recorded the same collisions in whatever order. -/
structure AnswersAlike (t u : Table) : Prop where
  kinds : ∀ fqn, (t.get? fqn).map Symbol.kind = (u.get? fqn).map Symbol.kind
  symbols : ∀ fqn s, s.kind ≠ .nameSpace → (t.get? fqn = some s ↔ u.get? fqn = some s)
  collisions : t.collisions.Perm u.collisions

variable {t table : Table} {met L : List Symbol}

/-- In a table that lists symbols, searching finds what looking up does. -/
theorem Lists.find?_toList (h : table.Lists L) (fqn : String) :
    (table.toList.find? fun s => s.fqn == fqn) = table.get? fqn := by
  rw [toList_of_entries h.entries, find?_firsts, h.get?_eq_find?]

/-- The symbols that a table has can stand side by side. -/
theorem Lists.pairwise_toList (h : table.Lists L) : table.toList.Pairwise Shareable := by
  rw [toList_of_entries h.entries]
  exact (List.pairwise_map.mp (nodup_firsts L)).imp fun hne hfqn => absurd hfqn hne

/-- Under a dotted name a merged table has its own symbol, or else that of the first table that has
one. -/
theorem Lists.get?_withDependencies (h : t.Lists met) {dependencies : List Table}
    (hdependencies : ∀ dependency ∈ dependencies, ∃ L, dependency.Lists L) (fqn : String) :
    (t.withDependencies dependencies).get? fqn
      = (t.get? fqn).or (dependencies.findSome? fun dependency => dependency.get? fqn) := by
  have hfound : (dependencies.findSome? fun dependency =>
      dependency.toList.find? fun s => s.fqn == fqn)
      = dependencies.findSome? fun dependency => dependency.get? fqn := by
    induction dependencies with
    | nil => rfl
    | cons first rest ih =>
      obtain ⟨⟨L, hfirst⟩, hrest⟩ := List.forall_mem_cons.mp hdependencies
      rw [List.findSome?_cons, List.findSome?_cons, hfirst.find?_toList, ih hrest]
  rw [withDependencies_eq, (foldl_adopt _ h.get?_eq_find?).2, List.find?_append, h.get?_eq_find?,
    List.find?_flatMap, hfound]

end Table

end Symbol

namespace Directives

/-- Two sets of directives are the same to everyone who asks. -/
structure AnswersAlike (d e : Directives) : Prop where
  isBadMethod : ∀ name, d.isBadMethod name = e.isBadMethod name
  isBadInterface : ∀ fqn, d.isBadInterface fqn = e.isBadInterface fqn
  isBadSymbol : ∀ fqn, d.isBadSymbol fqn = e.isBadSymbol fqn
  reclassifies : ∀ fqn, d.reclassifies fqn = e.reclassifies fqn
  suppression : ∀ fqn, d.suppression? fqn = e.suppression? fqn
  correct : ∀ type, d.correct type = e.correct type

end Directives

namespace Library

open Ambient.Symbol Api

variable {primary : Library} {dependencies others : List Library}

/-- The table of a library lists the library's own symbols. -/
theorem lists_table (lib : Library) : lib.table.Lists lib.ownSymbols :=
  Table.lists_ofDescription lib.name lib.description

/-- The table of what is visible lists the symbols of what is visible. -/
theorem lists_visibleTable (lib : Library) : lib.visibleTable.Lists
    (lib.description.visible.definitions.map (Definition.symbol lib.name)) :=
  Table.lists_ofDescription lib.name lib.description.visible

/-! ## Independent libraries -/

/-- Two libraries share no symbols but namespaces, and no key in their directives has different
values. -/
structure Independent (a b : Library) : Prop where
  symbols : ∀ s ∈ a.visibleTable.toList, ∀ t ∈ b.visibleTable.toList, Shareable s t
  typos : a.directives.typos.Agrees b.directives.typos
  interfaceNamespaces :
    a.directives.interfaceNamespaces.Agrees b.directives.interfaceNamespaces
  suppressions : a.directives.suppressions.Agrees b.directives.suppressions

/-- Independence is symmetric. -/
theorem Independent.symm {a b : Library} (h : Independent a b) : Independent b a where
  symbols s hs t ht := (h.symbols t ht s hs).symm
  typos := h.typos.symm
  interfaceNamespaces := h.interfaceNamespaces.symm
  suppressions := h.suppressions.symm

/-- Independence is symmetric, as an instance. -/
instance : Std.Symm Independent := ⟨fun _ _ => Independent.symm⟩

/-- Of independent libraries any two are one and the same or independent of each other. -/
theorem eq_or_independent (h : dependencies.Pairwise Independent) {a b : Library}
    (ha : a ∈ dependencies) (hb : b ∈ dependencies) : a = b ∨ Independent a b := by
  by_cases hab : a = b
  · exact .inl hab
  · exact .inr (h.forall ha hb hab)

/-- What a map has for a key in one of several independent libraries. -/
theorem findSome?_field_eq {β : Type} (field : Directives → Ordered.Map String β)
    (hagrees : ∀ {a b : Library}, Independent a b →
      (field a.directives).Agrees (field b.directives))
    (hperm : dependencies.Perm others) (h : dependencies.Pairwise Independent) (key : String) :
    (dependencies.findSome? fun lib => (field lib.directives).get? key)
      = others.findSome? fun lib => (field lib.directives).get? key := by
  have hmapped := map_findSome?_of_perm (f := fun lib : Library => (field lib.directives).get? key)
    (g := id) hperm fun a ha b hb x hx y hy => by
      obtain rfl | hindependent := eq_or_independent h ha hb
      · exact Option.some.inj (hx.symm.trans hy)
      · exact (hagrees hindependent).eq_of_get? hx hy
  simpa using hmapped

/-! ## Prepared libraries -/

/-- What dependencies do not matter for: whether a library can be prepared, why it cannot, and its
own corrected description. -/
theorem prepare_eq_map (primary : Library) (dependencies : List Library) (isStrict : Bool) :
    primary.prepare dependencies isStrict = (primary.prepare [] isStrict).map fun p =>
      { linked := p.linked
        table := primary.table.withDependencies (dependencies.map visibleTable)
        directives := primary.directives.merge (dependencies.map directives) } := by
  obtain ⟨linked, hrun⟩ := exists_run primary
  rw [prepare, prepare, hrun]
  cases isStrict with
  | false => rfl
  | true =>
    cases primary.table.ensureNoCollisions with
    | error clash => rfl
    | ok _ => rfl

/-- The table that a library has together with those it depends on. -/
theorem get?_prepared (primary : Library) (dependencies : List Library) (fqn : String) :
    (primary.table.withDependencies (dependencies.map visibleTable)).get? fqn
      = (primary.table.get? fqn).or
          (dependencies.findSome? fun lib => lib.visibleTable.get? fqn) := by
  have hlists : ∀ table ∈ dependencies.map visibleTable, ∃ L, table.Lists L := by
    intro table htable
    obtain ⟨lib, _, rfl⟩ := List.mem_map.mp htable
    exact ⟨_, lib.lists_visibleTable⟩
  rw [primary.lists_table.get?_withDependencies hlists, List.findSome?_map]
  rfl

section Order

variable (hperm : dependencies.Perm others) (h : dependencies.Pairwise Independent)
include hperm h

variable (primary) in
/-- In any order, independent dependencies give a name the same kind, and the same symbol if that
is not a namespace. -/
theorem map_shared_of_perm (fqn : String) :
    ((primary.table.withDependencies (dependencies.map visibleTable)).get? fqn).map shared
      = ((primary.table.withDependencies (others.map visibleTable)).get? fqn).map shared := by
  rw [get?_prepared, get?_prepared]
  cases primary.table.get? fqn with
  | some own => rfl
  | none =>
    rw [Option.none_or, Option.none_or]
    refine map_findSome?_of_perm hperm fun a ha b hb x hx y hy => ?_
    obtain rfl | hindependent := eq_or_independent h ha hb
    · rw [Option.some.inj (hx.symm.trans hy)]
    · have hfqn {lib : Library} {s : Symbol} (hs : s ∈ lib.visibleTable.get? fqn) :
          s.fqn = fqn ∧ s ∈ lib.visibleTable.toList := by
        have hfound := (lib.lists_visibleTable.find?_toList fqn).trans hs
        exact ⟨by simpa using List.find?_some hfound, List.mem_of_find?_eq_some hfound⟩
      obtain ⟨hxfqn, hxmem⟩ := hfqn hx
      obtain ⟨hyfqn, hymem⟩ := hfqn hy
      obtain ⟨hxkind, hykind⟩ := hindependent.symbols x hxmem y hymem (hxfqn.trans hyfqn.symm)
      rw [shared, shared, hxkind, hykind, if_pos rfl, if_pos rfl]

/-- In any order, independent dependencies overlap with the library's own symbols only. -/
theorem collisions_perm_of_perm :
    (primary.table.withDependencies (dependencies.map visibleTable)).collisions.Perm
      (primary.table.withDependencies (others.map visibleTable)).collisions := by
  have hshareable {libraries : List Library} (h : libraries.Pairwise Independent) :
      ((libraries.map visibleTable).flatMap Table.toList).Pairwise Shareable := by
    rw [List.flatMap_map, List.pairwise_flatMap]
    exact ⟨fun lib _ => lib.lists_visibleTable.pairwise_toList,
      h.imp fun hindependent => hindependent.symbols⟩
  have hothers : others.Pairwise Independent := (hperm.pairwise_iff Independent.symm).mp h
  have hsymbols := (hperm.map visibleTable).flatMap_right Table.toList
  rw [primary.lists_table.collisions_withDependencies,
    primary.lists_table.collisions_withDependencies, overlaps_of_shareable (hshareable h),
    overlaps_of_shareable (hshareable hothers)]
  exact (hsymbols.flatMap_right _).append_left _

/-- In any order, independent dependencies make up tables that are the same to everyone who asks. -/
theorem table_answersAlike :
    (primary.table.withDependencies (dependencies.map visibleTable)).AnswersAlike
      (primary.table.withDependencies (others.map visibleTable)) where
  kinds fqn := by
    have hfirst := congrArg (Option.map Prod.fst) (map_shared_of_perm primary hperm h fqn)
    rwa [Option.map_map, Option.map_map] at hfirst
  symbols fqn s hs := by
    rw [← map_shared_eq_some_iff hs, ← map_shared_eq_some_iff hs, map_shared_of_perm primary hperm h]
  collisions := collisions_perm_of_perm hperm h

/-- In any order, independent dependencies make up directives that are the same to everyone who
asks. -/
theorem directives_answersAlike :
    (primary.directives.merge (dependencies.map directives)).AnswersAlike
      (primary.directives.merge (others.map directives)) := by
  have hset (field : Directives → Ordered.Set String)
      (habsorb : ∀ d other : Directives, field (d.absorb other) = (field d).union (field other))
      (a : String) :
      (field (primary.directives.merge (dependencies.map directives))).contains a
        = (field (primary.directives.merge (others.map directives))).contains a := by
    have hmem (one : Directives) : one ∈ primary.directives :: dependencies.map directives ↔
        one ∈ primary.directives :: others.map directives :=
      ((hperm.map directives).cons primary.directives).mem_iff
    rw [Bool.eq_iff_iff, Directives.contains_merge field habsorb,
      Directives.contains_merge field habsorb]
    simp only [hmem]
  have hmap {β : Type} (field : Directives → Ordered.Map String β)
      (habsorb : ∀ d other : Directives, field (d.absorb other) = (field d).union (field other))
      (hagrees : ∀ {a b : Library}, Independent a b →
        (field a.directives).Agrees (field b.directives)) (key : String) :
      (field (primary.directives.merge (dependencies.map directives))).get? key
        = (field (primary.directives.merge (others.map directives))).get? key := by
    rw [Directives.get?_merge field habsorb, Directives.get?_merge field habsorb,
      List.findSome?_map, List.findSome?_map]
    exact congrArg _ (findSome?_field_eq field hagrees hperm h key)
  have htypos := hmap Directives.typos (fun _ _ => rfl) Independent.typos
  have hinterfaces := hmap Directives.interfaceNamespaces (fun _ _ => rfl)
    Independent.interfaceNamespaces
  refine ⟨hset Directives.badMethods fun _ _ => rfl, hset Directives.badInterfaces fun _ _ => rfl,
    hset Directives.badSymbols fun _ _ => rfl, fun fqn => ?_,
    hmap Directives.suppressions (fun _ _ => rfl) Independent.suppressions, fun type => ?_⟩
  · rw [Directives.reclassifies, Directives.reclassifies, hinterfaces]
  · rw [Directives.correct, Directives.correct, Directives.correctName, Directives.correctName,
      htypos]

/-- For dependencies that share no symbols but namespaces, and no key of whose directives has
different values, the order does not matter. In any other order the library can be prepared if it
can in this one, and fails for the same reason if not; it has the same description then, a table
with the same kinds and the same symbols that are not namespaces, the same collisions in whatever
order, and directives that answer the same. -/
theorem prepare_perm (primary : Library) (isStrict : Bool) :
    (∀ error, primary.prepare dependencies isStrict = .error error ↔
      primary.prepare others isStrict = .error error) ∧
    ∀ p, primary.prepare dependencies isStrict = .ok p →
      ∃ q, primary.prepare others isStrict = .ok q ∧ p.linked = q.linked ∧
        p.table.AnswersAlike q.table ∧ p.directives.AnswersAlike q.directives := by
  rw [prepare_eq_map primary dependencies, prepare_eq_map primary others]
  cases primary.prepare [] isStrict with
  | error _ => exact ⟨fun _ => Iff.rfl, nofun⟩
  | ok own =>
    refine ⟨fun _ => iff_of_false nofun nofun, ?_⟩
    rintro _ ⟨⟩
    exact ⟨_, rfl, rfl, table_answersAlike hperm h, directives_answersAlike hperm h⟩

end Order

/-- A library that has classes in a namespace, with directives that correct a type. -/
def correcting (name : String) (classes : List String) (type correction : String) : Library :=
  { ofClasses name classes with
    directives := { Directives.empty with typos := .ofListLast [(type, correction)] } }

/-- Two libraries that correct one type alike can be given in either order. -/
theorem prepare_perm_namespace :
    ∃ p q, (ofClasses "app" ["Panel"]).prepare
        [correcting "lib" ["Panel"] "Int" "int", correcting "more" ["Table"] "Int" "int"] true
        = .ok p ∧
      (ofClasses "app" ["Panel"]).prepare
        [correcting "more" ["Table"] "Int" "int", correcting "lib" ["Panel"] "Int" "int"] true
        = .ok q ∧
      p.table.AnswersAlike q.table ∧ p.directives.AnswersAlike q.directives := by
  have hindependent : Independent (correcting "lib" ["Panel"] "Int" "int")
      (correcting "more" ["Table"] "Int" "int") := by
    refine ⟨by decide, by decide, by decide, by decide⟩
  obtain ⟨_, hprepared⟩ := prepare_perm (.swap _ _ [])
    (List.pairwise_pair.mpr hindependent) (ofClasses "app" ["Panel"]) true
  obtain ⟨q, hq, _, htable, hdirectives⟩ := hprepared _ rfl
  exact ⟨_, q, rfl, hq, htable, hdirectives⟩

end Library

end Ambient
