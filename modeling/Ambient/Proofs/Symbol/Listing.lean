import Mathlib.Data.List.Basic
import Ambient.Proofs.Api.Definitions
import Ambient.Symbol.Table

/-!
# What symbol tables list

A table keeps the first symbol of every dotted name and records a collision for each later one.
Nested namespaces get tables of their own, which are merged one after the other; the table of a
namespace still is what one pass over the list of its definitions would have made.
-/

namespace Ambient.Symbol

open Api

/-! ## First symbols -/

/-- The symbols of a list whose dotted names have not come before. -/
def firsts : List Symbol → List Symbol
  | [] => []
  | s :: rest => s :: (firsts rest).filter fun other => other.fqn ≠ s.fqn

/-- The first symbols stand in the order of the list. -/
theorem firsts_sublist (L : List Symbol) : (firsts L).Sublist L := by
  induction L with
  | nil => exact List.Sublist.refl []
  | cons s rest ih => exact (List.filter_sublist.trans ih).cons_cons s

/-- Every dotted name of a list is that of a first symbol. -/
theorem mem_map_firsts {L : List Symbol} {fqn : String} :
    fqn ∈ (firsts L).map Symbol.fqn ↔ fqn ∈ L.map Symbol.fqn := by
  induction L with
  | nil => rfl
  | cons s rest ih =>
    rw [firsts, List.map_cons, List.map_cons, List.mem_cons, List.mem_cons, ← ih]
    by_cases h : fqn = s.fqn
    · simp [h]
    · simp only [h, false_or, List.mem_map, List.mem_filter, decide_eq_true_eq]
      constructor
      · rintro ⟨other, ⟨hother, _⟩, hfqn⟩
        exact ⟨other, hother, hfqn⟩
      · rintro ⟨other, hother, hfqn⟩
        exact ⟨other, ⟨hother, hfqn ▸ h⟩, hfqn⟩

/-- No two first symbols have one dotted name. -/
theorem nodup_firsts (L : List Symbol) : ((firsts L).map Symbol.fqn).Nodup := by
  induction L with
  | nil => exact List.nodup_nil
  | cons s rest ih =>
    rw [firsts, List.map_cons, List.nodup_cons]
    refine ⟨?_, ih.sublist (List.filter_sublist.map _)⟩
    intro hmem
    obtain ⟨other, hother, hfqn⟩ := List.mem_map.mp hmem
    exact of_decide_eq_true (List.mem_filter.mp hother).2 hfqn

/-- Symbols with distinct dotted names all come first. -/
theorem firsts_eq_self {L : List Symbol} (h : (L.map Symbol.fqn).Nodup) : firsts L = L := by
  induction L with
  | nil => rfl
  | cons s rest ih =>
    rw [List.map_cons, List.nodup_cons] at h
    rw [firsts, ih h.2, List.filter_eq_self.mpr]
    intro other hother
    have hne : other.fqn ≠ s.fqn := fun hsame => h.1 (hsame ▸ List.mem_map_of_mem hother)
    simpa using hne

/-- Among the first symbols all are first. -/
theorem firsts_firsts (L : List Symbol) : firsts (firsts L) = firsts L :=
  firsts_eq_self (nodup_firsts L)

/-- Of a second list those symbols come first whose dotted names are not in the first one. -/
theorem firsts_append (L M : List Symbol) :
    firsts (L ++ M) = firsts L ++ (firsts M).filter fun s => s.fqn ∉ L.map Symbol.fqn := by
  induction L with
  | nil => simp [firsts]
  | cons s rest ih =>
    have hsplit (other : Symbol) :
        (decide (other.fqn ≠ s.fqn) && decide (other.fqn ∉ rest.map Symbol.fqn))
          = decide (other.fqn ∉ (s :: rest).map Symbol.fqn) := by
      simp [List.mem_cons]
    rw [List.cons_append, firsts, ih, List.filter_append, List.filter_filter, firsts,
      List.cons_append]
    simp only [hsplit]

/-- What is left of a list does not depend on symbols that came before in the same list. -/
theorem firsts_append_firsts (L M : List Symbol) : firsts (L ++ firsts M) = firsts (L ++ M) := by
  rw [firsts_append, firsts_append, firsts_firsts]

/-! ## Tables as lists -/

/-- The dotted name of a symbol with its kind. -/
def key (s : Symbol) : String × Kind := (s.fqn, s.kind)

/-- The dotted name of a collision with the kind that was dropped. -/
def Collision.key (c : Collision) : String × Kind := (c.fqn, c.dropped)

namespace Table

/-- Everything a table was given: the symbols it has and those that it dropped. -/
def recorded (t : Table) : List (String × Kind) :=
  t.toList.map Symbol.key ++ t.collisions.map Collision.key

/-- A table lists symbols: it has the first one of every dotted name, and a collision for each of
the others. -/
structure Lists (t : Table) (L : List Symbol) : Prop where
  entries : t.symbols.entries = (firsts L).map fun s => (s.fqn, s)
  recorded : t.recorded.Perm (L.map Symbol.key)

/-- The entries that a list of symbols has in a table. -/
theorem toList_of_entries {t : Table} {L : List Symbol}
    (h : t.symbols.entries = (firsts L).map fun s => (s.fqn, s)) : t.toList = firsts L := by
  rw [toList, Ordered.Map.values, h, List.map_map]
  exact List.map_id _

/-- A table that has the first symbols of a list has the dotted names of the list. -/
theorem contains_of_entries {t : Table} {L : List Symbol}
    (h : t.symbols.entries = (firsts L).map fun s => (s.fqn, s)) (fqn : String) :
    (t.get? fqn).isSome ↔ fqn ∈ L.map Symbol.fqn := by
  rw [get?, Ordered.Map.isSome_get?_iff, Ordered.Map.keys, h, List.map_map, ← mem_map_firsts]
  rfl

/-- A dotted name without a symbol is no key of the table. -/
theorem not_mem_keys_of_get? {t : Table} {fqn : String} (h : t.get? fqn = none) :
    fqn ∉ t.symbols.keys := by
  intro hkey
  have hsome := Ordered.Map.isSome_get?_iff.mpr hkey
  rw [← get?, h] at hsome
  cases hsome

/-- Defining a symbol adds it unless its dotted name has come before. -/
theorem entries_insert {t : Table} {L : List Symbol}
    (h : t.symbols.entries = (firsts L).map fun s => (s.fqn, s)) (s : Symbol) :
    (t.insert s).symbols.entries = (firsts (L ++ [s])).map fun s => (s.fqn, s) := by
  have hcontains := contains_of_entries h s.fqn
  rw [firsts_append, show firsts [s] = [s] from rfl]
  unfold insert
  cases hget : t.get? s.fqn with
  | some kept =>
    rw [hget] at hcontains
    have hmem : s.fqn ∈ L.map Symbol.fqn := hcontains.mp rfl
    rw [List.filter_cons_of_neg (by simpa using hmem), List.filter_nil, List.append_nil]
    exact h
  | none =>
    rw [hget] at hcontains
    have hmem : s.fqn ∉ L.map Symbol.fqn := fun hmem => nomatch hcontains.mpr hmem
    rw [Ordered.Map.entries_insertNew, if_neg (not_mem_keys_of_get? hget), h,
      List.filter_cons_of_pos (by simpa using hmem), List.filter_nil, List.map_append]
    rfl

/-- Inserting symbols one after another adds those whose dotted names are new. -/
theorem entries_insertAll {t : Table} {L : List Symbol}
    (h : t.symbols.entries = (firsts L).map fun s => (s.fqn, s)) (M : List Symbol) :
    (t.insertAll M).symbols.entries = (firsts (L ++ M)).map fun s => (s.fqn, s) := by
  induction M generalizing t L with
  | nil => simpa [insertAll] using h
  | cons s M ih =>
    have hnext := ih (entries_insert h s)
    rwa [List.append_assoc] at hnext

/-- Whether it is kept or dropped, a defined symbol is recorded once. -/
theorem recorded_insert (t : Table) (s : Symbol) :
    (t.insert s).recorded.Perm (t.recorded ++ [s.key]) := by
  unfold insert
  cases hget : t.get? s.fqn with
  | some kept => simp [recorded, toList, Collision.key, Symbol.key]
  | none =>
    simp only [recorded, toList, Ordered.Map.values, Ordered.Map.entries_insertNew,
      if_neg (not_mem_keys_of_get? hget), List.map_append, List.append_assoc]
    exact (List.perm_append_comm).append_left _

/-- Inserting symbols records each of them, as a symbol or as a collision. -/
theorem recorded_insertAll (t : Table) (M : List Symbol) :
    (t.insertAll M).recorded.Perm (t.recorded ++ M.map Symbol.key) := by
  induction M generalizing t with
  | nil => simp [insertAll]
  | cons s M ih =>
    have hnext := (ih (t.insert s)).trans ((recorded_insert t s).append_right (M.map Symbol.key))
    rwa [List.append_assoc] at hnext

/-- The empty table lists nothing. -/
theorem lists_empty (library : String) : (empty library).Lists [] :=
  ⟨rfl, List.Perm.nil⟩

/-- A table that lists symbols lists them with the inserted ones behind them. -/
theorem Lists.insertAll {t : Table} {L : List Symbol} (h : t.Lists L) (M : List Symbol) :
    (t.insertAll M).Lists (L ++ M) where
  entries := entries_insertAll h.entries M
  recorded := by
    rw [List.map_append]
    exact (recorded_insertAll t M).trans (h.recorded.append_right _)

/-- A merged table lists what the two tables list, one after the other. -/
theorem Lists.merge {t other : Table} {L M : List Symbol} (h : t.Lists L) (hother : other.Lists M) :
    (t.merge other).Lists (L ++ M) where
  entries := by
    have htoList := toList_of_entries hother.entries
    have hsymbols : Table.symbols { t with collisions := t.collisions ++ other.collisions }
        = t.symbols := rfl
    rw [Table.merge, htoList, ← firsts_append_firsts]
    exact entries_insertAll (hsymbols ▸ h.entries) (firsts M)
  recorded := by
    have hmerged := recorded_insertAll
      { t with collisions := t.collisions ++ other.collisions } other.toList
    have hsplit : Table.recorded { t with collisions := t.collisions ++ other.collisions }
        = t.recorded ++ other.collisions.map Collision.key := by
      simp [Table.recorded, toList]
    rw [hsplit, List.append_assoc] at hmerged
    rw [List.map_append]
    refine hmerged.trans (h.recorded.append ?_)
    exact List.perm_append_comm.trans hother.recorded

/-- A table has a symbol for exactly the dotted names that it lists. -/
theorem Lists.contains_iff {t : Table} {L : List Symbol} (h : t.Lists L) {fqn : String} :
    t.contains fqn ↔ fqn ∈ L.map Symbol.fqn :=
  contains_of_entries h.entries fqn

/-- The collisions of a table are as many as the listed symbols that did not come first. -/
theorem Lists.length_eq {t : Table} {L : List Symbol} (h : t.Lists L) :
    (firsts L).length + t.collisions.length = L.length := by
  have hlength := h.recorded.length_eq
  rw [Table.recorded, toList_of_entries h.entries] at hlength
  simpa using hlength

/-- There is no complaint about collisions exactly if there are none. -/
theorem ensureNoCollisions_eq_ok {t : Table} :
    t.ensureNoCollisions = .ok () ↔ t.collisions = [] := by
  cases hcollisions : t.collisions <;> simp [ensureNoCollisions, hcollisions]

/-- A table without collisions lists every dotted name once. -/
theorem Lists.nodup {t : Table} {L : List Symbol} (h : t.Lists L)
    (hclear : t.ensureNoCollisions = .ok ()) : (L.map Symbol.fqn).Nodup := by
  have hlength := h.length_eq
  rw [ensureNoCollisions_eq_ok.mp hclear, List.length_nil, Nat.add_zero] at hlength
  rw [← (firsts_sublist L).eq_of_length hlength]
  exact nodup_firsts L

/-- A table without collisions has every symbol that it lists. -/
theorem Lists.get?_eq {t : Table} {L : List Symbol} (h : t.Lists L)
    (hclear : t.ensureNoCollisions = .ok ()) {s : Symbol} (hs : s ∈ L) :
    t.get? s.fqn = some s := by
  rw [get?, Ordered.Map.get?_eq_some_iff, h.entries, firsts_eq_self (h.nodup hclear)]
  exact List.mem_map.mpr ⟨s, hs, rfl⟩

/-! ## Tables of descriptions -/

/-- A table is assembled by defining symbols and merging tables into it. With what it lists go the
parts: what each of the merged tables lists, and their parts. -/
inductive Assembled : Table → List Symbol → List (List Symbol) → Prop
  | empty (library : String) : Assembled (empty library) [] []
  | insert {t : Table} {L : List Symbol} {parts : List (List Symbol)} :
      Assembled t L parts → ∀ s : Symbol, Assembled (t.insert s) (L ++ [s]) parts
  | merge {t other : Table} {L M : List Symbol} {parts inner : List (List Symbol)} :
      Assembled t L parts → Assembled other M inner →
        Assembled (t.merge other) (L ++ M) (parts ++ M :: inner)

/-- An assembled table lists the symbols that it was assembled from. -/
theorem Assembled.lists {t : Table} {L : List Symbol} {parts : List (List Symbol)}
    (h : Assembled t L parts) : t.Lists L := by
  induction h with
  | empty library => exact lists_empty library
  | insert _ s ih => exact ih.insertAll [s]
  | merge _ _ ih ihOther => exact ih.merge ihOther

/-- A table assembled so far is assembled with symbols inserted one after another. -/
theorem Assembled.insertAll {t : Table} {L : List Symbol} {parts : List (List Symbol)}
    (h : Assembled t L parts) (M : List Symbol) : Assembled (t.insertAll M) (L ++ M) parts := by
  induction M generalizing t L with
  | nil => simpa [Table.insertAll] using h
  | cons s M ih =>
    have hnext := ih (h.insert s)
    rwa [List.append_assoc] at hnext

/-- The symbols a scope inserts are those of its definitions. -/
theorem ownSymbols_eq (library path : String) (scope : Scope) :
    ownSymbols library path scope = (scope.definitions path).map (Definition.symbol library) := by
  simp only [ownSymbols, Scope.definitions, Scope.types, List.map_append, List.map_map]
  rfl

/-- The symbols of everything that the namespace at a place defines. -/
def symbolsAt (library : String) (place : String × Namespace) : List Symbol :=
  (place.2.definitions place.1).map (Definition.symbol library)

/-- Merging the tables of nested namespaces adds what they define, and as parts what is defined by each
namespace that stands below. -/
theorem Assembled.mergeNested {library : String} (path : String) {nested : List Namespace}
    (hnested : ∀ child ∈ nested, ∀ path : String, Assembled (ofNamespace library path child)
      (symbolsAt library (path, child))
      ((Namespace.locatedOf path child.nested).map (symbolsAt library))) :
    ∀ {t : Table} {L : List Symbol} {parts : List (List Symbol)}, Assembled t L parts →
      Assembled (mergeNested library path t nested)
        (L ++ (Namespace.definitionsOf path nested).map (Definition.symbol library))
        (parts ++ (Namespace.locatedOf path nested).map (symbolsAt library)) := by
  induction nested with
  | nil =>
    intro t L parts h
    simpa [Table.mergeNested, Namespace.definitionsOf, Namespace.locatedOf] using h
  | cons child rest ih =>
    intro t L parts h
    obtain ⟨hchild, hrest⟩ := List.forall_mem_cons.mp hnested
    have hmerged := ih hrest (h.merge (hchild (joined path child.name)))
    obtain ⟨inner, deeper⟩ := child
    rw [Table.mergeNested, Namespace.definitionsOf, Namespace.locatedOf, Namespace.located_eq,
      List.map_append, List.map_append, List.map_cons, ← List.append_assoc, ← List.append_assoc]
    exact hmerged

/-- The table of a namespace is assembled from what the namespace defines, and its parts are what the
namespaces below it define. -/
theorem assembled_ofNamespace (library : String) (ns : Namespace) :
    ∀ path : String, Assembled (ofNamespace library path ns) (symbolsAt library (path, ns))
      ((Namespace.locatedOf path ns.nested).map (symbolsAt library)) := by
  induction ns using Namespace.induction with
  | step scope nested ih =>
    intro path
    have hitself : Assembled ((empty library).insert ⟨path, scope.name, .nameSpace, library⟩)
        [(Namespace.definition path ⟨scope, nested⟩).symbol library] [] :=
      (Assembled.empty library).insert ⟨path, scope.name, .nameSpace, library⟩
    have hall := (hitself.mergeNested path ih).insertAll (ownSymbols library path scope)
    rw [symbolsAt, Namespace.definitions_eq, List.map_cons, Namespace.inside, List.map_append,
      ofNamespace, ← ownSymbols_eq]
    exact hall

/-- The table of a description is assembled from what the description defines, and its parts are what
the namespaces below the top level define. -/
theorem assembled_ofDescription (library : String) (d : Description) :
    Assembled (ofDescription library d) (d.definitions.map (Definition.symbol library))
      ((Namespace.locatedOf "" d.top.nested).map (symbolsAt library)) :=
  assembled_ofNamespace library d.top ""

/-- Inserting symbols keeps the library. -/
theorem library_insertAll (t : Table) (symbols : List Symbol) :
    (t.insertAll symbols).library = t.library := by
  induction symbols generalizing t with
  | nil => rfl
  | cons s rest ih =>
    have hinsert : (t.insert s).library = t.library := by
      unfold insert
      split <;> rfl
    exact (ih (t.insert s)).trans hinsert

/-- Merging nested namespaces keeps the library. -/
theorem library_mergeNested (library path : String) (nested : List Namespace) (t : Table) :
    (mergeNested library path t nested).library = t.library := by
  induction nested generalizing t with
  | nil => rfl
  | cons child rest ih =>
    obtain ⟨scope, deeper⟩ := child
    rw [mergeNested, ih, merge, library_insertAll]

/-- A table is for the library it was built for. -/
theorem library_ofDescription (library : String) (d : Description) :
    (ofDescription library d).library = library := by
  rw [ofDescription]
  obtain ⟨scope, nested⟩ := d.top
  rw [ofNamespace, library_insertAll, library_mergeNested]
  rfl

/-- The table of a description lists what the description defines. -/
theorem lists_ofDescription (library : String) (d : Description) :
    (ofDescription library d).Lists (d.definitions.map (Definition.symbol library)) :=
  (assembled_ofDescription library d).lists

/-! ## Symbols of other libraries -/

/-- A new entry leaves the symbols that are there. -/
theorem get?_insertNew {t : Table} {fqn : String} {s : Symbol} (h : t.get? fqn = some s)
    (other : Symbol) :
    Table.get? { t with symbols := t.symbols.insertNew other.fqn other } fqn = some s := by
  rw [get?, Ordered.Map.get?_eq_some_iff] at h ⊢
  rw [Ordered.Map.entries_insertNew]
  split
  · exact h
  · exact List.mem_append_left _ h

/-- Adopting a symbol keeps what the table has already. -/
theorem get?_adopt {t : Table} {fqn : String} {s : Symbol} (h : t.get? fqn = some s)
    (other : Symbol) : (t.adopt other).get? fqn = some s := by
  unfold adopt
  split
  · split
    · exact h
    · unfold insert
      split
      · exact h
      · exact get?_insertNew h other
  · exact get?_insertNew h other

/-- The symbols of a table stay when those of other libraries are added. -/
theorem get?_withDependencies {t : Table} {fqn : String} {s : Symbol} (h : t.get? fqn = some s)
    (dependencies : List Table) : (t.withDependencies dependencies).get? fqn = some s := by
  have hadopted (symbols : List Symbol) :
      ∀ {t : Table}, t.get? fqn = some s → (symbols.foldl adopt t).get? fqn = some s := by
    induction symbols with
    | nil => exact fun h => h
    | cons other rest ih => exact fun h => ih (get?_adopt h other)
  induction dependencies generalizing t with
  | nil => exact h
  | cons dependency rest ih => exact ih (hadopted dependency.toList h)

/-- Dependencies take no dotted name away. -/
theorem contains_withDependencies {t : Table} {fqn : String} (h : t.contains fqn)
    (dependencies : List Table) : (t.withDependencies dependencies).contains fqn := by
  obtain ⟨s, hs⟩ := Option.isSome_iff_exists.mp h
  exact Option.isSome_iff_exists.mpr ⟨s, get?_withDependencies hs dependencies⟩

end Table

end Ambient.Symbol
