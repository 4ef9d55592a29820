import Ambient.Proofs.Symbol.Overlaps

/-!
# Tables extended by those of other libraries

Whatever a table has stays when the symbols of other libraries are added, and behind it come those
whose dotted names are new, the first of each. Every other symbol that is added meets the one that the
table then has and keeps; that is recorded, in the order in which they are added, unless both are
namespaces.
-/

namespace Ambient.Symbol

open Api

/-! ## Overlaps without the table -/

/-- Which symbols are repeats depends only on which dotted names have come before. -/
theorem repeats_congr {seen other : List String} (h : ∀ fqn, fqn ∈ seen ↔ fqn ∈ other)
    (L : List Symbol) : repeats seen L = repeats other L := by
  induction L generalizing seen other with
  | nil => rfl
  | cons s rest ih =>
    have hnext (fqn : String) : fqn ∈ s.fqn :: seen ↔ fqn ∈ s.fqn :: other := by
      rw [List.mem_cons, List.mem_cons, h]
    rw [repeats, repeats, ih h, ih hnext]
    exact if_congr (h s.fqn) rfl rfl

/-- What is recorded of symbols that are added is recorded of the repeats among them: of each, what
it meets is what comes first of all under its dotted name. -/
theorem overlaps_eq_flatMap (rest : List Symbol) : ∀ met : List Symbol,
    overlaps met rest = (repeats (met.map Symbol.fqn) rest).flatMap fun s =>
      overlap ((met ++ rest).find? fun other => other.fqn == s.fqn) s := by
  induction rest with
  | nil => exact fun _ => rfl
  | cons s rest ih =>
    intro met
    have hsplit : met ++ [s] ++ rest = met ++ s :: rest := List.append_assoc ..
    have hseen (fqn : String) :
        fqn ∈ (met ++ [s]).map Symbol.fqn ↔ fqn ∈ s.fqn :: met.map Symbol.fqn := by
      simp [or_comm]
    rw [overlaps, ih, hsplit, repeats, repeats_congr hseen]
    by_cases hmet : s.fqn ∈ met.map Symbol.fqn
    · have hsame (fqn : String) :
          fqn ∈ s.fqn :: met.map Symbol.fqn ↔ fqn ∈ met.map Symbol.fqn := by
        rw [List.mem_cons, or_iff_right_of_imp fun h => h ▸ hmet]
      obtain ⟨kept, hkept⟩ : ∃ kept, (met.find? fun other => other.fqn == s.fqn) = some kept := by
        obtain ⟨other, hother, hfqn⟩ := List.mem_map.mp hmet
        exact Option.isSome_iff_exists.mp
          (List.find?_isSome.mpr ⟨other, hother, beq_iff_eq.mpr hfqn⟩)
      rw [if_pos hmet, List.flatMap_cons, repeats_congr hsame, List.find?_append, hkept,
        Option.some_or]
    · have hnone : (met.find? fun other => other.fqn == s.fqn) = none := by
        rw [List.find?_eq_none]
        exact fun other hother hfqn =>
          hmet (beq_iff_eq.mp hfqn ▸ List.mem_map_of_mem (f := Symbol.fqn) hother)
      rw [if_neg hmet, hnone, overlap, List.nil_append]

namespace Table

variable {t other : Table} {s : Symbol} {dependencies : List Table}

/-! ## Symbols under their own names -/

/-- A table has its symbols under their own dotted names. -/
def Keyed (t : Table) : Prop := t.symbols.entries = t.toList.map fun s => (s.fqn, s)

namespace Keyed

/-- Under a dotted name the table has the first of its symbols that is named so. -/
theorem get?_eq_find? (h : t.Keyed) (fqn : String) :
    t.get? fqn = t.toList.find? fun s => s.fqn == fqn := by
  rw [get?, Ordered.Map.get?, h, lookup_map_fqn]

/-- The keys of the table are the dotted names of its symbols. -/
theorem keys_eq (h : t.Keyed) : t.symbols.keys = t.toList.map Symbol.fqn := by
  rw [Ordered.Map.keys, h, List.map_map]
  rfl

/-- A new entry under the symbol's own dotted name keeps a table as it should be. -/
theorem insertNew (h : t.Keyed) (s : Symbol) :
    Keyed { t with symbols := t.symbols.insertNew s.fqn s } := by
  rw [Keyed, toList, Ordered.Map.values, Ordered.Map.entries_insertNew]
  split
  · exact h
  · rw [List.map_append, List.map_append]
    exact congrArg (· ++ [(s.fqn, s)]) h

/-- Inserting a symbol keeps symbols under their own names. -/
theorem insert (h : t.Keyed) (s : Symbol) : (t.insert s).Keyed := by
  unfold Table.insert
  split
  · exact h
  · exact h.insertNew s

/-- Adopting a symbol keeps symbols under their own names. -/
theorem adopt (h : t.Keyed) (s : Symbol) : (t.adopt s).Keyed := by
  unfold Table.adopt
  split
  · split
    · exact h
    · exact h.insert s
  · exact h.insertNew s

/-- Inserting symbols keeps symbols under their own names. -/
theorem insertAll (h : t.Keyed) (symbols : List Symbol) : (t.insertAll symbols).Keyed := by
  induction symbols generalizing t with
  | nil => exact h
  | cons s rest ih => exact ih (h.insert s)

/-- Merging another table keeps symbols under their own names. -/
theorem merge (h : t.Keyed) (other : Table) : (t.merge other).Keyed :=
  insertAll (t := { t with collisions := t.collisions ++ other.collisions }) h other.toList

/-- Adding dependencies keeps symbols under their own names. -/
theorem withDependencies (h : t.Keyed) (dependencies : List Table) :
    (t.withDependencies dependencies).Keyed := by
  rw [withDependencies_eq]
  generalize dependencies.flatMap toList = symbols
  induction symbols generalizing t with
  | nil => exact h
  | cons s rest ih => exact ih (h.adopt s)

end Keyed

/-- A table is made from an empty one by defining symbols, merging tables of the same library and
adding those of others. -/
inductive Made : Table → Prop
  | empty (library : String) : Made (empty library)
  | insert {t : Table} : Made t → ∀ s : Symbol, Made (t.insert s)
  | merge {t other : Table} : Made t → Made other → Made (t.merge other)
  | withDependencies {t : Table} {dependencies : List Table} : Made t →
      (∀ dependency ∈ dependencies, Made dependency) → Made (t.withDependencies dependencies)

/-- Tables that are made have their symbols under their own names. -/
theorem Made.keyed (h : t.Made) : t.Keyed := by
  induction h with
  | empty library => exact rfl
  | insert _ s ih => exact ih.insert s
  | merge _ _ ih _ => exact ih.merge _
  | withDependencies _ _ ih _ => exact ih.withDependencies _

/-- Tables that are assembled are made. -/
theorem Assembled.made {L : List Symbol} {parts : List (List Symbol)} (h : Assembled t L parts) :
    t.Made := by
  induction h with
  | empty library => exact .empty library
  | insert _ s ih => exact ih.insert s
  | merge _ _ ih ihOther => exact ih.merge ihOther

/-- The table of a description is made. -/
theorem made_ofDescription (library : String) (d : Description) : (ofDescription library d).Made :=
  (assembled_ofDescription library d).made

/-! ## Lists of tables -/

/-- The first table that has a dotted name has the first symbol of all with that name. -/
theorem findSome?_get?_eq (h : ∀ u ∈ dependencies, u.Keyed) (fqn : String) :
    (dependencies.findSome? fun u => u.get? fqn)
      = (dependencies.flatMap toList).find? fun s => s.fqn == fqn := by
  induction dependencies with
  | nil => rfl
  | cons u rest ih =>
    obtain ⟨hu, hrest⟩ := List.forall_mem_cons.mp h
    rw [List.findSome?_cons, ih hrest, List.flatMap_cons, List.find?_append, hu.get?_eq_find?]
    cases u.toList.find? fun s => s.fqn == fqn <;> rfl

/-- The keys of several tables are the dotted names of all their symbols. -/
theorem flatMap_keys_eq (h : ∀ u ∈ dependencies, u.Keyed) :
    (dependencies.flatMap fun u => u.symbols.keys)
      = (dependencies.flatMap toList).map Symbol.fqn := by
  rw [List.map_flatMap]
  exact List.flatMap_congr fun u hu => (h u hu).keys_eq

/-! ## Keys -/

/-- Adopting a symbol adds its dotted name at the end, if it is new. -/
theorem keys_adopt (t : Table) (s : Symbol) :
    (t.adopt s).symbols.keys =
      if s.fqn ∈ t.symbols.keys then t.symbols.keys else t.symbols.keys ++ [s.fqn] := by
  cases hget : t.get? s.fqn with
  | none =>
    have hnew := not_mem_keys_of_get? hget
    simp only [adopt, hget]
    rw [Ordered.Map.keys, Ordered.Map.entries_insertNew, if_neg hnew, if_neg hnew, List.map_append]
    rfl
  | some kept =>
    have hkey : s.fqn ∈ t.symbols.keys := by
      rw [← Ordered.Map.isSome_get?_iff, ← get?, hget]
      rfl
    rw [if_pos hkey]
    simp only [adopt, Table.insert, hget]
    split <;> rfl

/-- Behind the keys of a table come the new ones of the symbols that are added, each where it comes
first. -/
theorem keys_foldl_adopt (symbols : List Symbol) : ∀ t : Table,
    (symbols.foldl adopt t).symbols.keys = t.symbols.keys
      ++ ((firsts symbols).filter fun s => s.fqn ∉ t.symbols.keys).map Symbol.fqn := by
  induction symbols with
  | nil => exact fun t => (List.append_nil _).symm
  | cons s rest ih =>
    intro t
    rw [List.foldl_cons, ih, keys_adopt, filter_firsts_cons]
    split
    · rfl
    · have hbehind : ((firsts rest).filter fun other => other.fqn ∉ t.symbols.keys ++ [s.fqn])
          = (firsts rest).filter fun other => other.fqn ∉ s.fqn :: t.symbols.keys :=
        List.filter_congr fun other _ => by simp [Bool.and_comm]
      rw [hbehind, List.map_cons, List.append_assoc, List.singleton_append]

/-! ## Merging -/

/-- However tables are made, extending one by others keeps its symbols in front, and behind them adds
the first symbol of every dotted name that is new. What is recorded is what was recorded in that table
before, and then each added symbol, in order, that meets one which is there before it: with the kind
of the one that the table has in the end, its own kind and its library, unless both are
namespaces. -/
theorem withDependencies_accounts (ht : t.Made) (hdependencies : ∀ u ∈ dependencies, u.Made) :
    let merged := t.withDependencies dependencies
    (∀ fqn, merged.get? fqn =
      (t.get? fqn).or (dependencies.findSome? fun dependency => dependency.get? fqn)) ∧
    merged.symbols.keys = t.symbols.keys
      ++ (dependencies.flatMap fun dependency => dependency.symbols.keys).eraseDups.filter
        (· ∉ t.symbols.keys) ∧
    merged.collisions = t.collisions
      ++ (repeats t.symbols.keys (dependencies.flatMap toList)).flatMap fun s =>
        overlap (merged.get? s.fqn) s := by
  intro merged
  let added := dependencies.flatMap toList
  have hmerged : merged = added.foldl adopt t := withDependencies_eq t dependencies
  have hkeyed : ∀ u ∈ dependencies, u.Keyed := fun u hu => (hdependencies u hu).keyed
  obtain ⟨hcollisions, hget⟩ := foldl_adopt added ht.keyed.get?_eq_find?
  rw [← hmerged] at hcollisions hget
  refine ⟨fun fqn => ?_, ?_, ?_⟩
  · rw [hget, List.find?_append, ht.keyed.get?_eq_find?, findSome?_get?_eq hkeyed]
  · rw [hmerged, keys_foldl_adopt, flatMap_keys_eq hkeyed, ← map_firsts, List.filter_map]
    rfl
  · rw [hcollisions, overlaps_eq_flatMap, ht.keyed.keys_eq]
    exact congrArg _ (List.flatMap_congr fun s _ => by rw [hget])

/-- A library with a class. -/
def ownTable : Table :=
  ofDescription "sap.m" (.ofTop (.plain "" [] [.plain "sap" [] [.plain "m" [.plain "Button"] []]]))

/-- A library that shares a namespace with that one, has an interface of the same name as the class,
and a class of its own. -/
def coreTable : Table :=
  (empty "sap.ui.core").insertAll
    [⟨"sap", "sap", .nameSpace, "sap.ui.core"⟩,
      ⟨"sap.m.Button", "Button", .interfaceType, "sap.ui.core"⟩,
      ⟨"sap.ui.core.Control", "Control", .classType, "sap.ui.core"⟩]

/-- A library with an enum of the same name as that class. -/
def layoutTable : Table :=
  (empty "sap.ui.layout").insert ⟨"sap.ui.core.Control", "Control", .enumType, "sap.ui.layout"⟩

/-- Of two libraries that overlap with a table, the first one's new symbols are added, and both
repeats are recorded. -/
theorem withDependencies_accounts_overlapping :
    let merged := ownTable.withDependencies [coreTable, layoutTable]
    (merged.get? "sap.m.Button").map Symbol.kind = some .classType ∧
      (merged.get? "sap.ui.core.Control").map Symbol.library = some "sap.ui.core" ∧
      merged.symbols.keys = ["", "sap", "sap.m", "sap.m.Button", "sap.ui.core.Control"] ∧
      merged.collisions = [⟨"sap.m.Button", .classType, .interfaceType, "sap.ui.core"⟩,
        ⟨"sap.ui.core.Control", .classType, .enumType, "sap.ui.layout"⟩] := by
  have hown : ownTable.Made := made_ofDescription _ _
  have hothers : ∀ u ∈ [coreTable, layoutTable], u.Made := by
    rintro u (_ | ⟨_, _ | ⟨_, ⟨⟩⟩⟩)
    · exact ((Assembled.empty _).insertAll _).made
    · exact (Made.empty _).insert _
  obtain ⟨hget, hkeys, hcollisions⟩ := withDependencies_accounts hown hothers
  refine ⟨?_, ?_, hkeys.trans (by decide), hcollisions.trans (by decide)⟩
  · rw [hget]
    decide
  · rw [hget]
    decide

end Table

end Ambient.Symbol
