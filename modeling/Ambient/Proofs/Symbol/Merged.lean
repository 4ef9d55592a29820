import Ambient.Library
import Ambient.Proofs.Symbol.FirstWins

/-!
# Merged tables

The table that a library is emitted with has its own symbols and, under dotted names that it does
not have itself, those that the libraries it depends on let others see. Whatever the table has comes
from one of them, and its library says from which.
-/

namespace Ambient

open Api

namespace Symbol.Table

variable {t : Table} {fqn : String} {s : Symbol}

/-- What a table has after a symbol of another library was added was there, or is that symbol. -/
theorem of_get?_adopt {other : Symbol} (h : (t.adopt other).get? fqn = some s) :
    t.get? fqn = some s ∨ (other.fqn = fqn ∧ other = s) := by
  have hnew
      (h : Table.get? { t with symbols := t.symbols.insertNew other.fqn other } fqn = some s) :
      t.get? fqn = some s ∨ (other.fqn = fqn ∧ other = s) := by
    rw [get?, Ordered.Map.get?_eq_some_iff, Ordered.Map.entries_insertNew] at h
    rw [get?, Ordered.Map.get?_eq_some_iff]
    split at h
    · exact .inl h
    · obtain h | h := List.mem_append.mp h
      · exact .inl h
      · obtain ⟨hfqn, hs⟩ := Prod.mk.inj (List.mem_singleton.mp h)
        exact .inr ⟨hfqn.symm, hs.symm⟩
  unfold adopt at h
  split at h
  · split at h
    · exact .inl h
    · unfold insert at h
      split at h
      · exact .inl h
      · exact hnew h
  · exact hnew h

/-- What a table has after those of other libraries were added was there, or is in one of them. -/
theorem of_get?_withDependencies {dependencies : List Table}
    (h : (t.withDependencies dependencies).get? fqn = some s) :
    t.get? fqn = some s ∨ ∃ dependency ∈ dependencies, s ∈ dependency.toList ∧ s.fqn = fqn := by
  have hadopted (symbols : List Symbol) : ∀ {t : Table},
      (symbols.foldl adopt t).get? fqn = some s →
        t.get? fqn = some s ∨ (s ∈ symbols ∧ s.fqn = fqn) := by
    induction symbols with
    | nil => exact fun h => .inl h
    | cons other rest ih =>
      intro t h
      obtain h | ⟨hmem, hfqn⟩ := ih h
      · obtain h | ⟨hfqn, rfl⟩ := of_get?_adopt h
        · exact .inl h
        · exact .inr ⟨List.mem_cons_self, hfqn⟩
      · exact .inr ⟨List.mem_cons_of_mem _ hmem, hfqn⟩
  induction dependencies generalizing t with
  | nil => exact .inl h
  | cons dependency rest ih =>
    obtain h | ⟨other, hother, hmem⟩ := ih h
    · obtain h | hmem := hadopted dependency.toList h
      · exact .inl h
      · exact .inr ⟨dependency, List.mem_cons_self, hmem⟩
    · exact .inr ⟨other, List.mem_cons_of_mem _ hother, hmem⟩

/-- A symbol of another library is added under its dotted name if the table has none there. -/
theorem get?_adopt_of_none (h : t.get? fqn = none) (other : Symbol) :
    (t.adopt other).get? fqn = if other.fqn = fqn then some other else none := by
  split
  · next hfqn =>
    subst hfqn
    have hnew : other.fqn ∉ t.symbols.keys := by
      have hnone : t.symbols.get? other.fqn = none := h
      simp [← Ordered.Map.isSome_get?_iff, hnone]
    simp only [adopt, h]
    rw [get?, Ordered.Map.get?_eq_some_iff, Ordered.Map.entries_insertNew, if_neg hnew]
    exact List.mem_append_right _ List.mem_cons_self
  · next hfqn =>
    refine Option.eq_none_iff_forall_ne_some.mpr fun s hs => ?_
    obtain hs | ⟨hsame, _⟩ := of_get?_adopt hs
    · rw [h] at hs
      cases hs
    · exact hfqn hsame

/-- Tables that have the same under a dotted name still do after adopting one symbol. -/
theorem get?_adopt_congr {u : Table} (h : t.get? fqn = u.get? fqn) (other : Symbol) :
    (t.adopt other).get? fqn = (u.adopt other).get? fqn := by
  cases hu : u.get? fqn with
  | some kept => rw [get?_adopt hu, get?_adopt (h.trans hu)]
  | none => rw [get?_adopt_of_none hu, get?_adopt_of_none (h.trans hu)]

/-- Tables that have the same under a dotted name have the same there after those of other libraries
were added. -/
theorem get?_withDependencies_congr {u : Table} (h : t.get? fqn = u.get? fqn)
    (dependencies : List Table) :
    (t.withDependencies dependencies).get? fqn = (u.withDependencies dependencies).get? fqn := by
  have hadopted (symbols : List Symbol) : ∀ {t u : Table}, t.get? fqn = u.get? fqn →
      (symbols.foldl adopt t).get? fqn = (symbols.foldl adopt u).get? fqn := by
    induction symbols with
    | nil => exact fun h => h
    | cons other rest ih => exact fun h => ih (get?_adopt_congr h other)
  induction dependencies generalizing t u with
  | nil => exact h
  | cons dependency rest ih => exact ih (hadopted dependency.toList h)

/-- A table has its symbols under their own dotted names. -/
theorem Lists.get?_of_mem_toList {L : List Symbol} (h : t.Lists L) (hs : s ∈ t.toList) :
    t.get? s.fqn = some s := by
  rw [toList_of_entries h.entries] at hs
  rw [get?, Ordered.Map.get?_eq_some_iff, h.entries]
  exact List.mem_map.mpr ⟨s, hs, rfl⟩

/-- What the table of a description has is the symbol of one of its definitions. -/
theorem exists_definition_of_get? {library : String} {d : Description}
    (h : (ofDescription library d).get? fqn = some s) :
    ∃ x ∈ d.definitions, x.path = fqn ∧ x.symbol library = s := by
  rw [(lists_ofDescription library d).get?_eq_find?] at h
  have hfqn : s.fqn = fqn := by simpa using List.find?_some h
  obtain ⟨x, hx, rfl⟩ := List.mem_map.mp (List.mem_of_find?_eq_some h)
  exact ⟨x, hx, hfqn, rfl⟩

end Symbol.Table

namespace Library

variable {primary : Library} {dependencies : List Library} {isStrict : Bool} {fqn : String}
  {s : Symbol}

/-- A symbol is found under its own dotted name. -/
theorem fqn_of_get?
    (h : (primary.table.withDependencies (dependencies.map visibleTable)).get? fqn = some s) :
    s.fqn = fqn := by
  obtain hown | ⟨_, _, _, hfqn⟩ := Symbol.Table.of_get?_withDependencies h
  · obtain ⟨x, _, hpath, rfl⟩ := Symbol.Table.exists_definition_of_get? hown
    exact hpath
  · exact hfqn

/-- A symbol that belongs to another library is one that a library depended on lets others see. -/
theorem exists_dependency
    (h : (primary.table.withDependencies (dependencies.map visibleTable)).get? fqn = some s)
    (hforeign : s.library ≠ primary.name) :
    fqn ≠ "" ∧ ∃ dependency ∈ dependencies, dependency.name = s.library ∧
      dependency.visibleTable.get? fqn = some s := by
  constructor
  · -- Under the empty name a table has the top level of its own library.
    rintro rfl
    have hcontains : primary.table.contains "" = true :=
      (Symbol.Table.lists_ofDescription _ _).contains_iff.mpr
        (List.mem_map_of_mem (List.mem_map_of_mem (Namespace.mem_definitions.mpr (.inl rfl))))
    obtain ⟨own, hown⟩ := Option.isSome_iff_exists.mp hcontains
    obtain ⟨x, _, _, rfl⟩ := Symbol.Table.exists_definition_of_get? hown
    rw [Symbol.Table.get?_withDependencies hown, Option.some.injEq] at h
    exact hforeign (h ▸ rfl)
  · obtain hown | ⟨table, htable, hmem, rfl⟩ := Symbol.Table.of_get?_withDependencies h
    · obtain ⟨x, _, _, rfl⟩ := Symbol.Table.exists_definition_of_get? hown
      exact absurd rfl hforeign
    · obtain ⟨dependency, hdependency, rfl⟩ := List.mem_map.mp htable
      have hget := (Symbol.Table.lists_ofDescription dependency.name
        dependency.description.visible).get?_of_mem_toList hmem
      obtain ⟨x, _, _, hsymbol⟩ := Symbol.Table.exists_definition_of_get? hget
      exact ⟨dependency, hdependency, congrArg Symbol.library hsymbol, hget⟩

end Library

end Ambient
