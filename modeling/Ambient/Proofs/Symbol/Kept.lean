import Mathlib.Data.List.Nodup
import Ambient.Proofs.Api.Validity
import Ambient.Proofs.Symbol.FirstWins

/-!
# What collisions say was kept

A collision is recorded where a symbol is dropped, with the kind of the one that is kept there. If the
table is merged into another one afterwards, that may drop what was kept, while the record stays as it
is. So a collision tells the kind of the first symbol in one of the parts that a table was assembled
from, and all of them tell the truth exactly if that is always the kind of the symbol which the table
has in the end.
-/

namespace Ambient.Symbol

open Api

/-! ## Repeated names -/

/-- The kind of the first symbol with a dotted name. -/
def firstKind (L : List Symbol) (fqn : String) : Option Kind :=
  (L.find? fun s => s.fqn == fqn).map Symbol.kind

/-- How often a dotted name comes in a list. -/
def occurrences (L : List Symbol) (fqn : String) : Nat := (L.map Symbol.fqn).count fqn

/-- A dotted name comes more than once, and first with a symbol of a kind. -/
def Clashes (L : List Symbol) (fqn : String) (kind : Kind) : Prop :=
  1 < occurrences L fqn ∧ firstKind L fqn = some kind

/-- Whether a name clashes is decided by counting. -/
instance (L : List Symbol) (fqn : String) (kind : Kind) : Decidable (Clashes L fqn kind) :=
  inferInstanceAs (Decidable (1 < occurrences L fqn ∧ firstKind L fqn = some kind))

variable {L M : List Symbol} {fqn : String} {kind : Kind}

/-- In two lists together a dotted name comes as often as in the one and in the other. -/
theorem occurrences_append (L M : List Symbol) (fqn : String) :
    occurrences (L ++ M) fqn = occurrences L fqn + occurrences M fqn := by
  rw [occurrences, List.map_append, List.count_append]
  rfl

/-- A dotted name comes at all exactly if a symbol of the list has it. -/
theorem occurrences_pos_iff : 0 < occurrences L fqn ↔ fqn ∈ L.map Symbol.fqn :=
  List.count_pos_iff

/-- Among first symbols a dotted name comes once, if it comes at all. -/
theorem occurrences_firsts_eq_min (L : List Symbol) (fqn : String) :
    occurrences (firsts L) fqn = min 1 (occurrences L fqn) := by
  have hpos : 0 < occurrences (firsts L) fqn ↔ 0 < occurrences L fqn := by
    rw [occurrences_pos_iff, occurrences_pos_iff, mem_map_firsts]
  have hone : occurrences (firsts L) fqn ≤ 1 := List.nodup_iff_count_le_one.mp (nodup_firsts L) fqn
  omega

/-- The first symbol with a dotted name in two lists is that of the first list, or else that of the
second. -/
theorem firstKind_append (L M : List Symbol) (fqn : String) :
    firstKind (L ++ M) fqn = (firstKind L fqn).or (firstKind M fqn) := by
  rw [firstKind, List.find?_append, Option.map_or]
  rfl

/-- Among the first symbols each dotted name keeps the kind that came first. -/
theorem firstKind_firsts (L : List Symbol) (fqn : String) :
    firstKind (firsts L) fqn = firstKind L fqn := by
  rw [firstKind, find?_firsts, firstKind]

/-- A dotted name has no first kind exactly if it never comes. -/
theorem firstKind_eq_none_iff : firstKind L fqn = none ↔ occurrences L fqn = 0 := by
  rw [firstKind, Option.map_eq_none_iff, List.find?_eq_none, occurrences, List.count_eq_zero]
  simp

/-- What clashes in a list still does if others come behind it; otherwise it clashes through one of
these. -/
theorem clashes_append_iff :
    Clashes (L ++ M) fqn kind ↔
      Clashes L fqn kind ∨ (0 < occurrences M fqn ∧ Clashes (L ++ M) fqn kind) := by
  rw [Clashes, Clashes, occurrences_append, firstKind_append]
  constructor
  · rintro ⟨htwice, hkind⟩
    by_cases hM : 0 < occurrences M fqn
    · exact .inr ⟨hM, htwice, hkind⟩
    · have hnone : firstKind M fqn = none := firstKind_eq_none_iff.mpr (by omega)
      rw [hnone, Option.or_none] at hkind
      exact .inl ⟨by omega, hkind⟩
  · rintro (⟨htwice, hkind⟩ | ⟨_, hboth⟩)
    · exact ⟨by omega, by rw [hkind, Option.some_or]⟩
    · exact hboth

/-- A symbol that comes last clashes with what comes first under its dotted name. -/
theorem clashes_concat_iff {s : Symbol} :
    Clashes (L ++ [s]) s.fqn kind ↔ firstKind L s.fqn = some kind := by
  have hone : occurrences [s] s.fqn = 1 := List.count_singleton_self
  rw [Clashes, occurrences_append, firstKind_append, hone]
  by_cases hnone : occurrences L s.fqn = 0
  · simp [hnone, firstKind_eq_none_iff.mpr hnone]
  · obtain ⟨first, hfirst⟩ := Option.ne_none_iff_exists'.mp fun h =>
      hnone (firstKind_eq_none_iff.mp h)
    rw [hfirst, Option.some_or]
    exact and_iff_right (by omega)

/-- Two lists clash with each other as the first one does with what comes first in the second, apart
from what clashes within one of them. -/
theorem clashes_append_firsts_iff :
    Clashes L fqn kind ∨ Clashes M fqn kind ∨
        (0 < occurrences (firsts M) fqn ∧ Clashes (L ++ firsts M) fqn kind) ↔
      Clashes (L ++ M) fqn kind ∨ Clashes M fqn kind := by
  have hfirsts := occurrences_firsts_eq_min M fqn
  have hsame : firstKind (L ++ firsts M) fqn = firstKind (L ++ M) fqn := by
    rw [firstKind_append, firstKind_append, firstKind_firsts]
  constructor
  · rintro (hL | hM | ⟨_, htwice, hkind⟩)
    · exact .inl (clashes_append_iff.mpr (.inl hL))
    · exact .inr hM
    · rw [occurrences_append] at htwice
      exact .inl ⟨by rw [occurrences_append]; omega, hsame ▸ hkind⟩
  · rintro (hboth | hM)
    · obtain hL | ⟨hM, htwice, hkind⟩ := clashes_append_iff.mp hboth
      · exact .inl hL
      · rw [occurrences_append] at htwice
        by_cases hnone : occurrences L fqn = 0
        · -- All of them are in the second list, and so is the first one.
          rw [firstKind_append, firstKind_eq_none_iff.mpr hnone, Option.none_or] at hkind
          exact .inr (.inl ⟨by omega, hkind⟩)
        · exact .inr (.inr ⟨by omega, by rw [occurrences_append]; omega, hsame.trans hkind⟩)
    · exact .inr (.inl hM)

namespace Table

variable {t other : Table} {parts : List (List Symbol)}

/-! ## Collisions of assembled tables -/

/-- A collision of a table says that a symbol of a kind was kept under a dotted name. -/
def SaysKept (t : Table) (fqn : String) (kind : Kind) : Prop :=
  ∃ c ∈ t.collisions, c.fqn = fqn ∧ c.kept = kind

/-- The collisions of a table tell the truth: under the dotted name of each, the table has a symbol of
the kind that is said to have been kept. -/
def Truthful (t : Table) : Prop :=
  ∀ c ∈ t.collisions, (t.get? c.fqn).map Symbol.kind = some c.kept

/-- A table agrees with a list: under every dotted name that comes more than once in the list, it has
a symbol of the kind that comes first there. -/
def Agrees (t : Table) (M : List Symbol) : Prop :=
  ∀ s ∈ M, 1 < occurrences M s.fqn → (t.get? s.fqn).map Symbol.kind = firstKind M s.fqn

/-- Whether a table is truthful is decided by looking up its collisions. -/
instance (t : Table) : Decidable t.Truthful :=
  inferInstanceAs (Decidable (∀ c ∈ t.collisions, (t.get? c.fqn).map Symbol.kind = some c.kept))

/-- Whether a table agrees with a list is decided by looking up the symbols of the list. -/
instance (t : Table) (M : List Symbol) : Decidable (t.Agrees M) :=
  inferInstanceAs (Decidable (∀ s ∈ M, 1 < occurrences M s.fqn →
    (t.get? s.fqn).map Symbol.kind = firstKind M s.fqn))

/-- The kind under a dotted name is that of the first symbol that is listed with it. -/
theorem firstKind_of_entries (h : t.symbols.entries = (firsts L).map fun s => (s.fqn, s))
    (fqn : String) : (t.get? fqn).map Symbol.kind = firstKind L fqn := by
  rw [get?_of_entries h, firstKind]

/-- Defining a symbol adds a collision if it clashes with what is there. -/
theorem saysKept_insert_iff (h : t.symbols.entries = (firsts L).map fun s => (s.fqn, s))
    (s : Symbol) :
    (t.insert s).SaysKept fqn kind ↔
      t.SaysKept fqn kind ∨ (s.fqn = fqn ∧ Clashes (L ++ [s]) fqn kind) := by
  have hkind := firstKind_of_entries h s.fqn
  unfold Table.insert
  cases hget : t.get? s.fqn with
  | none =>
    refine (or_iff_left ?_).symm
    rintro ⟨rfl, hclashes⟩
    rw [clashes_concat_iff, ← hkind, hget] at hclashes
    cases hclashes
  | some kept =>
    simp only [SaysKept, List.mem_append, List.mem_singleton, or_and_right, exists_or,
      exists_eq_left]
    refine or_congr_right (and_congr_right ?_)
    rintro rfl
    rw [clashes_concat_iff, ← hkind, hget]
    exact (Option.some_inj).symm

/-- Defining several symbols adds what clashes through one of them. -/
theorem saysKept_insertAll_iff (h : t.symbols.entries = (firsts L).map fun s => (s.fqn, s)) :
    (t.insertAll M).SaysKept fqn kind ↔
      t.SaysKept fqn kind ∨ (0 < occurrences M fqn ∧ Clashes (L ++ M) fqn kind) := by
  induction M generalizing t L with
  | nil => simp [Table.insertAll, occurrences]
  | cons s rest ih =>
    have hnext := ih (entries_insert h s)
    have hstep : 0 < occurrences (s :: rest) fqn ↔ s.fqn = fqn ∨ 0 < occurrences rest fqn := by
      rw [occurrences_pos_iff, occurrences_pos_iff, List.map_cons, List.mem_cons, eq_comm]
    have hsplit : L ++ [s] ++ rest = L ++ s :: rest := List.append_assoc ..
    have hclashes : Clashes (L ++ s :: rest) fqn kind ↔ Clashes (L ++ [s]) fqn kind ∨
        (0 < occurrences rest fqn ∧ Clashes (L ++ s :: rest) fqn kind) :=
      hsplit ▸ clashes_append_iff
    rw [saysKept_insert_iff h, hsplit, or_assoc] at hnext
    rw [hstep]
    refine hnext.trans (or_congr_right ?_)
    constructor
    · rintro (⟨hs, hfirst⟩ | ⟨hrest, hall⟩)
      · exact ⟨.inl hs, hclashes.mpr (.inl hfirst)⟩
      · exact ⟨.inr hrest, hall⟩
    · rintro ⟨hs | hrest, hall⟩
      · exact (hclashes.mp hall).imp_left fun hfirst => ⟨hs, hfirst⟩
      · exact .inr ⟨hrest, hall⟩

/-- A merged table carries the collisions of both, and adds what clashes between them. -/
theorem saysKept_merge_iff (h : t.symbols.entries = (firsts L).map fun s => (s.fqn, s))
    (hother : other.symbols.entries = (firsts M).map fun s => (s.fqn, s)) :
    (t.merge other).SaysKept fqn kind ↔ (t.SaysKept fqn kind ∨ other.SaysKept fqn kind) ∨
      (0 < occurrences (firsts M) fqn ∧ Clashes (L ++ firsts M) fqn kind) := by
  let carrying : Table := { t with collisions := t.collisions ++ other.collisions }
  have hcarried : carrying.SaysKept fqn kind ↔ t.SaysKept fqn kind ∨ other.SaysKept fqn kind := by
    simp only [carrying, SaysKept, List.mem_append, or_and_right, exists_or]
  rw [merge, toList_of_entries hother, ← hcarried]
  exact saysKept_insertAll_iff (t := carrying) h

/-- The collisions of an assembled table tell of everything that clashes in its list or in one of
its parts. -/
theorem Assembled.saysKept_iff (h : Assembled t L parts) :
    t.SaysKept fqn kind ↔ ∃ M ∈ L :: parts, Clashes M fqn kind := by
  induction h with
  | empty library => simp [SaysKept, Table.empty, Clashes, occurrences]
  | @insert t L parts h s ih =>
    have hadded : (t.insert s).SaysKept fqn kind ↔ t.SaysKept fqn kind ∨
        (0 < occurrences [s] fqn ∧ Clashes (L ++ [s]) fqn kind) :=
      saysKept_insertAll_iff (M := [s]) h.lists.entries
    rw [hadded, ih, List.exists_mem_cons_iff, List.exists_mem_cons_iff, or_right_comm,
      ← clashes_append_iff]
  | @merge t other L M parts inner h hother ih ihOther =>
    have hparts : (∃ N ∈ parts ++ M :: inner, Clashes N fqn kind) ↔
        (∃ N ∈ parts, Clashes N fqn kind) ∨ Clashes M fqn kind ∨
          ∃ N ∈ inner, Clashes N fqn kind := by
      simp only [List.mem_append, List.mem_cons, or_and_right, exists_or, exists_eq_left]
    rw [saysKept_merge_iff h.lists.entries hother.lists.entries, ih, ihOther,
      List.exists_mem_cons_iff, List.exists_mem_cons_iff, List.exists_mem_cons_iff, hparts]
    -- What clashes in both lists together, or in the second, is told in three places.
    have hclashes : Clashes L fqn kind ∨ Clashes M fqn kind ∨
          (0 < occurrences (firsts M) fqn ∧ Clashes (L ++ firsts M) fqn kind) ↔
        Clashes (L ++ M) fqn kind ∨ Clashes M fqn kind := clashes_append_firsts_iff
    constructor
    · rintro (((hL | hearly) | hM | hlate) | hboth)
      · exact (hclashes.mp (.inl hL)).imp_right fun hM => .inr (.inl hM)
      · exact .inr (.inl hearly)
      · exact .inr (.inr (.inl hM))
      · exact .inr (.inr (.inr hlate))
      · exact (hclashes.mp (.inr (.inr hboth))).imp_right fun hM => .inr (.inl hM)
    · rintro (hall | hearly | hM | hlate)
      · obtain hL | hM | hboth := hclashes.mpr (.inl hall)
        · exact .inl (.inl (.inl hL))
        · exact .inl (.inr (.inl hM))
        · exact .inr hboth
      · exact .inl (.inl (.inr hearly))
      · exact .inl (.inr (.inl hM))
      · exact .inl (.inr (.inr hlate))

/-! ## The truth of collisions -/

/-- A table is truthful exactly if all that its collisions say was kept is what it has. -/
theorem truthful_iff_saysKept :
    t.Truthful ↔
      ∀ fqn kind, t.SaysKept fqn kind → (t.get? fqn).map Symbol.kind = some kind := by
  constructor
  · rintro h _ _ ⟨c, hc, rfl, rfl⟩
    exact h c hc
  · exact fun h c hc => h c.fqn c.kept ⟨c, hc, rfl, rfl⟩

/-- A table agrees with a list if it has the right kind for everything that clashes there. -/
theorem agrees_iff_clashes :
    t.Agrees M ↔
      ∀ fqn kind, Clashes M fqn kind → (t.get? fqn).map Symbol.kind = some kind := by
  constructor
  · rintro h fqn kind ⟨htwice, hkind⟩
    obtain ⟨s, hs, rfl⟩ := List.mem_map.mp (occurrences_pos_iff.mp (Nat.zero_lt_of_lt htwice))
    exact (h s hs htwice).trans hkind
  · intro h s hs htwice
    obtain ⟨kind, hkind⟩ := Option.ne_none_iff_exists'.mp fun hnone =>
      (show occurrences M s.fqn ≠ 0 by omega) (firstKind_eq_none_iff.mp hnone)
    exact (h s.fqn kind ⟨htwice, hkind⟩).trans hkind.symm

/-- The dotted name of every collision has a symbol. -/
theorem Assembled.contains_fqn (h : Assembled t L parts) {c : Collision} (hc : c ∈ t.collisions) :
    t.contains c.fqn := by
  have hrecorded : c.key ∈ t.recorded :=
    List.mem_append_right _ (List.mem_map_of_mem (f := Collision.key) hc)
  obtain ⟨s, hs, hkey⟩ := List.mem_map.mp (h.lists.recorded.mem_iff.mp hrecorded)
  exact h.lists.contains_iff.mpr (List.mem_map.mpr ⟨s, hs, congrArg Prod.fst hkey⟩)

/-- The collisions of an assembled table tell the truth if it agrees with its parts. -/
theorem Assembled.truthful_iff (h : Assembled t L parts) :
    t.Truthful ↔ ∀ M ∈ L :: parts, t.Agrees M := by
  simp only [truthful_iff_saysKept, h.saysKept_iff, agrees_iff_clashes]
  constructor
  · exact fun hall M hM fqn kind hclashes => hall fqn kind ⟨M, hM, hclashes⟩
  · rintro hall fqn kind ⟨M, hM, hclashes⟩
    exact hall M hM fqn kind hclashes

/-- The table of a description has a symbol under the dotted name of each of its collisions. They say
of exactly those kinds that they were kept which come first under a repeated dotted name, among what
one of the namespaces defines at its path. So they tell the truth exactly if the table has that kind in
the end. However a table is assembled by defining symbols and merging tables, the same is true of what
was defined in it and in each of the tables that went into it. -/
theorem truthful_iff_agrees (library : String) (d : Description) :
    let t := ofDescription library d
    ((∀ c ∈ t.collisions, t.contains c.fqn) ∧
      (∀ fqn kind, t.SaysKept fqn kind ↔
        ∃ place ∈ d.located, Clashes (symbolsAt library place) fqn kind) ∧
      (t.Truthful ↔ ∀ place ∈ d.located, t.Agrees (symbolsAt library place))) ∧
    ∀ {u : Table} {L : List Symbol} {parts : List (List Symbol)}, Assembled u L parts →
      (∀ c ∈ u.collisions, u.contains c.fqn) ∧
      (∀ fqn kind, u.SaysKept fqn kind ↔ ∃ M ∈ L :: parts, Clashes M fqn kind) ∧
      (u.Truthful ↔ ∀ M ∈ L :: parts, u.Agrees M) := by
  intro t
  have hall {u : Table} {L : List Symbol} {parts : List (List Symbol)} (h : Assembled u L parts) :
      (∀ c ∈ u.collisions, u.contains c.fqn) ∧
      (∀ fqn kind, u.SaysKept fqn kind ↔ ∃ M ∈ L :: parts, Clashes M fqn kind) ∧
      (u.Truthful ↔ ∀ M ∈ L :: parts, u.Agrees M) :=
    ⟨fun _ hc => h.contains_fqn hc, fun _ _ => h.saysKept_iff, h.truthful_iff⟩
  refine ⟨?_, hall⟩
  have hplaces : d.located.map (symbolsAt library) =
      d.definitions.map (Definition.symbol library) ::
        (Namespace.locatedOf "" d.top.nested).map (symbolsAt library) := by
    rw [Description.located, Namespace.located_eq, List.map_cons]
    rfl
  have hdescription := hall (assembled_ofDescription library d)
  simp only [← hplaces, List.mem_map, exists_exists_and_eq_and, forall_exists_index, and_imp,
    forall_apply_eq_imp_iff₂] at hdescription
  exact hdescription

/-- A namespace that is described twice: the first time with one that is nested in it, the second time
with two classes, all three of one name. -/
def reopened : Description :=
  .ofTop (.plain "" [] [.plain "a" [] [.plain "X" [] []], .plain "a" [.plain "X", .plain "X"] []])

/-- A class and an interface of one name. -/
def twice : Table :=
  (empty "lib").insertAll [⟨"a.X", "X", .classType, "lib"⟩, ⟨"a.X", "X", .interfaceType, "lib"⟩]

/-- A table merged with itself says of the repeats what it kept, and a namespace that is reopened is
said to keep two kinds. -/
theorem truthful_iff_agrees_twice :
    (twice.merge twice).SaysKept "a.X" .classType ∧ (twice.merge twice).Truthful ∧
      (ofDescription "lib" reopened).SaysKept "a.X" .classType ∧
      (ofDescription "lib" reopened).SaysKept "a.X" .nameSpace := by
  have htwice : Assembled twice _ _ := (Assembled.empty "lib").insertAll _
  obtain ⟨⟨_, htoldReopened, _⟩, hassembled⟩ := truthful_iff_agrees "lib" reopened
  obtain ⟨_, htold, htruthful⟩ := hassembled (htwice.merge htwice)
  refine ⟨(htold _ _).mpr (by decide), htruthful.mpr (by decide), ?_, ?_⟩
  · exact (htoldReopened _ _).mpr (by decide)
  · exact (htoldReopened _ _).mpr (by decide)

/-- The class of which a collision says that it was kept was dropped later. -/
theorem not_truthful_reopened :
    reopened.check = .ok () ∧ ¬ (ofDescription "lib" reopened).Truthful ∧
      ⟨"a.X", .classType, .classType, "lib"⟩ ∈ (ofDescription "lib" reopened).collisions ∧
      ((ofDescription "lib" reopened).get? "a.X").map Symbol.kind = some .nameSpace := by
  decide

end Table

end Ambient.Symbol
