import Ambient.Proofs.Symbol.Listing

/-!
# The first definition wins

What a table lists is split in two: the first symbol of every dotted name, which the table has, and
the repeats, which it drops. The split is the one that a single pass over all definitions makes,
although nested namespaces are indexed by themselves and merged one level at a time.
-/

namespace Ambient.Symbol

open Api

/-- The symbols of a list whose dotted names have come before them in the list or in `seen`. -/
def repeats (seen : List String) : List Symbol → List Symbol
  | [] => []
  | s :: rest =>
    if s.fqn ∈ seen then s :: repeats seen rest else repeats (s.fqn :: seen) rest

/-- The first symbols that are new: the one in front if it is new, and of the others those that are
new behind it. -/
theorem filter_firsts_cons (seen : List String) (s : Symbol) (rest : List Symbol) :
    ((firsts (s :: rest)).filter fun other => other.fqn ∉ seen) =
      if s.fqn ∈ seen then (firsts rest).filter fun other => other.fqn ∉ seen
      else s :: (firsts rest).filter fun other => other.fqn ∉ s.fqn :: seen := by
  rw [firsts]
  split
  · next hseen =>
    rw [List.filter_cons_of_neg (by simpa using hseen), List.filter_filter]
    refine List.filter_congr fun other _ => ?_
    have hother : other.fqn ∉ seen → other.fqn ≠ s.fqn := fun h hsame => h (hsame ▸ hseen)
    simpa using hother
  · next hnew =>
    rw [List.filter_cons_of_pos (by simpa using hnew), List.filter_filter]
    refine congrArg _ (List.filter_congr fun other _ => ?_)
    simp [Bool.and_comm]

/-- The repeats of a list and the first symbols that are new are all of the list. -/
theorem repeats_append_firsts (L : List Symbol) :
    ∀ seen : List String,
      (repeats seen L ++ (firsts L).filter fun s => s.fqn ∉ seen).Perm L := by
  induction L with
  | nil => exact fun _ => List.Perm.nil
  | cons s rest ih =>
    intro seen
    rw [repeats, filter_firsts_cons]
    split
    · exact (ih seen).cons s
    · exact List.perm_middle.trans ((ih (s.fqn :: seen)).cons s)

/-- Leaving out a dotted name before or after taking first symbols is the same. -/
theorem filter_firsts (fqn : String) (L : List Symbol) :
    ((firsts L).filter fun s => s.fqn ≠ fqn) = firsts (L.filter fun s => s.fqn ≠ fqn) := by
  induction L with
  | nil => rfl
  | cons s rest ih =>
    by_cases h : s.fqn = fqn
    · rw [firsts, List.filter_cons_of_neg (by simpa using h),
        List.filter_cons_of_neg (by simpa using h), h, ih, ← ih, List.filter_filter]
      simp
    · rw [firsts, List.filter_cons_of_pos (by simpa using h),
        List.filter_cons_of_pos (by simpa using h), firsts, ← ih, List.filter_comm]

/-- The first symbols have the dotted names of the list without repeats. -/
theorem map_firsts : ∀ L : List Symbol, (firsts L).map Symbol.fqn = (L.map Symbol.fqn).eraseDups
  | [] => rfl
  | s :: rest => by
    have hrest := map_firsts (rest.filter fun other => other.fqn ≠ s.fqn)
    have hfilter : (rest.filter fun other => other.fqn ≠ s.fqn).map Symbol.fqn
        = (rest.map Symbol.fqn).filter fun fqn => !fqn == s.fqn := by
      rw [List.filter_map]
      refine congrArg _ (List.filter_congr fun other _ => ?_)
      simp [beq_eq_decide]
    rw [firsts, filter_firsts, List.map_cons, hrest, hfilter, List.map_cons, List.eraseDups_cons]
termination_by L => L.length
decreasing_by exact Nat.lt_succ_of_le (List.length_filter_le _ rest)

/-- Looking for a dotted name among the first symbols finds what looking in the list finds. -/
theorem find?_firsts (fqn : String) (L : List Symbol) :
    ((firsts L).find? fun s => s.fqn == fqn) = L.find? fun s => s.fqn == fqn := by
  induction L with
  | nil => rfl
  | cons s rest ih =>
    rw [firsts]
    by_cases h : s.fqn = fqn
    · rw [List.find?_cons_of_pos (by simpa using h), List.find?_cons_of_pos (by simpa using h)]
    · have hsame (other : Symbol) :
          decide (decide (other.fqn ≠ s.fqn) = true ∧ (other.fqn == fqn) = true)
            = (other.fqn == fqn) := by
        by_cases hother : other.fqn = fqn
        · simp [hother, Ne.symm h]
        · simp [hother]
      rw [List.find?_cons_of_neg (by simpa using h), List.find?_cons_of_neg (by simpa using h),
        List.find?_filter, funext hsame, ih]

namespace Table

variable {t : Table} {L : List Symbol}

/-- The keys of a table that lists symbols are their dotted names, each where it comes first. -/
theorem Lists.keys_eq (h : t.Lists L) : t.symbols.keys = (L.map Symbol.fqn).eraseDups := by
  rw [Ordered.Map.keys, h.entries, List.map_map, ← map_firsts]
  rfl

/-- Symbols that stand under their own dotted names are looked up by these. -/
theorem lookup_map_fqn (fqn : String) (L : List Symbol) :
    (L.map fun s => (s.fqn, s)).lookup fqn = L.find? fun s => s.fqn == fqn := by
  induction L with
  | nil => rfl
  | cons s rest ih => rw [List.map_cons, List.lookup_cons, List.find?_cons, ih, Bool.beq_comm]

/-- Under a dotted name a table has the first symbol that it lists with that name. -/
theorem get?_of_entries (h : t.symbols.entries = (firsts L).map fun s => (s.fqn, s)) (fqn : String) :
    t.get? fqn = L.find? fun s => s.fqn == fqn := by
  rw [get?, Ordered.Map.get?, h, lookup_map_fqn, find?_firsts]

/-- A table that lists symbols has under a dotted name the first one with it. -/
theorem Lists.get?_eq_find? (h : t.Lists L) (fqn : String) :
    t.get? fqn = L.find? fun s => s.fqn == fqn :=
  get?_of_entries h.entries fqn

/-- The collisions of a table are the repeats that it lists, each with the kind that was dropped. -/
theorem Lists.collisions_perm (h : t.Lists L) :
    (t.collisions.map Collision.key).Perm ((repeats [] L).map Symbol.key) := by
  have hsplit := (repeats_append_firsts L []).map Symbol.key
  have hall := h.recorded
  rw [Table.recorded, toList_of_entries h.entries] at hall
  -- Both sides are what is left of the list without its first symbols.
  simp only [List.not_mem_nil, not_false_eq_true, decide_true, List.filter_true,
    List.map_append] at hsplit
  refine (List.perm_append_left_iff ((firsts L).map Symbol.key)).mp ?_
  exact hall.trans (hsplit.symm.trans List.perm_append_comm)

/-- A table has no collisions exactly if it lists every dotted name once. -/
theorem Lists.ensureNoCollisions_iff (h : t.Lists L) :
    t.ensureNoCollisions = .ok () ↔ (L.map Symbol.fqn).Nodup := by
  refine ⟨h.nodup, fun hnodup => ?_⟩
  have hlength := h.length_eq
  rw [firsts_eq_self hnodup, Nat.add_eq_left, List.length_eq_zero_iff] at hlength
  exact ensureNoCollisions_eq_ok.mpr hlength

/-- The table of a description has the dotted paths of its definitions as keys, in the order in
which they come first, and under each of them the first definition. Every other definition is
recorded as a collision, so that a description has none exactly if all its paths are distinct. -/
theorem ofDescription_keeps_first (library : String) (d : Description) :
    let t := ofDescription library d
    let L := d.definitions.map (Definition.symbol library)
    t.symbols.keys = (d.definitions.map Definition.path).eraseDups ∧
      (∀ fqn, t.get? fqn = L.find? fun s => s.fqn == fqn) ∧
      (t.collisions.map Collision.key).Perm ((repeats [] L).map Symbol.key) ∧
      (t.ensureNoCollisions = .ok () ↔ (d.definitions.map Definition.path).Nodup) := by
  intro t L
  have hlists : t.Lists L := lists_ofDescription library d
  have hpaths : L.map Symbol.fqn = d.definitions.map Definition.path := List.map_map
  rw [← hpaths]
  exact ⟨hlists.keys_eq, hlists.get?_eq_find?, hlists.collisions_perm,
    hlists.ensureNoCollisions_iff⟩

end Table

end Ambient.Symbol
