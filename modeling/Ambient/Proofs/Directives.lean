import Ambient.Directives.Basic
import Ambient.Proofs.Ordered

/-!
# Merged directives

What merged directives answer can be read off the ones they come from. A set has what any of them
has; a key has the value of the first of them, in the order of merging, that has the key.
-/

namespace Ambient.Directives

/-- A set of merged directives has what any of these sets has. -/
theorem contains_merge (field : Directives → Ordered.Set String)
    (habsorb : ∀ d other : Directives, field (d.absorb other) = (field d).union (field other))
    (d : Directives) (others : List Directives) (a : String) :
    (field (d.merge others)).contains a = true ↔
      ∃ one ∈ d :: others, (field one).contains a = true := by
  induction others generalizing d with
  | nil => simp [merge]
  | cons other rest ih =>
    have hunion : (field (d.absorb other)).contains a = true ↔
        (field d).contains a = true ∨ (field other).contains a = true := by
      rw [habsorb, Ordered.Set.union, Ordered.Set.contains_iff, Ordered.Set.mem_insertAll,
        Ordered.Set.contains_iff, Ordered.Set.contains_iff]
    refine (ih (d.absorb other)).trans ?_
    simp only [List.mem_cons, or_and_right, exists_or, exists_eq_left, hunion, or_assoc]

/-- Merged directives exclude what any of them excludes, and nothing else. -/
theorem isBadSymbol_merge (d : Directives) (others : List Directives) (fqn : String) :
    (d.merge others).isBadSymbol fqn = true ↔ ∃ one ∈ d :: others, one.isBadSymbol fqn = true :=
  contains_merge badSymbols (fun _ _ => rfl) d others fqn

/-- A key of merged directives has the value of the first of these that has the key. -/
theorem get?_merge {β : Type} (field : Directives → Ordered.Map String β)
    (habsorb : ∀ d other : Directives, field (d.absorb other) = (field d).union (field other))
    (d : Directives) (others : List Directives) (key : String) :
    (field (d.merge others)).get? key
      = ((field d).get? key).or (others.findSome? fun one => (field one).get? key) := by
  induction others generalizing d with
  | nil => rw [List.findSome?_nil, Option.or_none, merge, List.foldl_nil]
  | cons other rest ih =>
    have hstep : d.merge (other :: rest) = (d.absorb other).merge rest := rfl
    rw [hstep, ih, habsorb, Ordered.Map.get?_union, Option.or_assoc, List.findSome?_cons]
    cases (field other).get? key with
    | none => rw [Option.none_or]
    | some value => rw [Option.some_or]

end Ambient.Directives
