import Ambient.Proofs.Identifier
import Ambient.Reference

/-!
# Splitting dotted names

Joining a path with a name puts a dot between them, and splitting takes what stands before the last
dot. One undoes the other exactly if the last dot is the one in between: a name with a dot of its own
leads to a longer path. As a name of a module, that is a different one as well.
-/

namespace Ambient

namespace Reference

/-- In the path of a module there is a slash for every dot. -/
theorem toList_modulePath (fqn : String) :
    (modulePath fqn).toList = fqn.toList.map fun c => if c = '.' then '/' else c := by
  rw [modulePath, Text.replace, String.toList_ofList]
  exact Text.replaceFrom_singleton '.' '/' _

/-- A module and one below it have one path only if they are the same. -/
theorem modulePath_eq_iff_of_below {outer inner : String} (h : outer.toList <+: inner.toList) :
    modulePath inner = modulePath outer ↔ inner = outer := by
  refine ⟨fun hsame => ?_, fun hsame => congrArg modulePath hsame⟩
  have hlength := congrArg List.length (String.toList_inj.mpr hsame)
  rw [toList_modulePath, toList_modulePath, List.length_map, List.length_map] at hlength
  exact (String.toList_inj.mp (h.eq_of_length hlength.symm)).symm

end Reference

namespace Symbol

open Api Reference

variable {path name : String}

/-- The last dot behind a path is the one in front of a name: the name has no dot, or there is no path
and the name has one only in front. -/
def Splits (path name : String) : Prop :=
  '.' ∉ name.toList ∨ path = "" ∧ '.' ∉ name.toList.tail

/-- Whether a name splits off a path is decided by cutting the joined one. -/
instance (path name : String) : Decidable (Splits path name) :=
  inferInstanceAs (Decidable ('.' ∉ name.toList ∨ path = "" ∧ '.' ∉ name.toList.tail))

/-- What has a dot has a last one. -/
theorem exists_last_dot (h : '.' ∈ name.toList) :
    ∃ before behind, name = before ++ "." ++ behind ∧ '.' ∉ behind.toList := by
  obtain ⟨behind, before, hreverse, hbehind⟩ :=
    List.eq_append_cons_of_mem (List.mem_reverse.mpr h)
  refine ⟨String.ofList before.reverse, String.ofList behind.reverse, ?_, by simpa using hbehind⟩
  rw [← String.toList_inj, ← List.reverse_inj, hreverse]
  simp

/-- A name has no owner if there is no dot in it, except perhaps in front. -/
theorem ownerOf_eq_empty_iff : ownerOf name = "" ↔ '.' ∉ name.toList.tail := by
  by_cases hdot : '.' ∈ name.toList
  · obtain ⟨before, behind, rfl, hbehind⟩ := exists_last_dot hdot
    rw [ownerOf_dot before hbehind, ← String.toList_eq_nil_iff]
    cases hbefore : before.toList with
    | nil => simpa [hbefore] using hbehind
    | cons c rest => simp [hbefore]
  · exact iff_of_true (ownerOf_of_not_mem hdot) fun htail => hdot (List.mem_of_mem_tail htail)

/-- A path is in front of what is joined to it. -/
theorem prefix_joined (path name : String) : path.toList <+: (joined path name).toList := by
  by_cases hpath : path = ""
  · simp [hpath]
  · rw [joined_of_ne hpath, String.append_assoc, String.toList_append]
    exact List.prefix_append _ _

/-- The owner of what is declared at a path is that path or one below it. -/
theorem prefix_ownerOf_joined (path name : String) :
    path.toList <+: (ownerOf (joined path name)).toList := by
  by_cases hdot : '.' ∈ name.toList
  · rw [ownerOf_joined_of_dotted path hdot]
    exact prefix_joined path _
  · simp [ownerOf_joined path hdot]

/-- The owner of what is declared at a path is that path exactly if the last dot is where the two are
joined. -/
theorem ownerOf_joined_eq_iff : ownerOf (joined path name) = path ↔ Splits path name := by
  by_cases hdot : '.' ∈ name.toList
  · rw [ownerOf_joined_of_dotted path hdot, Splits, or_iff_right (not_not_intro hdot)]
    by_cases hpath : path = ""
    · rw [hpath, joined_empty, ownerOf_eq_empty_iff, and_iff_right rfl]
    · have hlonger : joined path (ownerOf name) ≠ path := by
        intro hsame
        have hlength := congrArg String.length hsame
        have hone : ".".length = 1 := rfl
        rw [joined_of_ne hpath, String.length_append, String.length_append] at hlength
        omega
      exact iff_of_false hlonger fun h => hpath h.1
  · exact iff_of_true (ownerOf_joined path hdot) (.inl hdot)

/-- Joining the owner with the name gives the dotted name back only if the owner is the path. -/
theorem joined_ownerOf_eq_iff :
    joined path name = joined (ownerOf (joined path name)) name ↔ Splits path name := by
  rw [(joined_left_injective name).eq_iff, eq_comm, ownerOf_joined_eq_iff]

/-- A symbol's module is that of the namespace around it exactly if its name splits off. -/
theorem modulePath_ownerOf_eq_iff :
    modulePath (ownerOf (joined path name)) = modulePath path ↔ Splits path name := by
  rw [modulePath_eq_iff_of_below (prefix_ownerOf_joined path name), ownerOf_joined_eq_iff]

end Symbol

end Ambient
