import Ambient.Proofs.Api.Definitions
import Ambient.Symbol.Basic

/-!
# Owners of symbols

The owner of a symbol is read off its dotted name alone: what stands before the last dot. This is
the path under which the symbol is defined, provided that its own name has no dot. In any case the
path can be told from the owner and the name.
-/

namespace Ambient

namespace Text

/-- Reading segments is splitting a list, with what has been read so far in front. -/
theorem segmentsFrom_eq (separator : Char) (part cs : List Char) :
    segmentsFrom separator part cs = cs.splitOnPPrepend (· == separator) part := by
  induction cs generalizing part with
  | nil => rfl
  | cons c rest ih =>
    rw [segmentsFrom, List.splitOnPPrepend_cons_eq_if]
    by_cases h : c = separator
    · rw [if_pos h, if_pos (by simpa using h), ih, List.splitOnPPrepend_nil_right]
    · rw [if_neg h, if_neg (by simpa using h), ih]

/-- The segments of a text are what stands between separators. -/
theorem segments_eq (separator : Char) (s : String) :
    segments separator s = (s.toList.splitOn separator).map String.ofList := by
  rw [segments, segmentsFrom_eq, List.splitOnPPrepend_nil_right, List.splitOn_eq_splitOnP]

/-- A text without the separator is its only segment. -/
theorem segments_of_not_mem {separator : Char} {s : String} (h : separator ∉ s.toList) :
    segments separator s = [s] := by
  rw [segments_eq, List.splitOn_eq_singleton h, List.map_singleton, String.ofList_toList]

/-- With a dot between them, two texts have the segments of the one and then of the other. -/
theorem segments_dot (s t : String) :
    segments '.' (s ++ "." ++ t) = segments '.' s ++ segments '.' t := by
  have hchars : (s ++ "." ++ t).toList = s.toList ++ '.' :: t.toList := by
    simp [String.toList_append]
  rw [segments_eq, segments_eq, segments_eq, hchars, List.splitOn_append_cons_self,
    List.map_append]

/-- The segments between dots, with dots between them, are the text again. -/
theorem intercalate_segments (s : String) : ".".intercalate (segments '.' s) = s := by
  have hlists : ((s.toList.splitOn '.').map String.ofList).map String.toList
      = s.toList.splitOn '.' := by
    rw [List.map_map]
    exact (List.map_congr_left fun cs _ => String.toList_ofList).trans (List.map_id _)
  rw [← String.toList_inj, String.toList_intercalate, segments_eq, hlists]
  exact List.intercalate_splitOn '.'

/-- A text has at least one segment. -/
theorem segments_ne_nil (separator : Char) (s : String) : segments separator s ≠ [] := by
  rw [segments_eq]
  simp

/-- A text with a dot has segments before its last one. -/
theorem dropLast_segments_ne_nil {s : String} (h : '.' ∈ s.toList) :
    (segments '.' s).dropLast ≠ [] := by
  obtain ⟨before, behind, hchars⟩ := List.append_of_mem h
  have hsplit : segments '.' s
      = segments '.' (String.ofList before) ++ segments '.' (String.ofList behind) := by
    rw [← segments_dot]
    congr 1
    rw [← String.toList_inj]
    simp [hchars]
  rw [hsplit, List.dropLast_append_of_ne_nil (segments_ne_nil _ _)]
  simp [segments_ne_nil]

end Text

namespace Symbol

open Api Text

/-- A name without dots has no owner. -/
theorem ownerOf_of_not_mem {name : String} (h : '.' ∉ name.toList) : ownerOf name = "" := by
  rw [ownerOf, segments_of_not_mem h]
  rfl

/-- The owner is what stands before the last dot. -/
theorem ownerOf_dot (before : String) {behind : String} (h : '.' ∉ behind.toList) :
    ownerOf (before ++ "." ++ behind) = before := by
  rw [ownerOf, segments_dot, segments_of_not_mem h, List.dropLast_concat, intercalate_segments]

/-- What is declared under a name without dots is owned by the path in front of the name. -/
theorem ownerOf_joined (path : String) {name : String} (h : '.' ∉ name.toList) :
    ownerOf (joined path name) = path := by
  by_cases hpath : path = ""
  · rw [hpath, joined_empty, ownerOf_of_not_mem h]
  · rw [joined_of_ne hpath, ownerOf_dot path h]

/-- What is declared under a name with dots is owned by what the name is, below the path. -/
theorem ownerOf_joined_of_dotted (path : String) {name : String} (h : '.' ∈ name.toList) :
    ownerOf (joined path name) = joined path (ownerOf name) := by
  by_cases hpath : path = ""
  · rw [hpath, joined_empty, joined_empty]
  · rw [joined_of_ne hpath, joined_of_ne hpath, ownerOf, segments_dot,
      List.dropLast_append_of_ne_nil (segments_ne_nil _ _),
      String.intercalate_append_of_ne_nil (segments_ne_nil _ _) (dropLast_segments_ne_nil h),
      intercalate_segments]
    rfl

/-- The path can be told from what it is joined with a name to. -/
theorem joined_left_injective (name : String) : Function.Injective (joined · name) := by
  have hlonger {path : String} (h : path ≠ "") : joined path name ≠ name := by
    intro heq
    have hlength := congrArg String.length heq
    have hdot : ".".length = 1 := rfl
    rw [joined_of_ne h, String.length_append, String.length_append] at hlength
    omega
  intro path other h
  dsimp only at h
  by_cases hpath : path = "" <;> by_cases hother : other = ""
  · rw [hpath, hother]
  · rw [hpath, joined_empty] at h
    exact absurd h.symm (hlonger hother)
  · rw [hother, joined_empty] at h
    exact absurd h (hlonger hpath)
  · rw [joined_of_ne hpath, joined_of_ne hother, ← String.toList_inj] at h
    rw [← String.toList_inj]
    simpa using h

/-- A name is declared at most once by an owner. -/
theorem path_eq_of_ownerOf {path other name : String}
    (h : ownerOf (joined path name) = ownerOf (joined other name)) : path = other := by
  by_cases hdot : '.' ∈ name.toList
  · rw [ownerOf_joined_of_dotted _ hdot, ownerOf_joined_of_dotted _ hdot] at h
    exact joined_left_injective _ h
  · rwa [ownerOf_joined _ hdot, ownerOf_joined _ hdot] at h

end Symbol

end Ambient
