import Ambient.Files.Tree
import Ambient.Proofs.Symbol.Owner

/-!
# Paths with a common stem

The files that a run writes have paths that differ only in how they end. Such files stand side by
side: the walk to them leads through the same directories, and each has the last part of the stem
with its own ending for a name.
-/

namespace Ambient

namespace Text

/-- What is added to a text without the separator is added to the last segment. -/
theorem segmentsFrom_append {separator : Char} {tail : List Char} (h : separator ∉ tail)
    (part cs : List Char) : segmentsFrom separator part (cs ++ tail)
      = (segmentsFrom separator part cs).dropLast
        ++ [(segmentsFrom separator part cs).getLastD [] ++ tail] := by
  induction cs generalizing part with
  | nil =>
    have hwhole (part : List Char) : segmentsFrom separator part tail = [part.reverse ++ tail] := by
      induction tail generalizing part with
      | nil => simp [segmentsFrom]
      | cons c rest ih =>
        obtain ⟨hc, hrest⟩ := List.ne_and_not_mem_of_not_mem_cons h
        rw [segmentsFrom, if_neg (Ne.symm hc), ih hrest]
        simp
    simpa [segmentsFrom] using hwhole part
  | cons c rest ih =>
    rw [List.cons_append, segmentsFrom, segmentsFrom]
    split
    · have hsome : segmentsFrom separator [] rest ≠ [] := by
        rw [segmentsFrom_eq]
        exact List.splitOnPPrepend_ne_nil _ _ _
      rw [ih, List.dropLast_cons_of_ne_nil hsome, List.getLastD_cons,
        List.getLastD_eq_getLast?, List.getLastD_eq_getLast?]
      simp [List.getLast?_eq_some_getLast hsome]
    · exact ih _

/-- The last segment is what the text ends in. -/
theorem getLastD_segmentsFrom_suffix (separator : Char) (part cs : List Char) :
    (segmentsFrom separator part cs).getLastD [] <:+ part.reverse ++ cs := by
  induction cs generalizing part with
  | nil => simp [segmentsFrom]
  | cons c rest ih =>
    rw [segmentsFrom]
    split
    · have hsome : segmentsFrom separator [] rest ≠ [] := by
        rw [segmentsFrom_eq]
        exact List.splitOnPPrepend_ne_nil _ _ _
      have hlast := ih []
      rw [List.getLastD_cons, List.getLastD_eq_getLast?, List.getLast?_eq_some_getLast hsome]
      rw [List.getLastD_eq_getLast?, List.getLast?_eq_some_getLast hsome] at hlast
      exact hlast.trans ((List.suffix_cons c rest).trans (List.suffix_append _ _))
    · simpa using ih (c :: part)

/-- After a separator nothing has been read yet. -/
theorem getLastD_segmentsFrom_concat (separator : Char) (part cs : List Char) :
    (segmentsFrom separator part (cs ++ [separator])).getLastD [] = [] := by
  induction cs generalizing part with
  | nil => simp [segmentsFrom]
  | cons c rest ih =>
    rw [List.cons_append, segmentsFrom]
    split
    · have hsome : segmentsFrom separator [] (rest ++ [separator]) ≠ [] := by
        rw [segmentsFrom_eq]
        exact List.splitOnPPrepend_ne_nil _ _ _
      have hlast := ih []
      rw [List.getLastD_eq_getLast?, List.getLast?_eq_some_getLast hsome] at hlast
      rw [List.getLastD_cons, List.getLastD_eq_getLast?, List.getLast?_eq_some_getLast hsome]
      exact hlast
    · exact ih _

end Text

namespace Files

/-- What a path ends with after a stem: it stays within the last part, and makes that a name and
not one or two dots. -/
structure IsEnding (tail : String) : Prop where
  noSeparator : '/' ∉ tail.toList
  isLong : 2 < tail.length
  hasDot : '.' ∈ tail.toList

/-- The directories that a stem leads through. -/
def folders (stem : String) : List String :=
  (Text.segments '/' stem).dropLast.filter fun part => !part.isEmpty

/-- The name of the file that a stem with an ending leads to. -/
def fileName (stem tail : String) : String := (Text.segments '/' stem).getLastD "" ++ tail

variable {stem tail : String}

/-- A file name with an ending has more than two characters. -/
theorem length_fileName (h : IsEnding tail) (stem : String) : 2 < (fileName stem tail).length := by
  rw [fileName, String.length_append]
  exact Nat.lt_of_lt_of_le h.isLong (Nat.le_add_left _ _)

/-- A file name with an ending has a dot in it. -/
theorem hasDot_fileName (h : IsEnding tail) (stem : String) :
    '.' ∈ (fileName stem tail).toList := by
  rw [fileName, String.toList_append]
  exact List.mem_append_right _ h.hasDot

/-- Different endings make different names. -/
theorem fileName_injective {other : String} (h : fileName stem tail = fileName stem other) :
    tail = other := by
  have hchars := congrArg String.toList h
  rw [fileName, fileName, String.toList_append, String.toList_append] at hchars
  exact String.toList_inj.mp (List.append_cancel_left hchars)

/-- A path is a name behind nothing, or behind a separator. -/
theorem exists_join_eq (base path : String) :
    ∃ front, (join base path).toList = front ++ path.toList ∧
      (front = [] ∨ ∃ before, front = before ++ ['/']) := by
  unfold join
  split
  · exact ⟨[], rfl, .inl rfl⟩
  · split
    · rename_i hlast
      obtain ⟨before, hbefore⟩ := List.getLast?_eq_some_iff.mp (by simpa using hlast)
      exact ⟨base.toList, String.toList_append, .inr ⟨before, hbefore⟩⟩
    · exact ⟨base.toList ++ ['/'], by simp, .inr ⟨_, rfl⟩⟩

/-- The last segment of a stem, as characters. -/
theorem toList_getLastD_segments (stem : String) :
    ((Text.segments '/' stem).getLastD "").toList
      = (Text.segmentsFrom '/' [] stem.toList).getLastD [] := by
  rw [Text.segments, List.getLastD_eq_getLast?, List.getLastD_eq_getLast?, List.getLast?_map]
  cases (Text.segmentsFrom '/' [] stem.toList).getLast? <;> simp

/-- A name in a directory leads to the file of that name. -/
theorem fileName_join {base name : String} (h : '/' ∉ name.toList) (tail : String) :
    fileName (join base name) tail = name ++ tail := by
  have hname : (Text.segments '/' (join base name)).getLastD "" = name := by
    obtain ⟨front, hjoin, hfront⟩ := exists_join_eq base name
    have hnothing : (Text.segmentsFrom '/' [] front).getLastD [] = [] := by
      obtain rfl | ⟨before, rfl⟩ := hfront
      · rfl
      · exact Text.getLastD_segmentsFrom_concat _ _ _
    rw [← String.toList_inj, toList_getLastD_segments, hjoin, Text.segmentsFrom_append h,
      List.getLastD_concat, hnothing, List.nil_append]
  rw [fileName, hname]

/-- What the name of a file ends in before its ending, the path that is joined ends in, too. -/
theorem suffix_of_suffix_fileName {base path : String} {word : List Char} (h : '/' ∉ word)
    (hword : word <:+ ((Text.segments '/' (join base path)).getLastD "").toList) :
    word <:+ path.toList := by
  obtain ⟨front, hjoin, hfront⟩ := exists_join_eq base path
  rw [toList_getLastD_segments] at hword
  have hall : word <:+ front ++ path.toList := by
    rw [← hjoin]
    simpa using hword.trans (Text.getLastD_segmentsFrom_suffix '/' [] (join base path).toList)
  obtain rfl | ⟨before, rfl⟩ := hfront
  · simpa using hall
  · -- Nothing that reaches back over the separator lacks it.
    rw [List.append_assoc, List.singleton_append] at hall
    have hslash : '/' :: path.toList <:+ before ++ '/' :: path.toList := List.suffix_append _ _
    obtain hback | hfits := List.suffix_or_suffix_of_suffix hslash hall
    · exact absurd (hback.subset List.mem_cons_self) h
    · obtain hsame | hfits := List.suffix_cons_iff.mp hfits
      · exact absurd (hsame ▸ List.mem_cons_self) h
      · exact hfits

/-- An ending neither starts nor stops at a separator. -/
theorem IsEnding.head?_ne (h : IsEnding tail) : tail.toList.head? ≠ some '/' := fun hhead =>
  h.noSeparator (List.mem_of_head? hhead)

/-- An ending does not end in a separator. -/
theorem IsEnding.getLast?_ne (h : IsEnding tail) : tail.toList.getLast? ≠ some '/' := fun hlast =>
  h.noSeparator (List.mem_of_getLast? hlast)

/-- An ending is not empty. -/
theorem IsEnding.toList_ne_nil (h : IsEnding tail) : tail.toList ≠ [] :=
  List.ne_nil_of_mem h.hasDot

/-- The parts of a path with an ending. -/
theorem parts_append (h : IsEnding tail) :
    parts (stem ++ tail) = folders stem ++ [fileName stem tail] := by
  have hlast (pieces : List (List Char)) : String.ofList (pieces.getLastD [])
      = (pieces.map String.ofList).getLastD "" := by
    rw [List.getLastD_eq_getLast?, List.getLastD_eq_getLast?, List.getLast?_map]
    cases pieces.getLast? <;> rfl
  have hsegments : Text.segments '/' (stem ++ tail)
      = (Text.segments '/' stem).dropLast ++ [fileName stem tail] := by
    rw [fileName, Text.segments, Text.segments, String.toList_append,
      Text.segmentsFrom_append h.noSeparator, List.map_append, List.map_dropLast, ← hlast,
      List.map_singleton, String.ofList_append, String.ofList_toList]
  have hname : (!(fileName stem tail).isEmpty) = true := by
    have hlong := length_fileName h stem
    cases hempty : (fileName stem tail).isEmpty with
    | false => rfl
    | true =>
      rw [String.isEmpty_iff.mp hempty] at hlong
      exact absurd hlong (by decide)
  rw [parts, hsegments, List.filter_append, List.filter_singleton, hname]
  rfl

/-- A path is absolute exactly if its stem is. -/
theorem isAbsolute_append (h : IsEnding tail) : isAbsolute (stem ++ tail) = isAbsolute stem := by
  rw [isAbsolute, isAbsolute, String.toList_append, List.head?_append]
  cases stem.toList.head? with
  | some c => rfl
  | none => simpa using h.head?_ne

/-- A path with an ending does not end in a separator. -/
theorem endsInSeparator_append (h : IsEnding tail) : endsInSeparator (stem ++ tail) = false := by
  rw [endsInSeparator, String.toList_append, List.getLast?_append_of_ne_nil _ h.toList_ne_nil]
  simpa using h.getLast?_ne

/-- A path with an ending is seen from a base as its stem is. -/
theorem join_append (base path : String) (h : IsEnding tail) :
    join base (path ++ tail) = join base path ++ tail := by
  simp only [join, isAbsolute_append h, apply_ite (· ++ tail), String.append_assoc]

end Files

end Ambient
