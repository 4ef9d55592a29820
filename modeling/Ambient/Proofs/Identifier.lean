import Ambient.Identifier
import Ambient.Proofs.Symbol.Owner

/-!
# Entity names

Names that can stand in the clauses of a header: identifiers with dots between them, of which the
first is not a reserved word. A dotted name of declarable names is one, and so is a name that ends
it, also with an identifier in front that is made of the names around it.
-/

namespace Ambient

namespace Text

variable {separator c : Char}

/-- Whatever is read and is no separator stands in a segment. -/
theorem exists_mem_segmentsFrom (hc : c ≠ separator) (part : List Char) {cs : List Char}
    (h : c ∈ part ∨ c ∈ cs) : ∃ chars ∈ segmentsFrom separator part cs, c ∈ chars := by
  induction cs generalizing part with
  | nil => exact ⟨_, .head _, List.mem_reverse.mpr (h.resolve_right List.not_mem_nil)⟩
  | cons d rest ih =>
    rw [List.mem_cons] at h
    rw [segmentsFrom]
    split
    · next hseparator =>
      obtain hpart | rfl | hrest := h
      · exact ⟨_, .head _, List.mem_reverse.mpr hpart⟩
      · exact absurd hseparator hc
      · obtain ⟨chars, hchars, hmem⟩ := ih [] (.inr hrest)
        exact ⟨chars, .tail _ hchars, hmem⟩
    · exact ih _ (by rwa [List.mem_cons, or_comm (a := c = d), or_assoc])

/-- A character of a text is the separator, or stands in a segment. -/
theorem exists_segment_of_mem (hc : c ≠ separator) {s : String} (h : c ∈ s.toList) :
    ∃ segment ∈ segments separator s, c ∈ segment.toList := by
  obtain ⟨chars, hchars, hmem⟩ := exists_mem_segmentsFrom hc [] (.inr h)
  exact ⟨_, List.mem_map_of_mem hchars, by rwa [String.toList_ofList]⟩

/-- What has no separator is part of the first piece of what follows it. -/
theorem splitOn_append_of_not_mem {cs : List Char} (h : separator ∉ cs) (ds : List Char) :
    (cs ++ ds).splitOn separator = (ds.splitOn separator).modifyHead (cs ++ ·) := by
  induction cs with
  | nil =>
    rw [List.nil_append]
    cases ds.splitOn separator <;> rfl
  | cons c rest ih =>
    rw [List.mem_cons, not_or] at h
    rw [List.cons_append, List.splitOn_cons_eq_if_modifyHead, if_neg (by simpa using Ne.symm h.1),
      ih h.2, List.modifyHead_modifyHead]
    rfl

/-- What stands in front of a text and has no separator belongs to its first segment. -/
theorem segments_append_of_not_mem {s : String} (h : separator ∉ s.toList) (t : String) :
    segments separator (s ++ t) = (segments separator t).modifyHead (s ++ ·) := by
  rw [segments_eq, segments_eq, String.toList_append, splitOn_append_of_not_mem h]
  cases t.toList.splitOn separator with
  | nil => rfl
  | cons first rest => simp [String.ofList_append]

/-- Replacing one character by another one leaves all others where they are. -/
theorem replaceFrom_singleton (old new : Char) (cs : List Char) :
    replaceFrom [old] [new] 0 cs = cs.map fun c => if c = old then new else c := by
  induction cs with
  | nil => rfl
  | cons c rest ih =>
    rw [replaceFrom, List.map_cons, ← ih]
    by_cases hc : c = old
    · simp [hc]
    · simp [hc, Ne.symm hc]

end Text

namespace Identifier

/-- Whether a text is an entity name: identifiers with dots between them, of which the first is not
reserved. -/
def isEntityName (text : String) : Bool :=
  match Text.segments '.' text with
  | [] => false
  | first :: rest => isBinding first && rest.all isPlain

variable {c : Char} {cs ds : List Char} {text owner : String}

/-- A character that can start a name can stand in it. -/
theorem isPart_of_isStart (h : isStart c = true) : isPart c = true := by
  simp only [isStart, isPart, Char.isAlphanum, Bool.or_eq_true] at h ⊢
  tauto

/-- The characters of a plain name can stand in a name. -/
theorem isPart_of_isPlainChars (h : isPlainChars cs = true) : ∀ c ∈ cs, isPart c = true := by
  cases cs with
  | nil => exact List.forall_mem_nil _
  | cons first rest =>
    obtain ⟨hfirst, hrest⟩ := Bool.and_eq_true_iff.mp h
    exact List.forall_mem_cons.mpr ⟨isPart_of_isStart hfirst, List.all_eq_true.mp hrest⟩

/-- A plain name stays plain with more characters that can stand in a name. -/
theorem isPlainChars_append (h : isPlainChars cs = true) (hmore : ∀ c ∈ ds, isPart c = true) :
    isPlainChars (cs ++ ds) = true := by
  cases cs with
  | nil => cases h
  | cons first rest =>
    obtain ⟨hfirst, hrest⟩ := Bool.and_eq_true_iff.mp h
    refine Bool.and_eq_true_iff.mpr ⟨hfirst, List.all_eq_true.mpr ?_⟩
    exact List.forall_mem_append.mpr ⟨List.all_eq_true.mp hrest, hmore⟩

/-- No reserved word has an underscore. -/
theorem not_isReserved_of_mem (h : '_' ∈ text.toList) : isReserved text = false := by
  have hwords : ∀ word ∈ reservedWords, '_' ∉ word.toList := by decide
  rw [isReserved, ← Bool.not_eq_true, List.contains_iff_mem]
  exact fun hmem => hwords text hmem h

/-- The segments of an entity name are identifiers. -/
theorem isPlain_of_isEntityName (h : isEntityName text = true) :
    ∀ segment ∈ Text.segments '.' text, isPlain segment = true := by
  rw [isEntityName] at h
  cases hsegments : Text.segments '.' text with
  | nil => exact List.forall_mem_nil _
  | cons first rest =>
    rw [hsegments] at h
    obtain ⟨hfirst, hrest⟩ := Bool.and_eq_true_iff.mp h
    exact List.forall_mem_cons.mpr ⟨(Bool.and_eq_true_iff.mp hfirst).1, List.all_eq_true.mp hrest⟩

/-- Names that can be declared, with dots between them, are an entity name. -/
theorem isEntityName_of_isBinding
    (h : ∀ segment ∈ Text.segments '.' text, isBinding segment = true) :
    isEntityName text = true := by
  rw [isEntityName]
  cases hsegments : Text.segments '.' text with
  | nil => exact absurd hsegments (Text.segments_ne_nil _ _)
  | cons first rest =>
    rw [hsegments] at h
    obtain ⟨hfirst, hrest⟩ := List.forall_mem_cons.mp h
    refine Bool.and_eq_true_iff.mpr ⟨hfirst, List.all_eq_true.mpr fun segment hsegment => ?_⟩
    exact (Bool.and_eq_true_iff.mp (hrest segment hsegment)).1

/-- What is in an entity name are dots and characters of identifiers. -/
theorem isPart_of_isEntityName (h : isEntityName text = true) (hc : c ∈ text.toList) :
    c = '.' ∨ isPart c = true := by
  by_cases hdot : c = '.'
  · exact .inl hdot
  · obtain ⟨segment, hsegment, hmem⟩ := Text.exists_segment_of_mem hdot hc
    exact .inr (isPart_of_isPlainChars (isPlain_of_isEntityName h segment hsegment) c hmem)

/-- An entity name starts as an identifier. -/
theorem exists_isStart_of_isEntityName (h : isEntityName text = true) :
    ∃ first rest, text.toList = first :: rest ∧ isStart first = true := by
  have hplain := isPlain_of_isEntityName h
  rw [Text.segments_eq] at hplain
  cases hchars : text.toList with
  | nil =>
    rw [hchars] at hplain
    cases hplain _ (.head _)
  | cons first rest =>
    refine ⟨first, rest, rfl, ?_⟩
    rw [hchars, List.splitOn_cons_eq_if_modifyHead] at hplain
    split at hplain
    · cases hplain _ (.head _)
    · obtain ⟨segment, others, hsplit⟩ :=
        List.exists_cons_of_ne_nil (List.splitOn_ne_nil '.' rest)
      have hsegment := hplain (String.ofList (first :: segment)) (by simp [hsplit])
      rw [isPlain, String.toList_ofList] at hsegment
      exact (Bool.and_eq_true_iff.mp hsegment).1

/-- With underscores for its dots, what an entity name starts with is an identifier. -/
theorem isPlain_replace (h : isEntityName text = true) (hstarts : owner.toList <+: text.toList)
    (hne : owner ≠ "") : isPlain (Text.replace owner "." "_") = true := by
  obtain ⟨first, rest, hchars, hstart⟩ := exists_isStart_of_isEntityName h
  have hdot : first ≠ '.' := by
    rintro rfl
    cases hstart
  have hparts : ∀ c ∈ owner.toList, isPart (if c = '.' then '_' else c) = true := by
    intro c hc
    obtain rfl | hpart := isPart_of_isEntityName h (hstarts.subset hc)
    · rfl
    · split
      · rfl
      · exact hpart
  have hreplaced : (Text.replace owner "." "_").toList
      = owner.toList.map fun c => if c = '.' then '_' else c := by
    rw [Text.replace, String.toList_ofList]
    exact Text.replaceFrom_singleton '.' '_' _
  rw [isPlain, hreplaced]
  cases howner : owner.toList with
  | nil => exact absurd (String.toList_eq_nil_iff.mp howner) hne
  | cons c more =>
    rw [howner] at hparts
    rw [howner, hchars, List.cons_prefix_cons] at hstarts
    obtain ⟨rfl, -⟩ := hstarts
    rw [List.map_cons, if_neg hdot]
    refine Bool.and_eq_true_iff.mpr ⟨hstart, List.all_eq_true.mpr fun part hpart => ?_⟩
    obtain ⟨d, hd, rfl⟩ := List.mem_map.mp hpart
    exact hparts d (.tail _ hd)

/-- An identifier in front of an entity name, with an underscore between them, makes one. -/
theorem isEntityName_underscore {front : String} (hfront : isPlain front = true)
    (h : isEntityName text = true) : isEntityName (front ++ "_" ++ text) = true := by
  have hparts := isPart_of_isPlainChars hfront
  have hfree : '.' ∉ (front ++ "_").toList := by
    intro hmem
    rw [String.toList_append, List.mem_append] at hmem
    obtain hmem | hmem := hmem
    · cases hparts _ hmem
    · cases List.mem_singleton.mp hmem
  have hplain := isPlain_of_isEntityName h
  rw [isEntityName, Text.segments_append_of_not_mem hfree]
  cases hsegments : Text.segments '.' text with
  | nil => exact absurd hsegments (Text.segments_ne_nil _ _)
  | cons first rest =>
    rw [hsegments] at hplain
    obtain ⟨hfirst, hrest⟩ := List.forall_mem_cons.mp hplain
    refine Bool.and_eq_true_iff.mpr ⟨?_, List.all_eq_true.mpr hrest⟩
    have hunderscore : '_' ∈ (front ++ "_" ++ first).toList := by simp [String.toList_append]
    rw [isBinding, not_isReserved_of_mem hunderscore, Bool.not_false, Bool.and_true, isPlain,
      String.toList_append, String.toList_append, List.append_assoc]
    refine isPlainChars_append hfront ?_
    exact List.forall_mem_append.mpr
      ⟨List.forall_mem_singleton.mpr rfl, isPart_of_isPlainChars hfirst⟩

end Identifier

namespace Symbol

/-- A dotted name starts with the owner's. -/
theorem ownerOf_isPrefix (fqn : String) : (ownerOf fqn).toList <+: fqn.toList := by
  by_cases howner : (Text.segments '.' fqn).dropLast = []
  · rw [ownerOf, howner]
    exact List.nil_prefix
  · have hfqn := Text.intercalate_segments fqn
    rw [← List.dropLast_append_getLast (Text.segments_ne_nil '.' fqn),
      String.intercalate_append_of_ne_nil howner (List.cons_ne_nil _ _), String.append_assoc,
      ← String.toList_inj, String.toList_append] at hfqn
    exact ⟨_, hfqn⟩

end Symbol

end Ambient
