import Ambient.Proofs.Respelling
import Mathlib.Data.List.Sublists

/-!
# A name where it is declared and where it is referred to

A namespace is declared by its simple name, and referred to by the dotted path of a symbol inside
it. The patch looks at the letters around the name in either place, so the name can be respelled in
one of them and stay as it is in the other. Which names are respelled alike in both can be told from
the name and the path in front of it.
-/

namespace Ambient.Patch

/-- What a name is respelled as where a namespace of that name is declared. -/
def declaredAs (name : String) : String := respelledIn "namespace " name " "

/-- What a name is respelled as behind a dotted path, in front of another name. -/
def referredAs (path name : String) : String := respelledIn path name "."

/-- The letters of a name where it is declared. -/
theorem toList_declaredAs (name : String) : (declaredAs name).toList
    = respellIn "namespace ".toList name.toList " ".toList := String.toList_ofList

/-- The letters of a name where it is referred to. -/
theorem toList_referredAs (path name : String) : (referredAs path name).toList
    = respellIn path.toList name.toList ".".toList := String.toList_ofList

/-! ## Letters of a name -/

variable {before after front x y path : List Char} {c : Char}

/-- A blank or a dot behind a letter ends what has to stand there. -/
theorem around_append_last_iff (h : c ∉ "xport".toList) (before front rest : List Char) :
    Around before (front ++ c :: rest) ↔ Around before (front ++ [c]) := by
  have hword : "xport ".toList.dropLast = "xport".toList := by decide
  have hpath : "xport.".toList.dropLast = "xport".toList := by decide
  have hblank : "xport ".toList <+: front ++ c :: rest ↔ "xport ".toList <+: front ++ [c] :=
    isPrefix_append_cons_iff (hword ▸ h)
  have hdot : "xport.".toList <+: front ++ c :: rest ↔ "xport.".toList <+: front ++ [c] :=
    isPrefix_append_cons_iff (hpath ▸ h)
  rw [Around, Around, hblank, hdot]

/-- Behind a blank or a dot nothing matters for the letters of a name. -/
theorem respellIn_append_last (h : c ∉ "xport".toList) (before cs rest : List Char) :
    respellIn before cs (c :: rest) = respellIn before cs [c] :=
  respellIn_eq_iff.mpr fun _ back _ => around_append_last_iff h _ back rest

/-- At least seven characters stand in front of a letter that is respelled. -/
theorem Around.length_le (h : Around before after) : 7 ≤ before.length := by
  obtain ⟨hbefore, -⟩ | ⟨hbefore, -⟩ := h
  · exact Nat.le_trans (by decide) hbefore.length_le
  · exact Nat.le_trans (by decide) hbefore.length_le

/-- An `x` stands behind a letter that is respelled. -/
theorem Around.head? (h : Around before after) : after.head? = some 'x' := by
  obtain ⟨-, rest, rfl⟩ | ⟨-, rest, rfl⟩ := h <;> rfl

/-- Words at the beginning of a line stay as they are, if no other letter follows theirs that would
be respelled. -/
theorem respellIn_words {cs : List Char} (h : ∀ i < cs.length, cs[i]? = some 'e' → 7 ≤ i →
    (cs[i + 1]?).any (· != 'x') = true) (after : List Char) : respellIn [] cs after = cs := by
  refine respellIn_eq_self_iff.mpr fun front back hsplit haround => ?_
  rw [List.nil_append] at haround
  have hnext : (back.head?).any (· != 'x') = true := by
    have hat := h front.length (by simp [hsplit]) (by simp [hsplit]) haround.length_le
    rwa [hsplit, List.getElem?_append_right (by omega), Nat.add_sub_cancel_left,
      List.getElem?_cons_succ, ← List.head?_eq_getElem?] at hat
  cases back with
  | nil => cases hnext
  | cons d back =>
    have hhead := Option.some.inj haround.head?
    simp [hhead] at hnext

/-! ## Where a namespace is declared -/

/-- The line that opens a block for a namespace. -/
def blockLine (depth : Nat) (name : String) : String :=
  Declaration.exposure depth ++ "namespace " ++ name ++ " \x7b"

/-- What exposes a declaration is one of two words. -/
theorem exposure_mem (depth : Nat) : Declaration.exposure depth ∈ ["declare ", "export "] := by
  rw [Declaration.exposure]
  split <;> simp

/-- In such a line the name is respelled without regard to the word in front, and to the brace. -/
theorem respellIn_blockLine {word : String} (hword : word ∈ ["declare ", "export "])
    (name : String) : respellIn (word ++ "namespace ").toList name.toList " \x7b".toList
      = (declaredAs name).toList := by
  have hshut : ∀ word ∈ ["declare ", "export "], ∀ part ∈ ["namespace ".toList, "sap.ui.".toList],
      ∀ u ∈ part.inits, u ≠ [] → ¬ u <:+ word.toList := by decide
  have hlast : " \x7b".toList = ' ' :: ['\x7b'] := rfl
  rw [toList_declaredAs, hlast, respellIn_append_last (by decide)]
  refine respellIn_eq_iff.mpr fun front back _ => ?_
  have hsuffix (part : List Char) (hpart : part ∈ ["namespace ".toList, "sap.ui.".toList]) :
      part <:+ word.toList ++ ("namespace ".toList ++ front) ↔
        part <:+ "namespace ".toList ++ front :=
    isSuffix_append_iff fun u hu hprefix =>
      hshut word hword part hpart u ((List.mem_inits _ _).mpr hprefix) hu
  rw [String.toList_append, List.append_assoc, Around, Around, hsuffix _ (by simp),
    hsuffix _ (by simp)]
  rfl

/-- In the line that opens a block, nothing but the name is respelled. -/
theorem respellExport_blockLine (depth : Nat) (name : String) :
    respellExport (blockLine depth name) = blockLine depth (declaredAs name) := by
  have hword := exposure_mem depth
  rw [blockLine, blockLine]
  generalize Declaration.exposure depth = word at hword
  have hwords : ∀ word ∈ ["declare ", "export "], ∀ i < (word ++ "namespace ").toList.length,
      (word ++ "namespace ").toList[i]? = some 'e' → 7 ≤ i →
        ((word ++ "namespace ").toList[i + 1]?).any (· != 'x') = true := by decide
  have hend : respellIn ((word ++ "namespace ").toList ++ name.toList) " \x7b".toList []
      = " \x7b".toList := respellIn_of_not_mem (by decide) _ _
  have hsplit (name : String) : (word ++ "namespace " ++ name ++ " \x7b").toList
      = (word ++ "namespace ").toList ++ name.toList ++ " \x7b".toList := by
    rw [String.toList_append, String.toList_append]
  refine String.toList_injective ?_
  rw [toList_respellExport, hsplit, hsplit, respellIn_append, respellIn_append,
    respellIn_words (hwords word hword), List.nil_append, List.nil_append, List.append_nil,
    respellIn_blockLine hword, hend]

/-- In front of a letter of the name stands the word that declares it, or more of the name. -/
theorem around_declared_iff :
    Around ("namespace ".toList ++ x) (y ++ [' ']) ↔
      ((x = [] ∨ "namespace ".toList <:+ x) ∧ (y = "xport".toList ∨ "xport ".toList <+: y)) ∨
        ("sap.ui.".toList <:+ x ∧ "xport.".toList <+: y) := by
  have hword : "namespace ".toList <:+ "namespace ".toList ++ x ↔
      x = [] ∨ "namespace ".toList <:+ x := isSuffix_self_append_iff (by simp)
  have hpath : "sap.ui.".toList <:+ "namespace ".toList ++ x ↔ "sap.ui.".toList <:+ x :=
    isSuffix_append_iff fun u hu hprefix =>
      (by decide : ∀ u ∈ "sap.ui.".toList.inits, u ≠ [] → ¬ u <:+ "namespace ".toList) u
        ((List.mem_inits _ _).mpr hprefix) hu
  have hblank : "xport ".toList <+: y ++ [' '] ↔ y = "xport".toList ∨ "xport ".toList <+: y := by
    rw [show "xport ".toList = "xport".toList ++ [' '] by decide, List.prefix_concat_iff,
      List.append_left_inj, eq_comm]
  have hdot : "xport.".toList <+: y ++ [' '] ↔ "xport.".toList <+: y :=
    isPrefix_append_cons_iff_of_not_mem (by decide)
  rw [Around, hword, hpath, hblank, hdot]

/-! ## Where a symbol inside it is referred to -/

/-- A path is empty, or ends in a dot. -/
def IsPath (path : List Char) : Prop := path = [] ∨ ['.'] <:+ path

/-- What ends a path ends in a dot. -/
theorem IsPath.getLast? (h : IsPath path) {u : List Char} (hu : u ≠ []) (hsuffix : u <:+ path) :
    u.getLast? = some '.' := by
  obtain rfl | ⟨first, rfl⟩ := h
  · exact absurd (List.suffix_nil.mp hsuffix) hu
  · obtain hnil | ⟨more, rfl, -⟩ := List.suffix_concat_iff.mp hsuffix
    · exact absurd hnil hu
    · simp

/-- The dotted path ends in front of a letter of the name if it is the whole path, or continues into
the name. -/
theorem isSuffix_path_append_iff (h : IsPath path) :
    "sap.ui.".toList <:+ path ++ x ↔ "sap.ui.".toList <:+ x ∨
      (x = [] ∧ "sap.ui.".toList <:+ path) ∨ (x = "ui.".toList ∧ "sap.".toList <:+ path) := by
  have hcases : ∀ u ∈ "sap.ui.".toList.inits, u.getLast? = some '.' →
      u = "sap.".toList ∨ u = "sap.ui.".toList := by decide
  constructor
  · intro hall
    obtain hshort | ⟨u, hu⟩ := List.suffix_or_suffix_of_suffix hall (List.suffix_append path x)
    · exact .inl hshort
    by_cases hnil : u = []
    · subst hnil
      exact .inl (hu ▸ List.suffix_rfl)
    have hsuffix : u <:+ path := by
      obtain ⟨first, hfirst⟩ := hall
      rw [← hu, ← List.append_assoc, List.append_left_inj] at hfirst
      exact ⟨first, hfirst⟩
    have hinit : u ∈ "sap.ui.".toList.inits := (List.mem_inits _ _).mpr ⟨x, hu⟩
    obtain rfl | rfl := hcases u hinit (h.getLast? hnil hsuffix)
    · have hrest : "sap.".toList ++ x = "sap.".toList ++ "ui.".toList := hu.trans (by decide)
      exact .inr (.inr ⟨List.append_cancel_left hrest, hsuffix⟩)
    · have hrest : "sap.ui.".toList ++ x = "sap.ui.".toList ++ [] :=
        hu.trans (List.append_nil _).symm
      exact .inr (.inl ⟨List.append_cancel_left hrest, hsuffix⟩)
  · rintro (hx | ⟨rfl, hpath⟩ | ⟨rfl, first, rfl⟩)
    · exact hx.trans (List.suffix_append _ _)
    · rwa [List.append_nil]
    · exact ⟨first, by simp⟩

/-- In front of a letter of the name stands the path, or more of the name. -/
theorem around_referred_iff (h : IsPath path) :
    Around (path ++ x) (y ++ ['.']) ↔
      ("namespace ".toList <:+ x ∧ "xport ".toList <+: y) ∨
        (("sap.ui.".toList <:+ x ∨ (x = [] ∧ "sap.ui.".toList <:+ path) ∨
          (x = "ui.".toList ∧ "sap.".toList <:+ path)) ∧
          (y = "xport".toList ∨ "xport.".toList <+: y)) := by
  have hword : "namespace ".toList <:+ path ++ x ↔ "namespace ".toList <:+ x :=
    isSuffix_append_iff fun u hu hprefix hsuffix =>
      (by decide : ∀ u ∈ "namespace ".toList.inits, u.getLast? ≠ some '.') u
        ((List.mem_inits _ _).mpr hprefix) (h.getLast? hu hsuffix)
  have hblank : "xport ".toList <+: y ++ ['.'] ↔ "xport ".toList <+: y :=
    isPrefix_append_cons_iff_of_not_mem (by decide)
  have hdot : "xport.".toList <+: y ++ ['.'] ↔ y = "xport".toList ∨ "xport.".toList <+: y := by
    rw [show "xport.".toList = "xport".toList ++ ['.'] by decide, List.prefix_concat_iff,
      List.append_left_inj, eq_comm]
  rw [Around, hword, isSuffix_path_append_iff h, hblank, hdot]

/-! ## Alike in both places -/

/-- What has to hold for a name to be respelled alike in both places: it begins with the reserved
word as a declaration has it exactly if it begins with that word behind the dotted path, it does not
end as a declaration or the dotted path do, and does not go on with the dotted path. -/
structure IsAlike (path name : String) : Prop where
  begins : "export ".toList <+: name.toList ++ [' '] ↔
    "sap.ui.".toList <:+ path.toList ∧ "export.".toList <+: name.toList ++ ['.']
  declares : ¬ "namespace export".toList <:+ name.toList
  leads : ¬ "sap.ui.export".toList <:+ name.toList
  continues : ¬ ("sap.".toList <:+ path.toList ∧ "ui.export.".toList <+: name.toList ++ ['.'])

/-- Whether a name is respelled alike is decided letter by letter. -/
instance (path name : String) : Decidable (IsAlike path name) :=
  decidable_of_iff (_ ∧ _ ∧ _ ∧ _)
    ⟨fun ⟨hbegins, hdeclares, hleads, hcontinues⟩ => ⟨hbegins, hdeclares, hleads, hcontinues⟩,
      fun h => ⟨h.begins, h.declares, h.leads, h.continues⟩⟩

/-- What this says of one of its letters, given what is in front of it and behind it. -/
structure AlikeAt (path x y : List Char) : Prop where
  begins : x = [] → ((y = "xport".toList ∨ "xport ".toList <+: y) ↔
    "sap.ui.".toList <:+ path ∧ (y = "xport".toList ∨ "xport.".toList <+: y))
  declares : ¬ ("namespace ".toList <:+ x ∧ y = "xport".toList)
  leads : ¬ ("sap.ui.".toList <:+ x ∧ y = "xport".toList)
  continues : ¬ (x = "ui.".toList ∧ "sap.".toList <:+ path ∧
    (y = "xport".toList ∨ "xport.".toList <+: y))

/-- What is said of one letter is four conditions on what stands around it. -/
theorem alikeAt_iff : AlikeAt path x y ↔
    (x = [] → ((y = "xport".toList ∨ "xport ".toList <+: y) ↔
      "sap.ui.".toList <:+ path ∧ (y = "xport".toList ∨ "xport.".toList <+: y))) ∧
    ¬ ("namespace ".toList <:+ x ∧ y = "xport".toList) ∧
    ¬ ("sap.ui.".toList <:+ x ∧ y = "xport".toList) ∧
    ¬ (x = "ui.".toList ∧ "sap.".toList <:+ path ∧
      (y = "xport".toList ∨ "xport.".toList <+: y)) :=
  ⟨fun h => ⟨h.begins, h.declares, h.leads, h.continues⟩,
    fun ⟨hbegins, hdeclares, hleads, hcontinues⟩ => ⟨hbegins, hdeclares, hleads, hcontinues⟩⟩

/-- A letter is respelled alike in both places, given what is in front of it and behind it. -/
theorem around_congr_iff (h : IsPath path) :
    (Around ("namespace ".toList ++ x) (y ++ [' ']) ↔ Around (path ++ x) (y ++ ['.'])) ↔
      AlikeAt path x y := by
  rw [around_declared_iff, around_referred_iff h, alikeAt_iff]
  -- What is in front of the letter is one of four things, and what is behind it one of three.
  have hword : ¬ (x = [] ∧ "namespace ".toList <:+ x) := fun ⟨hx, h⟩ =>
    absurd (hx ▸ h) (by decide)
  have hpath : ¬ (x = [] ∧ "sap.ui.".toList <:+ x) := fun ⟨hx, h⟩ => absurd (hx ▸ h) (by decide)
  have hpart : ¬ (x = [] ∧ x = "ui.".toList) := fun ⟨hx, h⟩ => absurd (hx ▸ h) (by decide)
  have hword' : ¬ ("namespace ".toList <:+ x ∧ x = "ui.".toList) := fun ⟨h, hx⟩ =>
    absurd (hx ▸ h) (by decide)
  have hpath' : ¬ ("sap.ui.".toList <:+ x ∧ x = "ui.".toList) := fun ⟨h, hx⟩ =>
    absurd (hx ▸ h) (by decide)
  have hboth : ¬ ("namespace ".toList <:+ x ∧ "sap.ui.".toList <:+ x) := fun ⟨hword, hpath⟩ =>
    absurd (List.suffix_of_suffix_length_le hpath hword (by decide)) (by decide)
  have hblank : ¬ (y = "xport".toList ∧ "xport ".toList <+: y) := fun ⟨hy, h⟩ =>
    absurd (hy ▸ h) (by decide)
  have hdot : ¬ (y = "xport".toList ∧ "xport.".toList <+: y) := fun ⟨hy, h⟩ =>
    absurd (hy ▸ h) (by decide)
  have hboth' : ¬ ("xport ".toList <+: y ∧ "xport.".toList <+: y) := fun ⟨hblank, hdot⟩ =>
    absurd (List.prefix_of_prefix_length_le hblank hdot (by decide)) (by decide)
  grind

section Whole

variable {cs : List Char}

/-- A whole text ends characters exactly if its parts stand around one of them. -/
theorem isSuffix_split_iff (front back : List Char) (d : Char) :
    front ++ d :: back <:+ cs ↔ ∃ x y, cs = x ++ d :: y ∧ front <:+ x ∧ y = back := by
  constructor
  · rintro ⟨first, rfl⟩
    exact ⟨first ++ front, back, by simp, List.suffix_append _ _, rfl⟩
  · rintro ⟨_, _, rfl, ⟨first, rfl⟩, rfl⟩
    exact ⟨first, by simp⟩

/-- Characters begin with a text up to a character behind them exactly if its first part stands in
front, and behind it the other one. -/
theorem isPrefix_split_iff (front back : List Char) (c d : Char) :
    front ++ d :: back ++ [c] <+: cs ++ [c] ↔
      ∃ y, cs = front ++ d :: y ∧ (y = back ∨ back ++ [c] <+: y) := by
  rw [List.prefix_concat_iff, List.append_left_inj]
  constructor
  · rintro (rfl | ⟨rest, rfl⟩)
    · exact ⟨back, rfl, .inl rfl⟩
    · exact ⟨back ++ [c] ++ rest, by simp, .inr (List.prefix_append _ _)⟩
  · rintro ⟨_, rfl, rfl | ⟨rest, rfl⟩⟩
    · exact .inl rfl
    · exact .inr ⟨rest, by simp⟩

end Whole

/-- What holds of the name can be told letter by letter. -/
theorem isAlike_iff {path name : String} : IsAlike path name ↔
    ∀ x y, name.toList = x ++ 'e' :: y → AlikeAt path.toList x y := by
  have hblank : "export ".toList <+: name.toList ++ [' '] ↔ ∃ y, name.toList = 'e' :: y ∧
      (y = "xport".toList ∨ "xport ".toList <+: y) :=
    isPrefix_split_iff [] "xport".toList ' ' 'e'
  have hdot : "export.".toList <+: name.toList ++ ['.'] ↔ ∃ y, name.toList = 'e' :: y ∧
      (y = "xport".toList ∨ "xport.".toList <+: y) :=
    isPrefix_split_iff [] "xport".toList '.' 'e'
  have hpart : "ui.export.".toList <+: name.toList ++ ['.'] ↔ ∃ y,
      name.toList = "ui.".toList ++ 'e' :: y ∧ (y = "xport".toList ∨ "xport.".toList <+: y) :=
    isPrefix_split_iff "ui.".toList "xport".toList '.' 'e'
  have hword : "namespace export".toList <:+ name.toList ↔ ∃ x y, name.toList = x ++ 'e' :: y ∧
      "namespace ".toList <:+ x ∧ y = "xport".toList :=
    isSuffix_split_iff "namespace ".toList "xport".toList 'e'
  have hpath : "sap.ui.export".toList <:+ name.toList ↔ ∃ x y, name.toList = x ++ 'e' :: y ∧
      "sap.ui.".toList <:+ x ∧ y = "xport".toList :=
    isSuffix_split_iff "sap.ui.".toList "xport".toList 'e'
  constructor
  · intro h x y hname
    refine ⟨?begins, fun hx => ?declares, fun hx => ?leads, ?continues⟩
    case begins =>
      rintro rfl
      have hbegins := h.begins
      have hsame {P : List Char → Prop} : (∃ z, name.toList = 'e' :: z ∧ P z) ↔ P y := by
        simp [hname]
      rwa [hblank, hdot, hsame, hsame] at hbegins
    case declares => exact h.declares (hword.mpr ⟨x, y, hname, hx⟩)
    case leads => exact h.leads (hpath.mpr ⟨x, y, hname, hx⟩)
    case continues =>
      rintro ⟨rfl, hin, hy⟩
      exact h.continues ⟨hin, hpart.mpr ⟨y, hname, hy⟩⟩
  · intro hall
    refine ⟨?begins, fun hends => ?declares, fun hends => ?leads, fun ⟨hin, hends⟩ => ?continues⟩
    case begins =>
      rw [hblank, hdot]
      constructor
      · rintro ⟨y, hname, hy⟩
        obtain ⟨hin, hy⟩ := ((hall [] y hname).begins rfl).mp hy
        exact ⟨hin, y, hname, hy⟩
      · rintro ⟨hin, y, hname, hy⟩
        exact ⟨y, hname, ((hall [] y hname).begins rfl).mpr ⟨hin, hy⟩⟩
    case declares =>
      obtain ⟨x, y, hname, hx⟩ := hword.mp hends
      exact (hall x y hname).declares hx
    case leads =>
      obtain ⟨x, y, hname, hx⟩ := hpath.mp hends
      exact (hall x y hname).leads hx
    case continues =>
      obtain ⟨y, hname, hy⟩ := hpart.mp hends
      exact (hall _ y hname).continues ⟨rfl, hin, hy⟩

/-- A name is respelled alike where a namespace of the name is declared and where the path to a
symbol inside it goes through it. -/
theorem declaredAs_eq_referredAs_iff {path name : String} (h : IsPath path.toList) :
    declaredAs name = referredAs path name ↔ IsAlike path name := by
  rw [← String.toList_inj, toList_declaredAs, toList_referredAs, respellIn_eq_iff, isAlike_iff]
  exact forall₃_congr fun x y _ => around_congr_iff h

/-! ## Plain names -/

/-- A name without blanks and dots. -/
def IsPlain (name : String) : Prop := ' ' ∉ name.toList ∧ '.' ∉ name.toList

/-- Whether a name is plain is decided by looking for a blank and a dot. -/
instance (name : String) : Decidable (IsPlain name) := inferInstanceAs (Decidable (_ ∧ _))

section Plain

variable {name : String} (h : IsPlain name)
include h

/-- Only the whole name can be what is respelled. -/
theorem IsPlain.not_mem (hname : name.toList = x ++ 'e' :: y) :
    ¬ "namespace ".toList <:+ x ∧ ¬ "sap.ui.".toList <:+ x ∧ x ≠ "ui.".toList ∧
      ¬ "xport ".toList <+: y ∧ ¬ "xport.".toList <+: y := by
  obtain ⟨hblank, hdot⟩ := h
  rw [hname] at hblank hdot
  have hx : ' ' ∉ x ∧ '.' ∉ x := ⟨fun hmem => hblank (List.mem_append_left _ hmem),
    fun hmem => hdot (List.mem_append_left _ hmem)⟩
  have hy : ' ' ∉ y ∧ '.' ∉ y :=
    ⟨fun hmem => hblank (List.mem_append_right _ (List.mem_cons_of_mem _ hmem)),
      fun hmem => hdot (List.mem_append_right _ (List.mem_cons_of_mem _ hmem))⟩
  refine ⟨fun hsuffix => hx.1 (hsuffix.subset (by decide)),
    fun hsuffix => hx.2 (hsuffix.subset (by decide)), fun hpart => hx.2 (hpart ▸ by decide),
    fun hbegins => hy.1 (hbegins.subset (by decide)),
    fun hbegins => hy.2 (hbegins.subset (by decide))⟩

/-- Where it is declared, a plain name is respelled exactly if it is the reserved one. -/
theorem declaredAs_of_isPlain :
    declaredAs name = if name = "export" then respelled else name := by
  split
  · next hname =>
    rw [hname]
    decide
  · next hname =>
    rw [← String.toList_inj, toList_declaredAs]
    refine respellIn_eq_self_iff.mpr fun x y hsplit haround => ?_
    have hlast : " ".toList = [' '] := rfl
    rw [hlast, around_declared_iff] at haround
    obtain ⟨hword, hpath, -, hblank, -⟩ := h.not_mem hsplit
    obtain ⟨hx, hy⟩ | ⟨hx, -⟩ := haround
    · obtain rfl := hx.resolve_right hword
      obtain rfl := hy.resolve_right hblank
      exact hname (String.toList_injective hsplit)
    · exact hpath hx

/-- Where it is referred to, it is respelled exactly if the dotted path is in front, too. -/
theorem referredAs_of_isPlain {path : String} (hpath : IsPath path.toList) :
    referredAs path name
      = if name = "export" ∧ "sap.ui.".toList <:+ path.toList then respelled else name := by
  split
  · next hboth =>
    obtain ⟨rfl, hin⟩ := hboth
    have haround : Around path.toList ("xport".toList ++ ".".toList) := .inr ⟨hin, by decide⟩
    have hrest : respellIn (path.toList ++ ['e']) "xport".toList ".".toList = "xport".toList :=
      respellIn_of_not_mem (by decide) _ _
    have hword : "export".toList = 'e' :: "xport".toList := rfl
    rw [← String.toList_inj, toList_referredAs, hword, respellIn, if_pos ⟨rfl, haround⟩, hrest]
    decide
  · next hnot =>
    rw [← String.toList_inj, toList_referredAs]
    refine respellIn_eq_self_iff.mpr fun x y hsplit haround => ?_
    have hlast : ".".toList = ['.'] := rfl
    rw [hlast, around_referred_iff hpath] at haround
    obtain ⟨hword, hin, hpart, -, hdot⟩ := h.not_mem hsplit
    obtain ⟨hx, -⟩ | ⟨hx, hy⟩ := haround
    · exact hword hx
    · obtain ⟨rfl, hpath⟩ := (hx.resolve_left hin).resolve_right fun hx => hpart hx.1
      obtain rfl := hy.resolve_right hdot
      exact hnot ⟨String.toList_injective hsplit, hpath⟩

end Plain

/-! ## In the middle of a line -/

/-- A part of a text is respelled as something, in its place. -/
def RespelledAs (before part after new : String) : Prop :=
  ∃ x y, x.length = before.length ∧ y.length = after.length ∧
    respellExport (before ++ part ++ after) = x ++ new ++ y

/-- Behind what shuts it off, a name on a dotted path is respelled without regard to what is in
front of the path and behind the dot. -/
theorem respelledAs_referredAs {before : String} (h : Shuts before.toList)
    (path name rest : String) :
    RespelledAs (before ++ path) name ("." ++ rest) (referredAs path name) := by
  have hname : respellIn (before.toList ++ path.toList) name.toList ("." ++ rest).toList
      = respellIn path.toList name.toList ".".toList := by
    have hlast : ("." ++ rest).toList = '.' :: rest.toList := by simp
    rw [hlast, respellIn_append_last (by decide)]
    refine respellIn_eq_iff.mpr fun front back _ => ?_
    rw [List.append_assoc, h.around_iff]
    rfl
  refine ⟨respelledIn "" (before ++ path) (name ++ ("." ++ rest)),
    respelledIn (before ++ path ++ name) ("." ++ rest) "", ?_, ?_, ?_⟩
  · simp [respelledIn, ← String.length_toList, length_respellIn]
  · simp [respelledIn, ← String.length_toList, length_respellIn]
  · have hreferred : respelledIn (before ++ path) name ("." ++ rest) = referredAs path name := by
      rw [respelledIn, String.toList_append, hname]
      rfl
    rw [respellExport_eq, respelledIn_append, respelledIn_append, String.empty_append,
      String.empty_append, String.append_empty, hreferred]

end Ambient.Patch
