import Ambient.Declaration.Render
import Ambient.Patch
import Mathlib.Data.List.Basic
import Mathlib.Data.List.Infix

/-!
# Where the reserved name is respelled

The patch for the namespace with a reserved name looks at text alone. A text that does not overlap
itself is replaced by one that differs in a character, so the characters that change are those at
which the text stands in what was there before. Each letter is respelled or not by what stands
around it: where a namespace of this simple name is declared, and where the dotted path stands in
front of a name. So a text is respelled line by line.
-/

namespace Ambient.Text

variable {old : List Char} {count i : Nat}

/-- Characters that have been replaced already are passed over. -/
theorem replaceFrom_skip (old new : List Char) (skip : Nat) (cs : List Char) :
    replaceFrom old new skip cs = replaceFrom old new 0 (cs.drop skip) := by
  induction skip generalizing cs with
  | zero => rfl
  | succ skip ih =>
    cases cs with
    | nil => rw [List.drop_nil, replaceFrom, replaceFrom]
    | cons c rest => rw [replaceFrom, List.drop_succ_cons, ih]

/-- Where the text is in front, its replacement is written, and replacing goes on behind it. -/
theorem replaceFrom_append (hne : old ≠ []) (new rest : List Char) :
    replaceFrom old new 0 (old ++ rest) = new ++ replaceFrom old new 0 rest := by
  obtain ⟨a, tail, rfl⟩ := List.exists_cons_of_ne_nil hne
  have hprefix : (a :: tail).isPrefixOf (a :: (tail ++ rest)) = true :=
    List.isPrefixOf_iff_prefix.mpr (List.prefix_append (a :: tail) rest)
  rw [List.cons_append, replaceFrom, if_pos hprefix, replaceFrom_skip]
  exact congrArg (fun cs => new ++ replaceFrom (a :: tail) new 0 cs) List.drop_left

/-! ## Where a text stands -/

/-- A text stands in the characters so that a number of its own are in front of an index. -/
def Spans (old : List Char) (count : Nat) (cs : List Char) (i : Nat) : Prop :=
  count ≤ i ∧ old <+: cs.drop (i - count)

/-- Whether a text stands around an index can be decided. -/
instance (old : List Char) (count : Nat) (cs : List Char) (i : Nat) :
    Decidable (Spans old count cs i) :=
  inferInstanceAs (Decidable (_ ∧ _))

/-- A text whose first character does not come again does not stand inside of itself. -/
theorem not_isPrefix_drop (hfirst : ∀ a ∈ old.head?, a ∉ old.tail) (rest : List Char) {j : Nat}
    (hpos : 0 < j) (hlt : j < old.length) : ¬ old <+: (old ++ rest).drop j := by
  intro h
  cases old with
  | nil => exact absurd hlt (Nat.not_lt_zero j)
  | cons a tail =>
    obtain ⟨j, rfl⟩ := Nat.exists_eq_add_of_lt hpos
    rw [Nat.zero_add, List.cons_append, List.drop_succ_cons] at h
    rw [List.length_cons, Nat.zero_add, Nat.add_lt_add_iff_right] at hlt
    have hhead : (tail ++ rest)[j]? = some a := by
      obtain ⟨more, hmore⟩ := h
      rw [← List.head?_drop, ← hmore]
      rfl
    rw [List.getElem?_append_left hlt] at hhead
    exact hfirst a rfl (List.mem_of_getElem? hhead)

/-- Where a text is in front, it stands there, and otherwise behind it. -/
theorem spans_append_iff (hfirst : ∀ a ∈ old.head?, a ∉ old.tail) (hcount : count < old.length)
    (rest : List Char) :
    Spans old count (old ++ rest) i ↔
      i = count ∨ (old.length ≤ i ∧ Spans old count rest (i - old.length)) := by
  constructor
  · rintro ⟨hle, h⟩
    by_cases hat : i = count
    · exact .inl hat
    have hbehind : old.length ≤ i - count := by
      by_contra hinside
      exact not_isPrefix_drop hfirst rest (by omega) (by omega) h
    rw [List.drop_append, List.drop_eq_nil_of_le hbehind, List.nil_append] at h
    refine .inr ⟨by omega, by omega, ?_⟩
    rwa [show i - old.length - count = i - count - old.length by omega]
  · rintro (rfl | ⟨hle, hcount', h⟩)
    · rw [Spans, Nat.sub_self, List.drop_zero]
      exact ⟨Nat.le_refl _, List.prefix_append _ _⟩
    · rw [Spans, List.drop_append, List.drop_eq_nil_of_le (by omega), List.nil_append]
      refine ⟨by omega, ?_⟩
      rwa [show i - count - old.length = i - old.length - count by omega]

/-- A text that is not in front stands behind the first character. -/
theorem spans_cons_iff {c : Char} {rest : List Char} (hnot : ¬ old <+: c :: rest) :
    Spans old count (c :: rest) i ↔ 0 < i ∧ Spans old count rest (i - 1) := by
  constructor
  · rintro ⟨hle, h⟩
    have hpos : i - count ≠ 0 := fun hzero => hnot (by rwa [hzero, List.drop_zero] at h)
    obtain ⟨j, rfl⟩ := Nat.exists_eq_succ_of_ne_zero (show i ≠ 0 by omega)
    rw [Nat.succ_sub (by omega), List.drop_succ_cons] at h
    exact ⟨Nat.succ_pos j, Nat.le_of_lt_succ (by omega), h⟩
  · rintro ⟨hpos, hle, h⟩
    obtain ⟨j, rfl⟩ := Nat.exists_eq_succ_of_ne_zero (Nat.ne_of_gt hpos)
    rw [Nat.succ_sub_one] at hle h
    refine ⟨by omega, ?_⟩
    rwa [Nat.succ_sub hle, List.drop_succ_cons]

/-! ## Replacing -/

/-- The characters that a replacement changes are those at which the text stands. -/
theorem getElem?_replaceFrom {front back : List Char} {c : Char} (d : Char)
    (hfirst : ∀ a ∈ (front ++ c :: back).head?, a ∉ (front ++ c :: back).tail) (cs : List Char)
    (i : Nat) :
    (replaceFrom (front ++ c :: back) (front ++ d :: back) 0 cs)[i]?
      = if Spans (front ++ c :: back) front.length cs i then some d else cs[i]? := by
  generalize hold : front ++ c :: back = old at hfirst
  have hlength : old.length = (front ++ d :: back).length := by simp [← hold]
  have hcount : front.length < old.length := by simp [← hold]
  have hne : old ≠ [] := List.ne_nil_of_length_pos (Nat.zero_lt_of_lt hcount)
  induction hcs : cs.length using Nat.strong_induction_on generalizing cs i with
  | _ n ih =>
    -- A replacement moves on by the whole text, and any other step by one character, so the
    -- induction is on the length.
    by_cases hprefix : old <+: cs
    · obtain ⟨rest, rfl⟩ := hprefix
      rw [List.length_append] at hcs
      rw [replaceFrom_append hne, if_congr (spans_append_iff hfirst hcount rest) rfl rfl]
      by_cases hi : i < old.length
      · rw [List.getElem?_append_left (hlength ▸ hi), List.getElem?_append_left hi]
        -- Within the text that is replaced only the character in the middle differs.
        by_cases hat : i = front.length
        · rw [if_pos (.inl hat), hat, List.getElem?_append_right (Nat.le_refl _), Nat.sub_self]
          rfl
        · rw [if_neg (by omega), ← hold, List.getElem?_append, List.getElem?_append]
          split
          · rfl
          · rw [List.getElem?_cons, List.getElem?_cons, if_neg (by omega), if_neg (by omega)]
      · rw [List.getElem?_append_right (by omega), List.getElem?_append_right (by omega), ← hlength,
          ih rest.length (by omega) rest _ rfl]
        exact if_congr ⟨fun h => .inr ⟨by omega, h⟩, fun h => (h.resolve_left (by omega)).2⟩ rfl rfl
    · cases cs with
      | nil =>
        have hnot : ¬ Spans old front.length [] i := fun h =>
          hprefix (by simpa using h.2)
        rw [replaceFrom, if_neg hnot]
      | cons x rest =>
        have hnot : ¬ old.isPrefixOf (x :: rest) = true := fun h =>
          hprefix (List.isPrefixOf_iff_prefix.mp h)
        rw [List.length_cons] at hcs
        rw [replaceFrom, if_neg hnot, if_congr (spans_cons_iff hprefix) rfl rfl]
        cases i with
        | zero =>
          rw [if_neg (by simp)]
          rfl
        | succ i =>
          rw [List.getElem?_cons_succ, List.getElem?_cons_succ, ih _ (by omega) rest i rfl]
          exact if_congr (and_iff_right (Nat.succ_pos i)).symm rfl rfl

end Ambient.Text

namespace Ambient.Patch

open Text (Spans replaceFrom)

/-! ## Letter by letter -/

/-- What stands around the letter where it is respelled: a declaration with the reserved name, or
the dotted path with a name behind it. -/
def Around (before after : List Char) : Prop :=
  ("namespace ".toList <:+ before ∧ "xport ".toList <+: after) ∨
    ("sap.ui.".toList <:+ before ∧ "xport.".toList <+: after)

/-- Whether the letter is respelled between two texts can be decided. -/
instance (before after : List Char) : Decidable (Around before after) :=
  inferInstanceAs (Decidable (_ ∨ _))

/-- Characters respelled letter by letter, given what stands in front of them and behind them. -/
def respellIn (before : List Char) : List Char → List Char → List Char
  | [], _ => []
  | c :: rest, after =>
    (if c = 'e' ∧ Around before (rest ++ after) then lookalike else c)
      :: respellIn (before ++ [c]) rest after

variable {before after cs : List Char}

/-- A character is respelled exactly if it is the letter with the right text around it. -/
theorem getElem?_respellIn (before cs after : List Char) (i : Nat) :
    (respellIn before cs after)[i]?
      = if cs[i]? = some 'e' ∧ Around (before ++ cs.take i) (cs.drop (i + 1) ++ after)
        then some lookalike else cs[i]? := by
  induction cs generalizing before i with
  | nil => simp [respellIn]
  | cons c rest ih =>
    cases i with
    | zero => simp [respellIn, apply_ite some]
    | succ i => simp [respellIn, ih]

/-- Of two texts in a row each is respelled with the other one around it. -/
theorem respellIn_append (before cs more after : List Char) :
    respellIn before (cs ++ more) after
      = respellIn before cs (more ++ after) ++ respellIn (before ++ cs) more after := by
  induction cs generalizing before with
  | nil => simp [respellIn]
  | cons c rest ih => simp [respellIn, ih]

/-- Respelling keeps the number of characters. -/
theorem length_respellIn (before cs after : List Char) :
    (respellIn before cs after).length = cs.length := by
  induction cs generalizing before with
  | nil => rfl
  | cons c rest ih => rw [respellIn, List.length_cons, List.length_cons, ih]

/-- One character is respelled under two conditions alike, unless it is the letter and they differ.
-/
theorem letter_eq_iff {c : Char} {P Q : Prop} [Decidable P] [Decidable Q] :
    (if c = 'e' ∧ P then lookalike else c) = (if c = 'e' ∧ Q then lookalike else c) ↔
      (c = 'e' → (P ↔ Q)) := by
  have hletter : lookalike ≠ 'e' := by decide
  by_cases hc : c = 'e'
  · subst hc
    by_cases hP : P <;> by_cases hQ : Q <;> simp [hP, hQ, hletter, hletter.symm]
  · simp [hc]

/-- Characters are respelled alike in two places exactly if every letter is. -/
theorem respellIn_eq_iff {other behind : List Char} :
    respellIn before cs after = respellIn other cs behind ↔
      ∀ front back, cs = front ++ 'e' :: back →
        (Around (before ++ front) (back ++ after) ↔ Around (other ++ front) (back ++ behind)) := by
  induction cs generalizing before other with
  | nil => simp [respellIn]
  | cons c rest ih =>
    rw [respellIn, respellIn, List.cons.injEq, ih, letter_eq_iff]
    constructor
    · rintro ⟨hhead, htail⟩ front back hsplit
      cases front with
      | nil =>
        obtain ⟨rfl, rfl⟩ := List.cons.inj hsplit
        simpa using hhead rfl
      | cons d front =>
        obtain ⟨rfl, rfl⟩ := List.cons.inj hsplit
        simpa using htail front back rfl
    · intro h
      refine ⟨?_, fun front back hsplit => ?_⟩
      · rintro rfl
        simpa using h [] rest rfl
      · simpa using h (c :: front) back (by rw [hsplit]; rfl)

/-! ## The patch -/

/-- Where a text stands around an index, its parts stand in front and behind. -/
theorem spans_iff {front back : List Char} {c : Char} {i : Nat} :
    Spans (front ++ c :: back) front.length cs i ↔
      cs[i]? = some c ∧ front <:+ cs.take i ∧ back <+: cs.drop (i + 1) := by
  constructor
  · rintro ⟨hle, rest, hrest⟩
    -- Cut at the index, the characters have the front of the text before it and the back behind
    -- it.
    have hlt : i - front.length < cs.length := by
      by_contra hnot
      rw [List.drop_eq_nil_of_le (by omega)] at hrest
      simp at hrest
    obtain ⟨first, hfirst, hcs⟩ : ∃ first : List Char,
        first.length = i - front.length ∧ cs = (first ++ front) ++ c :: (back ++ rest) := by
      refine ⟨cs.take (i - front.length), List.length_take_of_le (Nat.le_of_lt hlt), ?_⟩
      conv_lhs => rw [← List.take_append_drop (i - front.length) cs, ← hrest]
      simp
    have hi : i = (first ++ front).length := by rw [List.length_append]; omega
    rw [hcs, hi, List.getElem?_append_right (Nat.le_refl _), Nat.sub_self, List.take_left,
      ← List.tail_drop, List.drop_left]
    exact ⟨rfl, List.suffix_append _ _, List.prefix_append _ _⟩
  · rintro ⟨hat, ⟨first, hfirst⟩, rest, hrest⟩
    obtain ⟨hi, rfl⟩ := List.getElem?_eq_some_iff.mp hat
    have hlength : first.length + front.length = i := by
      rw [← List.length_append, hfirst, List.length_take_of_le (Nat.le_of_lt hi)]
    have hcs : cs = first ++ (front ++ cs[i] :: back ++ rest) := by
      conv_lhs => rw [← List.take_append_drop i cs, List.drop_eq_getElem_cons hi, ← hfirst, ← hrest]
      simp
    have hdrop : cs.drop (i - front.length) = front ++ cs[i] :: back ++ rest := by
      conv_lhs => rw [hcs]
      exact List.drop_left' (by omega)
    exact ⟨by omega, rest, hdrop.symm⟩

/-- The texts that are replaced, and what they are replaced by. -/
theorem replaced_eq :
    "namespace export ".toList = "namespace ".toList ++ 'e' :: "xport ".toList ∧
      ("namespace " ++ respelled ++ " ").toList
        = "namespace ".toList ++ lookalike :: "xport ".toList ∧
      "sap.ui.export.".toList = "sap.ui.".toList ++ 'e' :: "xport.".toList ∧
      ("sap.ui." ++ respelled ++ ".").toList
        = "sap.ui.".toList ++ lookalike :: "xport.".toList := by
  decide

/-- Where the name has been respelled in declarations, the dotted path stands as it did before. -/
theorem spans_respelled {between : List Char}
    (h : ∀ i, between[i]? = if Spans ("namespace ".toList ++ 'e' :: "xport ".toList)
      "namespace ".toList.length cs i then some lookalike else cs[i]?) (i : Nat) :
    Spans ("sap.ui.".toList ++ 'e' :: "xport.".toList) "sap.ui.".toList.length between i ↔
      Spans ("sap.ui.".toList ++ 'e' :: "xport.".toList) "sap.ui.".toList.length cs i := by
  refine and_congr_right fun hle => ?_
  simp only [List.prefix_iff_getElem?, List.getElem?_drop, h]
  constructor
  · intro hall k hk
    have hat := hall k hk
    split at hat
    · have hmem := List.getElem_mem hk
      rw [← Option.some.inj hat] at hmem
      exact absurd hmem (by decide)
    · exact hat
  · intro hall k hk
    rw [if_neg, hall k hk]
    -- The letter in a declaration is followed by the word and a blank, that in the path by a dot.
    rintro hspans
    obtain ⟨hat, -, hback⟩ := spans_iff.mp hspans
    have hletter : ∀ k (hk : k < ("sap.ui.".toList ++ 'e' :: "xport.".toList).length),
        ("sap.ui.".toList ++ 'e' :: "xport.".toList)[k] = 'e' → k = 7 := by decide
    obtain rfl := hletter k hk (Option.some.inj ((hall k hk).symm.trans hat))
    have hblank := List.prefix_iff_getElem?.mp hback 5 (by decide)
    have hdot := hall 13 (by decide)
    rw [List.getElem?_drop] at hblank
    have hsame : i - "sap.ui.".toList.length + 7 + 1 + 5 = i - "sap.ui.".toList.length + 13 := rfl
    rw [hsame, hdot] at hblank
    exact absurd hblank (by decide)

/-- Being changed for one reason or for another is being changed for either of them. -/
theorem ite_or_eq {α : Type} {P A B : Prop} [Decidable P] [Decidable A] [Decidable B] (x y : α) :
    (if P ∧ B then x else if P ∧ A then x else y) = if P ∧ (A ∨ B) then x else y := by
  by_cases hP : P <;> by_cases hA : A <;> by_cases hB : B <;> simp [hP, hA, hB]

/-- The patch respells letter by letter. -/
theorem toList_respellExport (text : String) :
    (respellExport text).toList = respellIn [] text.toList [] := by
  obtain ⟨hold, hnew, hold', hnew'⟩ := replaced_eq
  have hdeclared (i : Nat) : (replaceFrom ("namespace ".toList ++ 'e' :: "xport ".toList)
        ("namespace ".toList ++ lookalike :: "xport ".toList) 0 text.toList)[i]?
      = if Spans ("namespace ".toList ++ 'e' :: "xport ".toList) "namespace ".toList.length
          text.toList i then some lookalike else text.toList[i]? :=
    Text.getElem?_replaceFrom lookalike (by simp) text.toList i
  refine List.ext_getElem? fun i => ?_
  rw [getElem?_respellIn]
  simp only [respellExport, Text.replace, String.toList_ofList, hold, hnew, hold', hnew']
  rw [Text.getElem?_replaceFrom lookalike (by simp), hdeclared,
    if_congr (spans_respelled hdeclared i) rfl rfl]
  simp only [spans_iff, Around, List.nil_append, List.append_nil]
  exact ite_or_eq _ _

/-! ## What is in front and what is behind -/

section Context

variable {part front rest : List Char} {c : Char}

/-- Where no beginning of a text ends what is in front, the text ends there only as a whole. -/
theorem isSuffix_append_iff (h : ∀ u, u ≠ [] → u <+: part → ¬ u <:+ front) :
    part <:+ front ++ cs ↔ part <:+ cs := by
  refine ⟨fun hpart => ?_, fun hpart => hpart.trans (List.suffix_append _ _)⟩
  obtain hshort | ⟨u, rfl⟩ := List.suffix_or_suffix_of_suffix hpart (List.suffix_append front cs)
  · exact hshort
  · by_cases hu : u = []
    · rw [hu, List.nil_append]
    · obtain ⟨first, hfirst⟩ := hpart
      rw [← List.append_assoc, List.append_left_inj] at hfirst
      exact absurd ⟨first, hfirst⟩ (h u hu (List.prefix_append _ _))

/-- A text goes on at most to a character that can only be its last one. -/
theorem isPrefix_append_cons_iff (h : c ∉ part.dropLast) :
    part <+: cs ++ c :: rest ↔ part <+: cs ++ [c] := by
  have hfront : cs ++ [c] <+: cs ++ c :: rest := ⟨rest, by simp⟩
  refine ⟨fun hpart => ?_, fun hpart => hpart.trans hfront⟩
  obtain hshort | ⟨more, rfl⟩ := List.prefix_or_prefix_of_prefix hpart hfront
  · exact hshort
  · cases more with
    | nil => rw [List.append_nil]
    | cons d more => simp [List.dropLast_append_of_ne_nil] at h

/-- A character that a part does not have is where looking for the part can stop. -/
theorem isPrefix_append_cons_iff_of_not_mem (h : c ∉ part) :
    part <+: cs ++ c :: rest ↔ part <+: cs := by
  rw [isPrefix_append_cons_iff fun hmem => h (List.mem_of_mem_dropLast hmem),
    List.prefix_concat_iff]
  exact or_iff_right fun heq => h (heq ▸ by simp)

/-- A text whose first character does not come again ends itself with more behind only if that is
nothing, or ends in it. -/
theorem isSuffix_self_append_iff (hfirst : ∀ a ∈ part.head?, a ∉ part.tail) :
    part <:+ part ++ cs ↔ cs = [] ∨ part <:+ cs := by
  constructor
  · intro hpart
    obtain hshort | ⟨u, hu⟩ := List.suffix_or_suffix_of_suffix hpart (List.suffix_append part cs)
    · exact .inr hshort
    · cases u with
      | nil => exact .inr (hu ▸ List.suffix_rfl)
      | cons a u =>
        obtain ⟨first, hcs⟩ := hpart
        rw [← hu, ← List.append_assoc, List.append_left_inj] at hcs
        cases first with
        | nil => exact .inl (List.append_cancel_left (hcs.symm.trans (List.append_nil _).symm))
        | cons b first =>
          obtain ⟨rfl, htail⟩ := List.cons.inj hcs
          change first ++ b :: u = u ++ cs at htail
          refine absurd ?_ (hfirst b (by rw [← hu]; rfl))
          rw [← hu, List.cons_append, List.tail_cons, ← htail]
          exact List.mem_append_right _ List.mem_cons_self
  · rintro (rfl | hpart)
    · rw [List.append_nil]
    · exact hpart.trans (List.suffix_append _ _)

end Context

/-- Nothing in front of a letter that is respelled begins in such characters, whatever is in front
of them. -/
def Shuts (cs : List Char) : Prop :=
  ∀ part ∈ ["namespace ".toList, "sap.ui.".toList], ∀ u, u ≠ [] → u <+: part →
    ∀ front, ¬ u <:+ front ++ cs

/-- What shuts off still does so with more in front of it. -/
theorem Shuts.append (h : Shuts cs) (front : List Char) : Shuts (front ++ cs) :=
  fun part hpart u hu hprefix more => by
    rw [← List.append_assoc]
    exact h part hpart u hu hprefix (more ++ front)

/-- A character that the texts do not have. -/
theorem shuts_of_not_mem {c : Char} (h : c ∉ "namespace ".toList ++ "sap.ui.".toList) :
    Shuts [c] := by
  intro part hpart u hu hprefix front hsuffix
  obtain rfl | ⟨first, rfl, -⟩ := List.suffix_concat_iff.mp hsuffix
  · exact hu rfl
  · have hc : c ∈ part := hprefix.subset (by simp)
    simp only [List.mem_cons, List.not_mem_nil, or_false] at hpart
    rw [List.mem_append] at h
    obtain rfl | rfl := hpart
    · exact h (.inl hc)
    · exact h (.inr hc)

/-- A blank behind another letter than the one that it follows in a declaration. -/
theorem shuts_blank {c : Char} (h : c ≠ 'e') : Shuts [c, ' '] := by
  intro part hpart u hu hprefix front hsuffix
  rw [show front ++ [c, ' '] = (front ++ [c]) ++ [' '] by simp] at hsuffix
  obtain rfl | ⟨first, rfl, hfirst⟩ := List.suffix_concat_iff.mp hsuffix
  · exact hu rfl
  have hblank : ' ' ∈ part := hprefix.subset (by simp)
  simp only [List.mem_cons, List.not_mem_nil, or_false] at hpart
  obtain rfl | rfl := hpart
  · rw [show "namespace ".toList = "namespace".toList ++ [' '] by decide] at hprefix
    obtain hwhole | hshort := List.prefix_concat_iff.mp hprefix
    · rw [(List.append_left_inj _).mp hwhole] at hfirst
      rw [show "namespace".toList = "namespac".toList ++ ['e'] by decide] at hfirst
      obtain hnil | ⟨more, hmore, -⟩ := List.suffix_concat_iff.mp hfirst
      · exact absurd hnil (by decide)
      · exact h (by simpa using (List.append_inj_right' hmore rfl).symm)
    · exact absurd (hshort.subset (List.mem_append_right _ List.mem_cons_self)) (by decide)
  · exact absurd hblank (by decide)

/-- Behind characters that shut, only what follows them matters in front of a letter. -/
theorem Shuts.around_iff (h : Shuts before) (front after : List Char) :
    Around (before ++ front) after ↔ Around front after := by
  have hsuffix (part : List Char) (hpart : part ∈ ["namespace ".toList, "sap.ui.".toList]) :
      part <:+ before ++ front ↔ part <:+ front :=
    isSuffix_append_iff fun u hu hprefix => h part hpart u hu hprefix []
  rw [Around, Around, hsuffix _ (by simp), hsuffix _ (by simp)]

/-- What comes after a character that neither text has does not matter behind a letter. -/
theorem around_append_cons_iff {c : Char} (h : c ∉ "xport .".toList)
    (before front rest : List Char) :
    Around before (front ++ c :: rest) ↔ Around before front := by
  have hwords : "xport ".toList ++ "xport.".toList ⊆ "xport .".toList := by decide
  have hword : c ∉ "xport ".toList := fun hmem => h (hwords (List.mem_append_left _ hmem))
  have hpath : c ∉ "xport.".toList := fun hmem => h (hwords (List.mem_append_right _ hmem))
  rw [Around, Around, isPrefix_append_cons_iff_of_not_mem hword,
    isPrefix_append_cons_iff_of_not_mem hpath]

/-- Behind what shuts off, characters are respelled as on their own. -/
theorem respellIn_of_shuts (h : Shuts before) (cs after : List Char) :
    respellIn before cs after = respellIn [] cs after :=
  respellIn_eq_iff.mpr fun front _ _ => h.around_iff front _

/-- In front of a character that neither pattern has behind the letter, characters are respelled as
if nothing followed. -/
theorem respellIn_append_cons {c : Char} (h : c ∉ "xport .".toList) (before cs rest : List Char) :
    respellIn before cs (c :: rest) = respellIn before cs [] :=
  respellIn_eq_iff.mpr fun front back _ => by
    rw [around_append_cons_iff h, List.append_nil]

/-- Characters stay as they are exactly if no letter among them is respelled. -/
theorem respellIn_eq_self_iff :
    respellIn before cs after = cs ↔
      ∀ front back, cs = front ++ 'e' :: back → ¬ Around (before ++ front) (back ++ after) := by
  induction cs generalizing before with
  | nil => simp [respellIn]
  | cons c rest ih =>
    have hhead : (if c = 'e' ∧ Around before (rest ++ after) then lookalike else c) = c ↔
        (c = 'e' → ¬ Around before (rest ++ after)) := by
      have hletter : lookalike ≠ 'e' := by decide
      split
      · next h => simp [h.1, h.2, hletter]
      · next h => exact iff_of_true rfl fun hc hboth => h ⟨hc, hboth⟩
    rw [respellIn, List.cons.injEq, ih, hhead]
    constructor
    · rintro ⟨hfirst, hrest⟩ front back hsplit
      cases front with
      | nil =>
        obtain ⟨rfl, rfl⟩ := List.cons.inj hsplit
        simpa using hfirst rfl
      | cons d front =>
        obtain ⟨rfl, rfl⟩ := List.cons.inj hsplit
        simpa using hrest front back rfl
    · intro h
      refine ⟨?_, fun front back hsplit => ?_⟩
      · rintro rfl
        simpa using h [] rest rfl
      · simpa using h (c :: front) back (by rw [hsplit]; rfl)

/-- Without the letter nothing is respelled. -/
theorem respellIn_of_not_mem (h : 'e' ∉ cs) (before after : List Char) :
    respellIn before cs after = cs :=
  respellIn_eq_self_iff.mpr fun front back hsplit => absurd (hsplit ▸ by simp) h

/-! ## Texts -/

/-- A text as it is respelled between two others. -/
def respelledIn (before text after : String) : String :=
  String.ofList (respellIn before.toList text.toList after.toList)

/-- The patch respells a whole text with nothing around it. -/
theorem respellExport_eq (text : String) : respellExport text = respelledIn "" text "" :=
  String.toList_injective (by rw [toList_respellExport, respelledIn, String.toList_ofList]; rfl)

/-- Of two texts in a row each is respelled with the other one around it. -/
theorem respelledIn_append (before text more after : String) :
    respelledIn before (text ++ more) after
      = respelledIn before text (more ++ after) ++ respelledIn (before ++ text) more after := by
  simp only [respelledIn, String.toList_append, respellIn_append, String.ofList_append]

/-- Searching answers that a part occurs exactly if the characters have it as an infix. -/
theorem occurs_iff {part cs : List Char} : Text.occurs part cs = true ↔ part <:+: cs := by
  induction cs with
  | nil => simp [Text.occurs]
  | cons c rest ih => rw [Text.occurs, Bool.or_eq_true, ih, List.isPrefixOf_iff_prefix,
      List.infix_cons_iff]

/-- A text stands among characters exactly if its parts stand around one of them. -/
theorem isInfix_iff {front back cs : List Char} {c : Char} :
    front ++ c :: back <:+: cs ↔
      ∃ before after, cs = before ++ c :: after ∧ front <:+ before ∧ back <+: after := by
  constructor
  · rintro ⟨first, last, rfl⟩
    exact ⟨first ++ front, back ++ last, by simp, List.suffix_append _ _, List.prefix_append _ _⟩
  · rintro ⟨_, _, rfl, ⟨first, rfl⟩, last, rfl⟩
    exact ⟨first, last, by simp⟩

/-- A text stays as it is exactly if neither the declaration nor the path stands in it. -/
theorem respellExport_eq_self_iff (text : String) :
    respellExport text = text ↔ Text.contains text "namespace export " = false ∧
      Text.contains text "sap.ui.export." = false := by
  obtain ⟨hold, -, hold', -⟩ := replaced_eq
  rw [← String.toList_inj, toList_respellExport, respellIn_eq_self_iff, Text.contains,
    Text.contains, hold, hold', ← Bool.not_eq_true, ← Bool.not_eq_true, occurs_iff, occurs_iff,
    isInfix_iff, isInfix_iff]
  simp only [List.nil_append, List.append_nil, Around]
  constructor
  · intro h
    exact ⟨fun ⟨front, back, hsplit, hboth⟩ => h front back hsplit (.inl hboth),
      fun ⟨front, back, hsplit, hboth⟩ => h front back hsplit (.inr hboth)⟩
  · rintro ⟨hdeclared, hpath⟩ front back hsplit (hboth | hboth)
    · exact hdeclared ⟨front, back, hsplit, hboth⟩
    · exact hpath ⟨front, back, hsplit, hboth⟩

/-! ## Lines -/

/-- The texts in front of a line feed and behind it are respelled on their own. -/
theorem respellExport_append_newline (text more : String) :
    respellExport (text ++ "\n" ++ more) = respellExport text ++ "\n" ++ respellExport more := by
  have hshuts : Shuts (text.toList ++ ['\n']) := (shuts_of_not_mem (by decide)).append _
  have hfeed : respellIn text.toList ['\n'] more.toList = ['\n'] :=
    respellIn_of_not_mem (by decide) _ _
  have hfront : respellIn [] text.toList ('\n' :: more.toList) = respellIn [] text.toList [] :=
    respellIn_append_cons (by decide) [] _ _
  refine String.toList_injective ?_
  simp only [String.toList_append, toList_respellExport, show "\n".toList = ['\n'] from rfl,
    respellIn_append, List.nil_append, List.singleton_append, List.append_nil]
  rw [hfront, hfeed, respellIn_of_shuts hshuts]

/-- Lines are respelled one by one. -/
theorem respellExport_lines (lines : List String) :
    respellExport (String.join (lines.map (· ++ "\n")))
      = String.join ((lines.map respellExport).map (· ++ "\n")) := by
  induction lines with
  | nil => decide
  | cons line rest ih =>
    rw [List.map_cons, List.map_cons, List.map_cons, String.join_cons, String.join_cons,
      respellExport_append_newline, ih]

/-- Blanks in front of a text stay there. -/
theorem respellExport_margin_append (depth : Nat) (text : String) :
    respellExport (Declaration.Line.margin depth ++ text)
      = Declaration.Line.margin depth ++ respellExport text := by
  have hblank : ∀ c ∈ (Declaration.Line.margin depth).toList, c = ' ' := by
    intro c hc
    rw [Declaration.Line.margin, String.toList_ofList] at hc
    exact (List.mem_replicate.mp hc).2
  have hsame : respellIn (Declaration.Line.margin depth).toList text.toList []
      = respellIn [] text.toList [] := by
    refine respellIn_eq_iff.mpr fun front back _ => ?_
    have hsuffix (part : List Char) (hpart : ∀ a ∈ part.head?, a ≠ ' ') :
        part <:+ (Declaration.Line.margin depth).toList ++ front ↔ part <:+ front := by
      refine isSuffix_append_iff fun u hu hprefix hsuffix => ?_
      obtain ⟨a, rest, rfl⟩ := List.exists_cons_of_ne_nil hu
      refine hpart a ?_ (hblank a (hsuffix.subset List.mem_cons_self))
      obtain ⟨more, rfl⟩ := hprefix
      rfl
    rw [Around, Around, hsuffix _ (by simp), hsuffix _ (by simp)]
    rfl
  refine String.toList_injective ?_
  rw [toList_respellExport, String.toList_append, respellIn_append, List.nil_append, hsame,
    respellIn_of_not_mem (fun hmem => absurd (hblank 'e' hmem) (by decide)), String.toList_append,
    toList_respellExport]

end Ambient.Patch

namespace Ambient.Declaration.Line

open Patch

/-- A line with its text respelled. -/
def respelled (l : Line) : Line := { l with text := respellExport l.text }

/-- A text is empty exactly if it is empty once respelled. -/
theorem isEmpty_respellExport (text : String) : (respellExport text).isEmpty = text.isEmpty := by
  have hlength : (respellExport text).toList.length = text.toList.length := by
    rw [toList_respellExport, length_respellIn]
  rw [String.length_toList, String.length_toList] at hlength
  rw [Bool.eq_iff_iff, String.isEmpty_iff, String.isEmpty_iff, ← String.length_eq_zero_iff, hlength,
    String.length_eq_zero_iff]

/-- A line stays as it is exactly if its text does. -/
theorem respelled_eq_self_iff (l : Line) : l.respelled = l ↔ respellExport l.text = l.text := by
  obtain ⟨depth, text⟩ := l
  rw [respelled, mk.injEq]
  exact and_iff_right rfl

/-- What is written in front of the line feed of a line. -/
def front (l : Line) : String := if l.text.isEmpty then "" else margin l.depth ++ l.text

/-- A written line is its indented text with a line break behind it. -/
theorem written_eq (l : Line) : l.written = l.front ++ "\n" := by
  rw [written, front]
  split <;> simp

/-- Respelling the indented text of a line is respelling the line. -/
theorem respellExport_front (l : Line) : respellExport l.front = l.respelled.front := by
  rw [front, front, respelled, isEmpty_respellExport]
  split
  · decide
  · exact respellExport_margin_append l.depth l.text

/-- Lines put together are respelled line by line. -/
theorem respellExport_join (lines : List Line) :
    respellExport (join lines) = join (lines.map respelled) := by
  have hjoin (lines : List Line) :
      join lines = String.join ((lines.map front).map (· ++ "\n")) := by
    rw [join, List.map_map]
    exact congrArg String.join (List.map_congr_left fun line _ => written_eq line)
  have hfronts : (lines.map front).map respellExport = (lines.map respelled).map front := by
    simp only [List.map_map, Function.comp_def, respellExport_front]
  calc respellExport (join lines)
      = String.join (((lines.map front).map respellExport).map (· ++ "\n")) := by
        rw [hjoin, respellExport_lines]
    _ = String.join (((lines.map respelled).map front).map (· ++ "\n")) :=
        congrArg (fun fronts => String.join (fronts.map (· ++ "\n"))) hfronts
    _ = join (lines.map respelled) := (hjoin _).symm

end Ambient.Declaration.Line
