import Mathlib.Data.List.Chain
import Ambient.Declaration.Render

/-!
# Comments that end once

Free text reaches a comment through many fields, and not all of them are cut to one line. Where a
text has the sequence that ends a comment, it is broken up, and none comes about where two parts
meet: between them stands a blank, or a line ends. So the sequence is found in the text of a comment
only at its very end, however far the lines are indented.
-/

namespace Ambient

/-! ## Two neighbouring characters -/

section Pair

variable {α : Type} {R : α → α → Prop} {a b : α} {front rest before after : List α}

/-- Two elements that are not related stand side by side only once in a list, if neighbours are
related up to the first of them and from the second on. -/
theorem append_pair_eq (hpair : ¬ R a b) (hfront : (front ++ [a]).IsChain R)
    (hrest : (b :: rest).IsChain R) (h : front ++ a :: b :: rest = before ++ a :: b :: after) :
    before = front ∧ after = rest := by
  obtain hlt | heq | hgt := lt_trichotomy before.length front.length
  · have hbefore : before ++ [a, b] <+: front ++ a :: b :: rest := ⟨after, by simpa using h.symm⟩
    have hwithin : before ++ [a, b] <+: front ++ [a] :=
      List.prefix_of_prefix_length_le hbefore ⟨b :: rest, by simp⟩ (by simp; omega)
    have hchain : (before ++ [a, b]).IsChain R := List.IsChain.prefix hfront hwithin
    exact absurd (List.isChain_pair.mp hchain.right_of_append) hpair
  · obtain ⟨rfl, hbehind⟩ := List.append_inj h heq.symm
    exact ⟨rfl, by simpa using hbehind.symm⟩
  · have hlength := congrArg List.length h
    simp only [List.length_append, List.length_cons] at hlength
    have hafter : a :: b :: after <:+ front ++ a :: b :: rest := ⟨before, h.symm⟩
    have hwithin : a :: b :: after <:+ b :: rest :=
      List.suffix_of_suffix_length_le hafter ⟨front ++ [a], by simp⟩ (by simp; omega)
    exact absurd (List.isChain_cons_cons.mp (hrest.suffix hwithin)).1 hpair

end Pair

namespace Comment

open Api
open Text (replaceFrom)

variable {c d : Char} {cs ds : List Char} {margin : String}

/-- Whether two neighbouring characters do not end a comment. -/
def Apart (c d : Char) : Prop := ¬ (c = '*' ∧ d = '/')

/-- A character other than the star begins no end of a comment. -/
theorem apart_of_left (h : c ≠ '*') : Apart c d := fun hpair => h hpair.1

/-- A character other than the slash completes no end of a comment. -/
theorem apart_of_right (h : d ≠ '/') : Apart c d := fun hpair => h hpair.2

/-- What does not end a comment, in front of something that does not start with the second
character. -/
theorem isChain_append (hcs : cs.IsChain Apart) (hds : ds.IsChain Apart)
    (h : ds.head? ≠ some '/') : (cs ++ ds).IsChain Apart :=
  hcs.append hds fun _ _ _ hd => apart_of_right fun hslash => h (hslash ▸ hd)

/-- Behind the end of a line, anything may stand. -/
theorem isChain_newline (hcs : cs.IsChain Apart) (hds : ds.IsChain Apart) :
    (cs ++ '\n' :: ds).IsChain Apart :=
  isChain_append hcs (hds.cons fun _ _ => apart_of_left (by decide)) (by simp)

/-- Characters without a slash have no end of a comment among them. -/
theorem isChain_of_not_mem (h : '/' ∉ cs) : cs.IsChain Apart := by
  induction cs with
  | nil => exact .nil
  | cons c rest ih =>
    rw [List.mem_cons, not_or] at h
    refine (ih h.2).cons fun d hd => apart_of_right ?_
    rintro rfl
    exact h.2 (List.mem_of_mem_head? hd)

/-! ## Lines -/

/-- Breaking up the sequence does not change how a text starts. -/
theorem head?_replaceFrom (cs : List Char) :
    (replaceFrom ['*', '/'] ['*', '\\', '/'] 0 cs).head? = cs.head? := by
  cases cs with
  | nil => rfl
  | cons c rest =>
    rw [replaceFrom]
    split
    · next hprefix =>
      obtain ⟨behind, hbehind⟩ := List.isPrefixOf_iff_prefix.mp hprefix
      rw [← (List.cons.inj hbehind).1]
      rfl
    · rfl

/-- Where the sequence is broken up, nothing ends a comment. -/
theorem isChain_replaceFrom (cs : List Char) :
    ∀ skip, (replaceFrom ['*', '/'] ['*', '\\', '/'] skip cs).IsChain Apart := by
  induction cs with
  | nil => exact fun skip => by cases skip <;> exact .nil
  | cons c rest ih =>
    intro skip
    cases skip with
    | succ skip => exact ih skip
    | zero =>
      rw [replaceFrom]
      split
      · have hnew : ['*', '\\', '/'].IsChain Apart := by simp [Apart]
        refine hnew.append (ih _) fun last hlast _ _ => apart_of_left ?_
        rw [← Option.some.inj hlast]
        decide
      · next hprefix =>
        refine (ih 0).cons fun d hd => ?_
        rw [head?_replaceFrom] at hd
        rintro ⟨rfl, rfl⟩
        obtain ⟨behind, rfl⟩ := List.head?_eq_some_iff.mp hd
        exact hprefix rfl

/-- A line inside a comment does not end it. -/
theorem isChain_line (text : String) : (line text).toList.IsChain Apart := by
  rw [line]
  split
  · exact isChain_of_not_mem (by decide)
  · have hstart : (" * ".toList).IsChain Apart := isChain_of_not_mem (by decide)
    have hescaped : (Text.replace text "*/" "*\\/").toList.IsChain Apart := by
      rw [Text.replace, String.toList_ofList]
      exact isChain_replaceFrom text.toList 0
    rw [String.toList_append]
    -- A blank stands in front of the text, so that a slash it starts with ends nothing.
    refine hstart.append hescaped fun last hlast _ _ => apart_of_left ?_
    rw [← Option.some.inj hlast]
    decide

/-! ## Texts -/

/-- The text of lines behind a margin. -/
def textAt (margin : String) (lines : List String) : String :=
  String.join (lines.map fun line => margin ++ line ++ "\n")

/-- No lines give no text. -/
@[simp]
theorem textAt_nil (margin : String) : textAt margin [] = "" := rfl

/-- The text of lines starts with the first of them behind the margin. -/
theorem textAt_cons (margin first : String) (rest : List String) :
    textAt margin (first :: rest) = margin ++ first ++ "\n" ++ textAt margin rest := by
  simp [textAt]

/-- The text of two runs of lines is that of the first, then that of the second. -/
theorem textAt_append (margin : String) (front back : List String) :
    textAt margin (front ++ back) = textAt margin front ++ textAt margin back := by
  simp [textAt]

/-- Lines at a depth of nesting are written behind the margin of that depth, if none of them is
empty. -/
theorem join_leveled (depth : Nat) {lines : List String} (h : ∀ line ∈ lines, line ≠ "") :
    Declaration.Line.join (Declaration.Line.leveled depth lines)
      = textAt (Declaration.Line.margin depth) lines := by
  have hwritten : ∀ line ∈ lines, (Declaration.Line.mk depth line).written
      = Declaration.Line.margin depth ++ line ++ "\n" := by
    intro line hline
    simp [Declaration.Line.written, h line hline]
  rw [Declaration.Line.join, Declaration.Line.leveled, List.map_map, textAt]
  exact congrArg String.join (List.map_congr_left hwritten)

/-- The lines between the first and the last one of a comment. -/
def middle (c : Comment) : List String :=
  c.body.map line ++ (if c.body.isEmpty || c.tags.isEmpty then [] else [" *"]) ++ c.tags.map line

/-- An empty comment has no lines. -/
theorem lines_of_isEmpty {c : Comment} (h : c.isEmpty = true) : c.lines = [] := by
  rw [lines, if_pos h]

/-- The lines of a comment that says something are the opening one, those between, and the closing
one. -/
theorem lines_of_not_isEmpty {c : Comment} (h : ¬ c.isEmpty = true) :
    c.lines = "/**" :: c.middle ++ [" */"] := by
  simp [lines, middle, h]

/-- A line between is a written text or the line that parts the free text from the tags. -/
theorem of_mem_middle {c : Comment} {text : String} (h : text ∈ c.middle) :
    (∃ inner, text = line inner) ∨ text = " *" := by
  simp only [middle, List.mem_append, List.mem_map] at h
  obtain (⟨inner, -, rfl⟩ | hseparator) | ⟨inner, -, rfl⟩ := h
  · exact .inl ⟨inner, rfl⟩
  · split at hseparator
    · exact absurd hseparator List.not_mem_nil
    · exact .inr (List.mem_singleton.mp hseparator)
  · exact .inl ⟨inner, rfl⟩

/-- A line of a comment is never empty. -/
theorem line_ne_empty (text : String) : line text ≠ "" := by
  rw [line]
  split <;> simp

/-- No line of a comment is empty. -/
theorem ne_empty_of_mem_lines {c : Comment} {text : String} (h : text ∈ c.lines) : text ≠ "" := by
  by_cases hc : c.isEmpty = true
  · rw [lines_of_isEmpty hc] at h
    exact absurd h List.not_mem_nil
  rw [lines_of_not_isEmpty hc, List.cons_append, List.mem_cons, List.mem_append,
    List.mem_singleton] at h
  obtain rfl | hmiddle | rfl := h
  · decide
  · obtain ⟨inner, rfl⟩ | rfl := of_mem_middle hmiddle
    · exact line_ne_empty inner
    · decide
  · decide

section Margin

variable (hmargin : ∀ c ∈ margin.toList, Text.isBlank c = true)
include hmargin

/-- A margin of blanks has no other characters in it. -/
theorem not_mem_margin (h : Text.isBlank c = false) : c ∉ margin.toList := fun hmem => by
  simp [hmargin c hmem] at h

/-- A margin of blanks has no end of a comment in it. -/
theorem isChain_margin : margin.toList.IsChain Apart :=
  isChain_of_not_mem (not_mem_margin hmargin (by decide))

/-- The text of lines does not end a comment if no line does. -/
theorem isChain_textAt {lines : List String} (h : ∀ line ∈ lines, line.toList.IsChain Apart) :
    (textAt margin lines).toList.IsChain Apart := by
  induction lines with
  | nil => exact .nil
  | cons first rest ih =>
    rw [List.forall_mem_cons] at h
    have hfirst : (margin.toList ++ first.toList).IsChain Apart := by
      refine (isChain_margin hmargin).append h.1 fun last hlast _ _ => apart_of_left ?_
      rintro rfl
      exact not_mem_margin hmargin (by decide) (List.mem_of_mem_getLast? hlast)
    have hlines := isChain_newline hfirst (ih h.2)
    simpa [textAt_cons] using hlines

/-- What stands in front of the last character of a comment does not end it. -/
theorem isChain_front (c : Comment) :
    ((textAt margin ("/**" :: c.middle)).toList ++ margin.toList ++ [' '] ++ ['*']).IsChain
      Apart := by
  have hlines : ∀ text ∈ "/**" :: c.middle, text.toList.IsChain Apart := by
    intro text htext
    rw [List.mem_cons] at htext
    obtain rfl | hmiddle := htext
    · simp [Apart]
    obtain ⟨inner, rfl⟩ | rfl := of_mem_middle hmiddle
    · exact isChain_line inner
    · exact isChain_of_not_mem (by decide)
  have hslash := not_mem_margin hmargin (c := '/') (by decide)
  have hlast : '/' ∉ margin.toList ++ ([' '] ++ ['*']) := by simp [hslash]
  rw [List.append_assoc, List.append_assoc]
  refine isChain_append (isChain_textAt hmargin hlines) (isChain_of_not_mem hlast) fun hhead => ?_
  exact hlast (List.mem_of_mem_head? hhead)

end Margin

/-- The text is one comment behind a margin: the sequence that ends it stands in it only once, at
the end of its last line. -/
def EndsOnce (margin text : String) : Prop :=
  ∃ inner, text = margin ++ "/**" ++ inner ++ "*/\n" ∧
    ∀ before after, text = before ++ "*/" ++ after →
      before = margin ++ "/**" ++ inner ∧ after = "\n"

/-- The text of a comment that says something ends the comment only once. -/
theorem endsOnce_textAt (hmargin : ∀ c ∈ margin.toList, Text.isBlank c = true) {c : Comment}
    (hc : ¬ c.isEmpty = true) : EndsOnce margin (textAt margin c.lines) := by
  have htext : textAt margin c.lines
      = textAt margin ("/**" :: c.middle) ++ margin ++ " " ++ "*/\n" := by
    rw [lines_of_not_isEmpty hc, textAt_append, textAt_cons margin " */"]
    simp [String.append_assoc]
  refine ⟨"\n" ++ textAt margin c.middle ++ margin ++ " ", ?_, fun before after h => ?_⟩
  · rw [htext, textAt_cons]
    simp only [String.append_assoc]
  · have hsides : (textAt margin ("/**" :: c.middle)).toList ++ margin.toList ++ [' ']
        ++ '*' :: '/' :: ['\n'] = before.toList ++ '*' :: '/' :: after.toList := by
      simpa using congrArg String.toList (htext.symm.trans h)
    obtain ⟨hbefore, hafter⟩ := append_pair_eq (by simp [Apart]) (isChain_front hmargin c)
      (by simp [Apart]) hsides
    constructor
    · refine String.toList_inj.mp (hbefore.trans ?_)
      simp [textAt_cons]
    · exact String.toList_inj.mp hafter

/-- The text of a comment is nothing at all, if the comment says nothing, or ends once. -/
def Sealed (margin : String) (c : Comment) : Prop :=
  (c.isEmpty = true → textAt margin c.lines = "") ∧
    (¬ c.isEmpty = true → EndsOnce margin (textAt margin c.lines))

/-- Behind a margin of blanks every comment is nothing or ends once. -/
theorem sealed_of_blank (hmargin : ∀ c ∈ margin.toList, Text.isBlank c = true) (c : Comment) :
    c.Sealed margin :=
  ⟨fun hc => by rw [lines_of_isEmpty hc, textAt_nil], endsOnce_textAt hmargin⟩

/-- Behind any margin of blanks, the comment for the documentation of a symbol and the comment for
a function are each nothing at all or one comment that ends only at its very end; and at a depth of
nesting the declarations have them with the margin of that depth. -/
theorem documentation_ends_once {margin : String}
    (hmargin : ∀ c ∈ margin.toList, Text.isBlank c = true) (doc : Doc)
    (typeName : DeclaredType → String) (f : Function) (depth : Nat) :
    (ofDoc doc).Sealed margin ∧ (ofFunction typeName f).Sealed margin ∧
      ∀ c : Comment, Declaration.Line.join (Declaration.Line.leveled depth c.lines)
        = textAt (Declaration.Line.margin depth) c.lines :=
  ⟨sealed_of_blank hmargin _, sealed_of_blank hmargin _,
    fun _ => join_leveled depth fun _ => ne_empty_of_mem_lines⟩

/-- A documentation with the end of a comment inside its texts and where two of them meet. -/
def unruly : Doc where
  description := some "/**/ twice */"
  since := some "1.0*/"
  deprecation := some ⟨some "/ late", some "*/*"⟩
  experimental := none
  notes := ["*", "/"]

/-- A function with the end of a comment in the names and defaults of its parameters and in the
texts about its result and its error. -/
def unrulyFunction : Function where
  kind := .functionDesc
  name := "*/"
  isStatic := false
  overwrites := true
  parameters :=
    [.mk ⟨none, "*/a", some (.text "*/"), true, some "/", .unset⟩
      (.shape [("b", .mk ⟨none, "b*", none, true, some "*/", .unset⟩ .unspecified)])]
  returns := some ⟨none, some "*/"⟩
  throws := [⟨some (.simple ⟨"*/T", false, .unset⟩), some "/*/"⟩]
  visibility := none
  doc := unruly
  link := .unset

/-- With the end of a comment inside its texts, and where two of them meet, a comment still ends
once. -/
theorem documentation_ends_once_unruly :
    (∀ c ∈ "    ".toList, Text.isBlank c = true) ∧
      EndsOnce "    " (textAt "    " (ofDoc unruly).lines) ∧
      EndsOnce "    " (textAt "    " (ofFunction (fun _ => "*/T") unrulyFunction).lines) ∧
      Declaration.Line.join (Declaration.Line.leveled 1 (ofDoc unruly).lines)
        = textAt (Declaration.Line.margin 1) (ofDoc unruly).lines := by
  have hmargin : ∀ c ∈ "    ".toList, Text.isBlank c = true := List.all_eq_true.mp rfl
  have h := documentation_ends_once hmargin unruly (fun _ => "*/T") unrulyFunction 1
  exact ⟨hmargin, h.1.2 (by decide), h.2.1.2 (by decide), h.2.2 _⟩

example : (ofDoc unruly).lines
    = ["/**", " * /**\\/ twice *\\/", " *", " * *", " *", " * /", " *", " * @since 1.0*\\/",
      " * @deprecated (since *\\/*) / late", " */"] := by decide

end Comment

end Ambient
