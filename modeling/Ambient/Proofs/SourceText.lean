import Mathlib.Data.List.Basic

/-!
# Lines of source text

In source text a line ends at a line feed, a carriage return, a line separator or a paragraph
separator, where a carriage return and the line feed behind it end one line together. What is
written here ends its lines with a line feed; text from outside can end lines in any of these ways.
-/

namespace Ambient.Text

/-- Whether a character ends a line of source text. -/
def endsLine (c : Char) : Bool := c == '\n' || c == '\r' || c == '\u2028' || c == '\u2029'

/-- The ended lines of the characters to come; `line` holds, last first, the line that is being
read. -/
def endedFrom (line : List Char) : List Char → List (List Char)
  | [] => []
  | c :: rest =>
    if c = '\r' ∧ rest.head? = some '\n' then endedFrom line rest
    else if endsLine c then line.reverse :: endedFrom [] rest
    else endedFrom (c :: line) rest

/-- The lines of a source text that are ended, without what ends them. -/
def endedLines (s : String) : List String := (endedFrom [] s.toList).map String.ofList

/-- Whether characters that a line feed follows are one line with it. A carriage return at the end
only ends the line together with the line feed. -/
def isOneLineChars : List Char → Bool
  | [] => true
  | c :: rest => if c = '\r' then rest.isEmpty else !endsLine c && isOneLineChars rest

/-- Whether a text that a line feed follows is one line with it. -/
def isOneLine (s : String) : Bool := isOneLineChars s.toList

variable {cs front rest : List Char}

/-- Behind a line feed the lines are those of the rest. -/
theorem endedFrom_append_newline (front rest : List Char) :
    ∀ line, endedFrom line (front ++ '\n' :: rest)
      = endedFrom line (front ++ ['\n']) ++ endedFrom [] rest := by
  induction front with
  | nil => exact fun line => rfl
  | cons c behind ih =>
    intro line
    have hhead : (behind ++ '\n' :: rest).head? = (behind ++ ['\n']).head? := by
      cases behind <;> rfl
    rw [List.cons_append, List.cons_append, endedFrom, endedFrom, hhead, ih, ih, ih]
    split
    · rfl
    · split <;> rfl

/-- Characters that end no line belong to the line that is being read. -/
theorem endedFrom_append (h : ∀ c ∈ front, endsLine c = false) :
    ∀ line, endedFrom line (front ++ cs) = endedFrom (front.reverse ++ line) cs := by
  induction front with
  | nil => exact fun line => rfl
  | cons c behind ih =>
    intro line
    obtain ⟨hc, hbehind⟩ := List.forall_mem_cons.mp h
    have hreturn : c ≠ '\r' := by
      rintro rfl
      exact absurd hc (by decide)
    rw [List.cons_append, endedFrom, if_neg fun hboth => hreturn hboth.1, hc,
      if_neg Bool.false_ne_true, ih hbehind, List.reverse_cons, List.append_assoc]
    rfl

/-- Characters that a line feed follows start with a line, the rest of the one that is being read;
there are no others exactly if the characters are one line. -/
theorem exists_endedFrom_newline (cs : List Char) :
    ∃ first others, (∀ line, endedFrom line (cs ++ ['\n']) = (line.reverse ++ first) :: others) ∧
      (others = [] ↔ isOneLineChars cs = true) := by
  induction cs with
  | nil => exact ⟨[], [], fun line => by simp [endedFrom, endsLine], by simp [isOneLineChars]⟩
  | cons c rest ih =>
    obtain ⟨first, others, hlines, hone⟩ := ih
    -- A carriage return in front of a line feed belongs to the same end of a line.
    by_cases hpair : c = '\r' ∧ (rest ++ ['\n']).head? = some '\n'
    · refine ⟨first, others, fun line => ?_, hone.trans ?_⟩
      · rw [List.cons_append, endedFrom, if_pos hpair]
        exact hlines line
      · rw [isOneLineChars, if_pos hpair.1]
        cases rest with
        | nil => rfl
        | cons d behind =>
          have hd : d = '\n' := by simpa using hpair.2
          simp [isOneLineChars, hd, endsLine]
    · by_cases hend : endsLine c = true
      · refine ⟨[], endedFrom [] (rest ++ ['\n']), fun line => ?_, ?_⟩
        · rw [List.cons_append, endedFrom, if_neg hpair, if_pos hend, List.append_nil]
        · rw [hlines, isOneLineChars]
          refine iff_of_false (List.cons_ne_nil _ _) ?_
          split
          · next hreturn =>
            rw [List.isEmpty_iff]
            rintro rfl
            exact hpair ⟨hreturn, rfl⟩
          · simp [hend]
      · refine ⟨c :: first, others, fun line => ?_, hone.trans ?_⟩
        · rw [List.cons_append, endedFrom, if_neg hpair, if_neg hend, hlines, List.reverse_cons,
            List.append_assoc]
          rfl
        · have hreturn : c ≠ '\r' := by
            rintro rfl
            exact hend rfl
          simp [isOneLineChars, hreturn, hend]

/-! ## Texts -/

/-- Behind text that is empty or ends in a line feed, the lines are those of what follows. -/
theorem endedLines_append {before : String} (after : String)
    (h : before = "" ∨ ∃ front, before = front ++ "\n") :
    endedLines (before ++ after) = endedLines before ++ endedLines after := by
  obtain rfl | ⟨front, rfl⟩ := h
  · rw [String.empty_append]
    rfl
  · have hnewline : "\n".toList = ['\n'] := rfl
    simp only [endedLines, String.toList_append, hnewline, List.append_assoc, List.singleton_append]
    rw [endedFrom_append_newline, List.map_append]

/-- Text behind characters that end no line: the first line has them in front, and the others are
lines of the text alone. -/
theorem exists_endedLines_newline {front : String} (h : ∀ c ∈ front.toList, endsLine c = false)
    (text : String) :
    ∃ first others, endedLines (text ++ "\n") = first :: others ∧
      endedLines (front ++ text ++ "\n") = (front ++ first) :: others ∧
      (others = [] ↔ isOneLine text = true) := by
  obtain ⟨first, others, hlines, hone⟩ := exists_endedFrom_newline text.toList
  have hnewline : "\n".toList = ['\n'] := rfl
  refine ⟨.ofList first, others.map .ofList, ?_, ?_, ?_⟩
  · rw [endedLines, String.toList_append, hnewline, hlines]
    rfl
  · rw [endedLines, String.toList_append, String.toList_append, hnewline, List.append_assoc,
      endedFrom_append h, hlines, List.append_nil, List.reverse_reverse, List.map_cons,
      String.ofList_append, String.ofList_toList]
  · rw [List.map_eq_nil_iff, hone]
    rfl

end Ambient.Text
