import Ambient.Proofs.TypeExpr.Meaning
import Ambient.Proofs.TypeExpr.Reading
import Ambient.TypeExpr.Correct

/-!
# Expressions that have been read

What reading makes of a text is proper: its unions have members, and its literals stand in double
quotes, whichever quotes they had. Corrections of names keep it so.
-/

namespace Ambient.TypeExpr

mutual

/-- Whether each union has members and each literal stands in double quotes. -/
def Proper : TypeExpr → Prop
  | .name _ args => ProperAll args
  | .array item => Proper item
  | .union members => members ≠ [] ∧ ProperAll members
  | .keyof operand => Proper operand
  | .literal text => ∃ content, text = String.ofList ('\x22' :: (content ++ ['\x22']))
  | .function | .unparsed _ => True

/-- Whether each of some expressions is proper. -/
def ProperAll : List TypeExpr → Prop
  | [] => True
  | expr :: rest => Proper expr ∧ ProperAll rest

end

/-- A list of expressions is proper exactly if each of them is. -/
theorem properAll_iff {exprs : List TypeExpr} :
    ProperAll exprs ↔ ∀ expr ∈ exprs, Proper expr := by
  induction exprs with
  | nil => simp [ProperAll]
  | cons expr rest ih => simp [ProperAll, ih]

/-- The parts of a proper expression are proper. -/
theorem Proper.part {expr part : TypeExpr} (h : Proper expr) (hpart : part ∈ parts expr) :
    Proper part := by
  cases expr with
  | name word args =>
    rw [Proper, properAll_iff] at h
    exact h part (List.mem_of_mem_take hpart)
  | array item =>
    obtain rfl : part = item := by simpa [parts] using hpart
    rwa [Proper] at h
  | union members =>
    rw [Proper, properAll_iff] at h
    exact h.2 part hpart
  | keyof operand =>
    obtain rfl : part = operand := by simpa [parts] using hpart
    rwa [Proper] at h
  | literal | function | unparsed => simp [parts] at hpart

/-- Whether a token stands in double quotes if it is a literal. -/
def Token.IsQuoted : Token → Prop
  | .literal text => ∃ content, text = String.ofList ('\x22' :: (content ++ ['\x22']))
  | _ => True

/-- Literals are read in double quotes, however they were quoted. -/
theorem isQuoted_of_tokensFrom {skip : Nat} {cs : List Char} {tokens : List Token}
    (h : tokensFrom skip cs = some tokens) : ∀ token ∈ tokens, token.IsQuoted := by
  fun_induction tokensFrom skip cs generalizing tokens with
  | case1 =>
    obtain rfl : [] = tokens := by simpa using h
    simp
  | case2 _ _ _ ih => exact ih h
  | case3 _ _ _ ih => exact ih h
  | case4 c rest _ _ more =>
    rename_i ih
    obtain ⟨others, hothers, ⟨⟩⟩ := Option.bind_eq_some_iff.mp h
    exact List.forall_mem_cons.mpr ⟨trivial, ih hothers⟩
  | case5 c rest _ _ _ ih =>
    obtain ⟨content, -, h⟩ := Option.bind_eq_some_iff.mp h
    obtain ⟨others, hothers, ⟨⟩⟩ := Option.bind_eq_some_iff.mp h
    exact List.forall_mem_cons.mpr ⟨⟨content, rfl⟩, ih content hothers⟩
  | case6 c rest _ _ _ _ ih =>
    obtain ⟨others, hothers, ⟨⟩⟩ := Option.bind_eq_some_iff.mp h
    exact List.forall_mem_cons.mpr ⟨trivial, ih hothers⟩
  | case7 => simp at h

/-- Whether everything in a phrase is proper. -/
def Phrase.Proper : Phrase → Prop
  | .primary _ expr | .postfixed expr | .union expr => TypeExpr.Proper expr
  | .alternatives exprs | .arguments exprs => ProperAll exprs

/-- Arrays of a proper expression are proper. -/
theorem proper_arrays {item : TypeExpr} (h : Proper item) (count : Nat) :
    Proper (arrays count item) := by
  induction count with
  | zero => exact h
  | succ count ih => rwa [arrays_succ', Proper]

/-- What is derived from quoted literals is proper. -/
theorem Derives.proper {longest : Bool} {tokens : List Token} {phrase : Phrase}
    (h : Derives longest tokens phrase) (hquoted : ∀ token ∈ tokens, token.IsQuoted) :
    phrase.Proper := by
  induction h with
  | parenthesized _ ih => exact ih fun token htoken => hquoted token (by simp [htoken])
  | literal text => exact hquoted (.literal text) List.mem_cons_self
  | keyof _ ih => exact ih fun token htoken => hquoted token (by simp [htoken])
  | function => trivial
  | result => trivial
  | name => trivial
  | applied _ _ ih => exact ih fun token htoken => hquoted token (by simp [htoken])
  | postfixed count _ _ ih =>
    exact proper_arrays (ih fun token htoken => hquoted token (by simp [htoken])) count
  | noAlternatives => trivial
  | alternative _ _ ih ihmore =>
    exact ⟨ih fun token htoken => hquoted token (by simp [htoken]),
      ihmore fun token htoken => hquoted token (by simp [htoken])⟩
  | @union _ first _ others _ _ ih ihmore =>
    have hfirst : Proper first := ih fun token htoken => hquoted token (by simp [htoken])
    have hothers : ProperAll others := ihmore fun token htoken => hquoted token (by simp [htoken])
    cases others with
    | nil => exact hfirst
    | cons => exact ⟨List.cons_ne_nil _ _, hfirst, hothers⟩
  | argument _ ih => exact ⟨ih hquoted, trivial⟩
  | arguments _ _ ih ihmore =>
    exact ⟨ih fun token htoken => hquoted token (by simp [htoken]),
      ihmore fun token htoken => hquoted token (by simp [htoken])⟩

/-- What the reader answers is proper. -/
theorem proper_of_parse? {raw : String} {expr : TypeExpr} (h : parse? raw = some expr) :
    Proper expr := by
  obtain ⟨tokens, htokens, hexpr⟩ := Option.bind_eq_some_iff.mp h
  exact (ofTokens?_eq_some_iff.mp hexpr).proper (isQuoted_of_tokensFrom htokens)

/-- What a text is taken for is proper, also if it cannot be read. -/
theorem proper_ofText (raw : String) : Proper (ofText raw) := by
  unfold ofText
  cases h : parse? raw with
  | none => trivial
  | some expr => exact proper_of_parse? h

mutual

/-- Corrections put only in place what has been read. -/
theorem proper_correct (typos : Ordered.Map String String) :
    ∀ expr, Proper expr → Proper (correct typos expr)
  | .name word args, h => by
    rw [correct]
    split
    · split_ifs
      · exact proper_ofText _
      · exact h
    · exact properAll_correctAll typos args h
  | .array item, h => proper_correct typos item h
  | .union [], h => absurd rfl h.1
  | .union (member :: members), h =>
    ⟨List.cons_ne_nil _ _, properAll_correctAll typos (member :: members) h.2⟩
  | .keyof operand, h => proper_correct typos operand h
  | .literal _, h => h
  | .function, _ => trivial
  | .unparsed _, _ => trivial

/-- Correcting names keeps expressions proper. -/
theorem properAll_correctAll (typos : Ordered.Map String String) :
    ∀ exprs, ProperAll exprs → ProperAll (correctAll typos exprs)
  | [], _ => trivial
  | expr :: rest, h => ⟨proper_correct typos expr h.1, properAll_correctAll typos rest h.2⟩

end

end Ambient.TypeExpr
