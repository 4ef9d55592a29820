import Ambient.Library
import Ambient.Proofs.Api.Validity
import Ambient.Proofs.Literal
import Ambient.Proofs.TypeExpr.Composed
import Ambient.Proofs.TypeExpr.Proper
import Mathlib.Data.List.TakeWhile

/-!
# Literals that are written

Names are put into double quotes by escaping quotes and backslashes. A literal type is put into
double quotes as it is, whichever quotes it had. So a name reads back as itself if it is one line,
but the text of a literal type only if it has neither a double quote nor a backslash, either.
-/

namespace Ambient

open Text (endsLine)
open Literal (quoted units isPlainChar)

namespace TypeExpr

open Declaration (Resolver Writing Page)

/-! ## Where literals come from -/

/-- A text has a stretch between two quotes of a kind that does not stand in it. -/
def Quotes (raw : String) (content : List Char) : Prop :=
  ∃ before quote behind, raw.toList = before ++ quote :: (content ++ quote :: behind) ∧
    isQuote quote = true ∧ quote ∉ content

/-- What is read up to a quote has no such quote in it, and the quote behind it. -/
theorem exists_of_untilQuote? {quote : Char} {cs content : List Char}
    (h : untilQuote? quote cs = some content) :
    quote ∉ content ∧ ∃ behind, cs = content ++ quote :: behind := by
  rw [untilQuote?, Option.ite_none_right_eq_some, Option.some.injEq, List.contains_iff_mem] at h
  obtain ⟨hquote, rfl⟩ := h
  constructor
  · intro hmem
    simpa using List.mem_takeWhile_imp hmem
  · have hdrop : (cs.dropWhile fun c => c != quote) ≠ [] := by
      rw [Ne, List.dropWhile_eq_nil_iff]
      exact fun hall => absurd (hall quote hquote) (by simp)
    obtain ⟨first, behind, hbehind⟩ := List.exists_cons_of_ne_nil hdrop
    have hfirst : first = quote := by
      have hhead := List.head?_dropWhile_not (fun c => c != quote) cs
      rw [hbehind] at hhead
      simpa using hhead
    rw [hfirst] at hbehind
    refine ⟨behind, ?_⟩
    rw [← hbehind, List.takeWhile_append_dropWhile]

/-- A literal among the tokens of a text stands between quotes in the text. -/
theorem exists_of_tokensFrom {skip : Nat} {cs : List Char} {tokens : List Token} {text : String}
    (h : tokensFrom skip cs = some tokens) (hmem : .literal text ∈ tokens) :
    ∃ before quote content behind, cs = before ++ quote :: (content ++ quote :: behind) ∧
      isQuote quote = true ∧ quote ∉ content ∧ text = quoted content := by
  fun_induction tokensFrom skip cs generalizing tokens with
  | case1 =>
    obtain rfl : [] = tokens := by simpa using h
    cases hmem
  | case2 _ c rest ih =>
    obtain ⟨before, quote, content, behind, rfl, hrest⟩ := ih h hmem
    exact ⟨c :: before, quote, content, behind, rfl, hrest⟩
  | case3 c rest _ ih =>
    obtain ⟨before, quote, content, behind, rfl, hrest⟩ := ih h hmem
    exact ⟨c :: before, quote, content, behind, rfl, hrest⟩
  | case4 c rest _ _ more =>
    rename_i ih
    obtain ⟨others, hothers, ⟨⟩⟩ := Option.bind_eq_some_iff.mp h
    obtain ⟨before, quote, content, behind, rfl, hrest⟩ := ih hothers (by simpa using hmem)
    exact ⟨c :: before, quote, content, behind, rfl, hrest⟩
  | case5 c rest _ _ hquote ih =>
    obtain ⟨content, hcontent, h⟩ := Option.bind_eq_some_iff.mp h
    obtain ⟨others, hothers, ⟨⟩⟩ := Option.bind_eq_some_iff.mp h
    -- The characters of this literal are skipped behind it, so that another one is found as if
    -- they had been no quotes.
    obtain hfirst | hother := List.mem_cons.mp hmem
    · obtain ⟨hnot, behind, rfl⟩ := exists_of_untilQuote? hcontent
      exact ⟨[], c, content, behind, rfl, hquote, hnot, Token.literal.inj hfirst⟩
    · obtain ⟨before, quote, inner, behind, rfl, hrest⟩ := ih content hothers hother
      exact ⟨c :: before, quote, inner, behind, rfl, hrest⟩
  | case6 c rest _ _ _ _ ih =>
    obtain ⟨others, hothers, ⟨⟩⟩ := Option.bind_eq_some_iff.mp h
    obtain ⟨before, quote, content, behind, rfl, hrest⟩ := ih hothers (by simpa using hmem)
    exact ⟨c :: before, quote, content, behind, rfl, hrest⟩
  | case7 => cases h

mutual

/-- The literals in an expression, with their quotes. -/
def literalTexts : TypeExpr → List String
  | .name _ args => literalTextsOf args
  | .array item => literalTexts item
  | .union members => literalTextsOf members
  | .keyof operand => literalTexts operand
  | .literal text => [text]
  | .function | .unparsed _ => []

/-- The literals in the expressions of a list. -/
def literalTextsOf : List TypeExpr → List String
  | [] => []
  | expr :: rest => literalTexts expr ++ literalTextsOf rest

end

/-- The literals of expressions in a row are gathered expression by expression. -/
theorem literalTextsOf_eq (exprs : List TypeExpr) :
    literalTextsOf exprs = exprs.flatMap literalTexts := by
  induction exprs with
  | nil => rfl
  | cons expr rest ih => rw [literalTextsOf, ih, List.flatMap_cons]

/-- The arrays of an expression have its literals. -/
theorem literalTexts_arrays (count : Nat) (item : TypeExpr) :
    literalTexts (arrays count item) = literalTexts item := by
  induction count with
  | zero => rfl
  | succ count ih => rwa [arrays_succ', literalTexts]

/-- The literals in a phrase. -/
def Phrase.literalTexts : Phrase → List String
  | .primary _ expr | .postfixed expr | .union expr => TypeExpr.literalTexts expr
  | .alternatives exprs | .arguments exprs => literalTextsOf exprs

variable {text : String}

/-- The literals in what is derived from tokens are among the tokens. -/
theorem Derives.literal_mem {longest : Bool} {tokens : List Token} {phrase : Phrase}
    (h : Derives longest tokens phrase) : text ∈ phrase.literalTexts → .literal text ∈ tokens := by
  induction h with
  | parenthesized _ ih => exact fun hmem => by simp [ih hmem]
  | literal other =>
    intro hmem
    obtain rfl := List.mem_singleton.mp hmem
    exact .head _
  | keyof _ ih => exact fun hmem => .tail _ (ih hmem)
  | function | result | name | noAlternatives => exact fun hmem => absurd hmem List.not_mem_nil
  | applied _ _ ih => exact fun hmem => by simp [ih hmem]
  | postfixed count _ _ ih =>
    intro hmem
    rw [Phrase.literalTexts, literalTexts_arrays] at hmem
    exact List.mem_append_left _ (ih hmem)
  | alternative _ _ ih ihmore =>
    intro hmem
    obtain hmem | hmem := List.mem_append.mp hmem
    · simp [ih hmem]
    · simp [ihmore hmem]
  | @union _ first _ others _ _ ih ihmore =>
    intro hmem
    have hboth : text ∈ TypeExpr.literalTexts first ∨ text ∈ literalTextsOf others := by
      cases others with
      | nil => exact .inl hmem
      | cons => exact List.mem_append.mp hmem
    obtain hmem | hmem := hboth
    · exact List.mem_append_left _ (ih hmem)
    · exact List.mem_append_right _ (ihmore hmem)
  | argument _ ih =>
    intro hmem
    rw [Phrase.literalTexts, literalTextsOf, literalTextsOf, List.append_nil] at hmem
    exact ih hmem
  | arguments _ _ ih ihmore =>
    intro hmem
    obtain hmem | hmem := List.mem_append.mp hmem
    · simp [ih hmem]
    · simp [ihmore hmem]

/-- A literal in what is read from a text stands between quotes in the text. -/
theorem exists_quotes_of_ofText {raw : String} (h : text ∈ literalTexts (ofText raw)) :
    ∃ content, Quotes raw content ∧ text = quoted content := by
  rw [ofText] at h
  cases hparse : parse? raw with
  | none =>
    rw [hparse] at h
    exact absurd h List.not_mem_nil
  | some expr =>
    rw [hparse] at h
    obtain ⟨tokens, htokens, hexpr⟩ := Option.bind_eq_some_iff.mp hparse
    have hmem := (ofTokens?_eq_some_iff.mp hexpr).literal_mem h
    obtain ⟨before, quote, content, behind, hraw, hquote, hnot, htext⟩ :=
      exists_of_tokensFrom htokens hmem
    exact ⟨content, ⟨before, quote, behind, hraw, hquote, hnot⟩, htext⟩

mutual

/-- A literal in a corrected expression was there before, or comes with a correction. -/
theorem mem_literalTexts_correct (typos : Ordered.Map String String) :
    ∀ expr : TypeExpr, text ∈ literalTexts (correct typos expr) →
      text ∈ literalTexts expr ∨
        ∃ word fixed, typos.get? word = some fixed ∧ text ∈ literalTexts (ofText fixed)
  | .name word args, h => by
    rw [correct] at h
    split at h
    · next fixed hfixed =>
      split at h
      · exact .inr ⟨word, fixed, hfixed, h⟩
      · exact .inl h
    · exact mem_literalTextsOf_correctAll typos args h
  | .array item, h => mem_literalTexts_correct typos item h
  | .union members, h => mem_literalTextsOf_correctAll typos members h
  | .keyof operand, h => mem_literalTexts_correct typos operand h
  | .literal _, h => .inl h
  | .function, h => .inl h
  | .unparsed _, h => .inl h

/-- A literal after correcting was there before, or comes from a correction. -/
theorem mem_literalTextsOf_correctAll (typos : Ordered.Map String String) :
    ∀ exprs : List TypeExpr, text ∈ literalTextsOf (correctAll typos exprs) →
      text ∈ literalTextsOf exprs ∨
        ∃ word fixed, typos.get? word = some fixed ∧ text ∈ literalTexts (ofText fixed)
  | [], h => .inl h
  | expr :: rest, h => by
    obtain h | h := List.mem_append.mp h
    · exact (mem_literalTexts_correct typos expr h).imp_left (List.mem_append_left _)
    · exact (mem_literalTextsOf_correctAll typos rest h).imp_left (List.mem_append_right _)

end

/-- The text of an occurrence of a type, or a correction. -/
def IsSource (d : Directives) (type : Api.SimpleType) (raw : String) : Prop :=
  raw = type.name ∨ ∃ word, d.typos.get? word = some raw

/-- A literal in the expression for an occurrence of a type stands between quotes in the text of the
type or in a correction. -/
theorem exists_quotes_of_ofSimple {d : Directives} {type : Api.SimpleType}
    (h : text ∈ literalTexts (ofSimple d type)) :
    ∃ raw content, IsSource d type raw ∧ Quotes raw content ∧ text = quoted content := by
  have hsource : IsSource d type (d.correct type) := by
    rw [Directives.correct, Directives.correctName]
    split
    · exact .inl rfl
    · cases hfixed : d.typos.get? type.name with
      | none => exact .inl rfl
      | some fixed => exact .inr ⟨type.name, hfixed⟩
  have hread : text ∈ literalTexts (ofText (d.correct type)) ∨
      ∃ word fixed, d.typos.get? word = some fixed ∧ text ∈ literalTexts (ofText fixed) := by
    rw [ofSimple] at h
    split at h
    · exact mem_literalTexts_correct d.typos _ h
    · exact .inl h
  obtain hread | ⟨word, fixed, hfixed, hread⟩ := hread
  · obtain ⟨content, hquotes, htext⟩ := exists_quotes_of_ofText hread
    exact ⟨_, content, hsource, hquotes, htext⟩
  · obtain ⟨content, hquotes, htext⟩ := exists_quotes_of_ofText hread
    exact ⟨fixed, content, .inr ⟨word, hfixed⟩, hquotes, htext⟩

/-! ## Where literals go -/

/-- The parts of an expression have no other literals than the expression. -/
theorem literalTexts_subset {r : Resolver} {part expr : TypeExpr} (h : part ∈ writtenParts r expr) :
    literalTexts part ⊆ literalTexts expr := by
  cases expr with
  | name word args =>
    rw [writtenParts] at h
    split at h
    · cases h
    · intro text htext
      rw [literalTexts, literalTextsOf_eq]
      exact List.mem_flatMap.mpr ⟨part, List.mem_of_mem_take h, htext⟩
  | array item =>
    obtain rfl := List.mem_singleton.mp h
    exact List.Subset.refl _
  | union members =>
    intro text htext
    rw [literalTexts, literalTextsOf_eq]
    exact List.mem_flatMap.mpr ⟨part, h, htext⟩
  | keyof operand =>
    obtain rfl := List.mem_singleton.mp h
    exact List.Subset.refl _
  | literal | function | unparsed => cases h

/-- A literal that is written stands in the expression. -/
theorem mem_literalTexts_of_contains {r : Resolver} {expr : TypeExpr}
    (h : Contains r (· = .literal text) expr) : text ∈ literalTexts expr := by
  induction h with
  | here hexpr =>
    rw [hexpr]
    exact .head _
  | part hpart _ ih => exact literalTexts_subset hpart ih

/-- The literals in a written type are those that are written of the expression. -/
theorem Composes.has_literal_iff {r : Resolver} {expr : TypeExpr} {composed : Composed}
    (h : Composes r expr composed) :
    Composed.Has (.literal text) composed ↔ Contains r (· = .literal text) expr := by
  rw [← h.has_iff fun hnode => hnode.literal_iff]
  constructor
  · exact fun hhas => ⟨_, hhas, rfl⟩
  · rintro ⟨_, hhas, rfl⟩
    exact hhas

/-- A literal that is written for an occurrence of a type stands between quotes in the text of the
type or in a correction, and reads back as what stands there exactly if nothing in it needs an
escape. -/
theorem exists_quotes_of_contains {r : Resolver} {type : Api.SimpleType}
    (h : Contains r (· = .literal text) (ofSimple r.directives type)) :
    ∃ raw content, IsSource r.directives type raw ∧ Quotes raw content ∧ text = quoted content ∧
      (Literal.Reads text (units content) ↔ ∀ c ∈ content, isPlainChar c = true) := by
  obtain ⟨raw, content, hsource, hquotes, htext⟩ :=
    exists_quotes_of_ofSimple (mem_literalTexts_of_contains h)
  refine ⟨raw, content, hsource, hquotes, htext, ?_⟩
  rw [htext]
  exact Literal.reads_quoted_units_iff content

end TypeExpr

namespace Declaration

/-! ## Where names go -/

open Literal (IsKeyed ReadsBack)

/-- The key of a property stands in front of what may follow a key. -/
theorem isKeyed_propertyKey (name mark behind : String) (h : mark ∈ [":", "?", "(", " "]) :
    IsKeyed (Identifier.propertyKey name ++ mark ++ behind) name :=
  ⟨_, mark, behind, rfl, h, Literal.names_propertyKey_iff name⟩

/-- A member other than a constructor is written behind a key for its name. -/
theorem Member.exists_isKeyed {m : Member} (h : ∀ signature, m.body ≠ .construct signature) :
    ∃ isStatic text, m.text = staticWord isStatic ++ text ∧ IsKeyed text m.head.name := by
  rw [text]
  cases hbody : m.body with
  | construct signature => exact absurd hbody (h signature)
  | property isStatic type =>
    refine ⟨isStatic, _, ?_, isKeyed_propertyKey m.head.name ":" (" " ++ type ++ ";") (by decide)⟩
    simp only [String.append_assoc]
    rfl
  | method isStatic signature =>
    obtain ⟨behind, hsignature⟩ : ∃ behind, signature.text = "(" ++ behind :=
      ⟨_, by rw [Signature.text, String.append_assoc, String.append_assoc]⟩
    refine ⟨isStatic, _, ?_, isKeyed_propertyKey m.head.name "(" (behind ++ ";") (by decide)⟩
    simp only [hsignature, String.append_assoc]
  | value =>
    refine ⟨false, _, ?_, isKeyed_propertyKey m.head.name " "
      ("= " ++ Identifier.literal m.head.name ++ ",") (by decide)⟩
    simp only [staticWord, Bool.false_eq_true, if_false, String.empty_append, String.append_assoc]
    rfl

/-- The value of an enum is written as a literal behind its key. -/
theorem Member.exists_readsBack {m : Member} (h : m.body = .value) :
    ∃ key value, m.text = key ++ " = " ++ value ++ "," ∧ ReadsBack value m.head.name := by
  rw [text, h]
  exact ⟨_, _, rfl, Literal.readsBack_literal m.head.name⟩

/-- A registered module path is written as a literal. -/
theorem exists_readsBack_registryLines {path : String} {paths : List String} (h : path ∈ paths) :
    ∃ key, ⟨1, key ++ ": true;"⟩ ∈ registryLines paths ∧ ReadsBack key path := by
  refine ⟨_, ?_, Literal.readsBack_literal path⟩
  rw [registryLines, if_neg (by simpa using List.ne_nil_of_mem h)]
  exact List.mem_append_left _ (.tail _ (List.mem_map_of_mem (List.mem_map_of_mem h)))

/-- An entry of an option object is written behind its key. -/
theorem isKeyed_writeEntry (r : Resolver) (key : String) (p : Api.Parameter) (page : Page) :
    IsKeyed ((TypeExpr.writeEntry r key p).run page).1 key := by
  obtain ⟨info, type⟩ := p
  let type := ((TypeExpr.writeParameterType r type).run page).1
  rw [TypeExpr.writeEntry]
  change IsKeyed (Identifier.propertyKey key
    ++ (if info.isOptional || info.default.isSome then "?" else "") ++ ": " ++ type ++ ";") key
  split
  · have hkeyed := isKeyed_propertyKey key "?" (": " ++ type ++ ";") (by decide)
    simpa only [String.append_assoc] using hkeyed
  · have hkeyed := isKeyed_propertyKey key ":" (" " ++ type ++ ";") (by decide)
    have hcolon : ": " = ":" ++ " " := rfl
    simpa only [hcolon, String.append_empty, String.append_assoc] using hkeyed

/-- Members other than constructors, and entries of option objects, are written behind keys for
their names, and values of enums and registered modules as literals: each of these reads back as the
name, if the name is one line, and as nothing otherwise. The literals in what is written for a type
are those of its expression. Each holds what stands between quotes in the text of the type or in a
correction, and reads back as that exactly if there is neither a double quote nor a backslash nor
the end of a line in it. -/
theorem literals_readBack_iff (r : Resolver) :
    (∀ m : Member, (∀ signature, m.body ≠ .construct signature) →
      ∃ isStatic text, m.text = staticWord isStatic ++ text ∧ IsKeyed text m.head.name) ∧
    (∀ m : Member, m.body = .value →
      ∃ key value, m.text = key ++ " = " ++ value ++ "," ∧ ReadsBack value m.head.name) ∧
    (∀ paths, ∀ path ∈ paths,
      ∃ key, ⟨1, key ++ ": true;"⟩ ∈ registryLines paths ∧ ReadsBack key path) ∧
    (∀ key entry page, IsKeyed ((TypeExpr.writeEntry r key entry).run page).1 key) ∧
    ∀ type page,
      let expr := TypeExpr.ofSimple r.directives type
      let composed := ((TypeExpr.compose r expr).run page).1
      ((TypeExpr.writeSimple r type).run page).1 = composed.text ∧
      ∀ text,
        (TypeExpr.Composed.Has (.literal text) composed ↔
          TypeExpr.Contains r (· = .literal text) expr) ∧
        (TypeExpr.Contains r (· = .literal text) expr →
          ∃ raw content, TypeExpr.IsSource r.directives type raw ∧ TypeExpr.Quotes raw content ∧
            text = Literal.quoted content ∧
            (Literal.Reads text (Literal.units content) ↔
              ∀ c ∈ content, Literal.isPlainChar c = true)) := by
  refine ⟨fun m hm => m.exists_isKeyed hm, fun m hm => m.exists_readsBack hm,
    fun paths path hpath => exists_readsBack_registryLines hpath, isKeyed_writeEntry r,
    fun type page => ⟨?_, fun text => ⟨?_, TypeExpr.exists_quotes_of_contains⟩⟩⟩
  · rw [TypeExpr.writeSimple, TypeExpr.write_eq]
    rfl
  · exact TypeExpr.Composes.has_literal_iff ⟨page, rfl⟩

/-- A literal in single quotes and a value with double quotes in its name read back. -/
theorem literals_readBack_iff_quoted :
    let r : Resolver := ⟨"app", .empty "app", .empty, [], []⟩
    let value : Member := ⟨⟨"ui.State.off", "say \x22off\x22", ⟨.empty, none⟩⟩, .value⟩
    ((TypeExpr.writeSimple r ⟨"'on'", false, .unset⟩).run default).1 = "\x22on\x22" ∧
      Literal.Reads "\x22on\x22" (Literal.units "on".toList) ∧
      ∃ key literal, value.text = key ++ " = " ++ literal ++ "," ∧
        Literal.Reads literal (Literal.units "say \x22off\x22".toList) := by
  intro r value
  obtain ⟨-, hvalues, -, -, htypes⟩ := literals_readBack_iff r
  obtain ⟨key, literal, htext, hreads⟩ := hvalues value rfl
  obtain ⟨hwritten, hliterals⟩ := htypes ⟨"'on'", false, .unset⟩ default
  have hexpr : TypeExpr.ofSimple r.directives ⟨"'on'", false, .unset⟩ = .literal "\x22on\x22" := by
    decide +kernel
  rw [hexpr] at hwritten hliterals
  obtain ⟨raw, content, -, -, hquoted, hiff⟩ := (hliterals "\x22on\x22").2 (.here rfl)
  have hon : Literal.quoted "on".toList = "\x22on\x22" := by decide
  obtain rfl := Literal.quoted_inj.mp (hon.trans hquoted)
  have hplain : "on".toList.all Literal.isPlainChar = true := by decide
  have hline : "say \x22off\x22".toList.all (fun c => !endsLine c) = true := by decide
  refine ⟨hwritten, hiff.mpr (List.all_eq_true.mp hplain), key, literal, htext,
    (hreads _).mpr ⟨fun c hc => ?_, rfl⟩⟩
  simpa using List.all_eq_true.mp hline c hc

end Declaration

namespace Library

open Declaration

/-- A library with a constant of a literal type. -/
def labelled : Library where
  name := "app"
  description := .ofTop ⟨{ (default : Api.Scope) with
    kind := .nameSpace
    constants := [{ (default : Api.Variable) with
      kind := .variableDesc
      name := "mode"
      type := some (.simple ⟨"'a\x22b'", false, .unset⟩) }] }, []⟩
  directives := .empty

/-- What is written for a literal type in single quotes is no literal. -/
theorem not_literals_readBack_labelled :
    ∃ p, labelled.prepare [] true = .ok p ∧
      ∃ e, p.emit .modules = .ok e ∧ e.text = "declare const mode: \x22a\x22b\x22;\n" ∧
      ∀ us, ¬ Literal.Reads "\x22a\x22b\x22" us := by
  refine ⟨_, rfl, _, rfl, ?_, fun us hreads => ?_⟩
  · decide +kernel
  · have hbody : Literal.Body ['a', '\x22', 'b'] us := Literal.reads_quoted_iff.mp hreads
    obtain ⟨-, rest, -, hrest⟩ := (Literal.body_cons_iff (by decide)).mp hbody
    obtain ⟨hplain, -⟩ := (Literal.body_cons_iff (by decide)).mp hrest
    exact absurd hplain (by decide)

end Library

end Ambient
