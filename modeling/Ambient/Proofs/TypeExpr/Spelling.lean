import Ambient.Proofs.TypeExpr.Meaning
import Ambient.Proofs.TypeExpr.Reading
import Ambient.TypeExpr.Token

/-!
# Texts that are written

A written type is a row of alternatives, each of them a primary expression with brackets after
it. How the texts of types are put together, and what the result is read as.
-/

/-!
## Tokens of texts that are put together

The tokens of a text that is put together from pieces are those of its pieces, unless a name is
continued across a seam. A piece that begins with a blank or a mark continues none.
-/

namespace Ambient.TypeExpr

/-- Whether the characters continue no name that stands before them. -/
def Breaks (cs : List Char) : Prop := ∀ c, cs.head? = some c → isNameChar c = false

/-- Whether the characters are read as the tokens, whatever comes after them that does not
continue a name. -/
def Lexes (cs : List Char) (tokens : List Token) : Prop :=
  ∀ rest, Breaks rest → tokensFrom 0 (cs ++ rest) = (tokensFrom 0 rest).map (tokens ++ ·)

variable {cs ds : List Char} {tokens more : List Token}

/-- A text whose characters are read as tokens is cut into them. -/
theorem tokens?_of_lexes {text : String} (h : Lexes text.toList tokens) :
    tokens? text = some tokens := by
  have hall := h [] (by simp [Breaks])
  simpa [tokens?, tokensFrom] using hall

/-- The characters of a token that has been read already are passed over. -/
theorem tokensFrom_length_append (cs rest : List Char) :
    tokensFrom cs.length (cs ++ rest) = tokensFrom 0 rest := by
  induction cs with
  | nil => rfl
  | cons c cs ih => simpa [tokensFrom] using ih

/-- What continues no name still does not when followed by more of the kind. -/
theorem Breaks.append (hcs : Breaks cs) (hds : Breaks ds) : Breaks (cs ++ ds) := by
  cases cs with
  | nil => exact hds
  | cons c cs => exact hcs

/-- Characters in two runs are read as the tokens of both, when the second run continues no name. -/
theorem Lexes.append (hcs : Lexes cs tokens) (hds : Lexes ds more) (hbreaks : Breaks ds) :
    Lexes (cs ++ ds) (tokens ++ more) := by
  intro rest hrest
  rw [List.append_assoc, hcs _ (hbreaks.append hrest), hds rest hrest, Option.map_map]
  congr 1
  funext read
  exact (List.append_assoc ..).symm

/-- A name ends where the characters after it continue no name. -/
theorem takeWhile_append_of_breaks (h : ∀ c ∈ cs, isNameChar c = true) (hds : Breaks ds) :
    (cs ++ ds).takeWhile isNameChar = cs := by
  rw [List.takeWhile_append_of_pos h]
  cases ds with
  | nil => simp
  | cons d ds => simp [hds d rfl]

/-- A word is a name. -/
theorem Lexes.word {c : Char} (hblank : Text.isBlank c = false)
    (hname : ∀ d ∈ c :: cs, isNameChar d = true) :
    Lexes (c :: cs) [.name (String.ofList (c :: cs))] := by
  intro rest hrest
  have hmore : (cs ++ rest).takeWhile isNameChar = cs :=
    takeWhile_append_of_breaks (fun d hd => hname d (List.mem_cons_of_mem c hd)) hrest
  rw [List.cons_append, tokensFrom]
  simp only [hblank, Bool.false_eq_true, if_false, hname c List.mem_cons_self, if_true, hmore,
    tokensFrom_length_append]
  cases tokensFrom 0 rest <;> rfl

/-- The marks. -/
def marks : List Char := ['<', '>', ',', '|', '[', ']', '(', ')', ':']

/-- A mark is neither a blank nor a quote nor a character of a name. -/
theorem isMark_of_mem {c : Char} (h : c ∈ marks) :
    isMark c = true ∧ Text.isBlank c = false ∧ isNameChar c = false ∧ isQuote c = false := by
  simp only [marks, List.mem_cons, List.not_mem_nil, or_false] at h
  obtain rfl | rfl | rfl | rfl | rfl | rfl | rfl | rfl | rfl := h <;> decide +kernel

/-- A mark continues no name. -/
theorem breaks_mark {c : Char} (h : c ∈ marks) : Breaks (c :: cs) := by
  rintro d ⟨⟩
  exact (isMark_of_mem h).2.2.1

/-- A blank continues no name. -/
theorem breaks_space : Breaks (' ' :: cs) := by
  rintro d ⟨⟩
  decide +kernel

/-- A mark is a token whatever follows. -/
theorem Lexes.mark {c : Char} (h : c ∈ marks) (hrest : Lexes cs tokens) :
    Lexes (c :: cs) (.mark c :: tokens) := by
  obtain ⟨hmark, hblank, hname, hquote⟩ := isMark_of_mem h
  intro rest hbreaks
  rw [List.cons_append, tokensFrom]
  simp only [hblank, hname, hquote, hmark, Bool.false_eq_true, if_false, if_true,
    hrest rest hbreaks]
  cases tokensFrom 0 rest <;> rfl

/-- Blanks are no tokens. -/
theorem Lexes.space (h : Lexes cs tokens) : Lexes (' ' :: cs) tokens := by
  intro rest hrest
  rw [List.cons_append, tokensFrom, if_pos (by decide), h rest hrest]

/-- No characters are read as no tokens. -/
theorem Lexes.nil : Lexes [] [] := by
  intro rest _
  simp

/-- A literal is read up to its closing quote. -/
theorem Lexes.literal (h : '\x22' ∉ cs) :
    Lexes ('\x22' :: (cs ++ ['\x22'])) [.literal (String.ofList ('\x22' :: (cs ++ ['\x22'])))] := by
  intro rest hrest
  have huntil : untilQuote? '\x22' (cs ++ '\x22' :: rest) = some cs := by
    have htake : (cs ++ '\x22' :: rest).takeWhile (fun c => c != '\x22') = cs := by
      have hkeep : ∀ c ∈ cs, (c != '\x22') = true := by
        rintro c hc
        have hne : c ≠ '\x22' := fun hquote => h (hquote ▸ hc)
        simpa using hne
      rw [List.takeWhile_append_of_pos hkeep]
      simp
    simp [untilQuote?, htake]
  have hpass : tokensFrom (cs.length + 1) (cs ++ '\x22' :: rest) = tokensFrom 0 rest := by
    simpa using tokensFrom_length_append (cs ++ ['\x22']) rest
  have hkind : Text.isBlank '\x22' = false ∧ isNameChar '\x22' = false ∧ isQuote '\x22' = true := by
    decide +kernel
  rw [List.cons_append, List.append_assoc, List.singleton_append, tokensFrom]
  simp only [hkind.1, hkind.2.1, hkind.2.2, Bool.false_eq_true, if_false, if_true, huntil, hpass,
    Option.bind_eq_bind, Option.bind_some]
  cases tokensFrom 0 rest <;> rfl

end Ambient.TypeExpr

namespace Ambient.TypeExpr

/-! ## Rows of alternatives -/

/-- A primary expression and the number of pairs of brackets after it. -/
structure Piece where
  atom : TypeExpr
  count : Nat

/-- What a piece is read as. -/
def Piece.expr (piece : Piece) : TypeExpr := arrays piece.count piece.atom

/-- Which tokens are which pieces with bars between them. -/
inductive Spells : List Token → List Piece → Prop
  | only {tokens atom} (count : Nat) :
      Derives true tokens (.primary false atom) → Spells (tokens ++ pairs count) [⟨atom, count⟩]
  | more {tokens atom others pieces} (count : Nat) :
      Derives true tokens (.primary false atom) → Spells others pieces →
        Spells (tokens ++ pairs count ++ .mark '|' :: others) (⟨atom, count⟩ :: pieces)

variable {tokens others : List Token} {pieces more : List Piece} {piece : Piece}
  {text other : String}

/-- Tokens that spell pieces spell at least one. -/
theorem Spells.ne_nil (h : Spells tokens pieces) : pieces ≠ [] := by
  cases h <;> exact List.cons_ne_nil _ _

/-- Two runs of tokens with a bar between them spell the pieces of both. -/
theorem Spells.append (h : Spells tokens pieces) (hmore : Spells others more) :
    Spells (tokens ++ .mark '|' :: others) (pieces ++ more) := by
  induction h with
  | only count hatom => exact .more count hatom hmore
  | more count hatom _ ih => simpa using Spells.more count hatom ih

/-- A row of pieces is derived as a first alternative and further ones. -/
theorem Spells.derives_row (h : Spells tokens pieces) :
    ∃ front rest first row, tokens = front ++ rest ∧ pieces.map Piece.expr = first :: row ∧
      Derives true front (.postfixed first) ∧ Derives true rest (.alternatives row) := by
  induction h with
  | @only tokens atom count hatom =>
    exact ⟨_, [], _, [], (List.append_nil _).symm, rfl, .postfixed count hatom (by simp),
      .noAlternatives⟩
  | @more tokens atom others pieces count hatom _ ih =>
    obtain ⟨front, rest, first, row, rfl, hrow, hfirst, hrest⟩ := ih
    exact ⟨_, _, _, _, rfl, by rw [List.map_cons, hrow, Piece.expr],
      .postfixed count hatom (by simp), .alternative hfirst hrest⟩

/-- Tokens that spell pieces derive the union of the pieces' types. -/
theorem Spells.derives (h : Spells tokens pieces) :
    Derives true tokens (.union (joined (pieces.map Piece.expr))) := by
  obtain ⟨front, rest, first, row, rfl, hrow, hfirst, hrest⟩ := h.derives_row
  rw [hrow, ← unionOf_eq_joined]
  exact .union hfirst hrest

/-- An operator in front of a row belongs to its first atom. -/
theorem Spells.keyof (h : Spells tokens (piece :: pieces)) :
    Spells (.name "keyof" :: tokens) (⟨.keyof piece.atom, piece.count⟩ :: pieces) := by
  cases h with
  | only count hatom => exact .only count (.keyof hatom)
  | more count hatom hpieces => exact .more count (.keyof hatom) hpieces

/-- Brackets after a piece belong to it. -/
theorem Spells.array (h : Spells tokens [piece]) :
    Spells (tokens ++ [.mark '[', .mark ']']) [⟨piece.atom, piece.count + 1⟩] := by
  cases h with
  | only count hatom =>
    have hpairs : pairs count ++ [.mark '[', .mark ']'] = pairs (count + 1) := pairs_append count 1
    rw [List.append_assoc, hpairs]
    exact .only (count + 1) hatom
  | more count hatom hpieces => exact absurd rfl hpieces.ne_nil

/-- Parentheses make one atom out of a row. -/
theorem Spells.parenthesized (h : Spells tokens pieces) (count : Nat) :
    Spells (.mark '(' :: (tokens ++ [.mark ')']) ++ pairs count)
      [⟨joined (pieces.map Piece.expr), count⟩] :=
  .only count (.parenthesized h.derives)

/-! ## Texts -/

/-- Whether an expression is neither a union nor an array. -/
def IsBasic (expr : TypeExpr) : Prop := IsAlternative expr ∧ ∀ item, expr ≠ .array item

/-- Whether a text is read as a row of pieces, in which all bars are seen and parentheses stand
only before brackets. -/
structure Reads (text : String) (pieces : List Piece) : Prop where
  spelled : ∃ tokens, Lexes text.toList tokens ∧ Spells tokens pieces
  barred : pieces.length ≠ 1 → Text.contains text " | " = true
  basic : ∀ piece ∈ pieces, piece.count = 0 → IsBasic piece.atom

/-- The alternatives that a text is read as. -/
def readBack (text : String) : List TypeExpr := ((parse? text).map membersOf).getD []

/-- Every type that a text is read as stands on its own in a union. -/
theorem Reads.isAlternative (h : Reads text pieces) :
    ∀ expr ∈ pieces.map Piece.expr, IsAlternative expr := by
  intro expr hexpr
  obtain ⟨⟨atom, count⟩, hpiece, rfl⟩ := List.mem_map.mp hexpr
  cases count with
  | zero => exact (h.basic _ hpiece rfl).1
  | succ count =>
    rw [Piece.expr, arrays_succ']
    exact nofun

/-- A text read as pieces is parsed as the union of the pieces' types. -/
theorem Reads.parse?_eq (h : Reads text pieces) :
    parse? text = some (joined (pieces.map Piece.expr)) := by
  obtain ⟨tokens, hlexes, hspells⟩ := h.spelled
  rw [parse?, tokens?_of_lexes hlexes]
  exact ofTokens?_eq_some_iff.mpr hspells.derives

/-- A text read as pieces has the pieces' types as its alternatives. -/
theorem Reads.readBack_eq (h : Reads text pieces) : readBack text = pieces.map Piece.expr := by
  rw [readBack, h.parse?_eq, Option.map_some, Option.getD_some, membersOf_joined h.isAlternative]

/-! ### Bars -/

/-- A part occurs behind whatever stands in front of it. -/
theorem occurs_append {part : List Char} (front rest : List Char) :
    Text.occurs part (front ++ (part ++ rest)) = true := by
  induction front with
  | nil =>
    cases part with
    | nil => cases rest <;> simp [Text.occurs]
    | cons c part => simp [Text.occurs, List.isPrefixOf_iff_prefix]
  | cons c front ih => simp [Text.occurs, ih]

/-- What occurs in some characters occurs with more in front of them. -/
theorem occurs_append_of_occurs {part cs : List Char} (front : List Char)
    (h : Text.occurs part cs = true) : Text.occurs part (front ++ cs) = true := by
  induction front with
  | nil => exact h
  | cons c front ih => simp [Text.occurs, ih]

/-- Two rows with a bar between them are one row. -/
theorem Reads.or (h : Reads text pieces) (hmore : Reads other more) :
    Reads (text ++ " | " ++ other) (pieces ++ more) where
  spelled := by
    obtain ⟨tokens, hlexes, hspells⟩ := h.spelled
    obtain ⟨others, hothers, hspells'⟩ := hmore.spelled
    refine ⟨tokens ++ .mark '|' :: others, ?_, hspells.append hspells'⟩
    have hbar : Lexes (' ' :: '|' :: ' ' :: other.toList) (.mark '|' :: others) :=
      .space (.mark (by decide) (.space hothers))
    simpa using hlexes.append hbar breaks_space
  barred _ := by
    have : Text.occurs " | ".toList (text.toList ++ (" | ".toList ++ other.toList)) = true :=
      occurs_append _ _
    simpa [Text.contains] using this
  basic piece hpiece := (List.mem_append.mp hpiece).elim (h.basic piece) (hmore.basic piece)

/-- The rows of some texts with bars between them are one row. -/
theorem exists_reads_intercalate {texts : List String}
    (h : ∀ text ∈ texts, ∃ pieces, Reads text pieces) (hne : texts ≠ []) :
    ∃ pieces, Reads (" | ".intercalate texts) pieces ∧
      pieces.map Piece.expr = texts.flatMap readBack := by
  induction texts with
  | nil => exact absurd rfl hne
  | cons text texts ih =>
    obtain ⟨pieces, hpieces⟩ := h text List.mem_cons_self
    cases texts with
    | nil => exact ⟨pieces, by simpa using hpieces, by simp [hpieces.readBack_eq]⟩
    | cons other texts =>
      obtain ⟨more, hmore, hmap⟩ := ih (fun t ht => h t (List.mem_cons_of_mem text ht)) (by simp)
      refine ⟨pieces ++ more, ?_, ?_⟩
      · rw [String.intercalate_cons_cons]
        exact hpieces.or hmore
      · rw [List.map_append, hmap, ← hpieces.readBack_eq, ← List.flatMap_cons]

/-! ### Operators -/

/-- Whether a text is a name. -/
def isWord (word : String) : Bool :=
  match word.toList with
  | [] => false
  | c :: cs => !Text.isBlank c && (c :: cs).all isNameChar

/-- A word is read as a name. -/
theorem lexes_word {word : String} (h : isWord word = true) : Lexes word.toList [.name word] := by
  unfold isWord at h
  split at h
  · simp at h
  · rename_i c cs hword
    simp only [Bool.and_eq_true, Bool.not_eq_true', List.all_eq_true] at h
    have hlexes := Lexes.word h.1 h.2
    rwa [← hword, String.ofList_toList] at hlexes

/-- The words that names with a fixed meaning are written with. -/
def fixedWords : List String :=
  ["string", "number", "boolean", "any", "void", "undefined", "null", "never", "unknown", "this",
    "symbol", "bigint", "object", "Function", "Record", "Promise", "Element"]

/-- The fixed words are words other than `keyof`. -/
theorem isWord_of_mem : ∀ word ∈ fixedWords, isWord word = true ∧ word ≠ "keyof" := by
  decide +kernel

/-- A written operator belongs to the first atom of what it is written before. -/
theorem Reads.keyof (h : Reads text (piece :: pieces)) :
    Reads ("keyof " ++ text) (⟨.keyof piece.atom, piece.count⟩ :: pieces) where
  spelled := by
    obtain ⟨tokens, hlexes, hspells⟩ := h.spelled
    refine ⟨.name "keyof" :: tokens, ?_, hspells.keyof⟩
    have hword : Lexes "keyof".toList [.name "keyof"] := lexes_word (by decide +kernel)
    simpa using hword.append (.space hlexes) breaks_space
  barred hlength := by
    have := occurs_append_of_occurs "keyof ".toList (h.barred hlength)
    simpa [Text.contains] using this
  basic other hother := by
    obtain rfl | hother := List.mem_cons.mp hother
    · exact fun _ => ⟨nofun, nofun⟩
    · exact h.basic other (List.mem_cons_of_mem piece hother)

/-- The text of an array is read as the array of what its item is read as. -/
theorem Reads.array (h : Reads text pieces) :
    ∃ piece, Reads (arrayOf text) [piece] ∧ piece.expr = .array (joined (readBack text)) := by
  obtain ⟨tokens, hlexes, hspells⟩ := h.spelled
  have hbrackets : Lexes ['[', ']'] [.mark '[', .mark ']'] :=
    .mark (by decide) (.mark (by decide) .nil)
  rw [h.readBack_eq]
  unfold arrayOf
  split
  · have hgroup : Lexes ('(' :: (text.toList ++ [')', '[', ']'])) _ :=
      .mark (by decide)
        (hlexes.append (.mark (by decide) hbrackets) (breaks_mark (by decide)))
    exact ⟨⟨joined (pieces.map Piece.expr), 1⟩, ⟨⟨_, by simpa using hgroup,
      by simpa using hspells.parenthesized 1⟩, by simp, by simp⟩, rfl⟩
  · rename_i hplain
    have hone : pieces.length = 1 := by
      by_contra hlength
      simp [h.barred hlength] at hplain
    obtain ⟨piece, rfl⟩ := List.length_eq_one_iff.mp hone
    have hbracketed : Lexes (text.toList ++ ['[', ']']) _ :=
      hlexes.append hbrackets (breaks_mark (by decide))
    refine ⟨⟨piece.atom, piece.count + 1⟩, ⟨⟨_, by simpa using hbracketed, hspells.array⟩,
      by simp, by simp⟩, ?_⟩
    exact arrays_succ' piece.count piece.atom

/-! ### Atoms -/

/-- A text in quotes, with no quote inside, is read as one literal. -/
theorem reads_literal {content : List Char} (h : '\x22' ∉ content) :
    Reads (String.ofList ('\x22' :: (content ++ ['\x22'])))
      [⟨.literal (String.ofList ('\x22' :: (content ++ ['\x22']))), 0⟩] where
  spelled := ⟨_, by simpa using Lexes.literal h, by simpa using Spells.only 0 (.literal _)⟩
  barred := by simp
  basic := by simp [IsBasic, IsAlternative]

/-- The texts of arguments are read as arguments. -/
theorem exists_derives_arguments {texts : List String}
    (h : ∀ text ∈ texts, ∃ pieces, Reads text pieces) (hne : texts ≠ []) :
    ∃ tokens, Lexes (", ".intercalate texts).toList tokens ∧
      Derives true tokens (.arguments (texts.map fun text => joined (readBack text))) := by
  induction texts with
  | nil => exact absurd rfl hne
  | cons text texts ih =>
    obtain ⟨pieces, hpieces⟩ := h text List.mem_cons_self
    obtain ⟨tokens, hlexes, hspells⟩ := hpieces.spelled
    have hfirst : Derives true tokens (.union (joined (readBack text))) :=
      hpieces.readBack_eq ▸ hspells.derives
    cases texts with
    | nil => exact ⟨tokens, by simpa using hlexes, .argument hfirst⟩
    | cons other texts =>
      obtain ⟨more, hmore, hrest⟩ := ih (fun t ht => h t (List.mem_cons_of_mem text ht)) (by simp)
      refine ⟨tokens ++ .mark ',' :: more, ?_, .arguments hfirst hrest⟩
      rw [String.intercalate_cons_cons]
      simpa using hlexes.append (.mark (by decide) (.space hmore)) (breaks_mark (by decide))

/-- A name with its arguments is read as the name with what the arguments are read as. -/
theorem reads_withArguments {word : String} {texts : List String} (hword : isWord word = true)
    (hkeyof : word ≠ "keyof") (h : ∀ text ∈ texts, ∃ pieces, Reads text pieces) :
    Reads (withArguments word texts)
      [⟨.name word (texts.map fun text => joined (readBack text)), 0⟩] where
  spelled := by
    unfold withArguments
    split
    · rename_i hempty
      obtain rfl := List.isEmpty_iff.mp hempty
      exact ⟨_, lexes_word hword, by simpa using Spells.only 0 (.name hkeyof)⟩
    · rename_i hne
      obtain ⟨tokens, hlexes, hargs⟩ := exists_derives_arguments h (by simpa using hne)
      have hclosed : Lexes ((", ".intercalate texts).toList ++ ['>']) _ :=
        hlexes.append (.mark (by decide) .nil) (breaks_mark (by decide))
      have happlied := (lexes_word hword).append (.mark (by decide) hclosed)
        (breaks_mark (c := '<') (by decide))
      exact ⟨_, by simpa using happlied, by simpa using Spells.only 0 (.applied hkeyof hargs)⟩
  barred := by simp
  basic := by simp [IsBasic, IsAlternative]

/-- A word with a fixed meaning is read as itself. -/
theorem reads_fixedWord {word : String} (h : word ∈ fixedWords) :
    Reads word [⟨.name word [], 0⟩] := by
  obtain ⟨hword, hkeyof⟩ := isWord_of_mem word h
  have hreads : Reads (withArguments word []) _ := reads_withArguments hword hkeyof (by simp)
  simpa [withArguments] using hreads

end Ambient.TypeExpr
