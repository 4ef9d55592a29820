import Ambient.Proofs.TypeExpr.Grammar
import Mathlib.Tactic.SplitIfs

/-!
# Reading against the grammar

The functions that read type expressions never go back, so each of them has to take what the
grammar gives it, and no more. Main statement: the reader answers an expression exactly if the
tokens derive it with brackets left to result types, it answers some expression exactly if the
tokens derive any in the grammar as it stands, and where it answers none, it has refused the
tokens: it neither runs out of calls nor closes a parenthesis that is not open.
-/

namespace Ambient.TypeExpr

variable {α β : Type} {tokens rest : List Token} {bound : Nat}

/-! ## Groups -/

/-- Inside a group the tokens up to the one that closes it are dropped. -/
theorem skipGroup_append {depth : Nat} {group : List Token} (h : Closes (depth + 1) group)
    (rest : List Token) : skipGroup (depth + 1) (group ++ rest) = .ok rest := by
  induction group generalizing depth with
  | nil => exact absurd h (not_closes_succ_nil depth)
  | cons token group ih =>
    obtain ⟨next, hnext⟩ : ∃ next, nextDepth (depth + 1) token = .ok next := by
      unfold nextDepth
      split <;> simp
    rw [closes_cons_iff hnext] at h
    rw [List.cons_append, skipGroup, hnext]
    cases next with
    | zero =>
      rw [closes_zero_iff] at h
      simp [h, bind, Except.bind, pure, Except.pure]
    | succ next => exact ih h

/-- Inside a group, dropping the rest of it refuses the tokens or drops what closes the group. -/
theorem skipGroup_succ (depth : Nat) (tokens : List Token) :
    skipGroup (depth + 1) tokens = .error .refused ∨
      ∃ group rest, Closes (depth + 1) group ∧ group ++ rest = tokens ∧
        skipGroup (depth + 1) tokens = .ok rest := by
  induction tokens generalizing depth with
  | nil => exact .inl rfl
  | cons token tokens ih =>
    obtain ⟨next, hnext⟩ : ∃ next, nextDepth (depth + 1) token = .ok next := by
      unfold nextDepth
      split <;> simp
    have hstep : skipGroup (depth + 1) (token :: tokens) =
        if next = 0 then .ok tokens else skipGroup next tokens := by
      rw [skipGroup, hnext]
      rfl
    cases next with
    | zero =>
      exact .inr ⟨[token], tokens, (closes_cons_iff hnext).mpr (closes_zero_iff.mpr rfl), rfl,
        hstep⟩
    | succ next =>
      rw [hstep, if_neg (Nat.succ_ne_zero next)]
      obtain h | ⟨group, rest, hcloses, rfl, h⟩ := ih next
      · exact .inl h
      · exact .inr ⟨token :: group, rest, (closes_cons_iff hnext).mpr hcloses, rfl, h⟩

/-- From an opening parenthesis on, dropping a group refuses the tokens or drops a group. -/
theorem skipGroup_zero (h : tokens.head? = some (.mark '(')) :
    skipGroup 0 tokens = .error .refused ∨
      ∃ group rest, IsGroup group ∧ group ++ rest = tokens ∧ skipGroup 0 tokens = .ok rest := by
  obtain ⟨tokens, rfl⟩ := List.head?_eq_some_iff.mp h
  have hstep : skipGroup 0 (.mark '(' :: tokens) = skipGroup 1 tokens := rfl
  rw [hstep]
  obtain h | ⟨group, rest, hcloses, rfl, h⟩ := skipGroup_succ 0 tokens
  · exact .inl h
  · exact .inr ⟨.mark '(' :: group, rest, isGroup_cons_iff.mpr ⟨rfl, hcloses⟩, rfl, h⟩

/-- Skipping a group in front of other tokens leaves these. -/
theorem IsGroup.skipGroup_append {group : List Token} (h : IsGroup group) (rest : List Token) :
    skipGroup 0 (group ++ rest) = .ok rest := by
  obtain ⟨group, rfl⟩ := List.head?_eq_some_iff.mp h.opening
  exact TypeExpr.skipGroup_append (isGroup_cons_iff.mp h).2 rest

/-! ## What is read is derived -/

/-- Whether reading off the front of the tokens has either refused them or read something that
fits the tokens it was read off and those that are left. -/
def Fits (fits : α → List Token → List Token → Prop) (tokens : List Token) :
    Except Stop (α × List Token) → Prop
  | .ok (value, rest) => ∃ front, front ++ rest = tokens ∧ fits value front rest
  | .error stop => stop = .refused

/-- What fits in some words fits in weaker ones. -/
theorem Fits.imp {fits goal : α → List Token → List Token → Prop}
    {outcome : Except Stop (α × List Token)} (h : Fits fits tokens outcome)
    (himp : ∀ value front rest, front ++ rest = tokens → fits value front rest →
      goal value front rest) : Fits goal tokens outcome := by
  cases outcome with
  | error stop => exact h
  | ok read =>
    obtain ⟨front, happend, hfits⟩ := h
    exact ⟨front, happend, himp _ front _ happend hfits⟩

/-- Tokens that have been taken before belong to what has been read. -/
theorem Fits.append {fits : α → List Token → List Token → Prop} (taken : List Token)
    {outcome : Except Stop (α × List Token)}
    (h : Fits (fun value front => fits value (taken ++ front)) tokens outcome) :
    Fits fits (taken ++ tokens) outcome := by
  cases outcome with
  | error stop => exact h
  | ok read =>
    obtain ⟨front, rfl, hfits⟩ := h
    exact ⟨taken ++ front, List.append_assoc .., hfits⟩

/-- What fits behind a token fits with the token in front. -/
theorem Fits.cons {fits : α → List Token → List Token → Prop} {token : Token}
    {outcome : Except Stop (α × List Token)}
    (h : Fits (fun value front => fits value (token :: front)) tokens outcome) :
    Fits fits (token :: tokens) outcome := Fits.append [token] h

/-- Reading nothing more. -/
theorem Fits.stay {fits : α → List Token → List Token → Prop} {value : α}
    (h : fits value [] tokens) : Fits fits tokens (.ok (value, tokens)) := ⟨[], rfl, h⟩

/-- Reading in two steps; the second sees what the first has left. -/
theorem Fits.bind {fits : α → List Token → List Token → Prop}
    {goal : β → List Token → List Token → Prop} {first : Except Stop (α × List Token)}
    {next : α × List Token → Except Stop (β × List Token)} (h : Fits fits tokens first)
    (hnext : ∀ value front rest, front ++ rest = tokens → fits value front rest →
      Fits (fun result more => goal result (front ++ more)) rest (next (value, rest))) :
    Fits goal tokens (first >>= next) := by
  cases first with
  | error stop => exact h
  | ok read =>
    obtain ⟨value, rest⟩ := read
    obtain ⟨front, rfl, hfits⟩ := h
    exact (hnext value front rest rfl hfits).append front

/-- A primary expression is derived, and an open one is not followed by brackets. -/
def FitsPrimary (expr : TypeExpr) (front rest : List Token) : Prop :=
  ∃ isOpen, Derives true front (.primary isOpen expr) ∧
    (isOpen = true → rest.head? ≠ some (.mark '['))

/-- A postfixed expression is derived and not followed by brackets. -/
def FitsPostfixed (expr : TypeExpr) (front rest : List Token) : Prop :=
  Derives true front (.postfixed expr) ∧ rest.head? ≠ some (.mark '[')

/-- The arguments are derived, from all that has been read but the bracket that closes them. -/
def FitsArguments (exprs : List TypeExpr) (front _rest : List Token) : Prop :=
  ∃ inner, front = inner ++ [.mark '>'] ∧ Derives true inner (.arguments exprs)

/-- Whether each function reads what it is to read, provided the bound leaves four calls for each
token. -/
structure ReadsDerived (bound : Nat) : Prop where
  primary : ∀ tokens, 4 * tokens.length + 1 ≤ bound →
    Fits FitsPrimary tokens (parsePrimary bound tokens)
  postfixed : ∀ tokens, 4 * tokens.length + 2 ≤ bound →
    Fits FitsPostfixed tokens (parsePostfixed bound tokens)
  alternatives : ∀ tokens, 4 * tokens.length + 1 ≤ bound →
    Fits (fun exprs front _ => Derives true front (.alternatives exprs)) tokens
      (parseAlternatives bound tokens)
  union : ∀ tokens, 4 * tokens.length + 3 ≤ bound →
    Fits (fun expr front _ => Derives true front (.union expr)) tokens (parseUnion bound tokens)
  arguments : ∀ tokens, 4 * tokens.length + 4 ≤ bound →
    Fits FitsArguments tokens (parseArguments bound tokens)

/-- All brackets that follow are read. -/
theorem fits_brackets (item : TypeExpr) (tokens : List Token) :
    Fits (fun expr front rest => ∃ count, front = pairs count ∧ expr = arrays count item ∧
      rest.head? ≠ some (.mark '[')) tokens (brackets item tokens) := by
  fun_induction brackets item tokens with
  | case1 item rest ih =>
    cases hread : brackets (.array item) rest with
    | error stop => simpa [Fits, hread] using ih
    | ok read =>
      rw [hread] at ih
      obtain ⟨-, rfl, count, rfl, hexpr, hnext⟩ := ih
      exact ⟨pairs (count + 1), by simp, count + 1, rfl, hexpr, hnext⟩
  | case2 => rfl
  | case3 item tokens _ hnot =>
    refine ⟨[], rfl, 0, rfl, rfl, fun h => ?_⟩
    obtain ⟨rest, rfl⟩ := List.head?_eq_some_iff.mp h
    exact hnot rest rfl

/-- One more call lets postfixed expressions be read as they are derived. -/
theorem ReadsDerived.succ_postfixed (ih : ReadsDerived bound)
    (h : 4 * tokens.length + 2 ≤ bound + 1) :
    Fits FitsPostfixed tokens (parsePostfixed (bound + 1) tokens) := by
  rw [parsePostfixed]
  refine (ih.primary tokens (by omega)).bind fun item front rest _ hitem => ?_
  obtain ⟨isOpen, hderives, hopen⟩ := hitem
  refine (fits_brackets item rest).imp fun expr more left happend hbrackets => ?_
  obtain ⟨count, rfl, rfl, hnext⟩ := hbrackets
  refine ⟨.postfixed count hderives fun _ h => ?_, hnext⟩
  -- an open item is not followed by brackets, so there are none
  cases count with
  | zero => rfl
  | succ count => exact absurd (by simp [← happend]) (hopen h)

/-- One more call lets alternatives be read as they are derived. -/
theorem ReadsDerived.succ_alternatives (ih : ReadsDerived bound)
    (h : 4 * tokens.length + 1 ≤ bound + 1) :
    Fits (fun exprs front _ => Derives true front (.alternatives exprs)) tokens
      (parseAlternatives (bound + 1) tokens) := by
  by_cases hbar : ∃ rest, tokens = .mark '|' :: rest
  · obtain ⟨rest, rfl⟩ := hbar
    rw [List.length_cons] at h
    rw [parseAlternatives]
    refine Fits.cons ((ih.postfixed rest (by omega)).bind fun first front rest happend hfirst => ?_)
    have hlength := congrArg List.length happend
    rw [List.length_append] at hlength
    refine (ih.alternatives rest (by omega)).bind fun others more left _ hothers => ?_
    exact Fits.stay (by simpa using Derives.alternative hfirst.1 hothers)
  · rw [parseAlternatives]
    · exact Fits.stay .noAlternatives
    · exact fun rest h => hbar ⟨rest, h⟩

/-- One more call lets unions be read as they are derived. -/
theorem ReadsDerived.succ_union (ih : ReadsDerived bound)
    (h : 4 * tokens.length + 3 ≤ bound + 1) :
    Fits (fun expr front _ => Derives true front (.union expr)) tokens
      (parseUnion (bound + 1) tokens) := by
  rw [parseUnion]
  refine (ih.postfixed tokens (by omega)).bind fun first front rest happend hfirst => ?_
  have hlength := congrArg List.length happend
  rw [List.length_append] at hlength
  refine (ih.alternatives rest (by omega)).bind fun others more left _ hothers => ?_
  exact Fits.stay (by simpa using Derives.union hfirst.1 hothers)

/-- One more call lets arguments be read as they are derived. -/
theorem ReadsDerived.succ_arguments (ih : ReadsDerived bound)
    (h : 4 * tokens.length + 4 ≤ bound + 1) :
    Fits FitsArguments tokens (parseArguments (bound + 1) tokens) := by
  rw [parseArguments]
  refine (ih.union tokens (by omega)).bind fun first front rest happend hfirst => ?_
  have hlength := congrArg List.length happend
  rw [List.length_append] at hlength
  dsimp only
  split
  · rename_i rest
    rw [List.length_cons] at hlength
    refine Fits.cons ((ih.arguments rest (by omega)).bind fun others more left _ hothers => ?_)
    obtain ⟨inner, rfl, hothers⟩ := hothers
    exact Fits.stay ⟨front ++ .mark ',' :: inner, by simp, .arguments hfirst hothers⟩
  · exact Fits.cons (Fits.stay ⟨front, by simp, .argument hfirst⟩)
  · rfl

/-- One more call lets primary expressions be read as they are derived. -/
theorem ReadsDerived.succ_primary (ih : ReadsDerived bound)
    (h : 4 * tokens.length + 1 ≤ bound + 1) :
    Fits FitsPrimary tokens (parsePrimary (bound + 1) tokens) := by
  have hclosed : ∀ {front rest : List Token} {expr : TypeExpr},
      Derives true front (.primary false expr) → FitsPrimary expr front rest :=
    fun h => ⟨false, h, by simp⟩
  cases tokens with
  | nil => rfl
  | cons token tokens =>
  rw [List.length_cons] at h
  cases token with
  | literal text => exact Fits.cons (Fits.stay (hclosed (.literal text)))
  | mark c =>
    by_cases hc : c = '('
    · subst hc
      rw [parsePrimary]
      refine Fits.cons ((ih.union tokens (by omega)).bind fun inner front rest _ hinner => ?_)
      dsimp only
      split
      · exact Fits.cons (Fits.stay (hclosed (by simpa using Derives.parenthesized hinner)))
      · rfl
    · unfold parsePrimary
      split <;> simp_all [Fits]
  | name word =>
    unfold parsePrimary
    dsimp only
    split_ifs with hkeyof hfunction
    · subst hkeyof
      refine Fits.cons ((ih.primary tokens (by omega)).bind fun operand front rest _ hoperand => ?_)
      obtain ⟨isOpen, hderives, hopen⟩ := hoperand
      exact Fits.stay ⟨isOpen, by simpa using Derives.keyof hderives, hopen⟩
    · obtain ⟨rfl, hopening⟩ := hfunction
      obtain hskip | ⟨group, rest, hgroup, rfl, hskip⟩ := skipGroup_zero hopening
      · rw [hskip]
        rfl
      · rw [hskip, show (Except.ok rest : Except Stop _) = pure rest from rfl, pure_bind]
        refine Fits.cons (Fits.append group ?_)
        split
        · rename_i rest
          rw [List.length_append, List.length_cons] at h
          refine Fits.cons ((ih.postfixed rest (by omega)).bind fun expr front rest _ hexpr => ?_)
          exact Fits.stay ⟨true, by simpa using Derives.result hgroup hexpr.1, fun _ => hexpr.2⟩
        · exact Fits.stay (hclosed (by simpa using Derives.function hgroup))
    · split
      · rename_i rest
        rw [List.length_cons] at h
        refine Fits.cons (Fits.cons ((ih.arguments rest (by omega)).bind
          fun args front rest _ hargs => ?_))
        obtain ⟨inner, rfl, hargs⟩ := hargs
        exact Fits.stay (hclosed (by simpa using Derives.applied hkeyof hargs))
      · exact Fits.cons (Fits.stay (hclosed (.name hkeyof)))

/-- By induction on the bound, every function reads what it is to read. -/
theorem readsDerived (bound : Nat) : ReadsDerived bound := by
  induction bound with
  | zero => exact ⟨by simp, by simp, by simp, by simp, by simp⟩
  | succ bound ih =>
    exact ⟨fun _ => ih.succ_primary, fun _ => ih.succ_postfixed, fun _ => ih.succ_alternatives,
      fun _ => ih.succ_union, fun _ => ih.succ_arguments⟩

/-! ## What is derived is read -/

/-- The marks with which a phrase would go on. -/
def Phrase.barred : Phrase → List Char
  | .primary isOpen _ => if isOpen then ['(', ':', '<', '['] else ['(', ':', '<']
  | .postfixed _ => ['(', ':', '<', '[']
  | .alternatives _ | .union _ => ['(', ':', '<', '[', '|']
  | .arguments _ => []

/-- The calls that reading a phrase takes beyond four for each token. -/
def Phrase.calls : Phrase → Nat
  | .primary .. | .alternatives _ => 1
  | .postfixed _ => 2
  | .union _ => 3
  | .arguments _ => 4

/-- Whether the phrase is read off the front of the tokens. -/
def Phrase.ReadOff (bound : Nat) (tokens rest : List Token) : Phrase → Prop
  | .primary _ expr => parsePrimary bound (tokens ++ rest) = .ok (expr, rest)
  | .postfixed expr => parsePostfixed bound (tokens ++ rest) = .ok (expr, rest)
  | .alternatives exprs => parseAlternatives bound (tokens ++ rest) = .ok (exprs, rest)
  | .union expr => parseUnion bound (tokens ++ rest) = .ok (expr, rest)
  | .arguments exprs =>
    parseArguments bound (tokens ++ .mark '>' :: rest) = .ok (exprs, rest)

/-- A bound that suffices for a phrase allows at least one call. -/
theorem Phrase.exists_bound {phrase : Phrase} {size : Nat} (h : size + phrase.calls ≤ bound) :
    ∃ less, bound = less + 1 := by
  refine Nat.exists_eq_succ_of_ne_zero fun hzero => ?_
  cases phrase <;> simp [Phrase.calls, hzero] at h

/-- A word that neither arguments nor a group follow is a name. -/
theorem parsePrimary_name {word : String} (hword : word ≠ "keyof")
    (hopening : rest.head? ≠ some (.mark '(')) (hangle : rest.head? ≠ some (.mark '<')) :
    parsePrimary (bound + 1) (.name word :: rest) = .ok (.name word [], rest) := by
  unfold parsePrimary
  simp only [hword, if_false, hopening, and_false]
  split
  · simp at hangle
  · rfl

/-- The result type of a function is read and dropped. -/
theorem parsePrimary_result {group : List Token} (hgroup : IsGroup group) :
    parsePrimary (bound + 1) (.name "function" :: (group ++ .mark ':' :: rest)) =
      (parsePostfixed bound rest).map fun read => (.function, read.2) := by
  have hopening : (group ++ .mark ':' :: rest).head? = some (.mark '(') := by
    simp [hgroup.opening]
  unfold parsePrimary
  simp only [String.reduceEq, if_false, hopening, and_true, if_true, hgroup.skipGroup_append]
  cases hrun : parsePostfixed bound rest <;>
    simp [hrun, bind, Except.bind, pure, Except.pure, Except.map]

/-- A function type without a result type is its group. -/
theorem parsePrimary_function {group : List Token} (hgroup : IsGroup group)
    (hcolon : rest.head? ≠ some (.mark ':')) :
    parsePrimary (bound + 1) (.name "function" :: (group ++ rest)) = .ok (.function, rest) := by
  have hopening : (group ++ rest).head? = some (.mark '(') := by simp [hgroup.opening]
  unfold parsePrimary
  simp only [String.reduceEq, if_false, hopening, and_true, if_true, hgroup.skipGroup_append]
  simp only [bind, Except.bind]
  split
  · simp at hcolon
  · rfl

/-- Without a bar in front there are no more alternatives. -/
theorem parseAlternatives_nil (hbar : rest.head? ≠ some (.mark '|')) :
    parseAlternatives (bound + 1) rest = .ok ([], rest) := by
  rw [parseAlternatives]
  rintro rest rfl
  simp at hbar

/-- Pairs of brackets are read as so many arrays, if no other bracket follows. -/
theorem brackets_pairs (count : Nat) (item : TypeExpr)
    (hnext : rest.head? ≠ some (.mark '[')) :
    brackets item (pairs count ++ rest) = .ok (arrays count item, rest) := by
  induction count generalizing item with
  | zero =>
    cases rest with
    | nil => rfl
    | cons token rest =>
      rw [pairs_zero, List.nil_append, brackets]
      · rfl
      · rintro rest ⟨⟩
        exact hnext rfl
      · rintro rest ⟨⟩
        exact hnext rfl
  | succ count ih => rw [pairs_succ, List.cons_append, List.cons_append, brackets, ih, arrays_succ]

/-- What may not follow further alternatives may not follow the one before them. -/
theorem Derives.barred_append {exprs : List TypeExpr}
    (h : Derives true tokens (.alternatives exprs))
    (hnext : ∀ c ∈ ['(', ':', '<', '[', '|'], rest.head? ≠ some (.mark c)) :
    ∀ c ∈ ['(', ':', '<', '['], (tokens ++ rest).head? ≠ some (.mark c) := by
  intro c hc
  cases h with
  | noAlternatives =>
    have hmem : ['(', ':', '<', '['] ⊆ ['(', ':', '<', '[', '|'] := by simp
    exact hnext c (hmem hc)
  | alternative =>
    rintro ⟨⟩
    simp at hc

/-- What may not follow an array may not follow the brackets of it, which an open expression does
not have. -/
theorem Phrase.barred_pairs {isOpen : Bool} {item : TypeExpr} {count : Nat}
    (hcount : isOpen = true → count = 0)
    (hnext : ∀ c ∈ ['(', ':', '<', '['], rest.head? ≠ some (.mark c)) :
    ∀ c ∈ (Phrase.primary isOpen item).barred, (pairs count ++ rest).head? ≠ some (.mark c) := by
  intro c hc
  cases count with
  | zero =>
    have hmem : (Phrase.primary isOpen item).barred ⊆ ['(', ':', '<', '['] := by
      cases isOpen <;> simp [Phrase.barred]
    exact hnext c (hmem hc)
  | succ count =>
    have hclosed : isOpen = false := by simpa using hcount
    rintro ⟨⟩
    simp [Phrase.barred, hclosed] at hc

/-- Each function takes all of a phrase that stands at the front, if what follows cannot belong
to it and the bound leaves four calls for each token. -/
theorem Derives.readOff {phrase : Phrase} (h : Derives true tokens phrase)
    (hnext : ∀ c ∈ phrase.barred, rest.head? ≠ some (.mark c))
    (hbound : 4 * tokens.length + phrase.calls ≤ bound) : phrase.ReadOff bound tokens rest := by
  -- Each case spends one call. A phrase inside has fewer tokens, or as many and takes fewer calls
  -- beyond the four for each of them.
  induction h generalizing rest bound with
  | @parenthesized tokens expr _ ih =>
    obtain ⟨bound, rfl⟩ := Phrase.exists_bound hbound
    simp only [Phrase.calls, List.length_cons, List.length_append] at hbound ih
    have hinner : parseUnion bound (tokens ++ .mark ')' :: rest) = .ok (expr, .mark ')' :: rest) :=
      ih (by simp [Phrase.barred]) (by omega)
    simp [Phrase.ReadOff, parsePrimary, hinner, bind, Except.bind, pure, Except.pure]
  | literal text =>
    obtain ⟨bound, rfl⟩ := Phrase.exists_bound hbound
    rfl
  | @keyof tokens isOpen operand _ ih =>
    obtain ⟨bound, rfl⟩ := Phrase.exists_bound hbound
    simp only [Phrase.calls, List.length_cons] at hbound ih
    have hoperand : parsePrimary bound (tokens ++ rest) = .ok (operand, rest) :=
      ih hnext (by omega)
    simp [Phrase.ReadOff, parsePrimary, hoperand, bind, Except.bind, pure, Except.pure]
  | @function group hgroup =>
    obtain ⟨bound, rfl⟩ := Phrase.exists_bound hbound
    exact parsePrimary_function hgroup (hnext ':' (by simp [Phrase.barred]))
  | @result group tokens expr hgroup _ ih =>
    obtain ⟨bound, rfl⟩ := Phrase.exists_bound hbound
    simp only [Phrase.calls, List.length_cons, List.length_append] at hbound ih
    have hexpr : parsePostfixed bound (tokens ++ rest) = .ok (expr, rest) :=
      ih hnext (by omega)
    simp [Phrase.ReadOff, parsePrimary_result hgroup, hexpr, Except.map]
  | @name word hword =>
    obtain ⟨bound, rfl⟩ := Phrase.exists_bound hbound
    exact parsePrimary_name hword (hnext '(' (by simp [Phrase.barred]))
      (hnext '<' (by simp [Phrase.barred]))
  | @applied word tokens args hword _ ih =>
    obtain ⟨bound, rfl⟩ := Phrase.exists_bound hbound
    simp only [Phrase.calls, List.length_cons, List.length_append] at hbound ih
    have hargs : parseArguments bound (tokens ++ .mark '>' :: rest) = .ok (args, rest) :=
      ih (by simp [Phrase.barred]) (by omega)
    simp [Phrase.ReadOff, parsePrimary, hargs, hword, bind, Except.bind, pure, Except.pure]
  | @postfixed tokens isOpen item count _ hcount ih =>
    obtain ⟨bound, rfl⟩ := Phrase.exists_bound hbound
    simp only [Phrase.calls, List.length_append] at hbound ih
    have hitem : parsePrimary bound (tokens ++ (pairs count ++ rest)) =
        .ok (item, pairs count ++ rest) :=
      ih (Phrase.barred_pairs (hcount rfl) hnext) (by omega)
    have hbracket : rest.head? ≠ some (.mark '[') := hnext '[' (by simp [Phrase.barred])
    simp [Phrase.ReadOff, parsePostfixed, hitem, brackets_pairs count item hbracket, bind,
      Except.bind]
  | noAlternatives =>
    obtain ⟨bound, rfl⟩ := Phrase.exists_bound hbound
    exact parseAlternatives_nil (hnext '|' (by simp [Phrase.barred]))
  | @alternative tokens expr more exprs _ hmore ih ihmore =>
    obtain ⟨bound, rfl⟩ := Phrase.exists_bound hbound
    simp only [Phrase.calls, List.length_cons, List.length_append] at hbound ih ihmore
    have hexpr : parsePostfixed bound (tokens ++ (more ++ rest)) = .ok (expr, more ++ rest) :=
      ih (hmore.barred_append hnext) (by omega)
    have hexprs : parseAlternatives bound (more ++ rest) = .ok (exprs, rest) :=
      ihmore hnext (by omega)
    simp [Phrase.ReadOff, parseAlternatives, hexpr, hexprs, bind, Except.bind, pure, Except.pure]
  | @union tokens first more others _ hmore ih ihmore =>
    obtain ⟨bound, rfl⟩ := Phrase.exists_bound hbound
    simp only [Phrase.calls, List.length_append] at hbound ih ihmore
    have hfirst : parsePostfixed bound (tokens ++ (more ++ rest)) = .ok (first, more ++ rest) :=
      ih (hmore.barred_append hnext) (by omega)
    have hothers : parseAlternatives bound (more ++ rest) = .ok (others, rest) :=
      ihmore hnext (by omega)
    simp [Phrase.ReadOff, parseUnion, hfirst, hothers, bind, Except.bind, pure, Except.pure]
  | @argument tokens expr _ ih =>
    obtain ⟨bound, rfl⟩ := Phrase.exists_bound hbound
    simp only [Phrase.calls] at hbound ih
    have hexpr : parseUnion bound (tokens ++ .mark '>' :: rest) = .ok (expr, .mark '>' :: rest) :=
      ih (by simp [Phrase.barred]) (by omega)
    simp [Phrase.ReadOff, parseArguments, hexpr, bind, Except.bind, pure, Except.pure]
  | @arguments tokens expr more exprs _ _ ih ihmore =>
    obtain ⟨bound, rfl⟩ := Phrase.exists_bound hbound
    simp only [Phrase.calls, List.length_cons, List.length_append] at hbound ih ihmore
    have hexpr : parseUnion bound (tokens ++ .mark ',' :: (more ++ .mark '>' :: rest)) =
        .ok (expr, .mark ',' :: (more ++ .mark '>' :: rest)) :=
      ih (by simp [Phrase.barred]) (by omega)
    have hexprs : parseArguments bound (more ++ .mark '>' :: rest) = .ok (exprs, rest) :=
      ihmore (by simp [Phrase.barred]) (by omega)
    simp [Phrase.ReadOff, parseArguments, hexpr, hexprs, bind, Except.bind, pure, Except.pure]

/-! ## Reading to the end -/

/-- Reading to the end answers what the tokens derive, or refuses them. -/
theorem read_eq_ok_iff {expr : TypeExpr} :
    read tokens = .ok expr ↔ Derives true tokens (.union expr) := by
  constructor
  · intro h
    have hfits := (readsDerived (4 * tokens.length + 4)).union tokens (by omega)
    unfold read at h
    cases hrun : parseUnion (4 * tokens.length + 4) tokens with
    | error stop => simp [hrun, bind, Except.bind] at h
    | ok result =>
      obtain ⟨value, rest⟩ := result
      rw [hrun] at h hfits
      obtain ⟨front, happend, hderives⟩ := hfits
      cases rest with
      | nil =>
        obtain rfl : value = expr := by simpa [bind, Except.bind, pure, Except.pure] using h
        simpa [← happend] using hderives
      | cons token rest => simp [bind, Except.bind] at h
  · intro h
    have hread : (Phrase.union expr).ReadOff (4 * tokens.length + 4) tokens [] :=
      h.readOff (by simp) (by simp [Phrase.calls])
    rw [Phrase.ReadOff, List.append_nil] at hread
    simp [read, hread, bind, Except.bind, pure, Except.pure]

/-- Reading to the end stops only at tokens that it refuses. -/
theorem eq_refused_of_read_eq_error {stop : Stop} (h : read tokens = .error stop) :
    stop = .refused := by
  have hfits := (readsDerived (4 * tokens.length + 4)).union tokens (by omega)
  unfold read at h
  cases hrun : parseUnion (4 * tokens.length + 4) tokens with
  | error cause =>
    rw [hrun] at h hfits
    obtain rfl : cause = stop := by simpa [bind, Except.bind] using h
    exact hfits
  | ok result =>
    obtain ⟨value, rest⟩ := result
    rw [hrun] at h
    cases rest with
    | nil => simp [bind, Except.bind, pure, Except.pure] at h
    | cons token rest => simpa [bind, Except.bind, eq_comm] using h

/-- The reader answers an expression exactly if the tokens derive it with brackets left to result
types. -/
theorem ofTokens?_eq_some_iff {expr : TypeExpr} :
    ofTokens? tokens = some expr ↔ Derives true tokens (.union expr) := by
  rw [← read_eq_ok_iff, ofTokens?]
  cases read tokens <;> simp [Except.toOption]

/-- Reading answers the expression that the tokens derive with brackets left to result types; it
answers one exactly if the tokens derive any in the grammar as it stands; and it comes to an end
within its bound and without closing what is not open, with an expression or a refusal. -/
theorem reads_iff_derives (tokens : List Token) :
    (∀ expr, ofTokens? tokens = some expr ↔ Derives true tokens (.union expr)) ∧
      ((ofTokens? tokens).isSome = true ↔ ∃ expr, Derives false tokens (.union expr)) ∧
      ((∃ expr, read tokens = .ok expr) ∨ read tokens = .error .refused) := by
  refine ⟨fun expr => ofTokens?_eq_some_iff, ?_, ?_⟩
  · rw [← exists_derives_longest_iff, Option.isSome_iff_exists]
    simp only [ofTokens?_eq_some_iff]
  · cases hread : read tokens with
    | ok expr => exact .inl ⟨expr, rfl⟩
    | error stop => exact .inr (by rw [eq_refused_of_read_eq_error hread])

/-- As it stands the grammar also makes `function(): int[]` an array of functions, which is not
how it is read. -/
theorem not_reads_array_of_functions :
    ¬ (ofTokens? [.name "function", .mark '(', .mark ')', .mark ':', .name "int", .mark '[',
        .mark ']'] = some (.array .function) ↔
      Derives false [.name "function", .mark '(', .mark ')', .mark ':', .name "int", .mark '[',
        .mark ']'] (.union (.array .function))) := by
  have hgroup : IsGroup [.mark '(', .mark ')'] :=
    isGroup_cons_iff.mpr ⟨rfl, (closes_cons_iff rfl).mpr (closes_zero_iff.mpr rfl)⟩
  have hint : Derives false [.name "int"] (.postfixed (.name "int" [])) :=
    .postfixed 0 (.name (by decide)) (by simp)
  have harray : Derives false _ (.postfixed (.array .function)) :=
    .postfixed 1 (.result hgroup hint) (by simp)
  intro h
  have hread := h.mpr (.union harray .noAlternatives)
  simp [ofTokens?, read, parseUnion, parsePostfixed, parsePrimary, parseAlternatives, skipGroup,
    nextDepth, brackets, unionOf, Except.toOption, bind, Except.bind, pure, Except.pure] at hread

end Ambient.TypeExpr
