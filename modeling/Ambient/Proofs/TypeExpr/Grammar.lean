import Ambient.TypeExpr.Parser
import Mathlib.Logic.Function.Iterate

/-!
# The grammar of type expressions

    union   ::= postfixed ('|' postfixed)*
    postfixed ::= primary ('[' ']')*
    primary ::= '(' union ')' | literal | 'keyof' primary
              | 'function' group (':' postfixed)? | name ('<' union (',' union)* '>')?

A group runs from a parenthesis to the one that closes it, and `keyof` is no name. Read as it
stands the grammar is ambiguous: brackets after the result type of a function may belong to the
result type or to the function type. The derivations here come in two kinds, all of them and
those that leave such brackets to the result type. Both cover the same lists of tokens.
-/

namespace Ambient.TypeExpr

/-! ## Groups -/

/-- Whether the tokens close all of `depth` open parentheses, and none of their beginnings
does. -/
def Closes (depth : Nat) (tokens : List Token) : Prop :=
  tokens.count (.mark ')') = depth + tokens.count (.mark '(') ∧
    ∀ front, front <+: tokens →
      front.count (.mark ')') = depth + front.count (.mark '(') → front = tokens

/-- The shortest balanced run of tokens from an opening parenthesis on. -/
structure IsGroup (tokens : List Token) : Prop where
  opening : tokens.head? = some (.mark '(')
  balanced : tokens.count (.mark '(') = tokens.count (.mark ')')
  shortest : ∀ front, front <+: tokens → front ≠ [] →
    front.count (.mark '(') = front.count (.mark ')') → front = tokens

/-- Outside of all groups nothing is left to close exactly if there are no tokens. -/
theorem closes_zero_iff {tokens : List Token} : Closes 0 tokens ↔ tokens = [] := by
  constructor
  · rintro ⟨-, hshort⟩
    exact (hshort [] List.nil_prefix (by simp)).symm
  · rintro rfl
    exact ⟨by simp, fun front hfront _ => List.prefix_nil.mp hfront⟩

/-- An open group is not closed by no tokens. -/
theorem not_closes_succ_nil (depth : Nat) : ¬ Closes (depth + 1) [] := by
  rintro ⟨hcount, -⟩
  simp at hcount

/-- One token changes how many parentheses are open, and the tokens after it have to close
those. -/
theorem closes_cons_iff {depth next : Nat} {token : Token} {tokens : List Token}
    (hnext : nextDepth (depth + 1) token = .ok next) :
    Closes (depth + 1) (token :: tokens) ↔ Closes next tokens := by
  have hcount : ∀ front : List Token,
      ((token :: front).count (.mark ')') = depth + 1 + (token :: front).count (.mark '(') ↔
        front.count (.mark ')') = next + front.count (.mark '(')) := by
    intro front
    unfold nextDepth at hnext
    split at hnext
    · obtain rfl : depth + 1 + 1 = next := by simpa using hnext
      simp only [List.count_cons, beq_iff_eq, Token.mark.injEq, Char.reduceEq, if_false, if_true]
      omega
    · obtain rfl : depth = next := by simpa using hnext
      simp only [List.count_cons, beq_iff_eq, Token.mark.injEq, Char.reduceEq, if_false, if_true]
      omega
    · rename_i hopen hclose
      obtain rfl : depth + 1 = next := by simpa using hnext
      rw [List.count_cons_of_ne fun h => hclose h, List.count_cons_of_ne fun h => hopen h]
  -- With the balance moved by one token, every front of the rest is one of the whole, a token
  -- longer.
  constructor
  · rintro ⟨hall, hshort⟩
    refine ⟨(hcount tokens).mp hall, fun front hfront h => ?_⟩
    have := hshort (token :: front) ((List.prefix_cons_inj token).mpr hfront)
      ((hcount front).mpr h)
    simpa using this
  · rintro ⟨hall, hshort⟩
    refine ⟨(hcount tokens).mpr hall, fun front hfront h => ?_⟩
    cases front with
    | nil => simp at h
    | cons first front =>
      obtain ⟨rfl, hrest⟩ := List.cons_prefix_cons.mp hfront
      rw [hshort front hrest ((hcount front).mp h)]

/-- A group is an opening parenthesis and what closes it. -/
theorem isGroup_cons_iff {token : Token} {tokens : List Token} :
    IsGroup (token :: tokens) ↔ token = .mark '(' ∧ Closes 1 tokens := by
  have hcount : ∀ front : List Token,
      ((Token.mark '(' :: front).count (.mark '(') = (Token.mark '(' :: front).count (.mark ')') ↔
        front.count (.mark ')') = 1 + front.count (.mark '(')) := by
    intro front
    simp only [List.count_cons, beq_iff_eq, Token.mark.injEq, Char.reduceEq, if_false, if_true]
    omega
  constructor
  · rintro ⟨hopen, hall, hshort⟩
    obtain rfl : token = .mark '(' := by simpa using hopen
    refine ⟨rfl, (hcount tokens).mp hall, fun front hfront h => ?_⟩
    have := hshort (.mark '(' :: front) ((List.prefix_cons_inj _).mpr hfront) (by simp)
      ((hcount front).mpr h)
    simpa using this
  · rintro ⟨rfl, hall, hshort⟩
    refine ⟨rfl, (hcount tokens).mpr hall, fun front hfront hne h => ?_⟩
    cases front with
    | nil => exact absurd rfl hne
    | cons first front =>
      obtain ⟨rfl, hrest⟩ := List.cons_prefix_cons.mp hfront
      rw [hshort front hrest ((hcount front).mp h)]

/-! ## Derivations -/

/-- The kinds of phrases, each with what it stands for. A primary expression is open if it ends
with the result type of a function, to which further brackets would belong. -/
inductive Phrase where
  | primary (isOpen : Bool) (expr : TypeExpr)
  | postfixed (expr : TypeExpr)
  | alternatives (exprs : List TypeExpr)
  | union (expr : TypeExpr)
  | arguments (exprs : List TypeExpr)

/-- A number of pairs of brackets. -/
def pairs (count : Nat) : List Token := (List.replicate count [.mark '[', .mark ']']).flatten

/-- The array of arrays of items that a number of pairs of brackets make out of an item. -/
def arrays (count : Nat) (item : TypeExpr) : TypeExpr := TypeExpr.array^[count] item

/-- Which tokens make up which phrases. Among all derivations the `longest` ones are those in which
an open expression takes no brackets. -/
inductive Derives (longest : Bool) : List Token → Phrase → Prop
  | parenthesized {tokens expr} :
      Derives longest tokens (.union expr) →
        Derives longest (.mark '(' :: (tokens ++ [.mark ')'])) (.primary false expr)
  | literal (text) : Derives longest [.literal text] (.primary false (.literal text))
  | keyof {tokens isOpen operand} :
      Derives longest tokens (.primary isOpen operand) →
        Derives longest (.name "keyof" :: tokens) (.primary isOpen (.keyof operand))
  | function {group} :
      IsGroup group → Derives longest (.name "function" :: group) (.primary false .function)
  | result {group tokens expr} :
      IsGroup group → Derives longest tokens (.postfixed expr) →
        Derives longest (.name "function" :: (group ++ .mark ':' :: tokens))
          (.primary true .function)
  | name {word} :
      word ≠ "keyof" → Derives longest [.name word] (.primary false (.name word []))
  | applied {word tokens args} :
      word ≠ "keyof" → Derives longest tokens (.arguments args) →
        Derives longest (.name word :: .mark '<' :: (tokens ++ [.mark '>']))
          (.primary false (.name word args))
  | postfixed {tokens isOpen item} (count : Nat) :
      Derives longest tokens (.primary isOpen item) →
        (longest = true → isOpen = true → count = 0) →
        Derives longest (tokens ++ pairs count) (.postfixed (arrays count item))
  | noAlternatives : Derives longest [] (.alternatives [])
  | alternative {tokens expr more exprs} :
      Derives longest tokens (.postfixed expr) → Derives longest more (.alternatives exprs) →
        Derives longest (.mark '|' :: (tokens ++ more)) (.alternatives (expr :: exprs))
  | union {tokens first more others} :
      Derives longest tokens (.postfixed first) → Derives longest more (.alternatives others) →
        Derives longest (tokens ++ more) (.union (unionOf first others))
  | argument {tokens expr} :
      Derives longest tokens (.union expr) → Derives longest tokens (.arguments [expr])
  | arguments {tokens expr more exprs} :
      Derives longest tokens (.union expr) → Derives longest more (.arguments exprs) →
        Derives longest (tokens ++ .mark ',' :: more) (.arguments (expr :: exprs))

/-- No pairs of brackets are no tokens. -/
@[simp] theorem pairs_zero : pairs 0 = [] := rfl

/-- The first of several pairs of brackets stands in front. -/
@[simp] theorem pairs_succ (count : Nat) :
    pairs (count + 1) = .mark '[' :: .mark ']' :: pairs count := by
  simp [pairs, List.replicate_succ]

/-- Pairs of brackets behind each other are all together so many. -/
theorem pairs_append (count more : Nat) : pairs count ++ pairs more = pairs (count + more) := by
  simp [pairs, ← List.flatten_append]

/-- An expression is no array of itself. -/
@[simp] theorem arrays_zero (item : TypeExpr) : arrays 0 item = item := rfl

/-- The arrays of an expression are built from the inside. -/
@[simp] theorem arrays_succ (count : Nat) (item : TypeExpr) :
    arrays (count + 1) item = arrays count (.array item) := rfl

/-- The last array is built around all the others. -/
theorem arrays_succ' (count : Nat) (item : TypeExpr) :
    arrays (count + 1) item = .array (arrays count item) :=
  Function.iterate_succ_apply' TypeExpr.array count item

/-! ## Both kinds of derivations cover the same lists -/

/-- A derivation in which open expressions take no brackets is a derivation. -/
theorem Derives.of_longest {tokens : List Token} {phrase : Phrase}
    (h : Derives true tokens phrase) : Derives false tokens phrase := by
  induction h with
  | parenthesized _ ih => exact .parenthesized ih
  | literal text => exact .literal text
  | keyof _ ih => exact .keyof ih
  | function hgroup => exact .function hgroup
  | result hgroup _ ih => exact .result hgroup ih
  | name hword => exact .name hword
  | applied hword _ ih => exact .applied hword ih
  | postfixed count _ _ ih => exact .postfixed count ih (by simp)
  | noAlternatives => exact .noAlternatives
  | alternative _ _ ih ihmore => exact .alternative ih ihmore
  | union _ _ ih ihmore => exact .union ih ihmore
  | argument _ ih => exact .argument ih
  | arguments _ _ ih ihmore => exact .arguments ih ihmore

/-- Whether the tokens, with any further brackets that the phrase can take to itself, have a
derivation of the same kind in which open expressions take no brackets. -/
def Phrase.Regroups (tokens : List Token) : Phrase → Prop
  | .primary isOpen _ => ∀ count, (isOpen = false → count = 0) →
      ∃ expr, Derives true (tokens ++ pairs count) (.primary isOpen expr)
  | .postfixed _ => ∀ count, ∃ expr, Derives true (tokens ++ pairs count) (.postfixed expr)
  | .alternatives _ => ∃ exprs, Derives true tokens (.alternatives exprs)
  | .union _ => ∃ expr, Derives true tokens (.union expr)
  | .arguments _ => ∃ exprs, Derives true tokens (.arguments exprs)

/-- A closed primary expression takes no brackets to itself. -/
theorem Phrase.regroups_primary_of_derives {tokens : List Token} {expr : TypeExpr}
    (h : Derives true tokens (.primary false expr)) {other : TypeExpr} :
    (Phrase.primary false other).Regroups tokens := by
  intro count hcount
  obtain rfl := hcount rfl
  exact ⟨expr, by simpa using h⟩

/-- Brackets move inwards, into the result type that the expression before them ends with. -/
theorem Derives.regroups {longest : Bool} {tokens : List Token} {phrase : Phrase}
    (h : Derives longest tokens phrase) : phrase.Regroups tokens := by
  induction h with
  | parenthesized _ ih =>
    obtain ⟨expr, h⟩ := ih
    exact Phrase.regroups_primary_of_derives (.parenthesized h)
  | literal text => exact Phrase.regroups_primary_of_derives (.literal text)
  | keyof _ ih =>
    intro count hcount
    obtain ⟨expr, h⟩ := ih count hcount
    exact ⟨.keyof expr, .keyof h⟩
  | function hgroup => exact Phrase.regroups_primary_of_derives (.function hgroup)
  | result hgroup _ ih =>
    intro count _
    obtain ⟨expr, h⟩ := ih count
    exact ⟨.function, by simpa using Derives.result hgroup h⟩
  | name hword => exact Phrase.regroups_primary_of_derives (.name hword)
  | applied hword _ ih =>
    obtain ⟨args, h⟩ := ih
    exact Phrase.regroups_primary_of_derives (.applied hword h)
  | @postfixed tokens isOpen item count _ _ ih =>
    intro more
    rw [List.append_assoc, pairs_append]
    cases isOpen with
    | false =>
      obtain ⟨expr, h⟩ := ih 0 (fun _ => rfl)
      have h' : Derives true tokens (.primary false expr) := by simpa using h
      exact ⟨_, .postfixed (count + more) h' (by simp)⟩
    | true =>
      obtain ⟨expr, h⟩ := ih (count + more) (by simp)
      exact ⟨_, by simpa using Derives.postfixed 0 h (fun _ _ => rfl)⟩
  | noAlternatives => exact ⟨[], .noAlternatives⟩
  | alternative _ _ ih ihmore =>
    obtain ⟨expr, h⟩ := ih 0
    obtain ⟨exprs, hmore⟩ := ihmore
    exact ⟨expr :: exprs, .alternative (by simpa using h) hmore⟩
  | union _ _ ih ihmore =>
    obtain ⟨first, h⟩ := ih 0
    obtain ⟨others, hmore⟩ := ihmore
    exact ⟨unionOf first others, .union (by simpa using h) hmore⟩
  | argument _ ih =>
    obtain ⟨expr, h⟩ := ih
    exact ⟨[expr], .argument h⟩
  | arguments _ _ ih ihmore =>
    obtain ⟨expr, h⟩ := ih
    obtain ⟨exprs, hmore⟩ := ihmore
    exact ⟨expr :: exprs, .arguments h hmore⟩

/-- Leaving brackets to result types loses no list of tokens. -/
theorem exists_derives_longest_iff {tokens : List Token} :
    (∃ expr, Derives true tokens (.union expr)) ↔ ∃ expr, Derives false tokens (.union expr) :=
  ⟨fun ⟨expr, h⟩ => ⟨expr, h.of_longest⟩, fun ⟨_, h⟩ => h.regroups⟩

end Ambient.TypeExpr
