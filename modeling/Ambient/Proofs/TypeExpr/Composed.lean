import Ambient.Proofs.TypeExpr.Notes
import Ambient.Proofs.TypeExpr.Written

/-!
# Written types by their parts

The text of a type does not show what in it is a reference to which symbol, or where a literal
begins. So writing is repeated here with an answer that keeps the parts apart, and from which the
text can be told. Its parts are those of the expression that are written at all: not the arguments
that a fixed meaning has no place for, nor those of a name that leads nowhere.
-/

namespace Ambient.TypeExpr

open Declaration (Resolver Writing Page warn refer)

/-- A written type by its parts. -/
inductive Composed where
  /-- A name that is no reference, with the arguments that are written. -/
  | named (word : String) (args : List Composed)
  | reference (symbol : Symbol) (spelling : String) (args : List Composed)
  | array (item : Composed)
  | union (members : List Composed)
  | keyof (operand : Composed)
  | literal (text : String)
  | function
  /-- What is written in the place of a type that cannot be. -/
  | any

namespace Composed

mutual

/-- The text of a written type. -/
def text : Composed → String
  | .named word args => writtenName word (texts args)
  | .reference _ spelling args => withArguments spelling (texts args)
  | .array item => arrayOf (text item)
  | .union members => alternatives (texts members)
  | .keyof operand => "keyof " ++ text operand
  | .literal text => text
  | .function => "Function"
  | .any => "any"

/-- The texts of written types. -/
def texts : List Composed → List String
  | [] => []
  | composed :: rest => text composed :: texts rest

end

/-- The texts of composed types in a row. -/
theorem texts_eq (list : List Composed) : texts list = list.map text := by
  induction list with
  | nil => rfl
  | cons composed rest ih => rw [texts, ih, List.map_cons]

/-- The written types right inside another. -/
def children : Composed → List Composed
  | .named _ args => args
  | .reference _ _ args => args
  | .array item => [item]
  | .union members => members
  | .keyof operand => [operand]
  | .literal _ | .function | .any => []

/-- A written type is another, or stands inside it at any depth. -/
inductive Has (node : Composed) : Composed → Prop
  | here : Has node node
  | inside {child composed : Composed} : child ∈ composed.children → Has node child →
      Has node composed

end Composed

/-! ## Writing by parts -/

variable (r : Resolver)

/-- Writes a name whose arguments have been written. -/
def composeName (word : String) (args : List Composed) : Writing Composed :=
  if (builtin? word []).isSome then pure (.named word (args.take (places word args.length)))
  else if word.toList.contains '.' || r.table.contains word then
    match r.resolve word with
    | .ok symbol => do return .reference symbol (← refer symbol) args
    | .error cause => do
      warn .unresolvedType ("type `" ++ word ++ "` " ++ cause.reason ++ "; emitted as any")
      return .any
  else if environmentNames.contains word then pure (.named word args)
  else do
    warn .unresolvedType ("type `" ++ word ++ "` is unknown; emitted as any")
    return .any

mutual

/-- Writes an expression. -/
def compose : TypeExpr → Writing Composed
  | .name word args => do composeName r word (← composeAll args)
  | .array item => do return .array (← compose item)
  | .union members => do return .union (← composeAll members)
  | .keyof operand => do return .keyof (← compose operand)
  | .literal text => pure (.literal text)
  | .function => pure .function
  | .unparsed raw => do
    warn .simplified ("type `" ++ raw ++ "` could not be parsed; emitted as any")
    return .any

/-- Writes expressions from left to right. -/
def composeAll : List TypeExpr → Writing (List Composed)
  | [] => return []
  | expr :: rest => do
    let composed ← compose expr
    return composed :: (← composeAll rest)

end

/-! ## Where a name leads -/

/-- The symbol that a name refers to. -/
def referent? (word : String) : Option Symbol :=
  if (builtin? word []).isSome then none
  else if word.toList.contains '.' || r.table.contains word then (r.resolve word).toOption
  else none

/-- Whether a name leads nowhere, so that nothing of it is written. -/
def isDropped (word : String) : Bool :=
  if (builtin? word []).isSome then false
  else if word.toList.contains '.' || r.table.contains word then !(r.resolve word).isOk
  else !environmentNames.contains word

/-- All arguments of a name without a fixed meaning have a place. -/
theorem places_of_builtin? {word : String} (h : builtin? word [] = none) (count : Nat) :
    places word count = count := by
  have hobject : word ≠ "Object" := by
    rintro rfl
    exact absurd h (by decide)
  have hone : ¬ ["array", "Array", "Promise"].contains word = true := by
    rw [List.contains_iff_mem]
    intro hmem
    have hall : ∀ other ∈ ["array", "Array", "Promise"], builtin? other [] ≠ none := by decide
    exact hall word hmem h
  rw [places, if_neg hobject, if_neg hone, h]
  rfl

/-- Where a name leads, and what is written of it then with any arguments: a name that needs no
resolving as it is, a reference as it is spelled, and nothing of what leads nowhere. -/
inductive Leads (r : Resolver) (word : String) : Prop
  | named : isDropped r word = false → referent? r word = none →
      (∀ texts, writeName r word texts = pure (writtenName word texts)) →
      (∀ args, composeName r word args =
        pure (.named word (args.take (places word args.length)))) → Leads r word
  | symbol (s : Symbol) : isDropped r word = false → referent? r word = some s →
      (∀ count, places word count = count) →
      (∀ texts, writeName r word texts = do return withArguments (← refer s) texts) →
      (∀ args, composeName r word args = do return .reference s (← refer s) args) → Leads r word
  | nowhere (message : String) : isDropped r word = true → referent? r word = none →
      (∀ texts, writeName r word texts = do
        warn .unresolvedType message
        return "any") →
      (∀ args, composeName r word args = do
        warn .unresolvedType message
        return .any) → Leads r word

/-- Every name leads somewhere or nowhere: one with a fixed meaning and one of the environment need
no resolving, and any other does if it has a dot or is a key of the table. -/
theorem leads (word : String) : Leads r word := by
  by_cases hfixed : (builtin? word []).isSome = true
  · refine .named (by rw [isDropped, if_pos hfixed]) (by rw [referent?, if_pos hfixed])
      (fun texts => ?_) (fun args => by rw [composeName, if_pos hfixed])
    obtain ⟨text, htext⟩ :=
      Option.isSome_iff_exists.mp ((isSome_builtin? word texts).trans hfixed)
    rw [writeName, writtenName, htext]
    rfl
  have hnone : builtin? word [] = none := Option.not_isSome_iff_eq_none.mp hfixed
  have hfree (texts : List String) : builtin? word texts = none :=
    (builtin?_eq_none_iff [] texts).mp hnone
  by_cases hlooked : (word.toList.contains '.' || r.table.contains word) = true
  · cases hresolve : r.resolve word with
    | ok s =>
      exact .symbol s (by simp only [isDropped, hfixed, hlooked, hresolve]; rfl)
        (by simp only [referent?, hfixed, hlooked, hresolve]; rfl) (places_of_builtin? hnone)
        (fun texts => by simp only [writeName, hfree, hlooked, hresolve, if_true])
        (fun args => by simp only [composeName, hfixed, hlooked, hresolve]; rfl)
    | error cause =>
      exact .nowhere ("type `" ++ word ++ "` " ++ cause.reason ++ "; emitted as any")
        (by simp only [isDropped, hfixed, hlooked, hresolve]; rfl)
        (by simp only [referent?, hfixed, hlooked, hresolve]; rfl)
        (fun texts => by simp only [writeName, hfree, hlooked, hresolve, if_true])
        (fun args => by simp only [composeName, hfixed, hlooked, hresolve]; rfl)
  have hreferent : referent? r word = none := by rw [referent?, if_neg hfixed, if_neg hlooked]
  have hdropped : isDropped r word = !environmentNames.contains word := by
    rw [isDropped, if_neg hfixed, if_neg hlooked]
  by_cases henvironment : environmentNames.contains word = true
  · refine .named (by rw [hdropped, henvironment]; rfl) hreferent (fun texts => ?_) fun args => ?_
    · rw [writeName, writtenName, hfree, Option.getD_none]
      simp only [hlooked, henvironment]
      rfl
    · rw [composeName, if_neg hfixed, if_neg hlooked, if_pos henvironment,
        places_of_builtin? hnone, List.take_length]
  · refine .nowhere ("type `" ++ word ++ "` is unknown; emitted as any")
      (by rw [hdropped, Bool.eq_false_iff.mpr henvironment]; rfl) hreferent
      (fun texts => ?_) fun args => ?_
    · rw [writeName, hfree]
      simp only [hlooked, henvironment]
      rfl
    · rw [composeName, if_neg hfixed, if_neg hlooked, if_neg henvironment]

/-- A name is written as the text of its parts. -/
theorem writeName_eq (word : String) (args : List Composed) :
    writeName r word (Composed.texts args) = do return (← composeName r word args).text := by
  cases leads r word with
  | named _ _ hwrite hcompose =>
    have htake := writtenName_take word (args.map Composed.text)
    rw [List.length_map, ← List.map_take, ← Composed.texts_eq, ← Composed.texts_eq] at htake
    simp [hwrite, hcompose, Composed.text, htake]
  | symbol s _ _ _ hwrite hcompose => simp [hwrite, hcompose, Composed.text]
  | nowhere message _ _ hwrite hcompose => simp [hwrite, hcompose, Composed.text]

mutual

/-- An expression is written as the text of its parts. -/
theorem write_eq : ∀ expr : TypeExpr, write r expr = do return (← compose r expr).text
  | .name word args => by
    rw [write, compose, writeAll_eq args]
    simp [writeName_eq]
  | .array item => by
    rw [write, compose, write_eq item]
    simp [Composed.text]
  | .union members => by
    rw [write, compose, writeAll_eq members]
    simp [Composed.text]
  | .keyof operand => by
    rw [write, compose, write_eq operand]
    simp [Composed.text]
  | .literal text => by
    rw [write, compose]
    simp [Composed.text]
  | .function => by
    rw [write, compose]
    simp [Composed.text]
  | .unparsed raw => by
    rw [write, compose]
    simp [Composed.text]

/-- Expressions in a row are written as the texts of what they are composed of. -/
theorem writeAll_eq : ∀ exprs : List TypeExpr,
    writeAll r exprs = do return Composed.texts (← composeAll r exprs)
  | [] => by
    rw [writeAll, composeAll]
    simp [Composed.texts]
  | expr :: rest => by
    rw [writeAll, composeAll, write_eq expr, writeAll_eq rest]
    simp [Composed.texts]

end

/-! ## The parts that are written -/

/-- The expressions that are written as parts of another. -/
def writtenParts : TypeExpr → List TypeExpr
  | .name word args => if isDropped r word then [] else parts (.name word args)
  | expr => parts expr

/-- A written type is what an expression is written as on some page. -/
def Composes (expr : TypeExpr) (composed : Composed) : Prop :=
  ∃ page, ((compose r expr).run page).1 = composed

variable {r}

/-- Expressions in a row are composed one by one. -/
theorem composes_composeAll (exprs : List TypeExpr) :
    ∀ page, List.Forall₂ (Composes r) exprs ((composeAll r exprs).run page).1 := by
  induction exprs with
  | nil =>
    intro page
    rw [composeAll]
    exact .nil
  | cons expr rest ih =>
    intro page
    rw [composeAll]
    exact .cons ⟨page, rfl⟩ (ih _)

/-- What a name is written as: nothing of it if it leads nowhere, a reference with all arguments if
it refers to a symbol, and otherwise the name with the arguments that have a place. -/
inductive NameComposes (r : Resolver) (word : String) (args : List Composed) : Composed → Prop
  | dropped : isDropped r word = true → referent? r word = none → NameComposes r word args .any
  | reference {symbol : Symbol} (spelling : String) : isDropped r word = false →
      (∀ count, places word count = count) → referent? r word = some symbol →
      NameComposes r word args (.reference symbol spelling args)
  | named : isDropped r word = false → referent? r word = none →
      NameComposes r word args (.named word (args.take (places word args.length)))

/-- A name with its arguments is dropped, or composed as a reference or as a name. -/
theorem nameComposes_composeName (word : String) (args : List Composed) (page : Page) :
    NameComposes r word args ((composeName r word args).run page).1 := by
  cases leads r word with
  | named hdropped hreferent _ hcompose =>
    rw [hcompose]
    exact .named hdropped hreferent
  | symbol s hdropped hreferent hplaces _ hcompose =>
    rw [hcompose]
    exact .reference _ hdropped hplaces hreferent
  | nowhere message hdropped hreferent _ hcompose =>
    rw [hcompose]
    exact .dropped hdropped hreferent

/-- A name is written with its arguments as they are written. -/
theorem Composes.name {word : String} {args : List TypeExpr} {composed : Composed}
    (h : Composes r (.name word args) composed) :
    ∃ written, List.Forall₂ (Composes r) args written ∧ NameComposes r word written composed := by
  obtain ⟨page, rfl⟩ := h
  rw [compose]
  exact ⟨_, composes_composeAll args page, nameComposes_composeName word _ _⟩

/-- The parts of a written type are those of the expression that are written. -/
theorem Composes.children {expr : TypeExpr} {composed : Composed} (h : Composes r expr composed) :
    List.Forall₂ (Composes r) (writtenParts r expr) composed.children := by
  cases expr with
  | name word args =>
    obtain ⟨written, hargs, hname⟩ := h.name
    rw [writtenParts, parts, hargs.length_eq]
    cases hname with
    | dropped hdropped =>
      rw [if_pos hdropped]
      exact .nil
    | reference spelling hdropped hplaces =>
      rw [hdropped, hplaces, ← hargs.length_eq, List.take_length]
      exact hargs
    | named hdropped =>
      rw [hdropped]
      exact List.forall₂_take _ hargs
  | array item =>
    obtain ⟨page, rfl⟩ := h
    rw [compose]
    exact .cons ⟨page, rfl⟩ .nil
  | union members =>
    obtain ⟨page, rfl⟩ := h
    rw [compose]
    exact composes_composeAll members page
  | keyof operand =>
    obtain ⟨page, rfl⟩ := h
    rw [compose]
    exact .cons ⟨page, rfl⟩ .nil
  | literal | function | unparsed =>
    obtain ⟨page, rfl⟩ := h
    rw [compose]
    exact .nil

/-- A reference is written for a name that refers to its symbol, with as many arguments as the name
has. -/
theorem Composes.reference_iff {expr : TypeExpr} {composed : Composed} {symbol : Symbol}
    {count : Nat} (h : Composes r expr composed) :
    (∃ spelling args, composed = .reference symbol spelling args ∧ args.length = count) ↔
      ∃ word args, expr = .name word args ∧ referent? r word = some symbol ∧
        args.length = count := by
  cases expr with
  | name word args =>
    obtain ⟨written, hargs, hname⟩ := h.name
    cases hname with
    | dropped _ hnone => simp [hnone]
    | reference spelling _ _ hsome => simp [hsome, hargs.length_eq]
    | named _ hnone => simp [hnone]
  | array | union | keyof | literal | function | unparsed =>
    obtain ⟨page, rfl⟩ := h
    rw [compose]
    exact iff_of_false (by rintro ⟨_, _, ⟨⟩, _⟩) (by rintro ⟨_, _, ⟨⟩, _⟩)

/-- A literal is written for a literal, as it is. -/
theorem Composes.literal_iff {expr : TypeExpr} {composed : Composed} {text : String}
    (h : Composes r expr composed) : composed = .literal text ↔ expr = .literal text := by
  cases expr with
  | name word args =>
    obtain ⟨_, _, hname⟩ := h.name
    refine iff_of_false (fun hliteral => ?_) nofun
    subst hliteral
    cases hname
  | literal other =>
    obtain ⟨page, rfl⟩ := h
    rw [compose]
    exact ⟨fun heq => by cases heq; rfl, fun heq => by cases heq; rfl⟩
  | array | union | keyof | function | unparsed =>
    obtain ⟨page, rfl⟩ := h
    rw [compose]
    exact iff_of_false nofun nofun

/-! ## Anywhere in a written type -/

variable (r) in
/-- An expression with a property is written in the place of an expression or of one of its parts,
at any depth. -/
inductive Contains (P : TypeExpr → Prop) : TypeExpr → Prop
  | here {expr : TypeExpr} : P expr → Contains P expr
  | part {part expr : TypeExpr} : part ∈ writtenParts r expr → Contains P part → Contains P expr

/-- What is paired with a list item by item has a partner in the list for each of its items. -/
theorem exists_right_of_forall₂ {α β : Type} {R : α → β → Prop} {list : List α} {others : List β}
    (h : List.Forall₂ R list others) {b : β} (hb : b ∈ others) : ∃ a ∈ list, R a b := by
  induction h with
  | nil => cases hb
  | @cons first other rest more hfirst _ ih =>
    obtain rfl | hb := List.mem_cons.mp hb
    · exact ⟨first, .head _, hfirst⟩
    · obtain ⟨a, ha, hab⟩ := ih hb
      exact ⟨a, .tail _ ha, hab⟩

/-- What can be told of a written type from its expression can be told of everything inside it from
the parts that are written. -/
theorem Composes.has_iff {Q : Composed → Prop} {P : TypeExpr → Prop}
    (hiff : ∀ {expr composed}, Composes r expr composed → (Q composed ↔ P expr)) {expr : TypeExpr}
    {composed : Composed} (h : Composes r expr composed) :
    (∃ node, Composed.Has node composed ∧ Q node) ↔ Contains r P expr := by
  constructor
  · rintro ⟨node, hhas, hnode⟩
    -- Along the way from the node up, what is written corresponds to a part that is written.
    induction hhas generalizing expr with
    | here => exact .here ((hiff h).mp hnode)
    | inside hchild _ ih =>
      obtain ⟨part, hpart, hcomposes⟩ := exists_right_of_forall₂ h.children hchild
      exact .part hpart (ih hcomposes)
  · intro hcontains
    induction hcontains generalizing composed with
    | here hexpr => exact ⟨composed, .here, (hiff h).mpr hexpr⟩
    | part hpart _ ih =>
      obtain ⟨child, hchild, hcomposes⟩ := exists_right_of_forall₂ h.children.flip hpart
      obtain ⟨node, hhas, hnode⟩ := ih hcomposes
      exact ⟨node, .inside hchild hhas, hnode⟩

end Ambient.TypeExpr
