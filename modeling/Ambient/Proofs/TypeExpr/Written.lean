import Ambient.Proofs.TypeExpr.Spelling

/-!
# Texts of types without references

A type without references is written the same on every page: its text depends on the expression
alone, and of the arguments of a name on those that have a place in its text.
-/

namespace Ambient.TypeExpr

open Declaration (Resolver Writing Page)

/-- The text of a name that needs no resolving. -/
def writtenName (word : String) (args : List String) : String :=
  (builtin? word args).getD (withArguments word args)

mutual

/-- The text of an expression whose names need no resolving. -/
def written : TypeExpr → String
  | .name word args => writtenName word (writtenAll args)
  | .array item => arrayOf (written item)
  | .union members => alternatives (writtenAll members)
  | .keyof operand => "keyof " ++ written operand
  | .literal text => text
  | .function => "Function"
  | .unparsed _ => "any"

/-- The texts of expressions. -/
def writtenAll : List TypeExpr → List String
  | [] => []
  | expr :: rest => written expr :: writtenAll rest

end

/-- Expressions in a row are written one by one. -/
theorem writtenAll_eq (exprs : List TypeExpr) : writtenAll exprs = exprs.map written := by
  induction exprs with
  | nil => rfl
  | cons expr rest ih => rw [writtenAll, ih, List.map_cons]

/-- Whether an expression is no reference, and no literal with quotes in it. -/
def Plain (r : Resolver) : TypeExpr → Prop
  | .name word _ => (builtin? word []).isSome = true ∨
      environmentNames.contains word = true ∧ r.table.contains word = false
  | .literal text => text.toList.count '\x22' = 2
  | _ => True

/-! ## Fixed meanings -/

/-- What holds of the text and of the meaning of every kind of name with a fixed meaning, and of
there being neither, holds of both for every name. -/
theorem fixed_cases {P : Option String → Option TypeExpr → Prop} {word : String}
    {texts : List String} {args : List TypeExpr}
    (hword : ∀ other ∈ fixedWords, P (some other) (some (.name other [])))
    (hmap : P (some "Record<string, any>") (some (record (.name "string" []) (.name "any" []))))
    (hobject : word = "Object" → P (builtin? "Object" texts) (fixed? "Object" args))
    (harray : word ∈ ["array", "Array"] → P (builtin? "array" texts) (fixed? "array" args))
    (hpromise : word = "Promise" → P (some ("Promise<" ++ texts.headD "any" ++ ">"))
      (some (.name "Promise" [args.headD (.name "any" [])])))
    (hnone : P none none) : P (builtin? word texts) (fixed? word args) := by
  have hite : ∀ (c : Prop) [Decidable c] {text other : Option String} {expr more : Option TypeExpr},
      (c → P text expr) → P other more →
        P (if c then text else other) (if c then expr else more) := by
    intro c _ text other expr more hthen helse
    split
    · exact hthen ‹_›
    · exact helse
  have hsame : ["void", "undefined", "null", "never", "unknown", "this", "symbol", "bigint",
      "object"] ⊆ fixedWords := by simp [fixedWords]
  unfold builtin? fixed?
  refine hite _ (fun _ => hword _ (by simp [fixedWords])) ?_
  refine hite _ (fun _ => hword _ (by simp [fixedWords])) ?_
  refine hite _ (fun _ => hword _ (by simp [fixedWords])) ?_
  refine hite _ (fun _ => hword _ (by simp [fixedWords])) ?_
  refine hite _ (fun h => hword _ (hsame (List.contains_iff_mem.mp h))) ?_
  refine hite _ (fun _ => hword _ (by simp [fixedWords])) ?_
  refine hite _ (fun _ => hmap) (hite _ hobject ?_)
  refine hite _ (fun h => harray (List.contains_iff_mem.mp h)) (hite _ hpromise ?_)
  exact hite _ (fun _ => hword _ (by simp [fixedWords])) hnone

/-- Whether a name has a fixed meaning does not depend on its arguments. -/
theorem isSome_fixed? (word : String) (texts : List String) (args : List TypeExpr) :
    (fixed? word args).isSome = (builtin? word texts).isSome := by
  refine fixed_cases (P := fun text expr => expr.isSome = text.isSome) (fun _ _ => rfl) rfl
    (fun _ => ?_) (fun _ => ?_) (fun _ => rfl) rfl
  · obtain _ | ⟨key, _ | ⟨value, texts⟩⟩ := texts <;>
      obtain _ | ⟨key, _ | ⟨value, args⟩⟩ := args <;> rfl
  · cases texts <;> cases args <;> rfl

/-- Whether a name is built in does not depend on its arguments. -/
theorem builtin?_eq_none_iff {word : String} (texts others : List String) :
    builtin? word texts = none ↔ builtin? word others = none := by
  rw [← Option.isNone_iff_eq_none, ← Option.isNone_iff_eq_none, ← Option.not_isSome,
    ← Option.not_isSome, ← isSome_fixed? word texts [], isSome_fixed? word others]

/-! ## Arguments that are not written -/

section

variable {α β : Type} {word : String}

/-- Only the arguments that have a place matter, if this holds by the kinds of names. -/
theorem apply_take_places (f : List α → β)
    (hobject : word = "Object" → ∀ args, f (args.take 2) = f args)
    (hone : word ∈ ["array", "Array", "Promise"] → ∀ args, f (args.take 1) = f args)
    (hnone : (∀ other ∈ ["Object", "array", "Array", "Promise"], word ≠ other) →
      (builtin? word []).isSome = true → ∀ args, f [] = f args)
    (args : List α) : f (args.take (places word args.length)) = f args := by
  unfold places
  split_ifs with h h' h''
  · exact hobject h args
  · exact hone (by simpa using h') args
  · exact hnone (by simpa [h] using h') h'' args
  · rw [List.take_length]

/-- Arguments without a place do not matter for what a name is written as. -/
theorem writtenName_take (word : String) (args : List String) :
    writtenName word (args.take (places word args.length)) = writtenName word args := by
  refine apply_take_places _ ?_ ?_ ?_ args
  · rintro rfl (_ | ⟨key, _ | ⟨value, args⟩⟩) <;> rfl
  · intro h args
    cases args with
    | nil => rfl
    | cons item args =>
      simp only [List.mem_cons, List.not_mem_nil, or_false] at h
      obtain rfl | rfl | rfl := h <;> rfl
  · intro hne hfixed args
    have hsame : builtin? word args = builtin? word [] := by
      simp only [List.forall_mem_cons] at hne
      simp [builtin?, hne]
    obtain ⟨text, htext⟩ := Option.isSome_iff_exists.mp hfixed
    simp [writtenName, hsame, htext]

/-- Arguments without a place do not matter for what a name stands for. -/
theorem ofName_take (word : String) (args : List TypeExpr) :
    ofName word (args.take (places word args.length)) = ofName word args := by
  refine apply_take_places _ ?_ ?_ ?_ args
  · rintro rfl (_ | ⟨key, _ | ⟨value, args⟩⟩) <;> rfl
  · intro h args
    cases args with
    | nil => rfl
    | cons item args =>
      simp only [List.mem_cons, List.not_mem_nil, or_false] at h
      obtain rfl | rfl | rfl := h <;> rfl
  · intro hne hfixed args
    have hsame : fixed? word args = fixed? word [] := by
      simp only [List.forall_mem_cons] at hne
      simp [fixed?, hne]
    rw [← isSome_fixed? word [] [], Option.isSome_iff_exists] at hfixed
    obtain ⟨expr, hexpr⟩ := hfixed
    simp [ofName, hsame, hexpr]

end

/-! ## Every page -/

variable {r : Resolver}

/-- Each expression has one text. -/
theorem length_writeAll (exprs : List TypeExpr) (page : Page) :
    ((writeAll r exprs).run page).1.length = exprs.length := by
  induction exprs generalizing page with
  | nil => rfl
  | cons expr rest ih =>
    rw [writeAll]
    exact congrArg Nat.succ (ih _)

/-- If the first few expressions are written the same on every page, so are the first few of a
list. -/
theorem take_writeAll {exprs : List TypeExpr} {count : Nat}
    (h : ∀ expr ∈ exprs.take count, ∀ page, ((write r expr).run page).1 = written expr)
    (page : Page) :
    ((writeAll r exprs).run page).1.take count = (exprs.take count).map written := by
  induction exprs generalizing count page with
  | nil =>
    rw [writeAll, List.take_nil, List.map_nil]
    exact List.take_nil
  | cons expr rest ih =>
    cases count with
    | zero => rfl
    | succ count =>
      rw [writeAll]
      have hexpr := h expr (by simp) page
      have hrest := ih (fun other hother => h other (List.mem_cons_of_mem expr hother))
        ((write r expr).run page).2
      exact congrArg₂ List.cons hexpr hrest

/-- A name that is no reference is written the same on every page. -/
theorem run_writeName {word : String} {args : List TypeExpr} (h : Plain r (.name word args))
    (texts : List String) (page : Page) :
    ((writeName r word texts).run page).1 = writtenName word texts := by
  unfold writeName writtenName
  cases hfixed : builtin? word texts with
  | some text => rfl
  | none =>
    have hnone : builtin? word [] = none := (builtin?_eq_none_iff texts []).mp hfixed
    obtain hsome | ⟨henvironment, hresolved⟩ := h
    · simp [hnone] at hsome
    · have hdots : ∀ other ∈ environmentNames, '.' ∉ other.toList := by decide +kernel
      have hmem := List.contains_iff_mem.mp henvironment
      simp only [hdots word hmem, hresolved, hmem, List.contains_iff_mem, Bool.or_false, if_false,
        if_true]
      rfl

/-- An expression without references is written the same on every page. -/
theorem run_write : ∀ expr, Throughout (Plain r) expr →
    ∀ page, ((write r expr).run page).1 = written expr :=
  of_parts fun expr ih hplain page => by
    have hparts : ∀ part ∈ parts expr, ∀ page, ((write r part).run page).1 = written part :=
      fun part hpart => ih part hpart (hplain.part hpart)
    cases expr with
    | name word args =>
      rw [write, written, writtenAll_eq]
      -- the other arguments may be references, whose texts differ from page to page
      have htake := take_writeAll hparts page
      calc _ = writtenName word ((writeAll r args).run page).1 := run_writeName hplain.here _ _
        _ = writtenName word (((writeAll r args).run page).1.take (places word args.length)) := by
          rw [← writtenName_take, length_writeAll]
        _ = writtenName word ((args.map written).take (places word (args.map written).length)) := by
          rw [htake, List.map_take, List.length_map]
        _ = writtenName word (args.map written) := writtenName_take _ _
    | array item =>
      rw [write, written]
      exact congrArg arrayOf (hparts item (by simp [parts]) page)
    | union members =>
      rw [write, written, writtenAll_eq]
      have htake : ((writeAll r members).run page).1.take members.length
          = (members.take members.length).map written :=
        take_writeAll (fun expr hexpr => hparts expr (List.mem_of_mem_take hexpr)) page
      rw [← length_writeAll (r := r) members page, List.take_length, length_writeAll,
        List.take_length] at htake
      exact congrArg alternatives htake
    | keyof operand =>
      rw [write, written]
      exact congrArg ("keyof " ++ ·) (hparts operand (by simp [parts]) page)
    | literal text => rfl
    | function => rfl
    | unparsed raw => rfl

end Ambient.TypeExpr
