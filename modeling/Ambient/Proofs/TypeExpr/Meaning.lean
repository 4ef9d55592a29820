import Ambient.Proofs.TypeExpr.Grammar
import Ambient.TypeExpr.Render
import Mathlib.Data.List.Nodup
import Mathlib.Tactic.SplitIfs

/-!
# What type expressions stand for

Each name that has a fixed meaning stands for another expression, a union within a union for its
members, and a repeated alternative for nothing. So an expression stands for a list of
alternatives, none of which is a union.
-/

namespace Ambient.TypeExpr

/-! ## Equality -/

mutual

/-- Whether two expressions are the same. -/
def same : TypeExpr → TypeExpr → Bool
  | .name word args, .name other more => word == other && sameAll args more
  | .array item, .array other => same item other
  | .union members, .union others => sameAll members others
  | .keyof operand, .keyof other => same operand other
  | .literal text, .literal other => text == other
  | .function, .function => true
  | .unparsed raw, .unparsed other => raw == other
  | _, _ => false

/-- Whether two lists of expressions are the same. -/
def sameAll : List TypeExpr → List TypeExpr → Bool
  | [], [] => true
  | expr :: rest, other :: others => same expr other && sameAll rest others
  | _, _ => false

end

mutual

/-- Comparing two expressions answers whether they are equal. -/
theorem same_iff : ∀ expr other : TypeExpr, same expr other = true ↔ expr = other
  | .name word args, other => by cases other <;> simp [same, sameAll_iff args]
  | .array item, other => by cases other <;> simp [same, same_iff item]
  | .union members, other => by cases other <;> simp [same, sameAll_iff members]
  | .keyof operand, other => by cases other <;> simp [same, same_iff operand]
  | .literal text, other => by cases other <;> simp [same]
  | .function, other => by cases other <;> simp [same]
  | .unparsed raw, other => by cases other <;> simp [same]

/-- Comparing two lists of expressions answers whether they are equal. -/
theorem sameAll_iff : ∀ exprs others : List TypeExpr, sameAll exprs others = true ↔ exprs = others
  | [], others => by cases others <;> simp [sameAll]
  | expr :: rest, others => by cases others <;> simp [sameAll, same_iff expr, sameAll_iff rest]

end

/-- Expressions are compared constructor by constructor. -/
instance : DecidableEq TypeExpr := fun expr other => decidable_of_iff _ (same_iff expr other)

/-! ## Parts -/

/-- How many of its arguments are written with a name. -/
def places (word : String) (count : Nat) : Nat :=
  if word = "Object" then 2
  else if ["array", "Array", "Promise"].contains word then 1
  else if (builtin? word []).isSome then 0
  else count

/-- The expressions that are written as parts of another. -/
def parts : TypeExpr → List TypeExpr
  | .name word args => args.take (places word args.length)
  | .array item => [item]
  | .union members => members
  | .keyof operand => [operand]
  | .literal _ | .function | .unparsed _ => []

/-- A part is smaller than the expression it is written in. -/
theorem sizeOf_lt_of_mem_parts {part expr : TypeExpr} (h : part ∈ parts expr) :
    sizeOf part < sizeOf expr := by
  cases expr with
  | name word args =>
    have := List.sizeOf_lt_of_mem (List.mem_of_mem_take h)
    simp only [name.sizeOf_spec]
    omega
  | array item =>
    obtain rfl : part = item := by simpa [parts] using h
    simp only [array.sizeOf_spec]
    omega
  | union members =>
    have := List.sizeOf_lt_of_mem (show part ∈ members from h)
    simp only [union.sizeOf_spec]
    omega
  | keyof operand =>
    obtain rfl : part = operand := by simpa [parts] using h
    simp only [keyof.sizeOf_spec]
    omega
  | literal | function | unparsed => simp [parts] at h

/-- A property that an expression has if its parts have it is one of all expressions. -/
theorem of_parts {P : TypeExpr → Prop} (h : ∀ expr, (∀ part ∈ parts expr, P part) → P expr)
    (expr : TypeExpr) : P expr :=
  h expr fun part hpart =>
    have := sizeOf_lt_of_mem_parts hpart
    of_parts h part
termination_by sizeOf expr

/-- A property holds throughout an expression if the expression and all that is written as part
of it have it. -/
inductive Throughout (P : TypeExpr → Prop) : TypeExpr → Prop
  | intro {expr} : P expr → (∀ part ∈ parts expr, Throughout P part) → Throughout P expr

/-- What holds throughout an expression holds throughout each of its parts. -/
theorem Throughout.part {P : TypeExpr → Prop} {expr part : TypeExpr} (h : Throughout P expr)
    (hpart : part ∈ parts expr) : Throughout P part := by
  cases h with
  | intro _ hparts => exact hparts part hpart

/-- What holds throughout an expression holds of the expression itself. -/
theorem Throughout.here {P : TypeExpr → Prop} {expr : TypeExpr} (h : Throughout P expr) :
    P expr := by
  cases h with
  | intro hexpr _ => exact hexpr

section

variable {P : TypeExpr → Prop}

/-- A property holds throughout an expression exactly if it holds of it and throughout its parts. -/
theorem throughout_iff {expr : TypeExpr} :
    Throughout P expr ↔ P expr ∧ ∀ part ∈ parts expr, Throughout P part :=
  ⟨fun h => ⟨h.here, fun _ => h.part⟩, fun h => .intro h.1 h.2⟩

/-- A property holds throughout a name with its arguments exactly if it holds of it and throughout
the arguments written. -/
@[simp] theorem throughout_name {word : String} {args : List TypeExpr} :
    Throughout P (.name word args) ↔
      P (.name word args) ∧ ∀ arg ∈ args.take (places word args.length), Throughout P arg :=
  throughout_iff

/-- A property holds throughout an array exactly if it holds of it and throughout its item type. -/
@[simp] theorem throughout_array {item : TypeExpr} :
    Throughout P (.array item) ↔ P (.array item) ∧ Throughout P item := by
  rw [throughout_iff]
  simp [parts]

/-- A property holds throughout a union exactly if it holds of it and throughout its members. -/
@[simp] theorem throughout_union {members : List TypeExpr} :
    Throughout P (.union members) ↔ P (.union members) ∧ ∀ member ∈ members, Throughout P member :=
  throughout_iff

/-- A property holds throughout a `keyof` type exactly if it holds of it and throughout its operand.
-/
@[simp] theorem throughout_keyof {operand : TypeExpr} :
    Throughout P (.keyof operand) ↔ P (.keyof operand) ∧ Throughout P operand := by
  rw [throughout_iff]
  simp [parts]

/-- A property holds throughout a literal exactly if it holds of it. -/
@[simp] theorem throughout_literal {text : String} :
    Throughout P (.literal text) ↔ P (.literal text) := by
  rw [throughout_iff]
  simp [parts]

end

/-! ## Alternatives -/

/-- The union of some alternatives, or the only one. -/
def joined : List TypeExpr → TypeExpr
  | [only] => only
  | members => .union members

/-- Key and value types of a record. -/
def record (key value : TypeExpr) : TypeExpr := .name "Record" [key, value]

/-- What a name with a fixed meaning stands for. -/
def fixed? (word : String) (args : List TypeExpr) : Option TypeExpr :=
  if ["string", "String"].contains word then some (.name "string" [])
  else if ["number", "Number", "int", "integer", "float", "double"].contains word then
    some (.name "number" [])
  else if ["boolean", "Boolean", "bool"].contains word then some (.name "boolean" [])
  else if ["any", "*"].contains word then some (.name "any" [])
  else if ["void", "undefined", "null", "never", "unknown", "this", "symbol", "bigint",
      "object"].contains word then some (.name word [])
  else if ["function", "Function"].contains word then some (.name "Function" [])
  else if word = "map" then some (record (.name "string" []) (.name "any" []))
  else if word = "Object" then
    match args with
    | [] => some (record (.name "string" []) (.name "any" []))
    | [value] => some (record (.name "string" []) value)
    | key :: value :: _ => some (record key value)
  else if ["array", "Array"].contains word then
    match args with
    | [] => some (.array (.name "any" []))
    | item :: _ => some (.array item)
  else if word = "Promise" then some (.name "Promise" [args.headD (.name "any" [])])
  else if word = "DomRef" then some (.name "Element" [])
  else none

/-- What a name stands for; other names than those with a fixed meaning stand for themselves. -/
def ofName (word : String) (args : List TypeExpr) : TypeExpr :=
  (fixed? word args).getD (.name word args)

mutual

/-- The alternatives that an expression stands for. -/
def alternativesOf : TypeExpr → List TypeExpr
  | .name word args => [ofName word (meantAll args)]
  | .array item => [.array (joined (alternativesOf item))]
  | .union members => (Ordered.Set.ofList (alternativesOfAll members)).toList
  | .keyof operand => [.keyof (joined (alternativesOf operand))]
  | .literal text => [.literal text]
  | .function => [.name "Function" []]
  | .unparsed _ => [.name "any" []]

/-- The alternatives that some expressions stand for, in their order. -/
def alternativesOfAll : List TypeExpr → List TypeExpr
  | [] => []
  | expr :: rest => alternativesOf expr ++ alternativesOfAll rest

/-- What each of some expressions stands for. -/
def meantAll : List TypeExpr → List TypeExpr
  | [] => []
  | expr :: rest => joined (alternativesOf expr) :: meantAll rest

end

/-- What an expression stands for: each name is replaced by what it stands for, unions within
unions give way to their members, and repeated alternatives are left out. -/
def meant (expr : TypeExpr) : TypeExpr := joined (alternativesOf expr)

/-- Whether an expression can be an alternative. -/
def IsAlternative (expr : TypeExpr) : Prop := ∀ members, expr ≠ .union members

/-- The alternatives of expressions in a row are gathered expression by expression. -/
theorem alternativesOfAll_eq (exprs : List TypeExpr) :
    alternativesOfAll exprs = exprs.flatMap alternativesOf := by
  induction exprs with
  | nil => rfl
  | cons expr rest ih => rw [alternativesOfAll, ih, List.flatMap_cons]

/-- What expressions in a row stand for is told expression by expression. -/
theorem meantAll_eq (exprs : List TypeExpr) : meantAll exprs = exprs.map meant := by
  induction exprs with
  | nil => rfl
  | cons expr rest ih => rw [meantAll, ih, List.map_cons, meant]

/-- No fixed meaning is a union. -/
theorem isAlternative_of_fixed? (word : String) (args : List TypeExpr) :
    ∀ expr ∈ fixed? word args, IsAlternative expr := by
  have hite : ∀ (c : Prop) [Decidable c] (o p : Option TypeExpr),
      (∀ expr ∈ o, IsAlternative expr) → (∀ expr ∈ p, IsAlternative expr) →
        ∀ expr ∈ if c then o else p, IsAlternative expr := by
    intro c _ o p ho hp
    split
    · exact ho
    · exact hp
  unfold fixed? record
  repeat' apply hite
  all_goals (try split) <;> simp [IsAlternative]

/-- What a name stands for is no union. -/
theorem isAlternative_ofName (word : String) (args : List TypeExpr) :
    IsAlternative (ofName word args) := by
  unfold ofName
  cases h : fixed? word args with
  | none => exact nofun
  | some expr => exact isAlternative_of_fixed? word args expr h

/-- Alternatives are no unions. -/
theorem isAlternative_of_mem : ∀ (expr : TypeExpr),
    ∀ other ∈ alternativesOf expr, IsAlternative other :=
  of_parts fun expr ih other hother => by
    cases expr with
    | union members =>
      rw [alternativesOf, alternativesOfAll_eq, Ordered.Set.mem_ofList, List.mem_flatMap] at hother
      obtain ⟨member, hmember, hother⟩ := hother
      exact ih member hmember other hother
    | name word args =>
      obtain rfl : other = _ := by simpa [alternativesOf] using hother
      exact isAlternative_ofName word _
    | _ =>
      obtain rfl : other = _ := by simpa [alternativesOf] using hother
      exact nofun

/-- No alternative of an expression is repeated. -/
theorem nodup_alternativesOf (expr : TypeExpr) : (alternativesOf expr).Nodup := by
  cases expr with
  | union members => exact Ordered.Set.distinct _
  | _ => exact List.nodup_singleton _

/-- The members of a union, or the expression by itself. -/
def membersOf : TypeExpr → List TypeExpr
  | .union members => members
  | expr => [expr]

/-- A list of alternatives can be told from their union. -/
theorem membersOf_joined {exprs : List TypeExpr} (h : ∀ expr ∈ exprs, IsAlternative expr) :
    membersOf (joined exprs) = exprs := by
  unfold joined
  split
  · rename_i only
    cases only with
    | union members => exact absurd rfl (h _ List.mem_cons_self members)
    | _ => rfl
  · rfl

/-- The union of a first expression with others is these joined. -/
theorem unionOf_eq_joined (first : TypeExpr) (others : List TypeExpr) :
    unionOf first others = joined (first :: others) := by
  cases others <;> rfl

end Ambient.TypeExpr
