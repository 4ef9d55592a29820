import Mathlib.Data.List.Infix
import Ambient.Proofs.Declaration.Views
import Ambient.Proofs.Symbol.Owner

/-!
# Names in nested namespaces

What a compiler makes of a dotted name inside namespace blocks: its first segment is looked up in
the namespaces around it, the innermost first, where all blocks of a namespace count together. The
other segments lead on from what is found. A block with a dotted name stands for nested ones.
-/

namespace Ambient.Declaration

open Text (segments)

/-! ## Declared names -/

/-- The path of the namespace that nested blocks lead to. -/
def scopeOf (around : List String) : List String := around.flatMap (segments '.')

/-- A name that is declared, and the path of the namespace in which it is. -/
structure Declared where
  scope : List String
  name : String
  /-- The form of the declaration; that of a namespace has none. -/
  form : Option Form
deriving DecidableEq

namespace Declared

/-- The namespaces that a block declares: one for each segment of its name, nested in the one
before. -/
def nested (scope : List String) : List String → List Declared
  | [] => []
  | name :: rest => ⟨scope, name, none⟩ :: nested (scope ++ [name]) rest

/-- What is declared by what stands in a tree. -/
def ofPart (around : List String) : Part Item → List Declared
  | .one item => [⟨scopeOf around, item.outline.title.name, some item.outline.title.form⟩]
  | .block name => nested (scopeOf around) (segments '.' name)

/-- A block declares each segment of its name in the scope of the segments before. -/
theorem mem_nested {inner : List String} {name : String} {form : Option Form}
    {names : List String} : ∀ {scope : List String}, ⟨inner, name, form⟩ ∈ nested scope names ↔
      form = none ∧ ∃ before after, names = before ++ name :: after ∧ inner = scope ++ before := by
  induction names with
  | nil => simp [nested]
  | cons first rest ih =>
    intro scope
    rw [nested, List.mem_cons, ih]
    constructor
    · rintro (hsame | ⟨hform, before, after, rfl, rfl⟩)
      · cases hsame
        exact ⟨rfl, [], rest, rfl, (List.append_nil _).symm⟩
      · exact ⟨hform, first :: before, after, rfl, List.append_assoc scope [first] before⟩
    · rintro ⟨rfl, before, after, hnames, rfl⟩
      cases before with
      | nil =>
        cases hnames
        exact .inl (by rw [List.append_nil])
      | cons other before =>
        cases hnames
        exact .inr ⟨rfl, before, after, rfl, (List.append_assoc scope [first] before).symm⟩

end Declared

/-- The names that trees declare. -/
def Tree.declared (trees : List Tree) : List Declared :=
  (Tree.locatedOf [] trees).flatMap fun located => Declared.ofPart located.1 located.2

/-- What two rows of trees declare is what the first does, then what the second does. -/
theorem Tree.declared_append (trees more : List Tree) :
    declared (trees ++ more) = declared trees ++ declared more := by
  rw [declared, Tree.locatedOf_append]
  exact List.flatMap_append

/-- Items declare their names where they stand, and blocks the segments of theirs. -/
theorem Tree.mem_declared {trees : List Tree} {declaration : Declared} :
    declaration ∈ declared trees ↔
      (∃ around item, (around, .one item) ∈ Tree.locatedOf [] trees ∧ declaration
          = ⟨scopeOf around, item.outline.title.name, some item.outline.title.form⟩) ∨
        ∃ around name, (around, .block name) ∈ Tree.locatedOf [] trees ∧
          declaration ∈ Declared.nested (scopeOf around) (segments '.' name) := by
  rw [declared, List.mem_flatMap]
  constructor
  · rintro ⟨⟨around, part⟩, hmem, hdeclared⟩
    cases part with
    | one item => exact .inl ⟨around, item, hmem, List.mem_singleton.mp hdeclared⟩
    | block name => exact .inr ⟨around, name, hmem, hdeclared⟩
  · rintro (⟨around, item, hmem, rfl⟩ | ⟨around, name, hmem, hdeclared⟩)
    · exact ⟨_, hmem, List.mem_singleton_self _⟩
    · exact ⟨_, hmem, hdeclared⟩

/-! ## Looking names up -/

section Lookup

/- Depending on where it stands, a name is looked up as a type, a namespace or a value, so that only
declarations of some forms count. -/
variable (counts : Option Form → Bool) (declared : List Declared) (path : List String)
  (name : String)

/-- Whether a namespace declares a name in a form that counts. -/
def declares (scope : List String) : Bool :=
  declared.any fun d => d.scope == scope && d.name == name && counts d.form

/-- The innermost namespace around a place that declares a name; the global scope is the outermost.
If there is none, the name is one of the environment. -/
def found? : Option (List String) := path.inits.reverse.find? (declares counts declared name)

/-- The path that a dotted name leads to from a place. -/
def denoted : List String :=
  (found? counts declared path ((segments '.' name).headD "")).getD [] ++ segments '.' name

variable {counts declared path name}

/-- A name counts as declared in a scope exactly if one of the declarations there that count has it.
-/
theorem declares_iff {scope : List String} :
    declares counts declared name scope = true ↔
      ∃ form, (⟨scope, name, form⟩ : Declared) ∈ declared ∧ counts form = true := by
  rw [declares, List.any_eq_true]
  constructor
  · rintro ⟨⟨scope, name, form⟩, hd, h⟩
    simp only [Bool.and_eq_true, beq_iff_eq] at h
    obtain ⟨⟨rfl, rfl⟩, hform⟩ := h
    exact ⟨form, hd, hform⟩
  · rintro ⟨form, hd, hform⟩
    exact ⟨_, hd, by simp [hform]⟩

/-- A name is one of the environment if no namespace around its place declares it. -/
theorem found?_eq_none_iff :
    found? counts declared path name = none ↔
      ∀ scope, scope <+: path → declares counts declared name scope = false := by
  rw [found?, List.find?_eq_none]
  simp

/-- A name is found in the global scope, or in none, if no namespace block around its place declares
it. -/
theorem found?_getD_eq_nil_iff :
    (found? counts declared path name).getD [] = [] ↔
      ∀ scope, scope <+: path → scope ≠ [] → declares counts declared name scope = false := by
  have hinits : path.inits = [] :: path.inits.tail := by cases path <;> rfl
  have hmem (scope : List String) : scope ∈ path.inits.tail ↔ scope <+: path ∧ scope ≠ [] := by
    cases path with
    | nil => simp
    | cons first rest =>
      cases scope with
      | nil => simp
      | cons => simp [List.cons_prefix_cons, eq_comm, and_comm]
  rw [found?, hinits, List.reverse_cons, List.find?_append]
  cases hfound : path.inits.tail.reverse.find? (declares counts declared name) with
  | none =>
    rw [List.find?_eq_none] at hfound
    refine iff_of_true ?_ fun scope hwithin hne => ?_
    · rw [Option.none_or, List.find?_singleton]
      split <;> rfl
    · have hnot := hfound scope (List.mem_reverse.mpr ((hmem scope).mpr ⟨hwithin, hne⟩))
      simpa using hnot
  | some scope =>
    have hinner := List.mem_reverse.mp (List.mem_of_find?_eq_some hfound)
    obtain ⟨hwithin, hne⟩ := (hmem scope).mp hinner
    refine iff_of_false hne fun hall => ?_
    have hdeclares := List.find?_some hfound
    rw [hall scope hwithin hne] at hdeclares
    cases hdeclares

/-- A dotted name leads from a place to where it leads from the global scope exactly if no namespace
block around the place declares its first segment. -/
theorem denoted_eq_iff :
    denoted counts declared path name = segments '.' name ↔
      ∀ scope, scope <+: path → scope ≠ [] →
        declares counts declared ((segments '.' name).headD "") scope = false := by
  rw [← found?_getD_eq_nil_iff, denoted, List.append_left_eq_self]

/-- A name that is used at a place, as the global tree spells it, leads to what it is the name of:
the dotted name of a symbol to the symbol's path, and a name of the environment to no declaration.
The interface of the registry, which every library extends, counts as one of the environment. -/
def Reaches (counts : Option Form → Bool) (declared : List Declared) (path : List String) :
    Reference.Use → Prop
  | .symbol s => denoted counts declared path s.fqn = segments '.' s.fqn
  | .environment name => found? counts declared path name = none

/-- Whether a name reaches what it is the name of is decided by following it. -/
instance (u : Reference.Use) : Decidable (Reaches counts declared path u) :=
  match u with
  | .symbol s =>
    inferInstanceAs (Decidable (denoted counts declared path s.fqn = segments '.' s.fqn))
  | .environment name => inferInstanceAs (Decidable (found? counts declared path name = none))

/-- A name that is used is free at a place: no namespace block around it declares the first segment
of a symbol's name; a name of the environment is not declared in the global scope either. -/
def IsFree (counts : Option Form → Bool) (isDeclared : Declared → Prop) (path : List String) :
    Reference.Use → Prop
  | .symbol s => ∀ scope, scope <+: path → scope ≠ [] → ∀ form, counts form = true →
      ¬ isDeclared ⟨scope, (segments '.' s.fqn).headD "", form⟩
  | .environment name => ∀ scope, scope <+: path → ∀ form, counts form = true →
      ¬ isDeclared ⟨scope, name, form⟩

/-- A name counts as not declared in a scope exactly if no declaration there that counts has it. -/
theorem declares_eq_false_iff {scope : List String} :
    declares counts declared name scope = false ↔
      ∀ form, counts form = true → (⟨scope, name, form⟩ : Declared) ∉ declared := by
  rw [← Bool.not_eq_true, declares_iff]
  exact ⟨fun h form hform hd => h ⟨form, hd, hform⟩, fun h ⟨form, hd, hform⟩ => h form hform hd⟩

/-- The names that lead to what they are the names of are those that are free. -/
theorem reaches_iff {u : Reference.Use} :
    Reaches counts declared path u ↔ IsFree counts (· ∈ declared) path u := by
  cases u with
  | symbol s => simp only [Reaches, IsFree, denoted_eq_iff, declares_eq_false_iff]
  | environment name => simp only [Reaches, IsFree, found?_eq_none_iff, declares_eq_false_iff]

/-- What is free does not depend on how the declarations are told. -/
theorem isFree_congr {isDeclared isStated : Declared → Prop}
    (h : ∀ declaration, isDeclared declaration ↔ isStated declaration) {u : Reference.Use} :
    IsFree counts isDeclared path u ↔ IsFree counts isStated path u := by
  cases u <;> simp only [IsFree, h]

end Lookup

end Ambient.Declaration
