import Ambient.Proofs.Api.Replacing
import Mathlib.Data.List.Basic

/-!
# Addresses in a description

A parameter of a namespace's function has an address in the tree: the numbers of the namespaces on
the way down from the top level, that of the function and its own. A type expression in the declared
type of such a parameter is addressed within that type. Changing what stands at one address changes
nothing at another one, and no names.
-/

namespace Ambient.Api

/-! ## Several changes -/

/-- Where each change shows at its own index only, a list of changes without repeats shows at its
indices only, and once at each. -/
theorem get_foldl_of_nodup {ι σ τ : Type} [DecidableEq ι] (get : ι → σ → Option τ)
    {change : σ → ι → σ} {f : τ → τ}
    (h : ∀ i j s, get j (change s i) = if j = i then (get i s).map f else get j s) {is : List ι}
    (his : is.Nodup) (s : σ) (j : ι) :
    get j (is.foldl change s) = if j ∈ is then (get j s).map f else get j s := by
  induction is generalizing s with
  | nil => rfl
  | cons i rest ih =>
    obtain ⟨hi, hrest⟩ := List.nodup_cons.mp his
    rw [List.foldl_cons, ih hrest, h]
    by_cases hj : j = i
    · subst hj
      rw [if_neg hi, if_pos rfl, if_pos List.mem_cons_self]
    · simp only [List.mem_cons, hj, if_false, false_or]

/-- Where changing twice is changing once by both, a list of changes is one change by all. -/
theorem foldl_change {ι σ τ : Type} (update : (τ → τ) → σ → σ) (hid : ∀ s, update id s = s)
    (hcomp : ∀ f g s, update g (update f s) = update (g ∘ f) s) (change : ι → τ → τ) (is : List ι)
    (s : σ) :
    is.foldl (fun s i => update (change i) s) s
      = update (fun t => is.foldl (fun t i => change i t) t) s := by
  induction is generalizing s with
  | nil => exact (hid s).symm
  | cons i rest ih =>
    rw [List.foldl_cons, ih, hcomp]
    rfl

section List

variable {α : Type} {l : List α} {i j : Nat} {f g : α → α}

/-- Changing an item of a list changes what is read there and nothing else. -/
theorem getElem?_modify_eq (l : List α) (i j : Nat) (f : α → α) :
    (l.modify i f)[j]? = if j = i then l[i]?.map f else l[j]? := by
  rw [List.getElem?_modify]
  by_cases h : j = i
  · subst h
    simp
  · simp [h, Ne.symm h]

/-- Two changes that agree on the item there change a list alike. -/
theorem modify_congr (h : ∀ a, l[i]? = some a → f a = g a) : l.modify i f = l.modify i g := by
  refine List.ext_getElem? fun j => ?_
  rw [getElem?_modify_eq, getElem?_modify_eq]
  split
  · cases ha : l[i]? with
    | none => rfl
    | some a => exact congrArg some (h a ha)
  · rfl

/-- A change of one element that keeps the outcome of the test leaves the first one that passes it
where it is. -/
theorem findIdx?_modify {test : α → Bool} (h : ∀ a, test (f a) = test a) (l : List α) (i : Nat) :
    (l.modify i f).findIdx? test = l.findIdx? test := by
  induction l generalizing i with
  | nil => rw [List.modify_nil]
  | cons a rest ih =>
    cases i with
    | zero => rw [List.modify_zero_cons, List.findIdx?_cons, List.findIdx?_cons, h]
    | succ i => rw [List.modify_succ_cons, List.findIdx?_cons, List.findIdx?_cons, ih]

/-- The first element that passes a test is the one with the number of the first that does. -/
theorem Namespace.replaceFirst_eq_modify (test : α → Bool) (change : α → α) (items : List α) :
    replaceFirst test change items = (items.findIdx? test).elim items (items.modify · change) := by
  induction items with
  | nil => rfl
  | cons a rest ih =>
    rw [replaceFirst, List.findIdx?_cons]
    split
    · rfl
    · rw [ih]
      cases rest.findIdx? test <;> rfl

end List

/-! ## Namespaces -/

namespace Namespace

/-- The namespace at the end of a way, which tells the number of the nested namespace to go to. -/
def at? : List Nat → Namespace → Option Namespace
  | [], ns => some ns
  | i :: way, ns => do at? way (← ns.nested[i]?)

/-- The path of the namespace at the end of a way; `path` is that of the first one. -/
def pathAt? (path : String) : List Nat → Namespace → Option String
  | [], _ => some path
  | i :: way, ns => do
    let child ← ns.nested[i]?
    pathAt? (joined path child.name) way child

/-- The way that leads through the first namespace of each name. -/
def wayTo? : List String → Namespace → Option (List Nat)
  | [], _ => some []
  | name :: path, ns => do
    let i ← ns.nested.findIdx? fun child => child.name == name
    return i :: (← wayTo? path (← ns.nested[i]?))

/-- What the namespace at the end of a way declares itself. -/
def scopeAt? (way : List Nat) (ns : Namespace) : Option Scope := (ns.at? way).map scope

/-- Changes what the namespace at the end of a way declares itself. -/
def modifyScope (change : Scope → Scope) : List Nat → Namespace → Namespace
  | [], ns => { ns with scope := change ns.scope }
  | i :: way, ns => { ns with nested := ns.nested.modify i (modifyScope change way) }

variable {change other : Scope → Scope}

/-- A way goes on in the nested namespace that its first number tells. -/
theorem scopeAt?_cons (i : Nat) (way : List Nat) (ns : Namespace) :
    ns.scopeAt? (i :: way) = ns.nested[i]?.bind fun child => child.scopeAt? way := by
  rw [scopeAt?, at?]
  cases ns.nested[i]? <;> rfl

/-- Changing a scope changes what is read at the end of its way and nothing else. -/
theorem scopeAt?_modifyScope (change : Scope → Scope) (way : List Nat) :
    ∀ (ns : Namespace) (there : List Nat), (ns.modifyScope change way).scopeAt? there
      = if there = way then (ns.scopeAt? way).map change else ns.scopeAt? there := by
  induction way with
  | nil =>
    intro ns there
    cases there <;> rfl
  | cons i way ih =>
    intro ns there
    cases there with
    | nil => rfl
    | cons j there =>
      rw [modifyScope, scopeAt?_cons, scopeAt?_cons, scopeAt?_cons, getElem?_modify_eq]
      by_cases hj : j = i
      · subst hj
        rw [if_pos rfl]
        cases ns.nested[j]? with
        | none => simp
        | some child => simpa using ih child there
      · rw [if_neg hj, if_neg fun hboth => hj (List.cons.inj hboth).1]

/-- Two changes that agree on the scope there change a namespace alike. -/
theorem modifyScope_congr {way : List Nat} :
    ∀ {ns : Namespace}, (∀ s, ns.scopeAt? way = some s → change s = other s) →
      ns.modifyScope change way = ns.modifyScope other way := by
  induction way with
  | nil =>
    intro ns h
    rw [modifyScope, modifyScope, h ns.scope rfl]
  | cons i way ih =>
    intro ns h
    rw [modifyScope, modifyScope, modify_congr fun child hchild => ih fun s hs => h s ?_]
    rw [scopeAt?_cons, hchild]
    exact hs

/-- Changing a scope to itself changes nothing. -/
theorem modifyScope_id (way : List Nat) (ns : Namespace) : ns.modifyScope id way = ns := by
  induction way generalizing ns with
  | nil => cases ns; rfl
  | cons i way ih =>
    obtain ⟨scope, nested⟩ := ns
    have hnested : nested.modify i (modifyScope id way) = nested :=
      (modify_congr fun child _ => ih child).trans (List.modify_id i nested)
    rw [modifyScope, hnested]

/-- Changing a scope twice is changing it by both changes at once. -/
theorem modifyScope_comp (change other : Scope → Scope) (way : List Nat) (ns : Namespace) :
    (ns.modifyScope change way).modifyScope other way = ns.modifyScope (other ∘ change) way := by
  induction way generalizing ns with
  | nil => rfl
  | cons i way ih =>
    rw [modifyScope, modifyScope, modifyScope, List.modify_modify_eq]
    exact congrArg (Namespace.mk ns.scope) (modify_congr fun child _ => ih child)

/-- Changing the namespace that is reached by the first of each name is changing it where the way
leads. -/
theorem modifyAt_eq (change : Scope → Scope) (path : List String) (ns : Namespace) :
    ns.modifyAt (fun ns => { ns with scope := change ns.scope }) path
      = (ns.wayTo? path).elim ns (ns.modifyScope change ·) := by
  induction path generalizing ns with
  | nil => rfl
  | cons name path ih =>
    obtain ⟨scope, nested⟩ := ns
    rw [modifyAt, wayTo?, replaceFirst_eq_modify]
    cases hfirst : nested.findIdx? fun child => child.name == name with
    | none => rfl
    | some i =>
      obtain ⟨hi, -, -⟩ := List.findIdx?_eq_some_iff_getElem.mp hfirst
      have hchild : nested[i]? = some nested[i] := List.getElem?_eq_getElem hi
      have hsame : nested.modify i (modifyAt (fun ns => { ns with scope := change ns.scope }) path)
          = nested.modify i fun child =>
            (wayTo? path nested[i]).elim child (child.modifyScope change ·) := by
        refine modify_congr fun child hat => ?_
        obtain rfl := Option.some.inj (hchild.symm.trans hat)
        exact ih _
      simp only [Option.elim_some, hsame, Option.bind_eq_bind, Option.bind_some, hchild]
      cases wayTo? path nested[i] with
      | none => exact congrArg (Namespace.mk scope) (List.modify_id i nested)
      | some way => rfl

/-- The namespace found under a path stands at the end of the way that leads there. -/
theorem find?_eq_at? (path : List String) (ns : Namespace) :
    ns.find? path = (ns.wayTo? path).bind (ns.at? ·) := by
  induction path generalizing ns with
  | nil => rfl
  | cons name path ih =>
    rw [find?, wayTo?, List.find?_eq_bind_findIdx?_getElem?]
    cases ns.nested.findIdx? fun child => child.name == name with
    | none => rfl
    | some i =>
      cases hchild : ns.nested[i]? with
      | none => simp [hchild]
      | some child =>
        simp only [Option.bind_eq_bind, Option.bind_some, hchild, ih]
        cases wayTo? path child <;> simp [at?, hchild]

/-- The way that leads through namespaces of these names has their path. -/
theorem pathAt?_of_wayTo? {names : List String} {ns : Namespace} {way : List Nat}
    (h : ns.wayTo? names = some way) (path : String) :
    ns.pathAt? path way = some (names.foldl joined path) := by
  induction names generalizing ns way path with
  | nil =>
    obtain rfl := Option.some.inj h
    rfl
  | cons name names ih =>
    simp only [wayTo?, Option.bind_eq_bind, Option.bind_eq_some_iff, Option.pure_def,
      Option.some.injEq] at h
    obtain ⟨i, hi, child, hchild, deeper, hdeeper, rfl⟩ := h
    obtain ⟨hlt, hname, -⟩ := List.findIdx?_eq_some_iff_getElem.mp hi
    obtain rfl := Option.some.inj ((List.getElem?_eq_getElem hlt).symm.trans hchild)
    rw [beq_iff_eq] at hname
    rw [pathAt?, hchild]
    simpa [hname] using ih hdeeper (joined path ns.nested[i].name)

variable (change) in
/-- A change that keeps the name of a namespace keeps all paths. -/
theorem pathAt?_modifyScope (hname : ∀ s, (change s).name = s.name) (way : List Nat) :
    ∀ (ns : Namespace) (there : List Nat) (path : String),
      (ns.modifyScope change way).pathAt? path there = ns.pathAt? path there := by
  have hmodified (way : List Nat) (ns : Namespace) : (ns.modifyScope change way).name = ns.name := by
    cases way with
    | nil => exact hname ns.scope
    | cons => rfl
  induction way with
  | nil =>
    intro ns there path
    cases there <;> rfl
  | cons i way ih =>
    intro ns there path
    cases there with
    | nil => rfl
    | cons j there =>
      rw [modifyScope, pathAt?, pathAt?, getElem?_modify_eq]
      by_cases hj : j = i
      · subst hj
        rw [if_pos rfl]
        cases ns.nested[j]? with
        | none => rfl
        | some child => simp [hmodified, ih]
      · rw [if_neg hj]

end Namespace

/-! ## Functions and parameters -/

namespace Scope

/-- The parameter with a number of the function with a number. -/
def parameter? (s : Scope) (function parameter : Nat) : Option Parameter := do
  (← s.functions[function]?).parameters[parameter]?

/-- Changes the parameter with a number of the function with a number. -/
def modifyParameter (change : Parameter → Parameter) (function parameter : Nat) (s : Scope) :
    Scope :=
  { s with functions := s.functions.modify function fun f =>
      { f with parameters := f.parameters.modify parameter change } }

end Scope

/-- Where a parameter of a namespace's function stands. -/
structure ParameterAddress where
  /-- The numbers of the namespaces on the way from the top level down. -/
  way : List Nat
  function : Nat
  parameter : Nat
deriving DecidableEq, Repr

/-- Where a type expression in the type of such a parameter stands; the members of a union have
numbers. -/
structure TypeAddress extends ParameterAddress where
  member : Option Nat
deriving DecidableEq, Repr

/-- What a parameter, its function and the namespace around it are called. -/
structure ParameterNames where
  path : String
  function : String
  parameter : String
deriving DecidableEq, Repr

namespace Description

variable (d : Description)

/-- The parameter at an address. -/
def parameterAt? (address : ParameterAddress) : Option Parameter := do
  (← d.top.scopeAt? address.way).parameter? address.function address.parameter

/-- Changes the parameter at an address. -/
def modifyParameter (change : Parameter → Parameter) (address : ParameterAddress) : Description :=
  let scope := Scope.modifyParameter change address.function address.parameter
  { d with top := d.top.modifyScope scope address.way }

/-- The names that belong to the parameter at an address. The path is that of the table, which has
none for the top level. -/
def namesAt? (address : ParameterAddress) : Option ParameterNames := do
  let path ← d.top.pathAt? "" address.way
  let s ← d.top.scopeAt? address.way
  let f ← s.functions[address.function]?
  let p ← f.parameters[address.parameter]?
  return ⟨path, f.name, p.name⟩

variable {d} {change other : Parameter → Parameter}

/-- Changing a parameter changes what is read at its address and nothing else. -/
theorem parameterAt?_modifyParameter (change : Parameter → Parameter)
    (address there : ParameterAddress) :
    (d.modifyParameter change address).parameterAt? there
      = if there = address then (d.parameterAt? address).map change else d.parameterAt? there := by
  obtain ⟨way, i, j⟩ := address
  obtain ⟨way', i', j'⟩ := there
  rw [parameterAt?, modifyParameter, Namespace.scopeAt?_modifyScope]
  simp only [ParameterAddress.mk.injEq, parameterAt?]
  by_cases hway : way' = way
  · subst hway
    cases d.top.scopeAt? way' with
    | none => simp
    | some s =>
      by_cases hi : i' = i
      · subst hi
        cases hf : s.functions[i']? with
        | none => simp [Scope.parameter?, Scope.modifyParameter, hf]
        | some f =>
          simp [Scope.parameter?, Scope.modifyParameter, hf, getElem?_modify_eq]
      · simp [Scope.parameter?, Scope.modifyParameter, getElem?_modify_eq, hi]
  · simp [hway]

/-- Two changes that agree on the parameter there change a description alike. -/
theorem modifyParameter_congr {address : ParameterAddress}
    (h : ∀ p, d.parameterAt? address = some p → change p = other p) :
    d.modifyParameter change address = d.modifyParameter other address := by
  refine congrArg (fun top => { d with top := top }) (Namespace.modifyScope_congr fun s hs => ?_)
  refine congrArg (fun functions => { s with functions := functions }) (modify_congr fun f hf => ?_)
  refine congrArg (fun list => { f with parameters := list }) (modify_congr fun p hp => h p ?_)
  simp [parameterAt?, hs, Scope.parameter?, hf, hp]

/-- Changing a parameter to itself changes nothing. -/
theorem modifyParameter_id (address : ParameterAddress) : d.modifyParameter id address = d := by
  have hscope : Scope.modifyParameter id address.function address.parameter = id := by
    funext s
    simp only [Scope.modifyParameter, List.modify_id]
    exact congrArg (fun functions => { s with functions := functions }) (List.modify_id _ _)
  rw [modifyParameter, hscope, Namespace.modifyScope_id]

/-- Changing a parameter twice is changing it by both changes at once. -/
theorem modifyParameter_comp (change other : Parameter → Parameter) (address : ParameterAddress) :
    (d.modifyParameter change address).modifyParameter other address
      = d.modifyParameter (other ∘ change) address := by
  have hscope : Scope.modifyParameter other address.function address.parameter
        ∘ Scope.modifyParameter change address.function address.parameter
      = Scope.modifyParameter (other ∘ change) address.function address.parameter := by
    funext s
    simp only [Scope.modifyParameter, Function.comp_apply, List.modify_modify_eq]
    refine congrArg (fun functions => { s with functions := functions }) (modify_congr fun f _ => ?_)
    simp only [Function.comp_apply, List.modify_modify_eq]
  rw [modifyParameter, modifyParameter, modifyParameter, Namespace.modifyScope_comp, hscope]

/-- A change that keeps the name of a parameter keeps all names. -/
theorem namesAt?_modifyParameter (hname : ∀ p, (change p).name = p.name)
    (address there : ParameterAddress) :
    (d.modifyParameter change address).namesAt? there = d.namesAt? there := by
  obtain ⟨way, i, j⟩ := address
  obtain ⟨way', i', j'⟩ := there
  have hpath := Namespace.pathAt?_modifyScope (Scope.modifyParameter change i j) (fun _ => rfl) way
    d.top way' ""
  simp only [namesAt?, modifyParameter, hpath, Namespace.scopeAt?_modifyScope]
  by_cases hway : way' = way
  · subst hway
    cases d.top.scopeAt? way' with
    | none => simp
    | some s =>
      by_cases hi : i' = i
      · subst hi
        cases hf : s.functions[i']? with
        | none => simp [Scope.modifyParameter, hf]
        | some f =>
          by_cases hj : j' = j
          · subst hj
            cases hp : f.parameters[j']? <;>
              simp [Scope.modifyParameter, hf, hp, hname]
          · simp [Scope.modifyParameter, hf, getElem?_modify_eq, hj]
      · simp [Scope.modifyParameter, getElem?_modify_eq, hi]
  · simp [hway]

end Description

/-! ## Type expressions -/

/-- The type expression at a place of a declared type: itself, or the member with a number. -/
def DeclaredType.member? : Option Nat → DeclaredType → Option SimpleType
  | none, .simple type => some type
  | some i, .union members _ => members[i]?
  | _, _ => none

/-- Changes the type expression at a place of a declared type. -/
def DeclaredType.modifyMember (change : SimpleType → SimpleType) :
    Option Nat → DeclaredType → DeclaredType
  | none, .simple type => .simple (change type)
  | some i, .union members link => .union (members.modify i change) link
  | _, type => type

/-- The type expression at a place of the declared type of a parameter. -/
def Parameter.member? (place : Option Nat) : Parameter → Option SimpleType
  | .mk _ (.declared type) => type.member? place
  | _ => none

/-- Changes the type expression at a place of the declared type of a parameter. -/
def Parameter.modifyMember (change : SimpleType → SimpleType) (place : Option Nat) :
    Parameter → Parameter
  | .mk info (.declared type) => .mk info (.declared (type.modifyMember change place))
  | parameter => parameter

/-- The type expression at an address. -/
def Description.typeAt? (address : TypeAddress) (d : Description) : Option SimpleType := do
  (← d.parameterAt? address.toParameterAddress).member? address.member

/-- Changes the type expression at an address, and nothing else. -/
def Description.retype (change : SimpleType → SimpleType) (d : Description)
    (address : TypeAddress) : Description :=
  d.modifyParameter (Parameter.modifyMember change address.member) address.toParameterAddress

variable {change : SimpleType → SimpleType}

/-- Changing a member of a declared type changes what is read at its place and nothing else. -/
theorem DeclaredType.member?_modifyMember (change : SimpleType → SimpleType)
    (place there : Option Nat) (t : DeclaredType) :
    (t.modifyMember change place).member? there
      = if there = place then (t.member? place).map change else t.member? there := by
  cases t with
  | simple t => cases place <;> cases there <;> simp [modifyMember, member?]
  | union members link =>
    cases place <;> cases there <;> simp [modifyMember, member?, getElem?_modify_eq]

/-- Changing a member of a parameter's type changes what is read at its place and nothing else. -/
theorem Parameter.member?_modifyMember (change : SimpleType → SimpleType) (place there : Option Nat)
    (p : Parameter) :
    (p.modifyMember change place).member? there
      = if there = place then (p.member? place).map change else p.member? there := by
  obtain ⟨info, type⟩ := p
  cases type with
  | declared type => exact type.member?_modifyMember change place there
  | unspecified => simp [modifyMember, member?]
  | shape entries => simp [modifyMember, member?]

/-- Changing a member of a parameter's type keeps the parameter's name. -/
theorem Parameter.name_modifyMember (place : Option Nat) (p : Parameter) :
    (p.modifyMember change place).name = p.name := by
  obtain ⟨info, type⟩ := p
  cases type <;> rfl

/-- Retyping changes what is read at its address and nothing else. -/
theorem Description.typeAt?_retype (change : SimpleType → SimpleType) (address there : TypeAddress)
    (d : Description) :
    (d.retype change address).typeAt? there
      = if there = address then (d.typeAt? address).map change else d.typeAt? there := by
  obtain ⟨place, member⟩ := address
  obtain ⟨place', member'⟩ := there
  rw [typeAt?, retype, parameterAt?_modifyParameter]
  simp only [TypeAddress.mk.injEq, typeAt?]
  by_cases hplace : place' = place
  · subst hplace
    cases d.parameterAt? place' with
    | none => simp
    | some p => simp [Parameter.member?_modifyMember]
  · simp [hplace]

/-- Retyping renames nothing, at any address. -/
theorem Description.namesAt?_retype (d : Description) (address : TypeAddress)
    (there : ParameterAddress) :
    (d.retype change address).namesAt? there = d.namesAt? there :=
  namesAt?_modifyParameter (Parameter.name_modifyMember address.member) _ there

end Ambient.Api
