import Ambient.Correction.Loader
import Ambient.Proofs.Correction.Visibility

/-!
# What is narrowed

The number of narrowed types tells whether narrowing the loader's signatures changes anything:
where nothing is narrowed, everything stays as it is, and in narrowed signatures nothing is left to
be narrowed. Links do not count, and narrowing hides nothing.
-/

namespace Ambient

namespace Api

/-- A way through a description leads to the same namespace whatever links are set. -/
theorem Namespace.find?_unlinked (way : List String) (ns : Namespace) :
    ns.unlinked.find? way = (ns.find? way).map Namespace.unlinked := by
  induction way generalizing ns with
  | nil => rfl
  | cons name rest ih =>
    have hnested : ns.unlinked.nested.find? (fun child => child.name == name)
        = (ns.nested.find? fun child => child.name == name).map Namespace.unlinked := by
      obtain ⟨scope, nested⟩ := ns
      rw [Namespace.unlinked, Namespace.unlinkedAll_eq, List.find?_map]
      refine congrArg (fun test => (nested.find? test).map Namespace.unlinked) (funext ?_)
      rintro ⟨inner, deeper⟩
      rw [Function.comp_apply, Namespace.unlinked]
      rfl
    rw [Namespace.find?, Namespace.find?, hnested]
    cases ns.nested.find? fun child => child.name == name with
    | none => rfl
    | some child => exact ih child

end Api

namespace Correction

open Api

/-! ## Types and signatures -/

/-- A narrower text is not narrowed any further. -/
theorem narrowed?_of_narrowed? {name narrow : String} (h : narrowed? name = some narrow) :
    narrowed? narrow = none := by
  rw [narrowed?] at h
  split at h
  · cases h
    decide
  · split at h
    · cases h
      decide
    · cases h

/-- No type has a narrower one once it has been narrowed. -/
theorem narrowed?_narrowSimple (t : SimpleType) : narrowed? (narrowSimple t).name = none := by
  rw [narrowSimple]
  split
  · next h => exact narrowed?_of_narrowed? h
  · next h => exact h

/-- A type without a narrower one stays as it is. -/
theorem narrowSimple_eq_self {t : SimpleType} (h : narrowed? t.name = none) :
    narrowSimple t = t := by
  rw [narrowSimple, h]

/-- In a narrowed type nothing is left to narrow. -/
theorem narrowings_narrowType (t : DeclaredType) : narrowings (narrowType t) = 0 := by
  cases t with
  | simple t => rw [narrowType, narrowings, narrowed?_narrowSimple]; rfl
  | union members link =>
    rw [narrowType, narrowings, List.countP_map, List.countP_eq_zero]
    intro member _
    rw [Function.comp_apply, narrowed?_narrowSimple]
    simp

/-- A declared type with nothing to narrow stays as it is. -/
theorem narrowType_eq_self {t : DeclaredType} (h : narrowings t = 0) : narrowType t = t := by
  cases t with
  | simple t =>
    rw [narrowings] at h
    rw [narrowType, narrowSimple_eq_self (by simpa using h)]
  | union members link =>
    rw [narrowings, List.countP_eq_zero] at h
    have hmembers (member : SimpleType) (hmember : member ∈ members) :
        narrowSimple member = member := narrowSimple_eq_self (by simpa using h member hmember)
    rw [narrowType, (List.map_congr_left hmembers).trans (List.map_id' members)]

/-- In a narrowed parameter nothing is left to narrow. -/
theorem parameterNarrowings_narrowParameter (q : Parameter) :
    parameterNarrowings (narrowParameter q) = 0 := by
  obtain ⟨info, type⟩ := q
  cases type with
  | unspecified => rfl
  | declared type => exact narrowings_narrowType type
  | shape entries => rfl

/-- A parameter with nothing to narrow stays as it is. -/
theorem narrowParameter_eq_self {q : Parameter} (h : parameterNarrowings q = 0) :
    narrowParameter q = q := by
  obtain ⟨info, type⟩ := q
  cases type with
  | unspecified => rfl
  | declared type =>
    have hsame : narrowType type = type := narrowType_eq_self h
    rw [narrowParameter, hsame]
  | shape entries => rfl

/-- Narrowing a parameter keeps its name. -/
theorem name_narrowParameter (q : Parameter) : (narrowParameter q).name = q.name := by
  obtain ⟨info, type⟩ := q
  cases type <;> rfl

/-- In a function that was narrowed nothing is left to narrow in the first parameter of the name. -/
theorem functionNarrowings_narrowFunction (parameter : String) (f : Function) :
    functionNarrowings parameter (narrowFunction parameter f) = 0 := by
  have hkept (q : Parameter) : ((narrowParameter q).name == parameter) = (q.name == parameter) := by
    rw [name_narrowParameter]
  rw [functionNarrowings, narrowFunction, Namespace.find?_replaceFirst hkept]
  cases f.parameters.find? fun q => q.name == parameter with
  | none => rfl
  | some q => exact parameterNarrowings_narrowParameter q

/-- A function with nothing to narrow in the first parameter of the name stays as it is. -/
theorem narrowFunction_eq_self {parameter : String} {f : Function}
    (h : functionNarrowings parameter f = 0) : narrowFunction parameter f = f := by
  rw [narrowFunction, Namespace.replaceFirst_eq_self]
  intro q hq
  rw [functionNarrowings, hq] at h
  exact narrowParameter_eq_self h

/-! ## The loader's functions -/

/-- The number of type expressions that are narrowed for one of the loader's functions. -/
def targetNarrowings (functions : List Function) (target : String × String) : Nat :=
  match functions.find? fun f => f.name == target.1 with
  | some f => functionNarrowings target.2 f
  | none => 0

/-- A scope has nothing to narrow exactly if no target has anything to narrow in its functions. -/
theorem scopeNarrowings_eq_zero {s : Scope} :
    scopeNarrowings s = 0 ↔ ∀ target ∈ loaderFunctions, targetNarrowings s.functions target = 0 :=
  List.sum_eq_zero_iff_forall_eq_nat.trans List.forall_mem_map

/-- Once the first function of a name is narrowed, nothing is left to narrow for the target. -/
theorem targetNarrowings_narrowFirst (functions : List Function) (target : String × String) :
    targetNarrowings (narrowFirst functions target) target = 0 := by
  have hkept (f : Function) :
      ((narrowFunction target.2 f).name == target.1) = (f.name == target.1) := rfl
  rw [targetNarrowings, narrowFirst, Namespace.find?_replaceFirst hkept]
  cases functions.find? fun f => f.name == target.1 with
  | none => rfl
  | some f => exact functionNarrowings_narrowFunction target.2 f

/-- Narrowing for one name leaves the functions of another one as they are. -/
theorem targetNarrowings_narrowFirst_of_ne (functions : List Function)
    {target other : String × String} (h : other.1 ≠ target.1) :
    targetNarrowings (narrowFirst functions target) other = targetNarrowings functions other := by
  have hother (f : Function) (hf : (f.name == target.1) = true) : (f.name == other.1) = false := by
    rw [beq_iff_eq] at hf
    simpa [hf] using h.symm
  rw [targetNarrowings, narrowFirst, Namespace.find?_replaceFirst_of_not (narrowFunction target.2)
    hother hother]
  rfl

/-- Functions with nothing to narrow for a target stay as they are. -/
theorem narrowFirst_eq_self {functions : List Function} {target : String × String}
    (h : targetNarrowings functions target = 0) : narrowFirst functions target = functions := by
  rw [narrowFirst, Namespace.replaceFirst_eq_self]
  intro f hf
  rw [targetNarrowings, hf] at h
  exact narrowFunction_eq_self h

/-- After narrowing for names that differ, there is nothing to narrow for any of them. -/
theorem targetNarrowings_foldl {targets : List (String × String)}
    (hnames : (targets.map Prod.fst).Nodup) (functions : List Function) :
    ∀ target ∈ targets, targetNarrowings (targets.foldl narrowFirst functions) target = 0 := by
  have hkept (rest : List (String × String)) (target : String × String)
      (h : target.1 ∉ rest.map Prod.fst) (functions : List Function) :
      targetNarrowings (rest.foldl narrowFirst functions) target
        = targetNarrowings functions target := by
    induction rest generalizing functions with
    | nil => rfl
    | cons first rest ih =>
      rw [List.map_cons, List.mem_cons, not_or] at h
      rw [List.foldl_cons, ih h.2, targetNarrowings_narrowFirst_of_ne functions h.1]
  induction targets generalizing functions with
  | nil => exact fun _ h => absurd h List.not_mem_nil
  | cons first rest ih =>
    rw [List.map_cons, List.nodup_cons] at hnames
    rw [List.forall_mem_cons, List.foldl_cons]
    refine ⟨?_, ih hnames.2 _⟩
    rw [hkept rest first hnames.1, targetNarrowings_narrowFirst]

/-- In a narrowed scope nothing is left to narrow. -/
theorem scopeNarrowings_narrowScope (s : Scope) : scopeNarrowings (narrowScope s) = 0 :=
  scopeNarrowings_eq_zero.mpr (targetNarrowings_foldl (by decide) s.functions)

/-- A scope with nothing to narrow stays as it is. -/
theorem narrowScope_eq_self {s : Scope} (h : scopeNarrowings s = 0) : narrowScope s = s := by
  have hfold (targets : List (String × String))
      (htargets : ∀ target ∈ targets, targetNarrowings s.functions target = 0) :
      targets.foldl narrowFirst s.functions = s.functions := by
    induction targets with
    | nil => rfl
    | cons target rest ih =>
      obtain ⟨htarget, hrest⟩ := List.forall_mem_cons.mp htargets
      rw [List.foldl_cons, narrowFirst_eq_self htarget, ih hrest]
  rw [narrowScope, hfold loaderFunctions (scopeNarrowings_eq_zero.mp h)]

/-! ## Descriptions -/

variable (library : String) (table : Symbol.Table)

/-- A description whose loader's signatures have been narrowed has nothing to narrow. -/
theorem loaderNarrowings_narrowLoader (d : Description) :
    loaderNarrowings library table (narrowLoader library table d) = 0 := by
  rw [loaderNarrowings, narrowLoader]
  split
  · rw [Namespace.find?_modifyAt (fun ns => { ns with scope := narrowScope ns.scope }) fun _ => rfl]
    cases d.top.find? loaderPath with
    | none => rfl
    | some ns => exact scopeNarrowings_narrowScope ns.scope
  · rfl

/-- A description with nothing to narrow stays as it is. -/
theorem narrowLoader_eq_self {d : Description} (h : loaderNarrowings library table d = 0) :
    narrowLoader library table d = d := by
  rw [loaderNarrowings] at h
  rw [narrowLoader]
  split
  · next hnarrows =>
    rw [Namespace.modifyAt_eq_self]
    intro ns hfind
    rw [if_pos hnarrows, hfind] at h
    obtain ⟨scope, nested⟩ := ns
    exact congrArg (Namespace.mk · nested) (narrowScope_eq_self h)
  · rfl

/-! ## Links are not narrowed -/

/-- What there is to narrow in a parameter does not depend on links. -/
theorem parameterNarrowings_unlinked (q : Parameter) :
    parameterNarrowings q.unlinked = parameterNarrowings q := by
  obtain ⟨info, type⟩ := q
  cases type with
  | unspecified => rfl
  | shape entries => rfl
  | declared type =>
    cases type with
    | simple t => rfl
    | union members link => exact List.countP_map

/-- What there is to narrow in a function does not depend on links. -/
theorem functionNarrowings_unlinked (parameter : String) (f : Function) :
    functionNarrowings parameter f.unlinked = functionNarrowings parameter f := by
  have hname (q : Parameter) : q.unlinked.name = q.name := by
    obtain ⟨info, type⟩ := q
    cases type <;> rfl
  rw [functionNarrowings, functionNarrowings, Function.unlinked, List.find?_map]
  simp only [Function.comp_def, hname]
  cases f.parameters.find? fun q => q.name == parameter with
  | none => rfl
  | some q => exact parameterNarrowings_unlinked q

/-- What there is to narrow in a scope does not depend on links. -/
theorem scopeNarrowings_unlinked (s : Scope) : scopeNarrowings s.unlinked = scopeNarrowings s := by
  have htarget (target : String × String) :
      targetNarrowings s.unlinked.functions target = targetNarrowings s.functions target := by
    rw [targetNarrowings, targetNarrowings, Scope.unlinked, List.find?_map]
    show (match (s.functions.find? fun f => f.name == target.1).map Function.unlinked with
      | some f => functionNarrowings target.2 f
      | none => 0) = _
    cases s.functions.find? fun f => f.name == target.1 with
    | none => rfl
    | some f => exact functionNarrowings_unlinked target.2 f
  exact congrArg (fun count => (loaderFunctions.map count).foldr (· + ·) 0) (funext htarget)

/-- What is narrowed in a description does not depend on links. -/
theorem loaderNarrowings_unlinked (d : Description) :
    loaderNarrowings library table d.unlinked = loaderNarrowings library table d := by
  rw [loaderNarrowings, loaderNarrowings, Description.unlinked, Namespace.find?_unlinked]
  cases d.top.find? loaderPath with
  | none => rfl
  | some ns =>
    obtain ⟨scope, nested⟩ := ns
    have hscope := scopeNarrowings_unlinked scope
    simp only [Option.map_some, Namespace.unlinked, hscope]

/-! ## Narrowing hides nothing -/

/-- Narrowing a scope hides nothing and brings nothing to light. -/
theorem hidden_narrowScope (s : Scope) : (narrowScope s).hidden = s.hidden := by
  have hfunctions (targets : List (String × String)) (functions : List Function) :
      hiddenOf Function.visibility (targets.foldl narrowFirst functions)
        = hiddenOf Function.visibility functions := by
    induction targets generalizing functions with
    | nil => rfl
    | cons target rest ih =>
      rw [List.foldl_cons, ih]
      exact Namespace.countP_replaceFirst _ (narrowFunction target.2) (fun _ => rfl) functions
  rw [Scope.hidden_eq, Scope.hidden_eq, narrowScope, hfunctions]

/-- Narrowing the loader hides nothing and brings nothing to light. -/
theorem hidden_narrowLoader (d : Description) :
    (narrowLoader library table d).top.hidden = d.top.hidden := by
  rw [narrowLoader]
  split
  · refine (Namespace.hidden_modifyAt (fun ns => { ns with scope := narrowScope ns.scope })
      (fun ns => ?_) (fun _ => rfl) loaderPath d.top).1
    obtain ⟨scope, nested⟩ := ns
    rw [Namespace.hidden, Namespace.hidden, hidden_narrowScope]
  · rfl

end Correction

end Ambient
