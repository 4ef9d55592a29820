import Ambient.Proofs.Api.Addresses
import Ambient.Proofs.Correction.Stability
import Mathlib.Data.List.Nodup

/-!
# Where the loader's signatures are narrowed

Narrowing follows the first namespace of each name down to the loader, and takes there the first
function of a name and its first parameter of a name. It changes the type expressions that stand at
this address and have a narrower text, one by one, and nothing else. Signatures that repeat these
names keep their types.
-/

namespace Ambient.Correction

open Api

/-- The texts that have a narrower one. -/
def IsWide (name : String) : Prop := name = "string" ∨ name = "string[]"

/-- Whether a name is one of those that get narrowed can be decided by looking it up. -/
instance (name : String) : Decidable (IsWide name) := inferInstanceAs (Decidable (_ ∨ _))

/-- A name has a narrower one exactly if it is wide. -/
theorem isSome_narrowed?_iff {name : String} : (narrowed? name).isSome ↔ IsWide name := by
  rw [narrowed?, IsWide]
  split_ifs <;> simp_all

/-- Narrowing a wide type replaces its name and nothing else. -/
theorem narrowSimple_eq (type : SimpleType) (h : IsWide type.name) :
    narrowSimple type = { type with
      name := if type.name = "string" then "keyof IUI5DefineDependencyNames"
        else "(keyof IUI5DefineDependencyNames)[]"
      skipsCorrection := true } := by
  rw [narrowSimple, narrowed?]
  obtain h | h := h <;> simp [h, moduleNamesInterface]

/-- No type is wide once it has been narrowed. -/
theorem not_isWide_narrowSimple (type : SimpleType) : ¬ IsWide (narrowSimple type).name := by
  rw [← isSome_narrowed?_iff, narrowed?_narrowSimple]
  exact Bool.false_ne_true

/-! ## The places in one type -/

/-- The places in a declared type whose type expressions have a narrower text. -/
def widePlaces : DeclaredType → List (Option Nat)
  | .simple type => if (narrowed? type.name).isSome then [none] else []
  | .union members _ => (members.findIdxs fun member => (narrowed? member.name).isSome).map some

/-- The wide places of a declared type are those at which a wide member stands. -/
theorem mem_widePlaces_iff {type : DeclaredType} {place : Option Nat} :
    place ∈ widePlaces type ↔ ∃ t, type.member? place = some t ∧ IsWide t.name := by
  cases type with
  | simple t =>
    cases place <;> simp [widePlaces, DeclaredType.member?, isSome_narrowed?_iff]
  | union members link =>
    cases place with
    | none => simp [widePlaces, DeclaredType.member?]
    | some i =>
      simp [widePlaces, DeclaredType.member?, isSome_narrowed?_iff, List.getElem?_eq_some_iff]

/-- No place of a declared type is listed twice among the wide ones. -/
theorem nodup_widePlaces (type : DeclaredType) : (widePlaces type).Nodup := by
  cases type with
  | simple t =>
    rw [widePlaces]
    split <;> simp
  | union members link => exact List.Nodup.map (fun _ _ => Option.some.inj) List.nodup_findIdxs

/-- A declared type has as many wide places as narrowing it counts changes. -/
theorem length_widePlaces (type : DeclaredType) : (widePlaces type).length = narrowings type := by
  cases type with
  | simple t =>
    rw [widePlaces, narrowings]
    split <;> rfl
  | union members link => simp [widePlaces, narrowings]

/-- Narrowing a declared type is narrowing at these places. -/
theorem narrowType_eq (type : DeclaredType) :
    narrowType type = (widePlaces type).foldl (fun type place => type.modifyMember narrowSimple place)
      type := by
  cases type with
  | simple t =>
    rw [widePlaces, narrowType]
    split
    · rfl
    · next h => exact congrArg DeclaredType.simple (narrowSimple_eq_self (by simpa using h))
  | union members link =>
    -- The members of a union are changed one by one, at places that are all different.
    have hunion (is : List Nat) (members : List SimpleType) :
        (is.map some).foldl (fun type place => DeclaredType.modifyMember narrowSimple place type)
          (.union members link)
            = .union (is.foldl (fun members i => members.modify i narrowSimple) members) link := by
      induction is generalizing members with
      | nil => rfl
      | cons i rest ih => exact ih _
    rw [widePlaces, hunion, narrowType]
    refine congrArg (DeclaredType.union · link) (List.ext_getElem? fun j => ?_)
    rw [get_foldl_of_nodup (fun (j : ℕ) (l : List SimpleType) => l[j]?) (f := narrowSimple)
      (fun i j l => getElem?_modify_eq l i j narrowSimple) List.nodup_findIdxs, List.getElem?_map]
    split
    · rfl
    · next hnot =>
      cases hj : members[j]? with
      | none => rfl
      | some t =>
        obtain ⟨hlt, rfl⟩ := List.getElem?_eq_some_iff.mp hj
        rw [List.mem_findIdxs_iff_pos_getElem hlt] at hnot
        exact congrArg some (narrowSimple_eq_self (by simpa using hnot))

/-! ## The places in one parameter -/

/-- The places in the type of a parameter whose type expressions have a narrower text. -/
def parameterPlaces : Parameter → List (Option Nat)
  | .mk _ (.declared type) => widePlaces type
  | _ => []

/-- The wide places of a parameter are those at which its type has a wide member. -/
theorem mem_parameterPlaces_iff {p : Parameter} {place : Option Nat} :
    place ∈ parameterPlaces p ↔ ∃ t, p.member? place = some t ∧ IsWide t.name := by
  obtain ⟨info, type⟩ := p
  cases type with
  | declared type => exact mem_widePlaces_iff
  | unspecified => simp [parameterPlaces, Parameter.member?]
  | shape entries => simp [parameterPlaces, Parameter.member?]

/-- No place of a parameter is listed twice among the wide ones. -/
theorem nodup_parameterPlaces (p : Parameter) : (parameterPlaces p).Nodup := by
  obtain ⟨info, type⟩ := p
  cases type with
  | declared type => exact nodup_widePlaces type
  | unspecified => exact List.nodup_nil
  | shape entries => exact List.nodup_nil

/-- A parameter has as many wide places as narrowing it counts changes. -/
theorem length_parameterPlaces (p : Parameter) :
    (parameterPlaces p).length = parameterNarrowings p := by
  obtain ⟨info, type⟩ := p
  cases type with
  | declared type => exact length_widePlaces type
  | unspecified => rfl
  | shape entries => rfl

/-- Narrowing a parameter retypes its wide places one after another. -/
theorem narrowParameter_eq (p : Parameter) :
    narrowParameter p
      = (parameterPlaces p).foldl (fun p place => p.modifyMember narrowSimple place) p := by
  obtain ⟨info, type⟩ := p
  cases type with
  | unspecified => rfl
  | shape entries => rfl
  | declared type =>
    have hdeclared (places : List (Option Nat)) (type : DeclaredType) :
        places.foldl (fun p place => Parameter.modifyMember narrowSimple place p)
            (.mk info (.declared type))
          = .mk info (.declared (places.foldl
            (fun type place => type.modifyMember narrowSimple place) type)) := by
      induction places generalizing type with
      | nil => rfl
      | cons place rest ih => exact ih _
    rw [parameterPlaces, hdeclared, narrowParameter, narrowType_eq]

/-! ## The first signature of a name -/

/-- The numbers of the first function of a name and of its first parameter of a name. -/
def first? (target : String × String) (s : Scope) : Option (Nat × Nat) := do
  let i ← s.functions.findIdx? fun f => f.name == target.1
  let f ← s.functions[i]?
  let j ← f.parameters.findIdx? fun p => p.name == target.2
  return (i, j)

/-- The address of the first parameter of a name of the first function of a name in the namespace
that is reached through the first namespace of each name on the loader's path. -/
def firstOf? (d : Description) (target : String × String) : Option ParameterAddress := do
  let way ← d.top.wayTo? loaderPath
  let s ← d.top.scopeAt? way
  let numbers ← first? target s
  return ⟨way, numbers.1, numbers.2⟩

/-- The first parameter of a name in the first function of a name is where the two searches, one
inside the other, stop. -/
theorem first?_eq_some_iff {target : String × String} {s : Scope} {i j : Nat} :
    first? target s = some (i, j) ↔
      (s.functions.findIdx? fun f => f.name == target.1) = some i ∧ ∃ f, s.functions[i]? = some f ∧
        (f.parameters.findIdx? fun p => p.name == target.2) = some j := by
  simp [first?, Option.bind_eq_some_iff]

/-- A target has an address exactly if the loader namespace is there and the target is found in its
scope. -/
theorem firstOf?_eq_some_iff {d : Description} {target : String × String}
    {address : ParameterAddress} :
    firstOf? d target = some address ↔ d.top.wayTo? loaderPath = some address.way ∧
      ∃ s, d.top.scopeAt? address.way = some s ∧
        first? target s = some (address.function, address.parameter) := by
  obtain ⟨way, i, j⟩ := address
  simp only [firstOf?, Option.bind_eq_bind, Option.bind_eq_some_iff, Prod.exists, Option.pure_def,
    Option.some.injEq, ParameterAddress.mk.injEq]
  constructor
  · rintro ⟨way, hway, s, hs, i, j, hfirst, rfl, rfl, rfl⟩
    exact ⟨hway, s, hs, hfirst⟩
  · rintro ⟨hway, s, hs, hfirst⟩
    exact ⟨way, hway, s, hs, i, j, hfirst, rfl, rfl, rfl⟩

/-- The first signature of a name has the name. -/
theorem namesAt?_of_firstOf? {d : Description} {target : String × String}
    {address : ParameterAddress} (h : firstOf? d target = some address) :
    d.namesAt? address = some ⟨loaderNamespace, target.1, target.2⟩ := by
  obtain ⟨hway, s, hs, hfirst⟩ := firstOf?_eq_some_iff.mp h
  obtain ⟨hfunction, f, hf, hparameter⟩ := first?_eq_some_iff.mp hfirst
  obtain ⟨hi, hfname, -⟩ := List.findIdx?_eq_some_iff_getElem.mp hfunction
  obtain ⟨hj, hpname, -⟩ := List.findIdx?_eq_some_iff_getElem.mp hparameter
  have hpath : d.top.pathAt? "" address.way = some loaderNamespace :=
    Namespace.pathAt?_of_wayTo? hway ""
  obtain ⟨hlt, rfl⟩ := List.getElem?_eq_some_iff.mp hf
  simp only [beq_iff_eq] at hfname hpname
  simp [Description.namesAt?, hpath, hs, hf, List.getElem?_eq_getElem hj, hfname, hpname]

/-- Narrows the parameter with a number of the function with a number. -/
def narrowAt (s : Scope) (numbers : Nat × Nat) : Scope :=
  s.modifyParameter narrowParameter numbers.1 numbers.2

/-- Narrowing a function narrows the first parameter of the name, and does nothing without one. -/
theorem narrowFunction_eq (parameter : String) (f : Function) :
    narrowFunction parameter f = (f.parameters.findIdx? fun p => p.name == parameter).elim f
      fun j => { f with parameters := f.parameters.modify j narrowParameter } := by
  rw [narrowFunction, Namespace.replaceFirst_eq_modify]
  cases f.parameters.findIdx? fun p => p.name == parameter <;> rfl

/-- Narrowing the first signature of a name is narrowing the parameter at its address. -/
theorem narrowFirst_eq (target : String × String) (s : Scope) :
    { s with functions := narrowFirst s.functions target }
      = (first? target s).elim s (narrowAt s) := by
  rw [narrowFirst, Namespace.replaceFirst_eq_modify, first?]
  cases hi : s.functions.findIdx? fun f => f.name == target.1 with
  | none => rfl
  | some i =>
    obtain ⟨hlt, -, -⟩ := List.findIdx?_eq_some_iff_getElem.mp hi
    have hf : s.functions[i]? = some s.functions[i] := List.getElem?_eq_getElem hlt
    have hsame : s.functions.modify i (narrowFunction target.2) = s.functions.modify i fun f =>
        (s.functions[i].parameters.findIdx? fun p => p.name == target.2).elim f
          fun j => { f with parameters := f.parameters.modify j narrowParameter } := by
      refine modify_congr fun f hat => ?_
      obtain rfl := Option.some.inj (hf.symm.trans hat)
      exact narrowFunction_eq target.2 _
    simp only [Option.elim_some, hsame, Option.bind_eq_bind, Option.bind_some, hf]
    cases s.functions[i].parameters.findIdx? fun p => p.name == target.2 with
    | none => exact congrArg (fun functions => { s with functions := functions }) (List.modify_id i _)
    | some j => rfl

/-- Changing one parameter without its name leaves the first signatures where they are. -/
theorem first?_modifyParameter {change : Parameter → Parameter}
    (hname : ∀ p, (change p).name = p.name) (target : String × String) (i j : Nat) (s : Scope) :
    first? target (s.modifyParameter change i j) = first? target s := by
  let onFunction (f : Function) : Function :=
    { f with parameters := f.parameters.modify j change }
  have hfunctions : ((s.modifyParameter change i j).functions.findIdx? fun f => f.name == target.1)
      = s.functions.findIdx? fun f => f.name == target.1 :=
    findIdx?_modify (f := onFunction) (fun _ => rfl) s.functions i
  rw [first?, first?, hfunctions]
  cases s.functions.findIdx? fun f => f.name == target.1 with
  | none => rfl
  | some k =>
    have hparameters (f : Function) :
        ((f.parameters.modify j change).findIdx? fun p => p.name == target.2)
          = f.parameters.findIdx? fun p => p.name == target.2 :=
      findIdx?_modify (f := change) (fun p => by rw [hname]) f.parameters j
    simp only [Option.bind_eq_bind, Option.bind_some, Scope.modifyParameter, getElem?_modify_eq]
    split
    · next h =>
      subst h
      cases s.functions[k]? with
      | none => rfl
      | some f => simp only [Option.map_some, Option.bind_some, hparameters]
    · rfl

/-- Narrowing what a namespace declares is narrowing its first signatures of the loader's names. -/
theorem narrowScope_eq (s : Scope) :
    narrowScope s = (loaderFunctions.filterMap (first? · s)).foldl narrowAt s := by
  have htargets (targets : List (String × String)) (s : Scope) :
      { s with functions := targets.foldl narrowFirst s.functions }
        = (targets.filterMap (first? · s)).foldl narrowAt s := by
    induction targets generalizing s with
    | nil => rfl
    | cons target rest ih =>
      have hstep := ih { s with functions := narrowFirst s.functions target }
      rw [List.foldl_cons, hstep, narrowFirst_eq, List.filterMap_cons]
      cases first? target s with
      | none => rfl
      | some numbers =>
        simp only [Option.elim_some, List.foldl_cons, narrowAt,
          first?_modifyParameter name_narrowParameter]
  exact htargets loaderFunctions s

/-- The addresses of the first signatures of the loader's names. -/
def loaderAddresses (d : Description) : List ParameterAddress := loaderFunctions.filterMap (firstOf? d)

variable {library : String} {table : Symbol.Table}

/-- Narrowing the loader narrows the parameters at its addresses one after another. -/
theorem narrowLoader_eq (h : narrowsLoader library table = true) (d : Description) :
    narrowLoader library table d
      = (loaderAddresses d).foldl (fun d address => d.modifyParameter narrowParameter address) d := by
  rw [narrowLoader, if_pos h, Namespace.modifyAt_eq, loaderAddresses]
  cases hway : d.top.wayTo? loaderPath with
  | none =>
    have hnone : loaderFunctions.filterMap (firstOf? d) = [] :=
      List.filterMap_eq_nil_iff.mpr fun target _ => by simp [firstOf?, hway]
    rw [hnone]
    rfl
  | some way =>
    cases hs : d.top.scopeAt? way with
    | none =>
      have hnone : loaderFunctions.filterMap (firstOf? d) = [] :=
        List.filterMap_eq_nil_iff.mpr fun target _ => by simp [firstOf?, hway, hs]
      have hid : d.top.modifyScope narrowScope way = d.top.modifyScope id way :=
        Namespace.modifyScope_congr fun s hsome => absurd (hs.symm.trans hsome) (by simp)
      rw [hnone, Option.elim_some, hid, Namespace.modifyScope_id]
      rfl
    | some s =>
      have haddresses : loaderFunctions.filterMap (firstOf? d)
          = (loaderFunctions.filterMap (first? · s)).map fun numbers =>
            ⟨way, numbers.1, numbers.2⟩ := by
        rw [List.map_filterMap]
        refine List.filterMap_congr fun target _ => ?_
        simp only [firstOf?, hway, hs, Option.bind_eq_bind, Option.bind_some]
        cases first? target s <;> rfl
      -- All addresses share one way, so the changes of parameters are one change of the scope
      -- there.
      have hscope : d.top.modifyScope narrowScope way = d.top.modifyScope
          (fun t => (loaderFunctions.filterMap (first? · s)).foldl narrowAt t) way := by
        refine Namespace.modifyScope_congr fun t ht => ?_
        obtain rfl := Option.some.inj (hs.symm.trans ht)
        exact narrowScope_eq s
      rw [haddresses, List.foldl_map, Option.elim_some, hscope]
      exact (foldl_change (fun change d =>
          { d with top := Namespace.modifyScope change way d.top })
        (fun d => congrArg (fun top => { d with top := top }) (d.top.modifyScope_id way))
        (fun f g d => congrArg (fun top => { d with top := top })
          (Namespace.modifyScope_comp f g way d.top))
        (fun numbers s => narrowAt s numbers) _ d).symm

/-! ## The places that are narrowed -/

/-- The places with a narrower text at one address. -/
def placesAt (d : Description) (address : ParameterAddress) : List TypeAddress :=
  (d.parameterAt? address).elim [] fun p => (parameterPlaces p).map (TypeAddress.mk address)

/-- The places with a narrower text in the first signatures of the loader's names. -/
def loaderPlaces (d : Description) : List TypeAddress := (loaderAddresses d).flatMap (placesAt d)

/-- The wide places at an address are those of the parameter there whose type is wide. -/
theorem mem_placesAt_iff {d : Description} {address : ParameterAddress} {place : TypeAddress} :
    place ∈ placesAt d address ↔
      place.toParameterAddress = address ∧ ∃ t, d.typeAt? place = some t ∧ IsWide t.name := by
  obtain ⟨there, member⟩ := place
  simp only [placesAt, Description.typeAt?]
  cases hp : d.parameterAt? address with
  | none =>
    simp only [Option.elim_none, List.not_mem_nil, false_iff]
    rintro ⟨rfl, t, ht, -⟩
    simp [hp] at ht
  | some p =>
    simp only [Option.elim_some, List.mem_map, TypeAddress.mk.injEq, mem_parameterPlaces_iff]
    constructor
    · rintro ⟨_, hwide, rfl, rfl⟩
      exact ⟨rfl, by simpa [hp] using hwide⟩
    · rintro ⟨rfl, hwide⟩
      exact ⟨member, by simpa [hp] using hwide, rfl, rfl⟩

/-- The places that narrowing retypes are those of wide types in the parameters that the loader
targets address. -/
theorem mem_loaderPlaces_iff {d : Description} {place : TypeAddress} :
    place ∈ loaderPlaces d ↔
      (∃ target ∈ loaderFunctions, firstOf? d target = some place.toParameterAddress) ∧
        ∃ t, d.typeAt? place = some t ∧ IsWide t.name := by
  simp only [loaderPlaces, loaderAddresses, List.mem_flatMap, List.mem_filterMap, mem_placesAt_iff]
  constructor
  · rintro ⟨_, hfirst, rfl, hwide⟩
    exact ⟨hfirst, hwide⟩
  · rintro ⟨hfirst, hwide⟩
    exact ⟨_, hfirst, rfl, hwide⟩

/-- Signatures of different names have different addresses. -/
theorem nodup_loaderAddresses (d : Description) : (loaderAddresses d).Nodup := by
  refine List.Nodup.filterMap (fun target other address h hother => ?_) (by decide)
  have hsame := (namesAt?_of_firstOf? h).symm.trans (namesAt?_of_firstOf? hother)
  simpa [Prod.ext_iff] using hsame

/-- No place at an address is listed twice. -/
theorem nodup_placesAt (d : Description) (address : ParameterAddress) :
    (placesAt d address).Nodup := by
  rw [placesAt]
  cases d.parameterAt? address with
  | none => exact List.nodup_nil
  | some p => exact (nodup_parameterPlaces p).map fun _ _ h => (TypeAddress.mk.inj h).2

/-- No place is retyped twice. -/
theorem nodup_loaderPlaces (d : Description) : (loaderPlaces d).Nodup := by
  refine List.nodup_flatMap.mpr ⟨fun address _ => nodup_placesAt d address, ?_⟩
  refine (nodup_loaderAddresses d).imp fun {address other} hne place h hother => ?_
  exact hne ((mem_placesAt_iff.mp h).1.symm.trans (mem_placesAt_iff.mp hother).1)

/-- Narrowing one parameter is narrowing the type expressions in its type. -/
theorem modifyParameter_narrowParameter (d : Description) (address : ParameterAddress) :
    d.modifyParameter narrowParameter address
      = (placesAt d address).foldl (Description.retype narrowSimple) d := by
  have hfold (places : List (Option Nat)) :
      (places.map (TypeAddress.mk address)).foldl (Description.retype narrowSimple) d
        = d.modifyParameter
            (fun p => places.foldl (fun p place => p.modifyMember narrowSimple place) p) address := by
    rw [List.foldl_map]
    exact foldl_change (fun change d => d.modifyParameter change address)
      (fun d => d.modifyParameter_id address) (fun f g d => d.modifyParameter_comp f g address)
      (fun place => Parameter.modifyMember narrowSimple place) places d
  rw [placesAt]
  cases hp : d.parameterAt? address with
  | none =>
    have hid : d.modifyParameter narrowParameter address = d.modifyParameter id address :=
      Description.modifyParameter_congr fun p hsome => absurd (hp.symm.trans hsome) (by simp)
    rw [hid, Description.modifyParameter_id]
    rfl
  | some p =>
    rw [Option.elim_some, hfold]
    refine Description.modifyParameter_congr fun q hq => ?_
    obtain rfl := Option.some.inj (hp.symm.trans hq)
    exact narrowParameter_eq p

/-- Narrowing several parameters is narrowing the type expressions in their types. -/
theorem foldl_narrowParameter {addresses : List ParameterAddress} (h : addresses.Nodup)
    (d : Description) :
    addresses.foldl (fun d address => d.modifyParameter narrowParameter address) d
      = (addresses.flatMap (placesAt d)).foldl (Description.retype narrowSimple) d := by
  induction addresses generalizing d with
  | nil => rfl
  | cons address rest ih =>
    obtain ⟨hnot, hrest⟩ := List.nodup_cons.mp h
    have hplaces : rest.flatMap (placesAt (d.modifyParameter narrowParameter address))
        = rest.flatMap (placesAt d) := by
      refine List.flatMap_congr fun other hother => ?_
      have hne : other ≠ address := fun heq => hnot (heq ▸ hother)
      rw [placesAt, Description.parameterAt?_modifyParameter, if_neg hne, placesAt]
    rw [List.foldl_cons, ih hrest, hplaces, List.flatMap_cons, List.foldl_append,
      modifyParameter_narrowParameter]

/-- Narrowing the loader retypes its places one after another. -/
theorem narrowLoader_eq_foldl (h : narrowsLoader library table = true) (d : Description) :
    narrowLoader library table d = (loaderPlaces d).foldl (Description.retype narrowSimple) d := by
  rw [narrowLoader_eq h, foldl_narrowParameter (nodup_loaderAddresses d), loaderPlaces]

/-! ## Their number -/

/-- The places at an address are as many as narrowing the parameter there counts changes. -/
theorem length_placesAt (d : Description) (address : ParameterAddress) :
    (placesAt d address).length = (d.parameterAt? address).elim 0 parameterNarrowings := by
  rw [placesAt]
  cases d.parameterAt? address with
  | none => rfl
  | some p => exact (List.length_map _).trans (length_parameterPlaces p)

/-- What is narrowed for a name is what is narrowed at the address of its first signature. -/
theorem targetNarrowings_eq {d : Description} {way : List Nat} {s : Scope}
    (hway : d.top.wayTo? loaderPath = some way) (hs : d.top.scopeAt? way = some s)
    (target : String × String) :
    targetNarrowings s.functions target
      = (firstOf? d target).elim 0 fun address => (placesAt d address).length := by
  simp only [length_placesAt, firstOf?, hway, hs, targetNarrowings, functionNarrowings, first?,
    List.find?_eq_bind_findIdx?_getElem?, Option.bind_eq_bind, Option.bind_some]
  cases hi : s.functions.findIdx? fun f => f.name == target.1 with
  | none => rfl
  | some i =>
    cases hf : s.functions[i]? with
    | none => simp [hf]
    | some f =>
      cases hj : f.parameters.findIdx? fun p => p.name == target.2 with
      | none => simp [hf, hj]
      | some j =>
        simp only [hf, hj, Description.parameterAt?, hs, Scope.parameter?, Option.bind_some,
          Option.bind_eq_bind, Option.elim_some, Option.pure_def]
        cases f.parameters[j]? <;> rfl

/-- The changes counted are as many as there are places to retype. -/
theorem loaderNarrowings_eq (h : narrowsLoader library table = true) (d : Description) :
    loaderNarrowings library table d = (loaderPlaces d).length := by
  have hlength (targets : List (String × String)) :
      ((targets.filterMap (firstOf? d)).flatMap (placesAt d)).length
        = (targets.map fun target => (firstOf? d target).elim 0 fun address =>
            (placesAt d address).length).foldr (· + ·) 0 := by
    induction targets with
    | nil => rfl
    | cons target rest ih =>
      rw [List.map_cons, List.foldr_cons, ← ih, List.filterMap_cons]
      cases firstOf? d target with
      | none => exact (Nat.zero_add _).symm
      | some address => rw [List.flatMap_cons, List.length_append, Option.elim_some]
  rw [loaderNarrowings, if_pos h, Namespace.find?_eq_at?, loaderPlaces, loaderAddresses, hlength]
  cases hway : d.top.wayTo? loaderPath with
  | none => simp [firstOf?, hway, loaderFunctions]
  | some way =>
    cases hat : d.top.at? way with
    | none => simp [firstOf?, hway, hat, Namespace.scopeAt?, loaderFunctions]
    | some ns =>
      have hs : d.top.scopeAt? way = some ns.scope := congrArg (Option.map Namespace.scope) hat
      simp only [← targetNarrowings_eq hway hs, Option.bind_some, hat]
      rfl

/-! ## What narrowing does -/

/-- The loader is narrowed exactly for the library `sap.ui.core` with `sap.ui` listed as a
namespace. -/
theorem narrowsLoader_iff : narrowsLoader library table = true ↔
    library = "sap.ui.core" ∧ ∃ symbol, table.get? "sap.ui" = some symbol ∧
      symbol.kind = .nameSpace := by
  have hpath : loaderNamespace = "sap.ui" := rfl
  simp [narrowsLoader, coreLibrary, hpath, Option.any_eq_true]

/-- The path of the loader namespace is its name cut at the dot. -/
theorem segments_loader : Text.segments '.' "sap.ui" = loaderPath := by decide

/-- What the dotted path of the loader finds is the namespace at the address. -/
theorem findDotted?_of_firstOf? {d : Description} {target : String × String}
    {address : ParameterAddress} (h : firstOf? d target = some address) :
    d.top.findDotted? "sap.ui" = d.top.at? address.way := by
  rw [Namespace.findDotted?, segments_loader, Namespace.find?_eq_at?,
    (firstOf?_eq_some_iff.mp h).1]
  rfl

/-- A type expression at an address is narrowed if it is one of these places. -/
theorem typeAt?_narrowLoader (h : narrowsLoader library table = true) (d : Description)
    (place : TypeAddress) :
    (narrowLoader library table d).typeAt? place
      = if place ∈ loaderPlaces d then (d.typeAt? place).map narrowSimple else d.typeAt? place := by
  rw [narrowLoader_eq_foldl h]
  exact get_foldl_of_nodup Description.typeAt?
    (fun address there d => d.typeAt?_retype narrowSimple address there) (nodup_loaderPlaces d) d place

/-- Narrowing the loader renames no function and no parameter. -/
theorem namesAt?_narrowLoader (library : String) (table : Symbol.Table) (d : Description)
    (address : ParameterAddress) :
    (narrowLoader library table d).namesAt? address = d.namesAt? address := by
  cases h : narrowsLoader library table with
  | false => rw [narrowLoader, if_neg (by simp [h])]
  | true =>
    rw [narrowLoader_eq_foldl h]
    generalize loaderPlaces d = places
    induction places generalizing d with
    | nil => rfl
    | cons place rest ih => rw [List.foldl_cons, ih, Description.namesAt?_retype]

/-- Narrowing the loader's signatures changes type expressions, each once, and nothing else: those
with a text that has a narrower one which stand in the first parameter of a name of the first
function of a name of the namespace that the dotted path finds, in the library of the loader if its
table has this namespace. Each gets the text that goes with it and is not to be corrected further.
The count is their number. In another library, without the symbol or without the namespace
everything stays as it is. -/
theorem narrows_first_signatures (library : String) (table : Symbol.Table) (d : Description) :
    ∃ places : List TypeAddress, places.Nodup ∧
      narrowLoader library table d = places.foldl (Description.retype narrowSimple) d ∧
      loaderNarrowings library table d = places.length ∧
      (∀ place, place ∈ places ↔
        (library = "sap.ui.core" ∧ ∃ symbol, table.get? "sap.ui" = some symbol ∧
          symbol.kind = .nameSpace) ∧
        (∃ target ∈ [("define", "aDependencies"), ("require", "vDependencies")],
          firstOf? d target = some place.toParameterAddress) ∧
        ∃ type, d.typeAt? place = some type ∧ (type.name = "string" ∨ type.name = "string[]")) ∧
      (∀ place type, d.typeAt? place = some type →
        (narrowLoader library table d).typeAt? place = some (if place ∈ places then { type with
          name := if type.name = "string" then "keyof IUI5DefineDependencyNames"
            else "(keyof IUI5DefineDependencyNames)[]"
          skipsCorrection := true } else type)) ∧
      (∀ place ∈ places, d.top.findDotted? "sap.ui" = d.top.at? place.way) ∧
      ((library ≠ "sap.ui.core" ∨ (∀ symbol, table.get? "sap.ui" = some symbol →
          symbol.kind ≠ .nameSpace) ∨ d.top.findDotted? "sap.ui" = none) →
        narrowLoader library table d = d ∧ loaderNarrowings library table d = 0) := by
  cases h : narrowsLoader library table with
  | false =>
    have hnot : ¬ narrowsLoader library table = true := by simp [h]
    have hsame : narrowLoader library table d = d := by rw [narrowLoader, if_neg hnot]
    have hcount : loaderNarrowings library table d = 0 := by rw [loaderNarrowings, if_neg hnot]
    rw [narrowsLoader_iff] at hnot
    refine ⟨[], List.nodup_nil, hsame, hcount, fun place => ?_, fun place type htype => ?_,
      fun _ hmem => absurd hmem List.not_mem_nil, fun _ => ⟨hsame, hcount⟩⟩
    · exact iff_of_false List.not_mem_nil fun hboth => hnot hboth.1
    · rw [hsame, htype, if_neg List.not_mem_nil]
  | true =>
    have hcore := narrowsLoader_iff.mp h
    refine ⟨loaderPlaces d, nodup_loaderPlaces d, narrowLoader_eq_foldl h d,
      loaderNarrowings_eq h d, fun place => ?_, fun place type htype => ?_, fun place hmem => ?_,
      fun hno => ?_⟩
    · exact mem_loaderPlaces_iff.trans (and_iff_right hcore).symm
    · rw [typeAt?_narrowLoader h, htype]
      split
      · next hmem =>
        obtain ⟨-, t, ht, hwide⟩ := mem_loaderPlaces_iff.mp hmem
        obtain rfl := Option.some.inj (htype.symm.trans ht)
        exact congrArg some (narrowSimple_eq type hwide)
      · rfl
    · obtain ⟨⟨target, -, hfirst⟩, -⟩ := mem_loaderPlaces_iff.mp hmem
      exact findDotted?_of_firstOf? hfirst
    · have hnone : d.top.find? loaderPath = none := by
        rw [Namespace.findDotted?, segments_loader] at hno
        obtain ⟨hlibrary, symbol, hsymbol, hkind⟩ := hcore
        exact (hno.resolve_left (not_not_intro hlibrary)).resolve_left
          fun hother => hother symbol hsymbol hkind
      have hcount : loaderNarrowings library table d = 0 := by
        rw [loaderNarrowings, if_pos h, hnone]
      exact ⟨narrowLoader_eq_self library table hcount, hcount⟩

/-- The core library with two signatures of one function. -/
def overloaded : Description :=
  let parameter (name type : String) : Parameter :=
    .mk { (default : ParameterInfo) with name := name } (.declared (.simple ⟨type, false, .unset⟩))
  let define (parameters : List Parameter) : Function :=
    { (default : Function) with name := "define", parameters := parameters }
  let ui : Namespace := .plain "ui" [] []
  .ofTop (.plain "" [] [.plain "sap" [] [{ ui with scope := { ui.scope with
    functions := [define [parameter "aDependencies" "string[]"],
      define [parameter "sModuleName" "string", parameter "aDependencies" "string[]"]] } }]])

/-- With two functions of one name, narrowing retypes the parameter of the first and leaves that of
the second. -/
theorem narrows_first_signatures_overloaded :
    let table := Symbol.Table.ofDescription coreLibrary overloaded
    let narrow := narrowLoader coreLibrary table overloaded
    narrow.typeAt? ⟨⟨[0, 0], 0, 0⟩, none⟩
        = some ⟨"(keyof IUI5DefineDependencyNames)[]", true, .unset⟩ ∧
      narrow.typeAt? ⟨⟨[0, 0], 1, 1⟩, none⟩ = some ⟨"string[]", false, .unset⟩ ∧
      narrowLoader "app" table overloaded = overloaded := by
  intro table narrow
  obtain ⟨places, -, -, -, hmem, htype, -⟩ := narrows_first_signatures coreLibrary table overloaded
  obtain ⟨-, -, -, -, -, -, -, hsame⟩ := narrows_first_signatures "app" table overloaded
  have hin : (⟨⟨[0, 0], 0, 0⟩, none⟩ : TypeAddress) ∈ places :=
    (hmem _).mpr ⟨⟨rfl, _, rfl, by decide⟩, ⟨_, List.mem_cons_self, by decide +kernel⟩,
      ⟨"string[]", false, .unset⟩, by decide +kernel, .inr rfl⟩
  have hout : (⟨⟨[0, 0], 1, 1⟩, none⟩ : TypeAddress) ∉ places := by
    rw [hmem]
    decide +kernel
  refine ⟨?_, ?_, (hsame (.inl (by decide))).1⟩
  · rw [htype _ ⟨"string[]", false, .unset⟩ (by decide +kernel), if_pos hin]
    rfl
  · rw [htype _ ⟨"string[]", false, .unset⟩ (by decide +kernel), if_neg hout]

/-- The types of the loader's dependency lists have no text that has a narrower one, wherever a
namespace at the loader's path has a function and a parameter of these names. -/
def IsNarrow (d : Description) : Prop :=
  ∀ target ∈ loaderFunctions, ∀ place : TypeAddress,
    d.namesAt? place.toParameterAddress = some ⟨"sap.ui", target.1, target.2⟩ →
      ∀ type, d.typeAt? place = some type → ¬ IsWide type.name

/-- The corrected description of the loader's library is narrow if and only if all types that were
to be narrowed stand in the first signature of a name, in the first namespace at the path. -/
theorem isNarrow_correct_iff (d : Description) {symbol : Symbol}
    (hsymbol : (Symbol.Table.ofDescription coreLibrary d).get? "sap.ui" = some symbol)
    (hkind : symbol.kind = .nameSpace) :
    IsNarrow (correct coreLibrary (Symbol.Table.ofDescription coreLibrary d) d).1 ↔
      ∀ target ∈ loaderFunctions, ∀ place : TypeAddress,
        d.visible.namesAt? place.toParameterAddress = some ⟨"sap.ui", target.1, target.2⟩ →
          ∀ type, d.visible.typeAt? place = some type → IsWide type.name →
            firstOf? d.visible target = some place.toParameterAddress := by
  have h : narrowsLoader coreLibrary (Symbol.Table.ofDescription coreLibrary d) = true :=
    narrowsLoader_iff.mpr ⟨rfl, symbol, hsymbol, hkind⟩
  show IsNarrow (narrowLoader _ _ d.visible) ↔ _
  refine forall₂_congr fun target htarget => forall_congr' fun place => ?_
  rw [namesAt?_narrowLoader, typeAt?_narrowLoader h]
  refine forall_congr' fun hnames => ?_
  have hmem : place ∈ loaderPlaces d.visible ↔
      firstOf? d.visible target = some place.toParameterAddress ∧
        ∃ type, d.visible.typeAt? place = some type ∧ IsWide type.name := by
    refine mem_loaderPlaces_iff.trans (and_congr_left fun _ => ⟨?_, fun hfirst =>
      ⟨target, htarget, hfirst⟩⟩)
    rintro ⟨other, -, hother⟩
    have hsame := (namesAt?_of_firstOf? hother).symm.trans hnames
    have hboth : loaderNamespace = "sap.ui" ∧ other = target := by
      simpa [Prod.ext_iff] using hsame
    exact hboth.2 ▸ hother
  constructor
  · intro hnarrow type htype hwide
    by_contra hfirst
    rw [if_neg fun hin => hfirst (hmem.mp hin).1] at hnarrow
    exact hnarrow type htype hwide
  · intro hfirst type htype
    split at htype
    · obtain ⟨raw, -, rfl⟩ := Option.map_eq_some_iff.mp htype
      exact not_isWide_narrowSimple raw
    · next hout =>
      exact fun hwide => hout (hmem.mpr ⟨hfirst type htype hwide, type, htype, hwide⟩)

/-- With two functions of one name, the corrected description is not narrow: a wide type stands in
the second signature. -/
theorem isNarrow_correct_iff_overloaded :
    let table := Symbol.Table.ofDescription coreLibrary overloaded
    (∃ symbol, table.get? "sap.ui" = some symbol ∧ symbol.kind = .nameSpace) ∧
      ¬ IsNarrow (correct coreLibrary table overloaded).1 := by
  intro table
  refine ⟨⟨_, rfl, by decide⟩, ?_⟩
  rw [isNarrow_correct_iff overloaded rfl (by decide)]
  intro hfirst
  have hsecond := hfirst ("define", "aDependencies") List.mem_cons_self ⟨⟨[0, 0], 1, 1⟩, none⟩
    (by decide +kernel) ⟨"string[]", false, .unset⟩ (by decide +kernel) (.inr rfl)
  exact absurd hsecond (by decide +kernel)

/-- With two functions of one name, the corrected description still has a wide loader parameter. -/
theorem not_isNarrow_overloaded :
    let table := Symbol.Table.ofDescription coreLibrary overloaded
    (table.get? "sap.ui").map (fun symbol => symbol.kind) = some .nameSpace ∧
      ¬ IsNarrow (correct coreLibrary table overloaded).1 := by
  refine ⟨by decide, fun hnarrow => ?_⟩
  exact hnarrow ("define", "aDependencies") List.mem_cons_self ⟨⟨[0, 0], 1, 1⟩, none⟩
    (by decide +kernel) ⟨"string[]", false, .unset⟩ (by decide +kernel) (.inr rfl)

end Ambient.Correction
