import Ambient.Proofs.Link.Nodes

/-!
# Linking changes links only

A description without its links is what two descriptions have in common that differ only in where
their nodes stand in an arena. Linking keeps it, and depends on nothing else: whatever links the
nodes carried before, the description and the arena come out the same. The entries of an option
object are no nodes, and are kept with everything in them.
-/

namespace Ambient

namespace Api

/-- The type expression without its link. -/
def SimpleType.unlinked (t : SimpleType) : SimpleType := { t with link := .unset }

/-- The declared type without the links in it. -/
def DeclaredType.unlinked : DeclaredType → DeclaredType
  | .simple t => .simple t.unlinked
  | .union members _ => .union (members.map SimpleType.unlinked) .unset

/-- The parameter without its link and those of its declared type. -/
def Parameter.unlinked : Parameter → Parameter
  | .mk info (.declared type) => .mk { info with link := .unset } (.declared type.unlinked)
  | .mk info other => .mk { info with link := .unset } other

/-- The variable without the links in it. -/
def Variable.unlinked (v : Variable) : Variable :=
  { v with type := v.type.map DeclaredType.unlinked, link := .unset }

/-- The outcome without the links of its type. -/
def Outcome.unlinked (o : Outcome) : Outcome :=
  { o with type := o.type.map DeclaredType.unlinked }

/-- The function without the links in it. -/
def Function.unlinked (f : Function) : Function :=
  { f with
    parameters := f.parameters.map Parameter.unlinked
    returns := f.returns.map Outcome.unlinked
    throws := f.throws.map Outcome.unlinked
    link := .unset }

/-- The class without the links in it. -/
def Class.unlinked (c : Class) : Class :=
  { c with
    constructors := c.constructors.map Function.unlinked
    fields := c.fields.map Variable.unlinked
    methods := c.methods.map Function.unlinked
    link := .unset }

/-- The interface without the links in it. -/
def Interface.unlinked (i : Interface) : Interface :=
  { i with
    methods := i.methods.map Function.unlinked
    properties := i.properties.map Variable.unlinked
    link := .unset }

/-- The enum without the links in it. -/
def Enum.unlinked (e : Enum) : Enum :=
  { e with values := e.values.map Variable.unlinked, link := .unset }

/-- What a namespace declares itself, without the links in it. -/
def Scope.unlinked (s : Scope) : Scope :=
  { s with
    constants := s.constants.map Variable.unlinked
    functions := s.functions.map Function.unlinked
    classes := s.classes.map Class.unlinked
    interfaces := s.interfaces.map Interface.unlinked
    enums := s.enums.map Enum.unlinked
    link := .unset }

mutual

/-- The namespace without the links in it. -/
def Namespace.unlinked : Namespace → Namespace
  | ⟨scope, nested⟩ => ⟨scope.unlinked, Namespace.unlinkedAll nested⟩

/-- The namespaces of a list without the links in them. -/
def Namespace.unlinkedAll : List Namespace → List Namespace
  | [] => []
  | ns :: rest => Namespace.unlinked ns :: Namespace.unlinkedAll rest

end

/-- The description without its links. -/
def Description.unlinked (d : Description) : Description :=
  { d with top := d.top.unlinked, link := .unset }

/-- Namespaces in a row lose their links one by one. -/
theorem Namespace.unlinkedAll_eq (nested : List Namespace) :
    Namespace.unlinkedAll nested = nested.map Namespace.unlinked := by
  induction nested with
  | nil => rfl
  | cons ns rest ih => rw [Namespace.unlinkedAll, ih, List.map_cons]

end Api

namespace Link

open Api

/-! ## What linking keeps -/

section Kept

variable (parent : Option Nat)

/-- Linking a declared type keeps it up to links. -/
theorem unlinked_declaredType (t : DeclaredType) (a : Arena) :
    ((declaredType parent t).run a).1.unlinked = t.unlinked := by
  cases t with
  | simple t => rfl
  | union members link =>
    have hmembers := map_mapM_run (simpleType (some a.size)) SimpleType.unlinked
      SimpleType.unlinked members fun _ _ _ => rfl
    exact congrArg (DeclaredType.union · .unset) (hmembers _)

/-- Linking a type that may be missing keeps it up to links. -/
theorem unlinked_typeOf (t : Option DeclaredType) (a : Arena) :
    ((typeOf parent t).run a).1.map DeclaredType.unlinked = t.map DeclaredType.unlinked := by
  cases t with
  | none => rfl
  | some t => exact congrArg some (unlinked_declaredType parent t a)

/-- Linking a parameter keeps it up to links. -/
theorem unlinked_parameter (q : Parameter) (a : Arena) :
    ((parameter parent q).run a).1.unlinked = q.unlinked := by
  obtain ⟨info, type⟩ := q
  cases type with
  | unspecified => rfl
  | declared type =>
    exact congrArg (fun type => Parameter.mk { info with link := .unset } (.declared type))
      (unlinked_declaredType _ type _)
  | shape entries => rfl

/-- Linking an outcome keeps it up to links. -/
theorem unlinked_outcome (o : Outcome) (a : Arena) :
    ((outcome parent o).run a).1.unlinked = o.unlinked :=
  congrArg (fun type => ({ o with type := type } : Outcome)) (unlinked_typeOf parent o.type a)

/-- Linking a variable keeps it up to links. -/
theorem unlinked_variableDesc (v : Variable) (a : Arena) :
    ((variableDesc parent v).run a).1.unlinked = v.unlinked :=
  congrArg (fun type => ({ v with type := type, link := .unset } : Variable))
    (unlinked_typeOf _ v.type _)

/-- Linking a function keeps it up to links. -/
theorem unlinked_functionDesc (f : Function) (a : Arena) :
    ((functionDesc parent f).run a).1.unlinked = f.unlinked := by
  obtain ⟨kind, name, isStatic, overwrites, parameters, returns, throws, visibility, doc, _⟩ := f
  have hparameters := map_mapM_run (parameter (some a.size)) Parameter.unlinked
    Parameter.unlinked parameters fun q _ => unlinked_parameter _ q
  have hthrows := map_mapM_run (outcome (some a.size)) Outcome.unlinked
    Outcome.unlinked throws fun o _ => unlinked_outcome _ o
  let rebuilt (parameters : List Parameter) (returns : Option Outcome) (throws : List Outcome) :
      Function :=
    ⟨kind, name, isStatic, overwrites, parameters, returns, throws, visibility, doc, .unset⟩
  cases returns with
  | none =>
    show rebuilt _ none _ = rebuilt _ none _
    exact congr (congrArg (rebuilt · none) (hparameters _)) (hthrows _)
  | some o =>
    show rebuilt _ (some _) _ = rebuilt _ (some _) _
    exact congr (congr (congrArg rebuilt (hparameters _)) (congrArg some (unlinked_outcome _ o _)))
      (hthrows _)

/-- Linking variables in a row keeps each of them up to links. -/
theorem map_unlinked_variables (vs : List Variable) (a : Arena) :
    ((vs.mapM (variableDesc parent)).run a).1.map Variable.unlinked
      = vs.map Variable.unlinked :=
  map_mapM_run _ _ _ vs (fun v _ => unlinked_variableDesc parent v) a

/-- Linking functions in a row keeps each of them up to links. -/
theorem map_unlinked_functions (fs : List Function) (a : Arena) :
    ((fs.mapM (functionDesc parent)).run a).1.map Function.unlinked
      = fs.map Function.unlinked :=
  map_mapM_run _ _ _ fs (fun f _ => unlinked_functionDesc parent f) a

/-- Linking a class keeps it up to links. -/
theorem unlinked_classType (c : Api.Class) (a : Arena) :
    ((classType parent c).run a).1.unlinked = c.unlinked := by
  let rebuilt (constructors : List Function) (fields : List Variable) (methods : List Function) :
      Api.Class :=
    { c with constructors := constructors, fields := fields, methods := methods, link := .unset }
  show rebuilt _ _ _ = rebuilt _ _ _
  exact congr (congr (congrArg rebuilt (map_unlinked_functions _ c.constructors _))
    (map_unlinked_variables _ c.fields _)) (map_unlinked_functions _ c.methods _)

/-- Linking an interface keeps it up to links. -/
theorem unlinked_interfaceType (i : Interface) (a : Arena) :
    ((interfaceType parent i).run a).1.unlinked = i.unlinked := by
  let rebuilt (properties : List Variable) (methods : List Function) : Interface :=
    { i with properties := properties, methods := methods, link := .unset }
  show rebuilt _ _ = rebuilt _ _
  exact congr (congrArg rebuilt (map_unlinked_variables _ i.properties _))
    (map_unlinked_functions _ i.methods _)

/-- Linking an enum keeps it up to links. -/
theorem unlinked_enumType (e : Enum) (a : Arena) :
    ((enumType parent e).run a).1.unlinked = e.unlinked :=
  congrArg (fun values => ({ e with values := values, link := .unset } : Enum))
    (map_unlinked_variables _ e.values _)

/-- Linking what a scope contains keeps the scope up to links, whatever link it is given itself. -/
theorem unlinked_scopeOf (link : Api.Link) (s : Scope) (a : Arena) :
    ((scopeOf link s).run a).1.unlinked = s.unlinked := by
  have hclasses := map_mapM_run (classType link.id) Class.unlinked Class.unlinked s.classes
    fun c _ => unlinked_classType _ c
  have hinterfaces := map_mapM_run (interfaceType link.id) Interface.unlinked Interface.unlinked
    s.interfaces fun i _ => unlinked_interfaceType _ i
  have henums := map_mapM_run (enumType link.id) Enum.unlinked Enum.unlinked s.enums
    fun e _ => unlinked_enumType _ e
  let rebuilt (constants : List Variable) (functions : List Function) (classes : List Api.Class)
      (interfaces : List Interface) (enums : List Enum) : Scope :=
    { s with
      constants := constants, functions := functions, classes := classes,
      interfaces := interfaces, enums := enums, link := .unset }
  show rebuilt _ _ _ _ _ = rebuilt _ _ _ _ _
  exact congr (congr (congr (congr (congrArg rebuilt (map_unlinked_variables _ s.constants _))
    (map_unlinked_functions _ s.functions _)) (hclasses _)) (hinterfaces _)) (henums _)

/-- Linking a namespace keeps it and what is nested in it up to links. -/
theorem unlinked_namespaceOf (ns : Namespace) :
    ∀ (parent : Option Nat) (a : Arena),
      ((namespaceOf parent ns).run a).1.unlinked = ns.unlinked := by
  induction ns using Namespace.induction with
  | step scope nested ih =>
    intro parent a
    have hnested (owner : Option Nat) (a : Arena) :
        Namespace.unlinkedAll ((namespacesOf owner nested).run a).1
          = Namespace.unlinkedAll nested := by
      rw [namespacesOf_eq_mapM, Namespace.unlinkedAll_eq, Namespace.unlinkedAll_eq]
      exact map_mapM_run _ _ _ nested (fun child hchild => ih child hchild owner) a
    show Namespace.mk (Scope.unlinked _) (Namespace.unlinkedAll _)
      = Namespace.mk scope.unlinked (Namespace.unlinkedAll nested)
    exact congr (congrArg Namespace.mk (unlinked_scopeOf _ scope _)) (hnested _ _)

/-- Linking a description keeps everything but its links. -/
theorem unlinked_attach (d : Description) : (attach d).1.unlinked = d.unlinked :=
  congrArg (fun top => ({ d with top := top, link := .unset } : Description))
    (unlinked_namespaceOf d.top _ _)

end Kept

/-! ## What linking depends on -/

section Independent

variable (parent : Option Nat)

/-- Linking a declared type does not look at the links it carries. -/
theorem declaredType_unlinked (t : DeclaredType) :
    declaredType parent t.unlinked = declaredType parent t := by
  cases t with
  | simple t => rfl
  | union members link =>
    simp only [DeclaredType.unlinked, declaredType, List.mapM_map]
    rfl

/-- Linking a type that may be missing does not look at the links it carries. -/
theorem typeOf_unlinked (t : Option DeclaredType) :
    typeOf parent (t.map DeclaredType.unlinked) = typeOf parent t := by
  cases t with
  | none => rfl
  | some t => simp only [Option.map_some, typeOf, declaredType_unlinked]

/-- Linking a parameter does not look at the links it carries. -/
theorem parameter_unlinked (q : Parameter) :
    parameter parent q.unlinked = parameter parent q := by
  obtain ⟨info, type⟩ := q
  cases type with
  | unspecified => rfl
  | declared type => simp only [Parameter.unlinked, parameter, declaredType_unlinked]
  | shape entries => rfl

/-- Linking an outcome does not look at the links it carries. -/
theorem outcome_unlinked (o : Outcome) : outcome parent o.unlinked = outcome parent o := by
  simp only [Outcome.unlinked, outcome, typeOf_unlinked]

/-- Linking a variable does not look at the links it carries. -/
theorem variableDesc_unlinked (v : Variable) :
    variableDesc parent v.unlinked = variableDesc parent v := by
  simp only [Variable.unlinked, variableDesc, typeOf_unlinked]

/-- Linking a function does not look at the links it carries. -/
theorem functionDesc_unlinked (f : Function) :
    functionDesc parent f.unlinked = functionDesc parent f := by
  obtain ⟨kind, name, isStatic, overwrites, parameters, returns, throws, visibility, doc, _⟩ := f
  cases returns <;>
    simp only [Function.unlinked, functionDesc, List.mapM_map, Function.comp_def, Option.map_none,
      Option.map_some, parameter_unlinked, outcome_unlinked]

/-- Linking a class does not look at the links it carries. -/
theorem classType_unlinked (c : Api.Class) :
    classType parent c.unlinked = classType parent c := by
  simp only [Class.unlinked, classType, List.mapM_map, Function.comp_def, functionDesc_unlinked,
    variableDesc_unlinked]

/-- Linking an interface does not look at the links it carries. -/
theorem interfaceType_unlinked (i : Interface) :
    interfaceType parent i.unlinked = interfaceType parent i := by
  simp only [Interface.unlinked, interfaceType, List.mapM_map, Function.comp_def,
    functionDesc_unlinked, variableDesc_unlinked]

/-- Linking an enum does not look at the links it carries. -/
theorem enumType_unlinked (e : Enum) : enumType parent e.unlinked = enumType parent e := by
  simp only [Enum.unlinked, enumType, List.mapM_map, Function.comp_def, variableDesc_unlinked]

/-- Linking what a scope contains does not look at the links it carries. -/
theorem scopeOf_unlinked (link : Api.Link) (s : Scope) :
    scopeOf link s.unlinked = scopeOf link s := by
  simp only [Scope.unlinked, scopeOf, List.mapM_map, Function.comp_def, variableDesc_unlinked,
    functionDesc_unlinked, classType_unlinked, interfaceType_unlinked, enumType_unlinked]

/-- Linking a namespace does not look at the links that it and what is nested in it carry. -/
theorem namespaceOf_unlinked (ns : Namespace) :
    ∀ parent : Option Nat, namespaceOf parent ns.unlinked = namespaceOf parent ns := by
  induction ns using Namespace.induction with
  | step scope nested ih =>
    intro parent
    have hnested (owner : Option Nat) :
        namespacesOf owner (Namespace.unlinkedAll nested) = namespacesOf owner nested := by
      induction nested with
      | nil => rfl
      | cons child rest ihRest =>
        obtain ⟨hchild, hrest⟩ := List.forall_mem_cons.mp ih
        rw [Namespace.unlinkedAll, namespacesOf, namespacesOf, hchild, ihRest hrest]
    simp only [Namespace.unlinked, namespaceOf, hnested, scopeOf_unlinked]
    rfl

/-- The links that a description carried before play no part when it is linked. -/
theorem attach_unlinked (d : Description) : attach d.unlinked = attach d := by
  simp only [attach, Description.unlinked, namespaceOf_unlinked]

/-- Linking a linked description again changes nothing. -/
theorem attach_attach (d : Description) : attach (attach d).1 = attach d := by
  rw [← attach_unlinked (attach d).1, unlinked_attach, attach_unlinked]

end Independent

end Link

end Ambient
