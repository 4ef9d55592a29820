import Ambient.Proofs.Api.Validity

/-!
# Trees that are accepted

What a check of a description says of its nodes, however deep they stand: each has the kind of the
collection that it is in, and a name. The top-level namespace needs no name. Of a constructor only
the parameters are looked at, so that its own kind is never compared with anything.
-/

namespace Ambient.Api

/-! ## Parameters -/

/-- A parameter is another one, or stands in its option object at any depth. -/
inductive Parameter.Within : Parameter → Parameter → Prop
  | self (p : Parameter) : Within p p
  | entry {info : ParameterInfo} {entries : List (String × Parameter)} {key : String}
      {entry p : Parameter} : (key, entry) ∈ entries → Within entry p →
      Within (.mk info (.shape entries)) p

/-- A parameter may leave its kind out, but not its name. -/
def ParameterInfo.IsRight (info : ParameterInfo) : Prop :=
  (∀ kind ∈ info.kind, kind = .parameter) ∧ info.name ≠ ""

/-- A parameter and all entries of its option object are right, at any depth. -/
def Parameter.IsRight (p : Parameter) : Prop := ∀ q, p.Within q → q.info.IsRight

/-- A parameter without an option object is right exactly if it is so by itself. -/
theorem Parameter.isRight_declared {info : ParameterInfo} {type : ParameterType}
    (h : ∀ entries, type ≠ .shape entries) :
    (Parameter.mk info type).IsRight ↔ info.IsRight := by
  refine ⟨fun hall => hall _ (.self _), fun hinfo q hq => ?_⟩
  cases hq with
  | self => exact hinfo
  | entry => exact absurd rfl (h _)

/-- A parameter with an option object is right exactly if it is so by itself and all entries are
right. -/
theorem Parameter.isRight_shape {info : ParameterInfo} {entries : List (String × Parameter)} :
    (Parameter.mk info (.shape entries)).IsRight ↔
      info.IsRight ∧ ∀ entry ∈ entries, entry.2.IsRight := by
  constructor
  · intro hall
    exact ⟨hall _ (.self _), fun entry hentry q hq => hall q (.entry hentry hq)⟩
  · rintro ⟨hinfo, hentries⟩ q hq
    cases hq with
    | self => exact hinfo
    | entry hmem hwithin => exact hentries _ hmem q hwithin

/-! ## Nodes -/

/-- A node has the kind of its collection, and a name. -/
def IsNode (expected found : Kind) (name : String) : Prop := found = expected ∧ name ≠ ""

/-- A variable, field, property or enum value has its kind and a name. -/
def Variable.IsRight (v : Variable) : Prop := IsNode .variableDesc v.kind v.name

/-- The parameters of a function are right. -/
def Function.HasRightParameters (f : Function) : Prop := ∀ p ∈ f.parameters, p.IsRight

/-- A function or method has its kind, a name and right parameters. -/
def Function.IsRight (f : Function) : Prop :=
  IsNode .functionDesc f.kind f.name ∧ f.HasRightParameters

/-- A class is right if it and its members are; of constructors the parameters count. -/
structure Class.IsRight (c : Class) : Prop where
  node : IsNode .classType c.kind c.name
  constructors : ∀ f ∈ c.constructors, f.HasRightParameters
  fields : ∀ v ∈ c.fields, v.IsRight
  methods : ∀ f ∈ c.methods, f.IsRight

/-- An interface is right if it and its members are. -/
structure Interface.IsRight (i : Interface) : Prop where
  node : IsNode .interfaceType i.kind i.name
  properties : ∀ v ∈ i.properties, v.IsRight
  methods : ∀ f ∈ i.methods, f.IsRight

/-- An enum is right if it and its values are. -/
structure Enum.IsRight (e : Enum) : Prop where
  node : IsNode .enumType e.kind e.name
  values : ∀ v ∈ e.values, v.IsRight

/-- What a namespace declares itself is right. -/
structure Scope.IsRight (s : Scope) : Prop where
  constants : ∀ v ∈ s.constants, v.IsRight
  functions : ∀ f ∈ s.functions, f.IsRight
  classes : ∀ c ∈ s.classes, c.IsRight
  interfaces : ∀ i ∈ s.interfaces, i.IsRight
  enums : ∀ e ∈ s.enums, e.IsRight

/-- A description is right: every node of it has the kind of the collection it stands in, and every
node below the top level has a name, where constructors are exempt from both. -/
structure Description.IsRight (d : Description) : Prop where
  root : d.kind = .root
  top : d.top.scope.kind = .nameSpace
  nested : ∀ s ∈ Namespace.scopesOf d.top.nested, IsNode .nameSpace s.kind s.name
  scopes : ∀ s ∈ d.top.scopes, s.IsRight

/-- Every constructor of a description has the kind of a function. -/
def Description.TagsConstructors (d : Description) : Prop :=
  ∀ s ∈ d.top.scopes, ∀ c ∈ s.classes, ∀ f ∈ c.constructors, f.kind = .functionDesc

/-! ## Checks -/

/-- The check of a kind passes exactly if it is the expected one. -/
theorem expectKind_eq_ok {parent : String} {expected found : Kind} :
    expectKind parent expected found = .ok () ↔ found = expected := by
  rw [expectKind]
  split
  · next h => exact iff_of_true rfl h.symm
  · next h => exact iff_of_false (fun hok => nomatch hok) fun heq => h heq.symm

/-- The check of a name passes exactly if there is one. -/
theorem expectName_eq_ok {parent : String} {kind : Kind} {name : String} :
    expectName parent kind name = .ok () ↔ name ≠ "" := by
  rw [expectName]
  split
  · next h => exact iff_of_false (fun hok => nomatch hok) fun hne => hne (by simpa using h)
  · next h => exact iff_of_true rfl (by simpa using h)

/-- The check of a node passes exactly if it has the expected kind and a name. -/
theorem expectNode_eq_ok {parent : String} {expected found : Kind} {name : String} :
    expectNode parent expected found name = .ok () ↔ IsNode expected found name := by
  rw [expectNode, seq_eq_ok, expectKind_eq_ok, expectName_eq_ok]
  rfl

/-- The check of what a parameter says of itself passes exactly if it is right. -/
theorem ParameterInfo.check_eq_ok {parent : String} {info : ParameterInfo} :
    info.check parent = .ok () ↔ info.IsRight := by
  rw [check, IsRight]
  cases info.kind with
  | none =>
    have hname : (do pure (); expectName parent .parameter info.name) = Except.ok () ↔
        info.name ≠ "" := expectName_eq_ok
    simpa using hname
  | some kind =>
    have hboth := seq_eq_ok (a := expectKind parent .parameter kind)
      (b := expectName parent .parameter info.name) (r := ())
    rw [expectKind_eq_ok, expectName_eq_ok] at hboth
    simpa using hboth

/-- The check of a parameter without an option object passes exactly if it is right. -/
theorem Parameter.check_eq_ok_of_ne {parent : String} {info : ParameterInfo} {type : ParameterType}
    (h : ∀ entries, type ≠ .shape entries) :
    (Parameter.mk info type).check parent = .ok () ↔ (Parameter.mk info type).IsRight := by
  have htype : ParameterType.check (joined parent info.name) type = .ok () := by
    rw [ParameterType.check]
    exact h
  rw [check, seq_eq_ok, htype, ParameterInfo.check_eq_ok, isRight_declared h]
  exact and_iff_left rfl

mutual

/-- A check of a parameter looks at its option object, however deep that goes. -/
theorem Parameter.check_eq_ok : ∀ (p : Parameter) (parent : String),
    p.check parent = .ok () ↔ p.IsRight
  | .mk _ .unspecified, _ => check_eq_ok_of_ne fun _ => nofun
  | .mk _ (.declared _), _ => check_eq_ok_of_ne fun _ => nofun
  | .mk info (.shape entries), parent => by
    rw [check, seq_eq_ok, ParameterType.check, ParameterInfo.check_eq_ok, isRight_shape,
      checkEntries_eq_ok entries]

/-- The check of the entries of an option object passes exactly if all of them are right. -/
theorem Parameter.checkEntries_eq_ok : ∀ (entries : List (String × Parameter)) (parent : String),
    checkEntries parent entries = .ok () ↔ ∀ entry ∈ entries, entry.2.IsRight
  | [], parent => iff_of_true rfl (List.forall_mem_nil _)
  | (key, entry) :: rest, parent => by
    rw [checkEntries, seq_eq_ok, check_eq_ok entry, checkEntries_eq_ok rest, List.forall_mem_cons]

end

/-- A check of all items passes exactly if each of them passes what the check stands for. -/
theorem forM_eq_ok_iff {ε α : Type} {check : α → Except ε Unit} {P : α → Prop}
    (h : ∀ a, check a = .ok () ↔ P a) (as : List α) :
    as.forM check = .ok () ↔ ∀ a ∈ as, P a := by
  rw [forM_eq_ok]
  simp only [h]

/-- The check of a variable passes exactly if it is right. -/
theorem Variable.check_eq_ok {parent : String} (v : Variable) :
    v.check parent = .ok () ↔ v.IsRight :=
  expectNode_eq_ok

/-- The check of a function's parameters passes exactly if they are right. -/
theorem Function.checkParameters_eq_ok {parent : String} (f : Function) :
    f.checkParameters parent = .ok () ↔ f.HasRightParameters :=
  forM_eq_ok_iff (fun p => Parameter.check_eq_ok p parent) f.parameters

/-- The check of a function passes exactly if it is right. -/
theorem Function.check_eq_ok {parent : String} (f : Function) :
    f.check parent = .ok () ↔ f.IsRight := by
  rw [check, seq_eq_ok, expectNode_eq_ok, checkParameters_eq_ok, IsRight]

/-- The check of a class passes exactly if it is right. -/
theorem Class.check_eq_ok {path : String} (c : Class) : c.check path = .ok () ↔ c.IsRight := by
  have hparts : c.check path = .ok () ↔ IsNode .classType c.kind c.name ∧
      (∀ f ∈ c.constructors, f.HasRightParameters) ∧ (∀ v ∈ c.fields, v.IsRight) ∧
      ∀ f ∈ c.methods, f.IsRight := by
    rw [check, seq_eq_ok, seq_eq_ok, seq_eq_ok, expectNode_eq_ok,
      forM_eq_ok_iff Function.checkParameters_eq_ok, forM_eq_ok_iff Variable.check_eq_ok,
      forM_eq_ok_iff Function.check_eq_ok]
  rw [hparts]
  exact ⟨fun ⟨hnode, hconstructors, hfields, hmethods⟩ => ⟨hnode, hconstructors, hfields, hmethods⟩,
    fun h => ⟨h.node, h.constructors, h.fields, h.methods⟩⟩

/-- The check of an interface passes exactly if it is right. -/
theorem Interface.check_eq_ok {path : String} (i : Interface) :
    i.check path = .ok () ↔ i.IsRight := by
  have hparts : i.check path = .ok () ↔ IsNode .interfaceType i.kind i.name ∧
      (∀ v ∈ i.properties, v.IsRight) ∧ ∀ f ∈ i.methods, f.IsRight := by
    rw [check, seq_eq_ok, seq_eq_ok, expectNode_eq_ok, forM_eq_ok_iff Variable.check_eq_ok,
      forM_eq_ok_iff Function.check_eq_ok]
  rw [hparts]
  exact ⟨fun ⟨hnode, hproperties, hmethods⟩ => ⟨hnode, hproperties, hmethods⟩,
    fun h => ⟨h.node, h.properties, h.methods⟩⟩

/-- The check of an enum passes exactly if it is right. -/
theorem Enum.check_eq_ok {path : String} (e : Enum) : e.check path = .ok () ↔ e.IsRight := by
  rw [check, seq_eq_ok, expectNode_eq_ok, forM_eq_ok_iff Variable.check_eq_ok]
  exact ⟨fun ⟨hnode, hvalues⟩ => ⟨hnode, hvalues⟩, fun h => ⟨h.node, h.values⟩⟩

/-- The check of what a namespace declares itself passes exactly if that is right. -/
theorem Scope.check_eq_ok {path : String} (s : Scope) : s.check path = .ok () ↔ s.IsRight := by
  have hparts : s.check path = .ok () ↔ (∀ v ∈ s.constants, v.IsRight) ∧
      (∀ f ∈ s.functions, f.IsRight) ∧ (∀ c ∈ s.classes, c.IsRight) ∧
      (∀ i ∈ s.interfaces, i.IsRight) ∧ ∀ e ∈ s.enums, e.IsRight := by
    rw [check, seq_eq_ok, seq_eq_ok, seq_eq_ok, seq_eq_ok, forM_eq_ok_iff Variable.check_eq_ok,
      forM_eq_ok_iff Function.check_eq_ok, forM_eq_ok_iff Class.check_eq_ok,
      forM_eq_ok_iff Interface.check_eq_ok, forM_eq_ok_iff Enum.check_eq_ok]
  rw [hparts]
  exact ⟨fun ⟨hconstants, hfunctions, hclasses, hinterfaces, henums⟩ =>
    ⟨hconstants, hfunctions, hclasses, hinterfaces, henums⟩,
    fun h => ⟨h.constants, h.functions, h.classes, h.interfaces, h.enums⟩⟩

/-! ## Namespaces -/

/-- A check of nested namespaces looks at each of them, and into it. -/
theorem Namespace.checkNested_eq_ok_iff {path : String} {nested : List Namespace} :
    checkNested path nested = .ok () ↔
      ∀ child ∈ nested, IsNode .nameSpace child.scope.kind child.name ∧
        child.check (joined path child.name) = .ok () := by
  induction nested with
  | nil => exact iff_of_true rfl (List.forall_mem_nil _)
  | cons first rest ih =>
    obtain ⟨scope, inner⟩ := first
    rw [checkNested, seq_eq_ok, seq_eq_ok, expectNode_eq_ok, ih, List.forall_mem_cons, and_assoc]
    rfl

/-- A check of a namespace looks at all that is nested in it, and at what each of these namespaces
and it itself declare. -/
theorem Namespace.check_eq_ok {ns : Namespace} : ∀ {path : String}, ns.check path = .ok () ↔
    (∀ s ∈ scopesOf ns.nested, IsNode .nameSpace s.kind s.name) ∧ ∀ s ∈ ns.scopes, s.IsRight := by
  induction ns using Namespace.induction with
  | step scope nested ih =>
    intro path
    have hnested : checkNested path nested = .ok () ↔
        (∀ s ∈ scopesOf nested, IsNode .nameSpace s.kind s.name) ∧
          ∀ s ∈ scopesOf nested, s.IsRight := by
      rw [checkNested_eq_ok_iff, scopesOf_eq]
      constructor
      · intro h
        refine ⟨fun s hs => ?_, fun s hs => ?_⟩
        · obtain ⟨child, hchild, hs⟩ := List.mem_flatMap.mp hs
          obtain ⟨hnode, hcheck⟩ := h child hchild
          rw [scopes_eq] at hs
          obtain rfl | hs := List.mem_cons.mp hs
          · exact hnode
          · exact ((ih child hchild).mp hcheck).1 s hs
        · obtain ⟨child, hchild, hs⟩ := List.mem_flatMap.mp hs
          exact ((ih child hchild).mp (h child hchild).2).2 s hs
      · rintro ⟨hnodes, hscopes⟩ child hchild
        have hinside : ∀ s ∈ child.scopes, s ∈ nested.flatMap scopes :=
          fun s hs => List.mem_flatMap_of_mem hchild hs
        -- What a nested namespace declares itself is the first of its scopes, so the node is
        -- checked with them.
        have hself : child.scope ∈ child.scopes := by
          rw [scopes_eq]
          exact List.mem_cons_self
        refine ⟨hnodes _ (hinside _ hself), (ih child hchild).mpr ⟨fun s hs => ?_, fun s hs => ?_⟩⟩
        · rw [scopes_eq] at hinside
          exact hnodes s (hinside s (List.mem_cons_of_mem _ hs))
        · exact hscopes s (hinside s hs)
    rw [check, seq_eq_ok, hnested, Scope.check_eq_ok, scopes, List.forall_mem_cons]
    constructor
    · rintro ⟨⟨hnodes, hrest⟩, hscope⟩
      exact ⟨hnodes, hscope, hrest⟩
    · rintro ⟨hnodes, hscope, hrest⟩
      exact ⟨⟨hnodes, hrest⟩, hscope⟩

/-- A description is accepted exactly if it is right: every node has the kind of its collection,
also the top-level namespace, every node below that has a name, and every parameter has a name and
no other kind, at any depth of option objects; of constructors nothing but the parameters
counts. -/
theorem Description.check_eq_ok_iff_isRight (d : Description) : d.check = .ok () ↔ d.IsRight := by
  rw [check, seq_eq_ok, seq_eq_ok, expectKind_eq_ok, expectKind_eq_ok, Namespace.check_eq_ok]
  exact ⟨fun ⟨hroot, htop, hnested, hscopes⟩ => ⟨hroot, htop, hnested, hscopes⟩,
    fun h => ⟨h.root, h.top, h.nested, h.scopes⟩⟩

/-- A class among whose constructors an enum stands is accepted. -/
theorem not_tagsConstructors_of_check :
    let d := Description.ofTop (.plain "" [{ Class.plain "Panel" with constructors :=
      [{ (default : Function) with kind := .enumType, name := "constructor" }] }] [])
    d.check = .ok () ∧ ¬ d.TagsConstructors := by
  intro d
  refine ⟨rfl, fun h => ?_⟩
  have htagged := h d.top.scope List.mem_cons_self _ List.mem_cons_self _ List.mem_cons_self
  cases htagged

end Ambient.Api
