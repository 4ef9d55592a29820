import Ambient.Proofs.Api.Definitions
import Ambient.Proofs.TypeExpr.Notes

/-!
# Outlines of declarations

The outline of an item is what it declares: its name and form and those of its members, without
comments, types and imports. Every writer of an item gives the outline of its node, with the
members that are kept in the order of the description. It is the same on every page.
-/

namespace Ambient.Declaration

open Api

/-- A declared name, dotted and simple, and its form. -/
structure Title where
  fqn : String
  name : String
  form : Form
deriving DecidableEq, Repr

/-- What an item declares: itself and its members. -/
structure Outline where
  title : Title
  members : List Title
deriving DecidableEq, Repr

/-- The title of a member. -/
def Member.title (m : Member) : Title := ⟨m.head.fqn, m.head.name, m.body.form⟩

/-- The outline of an item. -/
def Item.outline : Item → Outline
  | .constant head _ => ⟨⟨head.fqn, head.name, .constant⟩, []⟩
  | .function head _ => ⟨⟨head.fqn, head.name, .function⟩, []⟩
  | .aggregate head header members => ⟨⟨head.fqn, head.name, header.form⟩, members.map Member.title⟩

/-- The entities of an outline. -/
def Outline.entities (o : Outline) : List Entity :=
  (o.title :: o.members).map fun title => ⟨title.fqn, title.form⟩

/-- The entities of an item can be told from its outline. -/
theorem Item.entities_eq (i : Item) : i.entities = i.outline.entities := by
  cases i with
  | constant head type => rfl
  | function head signature => rfl
  | aggregate head header members =>
    simp only [entities, outline, Outline.entities, List.map_cons, List.map_map]
    rfl

/-! ## Titles of nodes -/

namespace Naming

variable (nameOf : Naming)

/-- The title of a variable that is declared in a form. -/
def variableTitle (form : Form) (v : Variable) : Title := ⟨nameOf v.link, v.name, form⟩

/-- The title of a function that is declared in a form. -/
def functionTitle (form : Form) (f : Function) : Title := ⟨nameOf f.link, f.name, form⟩

/-- All members of a class, interface or enum, in the order in which they are declared. -/
def memberTitles : TypeNode → List Title
  | .classType c =>
    c.constructors.map (nameOf.functionTitle .construct)
      ++ c.fields.map (nameOf.variableTitle .property)
      ++ c.methods.map (nameOf.functionTitle .method)
  | .interfaceType i =>
    i.properties.map (nameOf.variableTitle .property)
      ++ i.methods.map (nameOf.functionTitle .method)
  | .enumType e => e.values.map (nameOf.variableTitle .value)

/-- What a namespace holds itself, as members of an interface. -/
def nameSpaceTitles (s : Scope) : List Title :=
  s.constants.map (nameOf.variableTitle .property)
    ++ s.functions.map (nameOf.functionTitle .method)

end Naming

/-- The form in which a class, interface or enum is declared. -/
def typeForm : TypeNode → Form
  | .classType _ => .classType
  | .interfaceType _ => .interfaceType
  | .enumType _ => .enumType

/-- Whether a member of a class, interface or enum is declared: a dotted name can exclude it, and
a method's simple name can, too. -/
def keepsMember (d : Directives) (title : Title) : Bool :=
  !d.isBadSymbol title.fqn && !(title.form = .method && d.isBadMethod title.name)

/-- A member that is no method is excluded by its dotted name alone. -/
theorem keepsMember_of_ne (d : Directives) {title : Title} (h : title.form ≠ .method) :
    keepsMember d title = !d.isBadSymbol title.fqn := by
  simp [keepsMember, h]

/-- A method is excluded by its dotted name or by its simple name. -/
theorem keepsMember_method (d : Directives) (fqn name : String) :
    keepsMember d ⟨fqn, name, .method⟩ = (!d.isBadSymbol fqn && !d.isBadMethod name) := by
  simp [keepsMember]

/-- The outline of a class, interface or enum. -/
def typeOutline (d : Directives) (nameOf : Naming) (n : TypeNode) : Outline :=
  ⟨⟨nameOf n.link, n.name, typeForm n⟩, (nameOf.memberTitles n).filter (keepsMember d)⟩

/-- The outline of a namespace that is written as an interface. -/
def nameSpaceOutline (d : Directives) (nameOf : Naming) (s : Scope) : Outline :=
  ⟨⟨nameOf s.link, s.name, .nameSpace⟩,
    (nameOf.nameSpaceTitles s).filter fun title => !d.isBadSymbol title.fqn⟩

/-! ## Writing -/

/-- A list that is written one by one, where some elements are left out. -/
theorem writes_filtered {α β γ : Type} (write : α → Writing (Option β)) (observe : β → γ)
    (title : α → γ) (keep : γ → Bool)
    (h : ∀ x, ∃ notes, Writes (write x) (Option.map observe)
      (if keep (title x) then some (title x) else none) notes) (xs : List α) :
    ∃ notes, Writes (writeSome write xs) (List.map observe) ((xs.map title).filter keep) notes := by
  have hlist : xs.filterMap (fun x => if keep (title x) then some (title x) else none)
      = (xs.map title).filter keep := by
    rw [← List.filterMap_eq_filter, List.filterMap_map]
    rfl
  choose notes h using h
  rw [← hlist]
  exact ⟨_, writes_writeSome write observe _ notes xs h⟩

/-- What is written only if it is kept. -/
theorem writes_kept {α β : Type} {keep : Writing Bool} {kept : Bool} {body : Writing α}
    {observe : α → β} {value : β} (hkeep : ∃ notes, Writes keep id kept notes)
    (hbody : ∃ notes, Writes body observe value notes) :
    ∃ notes, Writes (keep >>= fun kept => if !kept then pure none else body >>= pure ∘ some)
      (Option.map observe) (if kept then some value else none) notes := by
  obtain ⟨notes, hkeep⟩ := hkeep
  cases kept with
  | false =>
    refine ⟨notes ++ [], hkeep.bind fun kept hkept => ?_⟩
    obtain rfl : kept = false := hkept
    exact .pure rfl
  | true =>
    obtain ⟨more, hbody⟩ := hbody
    refine ⟨notes ++ (more ++ []), hkeep.bind fun kept hkept => ?_⟩
    obtain rfl : kept = true := hkept
    exact hbody.bind fun a ha => .pure (congrArg some ha)

namespace Writer

variable (w : Writer)

/-- Asking whether a dotted name is kept answers that it is no bad symbol. -/
theorem writes_keeps (fqn : String) :
    ∃ notes, Writes (w.keeps fqn) id (!w.directives.isBadSymbol fqn) notes := by
  unfold keeps
  cases w.directives.isBadSymbol fqn with
  | true =>
    obtain ⟨notes, hwarn⟩ := notes_warn .excluded ("`" ++ fqn ++ "` excluded")
    exact ⟨notes ++ [], hwarn.bind fun _ _ => .pure rfl⟩
  | false => exact ⟨[], .pure rfl⟩

/-- A second reason to leave something out, beside its dotted name. -/
theorem writes_keeps_and (fqn : String) {rest : Writing Bool} {kept : Bool}
    (hrest : ∃ notes, Writes rest id kept notes) :
    ∃ notes, Writes (w.keeps fqn >>= fun kept => if !kept then pure false else rest) id
      (!w.directives.isBadSymbol fqn && kept) notes := by
  obtain ⟨notes, hkeeps⟩ := w.writes_keeps fqn
  obtain ⟨more, hrest⟩ := hrest
  generalize w.directives.isBadSymbol fqn = bad at hkeeps ⊢
  cases bad with
  | true =>
    refine ⟨notes ++ [], hkeeps.bind fun kept hkept => ?_⟩
    obtain rfl : kept = false := hkept
    exact .pure rfl
  | false =>
    refine ⟨notes ++ more, hkeeps.bind fun kept hkept => ?_⟩
    obtain rfl : kept = true := hkept
    exact hrest

/-- Asking whether a method is kept answers that neither of its names is bad. -/
theorem writes_keepsMethod (fqn name : String) :
    ∃ notes, Writes (w.keepsMethod fqn name) id
      (!w.directives.isBadSymbol fqn && !w.directives.isBadMethod name) notes := by
  refine w.writes_keeps_and fqn ?_
  cases w.directives.isBadMethod name with
  | true =>
    obtain ⟨notes, hwarn⟩ := notes_warn .excluded ("method `" ++ fqn ++ "` excluded by name")
    exact ⟨notes ++ [], hwarn.bind fun _ _ => .pure rfl⟩
  | false => exact ⟨[], .pure rfl⟩

/-- Asking whether a value is kept answers that its dotted name is not bad and its simple name can
be bound. -/
theorem writes_keepsValue (fqn name : String) :
    ∃ notes, Writes (w.keepsValue fqn name) id
      (!w.directives.isBadSymbol fqn && Identifier.isBinding name) notes := by
  refine w.writes_keeps_and fqn ?_
  cases Identifier.isBinding name with
  | true => exact ⟨[], .pure rfl⟩
  | false =>
    obtain ⟨notes, hwarn⟩ := notes_warn .excluded
      ("`" ++ fqn ++ "` skipped: `" ++ name ++ "` is not a valid binding name")
    exact ⟨notes ++ [], hwarn.bind fun _ _ => .pure rfl⟩

/-! ### Signatures -/

/-- What writing a parameter warns of does not depend on the page. -/
theorem notes_slot (p : Parameter) (requiredLater : Bool) : Notes (w.slot p requiredLater) := by
  obtain ⟨notes, htype⟩ := TypeExpr.notes_writeParameterType w.toResolver p.type
  refine ⟨notes ++ [], htype.bind fun type _ => ?_⟩
  split
  · exact .pure rfl
  · split
    · exact .pure rfl
    · exact .pure rfl

/-- What writing parameters warns of does not depend on the page. -/
theorem notes_slots (parameters : List Parameter) : Notes (w.slots parameters) := by
  induction parameters with
  | nil => exact .pure []
  | cons p rest ih => exact (w.notes_slot p _).map₂ ih _

/-- What writing the signature of a constructor warns of does not depend on the page. -/
theorem notes_constructorSignature (f : Function) : Notes (w.constructorSignature f) :=
  (w.notes_slots f.parameters).map _

/-- What writing a signature warns of does not depend on the page. -/
theorem notes_signature (f : Function) : Notes (w.signature f) := by
  unfold signature
  cases f.returns.bind Outcome.type with
  | none => exact (w.notes_slots f.parameters).map₂ (.pure "void") _
  | some type =>
    exact (w.notes_slots f.parameters).map₂ (TypeExpr.notes_writeDeclared w.toResolver type) _

/-! ### Members -/

/-- A constructor is written under its title, unless it is excluded. -/
theorem writes_construct (f : Function) :
    ∃ notes, Writes (w.construct f) (Option.map Member.title)
      (if keepsMember w.directives (w.nameOf.functionTitle .construct f) then
        some (w.nameOf.functionTitle .construct f) else none) notes := by
  obtain ⟨notes, hsignature⟩ := w.notes_constructorSignature f
  have hmember : ∃ notes, Writes (w.constructorSignature f >>= fun signature =>
      pure (⟨w.functionHead (w.nameOf f.link) f, .construct signature⟩ : Member)) Member.title
      (w.nameOf.functionTitle .construct f) notes :=
    ⟨notes ++ [], hsignature.bind fun _ _ => .pure rfl⟩
  rw [keepsMember_of_ne _ (by simp [Naming.functionTitle])]
  exact writes_kept (w.writes_keeps (w.nameOf f.link)) hmember

/-- A property is written under its title, unless it is excluded. -/
theorem writes_property (v : Variable) :
    ∃ notes, Writes (w.property v) (Option.map Member.title)
      (if keepsMember w.directives (w.nameOf.variableTitle .property v) then
        some (w.nameOf.variableTitle .property v) else none) notes := by
  obtain ⟨notes, htype⟩ := TypeExpr.notes_writeOptional w.toResolver v.type
  have hmember : ∃ notes, Writes (TypeExpr.writeOptional w.toResolver v.type >>= fun type =>
      pure (⟨w.headOf (w.nameOf v.link) v.name v.doc, .property v.isStatic type⟩ : Member))
      Member.title (w.nameOf.variableTitle .property v) notes :=
    ⟨notes ++ [], htype.bind fun _ _ => .pure rfl⟩
  rw [keepsMember_of_ne _ (by simp [Naming.variableTitle])]
  exact writes_kept (w.writes_keeps (w.nameOf v.link)) hmember

/-- A function as a member is written under its title. -/
theorem writes_memberFunction (f : Function) :
    ∃ notes, Writes (w.memberFunction (w.nameOf f.link) f) Member.title
      (w.nameOf.functionTitle .method f) notes := by
  obtain ⟨notes, hsignature⟩ := w.notes_signature f
  exact ⟨notes ++ [], hsignature.bind fun _ _ => .pure rfl⟩

/-- A method is written under its title, unless it is excluded. -/
theorem writes_method (f : Function) :
    ∃ notes, Writes (w.method f) (Option.map Member.title)
      (if keepsMember w.directives (w.nameOf.functionTitle .method f) then
        some (w.nameOf.functionTitle .method f) else none) notes := by
  rw [Naming.functionTitle, keepsMember_method]
  exact writes_kept (w.writes_keepsMethod (w.nameOf f.link) f.name) (w.writes_memberFunction f)

/-- A function of a namespace that is an interface is written as a method, unless its dotted name is
bad. -/
theorem writes_nameSpaceMethod (f : Function) :
    ∃ notes, Writes (w.nameSpaceMethod f) (Option.map Member.title)
      (if !w.directives.isBadSymbol (w.nameOf.functionTitle .method f).fqn then
        some (w.nameOf.functionTitle .method f) else none) notes :=
  writes_kept (w.writes_keeps (w.nameOf f.link)) (w.writes_memberFunction f)

/-- An enum value is written under its title, unless it is excluded. -/
theorem writes_enumValue (v : Variable) :
    ∃ notes, Writes (w.enumValue v) (Option.map Member.title)
      (if keepsMember w.directives (w.nameOf.variableTitle .value v) then
        some (w.nameOf.variableTitle .value v) else none) notes := by
  have hmember : ∃ notes, Writes
      (pure (⟨w.headOf (w.nameOf v.link) v.name v.doc, .value⟩ : Member) : Writing Member)
      Member.title (w.nameOf.variableTitle .value v) notes := ⟨[], .pure rfl⟩
  rw [keepsMember_of_ne _ (by simp [Naming.variableTitle])]
  exact writes_kept (w.writes_keeps (w.nameOf v.link)) hmember

/-! ### Items -/

/-- Whether a constant or function of a namespace is declared. -/
def keepsItem (d : Directives) (o : Outline) : Bool :=
  !d.isBadSymbol o.title.fqn && Identifier.isBinding o.title.name

/-- A variable of a namespace is written as a constant, unless it is excluded or its name cannot be
bound. -/
theorem writes_constant (v : Variable) :
    ∃ notes, Writes (w.constant v) (Option.map Item.outline)
      (if keepsItem w.directives ⟨w.nameOf.variableTitle .constant v, []⟩ then
        some ⟨w.nameOf.variableTitle .constant v, []⟩ else none) notes := by
  obtain ⟨notes, htype⟩ := TypeExpr.notes_writeOptional w.toResolver v.type
  have hitem : ∃ notes, Writes (TypeExpr.writeOptional w.toResolver v.type >>= fun type =>
      pure (Item.constant (w.headOf (w.nameOf v.link) v.name v.doc) type)) Item.outline
      ⟨w.nameOf.variableTitle .constant v, []⟩ notes :=
    ⟨notes ++ [], htype.bind fun _ _ => .pure rfl⟩
  exact writes_kept (w.writes_keepsValue (w.nameOf v.link) v.name) hitem

/-- A function of a namespace is written under its title, unless it is excluded or its name cannot
be bound. -/
theorem writes_function (f : Function) :
    ∃ notes, Writes (w.function f) (Option.map Item.outline)
      (if keepsItem w.directives ⟨w.nameOf.functionTitle .function f, []⟩ then
        some ⟨w.nameOf.functionTitle .function f, []⟩ else none) notes := by
  obtain ⟨notes, hsignature⟩ := w.notes_signature f
  have hitem : ∃ notes, Writes (w.signature f >>= fun signature =>
      pure (Item.function (w.functionHead (w.nameOf f.link) f) signature)) Item.outline
      ⟨w.nameOf.functionTitle .function f, []⟩ notes :=
    ⟨notes ++ [], hsignature.bind fun _ _ => .pure rfl⟩
  exact writes_kept (w.writes_keepsValue (w.nameOf f.link) f.name) hitem

/-- What writing a base class warns of does not depend on the page. -/
theorem notes_supertype (owner fqn : String) : Notes (w.supertype owner fqn) := by
  unfold supertype
  dsimp only
  cases w.resolve (w.directives.correctName fqn) with
  | ok symbol => exact (notes_refer symbol).map _
  | error cause => exact (notes_warn .unresolvedType _).map _

/-- What writing an implemented interface warns of does not depend on the page. -/
theorem notes_implemented (owner fqn : String) : Notes (w.implemented owner fqn) := by
  unfold implemented
  split
  · exact (notes_warn .excluded _).map _
  · exact w.notes_supertype owner fqn

/-- References that are written one by one, where some are dropped. -/
theorem notes_writeSome {α β : Type} {write : α → Writing (Option β)} (h : ∀ x, Notes (write x))
    (xs : List α) : Notes (writeSome write xs) := by
  induction xs with
  | nil => exact .pure []
  | cons x rest ih => exact (h x).map₂ ih _

/-- The members of a list that are declared, in the order of the list. -/
theorem writes_members {α : Type} (write : α → Writing (Option Member)) (title : α → Title)
    (h : ∀ x, ∃ notes, Writes (write x) (Option.map Member.title)
      (if keepsMember w.directives (title x) then some (title x) else none) notes) (xs : List α) :
    ∃ notes, Writes (writeSome write xs) (List.map Member.title)
      ((xs.map title).filter (keepsMember w.directives)) notes :=
  writes_filtered write Member.title title (keepsMember w.directives) h xs

/-- The outline of an aggregate whose members are those of a node that are kept. -/
theorem outline_aggregate {head : Head} {header : Header} {members : List Member} {o : Outline}
    (htitle : ⟨head.fqn, head.name, header.form⟩ = o.title)
    (hmembers : members.map Member.title = o.members) :
    (Item.aggregate head header members).outline = o := by
  rw [Item.outline, htitle, hmembers]

/-- With any base class, a class is written with its constructors, properties and methods that are
kept. -/
theorem writes_classBody (c : Api.Class) :
    ∃ notes, ∀ base, Writes (do
        let interfaces ← writeSome (w.implemented (w.nameOf c.link)) c.implemented
        let constructors ← writeSome w.construct c.constructors
        let fields ← writeSome w.property c.fields
        let methods ← writeSome w.method c.methods
        return some (.aggregate (w.headOf (w.nameOf c.link) c.name c.doc)
          (.classType c.isAbstract base interfaces) (constructors ++ fields ++ methods)))
      (Option.map Item.outline) (some (typeOutline w.directives w.nameOf (.classType c)))
      notes := by
  obtain ⟨_, hinterfaces⟩ := notes_writeSome (w.notes_implemented (w.nameOf c.link)) c.implemented
  obtain ⟨_, hconstructors⟩ := w.writes_members _ _ w.writes_construct c.constructors
  obtain ⟨_, hfields⟩ := w.writes_members _ _ w.writes_property c.fields
  obtain ⟨_, hmethods⟩ := w.writes_members _ _ w.writes_method c.methods
  refine ⟨_, fun base => hinterfaces.bind fun _ _ => hconstructors.bind fun constructors hc =>
    hfields.bind fun fields hf => hmethods.bind fun methods hm => .pure (congrArg some ?_)⟩
  refine outline_aggregate rfl ?_
  rw [List.map_append, List.map_append, hc, hf, hm]
  simp only [typeOutline, Naming.memberTitles, List.filter_append]

/-- A class is written if it is emitted, with the members that are kept. -/
theorem writes_classType (c : Api.Class) :
    ∃ notes, Writes (w.classType c) (Option.map Item.outline)
      (if w.emitted.contains (w.nameOf c.link) then
        some (typeOutline w.directives w.nameOf (.classType c)) else none) notes := by
  obtain ⟨_, hbody⟩ := w.writes_classBody c
  unfold classType
  dsimp only
  cases hemitted : w.emitted.contains (w.nameOf c.link) with
  | false => exact ⟨[], .pure rfl⟩
  | true =>
    cases c.base with
    | none => exact ⟨_, hbody none⟩
    | some base =>
      obtain ⟨_, hbase⟩ := w.notes_supertype (w.nameOf c.link) base
      exact ⟨_, hbase.bind fun base _ => hbody base⟩

/-- An interface is written if it is emitted, with the members that are kept. -/
theorem writes_interfaceType (i : Interface) :
    ∃ notes, Writes (w.interfaceType i) (Option.map Item.outline)
      (if w.emitted.contains (w.nameOf i.link) then
        some (typeOutline w.directives w.nameOf (.interfaceType i)) else none) notes := by
  obtain ⟨_, hbases⟩ := notes_writeSome (w.notes_supertype (w.nameOf i.link)) i.bases
  obtain ⟨_, hproperties⟩ := w.writes_members _ _ w.writes_property i.properties
  obtain ⟨_, hmethods⟩ := w.writes_members _ _ w.writes_method i.methods
  unfold interfaceType
  dsimp only
  cases hemitted : w.emitted.contains (w.nameOf i.link) with
  | false => exact ⟨[], .pure rfl⟩
  | true =>
    refine ⟨_, hbases.bind fun _ _ => hproperties.bind fun properties hp =>
      hmethods.bind fun methods hm => .pure (congrArg some ?_)⟩
    refine outline_aggregate rfl ?_
    rw [List.map_append, hp, hm]
    simp only [typeOutline, Naming.memberTitles, List.filter_append]

/-- An enum is written if it is emitted, with the values that are kept. -/
theorem writes_enumType (e : Enum) :
    ∃ notes, Writes (w.enumType e) (Option.map Item.outline)
      (if w.emitted.contains (w.nameOf e.link) then
        some (typeOutline w.directives w.nameOf (.enumType e)) else none) notes := by
  obtain ⟨_, hvalues⟩ := w.writes_members _ _ w.writes_enumValue e.values
  unfold enumType
  dsimp only
  cases hemitted : w.emitted.contains (w.nameOf e.link) with
  | false => exact ⟨[], .pure rfl⟩
  | true =>
    refine ⟨_, hvalues.bind fun values hv => .pure (congrArg some ?_)⟩
    exact outline_aggregate rfl hv

/-- A namespace that is written as an interface has its variables and functions as members. -/
theorem writes_nameSpaceInterface (s : Scope) :
    ∃ notes, Writes (w.nameSpaceInterface s) Item.outline
      (nameSpaceOutline w.directives w.nameOf s) notes := by
  let keep (title : Title) : Bool := !w.directives.isBadSymbol title.fqn
  have hproperty (v : Variable) : ∃ notes, Writes (w.property v) (Option.map Member.title)
      (if keep (w.nameOf.variableTitle .property v) then
        some (w.nameOf.variableTitle .property v) else none) notes := by
    have hwrites := w.writes_property v
    rwa [keepsMember_of_ne _ (by simp [Naming.variableTitle])] at hwrites
  obtain ⟨_, hproperties⟩ := writes_filtered _ _ _ keep hproperty s.constants
  obtain ⟨_, hmethods⟩ := writes_filtered _ _ _ keep w.writes_nameSpaceMethod s.functions
  refine ⟨_, hproperties.bind fun properties hp => hmethods.bind fun methods hm =>
    .pure (outline_aggregate rfl ?_)⟩
  rw [List.map_append, hp, hm]
  simp only [nameSpaceOutline, Naming.nameSpaceTitles, List.filter_append]
  rfl

end Writer

end Ambient.Declaration
