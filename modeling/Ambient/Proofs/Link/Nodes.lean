import Ambient.Link.Attach
import Ambient.Proofs.Api.Definitions
import Ambient.Proofs.Link.Climb

/-!
# The nodes of a linked description

The tagged nodes of a description in pre-order, each with its owner and the names on the way down
to it. Linking a description enters exactly these nodes, one after the other, and every one of
them has its path in the arena.
-/

/-!
## Paths in an arena

The way from an entry up to a root, where every parent has a smaller number than its child. Such a
way is a climb, so the dotted name of the entry joins the names on it.
-/

namespace Ambient.Arena

/-- The names on the way from a root down to an entry. -/
inductive PathTo (a : Arena) : Nat → List String → Prop
  | root {id : Nat} {name : Option String} {parent : Option Nat} :
      a.get? id = some ⟨.root, name, parent⟩ → PathTo a id []
  | child {id owner : Nat} {kind : Api.Kind} {name : Option String} {path : List String} :
      a.get? id = some ⟨kind, name, some owner⟩ → kind ≠ .root → owner < id →
      PathTo a owner path → PathTo a id (path ++ segments name)

/-- The entries of one arena stand in another under the same numbers. -/
def Extends (a b : Arena) : Prop := ∀ id entry, a.get? id = some entry → b.get? id = some entry

/-- An arena with more entries at the end extends the one before. -/
theorem extends_of_append {a b : Arena} {more : List Entry}
    (h : b.entries.toList = a.entries.toList ++ more) : a.Extends b := by
  intro id entry hid
  rw [get?, ← Array.getElem?_toList] at hid ⊢
  have hlt : id < a.entries.toList.length := (List.getElem?_eq_some_iff.mp hid).1
  rw [h, List.getElem?_append_left hlt, hid]

/-- Paths stay when entries are added. -/
theorem PathTo.mono {a b : Arena} (hab : a.Extends b) {id : Nat} {path : List String}
    (h : a.PathTo id path) : b.PathTo id path := by
  induction h with
  | root hget => exact .root (hab _ _ hget)
  | child hget hkind hlt _ ih => exact .child (hab _ _ hget) hkind hlt ih

/-- Only numbers of entries have a path. -/
theorem PathTo.lt_size {a : Arena} {id : Nat} {path : List String} (h : a.PathTo id path) :
    id < a.size := by
  cases h with
  | root hget => exact (Array.getElem?_eq_some_iff.mp hget).1
  | child hget => exact (Array.getElem?_eq_some_iff.mp hget).1

/-- An entry has at most one path. -/
theorem PathTo.unique {a : Arena} {id : Nat} {path other : List String} (h : a.PathTo id path)
    (hother : a.PathTo id other) : path = other := by
  induction h generalizing other with
  | root hget =>
    cases hother with
    | root _ => rfl
    | child hsame hkind => simp_all
  | child hget hkind _ _ ih =>
    cases hother with
    | root hsame => simp_all
    | child hsame _ _ howner =>
      rw [hget, Option.some.injEq, Entry.mk.injEq] at hsame
      obtain ⟨_, rfl, hsame⟩ := hsame
      cases hsame
      rw [ih howner]

/-- A path is what a climb meets, from the outermost entry down. -/
theorem PathTo.exists_climb {a : Arena} {id : Nat} {path : List String} (h : a.PathTo id path) :
    ∃ below, a.Climb id below ∧ namesDown below = path := by
  induction h with
  | root hget => exact ⟨[], .root hget rfl, rfl⟩
  | @child id owner kind name path hget hkind _ _ ih =>
    obtain ⟨below, hclimb, rfl⟩ := ih
    exact ⟨_, .child hget hkind rfl hclimb, by simp [namesDown]⟩

/-- The dotted name of an entry with a path joins the names of the path. -/
theorem PathTo.fqn_eq {a : Arena} {id : Nat} {path : List String} (h : a.PathTo id path) :
    a.fqn id = .ok (".".intercalate path) := by
  obtain ⟨below, hclimb, rfl⟩ := h.exists_climb
  exact hclimb.fqn_eq

end Ambient.Arena

namespace Ambient

open Api

/-- A tagged node as it stands in a description. -/
structure Node where
  kind : Kind
  name : Option String
  link : Link
  /-- The number of the node that owns it. -/
  owner : Option Nat
  /-- The names from the outermost namespace down to it, without empty ones. -/
  path : List String

namespace Node

/-- The entry for a node. -/
def entry (n : Node) : Arena.Entry := ⟨n.kind, n.name, n.owner⟩

/-- The node with a link, below an owner at a path. -/
def below (owner : Option Nat) (path : List String) (kind : Kind) (name : Option String)
    (link : Link) : Node :=
  ⟨kind, name, link, owner, path ++ Arena.segments name⟩

end Node

namespace Api

variable (owner : Option Nat) (path : List String)

/-- The node of a type expression. -/
def SimpleType.node (t : SimpleType) : Node := .below owner path .simpleType none t.link

/-- The nodes of a declared type. -/
def DeclaredType.nodes : DeclaredType → List Node
  | .simple type => [type.node owner path]
  | .union members link =>
    .below owner path .unionType none link
      :: members.map (SimpleType.node link.id (path ++ Arena.segments none))

/-- The nodes of the type of a variable or outcome. -/
def optionalNodes (type : Option DeclaredType) : List Node :=
  (type.map (DeclaredType.nodes owner path)).getD []

/-- The nodes of a parameter; the entries of an option object are not nodes. -/
def Parameter.nodes : Parameter → List Node
  | .mk info type =>
    let head := Node.below owner path .parameter (some info.name) info.link
    head :: match type with
      | .declared type => type.nodes info.link.id head.path
      | _ => []

/-- The nodes of a variable and its type. -/
def Variable.nodes (v : Variable) : List Node :=
  let head := Node.below owner path .variableDesc (some v.name) v.link
  head :: optionalNodes v.link.id head.path v.type

/-- The nodes of an outcome. -/
def Outcome.nodes (o : Outcome) : List Node := optionalNodes owner path o.type

/-- The nodes of a function, its parameters, and the types it returns and throws. -/
def Function.nodes (f : Function) : List Node :=
  let head := Node.below owner path .functionDesc (some f.name) f.link
  head :: (f.parameters.flatMap (Parameter.nodes f.link.id head.path)
    ++ (f.returns.map (Outcome.nodes f.link.id head.path)).getD []
    ++ f.throws.flatMap (Outcome.nodes f.link.id head.path))

/-- The nodes of a class and its members. -/
def Class.nodes (c : Class) : List Node :=
  let head := Node.below owner path .classType (some c.name) c.link
  head :: (c.constructors.flatMap (Function.nodes c.link.id head.path)
    ++ c.fields.flatMap (Variable.nodes c.link.id head.path)
    ++ c.methods.flatMap (Function.nodes c.link.id head.path))

/-- The nodes of an interface and its members. -/
def Interface.nodes (i : Interface) : List Node :=
  let head := Node.below owner path .interfaceType (some i.name) i.link
  head :: (i.properties.flatMap (Variable.nodes i.link.id head.path)
    ++ i.methods.flatMap (Function.nodes i.link.id head.path))

/-- The nodes of an enum and its values. -/
def Enum.nodes (e : Enum) : List Node :=
  let head := Node.below owner path .enumType (some e.name) e.link
  head :: e.values.flatMap (Variable.nodes e.link.id head.path)

/-- The nodes of what a namespace declares itself. -/
def Scope.nodes (s : Scope) : List Node :=
  s.constants.flatMap (Variable.nodes owner path) ++ s.functions.flatMap (Function.nodes owner path)
    ++ s.classes.flatMap (Class.nodes owner path)
    ++ s.interfaces.flatMap (Interface.nodes owner path)
    ++ s.enums.flatMap (Enum.nodes owner path)

mutual

/-- The nodes of a namespace: itself, those of the nested namespaces, then what it declares. -/
def Namespace.nodes (owner : Option Nat) (path : List String) : Namespace → List Node
  | ⟨scope, nested⟩ =>
    let head := Node.below owner path .nameSpace (some scope.name) scope.link
    head :: (Namespace.nodesOf scope.link.id head.path nested
      ++ scope.nodes scope.link.id head.path)

/-- The nodes of the namespaces of a list. -/
def Namespace.nodesOf (owner : Option Nat) (path : List String) : List Namespace → List Node
  | [] => []
  | ns :: rest => Namespace.nodes owner path ns ++ Namespace.nodesOf owner path rest

end

/-- The nodes of a description. -/
def Description.nodes (d : Description) : List Node :=
  ⟨.root, none, d.link, none, []⟩ :: d.top.nodes d.link.id []

end Api

/-! ## Entering nodes -/

/-- An arena becomes another by entering nodes one after the other, each below its owner. -/
structure Arena.Entered (a : Arena) (nodes : List Node) (b : Arena) : Prop where
  entries : b.entries.toList = a.entries.toList ++ nodes.map Node.entry
  ids : nodes.map (fun n => n.link.id) = (List.range' a.size nodes.length).map some
  parents : ∀ n ∈ nodes, n.link.parent = n.owner
  paths : ∀ n ∈ nodes, ∃ id, n.link.id = some id ∧ b.PathTo id n.path

namespace Arena.Entered

variable {a b c : Arena} {nodes more : List Node}

/-- Entering no nodes leaves the arena as it is. -/
theorem nil (a : Arena) : a.Entered [] a :=
  ⟨by simp, rfl, by simp, by simp⟩

/-- Entering nodes adds one entry for each. -/
theorem size_eq (h : a.Entered nodes b) : b.size = a.size + nodes.length := by
  have hlength := congrArg List.length h.entries
  simpa [Arena.size] using hlength

/-- Entering nodes extends the arena. -/
theorem extends_ (h : a.Entered nodes b) : a.Extends b := extends_of_append h.entries

/-- What is entered first and what is entered then are entered together. -/
theorem trans (hab : a.Entered nodes b) (hbc : b.Entered more c) : a.Entered (nodes ++ more) c where
  entries := by rw [hbc.entries, hab.entries, List.map_append, List.append_assoc]
  ids := by
    rw [List.map_append, hab.ids, hbc.ids, hab.size_eq, List.length_append, ← List.map_append,
      ← List.range'_append_1]
  parents n hn := (List.mem_append.mp hn).elim (hab.parents n) (hbc.parents n)
  paths n hn := by
    obtain hn | hn := List.mem_append.mp hn
    · obtain ⟨id, hid, hpath⟩ := hab.paths n hn
      exact ⟨id, hid, hpath.mono hbc.extends_⟩
    · exact hbc.paths n hn

/-- The nodes that are entered have the next numbers, in their order. -/
theorem get?_add (h : a.Entered nodes b) {k : Nat} {n : Node} (hn : nodes[k]? = some n) :
    b.get? (a.size + k) = some n.entry ∧ n.link.id = some (a.size + k) := by
  constructor
  · have hlength : a.entries.toList.length = a.size := Array.length_toList
    rw [Arena.get?, ← Array.getElem?_toList, h.entries,
      List.getElem?_append_right (by omega), hlength, Nat.add_sub_cancel_left]
    simp [hn]
  · have hlt := (List.getElem?_eq_some_iff.mp hn).1
    have hid := congrArg (fun ids => ids[k]?) h.ids
    simpa [List.getElem?_map, hn, List.getElem?_range' hlt] using hid

end Arena.Entered

namespace Link

open Arena

variable {p : Nat} {path : List String}

/-- Whatever arena an action of linking starts from, as long as it has the owner `p` at `path`,
the action enters the nodes of its answer. -/
def Enters {α : Type} (p : Nat) (path : List String) (m : Linking α) (nodes : α → List Node) :
    Prop :=
  ∀ a : Arena, a.PathTo p path → a.Entered (nodes (m.run a).1) (m.run a).2

/-- A node entered below an owner with a path has its own path, and stands behind all others. -/
theorem entered_enter {a : Arena} {owner : Nat} {way : List String} (hp : a.PathTo owner way)
    (kind : Kind) (hkind : kind ≠ .root) (name : Option String) :
    let after := (enter kind name (some owner)).run a
    a.Entered [.below (some owner) way kind name after.1] after.2 ∧
      after.2.PathTo a.size (way ++ segments name) := by
  intro after
  have hentries : after.2.entries.toList = a.entries.toList ++ [⟨kind, name, some owner⟩] := by
    simp [after, enter, StateT.run]
  have hnew : after.2.get? a.size = some ⟨kind, name, some owner⟩ := by
    simp [after, enter, StateT.run, get?, size]
  have hpath : after.2.PathTo a.size (way ++ segments name) :=
    .child hnew hkind hp.lt_size (hp.mono (extends_of_append hentries))
  refine ⟨⟨hentries, rfl, ?_, ?_⟩, hpath⟩
  · simp [after, enter, StateT.run, Node.below]
  · simpa [Node.below] using ⟨a.size, rfl, hpath⟩

/-- What is read off the answers of an action on all elements of a list, if the arena has no part
in it. -/
theorem map_mapM_run {α β γ : Type} (act : α → Linking β) (read : β → γ) (value : α → γ)
    (xs : List α) (h : ∀ x ∈ xs, ∀ a, read ((act x).run a).1 = value x) :
    ∀ a, ((xs.mapM act).run a).1.map read = xs.map value := by
  induction xs with
  | nil => exact fun _ => rfl
  | cons x xs ih =>
    intro a
    obtain ⟨hx, hxs⟩ := List.forall_mem_cons.mp h
    rw [List.mapM_cons]
    exact congr (congrArg List.cons (hx a)) (ih hxs _)

/-- Actions that enter the nodes of single answers enter those of all answers of a list. -/
theorem Enters.mapM {α β : Type} {act : α → Linking β} {nodes : β → List Node}
    (xs : List α) (h : ∀ x ∈ xs, Enters p path (act x) nodes) :
    Enters p path (xs.mapM act) fun ys => ys.flatMap nodes := by
  induction xs with
  | nil => intro a _; exact .nil a
  | cons x xs ih =>
    intro a hp
    rw [List.mapM_cons]
    obtain ⟨hx, hxs⟩ := List.forall_mem_cons.mp h
    have hfirst := hx a hp
    exact hfirst.trans (ih hxs _ (hp.mono hfirst.extends_))

/-- Linking a type expression enters its node. -/
theorem enters_simpleType (t : SimpleType) :
    Enters p path (simpleType (some p) t) fun t => [t.node (some p) path] :=
  fun _ hp => (entered_enter hp .simpleType (by decide) none).1

/-- Linking a declared type enters its nodes. -/
theorem enters_declaredType (t : DeclaredType) :
    Enters p path (declaredType (some p) t) (DeclaredType.nodes (some p) path) := by
  intro a hp
  cases t with
  | simple t => exact enters_simpleType t a hp
  | union members link =>
    obtain ⟨hhead, hown⟩ := entered_enter hp .unionType (by decide) none
    have hmembers := Enters.mapM members (fun x _ => enters_simpleType x) _ hown
    simp only [← List.map_eq_flatMap] at hmembers
    exact hhead.trans hmembers

/-- Linking a type that may be missing enters the nodes it has. -/
theorem enters_typeOf (t : Option DeclaredType) :
    Enters p path (typeOf (some p) t) (optionalNodes (some p) path) := by
  intro a hp
  cases t with
  | none => exact .nil a
  | some t => exact enters_declaredType t a hp

/-- Linking a parameter enters its nodes. -/
theorem enters_parameter (q : Parameter) :
    Enters p path (parameter (some p) q) (Parameter.nodes (some p) path) := by
  intro a hp
  obtain ⟨info, type⟩ := q
  obtain ⟨hhead, hown⟩ := entered_enter hp .parameter (by decide) (some info.name)
  cases type with
  | unspecified => exact hhead
  | declared type => exact hhead.trans (enters_declaredType type _ hown)
  | shape entries => exact hhead

/-- Linking an outcome enters the nodes of its type. -/
theorem enters_outcome (o : Outcome) :
    Enters p path (outcome (some p) o) (Outcome.nodes (some p) path) :=
  fun a hp => enters_typeOf o.type a hp

/-- Linking a variable enters its nodes. -/
theorem enters_variableDesc (v : Variable) :
    Enters p path (variableDesc (some p) v) (Variable.nodes (some p) path) := by
  intro a hp
  obtain ⟨hhead, hown⟩ := entered_enter hp .variableDesc (by decide) (some v.name)
  exact hhead.trans (enters_typeOf v.type _ hown)

/-- Linking a function enters its nodes. -/
theorem enters_functionDesc (f : Function) :
    Enters p path (functionDesc (some p) f) (Function.nodes (some p) path) := by
  intro a hp
  obtain ⟨kind, name, isStatic, overwrites, parameters, returns, throws, visibility, doc, _⟩ := f
  obtain ⟨hhead, hown⟩ := entered_enter hp .functionDesc (by decide) (some name)
  have hparameters := Enters.mapM parameters (fun x _ => enters_parameter x) _ hown
  have hown := hown.mono hparameters.extends_
  cases returns with
  | none =>
    have hthrows := Enters.mapM throws (fun x _ => enters_outcome x) _ hown
    exact hhead.trans ((hparameters.trans (.nil _)).trans hthrows)
  | some o =>
    have hreturns := enters_outcome o _ hown
    have hthrows := Enters.mapM throws (fun x _ => enters_outcome x) _ (hown.mono hreturns.extends_)
    exact hhead.trans ((hparameters.trans hreturns).trans hthrows)

/-- Linking a class enters its nodes. -/
theorem enters_classType (c : Api.Class) :
    Enters p path (classType (some p) c) (Class.nodes (some p) path) := by
  intro a hp
  obtain ⟨hhead, hown⟩ := entered_enter hp .classType (by decide) (some c.name)
  have hconstructors := Enters.mapM c.constructors (fun x _ => enters_functionDesc x) _ hown
  have hown := hown.mono hconstructors.extends_
  have hfields := Enters.mapM c.fields (fun x _ => enters_variableDesc x) _ hown
  have hown := hown.mono hfields.extends_
  have hmethods := Enters.mapM c.methods (fun x _ => enters_functionDesc x) _ hown
  exact hhead.trans ((hconstructors.trans hfields).trans hmethods)

/-- Linking an interface enters its nodes. -/
theorem enters_interfaceType (i : Interface) :
    Enters p path (interfaceType (some p) i) (Interface.nodes (some p) path) := by
  intro a hp
  obtain ⟨hhead, hown⟩ := entered_enter hp .interfaceType (by decide) (some i.name)
  have hproperties := Enters.mapM i.properties (fun x _ => enters_variableDesc x) _ hown
  have hown := hown.mono hproperties.extends_
  have hmethods := Enters.mapM i.methods (fun x _ => enters_functionDesc x) _ hown
  exact hhead.trans (hproperties.trans hmethods)

/-- Linking an enum enters its nodes. -/
theorem enters_enumType (e : Enum) :
    Enters p path (enumType (some p) e) (Enum.nodes (some p) path) := by
  intro a hp
  obtain ⟨hhead, hown⟩ := entered_enter hp .enumType (by decide) (some e.name)
  exact hhead.trans (Enters.mapM e.values (fun x _ => enters_variableDesc x) _ hown)

/-- Linking what a namespace declares itself enters its nodes below the namespace. -/
theorem enters_scopeOf (link : Api.Link) (hlink : link.id = some p) (s : Scope) :
    Enters p path (scopeOf link s) (Scope.nodes (some p) path) := by
  intro a hp
  unfold scopeOf
  rw [hlink]
  have hconstants := Enters.mapM s.constants (fun x _ => enters_variableDesc x) a hp
  have hp := hp.mono hconstants.extends_
  have hfunctions := Enters.mapM s.functions (fun x _ => enters_functionDesc x) _ hp
  have hp := hp.mono hfunctions.extends_
  have hclasses := Enters.mapM s.classes (fun x _ => enters_classType x) _ hp
  have hp := hp.mono hclasses.extends_
  have hinterfaces := Enters.mapM s.interfaces (fun x _ => enters_interfaceType x) _ hp
  have hp := hp.mono hinterfaces.extends_
  have henums := Enters.mapM s.enums (fun x _ => enters_enumType x) _ hp
  exact (((hconstants.trans hfunctions).trans hclasses).trans hinterfaces).trans henums

/-- Namespaces in a row are linked one after another. -/
theorem namespacesOf_eq_mapM (parent : Option Nat) (nested : List Namespace) :
    namespacesOf parent nested = nested.mapM (namespaceOf parent) := by
  induction nested with
  | nil => rfl
  | cons ns rest ih => rw [namespacesOf, ih, List.mapM_cons]

end Link

/-- The nodes of namespaces in a row are gathered namespace by namespace. -/
theorem Api.Namespace.nodesOf_eq (owner : Option Nat) (path : List String)
    (nested : List Namespace) :
    Namespace.nodesOf owner path nested = nested.flatMap (Namespace.nodes owner path) := by
  induction nested with
  | nil => rfl
  | cons ns rest ih => rw [Namespace.nodesOf, ih, List.flatMap_cons]

namespace Link

open Arena

/-- Linking a namespace enters its nodes, those of the nested namespaces before what it declares. -/
theorem enters_namespaceOf (ns : Namespace) :
    ∀ {p : Nat} {path : List String},
      Enters p path (namespaceOf (some p) ns) (Namespace.nodes (some p) path) := by
  induction ns using Namespace.induction with
  | step scope nested ih =>
    intro p path a hp
    obtain ⟨hhead, hown⟩ := entered_enter hp .nameSpace (by decide) (some scope.name)
    have hnested := Enters.mapM nested (fun child hchild => ih child hchild) _ hown
    have hown := hown.mono hnested.extends_
    have hscope := enters_scopeOf ⟨some a.size, some p⟩ rfl scope _ hown
    have hall := hhead.trans (hnested.trans hscope)
    simp only [← Namespace.nodesOf_eq] at hall
    simp only [namespaceOf, namespacesOf_eq_mapM]
    exact hall

/-- Linking a description enters its nodes, and nothing else, into an empty arena. -/
theorem entered_attach (d : Description) :
    Arena.empty.Entered (attach d).1.nodes (attach d).2 := by
  let rooted := (enter .root none none).run Arena.empty
  have hroot : rooted.2.PathTo 0 [] := .root rfl
  have hhead : Arena.empty.Entered [⟨.root, none, rooted.1, none, []⟩] rooted.2 :=
    ⟨rfl, rfl, by simp [rooted, enter, StateT.run], by simpa using ⟨0, rfl, hroot⟩⟩
  exact hhead.trans (enters_namespaceOf d.top rooted.2 hroot)

end Link

end Ambient
