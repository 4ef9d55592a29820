import Ambient.Proofs.Correction.Visibility

/-!
# What is removed

The nodes that can be restricted stand in eleven collections. Here they are listed, each without the
nodes it owns and together with the nodes it stands in; the list and a namespace's own fields are
all there is to a namespace. What is visible of a namespace has the nodes that are not restricted
and do not stand in one that is. The others are gone, and of these the number counts the outermost.
-/

namespace Ambient.Api

/-! ## Nodes on their own -/

/-- The collections of nodes that can be restricted. -/
inductive Collection where
  | nested
  | constants
  | functions
  | classes
  | interfaces
  | enums
  | constructors
  | fields
  | methods
  | properties
  | values
deriving DecidableEq

/-- A class without its members. -/
def Class.bare (c : Class) : Class := { c with constructors := [], fields := [], methods := [] }

/-- An interface without its members. -/
def Interface.bare (i : Interface) : Interface := { i with methods := [], properties := [] }

/-- An enum without its values. -/
def Enum.bare (e : Enum) : Enum := { e with values := [] }

/-- The own fields of a namespace, without what it declares. -/
def Scope.bare (s : Scope) : Scope :=
  { s with constants := [], functions := [], classes := [], interfaces := [], enums := [] }

/-- A node of one of the collections, without the nodes it owns. -/
inductive Bare where
  | nested (s : Scope)
  | constant (v : Variable)
  | function (f : Function)
  | classType (c : Class)
  | interfaceType (i : Interface)
  | enumType (e : Enum)
  | construct (f : Function)
  | field (v : Variable)
  | method (f : Function)
  | property (v : Variable)
  | value (v : Variable)

namespace Bare

/-- The collection that the node stands in. -/
def collection : Bare → Collection
  | .nested _ => .nested
  | .constant _ => .constants
  | .function _ => .functions
  | .classType _ => .classes
  | .interfaceType _ => .interfaces
  | .enumType _ => .enums
  | .construct _ => .constructors
  | .field _ => .fields
  | .method _ => .methods
  | .property _ => .properties
  | .value _ => .values

/-- How far the node is exposed. -/
def visibility : Bare → Option Visibility
  | .nested s => s.visibility
  | .constant v | .field v | .property v | .value v => v.visibility
  | .function f | .construct f | .method f => f.visibility
  | .classType c => c.visibility
  | .interfaceType i => i.visibility
  | .enumType e => e.visibility

/-- Whether the node is declared restricted. -/
def isRestricted (n : Bare) : Bool := n.visibility = some .restricted

/-- A node may be emitted exactly if its bare form is not restricted. -/
theorem isEmittable_eq (n : Bare) : isEmittable n.visibility = !n.isRestricted := by
  rw [isRestricted, isEmittable]
  cases n.visibility with
  | none => rfl
  | some visibility => cases visibility <;> rfl

end Bare

/-! ## Nodes where they stand -/

/-- A node below a namespace, with the nodes below the namespace that it stands in. -/
structure Standing where
  /-- The nodes around it, from the outermost inwards. -/
  around : List Bare
  node : Bare

namespace Standing

/-- Whether neither the node nor one around it is restricted. -/
def isKept (x : Standing) : Bool :=
  !x.node.isRestricted && x.around.all fun outer => !outer.isRestricted

/-- Whether the node is restricted and those around it are not. -/
def isRemoved (x : Standing) : Bool :=
  x.node.isRestricted && x.around.all fun outer => !outer.isRestricted

/-- The node that stands outermost: one around it, or itself. -/
def outermost (x : Standing) : Bare := x.around.headD x.node

/-- A node, and behind it what stands in it. -/
def listed (node : Bare) (owned : List Standing) : List Standing :=
  ⟨[], node⟩ :: owned.map fun x => ⟨node :: x.around, x.node⟩

/-- The nodes of a collection one after the other, each with what stands in it. -/
def listedAll {α : Type} (node : α → Bare) (owned : α → List Standing) (items : List α) :
    List Standing :=
  items.flatMap fun a => listed (node a) (owned a)

end Standing

open Standing

/-- The members of a class. -/
def Class.owned (c : Class) : List Standing :=
  listedAll .construct (fun _ => []) c.constructors ++ listedAll .field (fun _ => []) c.fields
    ++ listedAll .method (fun _ => []) c.methods

/-- The members of an interface. -/
def Interface.owned (i : Interface) : List Standing :=
  listedAll .property (fun _ => []) i.properties ++ listedAll .method (fun _ => []) i.methods

/-- The values of an enum. -/
def Enum.owned (e : Enum) : List Standing := listedAll .value (fun _ => []) e.values

/-- What stands in a namespace, the namespaces nested in it apart. -/
def Scope.owned (s : Scope) : List Standing :=
  listedAll .constant (fun _ => []) s.constants ++ listedAll .function (fun _ => []) s.functions
    ++ listedAll (fun c => .classType c.bare) Class.owned s.classes
    ++ listedAll (fun i => .interfaceType i.bare) Interface.owned s.interfaces
    ++ listedAll (fun e => .enumType e.bare) Enum.owned s.enums

mutual

/-- What stands in a namespace. -/
def Namespace.owned : Namespace → List Standing
  | ⟨scope, nested⟩ => Namespace.ownedOf nested ++ scope.owned

/-- The namespaces of a list, each with what stands in it. -/
def Namespace.ownedOf : List Namespace → List Standing
  | [] => []
  | ⟨scope, nested⟩ :: rest =>
    listed (.nested scope.bare) (Namespace.owned ⟨scope, nested⟩) ++ Namespace.ownedOf rest

end

/-- What nested namespaces own is listed namespace by namespace. -/
theorem Namespace.ownedOf_eq (nested : List Namespace) :
    ownedOf nested = listedAll (fun child => .nested child.scope.bare) owned nested := by
  induction nested with
  | nil => rfl
  | cons child rest ih =>
    obtain ⟨scope, inner⟩ := child
    rw [ownedOf, ih]
    rfl

/-! ## What is kept of a collection -/

/-- Of a collection with one node more, the count grows by one if the node is restricted, and else
by what is hidden in it. -/
theorem hiddenWithin_cons {α : Type} (visibility : α → Option Visibility) (hidden : α → Nat) (a : α)
    (rest : List α) : hiddenWithin visibility hidden (a :: rest)
      = (if isEmittable (visibility a) then hidden a else 1)
        + hiddenWithin visibility hidden rest := by
  cases h : isEmittable (visibility a) with
  | true =>
    simp [hiddenWithin, hiddenOf, visibleOf, h]
    omega
  | false =>
    simp [hiddenWithin, hiddenOf, visibleOf, h]
    omega

namespace Standing

/-- The kept of a listed node are none if it is restricted, and else the node with the kept of what
it owns. -/
theorem filter_listed (node : Bare) (owned : List Standing) : (listed node owned).filter isKept
    = if node.isRestricted then [] else listed node (owned.filter isKept) := by
  have hinner (h : node.isRestricted = false) :
      (isKept ∘ fun x : Standing => ⟨node :: x.around, x.node⟩) = isKept := by
    funext x
    simp [isKept, h]
  cases h : node.isRestricted with
  | true => simp [listed, isKept, h]
  | false =>
    rw [listed, List.filter_cons_of_pos (by simp [isKept, h]), List.filter_map, hinner h]
    rfl

/-- The removed of a listed node are one if it is restricted, and else those of what it owns. -/
theorem countP_listed (node : Bare) (owned : List Standing) : (listed node owned).countP isRemoved
    = if node.isRestricted then 1 else owned.countP isRemoved := by
  have hinner : (isRemoved ∘ fun x : Standing => ⟨node :: x.around, x.node⟩)
      = fun x => !node.isRestricted && isRemoved x := by
    funext x
    simp only [Function.comp_apply, isRemoved, List.all_cons]
    cases node.isRestricted <;> simp
  have hself : isRemoved ⟨[], node⟩ = node.isRestricted := Bool.and_true _
  rw [listed, List.countP_cons, List.countP_map, hinner, hself]
  cases node.isRestricted with
  | true => simp
  | false => rfl

section Collection

variable {α : Type} (visibility : α → Option Visibility) {node : α → Bare}
  {owned : α → List Standing}

/-- A collection is listed node by node. -/
theorem listedAll_cons (node : α → Bare) (owned : α → List Standing) (a : α) (rest : List α) :
    listedAll node owned (a :: rest) = listed (node a) (owned a) ++ listedAll node owned rest :=
  List.flatMap_cons

/-- Of a collection is kept what is visible of it, if that is so for what stands in its nodes. -/
theorem filter_listedAll (visible : α → α) {items : List α}
    (hnode : ∀ a, (node a).visibility = visibility a) (hbare : ∀ a, node (visible a) = node a)
    (howned : ∀ a ∈ items, owned (visible a) = (owned a).filter isKept) :
    (listedAll node owned items).filter isKept
      = listedAll node owned ((visibleOf visibility items).map visible) := by
  induction items with
  | nil => rfl
  | cons a rest ih =>
    obtain ⟨hfirst, hrest⟩ := List.forall_mem_cons.mp howned
    have hemittable : isEmittable (visibility a) = !(node a).isRestricted := by
      rw [← hnode, Bare.isEmittable_eq]
    rw [listedAll_cons, List.filter_append, filter_listed, ih hrest, visibleOf, visibleOf]
    cases hrestricted : (node a).isRestricted with
    | true =>
      rw [List.filter_cons_of_neg (by simp [hemittable, hrestricted]), if_pos rfl]
      rfl
    | false =>
      rw [List.filter_cons_of_pos (by simp [hemittable, hrestricted]), List.map_cons,
        listedAll_cons, hbare, hfirst, if_neg Bool.false_ne_true]

/-- Of a collection is removed what is counted as hidden. -/
theorem countP_listedAll (hidden : α → Nat) {items : List α}
    (hnode : ∀ a, (node a).visibility = visibility a)
    (hhidden : ∀ a ∈ items, hidden a = (owned a).countP isRemoved) :
    (listedAll node owned items).countP isRemoved = hiddenWithin visibility hidden items := by
  induction items with
  | nil => rfl
  | cons a rest ih =>
    obtain ⟨hfirst, hrest⟩ := List.forall_mem_cons.mp hhidden
    have hemittable : isEmittable (visibility a) = !(node a).isRestricted := by
      rw [← hnode, Bare.isEmittable_eq]
    rw [listedAll_cons, List.countP_append, countP_listed, ih hrest, hiddenWithin_cons, hemittable,
      ← hfirst]
    cases (node a).isRestricted <;> rfl

/-- The same for nodes that own nothing. -/
theorem filter_leaves (hnode : ∀ a, (node a).visibility = visibility a) (items : List α) :
    (listedAll node (fun _ => []) items).filter isKept
      = listedAll node (fun _ => []) (visibleOf visibility items) := by
  rw [filter_listedAll visibility id hnode (fun _ => rfl) (fun _ _ => rfl), List.map_id]

/-- In a collection of nodes that own nothing, the removed are the hidden ones. -/
theorem countP_leaves (hnode : ∀ a, (node a).visibility = visibility a) (items : List α) :
    (listedAll node (fun _ => []) items).countP isRemoved = hiddenOf visibility items := by
  rw [countP_listedAll visibility (fun _ => 0) hnode fun _ _ => rfl, hiddenWithin,
    Nat.add_eq_left]
  exact List.sum_eq_zero_iff_forall_eq_nat.mpr (List.forall_mem_map.mpr fun _ _ => rfl)

end Collection

end Standing

/-! ## What is kept and what is removed -/

/-- The visible part of a class owns what the class owns and keeps. -/
theorem Class.owned_visible (c : Class) : c.visible.owned = c.owned.filter isKept := by
  rw [owned, owned, List.filter_append, List.filter_append,
    filter_leaves Function.visibility fun _ => rfl, filter_leaves Variable.visibility fun _ => rfl,
    filter_leaves Function.visibility fun _ => rfl]
  rfl

/-- What a class hides is what is removed of what it owns. -/
theorem Class.hidden_eq (c : Class) : c.hidden = c.owned.countP isRemoved := by
  rw [owned, List.countP_append, List.countP_append,
    countP_leaves Function.visibility fun _ => rfl, countP_leaves Variable.visibility fun _ => rfl,
    countP_leaves Function.visibility fun _ => rfl]
  rfl

/-- The visible part of an interface owns what the interface owns and keeps. -/
theorem Interface.owned_visible (i : Interface) : i.visible.owned = i.owned.filter isKept := by
  rw [owned, owned, List.filter_append, filter_leaves Variable.visibility fun _ => rfl,
    filter_leaves Function.visibility fun _ => rfl]
  rfl

/-- What an interface hides is what is removed of what it owns. -/
theorem Interface.hidden_eq (i : Interface) : i.hidden = i.owned.countP isRemoved := by
  rw [owned, List.countP_append, countP_leaves Variable.visibility fun _ => rfl,
    countP_leaves Function.visibility fun _ => rfl]
  rfl

/-- The visible part of an enum owns what the enum owns and keeps. -/
theorem Enum.owned_visible (e : Enum) : e.visible.owned = e.owned.filter isKept := by
  rw [owned, owned, filter_leaves Variable.visibility fun _ => rfl]
  rfl

/-- What an enum hides is what is removed of what it owns. -/
theorem Enum.hidden_eq (e : Enum) : e.hidden = e.owned.countP isRemoved := by
  rw [owned, countP_leaves Variable.visibility fun _ => rfl]
  rfl

/-- The visible part of a scope owns what the scope owns and keeps. -/
theorem Scope.owned_visible (s : Scope) : s.visible.owned = s.owned.filter isKept := by
  simp only [owned, List.filter_append]
  rw [filter_leaves Variable.visibility fun _ => rfl,
    filter_leaves Function.visibility fun _ => rfl,
    filter_listedAll Class.visibility Class.visible (fun _ => rfl) (fun _ => rfl)
      fun c _ => c.owned_visible,
    filter_listedAll Interface.visibility Interface.visible (fun _ => rfl) (fun _ => rfl)
      fun i _ => i.owned_visible,
    filter_listedAll Enum.visibility Enum.visible (fun _ => rfl) (fun _ => rfl)
      fun e _ => e.owned_visible]
  rfl

/-- What a scope hides is what is removed of what it owns. -/
theorem Scope.hidden_eq_countP (s : Scope) : s.hidden = s.owned.countP isRemoved := by
  simp only [owned, List.countP_append]
  rw [countP_leaves Variable.visibility fun _ => rfl,
    countP_leaves Function.visibility fun _ => rfl,
    countP_listedAll Class.visibility Class.hidden (fun _ => rfl) fun c _ => c.hidden_eq,
    countP_listedAll Interface.visibility Interface.hidden (fun _ => rfl) fun i _ => i.hidden_eq,
    countP_listedAll Enum.visibility Enum.hidden (fun _ => rfl) fun e _ => e.hidden_eq]
  rfl

namespace Namespace

/-- How far a namespace is exposed. -/
def visibility (ns : Namespace) : Option Visibility := ns.scope.visibility

/-- The visible part of nested namespaces is that of each of the visible ones. -/
theorem visibleAll_eq (nested : List Namespace) :
    visibleAll nested = (visibleOf visibility nested).map visible := by
  induction nested with
  | nil => rfl
  | cons child rest ih =>
    obtain ⟨scope, inner⟩ := child
    rw [visibleAll, ih, visibleOf, visibleOf, List.filter_cons, visibility]
    split <;> rfl

/-- What nested namespaces hide is counted as for any collection. -/
theorem hiddenAll_eq (nested : List Namespace) :
    hiddenAll nested = hiddenWithin visibility hidden nested := by
  induction nested with
  | nil => rfl
  | cons child rest ih =>
    obtain ⟨scope, inner⟩ := child
    rw [hiddenAll, ih, hiddenWithin_cons, visibility]

/-- What is visible of a namespace has its own fields. -/
theorem bare_visible (ns : Namespace) : ns.visible.scope.bare = ns.scope.bare := by
  obtain ⟨scope, nested⟩ := ns
  rw [visible]
  rfl

/-- What stands in the visible part of a namespace is what is neither restricted nor in something
that is. -/
theorem owned_visible (ns : Namespace) : ns.visible.owned = ns.owned.filter isKept := by
  induction ns using Namespace.induction with
  | step scope nested ih =>
    rw [visible, owned, owned, List.filter_append, Scope.owned_visible, visibleAll_eq, ownedOf_eq,
      ownedOf_eq, filter_listedAll visibility visible (fun _ => rfl)
        (fun child => congrArg Bare.nested child.bare_visible) ih]

/-- What is counted as hidden in a namespace is what is restricted and not in something that is. -/
theorem hidden_eq_countP (ns : Namespace) : ns.hidden = ns.owned.countP isRemoved := by
  induction ns using Namespace.induction with
  | step scope nested ih =>
    rw [hidden, owned, List.countP_append, Scope.hidden_eq_countP, hiddenAll_eq, ownedOf_eq,
      countP_listedAll visibility hidden (fun _ => rfl) ih]

end Namespace

/-! ## All there is to a namespace -/

namespace Standing

variable {α : Type} {node : α → Bare} {owned : α → List Standing}

/-- Of what stands somewhere, the part in one collection. -/
def inCollection (collection : Collection) (list : List Standing) : List Standing :=
  list.filter fun x => x.outermost.collection = collection

/-- The members of a collection in two lists are those in the first, then those in the second. -/
theorem inCollection_append (collection : Collection) (list more : List Standing) :
    inCollection collection (list ++ more)
      = inCollection collection list ++ inCollection collection more :=
  List.filter_append list more

/-- The outermost owner of what a collection lists is a node of the collection. -/
theorem outermost_of_mem_listedAll {items : List α} {x : Standing}
    (hx : x ∈ listedAll node owned items) : ∃ a, x.outermost = node a := by
  obtain ⟨a, _, hx⟩ := List.mem_flatMap.mp hx
  refine ⟨a, ?_⟩
  obtain rfl | hx := List.mem_cons.mp hx
  · rfl
  · obtain ⟨_, _, rfl⟩ := List.mem_map.mp hx
    rfl

/-- The nodes of a collection are the part in it. -/
theorem inCollection_listedAll (node : α → Bare) (here : Collection)
    (hnode : ∀ a, (node a).collection = here) (owned : α → List Standing)
    (collection : Collection) (items : List α) :
    inCollection collection (listedAll node owned items)
      = if here = collection then listedAll node owned items else [] := by
  have hhere (x : Standing) (hx : x ∈ listedAll node owned items) :
      x.outermost.collection = here := by
    obtain ⟨a, ha⟩ := outermost_of_mem_listedAll hx
    rw [ha, hnode]
  split
  · next hsame => exact List.filter_eq_self.mpr fun x hx => by simp [hhere x hx, hsame]
  · next hother => exact List.filter_eq_nil_iff.mpr fun x hx => by simp [hhere x hx, hother]

/-- A collection begins with a node, around which there is nothing. -/
theorem around_head?_listedAll (items : List α) :
    ∀ x ∈ (listedAll node owned items).head?, x.around = [] := by
  intro x hx
  cases items with
  | nil => cases hx
  | cons a rest =>
    rw [listedAll_cons, listed, List.cons_append, List.head?_cons] at hx
    exact Option.some.inj hx ▸ rfl

/-- What stands in a node ends where the next node begins. -/
theorem owned_eq_of_append_eq {outer : Bare} {rest more : List Standing}
    (hrest : ∀ x ∈ rest.head?, x.around = []) (hmore : ∀ x ∈ more.head?, x.around = []) :
    ∀ {xs ys : List Standing},
      xs.map (fun x : Standing => (⟨outer :: x.around, x.node⟩ : Standing)) ++ rest
        = ys.map (fun x : Standing => (⟨outer :: x.around, x.node⟩ : Standing)) ++ more →
      xs = ys ∧ rest = more := by
  intro xs
  -- Only what stands in the node has it around, so the lists end at the same place.
  induction xs with
  | nil =>
    intro ys h
    cases ys with
    | nil => exact ⟨rfl, h⟩
    | cons y ys =>
      rw [List.map_nil, List.nil_append] at h
      rw [h] at hrest
      exact nomatch hrest _ rfl
  | cons x xs ih =>
    intro ys h
    cases ys with
    | nil =>
      rw [List.map_nil, List.nil_append] at h
      rw [← h] at hmore
      exact nomatch hmore _ rfl
    | cons y ys =>
      obtain ⟨hfirst, htail⟩ := List.cons.inj h
      obtain ⟨haround, hnode⟩ := Standing.mk.inj hfirst
      obtain ⟨rfl, rfl⟩ := ih htail
      obtain ⟨xaround, xnode⟩ := x
      obtain ⟨yaround, ynode⟩ := y
      obtain rfl := (List.cons.inj haround).2
      obtain rfl := hnode
      exact ⟨rfl, rfl⟩

/-- A collection can be read off its list, if its nodes can be read off what is listed of them. -/
theorem eq_of_listedAll_eq {xs : List α}
    (h : ∀ a ∈ xs, ∀ b, node a = node b → owned a = owned b → a = b) :
    ∀ {ys : List α}, listedAll node owned xs = listedAll node owned ys → xs = ys := by
  induction xs with
  | nil =>
    intro ys hsame
    cases ys with
    | nil => rfl
    | cons b ys => cases hsame
  | cons a xs ih =>
    intro ys hsame
    obtain ⟨hfirst, hrest⟩ := List.forall_mem_cons.mp h
    cases ys with
    | nil => cases hsame
    | cons b ys =>
      rw [listedAll_cons, listedAll_cons] at hsame
      obtain ⟨hhead, htail⟩ := List.cons.inj hsame
      have hnode : node a = node b := (Standing.mk.inj hhead).2
      rw [hnode] at htail
      obtain ⟨howned, hmore⟩ := owned_eq_of_append_eq (around_head?_listedAll xs)
        (around_head?_listedAll ys) htail
      rw [hfirst b hnode howned, ih hrest hmore]

/-- Nodes that own nothing can be read off as they are. -/
theorem eq_of_leaves_eq (hnode : Function.Injective node) {xs ys : List α}
    (h : listedAll node (fun _ => []) xs = listedAll node (fun _ => []) ys) : xs = ys :=
  eq_of_listedAll_eq (fun _ _ _ hsame _ => hnode hsame) h

end Standing

/-- The parts of the members of a class in each collection. -/
theorem Class.inCollection_owned (c : Class) (collection : Collection) :
    inCollection collection c.owned
      = (if .constructors = collection then listedAll .construct (fun _ => []) c.constructors
          else [])
        ++ (if .fields = collection then listedAll .field (fun _ => []) c.fields else [])
        ++ if .methods = collection then listedAll .method (fun _ => []) c.methods else [] := by
  rw [owned, inCollection_append, inCollection_append,
    inCollection_listedAll .construct .constructors fun _ => rfl,
    inCollection_listedAll .field .fields fun _ => rfl,
    inCollection_listedAll .method .methods fun _ => rfl]

/-- A class is what it says itself and its members. -/
theorem Class.eq_of_owned {c other : Class} (hbare : c.bare = other.bare)
    (howned : c.owned = other.owned) : c = other := by
  have hpart (collection : Collection) := congrArg (inCollection collection) howned
  simp only [Class.inCollection_owned] at hpart
  have hconstructors := eq_of_leaves_eq (fun _ _ => Bare.construct.inj)
    (by simpa using hpart .constructors)
  have hfields := eq_of_leaves_eq (fun _ _ => Bare.field.inj) (by simpa using hpart .fields)
  have hmethods := eq_of_leaves_eq (fun _ _ => Bare.method.inj) (by simpa using hpart .methods)
  have hwhole (c : Class) : c = { c.bare with
    constructors := c.constructors, fields := c.fields, methods := c.methods } := rfl
  rw [hwhole c, hwhole other, hbare, hconstructors, hfields, hmethods]

/-- An interface owns its properties and its methods, each in the collection of that name. -/
theorem Interface.inCollection_owned (i : Interface) (collection : Collection) :
    inCollection collection i.owned
      = (if .properties = collection then listedAll .property (fun _ => []) i.properties else [])
        ++ if .methods = collection then listedAll .method (fun _ => []) i.methods else [] := by
  rw [owned, inCollection_append, inCollection_listedAll .property .properties fun _ => rfl,
    inCollection_listedAll .method .methods fun _ => rfl]

/-- An interface is known from its bare form and what it owns. -/
theorem Interface.eq_of_owned {i other : Interface} (hbare : i.bare = other.bare)
    (howned : i.owned = other.owned) : i = other := by
  have hpart (collection : Collection) := congrArg (inCollection collection) howned
  simp only [Interface.inCollection_owned] at hpart
  have hproperties := eq_of_leaves_eq (fun _ _ => Bare.property.inj)
    (by simpa using hpart .properties)
  have hmethods := eq_of_leaves_eq (fun _ _ => Bare.method.inj) (by simpa using hpart .methods)
  have hwhole (i : Interface) : i = { i.bare with
    properties := i.properties, methods := i.methods } := rfl
  rw [hwhole i, hwhole other, hbare, hproperties, hmethods]

/-- An enum is known from its bare form and what it owns. -/
theorem Enum.eq_of_owned {e other : Enum} (hbare : e.bare = other.bare)
    (howned : e.owned = other.owned) : e = other := by
  have hvalues := eq_of_leaves_eq (fun _ _ => Bare.value.inj) howned
  have hwhole (e : Enum) : e = { e.bare with values := e.values } := rfl
  rw [hwhole e, hwhole other, hbare, hvalues]

/-- The parts of what stands in a namespace in each collection. -/
theorem Namespace.inCollection_owned (ns : Namespace) (collection : Collection) :
    inCollection collection ns.owned
      = (if .nested = collection then
          listedAll (fun child => .nested child.scope.bare) Namespace.owned ns.nested else [])
        ++ ((if .constants = collection then
          listedAll .constant (fun _ => []) ns.scope.constants else [])
        ++ (if .functions = collection then
          listedAll .function (fun _ => []) ns.scope.functions else [])
        ++ (if .classes = collection then
          listedAll (fun c => .classType c.bare) Class.owned ns.scope.classes else [])
        ++ (if .interfaces = collection then
          listedAll (fun i => .interfaceType i.bare) Interface.owned ns.scope.interfaces else [])
        ++ if .enums = collection then
          listedAll (fun e => .enumType e.bare) Enum.owned ns.scope.enums else []) := by
  obtain ⟨scope, nested⟩ := ns
  rw [owned, ownedOf_eq, Scope.owned]
  simp only [inCollection_append]
  rw [inCollection_listedAll (fun child : Namespace => .nested child.scope.bare) .nested
      fun _ => rfl,
    inCollection_listedAll .constant .constants fun _ => rfl,
    inCollection_listedAll .function .functions fun _ => rfl,
    inCollection_listedAll (fun c : Class => .classType c.bare) .classes fun _ => rfl,
    inCollection_listedAll (fun i : Interface => .interfaceType i.bare) .interfaces fun _ => rfl,
    inCollection_listedAll (fun e : Enum => .enumType e.bare) .enums fun _ => rfl]

/-- A namespace is what it says itself and what stands in it. -/
theorem Namespace.eq_of_owned {ns : Namespace} :
    ∀ {other : Namespace}, ns.scope.bare = other.scope.bare → ns.owned = other.owned →
      ns = other := by
  induction ns using Namespace.induction with
  | step scope nested ih =>
    rintro ⟨other, more⟩ hbare howned
    have hpart (collection : Collection) := congrArg (inCollection collection) howned
    simp only [Namespace.inCollection_owned] at hpart
    have hnested := eq_of_listedAll_eq
      (fun child hchild b hnode => ih child hchild (Bare.nested.inj hnode))
      (by simpa using hpart .nested)
    have hconstants := eq_of_leaves_eq (fun _ _ => Bare.constant.inj)
      (by simpa using hpart .constants)
    have hfunctions := eq_of_leaves_eq (fun _ _ => Bare.function.inj)
      (by simpa using hpart .functions)
    have hclasses := eq_of_listedAll_eq
      (fun (_ : Class) _ _ hnode => Class.eq_of_owned (Bare.classType.inj hnode))
      (by simpa using hpart .classes)
    have hinterfaces := eq_of_listedAll_eq
      (fun (_ : Interface) _ _ hnode => Interface.eq_of_owned (Bare.interfaceType.inj hnode))
      (by simpa using hpart .interfaces)
    have henums := eq_of_listedAll_eq
      (fun (_ : Enum) _ _ hnode => Enum.eq_of_owned (Bare.enumType.inj hnode))
      (by simpa using hpart .enums)
    have hwhole (s : Scope) : s = { s.bare with
      constants := s.constants, functions := s.functions, classes := s.classes
      interfaces := s.interfaces, enums := s.enums } := rfl
    rw [hnested, hwhole scope, hwhole other, hbare, hconstants, hfunctions, hclasses, hinterfaces,
      henums]

/-! ## Exactly the restricted subtrees -/

/-- What is visible of a namespace is the namespace with the same fields of its own in which stand,
in the same order and otherwise unchanged, the nodes that are not restricted and do not stand in one
that is. So nothing in it is restricted. What is counted as removed are the restricted nodes around
which everything is kept. -/
theorem Namespace.removes_restricted (ns : Namespace) :
    (∀ left : Namespace, left = ns.visible ↔
      left.scope.bare = ns.scope.bare ∧ left.owned = ns.owned.filter isKept) ∧
    (∀ x ∈ ns.visible.owned, x.node.isRestricted = false) ∧
    ns.hidden = ns.owned.countP isRemoved := by
  refine ⟨fun left => ⟨?_, fun ⟨hbare, howned⟩ => ?_⟩, fun x hx => ?_, ns.hidden_eq_countP⟩
  · rintro rfl
    exact ⟨ns.bare_visible, ns.owned_visible⟩
  · exact Namespace.eq_of_owned (hbare.trans ns.bare_visible.symm)
      (howned.trans ns.owned_visible.symm)
  · rw [ns.owned_visible, List.mem_filter, isKept, Bool.and_eq_true] at hx
    simpa using hx.2.1

end Ambient.Api
