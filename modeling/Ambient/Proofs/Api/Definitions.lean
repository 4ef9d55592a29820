import Ambient.Api.Validity
import Ambient.Symbol.Table
import Mathlib.Data.List.Basic

/-!
# The definitions of a namespace

A description defines namespaces, classes, interfaces and enums. They are listed here with their
dotted paths, in the order in which they are indexed: a namespace, what is nested in it, then its
classes, interfaces and enums. A valid description names all of them below its top level.
-/

namespace Ambient.Api

/-- Induction over a namespace by way of the namespaces nested in it. -/
theorem Namespace.induction {motive : Namespace → Prop}
    (step : ∀ scope nested, (∀ child ∈ nested, motive child) → motive ⟨scope, nested⟩) :
    ∀ ns, motive ns
  | ⟨scope, nested⟩ => step scope nested fun child _ => Namespace.induction step child
termination_by ns => sizeOf ns
decreasing_by
  have := List.sizeOf_lt_of_mem ‹child ∈ nested›
  simp only [Namespace.mk.sizeOf_spec]
  omega

mutual

/-- What a namespace and those nested in it declare themselves. -/
def Namespace.scopes : Namespace → List Scope
  | ⟨scope, nested⟩ => scope :: Namespace.scopesOf nested

/-- The same for a list of namespaces. -/
def Namespace.scopesOf : List Namespace → List Scope
  | [] => []
  | ns :: rest => ns.scopes ++ Namespace.scopesOf rest

end

/-- What nested namespaces declare is gathered namespace by namespace. -/
theorem Namespace.scopesOf_eq (nested : List Namespace) :
    scopesOf nested = nested.flatMap scopes := by
  induction nested with
  | nil => rfl
  | cons ns rest ih => rw [scopesOf, ih, List.flatMap_cons]

/-- Among what a namespace and those nested in it declare, its own comes first. -/
theorem Namespace.scopes_eq (ns : Namespace) : ns.scopes = ns.scope :: scopesOf ns.nested := by
  obtain ⟨scope, nested⟩ := ns
  rfl

/-- A class, interface or enum. -/
inductive TypeNode where
  | classType (c : Class)
  | interfaceType (i : Interface)
  | enumType (e : Enum)

namespace TypeNode

/-- The kind of the symbol it defines. -/
def kind : TypeNode → Symbol.Kind
  | .classType _ => .classType
  | .interfaceType _ => .interfaceType
  | .enumType _ => .enumType

/-- Its simple name. -/
def name : TypeNode → String
  | .classType c => c.name
  | .interfaceType i => i.name
  | .enumType e => e.name

/-- Its link. -/
def link : TypeNode → Link
  | .classType c => c.link
  | .interfaceType i => i.link
  | .enumType e => e.link

/-- A class, interface or enum is no namespace. -/
theorem kind_ne_nameSpace (n : TypeNode) : n.kind ≠ .nameSpace := by
  cases n <;> simp [kind]

end TypeNode

/-- The classes, interfaces and enums that a namespace declares itself. -/
def Scope.types (s : Scope) : List TypeNode :=
  s.classes.map .classType ++ s.interfaces.map .interfaceType ++ s.enums.map .enumType

/-- A namespace, class, interface or enum of a description. -/
structure Definition where
  kind : Symbol.Kind
  name : String
  link : Link
  /-- The dotted path under which it is defined. -/
  path : String
deriving DecidableEq, Repr

/-- The symbol that a library has for a definition. -/
def Definition.symbol (library : String) (x : Definition) : Symbol :=
  ⟨x.path, x.name, x.kind, library⟩

/-- The definition of a class, interface or enum of the namespace at a path. -/
def TypeNode.definition (path : String) (n : TypeNode) : Definition :=
  ⟨n.kind, n.name, n.link, joined path n.name⟩

/-- What a namespace at a path defines itself. -/
def Scope.definitions (path : String) (s : Scope) : List Definition :=
  s.types.map (TypeNode.definition path)

mutual

/-- The namespace at a path and everything defined below it. -/
def Namespace.definitions (path : String) : Namespace → List Definition
  | ⟨scope, nested⟩ =>
    ⟨.nameSpace, scope.name, scope.link, path⟩
      :: (Namespace.definitionsOf path nested ++ scope.definitions path)

/-- The namespaces nested in the one at a path and everything defined below them. -/
def Namespace.definitionsOf (path : String) : List Namespace → List Definition
  | [] => []
  | ⟨scope, nested⟩ :: rest =>
    Namespace.definitions (joined path scope.name) ⟨scope, nested⟩
      ++ Namespace.definitionsOf path rest

end

/-- Everything defined below a namespace at a path. -/
def Namespace.inside (path : String) (ns : Namespace) : List Definition :=
  Namespace.definitionsOf path ns.nested ++ ns.scope.definitions path

/-- The namespace at a path as a definition. -/
def Namespace.definition (path : String) (ns : Namespace) : Definition :=
  ⟨.nameSpace, ns.name, ns.scope.link, path⟩

/-- Everything a description defines; the top-level namespace has the empty path. -/
def Description.definitions (d : Description) : List Definition := d.top.definitions ""

namespace Namespace

/-- The definitions of a namespace are itself and what is defined inside it. -/
theorem definitions_eq (path : String) (ns : Namespace) :
    ns.definitions path = ns.definition path :: ns.inside path := by
  obtain ⟨scope, nested⟩ := ns
  rw [definitions]
  rfl

/-- What nested namespaces define is gathered namespace by namespace. -/
theorem definitionsOf_eq (path : String) (nested : List Namespace) :
    definitionsOf path nested =
      nested.flatMap fun child => child.definitions (joined path child.name) := by
  induction nested with
  | nil => rfl
  | cons child rest ih =>
    obtain ⟨scope, inner⟩ := child
    rw [definitionsOf, ih]
    rfl

/-- What is defined below a namespace is a nested namespace or below one, or it is declared by the
namespace itself. -/
theorem mem_inside {path : String} {ns : Namespace} {x : Definition} :
    x ∈ ns.inside path ↔
      (∃ child ∈ ns.nested, x ∈ child.definitions (joined path child.name)) ∨
        ∃ n ∈ ns.scope.types, n.definition path = x := by
  rw [inside, definitionsOf_eq, List.mem_append, List.mem_flatMap, Scope.definitions, List.mem_map]

/-- A definition of a namespace is itself or is defined inside it. -/
theorem mem_definitions {path : String} {ns : Namespace} {x : Definition} :
    x ∈ ns.definitions path ↔ x = ns.definition path ∨ x ∈ ns.inside path := by
  rw [definitions_eq, List.mem_cons]

end Namespace

/-! ## Paths -/

/-- Below a path the name is joined to it with a dot. -/
theorem joined_of_ne {path : String} (h : path ≠ "") (name : String) :
    joined path name = path ++ "." ++ name := by
  rw [joined, if_neg]
  simpa using h

/-- Below the empty path the name is the whole path. -/
theorem joined_empty (name : String) : joined "" name = name := rfl

/-- A name gives a path below any other. -/
theorem joined_ne_empty {path name : String} (h : name ≠ "") : joined path name ≠ "" := by
  by_cases hpath : path = ""
  · simpa [hpath, joined_empty] using h
  · rw [joined_of_ne hpath]
    simp [h]

/-- What is defined below a namespace has a path that ends in its name. -/
theorem Namespace.exists_joined_of_mem_inside {ns : Namespace} {x : Definition} :
    ∀ {path : String}, x ∈ ns.inside path → ∃ here, x.path = joined here x.name := by
  induction ns using Namespace.induction with
  | step scope nested ih =>
    intro path hx
    obtain ⟨child, hchild, hx⟩ | ⟨n, _, rfl⟩ := mem_inside.mp hx
    · obtain rfl | hx := mem_definitions.mp hx
      · exact ⟨path, rfl⟩
      · exact ih child hchild hx
    · exact ⟨path, rfl⟩

/-- What is defined below a namespace has a path, if everything there has a name. -/
theorem Namespace.inside_path_ne {ns : Namespace} :
    ∀ {path : String}, (∀ x ∈ ns.inside path, x.name ≠ "") → ∀ x ∈ ns.inside path, x.path ≠ "" := by
  induction ns using Namespace.induction with
  | step scope nested ih =>
    intro path hnames x hx
    obtain ⟨child, hchild, hx⟩ | ⟨n, hn, rfl⟩ := mem_inside.mp hx
    · have hmem (y : Definition) (hy : y ∈ child.definitions (joined path child.name)) :
          y.name ≠ "" :=
        hnames y (mem_inside.mpr (.inl ⟨child, hchild, hy⟩))
      obtain rfl | hx := mem_definitions.mp hx
      · exact joined_ne_empty (hmem _ (mem_definitions.mpr (.inl rfl)))
      · exact ih child hchild (fun y hy => hmem y (mem_definitions.mpr (.inr hy))) x hx
    · exact joined_ne_empty (hnames _ (mem_inside.mpr (.inr ⟨n, hn, rfl⟩)))

/-- A path seen from one level further out: `top` in front, unless it has no name. -/
def under (top path : String) : String :=
  if path.isEmpty then top else joined top path

/-- Below a top level, the empty path is its name. -/
theorem under_empty_path (top : String) : under top "" = top := rfl

/-- Below a top level without a name every path stays as it is. -/
theorem under_unnamed (path : String) : under "" path = path := by
  by_cases h : path = "" <;> simp [under, joined, h]

/-- Below a top level a path stays different from the empty one. -/
theorem under_ne_empty {top path : String} (h : path ≠ "") : under top path ≠ "" := by
  rw [under, if_neg (by simpa using h)]
  exact joined_ne_empty h

/-- Joining a name and putting a path below a top level can be done in either order. -/
theorem under_joined (top path : String) {name : String} (h : name ≠ "") :
    under top (joined path name) = joined (under top path) name := by
  have hname : under top name = joined top name := by simp [under, h]
  by_cases hpath : path = ""
  · simpa [hpath, joined_empty, under_empty_path] using hname
  · by_cases htop : top = ""
    · simp [htop, under_unnamed]
    · have hunder : under top path = top ++ "." ++ path := by
        simp [under, hpath, joined_of_ne htop]
      have hne : top ++ "." ++ path ≠ "" := by simp [htop]
      rw [hunder, joined_of_ne hne, joined_of_ne hpath, under, if_neg (by simp), joined_of_ne htop]
      simp only [String.append_assoc]

/-- Different paths stay different under a common outer level. -/
theorem under_injective (top : String) : Function.Injective (under top) := by
  intro p q h
  by_cases htop : top = ""
  · simpa [htop, under_unnamed] using h
  · have hlonger (s : String) : top ≠ top ++ "." ++ s := by
      intro heq
      have hlength := congrArg String.length heq
      have hdot : ".".length = 1 := rfl
      rw [String.length_append, String.length_append] at hlength
      omega
    by_cases hp : p = "" <;> by_cases hq : q = ""
    · rw [hp, hq]
    · exact absurd (by simpa [under, hp, hq, joined_of_ne htop] using h) (hlonger q)
    · exact absurd (by simpa [under, hp, hq, joined_of_ne htop] using h.symm) (hlonger p)
    · simpa [under, hp, hq, joined_of_ne htop] using h

/-- The definition as it is seen from one level further out. -/
def Definition.under (top : String) (x : Definition) : Definition :=
  { x with path := Api.under top x.path }

/-- A class, interface or enum defined below a top level has its path put below it. -/
theorem TypeNode.definition_under (top path : String) {n : TypeNode} (h : n.name ≠ "") :
    n.definition (Api.under top path) = (n.definition path).under top := by
  rw [definition, definition, Definition.under, under_joined top path h]

/-- A namespace whose definitions have names defines the same from one level further out. -/
theorem Namespace.definitions_under (top : String) (ns : Namespace) :
    ∀ {path : String}, (∀ x ∈ ns.inside path, x.name ≠ "") →
      ns.definitions (Api.under top path) = (ns.definitions path).map (Definition.under top) := by
  induction ns using Namespace.induction with
  | step scope nested ih =>
    intro path hnames
    have hnested : definitionsOf (Api.under top path) nested
        = (definitionsOf path nested).map (Definition.under top) := by
      rw [definitionsOf_eq, definitionsOf_eq, List.map_flatMap]
      refine List.flatMap_congr fun child hchild => ?_
      have hmem (x : Definition) (hx : x ∈ child.definitions (joined path child.name)) :
          x.name ≠ "" :=
        hnames x (mem_inside.mpr (.inl ⟨child, hchild, hx⟩))
      have hname : child.name ≠ "" := hmem _ (mem_definitions.mpr (.inl rfl))
      rw [← under_joined top path hname]
      exact ih child hchild fun x hx => hmem x (mem_definitions.mpr (.inr hx))
    have htypes : scope.definitions (Api.under top path)
        = (scope.definitions path).map (Definition.under top) := by
      rw [Scope.definitions, Scope.definitions, List.map_map]
      exact List.map_congr_left fun n hn => TypeNode.definition_under top path
        (hnames _ (mem_inside.mpr (.inr ⟨n, hn, rfl⟩)))
    rw [definitions_eq, definitions_eq, inside, inside, hnested, htypes, List.map_cons,
      List.map_append]
    rfl

end Ambient.Api

/-!
## Namespaces at their paths

Every namespace of a description stands at a path, that of the names of the namespaces around it and
its own. What is defined anywhere below a namespace is declared by one of the namespaces that stand
there: it is nested directly in that one, or is one of its classes, interfaces and enums.
-/

namespace Ambient.Api

mutual

/-- The namespace at a path and those nested in it at any depth, each with its own path. -/
def Namespace.located (path : String) : Namespace → List (String × Namespace)
  | ⟨scope, nested⟩ => (path, ⟨scope, nested⟩) :: Namespace.locatedOf path nested

/-- The namespaces nested in the one at a path at any depth, each with its own path. -/
def Namespace.locatedOf (path : String) : List Namespace → List (String × Namespace)
  | [] => []
  | ⟨scope, nested⟩ :: rest =>
    Namespace.located (joined path scope.name) ⟨scope, nested⟩ ++ Namespace.locatedOf path rest

end

/-- What the namespace at a path declares itself: the namespaces nested directly in it, and its
classes, interfaces and enums. -/
def Namespace.declared (path : String) (ns : Namespace) : List Definition :=
  ns.nested.map (fun child => child.definition (joined path child.name))
    ++ ns.scope.definitions path

/-- The namespaces of a description with their paths; the top-level namespace has the empty one. -/
def Description.located (d : Description) : List (String × Namespace) := d.top.located ""

namespace Namespace

variable {path here : String} {ns inner : Namespace} {x : Definition}

/-- The namespaces located at a path are the one there, then those nested in it. -/
theorem located_eq (path : String) (ns : Namespace) :
    ns.located path = (path, ns) :: locatedOf path ns.nested := by
  obtain ⟨scope, nested⟩ := ns
  rw [located]

/-- The namespaces nested in one are located each at its own path. -/
theorem locatedOf_eq (path : String) (nested : List Namespace) :
    locatedOf path nested = nested.flatMap fun child => child.located (joined path child.name) := by
  induction nested with
  | nil => rfl
  | cons child rest ih =>
    obtain ⟨scope, inner⟩ := child
    rw [locatedOf, ih]
    rfl

/-- A namespace stands at its own path, or where it stands below one that is nested directly. -/
theorem mem_located :
    (here, inner) ∈ ns.located path ↔ (here = path ∧ inner = ns) ∨
      ∃ child ∈ ns.nested, (here, inner) ∈ child.located (joined path child.name) := by
  rw [located_eq, List.mem_cons, Prod.mk.injEq, locatedOf_eq, List.mem_flatMap]

/-- A namespace declares those nested directly in it and its own classes, interfaces and enums. -/
theorem mem_declared :
    x ∈ ns.declared path ↔
      (∃ child ∈ ns.nested, child.definition (joined path child.name) = x) ∨
        ∃ n ∈ ns.scope.types, n.definition path = x := by
  rw [declared, List.mem_append, List.mem_map, Scope.definitions, List.mem_map]

/-- What is declared by a namespace has the path of the namespace with its own name behind it. -/
theorem path_of_mem_declared (h : x ∈ ns.declared path) : x.path = joined path x.name := by
  obtain ⟨child, _, rfl⟩ | ⟨n, _, rfl⟩ := mem_declared.mp h <;> rfl

/-- A namespace that stands below another is defined there at its path. -/
theorem definition_mem_of_located :
    ∀ {path : String}, (here, inner) ∈ ns.located path → inner.definition here ∈ ns.definitions path := by
  induction ns using Namespace.induction with
  | step scope nested ih =>
    intro path h
    obtain ⟨rfl, rfl⟩ | ⟨child, hchild, h⟩ := mem_located.mp h
    · exact mem_definitions.mpr (.inl rfl)
    · exact mem_definitions.mpr (.inr (mem_inside.mpr (.inl ⟨child, hchild, ih child hchild h⟩)))

/-- What is defined below a namespace is declared by it or by one that stands below it. -/
theorem mem_inside_iff_declared :
    x ∈ ns.inside path ↔
      ∃ here inner, (here, inner) ∈ ns.located path ∧ x ∈ inner.declared here := by
  induction ns using Namespace.induction generalizing path with
  | step scope nested ih =>
    rw [mem_inside]
    constructor
    · rintro (⟨child, hchild, hx⟩ | hx)
      · obtain rfl | hx := mem_definitions.mp hx
        · exact ⟨path, _, mem_located.mpr (.inl ⟨rfl, rfl⟩),
            mem_declared.mpr (.inl ⟨child, hchild, rfl⟩)⟩
        · obtain ⟨here, inner, hinner, hx⟩ := (ih child hchild).mp hx
          exact ⟨here, inner, mem_located.mpr (.inr ⟨child, hchild, hinner⟩), hx⟩
      · exact ⟨path, _, mem_located.mpr (.inl ⟨rfl, rfl⟩), mem_declared.mpr (.inr hx)⟩
    · rintro ⟨here, inner, hinner, hx⟩
      obtain ⟨rfl, rfl⟩ | ⟨child, hchild, hinner⟩ := mem_located.mp hinner
      · obtain ⟨child, hchild, rfl⟩ | hx := mem_declared.mp hx
        · exact .inl ⟨child, hchild, mem_definitions.mpr (.inl rfl)⟩
        · exact .inr hx
      · exact .inl ⟨child, hchild,
          mem_definitions.mpr (.inr ((ih child hchild).mpr ⟨here, inner, hinner, hx⟩))⟩

end Namespace

end Ambient.Api
