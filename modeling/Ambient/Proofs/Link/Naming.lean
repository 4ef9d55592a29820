import Mathlib.Data.List.Basic
import Ambient.Proofs.Link.Nodes

/-!
# Names read off the links

In a linked description the links of all nodes can be followed. What they give for a namespace,
class, interface or enum is its dotted path, seen from the top-level namespace with its name. The
namespaces, classes, interfaces and enums of the arena are exactly those of the description.
-/

namespace Ambient

open Api Arena

/-! ## Dotted paths -/

/-- A name that is not empty is one segment. -/
theorem segments_of_ne {name : String} (h : name ≠ "") : segments (some name) = [name] := by
  simp [segments, h]

/-- The segments of a name are not empty. -/
theorem segments_name_ne {name : Option String} : ∀ s ∈ segments name, s ≠ "" := by
  intro s hs
  cases name with
  | none => simp [segments] at hs
  | some name =>
    by_cases h : name = ""
    · simp [segments, h] at hs
    · simpa [segments_of_ne h, h] using fun hempty : s = "" => by
        simp [segments_of_ne h] at hs
        exact h (hs ▸ hempty)

/-- Segments put together with dots are not empty, if there are any. -/
theorem intercalate_ne_empty {path : List String} (hne : path ≠ [])
    (hnames : ∀ s ∈ path, s ≠ "") : ".".intercalate path ≠ "" := by
  match path, hne with
  | [s], _ => simpa using hnames s (by simp)
  | s :: t :: rest, _ => simp [String.intercalate_cons_cons]

/-- One more name at the end of a path of names is joined to the dotted path. -/
theorem intercalate_append_segments {path : List String} (hnames : ∀ s ∈ path, s ≠ "")
    {name : String} (h : name ≠ "") :
    ".".intercalate (path ++ segments (some name)) = joined (".".intercalate path) name := by
  rw [segments_of_ne h]
  by_cases hpath : path = []
  · simp [hpath, joined_empty]
  · rw [String.intercalate_append_of_ne_nil hpath (by simp), String.intercalate_singleton,
      joined_of_ne (intercalate_ne_empty hpath hnames)]

/-- A path of names that are not empty stays one with a name at its end. -/
theorem append_segments_name_ne {path : List String} (hnames : ∀ s ∈ path, s ≠ "")
    (name : Option String) : ∀ s ∈ path ++ segments name, s ≠ "" := by
  intro s hs
  exact (List.mem_append.mp hs).elim (hnames s) (segments_name_ne s)

/-! ## Aggregates among the nodes -/

namespace Node

/-- Whether a node is a namespace, class, interface or enum. -/
def isAggregate (n : Node) : Bool := Arena.isAggregate n.kind

/-- The link of a node with its dotted path. -/
def place (n : Node) : Link × String := (n.link, ".".intercalate n.path)

end Node

/-- The link of a definition with its dotted path. -/
def Api.Definition.place (x : Definition) : Link × String := (x.link, x.path)

section Members

variable (owner : Option Nat) (path : List String)

/-- A declared type has no namespace, class, interface or enum among its nodes. -/
theorem filter_nodes_declaredType (t : DeclaredType) :
    (t.nodes owner path).filter Node.isAggregate = [] := by
  cases t <;> simp [DeclaredType.nodes, SimpleType.node, Node.below, Node.isAggregate,
    Arena.isAggregate]

/-- A type that may be missing has no namespace, class, interface or enum among its nodes. -/
theorem filter_optionalNodes (t : Option DeclaredType) :
    (optionalNodes owner path t).filter Node.isAggregate = [] := by
  cases t with
  | none => rfl
  | some t => exact filter_nodes_declaredType owner path t

/-- A variable has no namespace, class, interface or enum among its nodes. -/
theorem filter_nodes_variable (v : Variable) :
    (v.nodes owner path).filter Node.isAggregate = [] := by
  rw [Variable.nodes, List.filter_cons_of_neg (by simp [Node.below, Node.isAggregate,
    Arena.isAggregate]), filter_optionalNodes]

/-- A parameter has no namespace, class, interface or enum among its nodes. -/
theorem filter_nodes_parameter (q : Parameter) :
    (q.nodes owner path).filter Node.isAggregate = [] := by
  obtain ⟨info, type⟩ := q
  cases type <;>
    simp [Parameter.nodes, filter_nodes_declaredType, Node.below, Node.isAggregate,
      Arena.isAggregate]

/-- A function has no namespace, class, interface or enum among its nodes. -/
theorem filter_nodes_function (f : Function) :
    (f.nodes owner path).filter Node.isAggregate = [] := by
  rw [Function.nodes, List.filter_cons_of_neg (by simp [Node.below, Node.isAggregate,
    Arena.isAggregate])]
  cases f.returns <;>
    simp [List.filter_flatMap, filter_nodes_parameter, Outcome.nodes, filter_optionalNodes]

/-- Of a class with its members only the class itself is an aggregate. -/
theorem filter_nodes_class (c : Api.Class) :
    (c.nodes owner path).filter Node.isAggregate
      = [.below owner path .classType (some c.name) c.link] := by
  rw [Api.Class.nodes, List.filter_cons_of_pos rfl]
  simp [List.filter_flatMap, filter_nodes_function, filter_nodes_variable]

/-- Among the nodes of an interface only itself is a namespace, class, interface or enum. -/
theorem filter_nodes_interface (i : Interface) :
    (i.nodes owner path).filter Node.isAggregate
      = [.below owner path .interfaceType (some i.name) i.link] := by
  rw [Interface.nodes, List.filter_cons_of_pos rfl]
  simp [List.filter_flatMap, filter_nodes_function, filter_nodes_variable]

/-- Among the nodes of an enum only itself is a namespace, class, interface or enum. -/
theorem filter_nodes_enum (e : Enum) :
    (e.nodes owner path).filter Node.isAggregate
      = [.below owner path .enumType (some e.name) e.link] := by
  rw [Enum.nodes, List.filter_cons_of_pos rfl]
  simp [List.filter_flatMap, filter_nodes_variable]

/-- The place of a type node below a path of names. -/
theorem place_below {path : List String} (hpath : ∀ s ∈ path, s ≠ "") {kind : Kind}
    {name : String} (hname : name ≠ "") (link : Link) :
    (Node.below owner path kind (some name) link).place
      = (link, joined (".".intercalate path) name) := by
  rw [Node.place, Node.below, intercalate_append_segments hpath hname]

/-- The aggregates among the nodes of what a namespace declares itself are what it defines. -/
theorem place_nodes_scope {path : List String} (hpath : ∀ s ∈ path, s ≠ "") {s : Scope}
    (hnames : ∀ n ∈ s.types, n.name ≠ "") :
    ((s.nodes owner path).filter Node.isAggregate).map Node.place
      = (s.definitions (".".intercalate path)).map Definition.place := by
  have hplace (n : TypeNode) (hn : n ∈ s.types) (kind : Kind) :
      (Node.below owner path kind (some n.name) n.link).place
        = (n.definition (".".intercalate path)).place :=
    place_below owner hpath (hnames n hn) n.link
  have hnil {α : Type} (l : List α) : l.flatMap (fun _ => ([] : List Node)) = [] := by simp
  simp only [Scope.nodes, Scope.definitions, Scope.types, List.filter_append, List.filter_flatMap,
    filter_nodes_function, filter_nodes_variable, filter_nodes_class, filter_nodes_interface,
    filter_nodes_enum, hnil, List.nil_append, List.map_append, List.map_map, ← List.map_eq_flatMap]
  congr 1
  · congr 1
    · exact List.map_congr_left fun c hc => hplace (.classType c) (by simp [Scope.types, hc]) _
    · exact List.map_congr_left fun i hi => hplace (.interfaceType i) (by simp [Scope.types, hi]) _
  · exact List.map_congr_left fun e he => hplace (.enumType e) (by simp [Scope.types, he]) _

end Members

/-- The aggregates among the nodes of a namespace are what it defines, if that is named. -/
theorem place_nodes_namespace (ns : Namespace) :
    ∀ (owner : Option Nat) {path : List String}, (∀ s ∈ path, s ≠ "") →
      (∀ x ∈ ns.inside (".".intercalate (path ++ segments (some ns.name))), x.name ≠ "") →
      ((ns.nodes owner path).filter Node.isAggregate).map Node.place
        = (ns.definitions (".".intercalate (path ++ segments (some ns.name)))).map
            Definition.place := by
  induction ns using Namespace.induction with
  | step scope nested ih =>
    intro owner path hpath hnames
    -- The path of names gets no empty segment on the way down, so it can be read off its text.
    have hhere := append_segments_name_ne hpath (some scope.name)
    have htypes : ∀ n ∈ scope.types, n.name ≠ "" := fun n hn =>
      hnames _ (Namespace.mem_inside.mpr (.inr ⟨n, hn, rfl⟩))
    have hchildren (child : Namespace) (hchild : child ∈ nested) :
        ((child.nodes scope.link.id (path ++ segments (some scope.name))).filter
            Node.isAggregate).map Node.place
          = (child.definitions (joined
              (".".intercalate (path ++ segments (some scope.name))) child.name)).map
              Definition.place := by
      have hmem (x : Definition) (hx : x ∈ child.definitions (joined
          (".".intercalate (path ++ segments (some scope.name))) child.name)) : x.name ≠ "" :=
        hnames x (Namespace.mem_inside.mpr (.inl ⟨child, hchild, hx⟩))
      have hname : child.name ≠ "" := hmem _ (Namespace.mem_definitions.mpr (.inl rfl))
      have hbelow := ih child hchild scope.link.id hhere
      rw [intercalate_append_segments hhere hname] at hbelow
      exact hbelow fun x hx => hmem x (Namespace.mem_definitions.mpr (.inr hx))
    rw [Namespace.nodes, Namespace.nodesOf_eq, List.filter_cons_of_pos rfl, List.filter_append,
      List.filter_flatMap, Namespace.definitions_eq, Namespace.inside, Namespace.definitionsOf_eq,
      List.map_cons, List.map_cons, List.map_append, List.map_append, List.map_flatMap,
      List.map_flatMap]
    refine congrArg (List.cons _) ?_
    exact congr (congrArg HAppend.hAppend (List.flatMap_congr hchildren))
      (place_nodes_scope _ hhere htypes)

/-! ## Names in a linked description -/

namespace Link

variable {d : Description}

/-- The link of every node of a linked description can be followed, and leads over its path. -/
theorem fqnOf_node {n : Node} (hn : n ∈ (attach d).1.nodes) (name : String) :
    (attach d).2.fqnOf n.link name = .ok (".".intercalate n.path) := by
  obtain ⟨id, hid, hpath⟩ := (entered_attach d).paths n hn
  rw [fqnOf, hid]
  exact hpath.fqn_eq

/-- Every entry of the arena of a linked description belongs to one of its nodes. -/
theorem exists_node_of_get? {id : Nat} {entry : Arena.Entry}
    (h : (attach d).2.get? id = some entry) :
    ∃ n ∈ (attach d).1.nodes, n.entry = entry ∧ n.link.id = some id := by
  have hentered := entered_attach d
  have hlt : id < (attach d).2.size := (Array.getElem?_eq_some_iff.mp h).1
  have hsize := hentered.size_eq
  have hempty : Arena.empty.size = 0 := rfl
  have hlength : id < (attach d).1.nodes.length := by omega
  have hget := List.getElem?_eq_getElem hlength
  obtain ⟨hentry, hid⟩ := hentered.get?_add hget
  rw [hempty, Nat.zero_add] at hentry hid
  exact ⟨_, List.mem_of_getElem? hget, Option.some.inj (hentry.symm.trans h), hid⟩

/-- Every node of a linked description has its entry under its number. -/
theorem get?_of_node {n : Node} (hn : n ∈ (attach d).1.nodes) {id : Nat}
    (hid : n.link.id = some id) : (attach d).2.get? id = some n.entry := by
  obtain ⟨k, hk⟩ := List.mem_iff_getElem?.mp hn
  obtain ⟨hentry, hnumber⟩ := (entered_attach d).get?_add hk
  rw [hid, Option.some.injEq] at hnumber
  rwa [hnumber]

/-- What a linked description defines stands under its dotted path in the arena. -/
theorem place_nodes (hnames : ∀ x ∈ (attach d).1.top.inside (attach d).1.top.name, x.name ≠ "") :
    ((attach d).1.nodes.filter Node.isAggregate).map Node.place
      = ((attach d).1.top.definitions (attach d).1.top.name).map Definition.place := by
  have htop : ".".intercalate ([] ++ segments (some (attach d).1.top.name))
      = (attach d).1.top.name := by
    by_cases h : (attach d).1.top.name = ""
    · rw [h]
      rfl
    · simp [segments_of_ne h]
  have hnodes := @place_nodes_namespace (attach d).1.top (attach d).1.link.id [] (by simp)
  rw [htop] at hnodes
  rw [Description.nodes, List.filter_cons_of_neg (by simp [Node.isAggregate, Arena.isAggregate])]
  exact hnodes hnames

section Named

variable (hnames : ∀ x ∈ (attach d).1.top.inside (attach d).1.top.name, x.name ≠ "")
include hnames

/-- Every definition of a linked description is a node, and the names over it are its path. -/
theorem exists_node_of_definition {x : Definition}
    (hx : x ∈ (attach d).1.top.definitions (attach d).1.top.name) :
    ∃ n ∈ (attach d).1.nodes, n.isAggregate = true ∧ n.link = x.link ∧
      ".".intercalate n.path = x.path := by
  have hplace : x.place ∈ ((attach d).1.nodes.filter Node.isAggregate).map Node.place := by
    rw [place_nodes hnames]
    exact List.mem_map_of_mem hx
  obtain ⟨n, hn, hsame⟩ := List.mem_map.mp hplace
  obtain ⟨hn, haggregate⟩ := List.mem_filter.mp hn
  exact ⟨n, hn, haggregate, congrArg Prod.fst hsame, congrArg Prod.snd hsame⟩

/-- Every aggregate among the nodes of a linked description is defined under the names over it. -/
theorem exists_definition_of_node {n : Node} (hn : n ∈ (attach d).1.nodes)
    (haggregate : n.isAggregate = true) :
    ∃ x ∈ (attach d).1.top.definitions (attach d).1.top.name,
      x.path = ".".intercalate n.path := by
  have hplace : n.place ∈ ((attach d).1.top.definitions (attach d).1.top.name).map
      Definition.place := by
    rw [← place_nodes hnames]
    exact List.mem_map_of_mem (List.mem_filter.mpr ⟨hn, haggregate⟩)
  obtain ⟨x, hx, hsame⟩ := List.mem_map.mp hplace
  exact ⟨x, hx, congrArg Prod.snd hsame⟩

/-- What a linked description defines has its dotted path as its name. -/
theorem fqnOf_definition {x : Definition}
    (hx : x ∈ (attach d).1.top.definitions (attach d).1.top.name) (name : String) :
    (attach d).2.fqnOf x.link name = .ok x.path := by
  obtain ⟨n, hn, _, hlink, hpath⟩ := exists_node_of_definition hnames hx
  rw [← hlink, ← hpath]
  exact fqnOf_node hn name

/-- The aggregates of the arena of a linked description have the paths of what it defines. -/
theorem mem_aggregateNames {fqn : String} :
    fqn ∈ (attach d).2.aggregateNames ↔
      ∃ x ∈ (attach d).1.top.definitions (attach d).1.top.name, x.path = fqn := by
  rw [aggregateNames, List.mem_filterMap]
  constructor
  · rintro ⟨id, _, hread⟩
    split at hread
    · next entry hget =>
      split at hread
      · next haggregate =>
        obtain ⟨n, hn, rfl, hid⟩ := exists_node_of_get? hget
        obtain ⟨x, hx, hpath⟩ := exists_definition_of_node hnames hn haggregate
        have hfqn : (attach d).2.fqn id = .ok (".".intercalate n.path) := by
          simpa only [fqnOf, hid] using fqnOf_node hn ""
        rw [hfqn] at hread
        exact ⟨x, hx, hpath.trans (Option.some.inj hread)⟩
      · cases hread
    · cases hread
  · rintro ⟨x, hx, rfl⟩
    obtain ⟨n, hn, haggregate, _, hpath⟩ := exists_node_of_definition hnames hx
    obtain ⟨id, hid, hwalk⟩ := (entered_attach d).paths n hn
    refine ⟨id, List.mem_range.mpr hwalk.lt_size, ?_⟩
    rw [get?_of_node hn hid, hwalk.fqn_eq, hpath]
    exact if_pos haggregate

end Named

end Link

end Ambient
