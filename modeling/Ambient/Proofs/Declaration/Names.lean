import Ambient.Declaration.Emission
import Ambient.Proofs.Link.RoundTrip

/-!
# Names that emission asks for

Emission fails at the first node whose dotted name cannot be read off its link. All the names it
asks for are those of nodes of the description, and in a linked description all of these can be
read.
-/

namespace Ambient.Declaration

open Api Arena

variable {owner : Option Nat} {path : List String}

/-- The check of names passes exactly if each can be read off its link. -/
theorem checkNames_eq_ok {arena : Arena} {nodes : List (Link × String)} :
    checkNames arena nodes = .ok () ↔
      ∀ node ∈ nodes, ∃ fqn, arena.fqnOf node.1 node.2 = .ok fqn := by
  induction nodes with
  | nil => exact ⟨fun _ _ h => (nomatch h), fun _ => rfl⟩
  | cons node rest ih =>
    rw [List.forall_mem_cons, ← ih, checkNames]
    cases arena.fqnOf node.1 node.2 with
    | error e => exact ⟨fun h => (nomatch h), fun h => (nomatch h.1)⟩
    | ok fqn => exact ⟨fun h => ⟨⟨fqn, rfl⟩, h⟩, fun h => h.2⟩

/-- The names asked for in nested namespaces are asked for namespace by namespace. -/
theorem namedNodesOf_eq (nested : List Namespace) :
    namedNodesOf nested = nested.flatMap namedNodes := by
  induction nested with
  | nil => rfl
  | cons ns rest ih => rw [namedNodesOf, ih, List.flatMap_cons]

/-- Among the nodes are all those whose names are asked for. -/
def Covers (nodes : List Node) (named : List (Link × String)) : Prop :=
  ∀ asked ∈ named, ∃ n ∈ nodes, n.link = asked.1

namespace Covers

/-- Two runs of nodes cover what is asked for of both. -/
theorem append {nodes more : List Node} {named others : List (Link × String)}
    (h : Covers nodes named) (hmore : Covers more others) :
    Covers (nodes ++ more) (named ++ others) := by
  intro asked hasked
  obtain hasked | hasked := List.mem_append.mp hasked
  · obtain ⟨n, hn, hlink⟩ := h asked hasked
    exact ⟨n, List.mem_append_left _ hn, hlink⟩
  · obtain ⟨n, hn, hlink⟩ := hmore asked hasked
    exact ⟨n, List.mem_append_right _ hn, hlink⟩

/-- A node covers itself in front of others. -/
theorem cons {n : Node} {nodes : List Node} {named : List (Link × String)} (name : String)
    (h : Covers nodes named) : Covers (n :: nodes) ((n.link, name) :: named) := by
  have hhead : Covers [n] [(n.link, name)] := by simp [Covers]
  exact hhead.append h

/-- Nodes gathered from items cover what is asked for of all the items. -/
theorem flatMap {α : Type} {nodes : α → List Node} {named : α → List (Link × String)}
    {items : List α} (h : ∀ a ∈ items, Covers (nodes a) (named a)) :
    Covers (items.flatMap nodes) (items.flatMap named) := by
  induction items with
  | nil => exact fun _ h => (nomatch h)
  | cons a rest ih =>
    obtain ⟨ha, hrest⟩ := List.forall_mem_cons.mp h
    rw [List.flatMap_cons, List.flatMap_cons]
    exact ha.append (ih hrest)

/-- The nodes of variables cover what is asked for of them. -/
theorem ofVariables (list : List Variable) :
    Covers (list.flatMap (Variable.nodes owner path)) (variableNodes list) := by
  rw [variableNodes, List.map_eq_flatMap]
  exact flatMap fun v _ => cons v.name fun _ h => (nomatch h)

/-- The nodes of functions cover what is asked for of them. -/
theorem ofFunctions (list : List Function) :
    Covers (list.flatMap (Function.nodes owner path)) (functionNodes list) := by
  rw [functionNodes, List.map_eq_flatMap]
  exact flatMap fun f _ => cons f.name fun _ h => (nomatch h)

/-- The nodes of what a namespace declares itself cover the names asked for in it. -/
theorem ofScope (s : Scope) : Covers (s.nodes owner path) (scopeNodes s) := by
  refine ((((ofVariables s.constants).append (ofFunctions s.functions)).append
    (flatMap fun c _ => ?_)).append (flatMap fun i _ => ?_)).append (flatMap fun e _ => ?_)
  · exact cons c.name (((ofFunctions c.constructors).append (ofVariables c.fields)).append
      (ofFunctions c.methods))
  · exact cons i.name ((ofVariables i.properties).append (ofFunctions i.methods))
  · exact cons e.name (ofVariables e.values)

/-- The nodes of a namespace cover the names asked for in it. -/
theorem ofNamespace (ns : Namespace) :
    ∀ {owner : Option Nat} {path : List String},
      Covers (ns.nodes owner path) (namedNodes ns) := by
  induction ns using Namespace.induction with
  | step inner nested ih =>
    intro owner path
    have hnested {owner : Option Nat} {path : List String} :
        Covers (Namespace.nodesOf owner path nested) (namedNodesOf nested) := by
      rw [Namespace.nodesOf_eq, namedNodesOf_eq]
      exact flatMap fun child hchild => ih child hchild
    -- The names are asked for in another order than that of the nodes.
    have hbody : Covers (Namespace.nodesOf inner.link.id (path ++ segments (some inner.name)) nested
        ++ inner.nodes inner.link.id (path ++ segments (some inner.name)))
        (scopeNodes inner ++ namedNodesOf nested) := fun asked hasked =>
      (hnested.append (ofScope inner)) asked (List.perm_append_comm.subset hasked)
    exact cons inner.name hbody

end Covers

/-- The dotted names that emission asks for can be read in a linked description. -/
theorem checkNames_attach (d : Description) :
    checkNames (Link.attach d).2 (namedNodes (Link.attach d).1.top) = .ok () := by
  have hcovers : Covers ((Link.attach d).1.top.nodes (Link.attach d).1.link.id [])
      (namedNodes (Link.attach d).1.top) := Covers.ofNamespace _
  refine checkNames_eq_ok.mpr fun asked hasked => ?_
  obtain ⟨n, hn, hlink⟩ := hcovers asked hasked
  rw [← hlink]
  exact ⟨_, Link.fqnOf_node (List.mem_cons_of_mem _ hn) asked.2⟩

section Run

variable {library : String} {table : Symbol.Table} {d : Description} {linked : Correction.Linked}

/-- The dotted name of a node does not depend on the simple name that a message would have. -/
theorem fqnOf_eq_namingOf {arena : Arena} {link : Link} {name fqn : String}
    (h : arena.fqnOf link name = .ok fqn) : arena.fqnOf link name = .ok (namingOf arena link) := by
  rw [fqnOf] at h ⊢
  cases hid : link.id with
  | none =>
    rw [hid] at h
    cases h
  | some id =>
    rw [hid] at h
    have hempty : arena.fqnOf link "" = .ok fqn := by
      rw [fqnOf, hid]
      exact h
    rw [namingOf, hempty]
    exact h

/-- Every dotted name that emission asks for in a corrected library can be read. -/
theorem fqnOf_namedNodes (h : Correction.run library table d = .ok linked) :
    ∀ asked ∈ namedNodes linked.description.top,
      linked.arena.fqnOf asked.1 asked.2 = .ok (namingOf linked.arena asked.1) := by
  obtain ⟨_, rfl⟩ := Correction.run_eq_ok.mp h
  intro asked hasked
  obtain ⟨fqn, hfqn⟩ := checkNames_eq_ok.mp (checkNames_attach _) asked hasked
  exact fqnOf_eq_namingOf hfqn

/-- A corrected library can be emitted. -/
theorem emit_of_run (h : Correction.run library table d = .ok linked) (merged : Symbol.Table)
    (directives : Directives) (flavor : Flavor) :
    emit linked merged directives flavor
      = .ok (emitNamed library merged directives flavor (namingOf linked.arena)
          linked.description.top) := by
  obtain ⟨_, rfl⟩ := Correction.run_eq_ok.mp h
  rw [emit, checkNames_attach]
  rfl

/-- The dotted name of a definition is its path with the name of the top level in front. -/
theorem namingOf_of_run (hd : d.check = .ok ()) (h : Correction.run library table d = .ok linked)
    {x : Definition} (hx : x ∈ linked.description.definitions) :
    namingOf linked.arena x.link = under d.top.name x.path := by
  rw [namingOf, Correction.fqnOf_of_run hd h hx]

end Run

end Ambient.Declaration
