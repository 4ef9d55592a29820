import Ambient.Proofs.Api.Validity
import Ambient.Proofs.Link.Naming
import Ambient.Proofs.Link.Unlinked

/-!
# Numbers in pre-order

A linked description has its nodes numbered in pre-order, without gaps and without repeats. The
arena has the entry of a node under its number, and the way up from there leads through the nodes
that own it: each owner has a smaller number, and the names on the way are the node's path.
-/

namespace Ambient

open Api

/-! ## Only the description itself is a root -/

section Kinds

variable (owner : Option Nat) (path : List String)

/-- A declared type has no root among its nodes. -/
theorem kind_ne_root_declaredType (t : DeclaredType) :
    ∀ n ∈ t.nodes owner path, n.kind ≠ .root := by
  cases t <;> simp [DeclaredType.nodes, SimpleType.node, Node.below]

/-- A type that may be missing has no root among its nodes. -/
theorem kind_ne_root_optional (t : Option DeclaredType) :
    ∀ n ∈ optionalNodes owner path t, n.kind ≠ .root := by
  cases t with
  | none => simp [optionalNodes]
  | some t => exact kind_ne_root_declaredType owner path t

/-- A parameter has no root among its nodes. -/
theorem kind_ne_root_parameter (q : Parameter) : ∀ n ∈ q.nodes owner path, n.kind ≠ .root := by
  obtain ⟨info, type⟩ := q
  cases type with
  | unspecified => simp [Parameter.nodes, Node.below]
  | declared type =>
    rw [Parameter.nodes, List.forall_mem_cons]
    exact ⟨by simp [Node.below], kind_ne_root_declaredType _ _ type⟩
  | shape entries => simp [Parameter.nodes, Node.below]

/-- A variable has no root among its nodes. -/
theorem kind_ne_root_variable (v : Variable) : ∀ n ∈ v.nodes owner path, n.kind ≠ .root := by
  rw [Variable.nodes, List.forall_mem_cons]
  exact ⟨by simp [Node.below], kind_ne_root_optional _ _ v.type⟩

/-- A function has no root among its nodes. -/
theorem kind_ne_root_function (f : Function) : ∀ n ∈ f.nodes owner path, n.kind ≠ .root := by
  rw [Function.nodes, List.forall_mem_cons, List.forall_mem_append, List.forall_mem_append,
    List.forall_mem_flatMap, List.forall_mem_flatMap]
  refine ⟨by simp [Node.below], ⟨fun q _ => kind_ne_root_parameter _ _ q, ?_⟩,
    fun o _ => kind_ne_root_optional _ _ o.type⟩
  cases f.returns with
  | none => simp
  | some o => exact kind_ne_root_optional _ _ o.type

/-- A class has no root among its nodes. -/
theorem kind_ne_root_class (c : Api.Class) : ∀ n ∈ c.nodes owner path, n.kind ≠ .root := by
  rw [Class.nodes, List.forall_mem_cons, List.forall_mem_append, List.forall_mem_append,
    List.forall_mem_flatMap, List.forall_mem_flatMap, List.forall_mem_flatMap]
  exact ⟨by simp [Node.below], ⟨fun f _ => kind_ne_root_function _ _ f,
    fun v _ => kind_ne_root_variable _ _ v⟩, fun f _ => kind_ne_root_function _ _ f⟩

/-- An interface has no root among its nodes. -/
theorem kind_ne_root_interface (i : Interface) : ∀ n ∈ i.nodes owner path, n.kind ≠ .root := by
  rw [Interface.nodes, List.forall_mem_cons, List.forall_mem_append, List.forall_mem_flatMap,
    List.forall_mem_flatMap]
  exact ⟨by simp [Node.below], fun v _ => kind_ne_root_variable _ _ v,
    fun f _ => kind_ne_root_function _ _ f⟩

/-- An enum has no root among its nodes. -/
theorem kind_ne_root_enum (e : Enum) : ∀ n ∈ e.nodes owner path, n.kind ≠ .root := by
  rw [Enum.nodes, List.forall_mem_cons, List.forall_mem_flatMap]
  exact ⟨by simp [Node.below], fun v _ => kind_ne_root_variable _ _ v⟩

/-- What a namespace declares itself has no root among its nodes. -/
theorem kind_ne_root_scope (s : Scope) : ∀ n ∈ s.nodes owner path, n.kind ≠ .root := by
  simp only [Scope.nodes, List.forall_mem_append, List.forall_mem_flatMap]
  exact ⟨⟨⟨⟨fun v _ => kind_ne_root_variable _ _ v, fun f _ => kind_ne_root_function _ _ f⟩,
    fun c _ => kind_ne_root_class _ _ c⟩, fun i _ => kind_ne_root_interface _ _ i⟩,
    fun e _ => kind_ne_root_enum _ _ e⟩

end Kinds

/-- A namespace has no root among its nodes, however deep they are nested. -/
theorem kind_ne_root_namespace (ns : Namespace) :
    ∀ (owner : Option Nat) (path : List String), ∀ n ∈ ns.nodes owner path, n.kind ≠ .root := by
  induction ns using Namespace.induction with
  | step scope nested ih =>
    intro owner path
    rw [Namespace.nodes, List.forall_mem_cons, List.forall_mem_append, Namespace.nodesOf_eq,
      List.forall_mem_flatMap]
    exact ⟨by simp [Node.below], fun child hchild => ih child hchild _ _,
      kind_ne_root_scope _ _ scope⟩

namespace Link

/-! ## Numbers and owners -/

section Attached

variable (d : Description)

/-- The node with a number has its entry, its parent and its dotted name under that number. -/
theorem numbered_attach {k : Nat} {n : Node} (hn : (attach d).1.nodes[k]? = some n) :
    (attach d).2.get? k = some n.entry ∧ n.link = ⟨some k, n.owner⟩ ∧
      (attach d).2.PathTo k n.path := by
  have hentered := entered_attach d
  have hmem := List.mem_of_getElem? hn
  obtain ⟨hget, hid⟩ := hentered.get?_add hn
  rw [show Arena.empty.size = 0 from rfl, Nat.zero_add] at hget hid
  obtain ⟨id, hsame, hpath⟩ := hentered.paths n hmem
  obtain rfl : k = id := Option.some.inj (hid.symm.trans hsame)
  have hparent := hentered.parents n hmem
  obtain ⟨kind, name, ⟨id, parent⟩, owner, path⟩ := n
  exact ⟨hget, by rw [Api.Link.mk.injEq]; exact ⟨hid, hparent⟩, hpath⟩

/-- A node behind the first belongs to a node with a smaller number, and its path goes on from the
path of that one. -/
theorem owned_attach {k : Nat} {n : Node} (hn : (attach d).1.nodes[k]? = some n) (hk : 0 < k) :
    n.kind ≠ .root ∧ ∃ j < k, ∃ o, (attach d).1.nodes[j]? = some o ∧
      n.owner = some j ∧ n.path = o.path ++ Arena.segments n.name := by
  obtain ⟨hget, _, hpath⟩ := numbered_attach d hn
  have hkind : n.kind ≠ .root := by
    obtain ⟨k, rfl⟩ : ∃ i, k = i + 1 := ⟨k - 1, by omega⟩
    rw [Description.nodes, List.getElem?_cons_succ] at hn
    exact kind_ne_root_namespace _ _ _ n (List.mem_of_getElem? hn)
  refine ⟨hkind, ?_⟩
  -- The arena names the owner, and has one path for it: that of the node with the owner's number.
  generalize hway : n.path = way at hpath
  cases hpath with
  | root hroot =>
    rw [hget] at hroot
    exact absurd (congrArg Arena.Entry.kind (Option.some.inj hroot)) hkind
  | @child _ j kind name rest hchild _ hlt howner =>
    have hentry : n.entry = ⟨kind, name, some j⟩ := Option.some.inj (hget.symm.trans hchild)
    have hname : n.name = name := congrArg Arena.Entry.name hentry
    have hparent : n.owner = some j := congrArg Arena.Entry.parent hentry
    have hshort : j < (attach d).1.nodes.length :=
      Nat.lt_trans hlt (List.getElem?_eq_some_iff.mp hn).1
    obtain ⟨o, ho⟩ : ∃ o, (attach d).1.nodes[j]? = some o :=
      ⟨_, List.getElem?_eq_getElem hshort⟩
    have hsame : o.path = rest := (numbered_attach d ho).2.2.unique howner
    exact ⟨j, hlt, o, ho, hparent, by rw [hname, hsame]⟩

end Attached

/-- Linking a description keeps everything but its links, and gives the same whatever links it
carried. The arena has one entry for each node, under the numbers of the pre-order: the root comes
first and has no owner, and every other node belongs to one with a smaller number, which its link
and its entry name as its parent. The dotted name of a node can be read off its number and joins
the names on the way down to the node. -/
theorem attach_numbers_nodes (d : Description) :
    (attach d).1.unlinked = d.unlinked ∧
      (∀ other : Description, other.unlinked = d.unlinked → attach other = attach d) ∧
      (attach d).2.size = (attach d).1.nodes.length ∧
      ∀ k n, (attach d).1.nodes[k]? = some n →
        (attach d).2.get? k = some n.entry ∧ n.link = ⟨some k, n.owner⟩ ∧
        (attach d).2.fqn k = .ok (".".intercalate n.path) ∧
        (k = 0 → n = ⟨.root, none, (attach d).1.link, none, []⟩) ∧
        (0 < k → n.kind ≠ .root ∧ ∃ j < k, ∃ o, (attach d).1.nodes[j]? = some o ∧
          n.owner = some j ∧ n.path = o.path ++ Arena.segments n.name) := by
  refine ⟨unlinked_attach d, fun other hother => ?_, ?_, fun k n hn => ?_⟩
  · rw [← attach_unlinked other, hother, attach_unlinked]
  · have hsize := (entered_attach d).size_eq
    simpa [show Arena.empty.size = 0 from rfl] using hsize
  · obtain ⟨hget, hlink, hpath⟩ := numbered_attach d hn
    refine ⟨hget, hlink, hpath.fqn_eq, ?_, owned_attach d hn⟩
    rintro rfl
    exact (Option.some.inj hn).symm

/-- A class whose constructor takes an option object and a value of one of two types. -/
def panel : Description :=
  let plain (name : String) (type : ParameterType) : Parameter :=
    .mk { (default : ParameterInfo) with name := name } type
  let named (name : String) : SimpleType := ⟨name, false, .unset⟩
  .ofTop (.plain "" [] [.plain "ui" [{ Class.plain "Panel" with
    constructors := [{ (default : Function) with
      parameters := [plain "options" (.shape [("width", plain "width" .unspecified)]),
        plain "content" (.declared (.union [named "int", named "string"] .unset))] }] }] []])

/-- A class with a constructor has its nodes numbered from the description down to the members of a
union. -/
theorem attach_numbers_nodes_panel :
    attach panel.unlinked = attach panel ∧ (attach panel).2.size = 10 ∧
      (attach panel).1.nodes.map (fun n => (n.kind, n.owner, n.path)) =
        [(.root, none, []), (.nameSpace, some 0, []), (.nameSpace, some 1, ["ui"]),
          (.classType, some 2, ["ui", "Panel"]), (.functionDesc, some 3, ["ui", "Panel"]),
          (.parameter, some 4, ["ui", "Panel", "options"]),
          (.parameter, some 4, ["ui", "Panel", "content"]),
          (.unionType, some 6, ["ui", "Panel", "content"]),
          (.simpleType, some 7, ["ui", "Panel", "content"]),
          (.simpleType, some 7, ["ui", "Panel", "content"])] := by
  obtain ⟨_, hother, hsize, _⟩ := attach_numbers_nodes panel
  exact ⟨hother panel.unlinked rfl, hsize.trans (by decide), by decide⟩

end Link

end Ambient
