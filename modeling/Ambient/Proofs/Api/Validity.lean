import Ambient.Proofs.Api.Definitions

/-!
# What valid descriptions promise

A description that has been checked names every namespace, class, interface and enum below its
top level. The top-level namespace itself may have any name or none.
-/

namespace Ambient.Api

/-- A sequence of checks passes exactly if each of its parts does. -/
theorem seq_eq_ok {ε α : Type} {a : Except ε Unit} {b : Except ε α} {r : α} :
    (a >>= fun _ => b) = .ok r ↔ a = .ok () ∧ b = .ok r := by
  cases a with
  | error e => exact ⟨(fun h => nomatch h), fun h => nomatch h.1⟩
  | ok u => exact ⟨fun h => ⟨rfl, h⟩, fun h => h.2⟩

/-- A check of all elements of a list passes exactly if each element does. -/
theorem forM_eq_ok {ε α : Type} {check : α → Except ε Unit} {as : List α} :
    as.forM check = .ok () ↔ ∀ a ∈ as, check a = .ok () := by
  induction as with
  | nil => exact ⟨fun _ _ h => (nomatch h), fun _ => rfl⟩
  | cons a as ih =>
    rw [List.forall_mem_cons, ← ih]
    exact seq_eq_ok

/-- What passes the check of a name has one. -/
theorem name_ne_of_expectName {parent : String} {kind : Kind} {name : String}
    (h : expectName parent kind name = .ok ()) : name ≠ "" := by
  rintro rfl
  exact nomatch h

/-- What passes the check of a node has a name. -/
theorem name_ne_of_expectNode {parent : String} {expected found : Kind} {name : String}
    (h : expectNode parent expected found name = .ok ()) : name ≠ "" :=
  name_ne_of_expectName (seq_eq_ok.mp h).2

/-- What a checked namespace declares itself has a name. -/
theorem Scope.type_name_ne {path : String} {s : Scope} (h : s.check path = .ok ()) {n : TypeNode}
    (hn : n ∈ s.types) : n.name ≠ "" := by
  obtain ⟨_, h⟩ := seq_eq_ok.mp h
  obtain ⟨_, h⟩ := seq_eq_ok.mp h
  obtain ⟨hclasses, h⟩ := seq_eq_ok.mp h
  obtain ⟨hinterfaces, henums⟩ := seq_eq_ok.mp h
  simp only [Scope.types, List.mem_append, List.mem_map] at hn
  obtain (⟨c, hc, rfl⟩ | ⟨i, hi, rfl⟩) | ⟨e, he, rfl⟩ := hn
  · exact name_ne_of_expectNode (seq_eq_ok.mp (forM_eq_ok.mp hclasses c hc)).1
  · exact name_ne_of_expectNode (seq_eq_ok.mp (forM_eq_ok.mp hinterfaces i hi)).1
  · exact name_ne_of_expectNode (seq_eq_ok.mp (forM_eq_ok.mp henums e he)).1

/-- A check of nested namespaces checks that each has a name and each by itself. -/
theorem Namespace.checkNested_eq_ok {path : String} {nested : List Namespace}
    (h : Namespace.checkNested path nested = .ok ()) {child : Namespace} (hchild : child ∈ nested) :
    child.name ≠ "" ∧ child.check (joined path child.name) = .ok () := by
  induction nested with
  | nil => cases hchild
  | cons first rest ih =>
    obtain ⟨scope, inner⟩ := first
    rw [Namespace.checkNested] at h
    obtain ⟨hnode, h⟩ := seq_eq_ok.mp h
    obtain ⟨hfirst, hrest⟩ := seq_eq_ok.mp h
    obtain rfl | hchild := List.mem_cons.mp hchild
    · exact ⟨name_ne_of_expectNode hnode, hfirst⟩
    · exact ih hrest hchild

/-- Everything that a checked namespace defines below itself has a name, wherever it stands. -/
theorem Namespace.inside_name_ne {ns : Namespace} :
    ∀ {checked : String}, ns.check checked = .ok () →
      ∀ path, ∀ x ∈ ns.inside path, x.name ≠ "" := by
  induction ns using Namespace.induction with
  | step scope nested ih =>
    intro checked h path x hx
    rw [Namespace.check] at h
    obtain ⟨hnested, hscope⟩ := seq_eq_ok.mp h
    obtain ⟨child, hchild, hx⟩ | ⟨n, hn, rfl⟩ := Namespace.mem_inside.mp hx
    · obtain ⟨hname, hcheck⟩ := Namespace.checkNested_eq_ok hnested hchild
      obtain rfl | hx := Namespace.mem_definitions.mp hx
      · exact hname
      · exact ih child hchild hcheck _ x hx
    · exact Scope.type_name_ne hscope hn

/-- Everything that a checked description defines below its top level has a name. -/
theorem Description.inside_name_ne {d : Description} (h : d.check = .ok ()) (path : String) :
    ∀ x ∈ d.top.inside path, x.name ≠ "" :=
  Namespace.inside_name_ne (seq_eq_ok.mp (seq_eq_ok.mp h).2).2 path

/-- A description that is read from a text has been checked, so that what is proved of checked
descriptions holds of all that are read. -/
theorem Description.check_of_parse {text : String} {d : Description}
    (h : Description.parse text = .ok d) : d.check = .ok () := by
  unfold Description.parse at h
  split at h
  · cases h
  · obtain ⟨hcheck, hsame⟩ := seq_eq_ok.mp h
    cases hsame
    exact hcheck

/-! ## Plain nodes -/

/-- A class of a name with nothing in it. -/
def Class.plain (name : String) : Class :=
  { (default : Class) with kind := .classType, name := name }

/-- A namespace of a name that holds classes and other namespaces. -/
def Namespace.plain (name : String) (classes : List Class) (nested : List Namespace) : Namespace :=
  ⟨{ (default : Scope) with kind := .nameSpace, name := name, classes := classes }, nested⟩

/-- The description with a top-level namespace. -/
def Description.ofTop (top : Namespace) : Description := ⟨.root, "", top, .unset⟩

end Ambient.Api
