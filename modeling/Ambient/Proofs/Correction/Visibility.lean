import Ambient.Correction.Visibility
import Ambient.Proofs.Api.Definitions
import Ambient.Proofs.Api.Replacing
import Ambient.Proofs.Link.Unlinked

/-!
# What is hidden

The number of hidden nodes tells whether hiding changes anything: where nothing is hidden, the
visible part is all there is, and nothing is hidden in a visible part. Links do not count, and
neither does a change of one namespace that hides nothing in it.
-/

namespace Ambient.Api

section Lists

variable {α : Type} {visibility : α → Option Visibility} {visible : α → α} {hidden : α → Nat}

/-- A collection with nothing hidden is visible as it is. -/
theorem visibleOf_eq_self {items : List α} (h : hiddenOf visibility items = 0) :
    visibleOf visibility items = items := by
  rw [hiddenOf, List.countP_eq_zero] at h
  exact List.filter_eq_self.mpr (by simpa using h)

/-- In the visible part of a collection nothing is hidden. -/
theorem hiddenOf_visibleOf (visibility : α → Option Visibility) (items : List α) :
    hiddenOf visibility (visibleOf visibility items) = 0 := by
  simp [hiddenOf, visibleOf]

/-- The number of elements that may not appear, and of what is hidden in the others. -/
def hiddenWithin (visibility : α → Option Visibility) (hidden : α → Nat) (items : List α) : Nat :=
  hiddenOf visibility items + ((visibleOf visibility items).map hidden).foldr (· + ·) 0

/-- Nothing is hidden within a collection exactly if no node of it is hidden and none hides
anything. -/
theorem hiddenWithin_eq_zero {items : List α} : hiddenWithin visibility hidden items = 0 ↔
    hiddenOf visibility items = 0 ∧ ∀ a ∈ items, hidden a = 0 := by
  rw [hiddenWithin, Nat.add_eq_zero_iff]
  refine and_congr_right fun h => ?_
  rw [visibleOf_eq_self h]
  exact List.sum_eq_zero_iff_forall_eq_nat.trans List.forall_mem_map

/-- Elements that have nothing to hide stay as they are. -/
theorem map_visibleOf_eq_self (hself : ∀ a, hidden a = 0 → visible a = a) {items : List α}
    (h : hiddenWithin visibility hidden items = 0) :
    (visibleOf visibility items).map visible = items := by
  obtain ⟨hitems, hwithin⟩ := hiddenWithin_eq_zero.mp h
  rw [visibleOf_eq_self hitems]
  exact (List.map_congr_left fun a ha => hself a (hwithin a ha)).trans (List.map_id' items)

/-- What is left of elements has nothing to hide. -/
theorem hiddenWithin_map_visibleOf (visibility : α → Option Visibility) (visible : α → α)
    (hidden : α → Nat) (hkept : ∀ a, visibility (visible a) = visibility a)
    (hnone : ∀ a, hidden (visible a) = 0) (items : List α) :
    hiddenWithin visibility hidden ((visibleOf visibility items).map visible) = 0 := by
  refine hiddenWithin_eq_zero.mpr ⟨?_, List.forall_mem_map.mpr fun a _ => hnone a⟩
  rw [hiddenOf, List.countP_map]
  simp only [Function.comp_def, hkept]
  exact hiddenOf_visibleOf visibility items

/-- A change that keeps what is hidden of each element keeps it of all. -/
theorem hiddenOf_map (visibility : α → Option Visibility) (change : α → α)
    (hkept : ∀ a, visibility (change a) = visibility a) (items : List α) :
    hiddenOf visibility (items.map change) = hiddenOf visibility items := by
  rw [hiddenOf, List.countP_map]
  simp only [Function.comp_def, hkept]
  rfl

/-- A change of nodes that keeps what each of them hides keeps what is hidden within the collection.
-/
theorem hiddenWithin_map (visibility : α → Option Visibility) (hidden : α → Nat) (change : α → α)
    (hkept : ∀ a, visibility (change a) = visibility a) (hsame : ∀ a, hidden (change a) = hidden a)
    (items : List α) :
    hiddenWithin visibility hidden (items.map change) = hiddenWithin visibility hidden items := by
  rw [hiddenWithin, hiddenWithin, hiddenOf_map _ _ hkept, visibleOf, visibleOf, List.filter_map,
    List.map_map]
  simp only [Function.comp_def, hkept, hsame]

end Lists

/-- A class that hides nothing is visible as it is. -/
theorem Class.visible_eq_self {c : Class} (h : c.hidden = 0) : c.visible = c := by
  rw [Class.hidden, Nat.add_eq_zero_iff, Nat.add_eq_zero_iff] at h
  obtain ⟨⟨hconstructors, hfields⟩, hmethods⟩ := h
  rw [Class.visible, visibleOf_eq_self hconstructors, visibleOf_eq_self hfields,
    visibleOf_eq_self hmethods]

/-- An interface that hides nothing is visible as it is. -/
theorem Interface.visible_eq_self {i : Interface} (h : i.hidden = 0) : i.visible = i := by
  obtain ⟨hproperties, hmethods⟩ := Nat.add_eq_zero_iff.mp h
  rw [Interface.visible, visibleOf_eq_self hproperties, visibleOf_eq_self hmethods]

/-- An enum that hides nothing is visible as it is. -/
theorem Enum.visible_eq_self {e : Enum} (h : e.hidden = 0) : e.visible = e := by
  rw [Enum.visible, visibleOf_eq_self h]

/-- The visible part of a class hides nothing. -/
theorem Class.hidden_visible (c : Class) : c.visible.hidden = 0 := by
  simp [Class.hidden, Class.visible, hiddenOf_visibleOf]

/-- The visible part of an interface hides nothing. -/
theorem Interface.hidden_visible (i : Interface) : i.visible.hidden = 0 := by
  simp [Interface.hidden, Interface.visible, hiddenOf_visibleOf]

/-- The visible part of an enum hides nothing. -/
theorem Enum.hidden_visible (e : Enum) : e.visible.hidden = 0 := by
  simp [Enum.hidden, Enum.visible, hiddenOf_visibleOf]

/-- What a scope hides is what its five collections hide together. -/
theorem Scope.hidden_eq (s : Scope) : s.hidden
    = hiddenOf Variable.visibility s.constants + hiddenOf Function.visibility s.functions
      + hiddenWithin Class.visibility Class.hidden s.classes
      + hiddenWithin Interface.visibility Interface.hidden s.interfaces
      + hiddenWithin Enum.visibility Enum.hidden s.enums := rfl

/-- A scope that hides nothing is visible as it is. -/
theorem Scope.visible_eq_self {s : Scope} (h : s.hidden = 0) : s.visible = s := by
  rw [Scope.hidden_eq] at h
  simp only [Nat.add_eq_zero_iff] at h
  obtain ⟨⟨⟨⟨hconstants, hfunctions⟩, hclasses⟩, hinterfaces⟩, henums⟩ := h
  rw [Scope.visible, visibleOf_eq_self hconstants, visibleOf_eq_self hfunctions,
    map_visibleOf_eq_self (fun _ => Class.visible_eq_self) hclasses,
    map_visibleOf_eq_self (fun _ => Interface.visible_eq_self) hinterfaces,
    map_visibleOf_eq_self (fun _ => Enum.visible_eq_self) henums]

/-- The visible part of a scope hides nothing. -/
theorem Scope.hidden_visible (s : Scope) : s.visible.hidden = 0 := by
  have hclasses := hiddenWithin_map_visibleOf Class.visibility Class.visible Class.hidden
    (fun _ => rfl) Class.hidden_visible s.classes
  have hinterfaces := hiddenWithin_map_visibleOf Interface.visibility Interface.visible
    Interface.hidden (fun _ => rfl) Interface.hidden_visible s.interfaces
  have henums := hiddenWithin_map_visibleOf Enum.visibility Enum.visible Enum.hidden
    (fun _ => rfl) Enum.hidden_visible s.enums
  simp only [Scope.hidden_eq, Scope.visible, hiddenOf_visibleOf, hclasses, hinterfaces, henums]

namespace Namespace

/-- A namespace in which nothing is hidden stays as it is. -/
theorem visible_eq_self (ns : Namespace) : ns.hidden = 0 → ns.visible = ns := by
  induction ns using Namespace.induction with
  | step scope nested ih =>
    intro h
    rw [hidden, Nat.add_eq_zero_iff] at h
    have hnested : visibleAll nested = nested := by
      replace h := h.1
      induction nested with
      | nil => rfl
      | cons child rest ihRest =>
        obtain ⟨hchild, hrest⟩ := List.forall_mem_cons.mp ih
        obtain ⟨inner, deeper⟩ := child
        rw [hiddenAll, Nat.add_eq_zero_iff] at h
        by_cases hvisible : isEmittable inner.visibility = true
        · rw [if_pos hvisible] at h
          rw [visibleAll, if_pos hvisible, hchild h.1, ihRest hrest h.2]
        · rw [if_neg hvisible] at h
          exact absurd h.1 Nat.one_ne_zero
    rw [visible, hnested, Scope.visible_eq_self h.2]

/-- Nothing is hidden in what is visible of a namespace. -/
theorem hidden_visible (ns : Namespace) : ns.visible.hidden = 0 := by
  induction ns using Namespace.induction with
  | step scope nested ih =>
    have hnested : hiddenAll (visibleAll nested) = 0 := by
      induction nested with
      | nil => rfl
      | cons child rest ihRest =>
        obtain ⟨hchild, hrest⟩ := List.forall_mem_cons.mp ih
        obtain ⟨inner, deeper⟩ := child
        rw [visibleAll]
        split
        · next hvisible =>
          rw [visible] at hchild ⊢
          have hkept : isEmittable inner.visible.visibility = true := hvisible
          rw [hiddenAll, if_pos hkept, hchild, ihRest hrest]
        · exact ihRest hrest
    rw [visible, hidden, hnested, Scope.hidden_visible]

end Namespace

/-! ## Links hide nothing -/

/-- Which functions are hidden does not depend on links. -/
theorem hiddenOf_unlinked_functions (fs : List Function) :
    hiddenOf Function.visibility (fs.map Function.unlinked) = hiddenOf Function.visibility fs :=
  hiddenOf_map Function.visibility Function.unlinked (fun _ => rfl) fs

/-- Which variables are hidden does not depend on links. -/
theorem hiddenOf_unlinked_variables (vs : List Variable) :
    hiddenOf Variable.visibility (vs.map Variable.unlinked) = hiddenOf Variable.visibility vs :=
  hiddenOf_map Variable.visibility Variable.unlinked (fun _ => rfl) vs

/-- What a class hides does not depend on links. -/
theorem Class.hidden_unlinked (c : Class) : c.unlinked.hidden = c.hidden := by
  simp only [Class.hidden, Class.unlinked, hiddenOf_unlinked_functions, hiddenOf_unlinked_variables]

/-- What an interface hides does not depend on links. -/
theorem Interface.hidden_unlinked (i : Interface) : i.unlinked.hidden = i.hidden := by
  simp only [Interface.hidden, Interface.unlinked, hiddenOf_unlinked_functions,
    hiddenOf_unlinked_variables]

/-- What an enum hides does not depend on links. -/
theorem Enum.hidden_unlinked (e : Enum) : e.unlinked.hidden = e.hidden :=
  hiddenOf_unlinked_variables e.values

/-- What a scope hides does not depend on links. -/
theorem Scope.hidden_unlinked (s : Scope) : s.unlinked.hidden = s.hidden := by
  have hclasses := hiddenWithin_map Class.visibility Class.hidden Class.unlinked (fun _ => rfl)
    Class.hidden_unlinked s.classes
  have hinterfaces := hiddenWithin_map Interface.visibility Interface.hidden Interface.unlinked
    (fun _ => rfl) Interface.hidden_unlinked s.interfaces
  have henums := hiddenWithin_map Enum.visibility Enum.hidden Enum.unlinked (fun _ => rfl)
    Enum.hidden_unlinked s.enums
  simp only [Scope.hidden_eq, Scope.unlinked, hiddenOf_unlinked_functions,
    hiddenOf_unlinked_variables, hclasses, hinterfaces, henums]

/-- What is hidden in a namespace does not depend on links. -/
theorem Namespace.hidden_unlinked (ns : Namespace) : ns.unlinked.hidden = ns.hidden := by
  induction ns using Namespace.induction with
  | step scope nested ih =>
    have hnested : hiddenAll (unlinkedAll nested) = hiddenAll nested := by
      induction nested with
      | nil => rfl
      | cons child rest ihRest =>
        obtain ⟨hchild, hrest⟩ := List.forall_mem_cons.mp ih
        obtain ⟨inner, deeper⟩ := child
        rw [unlinked] at hchild
        rw [unlinkedAll, unlinked, hiddenAll, hiddenAll, hchild, ihRest hrest]
        rfl
    rw [unlinked, hidden, hidden, hnested, Scope.hidden_unlinked]

/-! ## Changing one namespace -/

/-- Changing one namespace hides nothing if the change hides nothing in it. -/
theorem Namespace.hidden_modifyAt (change : Namespace → Namespace)
    (hhidden : ∀ ns, (change ns).hidden = ns.hidden)
    (hvisibility : ∀ ns, (change ns).scope.visibility = ns.scope.visibility) (way : List String) :
    ∀ ns : Namespace, (ns.modifyAt change way).hidden = ns.hidden ∧
      (ns.modifyAt change way).scope.visibility = ns.scope.visibility := by
  induction way with
  | nil => exact fun ns => ⟨hhidden ns, hvisibility ns⟩
  | cons name way ih =>
    rintro ⟨scope, nested⟩
    refine ⟨?_, rfl⟩
    have hcons (child : Namespace) (rest : List Namespace) : Namespace.hiddenAll (child :: rest)
        = (if isEmittable child.scope.visibility then child.hidden else 1)
          + Namespace.hiddenAll rest := by
      obtain ⟨inner, deeper⟩ := child
      rw [Namespace.hiddenAll]
    have hnested : Namespace.hiddenAll (Namespace.replaceFirst (fun child => child.name == name)
        (Namespace.modifyAt change way) nested) = Namespace.hiddenAll nested := by
      induction nested with
      | nil => rfl
      | cons child rest ihRest =>
        rw [Namespace.replaceFirst]
        split
        · rw [hcons, hcons, (ih child).1, (ih child).2]
        · rw [hcons, hcons, ihRest]
    rw [Namespace.modifyAt, Namespace.hidden, Namespace.hidden, hnested]

end Ambient.Api
