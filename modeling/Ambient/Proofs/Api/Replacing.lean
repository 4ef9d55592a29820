import Ambient.Api.Basic

/-!
# Changing the first element that passes a test

What is found after the first element that passes a test has been changed, in a list and at the end
of a path of namespaces. If the change leaves the element that is found as it is, it leaves
everything as it is.
-/

namespace Ambient.Api.Namespace

section List

variable {α : Type} {test other : α → Bool} {change : α → α} {items : List α}

/-- Replacing the first match by itself changes nothing. -/
theorem replaceFirst_eq_self (h : ∀ a, items.find? test = some a → change a = a) :
    replaceFirst test change items = items := by
  induction items with
  | nil => rfl
  | cons a rest ih =>
    rw [replaceFirst]
    cases htest : test a with
    | true => rw [if_pos rfl, h a (by rw [List.find?_cons, htest])]
    | false =>
      rw [if_neg (by simp), ih fun b hb => h b (by rw [List.find?_cons, htest]; exact hb)]

/-- A change that keeps the outcome of the test is found where it was made. -/
theorem find?_replaceFirst (h : ∀ a, test (change a) = test a) (items : List α) :
    (replaceFirst test change items).find? test = (items.find? test).map change := by
  induction items with
  | nil => rfl
  | cons a rest ih =>
    rw [replaceFirst, List.find?_cons]
    cases htest : test a with
    | true => simp [h, htest]
    | false => simpa [List.find?_cons, htest] using ih

/-- A test that no changed element passes, before or after, finds what it found. -/
theorem find?_replaceFirst_of_not (change : α → α) (h : ∀ a, test a = true → other a = false)
    (hchange : ∀ a, test a = true → other (change a) = false) (items : List α) :
    (replaceFirst test change items).find? other = items.find? other := by
  induction items with
  | nil => rfl
  | cons a rest ih =>
    rw [replaceFirst]
    split
    · next htest => simp [h a htest, hchange a htest]
    · rw [List.find?_cons, List.find?_cons, ih]

/-- Where the change keeps a number, so does every change of one element. -/
theorem countP_replaceFirst (test : α → Bool) (change : α → α)
    (h : ∀ a, other (change a) = other a) (items : List α) :
    (replaceFirst test change items).countP other = items.countP other := by
  induction items with
  | nil => rfl
  | cons a rest ih =>
    rw [replaceFirst]
    split
    · rw [List.countP_cons, List.countP_cons, h]
    · rw [List.countP_cons, List.countP_cons, ih]

end List

/-- If the namespace that is reached stays as it is, or none is reached, nothing is changed. -/
theorem modifyAt_eq_self {change : Namespace → Namespace} {way : List String} {ns : Namespace}
    (h : ∀ found, ns.find? way = some found → change found = found) :
    ns.modifyAt change way = ns := by
  induction way generalizing ns with
  | nil => exact h ns rfl
  | cons name rest ih =>
    obtain ⟨scope, nested⟩ := ns
    rw [modifyAt, replaceFirst_eq_self]
    intro child hchild
    refine ih fun found hfound => h found ?_
    rw [find?]
    simpa [hchild] using hfound

/-- A change below a namespace keeps the namespace's name, if the change itself keeps names. -/
theorem name_modifyAt (change : Namespace → Namespace) (hname : ∀ ns, (change ns).name = ns.name)
    (way : List String) (ns : Namespace) : (ns.modifyAt change way).name = ns.name := by
  cases way with
  | nil => exact hname ns
  | cons name rest => rfl

/-- The namespace that has been changed is reached by the path by which it was reached. -/
theorem find?_modifyAt (change : Namespace → Namespace) (hname : ∀ ns, (change ns).name = ns.name)
    (way : List String) (ns : Namespace) :
    (ns.modifyAt change way).find? way = (ns.find? way).map change := by
  induction way generalizing ns with
  | nil => rfl
  | cons name rest ih =>
    have htest (child : Namespace) :
        ((child.modifyAt change rest).name == name) = (child.name == name) := by
      rw [name_modifyAt change hname]
    rw [modifyAt, find?, find?, find?_replaceFirst htest]
    cases ns.nested.find? fun child => child.name == name with
    | none => rfl
    | some child => exact ih child

end Ambient.Api.Namespace
