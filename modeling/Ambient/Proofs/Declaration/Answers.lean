import Ambient.Proofs.Declaration.Views

/-!
# What holds of every answer

How references are spelled depends on the page, so an action does not have one answer. A property
that its answers have on every page composes along the actions, and what holds of whatever is
written for an entry holds of all items of a document.
-/

namespace Ambient.Declaration

open Api

/-- Whatever the page, what an action answers has a property. -/
def Answers {α : Type} (m : Writing α) (P : α → Prop) : Prop := ∀ page, P (m.run page).1

namespace Answers

variable {α β : Type} {m : Writing α} {k : α → Writing β} {P : α → Prop} {Q : β → Prop}

/-- A given answer is answered. -/
theorem pure {a : α} (h : P a) : Answers (Pure.pure a) P := fun _ => h

/-- What is answered can be worked on. -/
theorem bind (h : Answers m P) (hk : ∀ a, P a → Answers (k a) Q) : Answers (m >>= k) Q :=
  fun page => hk _ (h page) _

/-- An action whose answer does not matter to what comes after it. -/
theorem seq (hk : ∀ a, Answers (k a) Q) : Answers (m >>= k) Q := fun _ => hk _ _

/-- Two properties of the answers. -/
theorem and {P' : α → Prop} (h : Answers m P) (h' : Answers m P') :
    Answers m fun a => P a ∧ P' a :=
  fun page => ⟨h page, h' page⟩

/-- What is written only if it is kept. -/
theorem kept {keep : Writing Bool} (h : Answers m P) :
    Answers (keep >>= fun kept => if !kept then Pure.pure none else m >>= Pure.pure ∘ some)
      fun answer => ∀ a ∈ answer, P a := by
  refine seq fun kept => ?_
  cases kept with
  | false => exact .pure (by simp)
  | true => exact h.bind fun a ha => .pure (by simpa using ha)

/-- Elements that are written one by one. -/
theorem writeSome {write : α → Writing (Option β)}
    (h : ∀ a, Answers (write a) fun answer => ∀ b ∈ answer, Q b) (xs : List α) :
    Answers (writeSome write xs) fun answer => ∀ b ∈ answer, Q b := by
  induction xs with
  | nil => exact .pure (List.forall_mem_nil _)
  | cons x rest ih =>
    refine (h x).bind fun first hfirst => ih.bind fun others hothers => .pure ?_
    intro b hb
    obtain hb | hb := List.mem_append.mp hb
    · exact hfirst b (Option.mem_toList.mp hb)
    · exact hothers b hb

/-- Of nothing, nothing is written. -/
theorem writeSome_nil (write : α → Writing (Option β)) (xs : List α) :
    Answers (Declaration.writeSome write xs) fun answer => xs = [] → answer = [] := by
  rintro page rfl
  rfl

end Answers

variable {w : Writer} {P : Item → Prop}

/-- What holds of every item that is written can be seen of all of them. -/
def View.ofAnswers (h : ∀ entry, Answers (w.write entry) fun answer => ∀ item ∈ answer, P item) :
    View w Prop where
  admits _ := True
  observe := P
  value entry := (w.outline? entry).map fun _ => True
  answer entry page _ := by
    rw [← (w.writes_entry entry).answer page, Option.map_map]
    cases hitem : ((w.write entry).run page).1 with
    | none => rfl
    | some item => exact congrArg some (eq_true (h entry page item hitem))
  keeps _ _ _ := trivial

/-- What holds of every item that is written for an entry, whatever the page, holds of the items of
a document. -/
theorem Writer.answers_document
    (h : ∀ entry, Answers (w.write entry) fun answer => ∀ item ∈ answer, P item) (flavor : Flavor)
    (modules : Ordered.Set String) (top : Namespace) :
    Answers (w.document flavor modules top) fun document => ∀ item ∈ document.items, P item := by
  intro page item hitem
  have hseen := (View.ofAnswers h).map_observe_document flavor (fun _ _ => trivial) modules top page
    trivial
  have hobserved := List.mem_map_of_mem (f := (View.ofAnswers h).observe) hitem
  rw [hseen] at hobserved
  obtain ⟨entry, -, hvalue⟩ := List.mem_filterMap.mp hobserved
  obtain ⟨_, -, htrue⟩ := Option.map_eq_some_iff.mp hvalue
  exact of_eq_true htrue.symm

end Ambient.Declaration
