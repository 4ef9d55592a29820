import Ambient.Declaration.Emission
import Ambient.Declaration.Item
import Mathlib.Data.List.Basic

/-!
# What writing depends on

References are spelled by the place where they are written, so the text of a declaration varies
with the page. What does not vary is what a declaration declares, and the warnings it gives: they
are added to those of the page, one after the other. Both compose along the actions.
Two runs on pages that differ are compared by a relation between the pages.
-/

namespace Ambient.Declaration

/-- Whatever the page, an action's answer looks the same to an observer, and it adds the same
warnings. -/
structure Writes {α β : Type} (m : Writing α) (observe : α → β) (value : β)
    (notes : List Warning) : Prop where
  answer : ∀ page, observe (m.run page).1 = value
  warnings : ∀ page, (m.run page).2.warnings = page.warnings.insertAll notes

/-- The warnings of an action, whatever it answers, do not depend on the page. -/
def Notes {α : Type} (m : Writing α) : Prop := ∃ notes, Writes m (fun _ => ()) () notes

namespace Writes

variable {α β γ δ : Type} {m : Writing α} {k : α → Writing γ} {observe : α → β} {value : β}
  {seen : γ → δ} {result : δ} {notes more : List Warning}

/-- A given answer is written as it is, without warnings. -/
theorem pure {a : α} (h : observe a = value) : Writes (Pure.pure a) observe value [] :=
  ⟨fun _ => h, fun _ => rfl⟩

/-- Observations and warnings of two actions, one after the other. -/
theorem bind (h : Writes m observe value notes)
    (hk : ∀ a, observe a = value → Writes (k a) seen result more) :
    Writes (m >>= k) seen result (notes ++ more) where
  answer page := (hk _ (h.answer page)).answer (m.run page).2
  warnings page := by
    rw [Ordered.Set.insertAll_append, ← h.warnings page]
    exact (hk _ (h.answer page)).warnings (m.run page).2

/-- What can be told from an observation can be observed. -/
theorem imp {observe' : α → δ} {value' : δ} (h : Writes m observe value notes)
    (hto : ∀ a, observe a = value → observe' a = value') : Writes m observe' value' notes :=
  ⟨fun page => hto _ (h.answer page), h.warnings⟩

end Writes

namespace Notes

variable {α γ : Type} {m : Writing α} {k : α → Writing γ}

/-- A given answer warns of nothing. -/
theorem pure (a : α) : Notes (Pure.pure a : Writing α) := ⟨[], .pure rfl⟩

/-- An action whose answer is only put into a value. -/
theorem map (h : Notes m) (f : α → γ) : Notes (m >>= fun a => Pure.pure (f a)) := by
  obtain ⟨notes, h⟩ := h
  exact ⟨notes ++ [], h.bind fun _ _ => .pure rfl⟩

/-- Two actions whose answers are only put into a value. -/
theorem map₂ {β : Type} {n : Writing β} (h : Notes m) (hn : Notes n) (f : α → β → γ) :
    Notes (m >>= fun a => n >>= fun b => Pure.pure (f a b)) := by
  obtain ⟨notes, h⟩ := h
  obtain ⟨more, hn⟩ := hn
  exact ⟨notes ++ (more ++ []), h.bind fun _ _ => hn.bind fun _ _ => .pure rfl⟩

end Notes

/-- A warning does not depend on the page. -/
theorem notes_warn (kind : Warning.Kind) (message : String) : Notes (warn kind message) :=
  ⟨[⟨kind, message⟩], fun _ => rfl, fun _ => rfl⟩

/-- What referring to a symbol warns of does not depend on the page. -/
theorem notes_refer (symbol : Symbol) : Notes (refer symbol) :=
  ⟨[], fun _ => rfl, fun _ => rfl⟩

/-- A list of items that are written one by one, without those that are left out. -/
theorem writes_writeSome {α β γ : Type} (write : α → Writing (Option β)) (observe : β → γ)
    (value : α → Option γ) (notes : α → List Warning) (xs : List α)
    (h : ∀ x, Writes (write x) (Option.map observe) (value x) (notes x)) :
    Writes (writeSome write xs) (List.map observe) (xs.filterMap value) (xs.flatMap notes) := by
  induction xs with
  | nil => exact .pure rfl
  | cons x xs ih =>
    have hboth : Writes (writeSome write (x :: xs)) (List.map observe) ((x :: xs).filterMap value)
        (notes x ++ (xs.flatMap notes ++ [])) := by
      refine (h x).bind fun written hwritten => ih.bind fun rest hrest => .pure ?_
      rw [List.map_append, hrest, List.filterMap_cons, ← hwritten]
      cases written with
      | none => rfl
      | some item => rfl
    rwa [List.append_nil, ← List.flatMap_cons] at hboth

/-! ## The warnings of an action -/

/-- The warnings that an action adds to a page without any. -/
def notesOf {α : Type} (m : Writing α) : List Warning := (m.run default).2.warnings.toList

/-- An action adds the warnings that it adds to a page without any. -/
theorem Writes.notesOf {α β : Type} {m : Writing α} {observe : α → β} {value : β}
    {notes : List Warning} (h : Writes m observe value notes) :
    Writes m observe value (notesOf m) where
  answer := h.answer
  warnings page := by
    have hempty : (default : Page).warnings = ∅ := rfl
    rw [Declaration.notesOf, h.warnings, h.warnings, hempty, Ordered.Set.insertAll_toList]
    rfl

end Ambient.Declaration

/-!
## Two runs of writing

Two actions agree under a relation between pages if, on related pages, they answer the same and
leave related pages. Equality relates pages if nothing may differ, equality of their places if the
warnings may; and an action that agrees with itself keeps what the relation says of one page.
-/

namespace Ambient

namespace Reference

/-- The imports at a place. -/
def Place.imports : Place → List Import
  | .module imports => imports.imports
  | _ => []

end Reference

namespace Declaration

/-- Reading the imports off a page leaves it as it is. -/
theorem Writer.run_importsHere (page : Page) :
    importsHere.run page = (page.place.imports, page) := by
  obtain ⟨place, warnings⟩ := page
  cases place <;> rfl

/-- On related pages two actions answer the same and leave related pages. -/
def Agree {α : Type} (R : Page → Page → Prop) (m n : Writing α) : Prop :=
  ∀ p q, R p q → (m.run p).1 = (n.run q).1 ∧ R (m.run p).2 (n.run q).2

/-- A relation between pages with the same place that lasts while the same warnings are added to
both, and while both move to a place without imports. -/
structure Lasting (R : Page → Page → Prop) : Prop where
  place : ∀ {p q}, R p q → p.place = q.place
  warn : ∀ {p q} (warning : Warning), R p q →
    R { p with warnings := p.warnings.insert warning }
      { q with warnings := q.warnings.insert warning }
  move : ∀ {p q} (place : Reference.Place), place.imports = [] → R p q →
    R { p with place := place } { q with place := place }

namespace Agree

variable {R : Page → Page → Prop} {α β γ : Type} {m n : Writing α} {k l : α → Writing β}

/-- Given answers agree. -/
theorem pure (a : α) : Agree R (Pure.pure a : Writing α) (Pure.pure a) :=
  fun _ _ h => ⟨rfl, h⟩

/-- Actions that agree, one after the other. -/
theorem bind (h : Agree R m n) (hk : ∀ a, Agree R (k a) (l a)) : Agree R (m >>= k) (n >>= l) := by
  intro p q hpq
  obtain ⟨hanswer, hpages⟩ := h p q hpq
  show ((k (m.run p).1).run (m.run p).2).1 = ((l (n.run q).1).run (n.run q).2).1 ∧
    R ((k (m.run p).1).run (m.run p).2).2 ((l (n.run q).1).run (n.run q).2).2
  rw [← hanswer]
  exact hk (m.run p).1 _ _ hpages

/-- Actions that agree, with the answer put into a value. -/
theorem map (h : Agree R m n) (f : α → β) :
    Agree R (m >>= fun a => Pure.pure (f a)) (n >>= fun a => Pure.pure (f a)) :=
  h.bind fun a => .pure (f a)

/-- Actions of which one is done, on either side the same one. -/
theorem ite {m' n' : Writing α} (condition : Prop) [Decidable condition] (h : Agree R m n)
    (h' : Agree R m' n') :
    Agree R (if condition then m else m') (if condition then n else n') := by
  split
  · exact h
  · exact h'

/-- Elements that are written one by one. -/
theorem mapM {write other : α → Writing β} (xs : List α)
    (h : ∀ x ∈ xs, Agree R (write x) (other x)) : Agree R (xs.mapM write) (xs.mapM other) := by
  induction xs with
  | nil => exact .pure []
  | cons x rest ih =>
    obtain ⟨hx, hrest⟩ := List.forall_mem_cons.mp h
    rw [List.mapM_cons, List.mapM_cons]
    exact hx.bind fun first => (ih hrest).map _

/-- Elements that are written one by one, without those that are left out. -/
theorem writeSome {write other : α → Writing (Option β)} (xs : List α)
    (h : ∀ x ∈ xs, Agree R (write x) (other x)) :
    Agree R (Declaration.writeSome write xs) (Declaration.writeSome other xs) := by
  induction xs with
  | nil => exact .pure []
  | cons x rest ih =>
    obtain ⟨hx, hrest⟩ := List.forall_mem_cons.mp h
    exact hx.bind fun first => (ih hrest).map _

variable (hR : Lasting R)
include hR

/-- The same warning keeps lasting relations. -/
theorem warn (kind : Warning.Kind) (message : String) :
    Agree R (Declaration.warn kind message) (Declaration.warn kind message) :=
  fun _ _ h => ⟨rfl, hR.warn _ h⟩

/-- Moving to the same place without imports keeps lasting relations. -/
theorem moveTo {place : Reference.Place} (h : place.imports = []) :
    Agree R (Writer.moveTo place) (Writer.moveTo place) :=
  fun _ _ hpq => ⟨rfl, hR.move place h hpq⟩

/-- Pages that are related have the same imports to read. -/
theorem importsHere : Agree R Writer.importsHere Writer.importsHere := by
  intro p q h
  rw [Writer.run_importsHere, Writer.run_importsHere, hR.place h]
  exact ⟨rfl, h⟩

end Agree

end Declaration

end Ambient
