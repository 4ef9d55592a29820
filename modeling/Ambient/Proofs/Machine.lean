import Ambient.Host
import Mathlib.Data.List.Forall2

/-!
# Computations on a machine

A computation that may fail comes to something on a machine and leaves a machine. One that has two
parts goes on with the second one on the machine that the first one has left, unless that failed.
-/

namespace Ambient.Machine

variable {ε α β : Type}

/-- What a computation comes to on a machine, and the machine after it. -/
def perform (m : Machine) (x : ExceptT ε (StateM Machine) α) : Except ε α × Machine := x.run.run m

section Bind

variable {x : ExceptT ε (StateM Machine) α} {f : α → ExceptT ε (StateM Machine) β} {a : α} {b : β}
  {error : ε} {m after : Machine}

/-- A run that goes on after an answer is performed where that left the machine. -/
theorem perform_bind_ok (h : m.perform x = (.ok a, after)) :
    m.perform (x >>= f) = after.perform (f a) := by
  show (ExceptT.bindCont f (m.perform x).1).run (m.perform x).2 = _
  rw [h]
  rfl

/-- A run that fails first fails as a whole, and leaves the machine there. -/
theorem perform_bind_error (h : m.perform x = (.error error, after)) :
    m.perform (x >>= f) = (.error error, after) := by
  show (ExceptT.bindCont f (m.perform x).1).run (m.perform x).2 = _
  rw [h]
  rfl

/-- A computation that succeeds does so part by part. -/
theorem of_perform_bind (h : m.perform (x >>= f) = (.ok b, after)) :
    ∃ a between, m.perform x = (.ok a, between) ∧ between.perform (f a) = (.ok b, after) := by
  rcases hx : m.perform x with ⟨_ | a, between⟩
  · rw [perform_bind_error hx] at h
    cases h
  · exact ⟨a, between, rfl, (perform_bind_ok hx).symm.trans h⟩

/-- A computation that fails does so in its first part or in its second one. -/
theorem of_perform_bind_error (h : m.perform (x >>= f) = (.error error, after)) :
    m.perform x = (.error error, after) ∨
      ∃ a between, m.perform x = (.ok a, between) ∧
        between.perform (f a) = (.error error, after) := by
  rcases hx : m.perform x with ⟨cause | a, between⟩
  · rw [perform_bind_error hx] at h
    cases h
    exact .inl rfl
  · exact .inr ⟨a, between, rfl, (perform_bind_ok hx).symm.trans h⟩

/-- Computations that leave a machine as it is do so one after the other. -/
theorem perform_bind_leaves (hx : (m.perform x).2 = m) (hf : ∀ a, (m.perform (f a)).2 = m) :
    (m.perform (x >>= f)).2 = m := by
  rcases h : m.perform x with ⟨_ | a, between⟩
  all_goals
    rw [h] at hx
    obtain rfl : between = m := hx
  · rw [perform_bind_error h]
  · rw [perform_bind_ok h]
    exact hf a

/-- What cannot fail is done as it is. -/
theorem of_perform_lift {x : StateM Machine α}
    (h : m.perform (liftM x : ExceptT ε (StateM Machine) α) = (.ok a, after)) :
    x.run m = (a, after) := by
  have hpair : ((.ok (x.run m).1 : Except ε α), (x.run m).2) = (.ok a, after) := h
  obtain ⟨hanswer, hafter⟩ := Prod.mk.inj hpair
  exact Prod.ext (Except.ok.inj hanswer) hafter

/-- A traversal of items, each of which succeeds and leaves the machine as it is. -/
theorem perform_mapM_ok {items : List α} {answers : List β}
    (h : List.Forall₂ (fun a b => m.perform (f a) = (.ok b, m)) items answers) :
    m.perform (items.mapM f) = (.ok answers, m) := by
  induction h with
  | nil => rfl
  | cons hfirst _ ih =>
    rw [List.mapM_cons, perform_bind_ok hfirst, perform_bind_ok ih]
    rfl

/-- A traversal that fails does so at one of the items. -/
theorem of_perform_mapM_error {items : List α}
    (h : m.perform (items.mapM f) = (.error error, after)) :
    ∃ a ∈ items, ∃ between : Machine, between.perform (f a) = (.error error, after) := by
  induction items generalizing m with
  | nil => cases h
  | cons first rest ih =>
    rw [List.mapM_cons] at h
    obtain h | ⟨_, between, _, h⟩ := of_perform_bind_error h
    · exact ⟨first, List.mem_cons_self, m, h⟩
    · obtain h | ⟨_, _, _, h⟩ := of_perform_bind_error h
      · obtain ⟨a, ha, hfails⟩ := ih h
        exact ⟨a, List.mem_cons_of_mem _ ha, hfails⟩
      · cases h

/-- Running through items fails at one of them, somewhere on the way. -/
theorem of_perform_forM_error {f : α → ExceptT ε (StateM Machine) PUnit} {items : List α}
    (h : m.perform (items.forM f) = (.error error, after)) :
    ∃ a ∈ items, ∃ between : Machine, between.perform (f a) = (.error error, after) := by
  induction items generalizing m with
  | nil => cases h
  | cons first rest ih =>
    obtain h | ⟨_, between, _, h⟩ := of_perform_bind_error (f := fun _ => rest.forM f) h
    · exact ⟨first, List.mem_cons_self, m, h⟩
    · obtain ⟨a, ha, hfails⟩ := ih h
      exact ⟨a, List.mem_cons_of_mem _ ha, hfails⟩

end Bind

/-! ## Files and programs -/

/-- The machine with other files. -/
def withTree (m : Machine) (tree : Files.Tree) : Machine := { m with tree := tree }

/-- The tree that a machine was given is its tree. -/
@[simp] theorem withTree_tree (m : Machine) (tree : Files.Tree) : (m.withTree tree).tree = tree :=
  rfl

/-- A command is a function of its input and changes no files. -/
def Filters (m : Machine) (command : Settings.Command) : Prop :=
  ∃ answer : Bytes → Except Files.Fault Execution, ∀ input tree,
    m.programs command input m.working tree
      = (answer input).map fun execution => (execution, tree)

/-- Whatever its arguments and its input, a program changes no files. -/
def LeavesFiles (m : Machine) (program : String) : Prop :=
  ∀ arguments input tree execution after,
    m.programs ⟨program, arguments⟩ input m.working tree = .ok (execution, after) → after = tree

section Execute

variable {m : Machine} {command : Settings.Command} {input : Bytes} {t : Files.Tree}

/-- A command that ends gives its result and leaves the tree that it made. -/
theorem execute_ok {execution : Execution}
    (h : m.programs command input m.working m.tree = .ok (execution, t)) :
    (Host.execute command input : StateM Machine _).run m = (.ok execution, m.withTree t) := by
  simp only [Host.execute, StateT.run, h]
  rfl

/-- A command that cannot be run is a fault, and leaves the machine. -/
theorem execute_error {fault : Files.Fault}
    (h : m.programs command input m.working m.tree = .error fault) :
    (Host.execute command input : StateM Machine _).run m = (.error fault, m) := by
  simp only [Host.execute, StateT.run, h]

end Execute

/-- A program that changes no files leaves the machine as it is. -/
theorem LeavesFiles.execute {m : Machine} {program : String} (h : m.LeavesFiles program)
    (arguments : List String) (input : Bytes) :
    ((Host.execute ⟨program, arguments⟩ input : StateM Machine _).run m).2 = m := by
  cases hresult : m.programs ⟨program, arguments⟩ input m.working m.tree with
  | error fault => rw [execute_error hresult]
  | ok pair =>
    obtain ⟨execution, tree⟩ := pair
    obtain rfl := h _ _ _ _ _ hresult
    rw [execute_ok hresult]
    rfl

/-- A command that is a function of its input leaves the machine as it is, and answers the same
whatever the files are. -/
theorem Filters.execute {m : Machine} {command : Settings.Command} (h : m.Filters command)
    (input : Bytes) : ∃ answer, ∀ t : Files.Tree,
      (Host.execute command input : StateM Machine _).run (m.withTree t)
        = (answer, m.withTree t) := by
  obtain ⟨answer, hanswer⟩ := h
  refine ⟨answer input, fun t => ?_⟩
  have hresult := hanswer input t
  cases hinput : answer input with
  | error fault =>
    rw [hinput] at hresult
    exact execute_error (m := m.withTree t) hresult
  | ok execution =>
    rw [hinput] at hresult
    exact execute_ok (m := m.withTree t) hresult

end Ambient.Machine
