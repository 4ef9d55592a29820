import Ambient.Generation
import Ambient.Proofs.Declaration.Names
import Ambient.Proofs.Machine
import Ambient.Proofs.Preparation

/-!
# The phases of a run

A run loads before it writes. Loading reads files and leaves the machine as it is, and its failures
are about the library and its dependencies; what has been loaded can be emitted.
-/

namespace Ambient.Generation

open Machine

variable {α β : Type}

/-- Whether an error is met before anything is written. -/
def Error.isEarly : Error → Bool
  | .write .. | .check _ => false
  | _ => true

/-! ## Loading -/

/-- A run that leaves every machine as it is, and fails only as long as nothing has been written. -/
def Reads (x : Run (StateM Machine) α) : Prop :=
  ∀ m : Machine, (∃ a, m.perform x = (.ok a, m)) ∨
    ∃ error, m.perform x = (.error error, m) ∧ error.isEarly = true

namespace Reads

variable {x : Run (StateM Machine) α} {f : α → Run (StateM Machine) β}

/-- A given answer leaves the machine. -/
theorem pure (a : α) : Reads (Pure.pure a : Run (StateM Machine) α) := fun _ => .inl ⟨a, rfl⟩

/-- One read after another leaves the machine. -/
theorem bind (h : Reads x) (hf : ∀ a, Reads (f a)) : Reads (x >>= f) := by
  intro m
  obtain ⟨a, ha⟩ | ⟨error, herror, hearly⟩ := h m
  · obtain ⟨b, hb⟩ | ⟨error, herror, hearly⟩ := hf a m
    · exact .inl ⟨b, (perform_bind_ok ha).trans hb⟩
    · exact .inr ⟨error, (perform_bind_ok ha).trans herror, hearly⟩
  · exact .inr ⟨error, perform_bind_error herror, hearly⟩

/-- Reads for all items of a list leave the machine. -/
theorem mapM {f : α → Run (StateM Machine) β} (h : ∀ a, Reads (f a)) (items : List α) :
    Reads (items.mapM f) := by
  induction items with
  | nil => exact .pure []
  | cons a rest ih =>
    rw [List.mapM_cons]
    exact (h a).bind fun _ => ih.bind fun _ => .pure _

/-- A result from elsewhere leaves the machine, and fails early if its error is an early one. -/
theorem orFail {ε : Type} {wrap : ε → Error} (hwrap : ∀ cause, (wrap cause).isEarly = true)
    (result : Except ε α) : Reads (Generation.orFail wrap result) := by
  intro m
  cases result with
  | ok a => exact .inl ⟨a, rfl⟩
  | error cause => exact .inr ⟨wrap cause, rfl, hwrap cause⟩

/-- Reading a file leaves the machine. -/
theorem readFile {wrap : Files.Fault → Error} (hwrap : ∀ fault, (wrap fault).isEarly = true)
    (path : String) : Reads (Generation.readFile wrap path : Run (StateM Machine) String) :=
  fun m => orFail hwrap (m.read path) m

/-- Reading a description leaves the machine. -/
theorem readDescription (path : String) :
    Reads (Generation.readDescription path : Run (StateM Machine) Api.Description) :=
  (readFile (fun _ => rfl) path).bind fun _ => orFail (fun _ => rfl) _

/-- Reading directives leaves the machine. -/
theorem readDirectives (path : String) :
    Reads (Generation.readDirectives path : Run (StateM Machine) Directives) := by
  refine (readFile (fun _ => rfl) path).bind fun text => ?_
  cases Directives.parse? text with
  | some directives => exact .pure directives
  | none => exact fun _ => .inr ⟨_, rfl, rfl⟩

/-- Reading a library changes nothing. -/
theorem readLibrary (s : Settings) (source : Settings.Source) :
    Reads (Generation.readLibrary s source : Run (StateM Machine) Library) :=
  (readDescription _).bind fun _ => (mapM (fun _ => readDirectives _) _).bind fun _ => .pure _

end Reads

/-- The first phase of a run: the library and its dependencies are read and prepared. -/
def load (s : Settings) (source : Settings.Source) : Run (StateM Machine) Library.Prepared := do
  let primary ← readLibrary s source
  let dependencies ← s.dependencies.mapM fun d => readLibrary s d.toSource
  orFail .library (primary.prepare dependencies s.isStrict)

/-- Loading a library leaves the machine. -/
theorem reads_load (s : Settings) (source : Settings.Source) : Reads (load s source) := by
  unfold load
  refine (Reads.readLibrary s source).bind fun primary => ?_
  have hdependencies := Reads.mapM (fun d : Settings.Dependency =>
    Reads.readLibrary s d.toSource) s.dependencies
  refine hdependencies.bind fun others => ?_
  have hwrap (cause : Library.Error) : (Error.library cause).isEarly = true := rfl
  exact Reads.orFail hwrap _

/-- A library is read under the name that the settings give it. -/
theorem name_of_readLibrary {s : Settings} {source : Settings.Source} {m after : Machine}
    {library : Library} (h : m.perform (readLibrary s source) = (.ok library, after)) :
    library.name = source.name := by
  obtain ⟨_, _, _, h⟩ := of_perform_bind h
  obtain ⟨_, _, _, h⟩ := of_perform_bind h
  cases h
  rfl

/-- What has been loaded is the library that the settings name, prepared with others. -/
theorem exists_prepare_of_load {s : Settings} {source : Settings.Source} {m after : Machine}
    {prepared : Library.Prepared} (h : m.perform (load s source) = (.ok prepared, after)) :
    ∃ primary dependencies, primary.name = source.name ∧
      Library.prepare primary dependencies s.isStrict = .ok prepared := by
  unfold load at h
  obtain ⟨primary, _, hprimary, h⟩ := of_perform_bind h
  obtain ⟨dependencies, _, _, h⟩ := of_perform_bind h
  refine ⟨primary, dependencies, name_of_readLibrary hprimary, ?_⟩
  cases hprepare : primary.prepare dependencies s.isStrict with
  | ok p =>
    rw [hprepare] at h
    cases h
    rfl
  | error cause =>
    rw [hprepare] at h
    cases h

end Ambient.Generation
