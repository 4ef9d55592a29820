import Ambient.Proofs.Declaration.Views

/-!
# Declarations apart from their spelling

Types and supertypes are spelled by the place where an item is written. All the rest of an item is
the same wherever it is written: its head with its comment, its members in their order, the names of
parameters and which of them are marked, the modifiers, and how many supertypes it has.
-/

namespace Ambient.Declaration

open Api

/-! ## Leaving the spelling out -/

/-- A parameter without the text of its type. -/
def Slot.unspelled (p : Slot) : Slot := { p with type := "" }

/-- A signature without the texts of types. -/
def Signature.unspelled (s : Signature) : Signature :=
  ⟨s.parameters.map Slot.unspelled, s.result.map fun _ => ""⟩

/-- What a member declares, without the texts of types. -/
def Member.Body.unspelled : Member.Body → Member.Body
  | .construct signature => .construct signature.unspelled
  | .property isStatic _ => .property isStatic ""
  | .method isStatic signature => .method isStatic signature.unspelled
  | .value => .value

/-- A member without the texts of types. -/
def Member.unspelled (m : Member) : Member := ⟨m.head, m.body.unspelled⟩

/-- A header in which supertypes have a place but no text. -/
def Header.unspelled : Header → Header
  | .classType isAbstract base implemented =>
    .classType isAbstract (base.map fun _ => "") (implemented.map fun _ => "")
  | .interfaceType bases => .interfaceType (bases.map fun _ => "")
  | .enumType => .enumType
  | .nameSpace isBare => .nameSpace isBare

/-- An item without the texts of types and supertypes. -/
def Item.unspelled : Item → Item
  | .constant head _ => .constant head ""
  | .function head signature => .function head signature.unspelled
  | .aggregate head header members =>
    .aggregate head header.unspelled (members.map Member.unspelled)

/-! ## Actions that are seen alike -/

/-- On any two pages, two actions have answers in which an observer sees the same. -/
def SeenAlike {α β : Type} (observe : α → β) (m n : Writing α) : Prop :=
  ∀ p q, observe (m.run p).1 = observe (n.run q).1

namespace SeenAlike

variable {α β γ δ : Type} {observe : α → β} {seen : γ → δ} {m n : Writing α}

/-- Who looks away sees the same of any two actions. -/
theorem unseen (m n : Writing α) : SeenAlike (fun _ => ()) m n := fun _ _ => rfl

/-- Answers that look the same. -/
theorem pure {a b : α} (h : observe a = observe b) :
    SeenAlike observe (Pure.pure a) (Pure.pure b) :=
  fun _ _ => h

/-- What follows on answers that look the same has to be seen alike. -/
theorem bind {k l : α → Writing γ} (h : SeenAlike observe m n)
    (hk : ∀ a b, observe a = observe b → SeenAlike seen (k a) (l b)) :
    SeenAlike seen (m >>= k) (n >>= l) :=
  fun p q => hk _ _ (h p q) _ _

/-- An action of which the same can be told on every page is seen like itself. -/
theorem of_writes {value : β} {notes : List Warning} (h : Writes m observe value notes) :
    SeenAlike observe m m :=
  fun p q => (h.answer p).trans (h.answer q).symm

/-- What is kept on every page or on none, and is seen alike if it is kept. -/
theorem kept {keep : Writing Bool} (hkeep : ∃ kept notes, Writes keep id kept notes)
    {k : Writing (Option α)} (hk : SeenAlike (Option.map observe) k k) :
    SeenAlike (Option.map observe) (keep >>= fun kept => if !kept then Pure.pure none else k)
      (keep >>= fun kept => if !kept then Pure.pure none else k) := by
  obtain ⟨_, _, hkeep⟩ := hkeep
  refine (of_writes hkeep).bind fun kept other hsame => ?_
  obtain rfl : kept = other := hsame
  cases kept with
  | true => exact hk
  | false => exact .pure rfl

/-- Lists that are written from elements of which each is seen alike. -/
theorem writeSome {write : α → Writing (Option γ)}
    (h : ∀ a, SeenAlike (Option.map seen) (write a) (write a)) (list : List α) :
    SeenAlike (List.map seen) (writeSome write list) (Declaration.writeSome write list) := by
  induction list with
  | nil => exact .pure rfl
  | cons a rest ih =>
    refine (h a).bind fun first first' hfirst => ih.bind fun more more' hmore => .pure ?_
    have htoList (o : Option γ) : o.toList.map seen = (o.map seen).toList := by cases o <;> rfl
    rw [List.map_append, List.map_append, hmore, htoList, htoList, hfirst]

end SeenAlike

/-! ## Writers -/

namespace Writer

variable (w : Writer)

/-- Whether a parameter is marked does not depend on how its type is spelled. -/
theorem seenAlike_slot (p : Parameter) (requiredLater : Bool) :
    SeenAlike Slot.unspelled (w.slot p requiredLater) (w.slot p requiredLater) := by
  refine (SeenAlike.unseen _ _).bind fun type other _ => ?_
  dsimp only
  cases p.mayBeLeftOut with
  | false => exact .pure rfl
  | true => cases requiredLater <;> exact .pure rfl

/-- The parameters of a signature are seen alike. -/
theorem seenAlike_slots (ps : List Parameter) :
    SeenAlike (List.map Slot.unspelled) (w.slots ps) (w.slots ps) := by
  induction ps with
  | nil => exact .pure rfl
  | cons p rest ih =>
    refine (w.seenAlike_slot p _).bind fun slot other hslot => ih.bind fun more others hmore =>
      .pure ?_
    rw [List.map_cons, List.map_cons, hslot, hmore]

/-- The signature of a constructor is seen alike. -/
theorem seenAlike_constructorSignature (f : Function) :
    SeenAlike Signature.unspelled (w.constructorSignature f) (w.constructorSignature f) :=
  (w.seenAlike_slots f.parameters).bind fun _ _ hslots =>
    .pure (congrArg (Signature.mk · none) hslots)

/-- The signature of a function is seen alike; it has a result in any case. -/
theorem seenAlike_signature (f : Function) :
    SeenAlike Signature.unspelled (w.signature f) (w.signature f) := by
  refine (w.seenAlike_slots f.parameters).bind fun slots others hslots => ?_
  have hsame (result result' : String) :
      Signature.unspelled ⟨slots, some result⟩ = Signature.unspelled ⟨others, some result'⟩ :=
    congrArg (Signature.mk · (some "")) hslots
  dsimp only
  cases f.returns.bind Outcome.type with
  | none => exact .pure (hsame _ _)
  | some type => exact (SeenAlike.unseen _ _).bind fun _ _ _ => .pure (hsame _ _)

/-- A constructor is seen alike. -/
theorem seenAlike_construct (f : Function) :
    SeenAlike (Option.map Member.unspelled) (w.construct f) (w.construct f) := by
  refine SeenAlike.kept ⟨_, w.writes_keeps (w.nameOf f.link)⟩ ?_
  refine (w.seenAlike_constructorSignature f).bind fun s t hsame => .pure ?_
  rw [Option.map_some, Option.map_some, Member.unspelled, Member.unspelled, Member.Body.unspelled,
    Member.Body.unspelled, hsame]

/-- A field or property is seen alike. -/
theorem seenAlike_property (v : Variable) :
    SeenAlike (Option.map Member.unspelled) (w.property v) (w.property v) :=
  .kept ⟨_, w.writes_keeps (w.nameOf v.link)⟩ ((SeenAlike.unseen _ _).bind fun _ _ _ => .pure rfl)

/-- A function as a member is seen alike. -/
theorem seenAlike_memberFunction (fqn : String) (f : Function) :
    SeenAlike Member.unspelled (w.memberFunction fqn f) (w.memberFunction fqn f) := by
  refine (w.seenAlike_signature f).bind fun s t hsame => .pure ?_
  rw [Member.unspelled, Member.unspelled, Member.Body.unspelled, Member.Body.unspelled, hsame]

/-- A method is seen alike. -/
theorem seenAlike_method (f : Function) :
    SeenAlike (Option.map Member.unspelled) (w.method f) (w.method f) :=
  .kept ⟨_, w.writes_keepsMethod (w.nameOf f.link) f.name⟩
    ((w.seenAlike_memberFunction _ f).bind fun _ _ hsame => .pure (congrArg some hsame))

/-- A function of a namespace as a method is seen alike. -/
theorem seenAlike_nameSpaceMethod (f : Function) :
    SeenAlike (Option.map Member.unspelled) (w.nameSpaceMethod f) (w.nameSpaceMethod f) :=
  .kept ⟨_, w.writes_keeps (w.nameOf f.link)⟩
    ((w.seenAlike_memberFunction _ f).bind fun _ _ hsame => .pure (congrArg some hsame))

/-- A value of an enum is seen alike. -/
theorem seenAlike_enumValue (v : Variable) :
    SeenAlike (Option.map Member.unspelled) (w.enumValue v) (w.enumValue v) :=
  .kept ⟨_, w.writes_keeps (w.nameOf v.link)⟩ (.pure rfl)

/-- A variable of a namespace is seen alike. -/
theorem seenAlike_constant (v : Variable) :
    SeenAlike (Option.map Item.unspelled) (w.constant v) (w.constant v) :=
  .kept ⟨_, w.writes_keepsValue (w.nameOf v.link) v.name⟩
    ((SeenAlike.unseen _ _).bind fun _ _ _ => .pure rfl)

/-- A function of a namespace is seen alike. -/
theorem seenAlike_function (f : Function) :
    SeenAlike (Option.map Item.unspelled) (w.function f) (w.function f) := by
  refine SeenAlike.kept ⟨_, w.writes_keepsValue (w.nameOf f.link) f.name⟩ ?_
  refine (w.seenAlike_signature f).bind fun s t hsame => .pure ?_
  rw [Option.map_some, Option.map_some, Item.unspelled, Item.unspelled, hsame]

/-- Whether a supertype is dropped does not depend on how it would be spelled. -/
theorem seenAlike_supertype (owner fqn : String) :
    SeenAlike (Option.map fun _ => "") (w.supertype owner fqn) (w.supertype owner fqn) := by
  unfold supertype
  dsimp only
  cases w.resolve (w.directives.correctName fqn) with
  | ok symbol => exact (SeenAlike.unseen _ _).bind fun _ _ _ => .pure rfl
  | error cause => exact (SeenAlike.unseen _ _).bind fun _ _ _ => .pure rfl

/-- Whether an implemented interface is left out does not depend on how it would be spelled. -/
theorem seenAlike_implemented (owner fqn : String) :
    SeenAlike (Option.map fun _ => "") (w.implemented owner fqn) (w.implemented owner fqn) := by
  unfold implemented
  cases w.directives.isBadInterface fqn with
  | true => exact (SeenAlike.unseen _ _).bind fun _ _ _ => .pure rfl
  | false => exact w.seenAlike_supertype owner fqn

/-- A class is seen alike, whatever it extends, as long as there is a base in both cases or in
neither. -/
theorem seenAlike_classBody (c : Api.Class) {base base' : Option String}
    (hbase : base.map (fun _ => "") = base'.map fun _ => "") :
    let body (base : Option String) : Writing (Option Item) := do
      let interfaces ← writeSome (w.implemented (w.nameOf c.link)) c.implemented
      let constructors ← writeSome w.construct c.constructors
      let fields ← writeSome w.property c.fields
      let methods ← writeSome w.method c.methods
      return some (.aggregate (w.headOf (w.nameOf c.link) c.name c.doc)
        (.classType c.isAbstract base interfaces) (constructors ++ fields ++ methods))
    SeenAlike (Option.map Item.unspelled) (body base) (body base') := by
  intro body
  refine (SeenAlike.writeSome (w.seenAlike_implemented _) c.implemented).bind fun i i' hi =>
    (SeenAlike.writeSome w.seenAlike_construct c.constructors).bind fun cs cs' hcs =>
    (SeenAlike.writeSome w.seenAlike_property c.fields).bind fun fs fs' hfs =>
    (SeenAlike.writeSome w.seenAlike_method c.methods).bind fun ms ms' hms => .pure ?_
  simp only [Option.map_some, Item.unspelled, Header.unspelled, List.map_append, hbase, hi, hcs,
    hfs, hms]

/-- A class is seen alike. -/
theorem seenAlike_classType (c : Api.Class) :
    SeenAlike (Option.map Item.unspelled) (w.classType c) (w.classType c) := by
  unfold classType
  dsimp only
  cases w.emitted.contains (w.nameOf c.link) with
  | false => exact .pure rfl
  | true =>
    cases c.base with
    | none => exact w.seenAlike_classBody c rfl
    | some base =>
      exact (w.seenAlike_supertype _ base).bind fun _ _ hbase => w.seenAlike_classBody c hbase

/-- An interface is seen alike. -/
theorem seenAlike_interfaceType (i : Interface) :
    SeenAlike (Option.map Item.unspelled) (w.interfaceType i) (w.interfaceType i) := by
  unfold interfaceType
  dsimp only
  cases w.emitted.contains (w.nameOf i.link) with
  | false => exact .pure rfl
  | true =>
    refine (SeenAlike.writeSome (w.seenAlike_supertype _) i.bases).bind fun bs bs' hbs =>
      (SeenAlike.writeSome w.seenAlike_property i.properties).bind fun ps ps' hps =>
      (SeenAlike.writeSome w.seenAlike_method i.methods).bind fun ms ms' hms => .pure ?_
    simp only [Option.map_some, Item.unspelled, Header.unspelled, List.map_append, hbs, hps, hms]

/-- An enum is seen alike. -/
theorem seenAlike_enumType (e : Enum) :
    SeenAlike (Option.map Item.unspelled) (w.enumType e) (w.enumType e) := by
  unfold enumType
  dsimp only
  cases w.emitted.contains (w.nameOf e.link) with
  | false => exact .pure rfl
  | true =>
    refine (SeenAlike.writeSome w.seenAlike_enumValue e.values).bind fun vs vs' hvs => .pure ?_
    simp only [Option.map_some, Item.unspelled, Header.unspelled, hvs]

/-- A namespace as an interface is seen alike. -/
theorem seenAlike_nameSpaceInterface (s : Scope) :
    SeenAlike Item.unspelled (w.nameSpaceInterface s) (w.nameSpaceInterface s) := by
  refine (SeenAlike.writeSome w.seenAlike_property s.constants).bind fun ps ps' hps =>
    (SeenAlike.writeSome w.seenAlike_nameSpaceMethod s.functions).bind fun ms ms' hms => .pure ?_
  simp only [Item.unspelled, Header.unspelled, List.map_append, hps, hms]

/-- What is written for an entry is seen alike on any two pages. -/
theorem seenAlike_write : ∀ entry : Entry,
    SeenAlike (Option.map Item.unspelled) (w.write entry) (w.write entry)
  | .constant v => w.seenAlike_constant v
  | .function f => w.seenAlike_function f
  | .aggregate (.classType c) => w.seenAlike_classType c
  | .aggregate (.interfaceType i) => w.seenAlike_interfaceType i
  | .aggregate (.enumType e) => w.seenAlike_enumType e
  | .nameSpace s =>
    (w.seenAlike_nameSpaceInterface s).bind fun _ _ hsame => .pure (congrArg some hsame)

/-- Apart from its spelling, the item for an entry is the one that a page without any imports has
for it. -/
def unspelledView : View w Item where
  admits _ := True
  observe := Item.unspelled
  value entry := ((w.write entry).run default).1.map Item.unspelled
  answer entry page _ := w.seenAlike_write entry page default
  keeps _ _ _ := trivial

end Writer

/-- Apart from their spelling, the items of an emission are those of its entries, in their order. -/
theorem map_unspelled_emitNamed (library : String) (table : Symbol.Table) (d : Directives)
    (flavor : Flavor) (nameOf : Naming) (top : Namespace) :
    let plan := Plan.of d nameOf top
    let w := writerFor library table d nameOf plan
    (emitNamed library table d flavor nameOf top).document.items.map Item.unspelled
      = (w.entries flavor plan.modules top).filterMap w.unspelledView.value := by
  intro plan w
  exact w.unspelledView.map_observe_document flavor (fun _ _ => trivial) plan.modules top _ trivial

end Ambient.Declaration
