import Ambient.Proofs.Declaration.Drafting.Written

/-!
# Depth and text of drafts

Drafting keeps the depth and the text before it, in every part; and a module block is drafted around
its body, since the imports are known only after the body and stand above it. The text that is
emitted for a library is that of its draft, so this is how the text comes about.

A step shifts the depth from one level to another if it never goes below the levels above the
first, ends as far from the second as it began from the first, and only adds to the text. Steps
that follow one another shift from the first level to the last, so what is drafted between a move
in and a move out keeps the depth whatever it is, and wherever it returns early.
-/

namespace Ambient.Declaration

open Api Drafting

/-- Wherever a step is taken at least as deep as the first level, it does not drop below zero; if
it succeeds, it ends as much deeper than the second level as it began deeper than the first, and
the text before is still in front. -/
structure Shifts {α : Type} (m : Drafting α) (low high : Nat) : Prop where
  run : ∀ {sheet after : Sheet} {a : α}, low ≤ sheet.depth → m.run sheet = .ok (a, after) →
    after.depth + low = sheet.depth + high ∧ ∃ added, after.text = sheet.text ++ added
  safe : ∀ {sheet : Sheet}, low ≤ sheet.depth → m.run sheet ≠ .error .underflow

/-- A step keeps the depth. -/
abbrev Keeps {α : Type} (m : Drafting α) : Prop := Shifts m 0 0

namespace Shifts

variable {α β : Type} {m : Drafting α} {k : α → Drafting β} {low mid high : Nat}

/-- A step that is as good from anywhere deeper. -/
theorem lift (h : Shifts m low high) (n : Nat) : Shifts m (low + n) (high + n) where
  run hlow hrun := by
    obtain ⟨hdepth, htext⟩ := h.run (by omega) hrun
    exact ⟨by omega, htext⟩
  safe hlow := h.safe (by omega)

/-- Two steps, one after the other. -/
theorem bind (h : Shifts m low mid) (hk : ∀ a, Shifts (k a) mid high) :
    Shifts (m >>= k) low high where
  run hlow hrun := by
    obtain ⟨a, between, hm, hrun⟩ := bind_eq_ok.mp hrun
    obtain ⟨hdepth, added, htext⟩ := h.run hlow hm
    obtain ⟨hdepth', more, htext'⟩ := (hk a).run (by omega) hrun
    exact ⟨by omega, added ++ more, by rw [htext', htext, String.append_assoc]⟩
  safe hlow hrun := by
    obtain hm | ⟨a, between, hm, hrun⟩ := bind_eq_error.mp hrun
    · exact h.safe hlow hm
    · obtain ⟨hdepth, -⟩ := h.run hlow hm
      exact (hk a).safe (by omega) hrun

/-- Two steps of which the second does not go by the answer of the first. -/
theorem seq {n : Drafting β} (h : Shifts m low mid) (hn : Shifts n mid high) :
    Shifts (m >>= fun _ => n) low high :=
  h.bind fun _ => hn

/-- A choice between two actions that shift the depth alike shifts it so too. -/
theorem ite {n : Drafting α} (condition : Prop) [Decidable condition] (h : Shifts m low high)
    (hn : Shifts n low high) : Shifts (if condition then m else n) low high := by
  split
  · exact h
  · exact hn

/-- Going deeper shifts the depth from none to one and adds no text. -/
theorem deeper : Shifts Drafting.deeper 0 1 where
  run _ hrun := by
    cases hrun
    exact ⟨rfl, "", String.append_empty.symm⟩
  safe _ hrun := nomatch hrun

/-- Going back shifts the depth from one to none and adds no text. -/
theorem shallower : Shifts Drafting.shallower 1 0 where
  run {sheet after a} hlow hrun := by
    obtain ⟨text, depth, page⟩ := sheet
    cases depth with
    | zero => exact absurd hlow (by simp)
    | succ depth =>
      cases hrun
      exact ⟨rfl, "", String.append_empty.symm⟩
  safe {sheet} hlow hrun := by
    obtain ⟨text, depth, page⟩ := sheet
    cases depth with
    | zero => exact absurd hlow (by simp)
    | succ depth => exact nomatch hrun

/-- A step that only adds to the text and leaves another page keeps the depth. -/
theorem of_run (h : ∀ sheet, ∃ answer added page,
    m.run sheet = .ok (answer, ⟨sheet.text ++ added, sheet.depth, page⟩)) : Keeps m where
  run {sheet after a} _ hrun := by
    obtain ⟨answer, added, page, h⟩ := h sheet
    rw [h] at hrun
    cases hrun
    exact ⟨rfl, added, rfl⟩
  safe {sheet} _ hrun := by
    obtain ⟨answer, added, page, h⟩ := h sheet
    rw [h] at hrun
    cases hrun

/-- A line is added behind what there is, at an unchanged depth. -/
theorem line (text : String) : Keeps (Drafting.line text) := of_run fun _ => ⟨_, _, _, rfl⟩

/-- Text is pushed behind what there is, at an unchanged depth. -/
theorem push (text : String) : Keeps (Drafting.push text) := of_run fun _ => ⟨_, _, _, rfl⟩

/-- What is done to the page leaves depth and text alone. -/
theorem onPage (writing : Writing α) : Keeps (Drafting.onPage writing) :=
  of_run fun _ => ⟨_, "", _, by rw [String.append_empty]; rfl⟩

/-- Looking at the sheet changes nothing. -/
theorem get : Keeps (MonadState.get : Drafting Sheet) :=
  of_run fun _ => ⟨_, "", _, by rw [String.append_empty]; rfl⟩

/-- To answer changes nothing. -/
theorem pure (a : α) : Keeps (Pure.pure a) := onPage (Pure.pure a)

/-- What is done under a condition keeps the depth if its body does. -/
theorem onlyIf {body : Drafting Unit} (condition : Bool) (h : Keeps body) :
    Keeps (Drafting.onlyIf condition body) :=
  ite _ h (pure ())

/-- A step for each element of a list. -/
theorem forM {draft : α → Drafting Unit} {xs : List α} (h : ∀ a ∈ xs, Keeps (draft a)) :
    Keeps (xs.forM draft) := by
  induction xs with
  | nil => exact pure ()
  | cons x rest ih =>
    obtain ⟨hx, hrest⟩ := List.forall_mem_cons.mp h
    exact hx.seq (ih hrest)

/-- Drafting aside neither moves nor adds anything. -/
theorem aside {body : Drafting Unit} (h : Keeps body) : Keeps (Drafting.aside body) where
  run {sheet after a} _ hrun := by
    obtain ⟨inner, _, rfl, rfl⟩ := aside_eq_ok.mp hrun
    exact ⟨rfl, "", String.append_empty.symm⟩
  safe {sheet} _ hrun := by
    rw [run_aside] at hrun
    cases hbody : body.run ⟨"", 1, sheet.page⟩ with
    | ok r =>
      rw [hbody] at hrun
      cases hrun
    | error halt =>
      rw [hbody] at hrun
      cases hrun
      exact h.safe (Nat.zero_le _) hbody

end Shifts

namespace Drafter

variable (p : Drafter)

/-- Asking for a name leaves the sheet as it is, or fails. -/
theorem keeps_nameAt (link : Link) (name : String) : Keeps (p.nameAt link name) where
  run {sheet after a} _ hrun := by
    rw [run_nameAt] at hrun
    split at hrun
    · cases hrun
      exact ⟨rfl, "", String.append_empty.symm⟩
    · cases hrun
  safe {sheet} _ hrun := by
    rw [run_nameAt] at hrun
    split at hrun <;> cases hrun

/-- The preamble of a declaration is written at the depth of the declaration. -/
theorem keeps_preamble (comment : Comment) (fqn : String) : Keeps (p.preamble comment fqn) := by
  refine (Shifts.forM fun _ _ => .line _).seq ?_
  cases p.directives.suppression? fqn with
  | some reason => exact .line _
  | none => exact .pure ()

/-- What is drafted under a dotted name, if it is kept. -/
theorem keeps_kept {link : Link} {name : String} {keep : String → Writing Bool}
    {draft : String → Drafting Unit} (h : ∀ fqn, Keeps (draft fqn)) :
    Keeps (do
      let fqn ← p.nameAt link name
      if !(← onPage (keep fqn)) then return
      draft fqn) :=
  (p.keeps_nameAt link name).bind fun fqn => (Shifts.onPage _).bind fun _ =>
    .ite _ (.pure ()) (h fqn)

/-- What is drafted under a dotted name, if it is emitted. -/
theorem keeps_emitted {link : Link} {name : String} {draft : String → Drafting Unit}
    (h : ∀ fqn, Keeps (draft fqn)) :
    Keeps (do
      let fqn ← p.nameAt link name
      if !p.emitted.contains fqn then return
      draft fqn) :=
  (p.keeps_nameAt link name).bind fun fqn => .ite _ (.pure ()) (h fqn)

/-- A line that says what is written on the page, below a preamble. -/
theorem keeps_entry {α : Type} (comment : Comment) (fqn : String) (writing : Writing α)
    (text : α → String) :
    Keeps (do
      p.preamble comment fqn
      let written ← onPage writing
      line (text written)) :=
  (p.keeps_preamble comment fqn).seq ((Shifts.onPage writing).bind fun _ => .line _)

/-- A field or property is drafted on one level. -/
theorem keeps_property (v : Variable) : Keeps (p.draftProperty v) :=
  p.keeps_kept fun fqn => p.keeps_entry _ fqn _ _

/-- A method is drafted on one level, whether or not its simple name can exclude it. -/
theorem keeps_method (byName : Bool) (f : Function) : Keeps (p.draftMethod byName f) :=
  p.keeps_kept fun fqn => p.keeps_entry _ fqn _ _

/-- A constructor is drafted on one level. -/
theorem keeps_constructor (f : Function) : Keeps (p.draftConstructor f) :=
  p.keeps_kept fun fqn => p.keeps_entry _ fqn _ _

/-- A value of an enum is drafted on one level. -/
theorem keeps_enumValue (v : Variable) : Keeps (p.draftEnumValue v) :=
  p.keeps_kept fun fqn => (p.keeps_preamble _ fqn).seq (.line _)

/-- A variable of a namespace is drafted on one level. -/
theorem keeps_constant (word : String) (v : Variable) : Keeps (p.draftConstant word v) :=
  p.keeps_kept fun fqn => p.keeps_entry _ fqn _ _

/-- A function of a namespace is drafted on one level. -/
theorem keeps_function (word : String) (f : Function) : Keeps (p.draftFunction word f) :=
  p.keeps_kept fun fqn => p.keeps_entry _ fqn _ _

/-- The values of a scope are drafted on one level. -/
theorem keeps_values (word : String) (s : Scope) : Keeps (p.draftValues word s) :=
  (Shifts.forM fun x _ => p.keeps_constant word x).seq
    (.forM fun x _ => p.keeps_function word x)

/-- A class comes back from its body to the depth of its header. -/
theorem keeps_class (word : String) (c : Api.Class) : Keeps (p.draftClass word c) := by
  refine p.keeps_emitted fun fqn => (p.keeps_preamble _ fqn).seq <|
    (Shifts.onPage _).bind fun _ => (Shifts.onPage _).bind fun _ => (Shifts.line _).seq ?_
  -- What is drafted between the moves keeps the depth, one level in.
  exact Shifts.deeper.seq <| ((Shifts.forM fun x _ => p.keeps_constructor x).lift 1).seq <|
    ((Shifts.forM fun x _ => p.keeps_property x).lift 1).seq <|
    ((Shifts.forM fun x _ => p.keeps_method true x).lift 1).seq <|
    Shifts.shallower.seq (.line _)

/-- An interface comes back from its body to the depth of its header. -/
theorem keeps_interface (word : String) (i : Interface) : Keeps (p.draftInterface word i) := by
  refine p.keeps_emitted fun fqn => (p.keeps_preamble _ fqn).seq <|
    (Shifts.onPage _).bind fun _ => (Shifts.line _).seq ?_
  exact Shifts.deeper.seq <| ((Shifts.forM fun x _ => p.keeps_property x).lift 1).seq <|
    ((Shifts.forM fun x _ => p.keeps_method true x).lift 1).seq <|
    Shifts.shallower.seq (.line _)

/-- An enum comes back from its body to the depth of its header. -/
theorem keeps_enum (word : String) (e : Enum) : Keeps (p.draftEnum word e) := by
  refine p.keeps_emitted fun fqn => (p.keeps_preamble _ fqn).seq <| (Shifts.line _).seq ?_
  exact Shifts.deeper.seq <| ((Shifts.forM fun x _ => p.keeps_enumValue x).lift 1).seq <|
    Shifts.shallower.seq (.line _)

/-- The aggregates of a scope are drafted on one level. -/
theorem keeps_aggregates (word : String) (s : Scope) : Keeps (p.draftAggregates word s) :=
  (Shifts.forM fun x _ => p.keeps_class word x).seq <|
    (Shifts.forM fun x _ => p.keeps_interface word x).seq <|
    .forM fun x _ => p.keeps_enum word x

/-- An interface without members returns before the move in. -/
theorem keeps_nameSpaceInterface (word fqn : String) (s : Scope) :
    Keeps (p.draftNameSpaceInterface word fqn s) := by
  refine (p.keeps_preamble _ fqn).seq <| .ite _ ((Shifts.line _).seq (.pure ())) ?_
  exact (Shifts.line _).seq <| Shifts.deeper.seq <|
    ((Shifts.forM fun x _ => p.keeps_property x).lift 1).seq <|
    ((Shifts.forM fun x _ => p.keeps_method false x).lift 1).seq <|
    Shifts.shallower.seq (.line _)

/-- A namespace block comes back to its own depth if what is inside keeps that of the inside. -/
theorem keeps_block (word : String) (s : Scope) (asInterface : Bool) {inner : Drafting Unit}
    (h : Keeps inner) : Keeps (p.draftBlock word s asInterface inner) :=
  (Shifts.line _).seq <| Shifts.deeper.seq <|
    ((Shifts.onlyIf _ (p.keeps_values "export " s)).lift 1).seq <|
    ((p.keeps_aggregates "export " s).lift 1).seq <| (h.lift 1).seq <|
    Shifts.shallower.seq (.line _)

/-- Drafting a list of namespaces into the global tree is drafting them one after another. -/
theorem draftGlobalNamespaces_eq (isTop : Bool) (nested : List Namespace) :
    p.draftGlobalNamespaces isTop nested = nested.forM (p.draftGlobalNamespace isTop) := by
  induction nested with
  | nil => rw [draftGlobalNamespaces, List.forM]
  | cons ns rest ih => rw [draftGlobalNamespaces, ih, List.forM]

/-- A namespace whose interface says everything returns before the move in. -/
theorem keeps_globalNamespace (ns : Namespace) :
    ∀ isTop, Keeps (p.draftGlobalNamespace isTop ns) := by
  induction ns using Namespace.induction with
  | step scope nested ih =>
    intro isTop
    have hnested : Keeps (p.draftGlobalNamespaces false nested) := by
      rw [draftGlobalNamespaces_eq]
      exact .forM fun child hchild => ih child hchild false
    rw [draftGlobalNamespace]
    refine p.keeps_emitted fun fqn => .ite _ ?_ ?_
    · exact (p.keeps_nameSpaceInterface _ fqn scope).seq <| .ite _ (.pure ()) <|
        p.keeps_block _ scope true hnested
    · exact (p.keeps_preamble _ fqn).seq <| p.keeps_block _ scope false hnested

/-- The global tree ends at the depth at which it begins. -/
theorem keeps_globals (top : Namespace) : Keeps (p.draftGlobals top) := by
  refine (Shifts.onPage _).seq <| (p.keeps_values _ top.scope).seq <|
    (p.keeps_aggregates _ top.scope).seq ?_
  rw [draftGlobalNamespaces_eq]
  exact .forM fun ns _ => p.keeps_globalNamespace ns true

/-- The nested namespaces that are interfaces are drafted on one level. -/
theorem keeps_childInterfaces (word : String) (ns : Namespace) :
    Keeps (p.draftChildInterfaces word ns) :=
  Shifts.forM fun child _ => (p.keeps_nameAt _ _).bind fun fqn =>
    .onlyIf _ (p.keeps_nameSpaceInterface word fqn child.scope)

/-- Asking for the names of nested interfaces changes neither depth nor text. -/
theorem keeps_interfaceNames (nested : List Namespace) : Keeps (p.interfaceNames nested) := by
  induction nested with
  | nil => exact .pure []
  | cons child rest ih =>
    exact (p.keeps_nameAt _ _).bind fun fqn => ih.bind fun names => .pure _

/-- Asking for the names that a block declares changes neither depth nor text. -/
theorem keeps_declaredNames (ns : Namespace) (asInterface : Bool) :
    Keeps (p.declaredNames ns asInterface) :=
  (p.keeps_interfaceNames ns.nested).bind fun _ => .pure _

/-- The body of a module block is drafted on one level. -/
theorem keeps_moduleBody (ns : Namespace) (asInterface : Bool) :
    Keeps (p.draftModuleBody ns asInterface) :=
  (Shifts.onlyIf _ (p.keeps_values _ ns.scope)).seq <| (p.keeps_aggregates _ ns.scope).seq <|
    p.keeps_childInterfaces _ ns

/-- What stands in front of the body of a block is drafted on one level. -/
theorem keeps_moduleStart (fqn : String) (ns : Namespace) (imports : List Reference.Import) :
    Keeps (p.draftModuleStart fqn ns imports) :=
  (Shifts.onlyIf _ (p.keeps_preamble _ fqn)).seq <| (Shifts.line _).seq <| Shifts.deeper.seq <|
    ((Shifts.forM fun _ _ => .line _).lift 1).seq <| ((Shifts.onlyIf _ (.line _)).lift 1).seq
    .shallower

/-- A module block comes back from its body to the depth of its opening. -/
theorem keeps_module (fqn : String) (ns : Namespace) : Keeps (p.draftModule fqn ns) :=
  (p.keeps_declaredNames ns _).bind fun _ => (Shifts.onPage _).seq <|
    (p.keeps_moduleBody ns _).aside.bind fun _ => (Shifts.onPage _).bind fun _ =>
    (Shifts.onPage _).seq <| (p.keeps_moduleStart fqn ns _).seq <| (Shifts.push _).seq <|
    (Shifts.line _).seq (.line _)

/-- Drafting the blocks of a list of namespaces is drafting those of each in turn. -/
theorem draftModuleTree_eq (nested : List Namespace) :
    p.draftModuleTree nested = nested.forM p.draftBlocks := by
  induction nested with
  | nil => rw [draftModuleTree, List.forM]
  | cons ns rest ih => rw [draftModuleTree, ih, List.forM]

/-- The blocks of a namespace and of those nested in it end at the depth at which they begin. -/
theorem keeps_blocks (ns : Namespace) : Keeps (p.draftBlocks ns) := by
  induction ns using Namespace.induction with
  | step scope nested ih =>
    rw [draftBlocks, draftModuleTree_eq]
    exact p.keeps_emitted fun fqn => (Shifts.onlyIf _ (p.keeps_module fqn _)).seq (.forM ih)

/-- The blocks of a list of namespaces end at the depth at which they begin. -/
theorem keeps_moduleTree (nested : List Namespace) : Keeps (p.draftModuleTree nested) := by
  rw [draftModuleTree_eq]
  exact .forM fun ns _ => p.keeps_blocks ns

/-- Script-level declarations and module blocks end at the depth at which they begin. -/
theorem keeps_modules (top : Namespace) : Keeps (p.draftModules top) :=
  (Shifts.onPage _).seq <| (p.keeps_values _ top.scope).seq <|
    (p.keeps_aggregates _ top.scope).seq <| (p.keeps_childInterfaces _ top).seq <|
    p.keeps_moduleTree top.nested

/-- The paths of the registry are drafted inside an interface that is closed again. -/
theorem keeps_paths : Keeps p.draftPaths :=
  (Shifts.line _).seq <| Shifts.deeper.seq <| ((Shifts.forM fun _ _ => .line _).lift 1).seq <|
    Shifts.shallower.seq (.line _)

/-- The registry ends at the depth at which it begins, whether or not there are modules. -/
theorem keeps_registry : Keeps p.draftRegistry :=
  .ite _ (.pure ()) <| Shifts.get.bind fun _ => (Shifts.onlyIf _ (.line _)).seq p.keeps_paths

/-- Every part of drafting keeps the depth and only adds to the text. -/
theorem keeps_part (part : Part) : Keeps (p.draftPart part) := by
  cases part with
  | globals top => exact p.keeps_globals top
  | globalNamespace isTop ns => exact p.keeps_globalNamespace ns isTop
  | modules top => exact p.keeps_modules top
  | moduleTree nested => exact p.keeps_moduleTree nested
  | module fqn ns => exact p.keeps_module fqn ns
  | childInterfaces word ns => exact p.keeps_childInterfaces word ns
  | nameSpaceInterface word fqn s => exact p.keeps_nameSpaceInterface word fqn s
  | values word s => exact p.keeps_values word s
  | aggregates word s => exact p.keeps_aggregates word s
  | classType word c => exact p.keeps_class word c
  | interfaceType word i => exact p.keeps_interface word i
  | enumType word e => exact p.keeps_enum word e
  | property v => exact p.keeps_property v
  | method byName f => exact p.keeps_method byName f
  | registry => exact p.keeps_registry

end Drafter

/-! ## Blocks around their bodies -/

namespace Drafter

variable {p : Drafter}

/-- Where a name can be read, the sheet is left as it was. -/
theorem eq_of_nameAt {link : Link} {name fqn : String} {sheet after : Sheet}
    (h : (p.nameAt link name).run sheet = .ok (fqn, after)) : after = sheet := by
  rw [run_nameAt] at h
  split at h <;> cases h
  rfl

/-- Where the names of nested interfaces can be read, the sheet is left as it was. -/
theorem eq_of_interfaceNames {nested : List Namespace} {names : List String}
    {sheet after : Sheet} (h : (p.interfaceNames nested).run sheet = .ok (names, after)) :
    after = sheet := by
  induction nested generalizing names sheet after with
  | nil =>
    cases h
    rfl
  | cons child rest ih =>
    obtain ⟨fqn, between, hname, h⟩ := bind_eq_ok.mp h
    obtain ⟨others, last, hrest, h⟩ := bind_eq_ok.mp h
    cases h
    rw [ih hrest, eq_of_nameAt hname]

/-- Reading the names that a block declares leaves the sheet as it is. -/
theorem eq_of_declaredNames {ns : Namespace} {asInterface : Bool} {locals : List String}
    {sheet after : Sheet} (h : (p.declaredNames ns asInterface).run sheet = .ok (locals, after)) :
    after = sheet := by
  obtain ⟨names, between, hnames, h⟩ := bind_eq_ok.mp h
  cases h
  exact eq_of_interfaceNames hnames

/-- Asking for the imports gives those of the place of writing and leaves the sheet. -/
theorem onPage_importsHere {sheet after : Sheet} {imports : List Reference.Import}
    (h : (onPage Writer.importsHere).run sheet = .ok (imports, after)) :
    sheet.page.place.imports = imports ∧ sheet = after := by
  obtain ⟨text, depth, page⟩ := sheet
  change Except.ok ((Writer.importsHere.run page).1,
    (⟨text, depth, (Writer.importsHere.run page).2⟩ : Sheet)) = .ok (imports, after) at h
  rw [Writer.run_importsHere] at h
  cases h
  exact ⟨rfl, rfl⟩

/-- A module block that is drafted has the body that is drafted on its own, unaltered, below the
start with the imports that the body leaves. -/
theorem draftModule_eq_ok {fqn : String} {ns : Namespace} {sheet after : Sheet}
    (h : (p.draftModule fqn ns).run sheet = .ok ((), after)) :
    ∃ locals inner, (p.declaredNames ns (p.isInterface fqn)).run sheet = .ok (locals, sheet) ∧
      (p.draftModuleBody ns (p.isInterface fqn)).run
        ⟨"", 1, { sheet.page with place := .module (.start fqn locals) }⟩ = .ok ((), inner) ∧
      after.text = sheet.text
        ++ Line.join (p.moduleStart sheet.depth fqn ns inner.page.place.imports) ++ inner.text
        ++ Line.join (Line.leveled sheet.depth ["\x7d", ""]) := by
  obtain ⟨locals, between, hlocals, hrest⟩ := bind_eq_ok.mp h
  obtain rfl := eq_of_declaredNames hlocals
  obtain ⟨_, moved, hmoved, hrest⟩ := bind_eq_ok.mp hrest
  cases hmoved
  obtain ⟨body, drafted, hbody, hrest⟩ := bind_eq_ok.mp hrest
  obtain ⟨inner, hinner, rfl, rfl⟩ := aside_eq_ok.mp hbody
  refine ⟨locals, inner, hlocals, hinner, ?_⟩
  obtain ⟨imports, read, hread, hrest⟩ := bind_eq_ok.mp hrest
  obtain ⟨rfl, rfl⟩ := onPage_importsHere hread
  obtain ⟨_, left, hleft, hrest⟩ := bind_eq_ok.mp hrest
  cases hleft
  have hend : Adds between.depth (line "\x7d" >>= fun _ => line "")
      (Line.leveled between.depth ["\x7d", ""]) :=
    Completes.drafts <| .adds (adds_line _ _) <| .ends (adds_line _ _) rfl
  rw [StateT.run_bind, adds_moduleStart] at hrest
  have hafter := hrest.symm.trans (hend _ _)
  cases hafter
  rfl

end Drafter

/-! ## Libraries -/

/-- What drafting a library goes by. -/
def drafterFor (linked : Correction.Linked) (table : Symbol.Table) (d : Directives) : Drafter :=
  let nameOf := namingOf linked.arena
  let plan := Plan.of d nameOf linked.description.top
  { writerFor linked.library table d nameOf plan with
    arena := linked.arena, modules := plan.modules }

/-- The sheet on which the draft of a library begins. -/
def firstSheet (linked : Correction.Linked) (d : Directives) : Sheet :=
  ⟨"", 0, ⟨.globals, Ordered.Set.ofList
    (Plan.of d (namingOf linked.arena) linked.description.top).warnings⟩⟩

/-- If a library can be emitted, its draft has the same text and warnings. -/
theorem run_draft_of_emit {linked : Correction.Linked} {table : Symbol.Table} {d : Directives}
    {flavor : Flavor} {e : Emission} (h : emit linked table d flavor = .ok e) :
    ∃ after, ((drafterFor linked table d).draft flavor linked.description.top).run
        (firstSheet linked d) = .ok ((), after) ∧
      after.text = e.text ∧ after.depth = 0 ∧ after.page.warnings.toList = e.warnings := by
  cases hnames : checkNames linked.arena (namedNodes linked.description.top) with
  | error cause =>
    rw [emit, hnames] at h
    cases h
  | ok _ =>
    rw [emit, hnames] at h
    cases h
    have hall : (drafterFor linked table d).NamesAll (namedNodes linked.description.top) := by
      intro asked hasked
      obtain ⟨_, hfqn⟩ := checkNames_eq_ok.mp hnames asked hasked
      exact fqnOf_eq_namingOf hfqn
    exact ⟨_, Drafter.run_draft flavor hall _, rfl, rfl, rfl⟩

/-- Drafting keeps its depth and its text whatever it meets. A library that can be emitted has a
draft with the same text and the same warnings, which ends at depth zero, where it began. Whatever
part of a draft is taken on any sheet, the depth never drops below zero; and if the part succeeds,
the depth is what it was and the text before stands in front. A module block has its body, drafted
on its own one level in, unaltered below its first line and the lines of the imports that are known
after the body. -/
theorem drafting_keeps_depth_and_text (linked : Correction.Linked) (table : Symbol.Table)
    (d : Directives) :
    let p := drafterFor linked table d
    (∀ flavor e, emit linked table d flavor = .ok e →
      ∃ after, (p.draft flavor linked.description.top).run (firstSheet linked d) = .ok ((), after) ∧
        after.text = e.text ∧ after.depth = 0 ∧ after.page.warnings.toList = e.warnings) ∧
    (∀ part sheet, (p.draftPart part).run sheet ≠ .error .underflow ∧
      ∀ after, (p.draftPart part).run sheet = .ok ((), after) →
        after.depth = sheet.depth ∧ ∃ added, after.text = sheet.text ++ added) ∧
    ∀ fqn ns sheet after, (p.draftModule fqn ns).run sheet = .ok ((), after) →
      ∃ locals inner, (p.declaredNames ns (p.isInterface fqn)).run sheet = .ok (locals, sheet) ∧
        (p.draftModuleBody ns (p.isInterface fqn)).run
          ⟨"", 1, { sheet.page with place := .module (.start fqn locals) }⟩ = .ok ((), inner) ∧
        after.text = sheet.text
          ++ Line.join (p.moduleStart sheet.depth fqn ns inner.page.place.imports) ++ inner.text
          ++ Line.join (Line.leveled sheet.depth ["\x7d", ""]) := by
  intro p
  refine ⟨fun flavor e h => run_draft_of_emit h, fun part sheet => ⟨?_, fun after hrun => ?_⟩,
    fun fqn ns sheet after h => Drafter.draftModule_eq_ok h⟩
  · exact (p.keeps_part part).safe (Nat.zero_le _)
  · exact (p.keeps_part part).run (Nat.zero_le _) hrun

/-- A library with a class that extends one of another module. -/
def withExtended : Description :=
  .ofTop (.plain "" [] [.plain "util" [.plain "Reader"] [],
    .plain "ui" [{ Class.plain "Panel" with base := some "util.Reader" }] []])

/-- The library, linked as it is described. -/
def linkedExtended : Correction.Linked :=
  ⟨"lib", (Link.attach withExtended).1, (Link.attach withExtended).2, default⟩

/-- The library with an extended class is drafted back to depth zero, behind what there was before.
-/
theorem drafting_keeps_depth_and_text_withExtended :
    let table := .ofDescription "lib" withExtended
    let p := drafterFor linkedExtended table .empty
    let ui := linkedExtended.description.top.nested.getLastD default
    (∃ e, emit linkedExtended table .empty .modules = .ok e ∧
      ∃ after, (p.draft .modules linkedExtended.description.top).run
          (firstSheet linkedExtended .empty) = .ok ((), after) ∧
        after.text = e.text ∧ after.depth = 0) ∧
    ∃ after, (p.draftModule "ui" ui).run ⟨"", 0, ⟨.script, ∅⟩⟩ = .ok ((), after) ∧
      after.depth = 0 ∧ after.text = "declare module \x22ui\x22 \x7b\n"
        ++ "    import \x7b Reader \x7d from \x22util\x22;\n\n"
        ++ "    export class Panel extends Reader \x7b\n    \x7d\n" ++ "\x7d\n\n" := by
  intro table p ui
  obtain ⟨hdrafted, hparts, hmodule⟩ := drafting_keeps_depth_and_text linkedExtended table .empty
  have hemit : emit linkedExtended table .empty .modules = .ok _ := rfl
  obtain ⟨after, hdraft, htext, hdepth, -⟩ := hdrafted .modules _ hemit
  refine ⟨⟨_, hemit, after, hdraft, htext, hdepth⟩, ?_⟩
  have hrun : (p.draftModule "ui" ui).run ⟨"", 0, ⟨.script, ∅⟩⟩ = .ok ((), _) := rfl
  obtain ⟨locals, inner, hlocals, hinner, htext⟩ := hmodule _ _ _ _ hrun
  obtain rfl : locals = ["Panel"] := (Prod.mk.inj (Except.ok.inj (hlocals.symm.trans rfl))).1
  have himports : ((p.draftModuleBody ui (p.isInterface "ui")).run
      ⟨"", 1, ⟨.module (.start "ui" ["Panel"]), ∅⟩⟩).map (fun r => r.2.page.place.imports)
      = .ok [⟨"util.Reader", "util", "Reader", "Reader"⟩] := by
    decide +kernel
  have hbody : ((p.draftModuleBody ui (p.isInterface "ui")).run
      ⟨"", 1, ⟨.module (.start "ui" ["Panel"]), ∅⟩⟩).map (fun r => r.2.text)
      = .ok "    export class Panel extends Reader \x7b\n    \x7d\n" := by
    decide +kernel
  have himports : inner.page.place.imports = _ :=
    Except.ok.inj ((congrArg (Except.map _) hinner).symm.trans himports)
  have hbody : inner.text = _ := Except.ok.inj ((congrArg (Except.map _) hinner).symm.trans hbody)
  rw [himports, hbody] at htext
  exact ⟨_, hrun, ((hparts (.module "ui" ui) _).2 _ hrun).1, htext.trans (by decide +kernel)⟩

end Ambient.Declaration
