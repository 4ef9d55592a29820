import Ambient.Proofs.Declaration.Drafting
import Ambient.Proofs.Declaration.Suppression
import Ambient.Proofs.Declaration.Uses

/-!
# Drafts of what is written

Drafting into one buffer and writing declarations that are laid out afterwards come to the same:
the text of a draft is that of the document, and the page is left alike. Each step is compared
with the writing of the declarations it drafts, after the lines that are there already.
-/

namespace Ambient.Declaration

open Api Drafting

/-! ## Lines -/

namespace Line

/-- No lines have no text. -/
theorem join_nil : join [] = "" := rfl

/-- The text of one line is the line as it is written. -/
theorem join_singleton (l : Line) : join [l] = l.written := by
  simp [join]

end Line

/-- The lines of trees are those of the first ones and then those of the others. -/
theorem Tree.linesOf_append (depth : Nat) (xs ys : List Tree) :
    linesOf depth (xs ++ ys) = linesOf depth xs ++ linesOf depth ys := by
  induction xs with
  | nil => rfl
  | cons tree rest ih => rw [List.cons_append, linesOf, linesOf, ih, List.append_assoc]

/-- Items that stand as trees have their own lines and no more. -/
theorem Tree.linesOf_items (depth : Nat) (items : List Item) :
    linesOf depth (items.map Tree.item) = items.flatMap (Item.lines depth) := by
  induction items with
  | nil => rfl
  | cons item rest ih => rw [List.map_cons, linesOf, lines, ih, List.flatMap_cons]

/-! ## Drafting and writing compared -/

/-- After some lines, a step at one depth ends at another with the lines of what is written, and
leaves the page that the writing leaves. -/
def Completes {β : Type} (now depth : Nat) (before : List Line) (m : Drafting Unit)
    (writing : Writing β) (lines : β → List Line) : Prop :=
  ∀ text page, m.run ⟨text ++ Line.join before, now, page⟩
    = .ok ((), ⟨text ++ Line.join (lines (writing.run page).1), depth, (writing.run page).2⟩)

/-- A step at a depth adds the lines of what is written, and leaves the page that the writing
leaves. -/
def Drafts {β : Type} (depth : Nat) (m : Drafting Unit) (writing : Writing β)
    (lines : β → List Line) : Prop :=
  ∀ text page, m.run ⟨text, depth, page⟩
    = .ok ((), ⟨text ++ Line.join (lines (writing.run page).1), depth, (writing.run page).2⟩)

/-- A step at a depth adds lines. -/
abbrev Adds (depth : Nat) (m : Drafting Unit) (more : List Line) : Prop :=
  Drafts depth m (pure ()) fun _ => more

/-- A step reads an answer. -/
def Reads {α : Type} (m : Drafting α) (answer : α) : Prop :=
  ∀ sheet, m.run sheet = .ok (answer, sheet)

namespace Completes

variable {α β : Type} {now depth : Nat} {before more : List Line} {m n : Drafting Unit}
  {writing other : Writing β} {lines : β → List Line}

/-- An action that completes a writing with nothing written before is a draft of it. -/
theorem drafts (h : Completes depth depth [] m writing lines) : Drafts depth m writing lines := by
  intro text page
  have h := h text page
  rwa [Line.join_nil, String.append_empty] at h

/-- A step that drafts what is written first. -/
theorem sub {x : Writing α} {f : α → List Line} {l : α → Writing β} (h : Drafts now m x f)
    (hn : ∀ a, Completes now depth (before ++ f a) n (l a) lines) :
    Completes now depth before (m >>= fun _ => n) (x >>= l) lines := by
  intro text page
  rw [StateT.run_bind, h]
  have hn := hn (x.run page).1 text (x.run page).2
  rw [Line.join_append, ← String.append_assoc] at hn
  exact hn

/-- A step that drafts all that is written. -/
theorem last {x : Writing α} {f : α → List Line} {g : α → β} (h : Drafts depth m x f)
    (hlines : ∀ a, lines (g a) = before ++ f a) :
    Completes depth depth before m (x >>= fun a => pure (g a)) lines := by
  intro text page
  rw [h]
  change _ = Except.ok ((), (⟨text ++ Line.join (lines (g (x.run page).1)), _, _⟩ : Sheet))
  rw [hlines, Line.join_append, ← String.append_assoc]
  rfl

/-- A step that adds lines. -/
theorem adds (h : Adds now m more) (hn : Completes now depth (before ++ more) n writing lines) :
    Completes now depth before (m >>= fun _ => n) writing lines :=
  sub h fun _ => hn

/-- A step that adds the last lines. -/
theorem ends (h : Adds depth m more) {b : β} (hlines : lines b = before ++ more) :
    Completes depth depth before m (pure b) lines :=
  last h fun _ => hlines

/-- A step that does not add anything when nothing is written. -/
theorem done {b : β} (hlines : lines b = before) :
    Completes depth depth before (pure ()) (pure b) lines := by
  intro text page
  rw [← hlines]
  rfl

/-- A step on the page. -/
theorem onPage {x : Writing α} {k : α → Drafting Unit} {l : α → Writing β}
    (h : ∀ a, Completes now depth before (k a) (l a) lines) :
    Completes now depth before (Drafting.onPage x >>= k) (x >>= l) lines :=
  fun text page => h (x.run page).1 text (x.run page).2

/-- A step that reads an answer. -/
theorem reads {x : Drafting α} {k : α → Drafting Unit} {a : α} (h : Reads x a)
    (hk : Completes now depth before (k a) writing lines) :
    Completes now depth before (x >>= k) writing lines := by
  intro text page
  rw [StateT.run_bind, h]
  exact hk text page

/-- The last step out. -/
theorem out {b : β} (hlines : lines b = before) :
    Completes (depth + 1) depth before Drafting.shallower (pure b) lines := by
  intro text page
  rw [← hlines]
  rfl

/-- Going one level deeper is part of what completes a writing from the level that is left. -/
theorem deeper (h : Completes (now + 1) depth before n writing lines) :
    Completes now depth before (Drafting.deeper >>= fun _ => n) writing lines :=
  fun text page => h text page

/-- Going one level back is part of what completes a writing from the level that is left. -/
theorem shallower (h : Completes now depth before n writing lines) :
    Completes (now + 1) depth before (Drafting.shallower >>= fun _ => n) writing lines :=
  fun text page => h text page

/-- A step that is not taken. -/
theorem skip (h : Completes now depth before n writing lines) :
    Completes now depth before (onlyIf false m >>= fun _ => n) writing lines :=
  fun text page => h text page

/-- One of two steps, with one of two writings. -/
theorem ite (condition : Prop) [Decidable condition]
    (h : Completes now depth before m writing lines)
    (hn : Completes now depth before n other lines) :
    Completes now depth before (if condition then m else n) (if condition then writing else other)
      lines := by
  split
  · exact h
  · exact hn

/-- A step aside, whose text is put in later. -/
theorem aside {x : Writing α} {f : α → List Line} {k : String → Drafting Unit} {l : α → Writing β}
    (h : Drafts 1 m x f)
    (hk : ∀ a, Completes now depth before (k (Line.join (f a))) (l a) lines) :
    Completes now depth before (Drafting.aside m >>= k) (x >>= l) lines := by
  intro text page
  rw [StateT.run_bind, run_aside, h]
  have hk := hk (x.run page).1 text (x.run page).2
  rw [← String.empty_append (s := Line.join _)] at hk
  exact hk

end Completes

/-- Two steps that read. -/
theorem Reads.bind {α β : Type} {m : Drafting α} {k : α → Drafting β} {a : α} {b : β}
    (h : Reads m a) (hk : Reads (k a) b) : Reads (m >>= k) b := by
  intro sheet
  rw [StateT.run_bind, h]
  exact hk sheet

/-- A line that is drafted is added at the depth of the draft. -/
theorem adds_line (depth : Nat) (text : String) : Adds depth (line text) [⟨depth, text⟩] := by
  intro before page
  rw [Line.join_singleton]
  rfl

/-- Text that is pushed as a whole is that of its lines, whatever the depth. -/
theorem adds_push (depth : Nat) (lines : List Line) : Adds depth (push (Line.join lines)) lines :=
  fun _ _ => rfl

/-- An action under a condition adds its lines under this condition. -/
theorem adds_onlyIf {depth : Nat} {m : Drafting Unit} {more : List Line} (condition : Bool)
    (h : Adds depth m more) : Adds depth (onlyIf condition m) (if condition then more else []) := by
  cases condition with
  | false => exact Completes.drafts (.done rfl)
  | true => exact h

/-- Lines that are drafted one by one are added at one depth, in their order. -/
theorem adds_lines {α : Type} (depth : Nat) (text : α → String) (xs : List α) :
    Adds depth (xs.forM fun x => line (text x)) (Line.leveled depth (xs.map text)) := by
  induction xs with
  | nil => exact Completes.drafts (.done rfl)
  | cons x rest ih => exact Completes.drafts (.adds (adds_line depth _) (.ends ih rfl))

/-- Elements that are drafted one by one, where those that are not written add nothing. -/
theorem drafts_writeSome {α β : Type} {depth : Nat} {draft : α → Drafting Unit}
    {write : α → Writing (Option β)} {lines : β → List Line} {xs : List α}
    (h : ∀ x ∈ xs, Drafts depth (draft x) (write x) fun written => written.elim [] lines) :
    Drafts depth (xs.forM draft) (writeSome write xs) (List.flatMap lines) := by
  induction xs with
  | nil => exact Completes.drafts (.done rfl)
  | cons x rest ih =>
    obtain ⟨hx, hrest⟩ := List.forall_mem_cons.mp h
    refine Completes.drafts (.sub hx fun written => .last (ih hrest) fun others => ?_)
    cases written with
    | none => rfl
    | some item => rw [Option.toList_some, List.singleton_append, List.flatMap_cons]; rfl

/-- Writing only what is kept is filtering first and then writing all that is left. -/
theorem writeSome_filter {α β : Type} (write : α → Writing β) (keep : α → Bool) (xs : List α) :
    writeSome (fun x => if keep x then do return some (← write x) else pure none) xs
      = (xs.filter keep).mapM write := by
  induction xs with
  | nil => rfl
  | cons x rest ih =>
    rw [writeSome, ih]
    cases hkeep : keep x with
    | false =>
      rw [List.filter_cons_of_neg (by simp [hkeep])]
      simp
    | true =>
      rw [List.filter_cons_of_pos hkeep, List.mapM_cons]
      simp

namespace Drafter

variable {p : Drafter}

/-- The arena names a node as the writer does. -/
def Names (p : Drafter) (link : Link) (name : String) : Prop :=
  p.arena.fqnOf link name = .ok (p.nameOf link)

/-- Asking for a name that can be read off the links reads it and changes nothing. -/
theorem Names.reads {link : Link} {name : String} (h : p.Names link name) :
    Reads (p.nameAt link name) (p.nameOf link) := by
  intro sheet
  rw [run_nameAt, h]

/-- The preamble of a declaration adds the lines of its comment and of the reason below it. -/
theorem adds_preamble (depth : Nat) (comment : Comment) (fqn : String) :
    Adds depth (p.preamble comment fqn) ((p.lead fqn comment).lines depth) := by
  have hcomment : Adds depth (comment.lines.forM line) (Line.leveled depth comment.lines) := by
    have h := adds_lines depth id comment.lines
    rwa [List.map_id] at h
  rw [preamble, Lead.lines, Writer.lead, Line.leveled, List.map_append]
  cases p.directives.suppression? fqn with
  | none => exact Completes.drafts (.adds hcomment (.done (List.append_nil _)))
  | some reason => exact Completes.drafts (.adds hcomment (.ends (adds_line depth _) rfl))

/-! ### Members -/

/-- What is drafted under the name of a node, if it is kept. -/
theorem drafts_kept {β : Type} {depth : Nat} {link : Link} {name : String}
    {keep : String → Writing Bool} {draft : String → Drafting Unit}
    {written : Writing (Option β)} {lines : β → List Line} (hname : p.Names link name)
    (h : Completes depth depth [] (draft (p.nameOf link)) written fun b => b.elim [] lines) :
    Drafts depth
      (do
        let fqn ← p.nameAt link name
        if !(← onPage (keep fqn)) then return
        draft fqn)
      (do
        if !(← keep (p.nameOf link)) then return none
        written)
      fun b => b.elim [] lines :=
  Completes.drafts <| .reads hname.reads <| .onPage fun _ => .ite _ (.done rfl) h

/-- What is drafted under the name of a node, if it is emitted. -/
theorem drafts_emitted {β : Type} {depth : Nat} {link : Link} {name : String}
    {draft : String → Drafting Unit} {written : Writing (Option β)} {lines : β → List Line}
    (hname : p.Names link name)
    (h : Completes depth depth [] (draft (p.nameOf link)) written fun b => b.elim [] lines) :
    Drafts depth
      (do
        let fqn ← p.nameAt link name
        if !p.emitted.contains fqn then return
        draft fqn)
      (if !p.emitted.contains (p.nameOf link) then pure none else written)
      fun b => b.elim [] lines :=
  Completes.drafts <| .reads hname.reads <| .ite _ (.done rfl) h

/-- A line that says what is written on the page, below a preamble. -/
theorem completes_entry {α β : Type} {depth : Nat} {comment : Comment} {fqn : String}
    {writing : Writing α} {text : α → String} {value : α → β} {lines : β → List Line}
    (h : ∀ a, lines (value a) = (p.lead fqn comment).lines depth ++ [⟨depth, text a⟩]) :
    Completes depth depth []
      (do
        p.preamble comment fqn
        let written ← onPage writing
        line (text written))
      (writing >>= fun a => pure (some (value a))) fun written => written.elim [] lines :=
  .adds (adds_preamble depth comment fqn) <| .onPage fun a => .ends (adds_line depth _) (h a)

variable {depth : Nat}

/-- A field or property is drafted as its member is laid out, or not at all. -/
theorem drafts_property {v : Variable} (h : p.Names v.link v.name) :
    Drafts depth (p.draftProperty v) (p.property v) fun m => m.elim [] (Member.lines depth) :=
  drafts_kept h <| completes_entry fun _ => rfl

/-- A function as a member, if it is kept. -/
theorem completes_memberFunction (fqn : String) (f : Function) :
    Completes depth depth []
      (do
        p.preamble (p.functionComment f) fqn
        let signature ← onPage (p.signature f)
        line (staticWord f.isStatic ++ Identifier.propertyKey f.name ++ signature.text ++ ";"))
      (p.memberFunction fqn f >>= fun m => pure (some m))
      fun m => m.elim [] (Member.lines depth) := by
  rw [Writer.memberFunction, bind_assoc]
  exact completes_entry fun _ => rfl

/-- A method is drafted as its member is laid out; its simple name can exclude it too. -/
theorem drafts_method {f : Function} (h : p.Names f.link f.name) :
    Drafts depth (p.draftMethod true f) (p.method f) fun m => m.elim [] (Member.lines depth) :=
  drafts_kept h (completes_memberFunction _ f)

/-- A function of a namespace is drafted as a method that its simple name does not exclude. -/
theorem drafts_nameSpaceMethod {f : Function} (h : p.Names f.link f.name) :
    Drafts depth (p.draftMethod false f) (p.nameSpaceMethod f)
      fun m => m.elim [] (Member.lines depth) :=
  drafts_kept h (completes_memberFunction _ f)

/-- A constructor is drafted as its member is laid out, or not at all. -/
theorem drafts_constructor {f : Function} (h : p.Names f.link f.name) :
    Drafts depth (p.draftConstructor f) (p.construct f) fun m => m.elim [] (Member.lines depth) :=
  drafts_kept h <| completes_entry fun _ => rfl

/-- A value of an enum is drafted as its member is laid out, or not at all. -/
theorem drafts_enumValue {v : Variable} (h : p.Names v.link v.name) :
    Drafts depth (p.draftEnumValue v) (p.enumValue v) fun m => m.elim [] (Member.lines depth) :=
  drafts_kept h <| .adds (adds_preamble depth _ _) <| .ends (adds_line depth _) rfl

/-- A variable of a namespace is drafted as its item is laid out, or not at all. -/
theorem drafts_constant {v : Variable} (h : p.Names v.link v.name) :
    Drafts depth (p.draftConstant (exposure depth) v) (p.constant v)
      fun item => item.elim [] (Item.lines depth) :=
  drafts_kept h <| completes_entry fun _ => rfl

/-- A function of a namespace is drafted as its item is laid out, or not at all. -/
theorem drafts_function {f : Function} (h : p.Names f.link f.name) :
    Drafts depth (p.draftFunction (exposure depth) f) (p.function f)
      fun item => item.elim [] (Item.lines depth) :=
  drafts_kept h <| completes_entry fun _ => rfl

/-! ### Items -/

/-- The arena names the nodes of a list as the writer does. -/
def NamesAll (p : Drafter) (nodes : List (Link × String)) : Prop :=
  ∀ asked ∈ nodes, p.Names asked.1 asked.2

/-- The names of two lists of nodes can be read if those of each can. -/
theorem namesAll_append {nodes more : List (Link × String)} :
    p.NamesAll (nodes ++ more) ↔ p.NamesAll nodes ∧ p.NamesAll more :=
  List.forall_mem_append

/-- The names of a list of nodes can be read if that of the first and those of the others can. -/
theorem namesAll_cons {link : Link} {name : String} {nodes : List (Link × String)} :
    p.NamesAll ((link, name) :: nodes) ↔ p.Names link name ∧ p.NamesAll nodes :=
  List.forall_mem_cons

/-- The names of the nodes that elements have can be read if those of every element can. -/
theorem namesAll_flatMap {α : Type} {nodes : α → List (Link × String)} {xs : List α} :
    p.NamesAll (xs.flatMap nodes) ↔ ∀ x ∈ xs, p.NamesAll (nodes x) :=
  List.forall_mem_flatMap

/-- The names in a scope can be read exactly if those of each kind of node in it can. -/
theorem namesAll_scopeNodes {s : Scope} : p.NamesAll (scopeNodes s) ↔
    p.NamesAll (variableNodes s.constants) ∧ p.NamesAll (functionNodes s.functions) ∧
      (∀ c ∈ s.classes, p.Names c.link c.name ∧ p.NamesAll (functionNodes c.constructors) ∧
        p.NamesAll (variableNodes c.fields) ∧ p.NamesAll (functionNodes c.methods)) ∧
      (∀ i ∈ s.interfaces, p.Names i.link i.name ∧ p.NamesAll (variableNodes i.properties) ∧
        p.NamesAll (functionNodes i.methods)) ∧
      ∀ e ∈ s.enums, p.Names e.link e.name ∧ p.NamesAll (variableNodes e.values) := by
  simp only [scopeNodes, namesAll_append, namesAll_flatMap, namesAll_cons, and_assoc]

/-- The names in a namespace can be read exactly if its own, those in its scope and those in the
namespaces nested in it can. -/
theorem namesAll_namedNodes {ns : Namespace} : p.NamesAll (namedNodes ns) ↔
    p.Names ns.scope.link ns.scope.name ∧ p.NamesAll (scopeNodes ns.scope) ∧
      ∀ child ∈ ns.nested, p.NamesAll (namedNodes child) := by
  obtain ⟨scope, nested⟩ := ns
  rw [namedNodes, List.cons_append, namesAll_cons, namesAll_append, namedNodesOf_eq,
    namesAll_flatMap]

/-- One of several variables whose names can be read has such a name. -/
theorem NamesAll.variable {list : List Variable} (h : p.NamesAll (variableNodes list))
    {v : Variable} (hv : v ∈ list) : p.Names v.link v.name :=
  h (v.link, v.name) (List.mem_map_of_mem hv)

/-- One of several functions whose names can be read has such a name. -/
theorem NamesAll.function {list : List Function} (h : p.NamesAll (functionNodes list))
    {f : Function} (hf : f ∈ list) : p.Names f.link f.name :=
  h (f.link, f.name) (List.mem_map_of_mem hf)

/-- Fields or properties are drafted one after another, as their members are laid out. -/
theorem drafts_properties {list : List Variable} (h : p.NamesAll (variableNodes list)) :
    Drafts depth (list.forM p.draftProperty) (writeSome p.property list)
      (List.flatMap (Member.lines depth)) :=
  drafts_writeSome fun _ hv => drafts_property (h.variable hv)

/-- Methods are drafted one after another, as their members are laid out. -/
theorem drafts_methods {list : List Function} (h : p.NamesAll (functionNodes list)) :
    Drafts depth (list.forM (p.draftMethod true)) (writeSome p.method list)
      (List.flatMap (Member.lines depth)) :=
  drafts_writeSome fun _ hf => drafts_method (h.function hf)

/-- The variables and then the functions of a scope are drafted as their items are laid out. -/
theorem drafts_values {s : Scope} (h : p.NamesAll (scopeNodes s)) :
    Drafts depth (p.draftValues (exposure depth) s) (p.values s)
      (List.flatMap (Item.lines depth)) := by
  obtain ⟨hconstants, hfunctions, -⟩ := namesAll_scopeNodes.mp h
  refine Completes.drafts <|
    .sub (drafts_writeSome fun v hv => drafts_constant (hconstants.variable hv)) fun constants =>
    .last (drafts_writeSome fun f hf => drafts_function (hfunctions.function hf)) fun others => ?_
  exact List.flatMap_append

/-- The lines of a class, interface or enum whose body stands below its first line. -/
theorem Item.lines_aggregate (depth : Nat) (head : Head) {header : Header}
    (h : header.isBare = false) (members : List Member) :
    Item.lines depth (.aggregate head header members)
      = head.lead.lines depth ++ [⟨depth, exposure depth ++ header.text head.name ++ " \x7b"⟩]
        ++ members.flatMap (Member.lines (depth + 1)) ++ [⟨depth, "\x7d"⟩] := by
  rw [Item.lines, h]
  simp

/-- The base of a class is written first. -/
theorem classType_eq (c : Api.Class) :
    p.classType c = if !p.emitted.contains (p.nameOf c.link) then pure none else do
      let base ← p.writeBase (p.nameOf c.link) c.base
      let interfaces ← writeSome (p.implemented (p.nameOf c.link)) c.implemented
      let constructors ← writeSome p.construct c.constructors
      let fields ← writeSome p.property c.fields
      let methods ← writeSome p.method c.methods
      return some (.aggregate (p.headOf (p.nameOf c.link) c.name c.doc)
        (.classType c.isAbstract base interfaces) (constructors ++ fields ++ methods)) := by
  unfold Writer.classType writeBase
  cases c.base <;> rfl

/-- A class is drafted as its item is laid out: its header first, its members one level deeper. -/
theorem drafts_class {c : Api.Class} (h : p.Names c.link c.name)
    (hconstructors : p.NamesAll (functionNodes c.constructors))
    (hfields : p.NamesAll (variableNodes c.fields))
    (hmethods : p.NamesAll (functionNodes c.methods)) :
    Drafts depth (p.draftClass (exposure depth) c) (p.classType c)
      fun item => item.elim [] (Item.lines depth) := by
  rw [classType_eq]
  refine drafts_emitted h <| .adds (adds_preamble depth _ _) <| .onPage fun base =>
    .onPage fun implemented => .adds (adds_line depth _) <| .deeper <|
    .sub (drafts_writeSome fun f hf => drafts_constructor (hconstructors.function hf)) fun cs =>
    .sub (drafts_properties hfields) fun fs => .sub (drafts_methods hmethods) fun ms =>
    .shallower <| .ends (adds_line depth _) ?_
  rw [Option.elim_some, Item.lines_aggregate depth _ rfl, List.flatMap_append, List.flatMap_append]
  simp only [List.append_assoc, List.nil_append]
  rfl

/-- An interface is drafted as its item is laid out: its header first, its members one level deeper.
-/
theorem drafts_interface {i : Interface} (h : p.Names i.link i.name)
    (hproperties : p.NamesAll (variableNodes i.properties))
    (hmethods : p.NamesAll (functionNodes i.methods)) :
    Drafts depth (p.draftInterface (exposure depth) i) (p.interfaceType i)
      fun item => item.elim [] (Item.lines depth) := by
  refine drafts_emitted h <| .adds (adds_preamble depth _ _) <| .onPage fun bases =>
    .adds (adds_line depth _) <| .deeper <| .sub (drafts_properties hproperties) fun ps =>
    .sub (drafts_methods hmethods) fun ms => .shallower <| .ends (adds_line depth _) ?_
  rw [Option.elim_some, Item.lines_aggregate depth _ rfl, List.flatMap_append]
  simp only [List.append_assoc, List.nil_append]
  rfl

/-- An enum is drafted as its item is laid out: its header first, its values one level deeper. -/
theorem drafts_enum {e : Enum} (h : p.Names e.link e.name)
    (hvalues : p.NamesAll (variableNodes e.values)) :
    Drafts depth (p.draftEnum (exposure depth) e) (p.enumType e)
      fun item => item.elim [] (Item.lines depth) := by
  refine drafts_emitted h <| .adds (adds_preamble depth _ _) <| .adds (adds_line depth _) <|
    .deeper <| .sub (drafts_writeSome fun v hv => drafts_enumValue (hvalues.variable hv)) fun vs =>
    .shallower <| .ends (adds_line depth _) ?_
  rw [Option.elim_some, Item.lines_aggregate depth _ rfl]
  rfl

/-- The classes, interfaces and enums of a scope are drafted as their items are laid out. -/
theorem drafts_aggregates {s : Scope} (h : p.NamesAll (scopeNodes s)) :
    Drafts depth (p.draftAggregates (exposure depth) s) (p.aggregates s)
      (List.flatMap (Item.lines depth)) := by
  obtain ⟨-, -, hclasses, hinterfaces, henums⟩ := namesAll_scopeNodes.mp h
  have hclasses : Drafts depth (s.classes.forM (p.draftClass (exposure depth)))
      (writeSome p.classType s.classes) (List.flatMap (Item.lines depth)) :=
    drafts_writeSome fun c hc => by
      obtain ⟨hname, hconstructors, hfields, hmethods⟩ := hclasses c hc
      exact drafts_class hname hconstructors hfields hmethods
  have hinterfaces : Drafts depth (s.interfaces.forM (p.draftInterface (exposure depth)))
      (writeSome p.interfaceType s.interfaces) (List.flatMap (Item.lines depth)) :=
    drafts_writeSome fun i hi => by
      obtain ⟨hname, hproperties, hmethods⟩ := hinterfaces i hi
      exact drafts_interface hname hproperties hmethods
  have henums : Drafts depth (s.enums.forM (p.draftEnum (exposure depth)))
      (writeSome p.enumType s.enums) (List.flatMap (Item.lines depth)) :=
    drafts_writeSome fun e he => drafts_enum (henums e he).1 (henums e he).2
  refine Completes.drafts <| .sub hclasses fun cs => .sub hinterfaces fun is =>
    .last henums fun es => ?_
  rw [List.flatMap_append, List.flatMap_append, List.nil_append]

/-- A namespace as an interface, below its preamble. -/
theorem drafts_nameSpaceInterface {s : Scope} (h : p.NamesAll (scopeNodes s)) :
    Drafts depth (p.draftNameSpaceInterface (exposure depth) (p.nameOf s.link) s)
      (p.nameSpaceInterface s) (Item.lines depth) := by
  obtain ⟨hconstants, hfunctions, -⟩ := namesAll_scopeNodes.mp h
  have hmethods : Drafts (depth + 1) (s.functions.forM (p.draftMethod false))
      (writeSome p.nameSpaceMethod s.functions) (List.flatMap (Member.lines (depth + 1))) :=
    drafts_writeSome fun f hf => drafts_nameSpaceMethod (hfunctions.function hf)
  refine Completes.drafts <| .adds (adds_preamble depth _ _) ?_
  cases hbare : s.constants.isEmpty && s.functions.isEmpty with
  | true =>
    obtain ⟨hnoConstants, hnoFunctions⟩ : s.constants = [] ∧ s.functions = [] := by
      simpa using hbare
    rw [Writer.nameSpaceInterface, hnoConstants, hnoFunctions]
    exact .adds (adds_line depth _) (.done rfl)
  | false =>
    refine .adds (adds_line depth _) <| .deeper <| .sub (drafts_properties hconstants) fun ps =>
      .sub hmethods fun ms => .shallower <| .ends (adds_line depth _) ?_
    rw [hbare, Item.lines_aggregate depth _ rfl, List.flatMap_append]
    simp only [List.append_assoc, List.nil_append]
    rfl

/-! ### The global tree -/

/-- The end of a block, from its classes on. -/
theorem completes_blockEnd {β : Type} {s : Scope} {inner : Drafting Unit}
    {nested : Writing (List Tree)} {before : List Line} {result : List Item → List Tree → β}
    {lines : β → List Line} (hscope : p.NamesAll (scopeNodes s))
    (hinner : Drafts (depth + 1) inner nested (Tree.linesOf (depth + 1)))
    (hlines : ∀ aggregates trees, lines (result aggregates trees)
      = before ++ aggregates.flatMap (Item.lines (depth + 1)) ++ Tree.linesOf (depth + 1) trees
        ++ [⟨depth, "\x7d"⟩]) :
    Completes (depth + 1) depth before
      (do
        p.draftAggregates "export " s
        inner
        shallower
        line "\x7d")
      (do
        let aggregates ← p.aggregates s
        let trees ← nested
        return result aggregates trees)
      lines :=
  .sub (drafts_aggregates hscope) fun aggregates => .sub hinner fun trees =>
    .shallower <| .ends (adds_line depth _) (hlines aggregates trees)

/-- If every namespace of a list is drafted as it is laid out, then so is the list. -/
theorem drafts_globalNamespaces {isTop : Bool} {nested : List Namespace}
    (h : ∀ ns ∈ nested, Drafts depth (p.draftGlobalNamespace isTop ns) (p.globalNamespace ns)
      (Tree.linesOf depth)) :
    Drafts depth (p.draftGlobalNamespaces isTop nested) (p.globalNamespaces nested)
      (Tree.linesOf depth) := by
  induction nested with
  | nil => exact Completes.drafts (.done rfl)
  | cons ns rest ih =>
    obtain ⟨hns, hrest⟩ := List.forall_mem_cons.mp h
    rw [draftGlobalNamespaces, Writer.globalNamespaces]
    exact Completes.drafts <| .sub hns fun trees => .last (ih hrest) fun others =>
      Tree.linesOf_append depth trees others

/-- A namespace of the global tree is drafted at the depth that the word in front of it tells. -/
theorem drafts_globalNamespace (ns : Namespace) :
    ∀ {isTop : Bool} {depth : Nat}, frontWord isTop = exposure depth →
      p.NamesAll (namedNodes ns) →
      Drafts depth (p.draftGlobalNamespace isTop ns) (p.globalNamespace ns)
        (Tree.linesOf depth) := by
  induction ns using Namespace.induction with
  | step scope nested ih =>
    intro isTop depth hword hnames
    obtain ⟨hname, hscope, hnested⟩ := namesAll_namedNodes.mp hnames
    have hinner : Drafts (depth + 1) (p.draftGlobalNamespaces false nested)
        (p.globalNamespaces nested) (Tree.linesOf (depth + 1)) :=
      drafts_globalNamespaces fun child hchild => ih child hchild rfl (hnested child hchild)
    rw [draftGlobalNamespace, Writer.globalNamespace, hword]
    refine Completes.drafts <| .reads hname.reads <| .ite _ (.done rfl) <| .ite _ ?_ ?_
    · refine .sub (drafts_nameSpaceInterface hscope) fun interface =>
        .ite _ (.done (List.append_nil _)) <| .adds (adds_line depth _) <| .deeper <| .skip <|
        completes_blockEnd hscope hinner fun aggregates trees => ?_
      rw [Tree.linesOf, Tree.linesOf, Tree.linesOf, Tree.lines, Tree.lines, Tree.linesOf_append,
        Tree.linesOf_items]
      simp
    · refine .adds (adds_preamble depth _ _) <| .adds (adds_line depth _) <| .deeper <|
        .sub (drafts_values hscope) fun values =>
        completes_blockEnd hscope hinner fun aggregates trees => ?_
      rw [Tree.linesOf, Tree.linesOf, Tree.lines, Tree.linesOf_append, Tree.linesOf_items,
        List.flatMap_append]
      simp

/-- The whole global tree. -/
theorem drafts_globals {top : Namespace} (h : p.NamesAll (namedNodes top)) :
    Drafts 0 (p.draftGlobals top) (Writer.moveTo .globals >>= fun _ => p.globalTree top)
      (Tree.linesOf 0) := by
  obtain ⟨-, hscope, hnested⟩ := namesAll_namedNodes.mp h
  have hinner : Drafts 0 (p.draftGlobalNamespaces true top.nested) (p.globalNamespaces top.nested)
      (Tree.linesOf 0) :=
    drafts_globalNamespaces fun child hchild =>
      drafts_globalNamespace child rfl (hnested child hchild)
  refine Completes.drafts <| .onPage fun _ => .sub (drafts_values hscope) fun values =>
    .sub (drafts_aggregates hscope) fun aggregates => .last hinner fun trees => ?_
  rw [Tree.linesOf_append, Tree.linesOf_items, List.flatMap_append, List.nil_append]

/-! ### Module blocks -/

/-- The nested namespaces that are emitted as interfaces. -/
theorem drafts_childInterfaces {ns : Namespace}
    (h : ∀ child ∈ ns.nested, p.NamesAll (namedNodes child)) :
    Drafts depth (p.draftChildInterfaces (exposure depth) ns) (p.nestedInterfaces ns)
      (List.flatMap (Item.lines depth)) := by
  rw [Writer.nestedInterfaces, ← writeSome_filter]
  refine drafts_writeSome fun child hchild => Completes.drafts ?_
  obtain ⟨hname, hscope, -⟩ := namesAll_namedNodes.mp (h child hchild)
  exact .reads hname.reads <| .ite _ (.last (drafts_nameSpaceInterface hscope) fun _ => rfl)
    (.done rfl)

/-- What is written into the block of a namespace. -/
theorem blockItems_eq (ns : Namespace) :
    p.blockItems ns
      = (if p.isInterface (p.nameOf ns.scope.link) then pure [] else p.values ns.scope) >>=
        fun values => p.aggregates ns.scope >>= fun aggregates =>
        p.nestedInterfaces ns >>= fun interfaces => pure (values ++ aggregates ++ interfaces) := by
  unfold Writer.blockItems Writer.blockEntries
  rw [writeSome_append, writeSome_append, ← Writer.aggregates_eq, ← Writer.nestedInterfaces_eq]
  cases p.isInterface (p.nameOf ns.scope.link) with
  | true => simp only [bind_assoc, pure_bind, if_true, writeSome]
  | false => simp only [bind_assoc, pure_bind, Bool.false_eq_true, if_false, ← Writer.values_eq]

/-- The body of a module block is drafted as the items of the block, one level deep. -/
theorem drafts_moduleBody {ns : Namespace} (h : p.NamesAll (namedNodes ns)) :
    Drafts 1 (p.draftModuleBody ns (p.isInterface (p.nameOf ns.scope.link))) (p.blockItems ns)
      (List.flatMap (Item.lines 1)) := by
  obtain ⟨-, hscope, hnested⟩ := namesAll_namedNodes.mp h
  have hvalues : Drafts 1 (onlyIf (!p.isInterface (p.nameOf ns.scope.link))
      (p.draftValues "export " ns.scope))
      (if p.isInterface (p.nameOf ns.scope.link) then pure [] else p.values ns.scope)
      (List.flatMap (Item.lines 1)) := by
    cases p.isInterface (p.nameOf ns.scope.link) with
    | true => exact Completes.drafts (.done rfl)
    | false => exact drafts_values hscope
  rw [blockItems_eq]
  refine Completes.drafts <| .sub hvalues fun values =>
    .sub (drafts_aggregates hscope) fun aggregates =>
    .last (drafts_childInterfaces hnested) fun interfaces => ?_
  rw [List.flatMap_append, List.flatMap_append, List.nil_append]

/-- The names of the nested namespaces that are interfaces can be read without a change. -/
theorem reads_interfaceNames {nested : List Namespace}
    (h : ∀ child ∈ nested, p.NamesAll (namedNodes child)) :
    Reads (p.interfaceNames nested)
      ((nested.filter fun child => p.isInterface (p.nameOf child.scope.link)).map
        Namespace.name) := by
  induction nested with
  | nil => exact fun _ => rfl
  | cons child rest ih =>
    obtain ⟨hchild, hrest⟩ := List.forall_mem_cons.mp h
    obtain ⟨hname, -⟩ := namesAll_namedNodes.mp hchild
    rw [interfaceNames, List.filter_cons]
    refine hname.reads.bind <| (ih hrest).bind fun sheet => ?_
    cases p.isInterface (p.nameOf child.scope.link) <;> rfl

/-- The names that a block declares itself can be read without a change. -/
theorem reads_declaredNames {ns : Namespace} (asInterface : Bool)
    (h : ∀ child ∈ ns.nested, p.NamesAll (namedNodes child)) :
    Reads (p.declaredNames ns asInterface) (p.localNames ns asInterface) :=
  (reads_interfaceNames h).bind fun _ => rfl

/-- The lines of a module block above its body, at a depth. -/
def moduleStart (p : Drafter) (depth : Nat) (fqn : String) (ns : Namespace)
    (imports : List Reference.Import) : List Line :=
  (if !p.isInterface fqn then (p.lead fqn (Comment.ofDoc ns.scope.doc)).lines depth else [])
    ++ [⟨depth, "declare module \x22" ++ Reference.modulePath fqn ++ "\x22 \x7b"⟩]
    ++ Line.leveled (depth + 1) (imports.map Reference.Import.line)
    ++ if !imports.isEmpty then [⟨depth + 1, ""⟩] else []

/-- What is drafted in front of the body of a block adds the lead, the opening and the imports. -/
theorem adds_moduleStart (depth : Nat) (fqn : String) (ns : Namespace)
    (imports : List Reference.Import) :
    Adds depth (p.draftModuleStart fqn ns imports) (p.moduleStart depth fqn ns imports) :=
  Completes.drafts <| .adds (adds_onlyIf _ (adds_preamble depth _ _)) <|
    .adds (adds_line depth _) <| .deeper <| .adds (adds_lines _ _ imports) <|
    .adds (adds_onlyIf _ (adds_line _ "")) <| .out rfl

/-- A module block, with the imports above the body that needs them. -/
theorem drafts_module {ns : Namespace} (h : p.NamesAll (namedNodes ns)) :
    Drafts 0 (p.draftModule (p.nameOf ns.scope.link) ns) (p.moduleBlock (p.nameOf ns.scope.link) ns)
      Block.lines := by
  obtain ⟨-, -, hnested⟩ := namesAll_namedNodes.mp h
  rw [Writer.moduleBlock_eq]
  refine Completes.drafts <| .reads (reads_declaredNames _ hnested) <| .onPage fun _ =>
    .aside (drafts_moduleBody h) fun items => .onPage fun imports => .onPage fun _ =>
    .adds (adds_moduleStart 0 _ ns imports) <| .adds (adds_push 0 _) <| .adds (adds_line 0 _) <|
    .ends (adds_line 0 "") ?_
  rw [Block.lines, moduleStart, importLines]
  cases p.isInterface (p.nameOf ns.scope.link) <;> cases imports <;> simp [Line.leveled]

/-- The blocks of the namespaces in a list. -/
theorem drafts_moduleTree {nested : List Namespace}
    (h : ∀ ns ∈ nested, Drafts 0 (p.draftBlocks ns) (p.blocks p.modules ns)
      (List.flatMap Block.lines)) :
    Drafts 0 (p.draftModuleTree nested) (p.nestedBlocks p.modules nested)
      (List.flatMap Block.lines) := by
  induction nested with
  | nil => exact Completes.drafts (.done rfl)
  | cons ns rest ih =>
    obtain ⟨hns, hrest⟩ := List.forall_mem_cons.mp h
    rw [draftModuleTree, Writer.nestedBlocks]
    exact Completes.drafts <| .sub hns fun own => .last (ih hrest) fun others =>
      List.flatMap_append

/-- The blocks of a namespace and of those nested in it are drafted as they are laid out. -/
theorem drafts_blocks (ns : Namespace) :
    p.NamesAll (namedNodes ns) →
      Drafts 0 (p.draftBlocks ns) (p.blocks p.modules ns) (List.flatMap Block.lines) := by
  induction ns using Namespace.induction with
  | step scope nested ih =>
    intro h
    obtain ⟨hname, hscope, hnested⟩ := namesAll_namedNodes.mp h
    have htree := drafts_moduleTree fun child hchild => ih child hchild (hnested child hchild)
    rw [draftBlocks, Writer.blocks]
    refine Completes.drafts <| .reads hname.reads <| .ite _ (.done rfl) ?_
    simp only [pure_bind]
    cases p.modules.contains (p.nameOf scope.link) with
    | true => exact .sub (drafts_module h) fun block => .last htree fun _ => List.flatMap_cons
    | false => exact .skip <| .last htree fun _ => rfl

/-- What is declared beside the blocks, and the blocks. -/
theorem drafts_modules {top : Namespace} (h : p.NamesAll (namedNodes top)) :
    Drafts 0 (p.draftModules top)
      (do
        Writer.moveTo .script
        let script ← p.scriptItems top
        let blocks ← p.nestedBlocks p.modules top.nested
        return (script, blocks))
      fun written => written.1.flatMap (Item.lines 0) ++ written.2.flatMap Block.lines := by
  obtain ⟨-, hscope, hnested⟩ := namesAll_namedNodes.mp h
  have htree := drafts_moduleTree fun child hchild => drafts_blocks child (hnested child hchild)
  simp only [Writer.scriptItems, bind_assoc, pure_bind]
  refine Completes.drafts <| .onPage fun _ => .sub (drafts_values hscope) fun values =>
    .sub (drafts_aggregates hscope) fun aggregates =>
    .sub (drafts_childInterfaces hnested) fun interfaces => .last htree fun blocks => ?_
  rw [List.flatMap_append, List.flatMap_append, List.nil_append]

/-! ### Whole texts -/

/-- The registry adds the lines of its paths, if there are any. -/
theorem adds_paths (h : p.modules.toList.isEmpty = false) :
    Adds 0 p.draftPaths (registryLines (p.modules.toList.map Reference.modulePath)) := by
  refine Completes.drafts <| .adds (adds_line 0 _) <| .deeper <| .adds (adds_lines 1 _ _) <|
    .shallower <| .ends (adds_line 0 _) ?_
  rw [registryLines, List.isEmpty_map, h, List.map_map]
  rfl

/-- The registry of a document after its declarations. -/
theorem run_draftRegistry (document : Document)
    (h : document.registry = p.modules.toList.map Reference.modulePath) (page : Page) :
    p.draftRegistry.run
      ⟨Line.join (Tree.linesOf 0 document.script ++ document.blocks.flatMap Block.lines), 0, page⟩
      = .ok ((), ⟨document.text, 0, page⟩) := by
  rw [draftRegistry, Document.text, h, List.isEmpty_map]
  cases hmodules : p.modules.toList.isEmpty with
  | true => rfl
  | false =>
    generalize Line.join (Tree.linesOf 0 document.script ++ document.blocks.flatMap Block.lines)
      = body
    have hadds : Adds 0 (onlyIf (needsGap body) (line "") >>= fun _ => p.draftPaths)
        ((if needsGap body then [⟨0, ""⟩] else [])
          ++ registryLines (p.modules.toList.map Reference.modulePath)) :=
      Completes.drafts <| .adds (adds_onlyIf _ (adds_line 0 "")) <| .ends (adds_paths hmodules) rfl
    refine (hadds body page).trans ?_
    rw [Line.join_append, ← String.append_assoc]
    cases needsGap body <;> rfl

/-- A drafted document: its text, at the depth of the start, and the page of the writing. -/
theorem run_draft (flavor : Flavor) {top : Namespace} (h : p.NamesAll (namedNodes top))
    (warnings : Warnings) :
    let written := (p.document flavor p.modules top).run ⟨startingPlace flavor, warnings⟩
    (p.draft flavor top).run ⟨"", 0, ⟨.globals, warnings⟩⟩
      = .ok ((), ⟨written.1.text, 0, written.2⟩) := by
  intro written
  have hregistry : written.1.registry = p.modules.toList.map Reference.modulePath := by
    cases flavor <;> rfl
  have hdocument := run_draftRegistry written.1 hregistry written.2
  cases flavor with
  | globals =>
    have htree := drafts_globals h "" ⟨.globals, warnings⟩
    change p.draftRegistry.run ⟨Line.join (Tree.linesOf 0 written.1.script ++ []), 0, written.2⟩
      = _ at hdocument
    rw [List.append_nil] at hdocument
    rw [String.empty_append] at htree
    change (p.draftGlobals top >>= fun _ => p.draftRegistry).run _ = _
    rw [StateT.run_bind, htree]
    exact hdocument
  | modules =>
    have hblocks := drafts_modules h "" ⟨.globals, warnings⟩
    change p.draftRegistry.run ⟨Line.join (Tree.linesOf 0 (List.map Tree.item _)
      ++ written.1.blocks.flatMap Block.lines), 0, written.2⟩ = _ at hdocument
    rw [Tree.linesOf_items] at hdocument
    rw [String.empty_append] at hblocks
    change (p.draftModules top >>= fun _ => p.draftRegistry).run _ = _
    rw [StateT.run_bind, hblocks]
    exact hdocument

end Drafter

end Ambient.Declaration
