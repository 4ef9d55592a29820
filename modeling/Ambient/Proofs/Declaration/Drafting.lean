import Ambient.Proofs.Declaration.Names
import Ambient.Proofs.Declaration.Writing

/-!
# Drafting line by line

The text of a library written into one buffer, declaration by declaration, with the depth of the
next line beside it, as a program that prints as it goes would do it. Depth, text and place of
writing are shared by all steps: a step that opens a brace moves the depth on and back, and a
module block is drafted aside, because its imports stand above a body that has to be known first.
Whatever the steps do in between, each leaves the depth as it was and only adds to the text.
-/

namespace Ambient.Declaration

open Api

/-- What is drafted so far: the text, the depth of the next line, and the page. -/
structure Sheet where
  text : String
  depth : Nat
  page : Page

/-- Why drafting stops. -/
inductive Halt where
  /-- The dotted name of a node cannot be read. -/
  | unnamed (cause : Arena.Error)
  /-- The depth would drop below zero. -/
  | underflow
deriving DecidableEq

/-- Drafting changes a sheet, or stops. -/
abbrev Drafting := StateT Sheet (Except Halt)

/-! ## Steps -/

namespace Drafting

/-- Refers and warns on the page of the sheet. -/
def onPage {α : Type} (writing : Writing α) : Drafting α := fun sheet =>
  let (answer, page) := writing.run sheet.page
  .ok (answer, { sheet with page := page })

/-- Adds a text as it is. -/
def push (text : String) : Drafting Unit :=
  modify fun sheet => { sheet with text := sheet.text ++ text }

/-- Adds a line at the depth of the sheet. -/
def line (text : String) : Drafting Unit :=
  modify fun sheet => { sheet with text := sheet.text ++ Line.written ⟨sheet.depth, text⟩ }

/-- Moves one level in. -/
def deeper : Drafting Unit := modify fun sheet => { sheet with depth := sheet.depth + 1 }

/-- Moves one level out. -/
def shallower : Drafting Unit := fun sheet =>
  match sheet.depth with
  | 0 => .error .underflow
  | depth + 1 => .ok ((), { sheet with depth := depth })

/-- Does what is done only under a condition. -/
def onlyIf (condition : Bool) (body : Drafting Unit) : Drafting Unit :=
  if condition then body else pure ()

/-- Drafts into an empty text at depth one, takes the text out, and goes on where the sheet was. -/
def aside (body : Drafting Unit) : Drafting String := do
  let outer ← get
  set { outer with text := "", depth := 1 }
  body
  let inner ← get
  set { outer with page := inner.page }
  return inner.text

section Runs

variable {α β : Type} {m : Drafting α} {k : α → Drafting β} {sheet after : Sheet} {b : β}

/-- Two drafts one after the other succeed exactly if the first does and the second where the first
ended. -/
theorem bind_eq_ok : (m >>= k).run sheet = .ok (b, after) ↔
    ∃ a between, m.run sheet = .ok (a, between) ∧ (k a).run between = .ok (b, after) := by
  rw [StateT.run_bind]
  cases m.run sheet with
  | error halt => exact ⟨fun h => (nomatch h), fun ⟨_, _, h, _⟩ => (nomatch h)⟩
  | ok r =>
    constructor
    · exact fun h => ⟨r.1, r.2, rfl, h⟩
    · rintro ⟨a, between, h, hk⟩
      cases h
      exact hk

/-- Two drafts one after the other halt exactly if the first does or the second where the first
ended. -/
theorem bind_eq_error {halt : Halt} : (m >>= k).run sheet = .error halt ↔
    m.run sheet = .error halt ∨
      ∃ a between, m.run sheet = .ok (a, between) ∧ (k a).run between = .error halt := by
  rw [StateT.run_bind]
  cases m.run sheet with
  | error cause =>
    exact ⟨fun h => .inl (by cases h; rfl), fun h => h.elim (fun h => by cases h; rfl)
      fun ⟨_, _, h, _⟩ => (nomatch h)⟩
  | ok r =>
    constructor
    · exact fun h => .inr ⟨r.1, r.2, rfl, h⟩
    · rintro (h | ⟨a, between, h, hk⟩)
      · cases h
      · cases h
        exact hk

/-- Drafting aside drafts the body on a sheet of its own. -/
theorem run_aside (body : Drafting Unit) (sheet : Sheet) :
    (aside body).run sheet = do
      let ((), inner) ← body.run ⟨"", 1, sheet.page⟩
      return (inner.text, ⟨sheet.text, sheet.depth, inner.page⟩) :=
  rfl

/-- A draft aside gives its text and leaves the sheet, except for the page. -/
theorem aside_eq_ok {body : Drafting Unit} {text : String} :
    (aside body).run sheet = .ok (text, after) ↔
      ∃ inner, body.run ⟨"", 1, sheet.page⟩ = .ok ((), inner) ∧ text = inner.text ∧
        after = ⟨sheet.text, sheet.depth, inner.page⟩ := by
  rw [run_aside]
  cases body.run ⟨"", 1, sheet.page⟩ with
  | error halt => exact ⟨fun h => (nomatch h), fun ⟨_, h, _⟩ => (nomatch h)⟩
  | ok r =>
    constructor
    · intro h
      cases h
      exact ⟨r.2, rfl, rfl, rfl⟩
    · rintro ⟨inner, h, rfl, rfl⟩
      cases h
      rfl

end Runs

end Drafting

open Drafting

/-- What drafting goes by: what writing goes by, the arena in which the nodes are named, and the
namespaces that have a module. -/
structure Drafter extends Writer where
  arena : Arena
  modules : Ordered.Set String

namespace Drafter

variable (p : Drafter)

/-- Reads the dotted name of a node. -/
def nameAt (link : Link) (name : String) : Drafting String := fun sheet =>
  match p.arena.fqnOf link name with
  | .ok fqn => .ok (fqn, sheet)
  | .error cause => .error (.unnamed cause)

/-- A name is asked of the arena, and a draft halts if it cannot be read off. -/
theorem run_nameAt (link : Link) (name : String) (sheet : Sheet) :
    (p.nameAt link name).run sheet = match p.arena.fqnOf link name with
      | .ok fqn => .ok (fqn, sheet)
      | .error cause => .error (.unnamed cause) :=
  rfl

/-- Drafts what stands above a declaration. -/
def preamble (comment : Comment) (fqn : String) : Drafting Unit := do
  comment.lines.forM line
  match p.directives.suppression? fqn with
  | some reason => line ("// @ts-ignore: " ++ reason)
  | none => return

/-! ## Members -/

/-- Drafts a field or property. -/
def draftProperty (v : Variable) : Drafting Unit := do
  let fqn ← p.nameAt v.link v.name
  if !(← onPage (p.keeps fqn)) then return
  p.preamble (Comment.ofDoc v.doc) fqn
  let type ← onPage (TypeExpr.writeOptional p.toResolver v.type)
  line (staticWord v.isStatic ++ Identifier.propertyKey v.name ++ ": " ++ type ++ ";")

/-- Drafts a method; its simple name may exclude it too. -/
def draftMethod (byName : Bool) (f : Function) : Drafting Unit := do
  let fqn ← p.nameAt f.link f.name
  if !(← onPage (if byName then p.keepsMethod fqn f.name else p.keeps fqn)) then return
  p.preamble (p.functionComment f) fqn
  let signature ← onPage (p.signature f)
  line (staticWord f.isStatic ++ Identifier.propertyKey f.name ++ signature.text ++ ";")

/-- Drafts a constructor. -/
def draftConstructor (f : Function) : Drafting Unit := do
  let fqn ← p.nameAt f.link f.name
  if !(← onPage (p.keeps fqn)) then return
  p.preamble (p.functionComment f) fqn
  let signature ← onPage (p.constructorSignature f)
  line ("constructor" ++ signature.text ++ ";")

/-- Drafts a value of an enum. -/
def draftEnumValue (v : Variable) : Drafting Unit := do
  let fqn ← p.nameAt v.link v.name
  if !(← onPage (p.keeps fqn)) then return
  p.preamble (Comment.ofDoc v.doc) fqn
  line (Identifier.propertyKey v.name ++ " = " ++ Identifier.literal v.name ++ ",")

/-! ## What a namespace holds itself

In front of a declaration stands a word, by whether it is in a block. -/

/-- Drafts a variable of a namespace. -/
def draftConstant (word : String) (v : Variable) : Drafting Unit := do
  let fqn ← p.nameAt v.link v.name
  if !(← onPage (p.keepsValue fqn v.name)) then return
  p.preamble (Comment.ofDoc v.doc) fqn
  let type ← onPage (TypeExpr.writeOptional p.toResolver v.type)
  line (word ++ "const " ++ v.name ++ ": " ++ type ++ ";")

/-- Drafts a function of a namespace. -/
def draftFunction (word : String) (f : Function) : Drafting Unit := do
  let fqn ← p.nameAt f.link f.name
  if !(← onPage (p.keepsValue fqn f.name)) then return
  p.preamble (p.functionComment f) fqn
  let signature ← onPage (p.signature f)
  line (word ++ "function " ++ f.name ++ signature.text ++ ";")

/-- Drafts the variables and functions of a namespace. -/
def draftValues (word : String) (s : Scope) : Drafting Unit := do
  s.constants.forM (p.draftConstant word)
  s.functions.forM (p.draftFunction word)

/-- Writes the base of a class, if it has one. -/
def writeBase (owner : String) : Option String → Writing (Option String)
  | some base => p.supertype owner base
  | none => return none

/-- Drafts a class. -/
def draftClass (word : String) (c : Api.Class) : Drafting Unit := do
  let fqn ← p.nameAt c.link c.name
  if !p.emitted.contains fqn then return
  p.preamble (Comment.ofDoc c.doc) fqn
  let base ← onPage (p.writeBase fqn c.base)
  let implemented ← onPage (writeSome (p.implemented fqn) c.implemented)
  line (word ++ (Header.classType c.isAbstract base implemented).text c.name ++ " \x7b")
  deeper
  c.constructors.forM p.draftConstructor
  c.fields.forM p.draftProperty
  c.methods.forM (p.draftMethod true)
  shallower
  line "\x7d"

/-- Drafts an interface. -/
def draftInterface (word : String) (i : Interface) : Drafting Unit := do
  let fqn ← p.nameAt i.link i.name
  if !p.emitted.contains fqn then return
  p.preamble (Comment.ofDoc i.doc) fqn
  let bases ← onPage (writeSome (p.supertype fqn) i.bases)
  line (word ++ (Header.interfaceType bases).text i.name ++ " \x7b")
  deeper
  i.properties.forM p.draftProperty
  i.methods.forM (p.draftMethod true)
  shallower
  line "\x7d"

/-- Drafts an enum. -/
def draftEnum (word : String) (e : Enum) : Drafting Unit := do
  let fqn ← p.nameAt e.link e.name
  if !p.emitted.contains fqn then return
  p.preamble (Comment.ofDoc e.doc) fqn
  line (word ++ Header.enumType.text e.name ++ " \x7b")
  deeper
  e.values.forM p.draftEnumValue
  shallower
  line "\x7d"

/-- Drafts the classes, interfaces and enums of a namespace. -/
def draftAggregates (word : String) (s : Scope) : Drafting Unit := do
  s.classes.forM (p.draftClass word)
  s.interfaces.forM (p.draftInterface word)
  s.enums.forM (p.draftEnum word)

/-- Drafts a namespace as an interface. -/
def draftNameSpaceInterface (word fqn : String) (s : Scope) : Drafting Unit := do
  p.preamble (Comment.ofDoc s.doc) fqn
  let isBare := s.constants.isEmpty && s.functions.isEmpty
  let first := word ++ (Header.nameSpace isBare).text s.name
  if isBare then
    line (first ++ " \x7b\x7d")
    return
  line (first ++ " \x7b")
  deeper
  s.constants.forM p.draftProperty
  s.functions.forM (p.draftMethod false)
  shallower
  line "\x7d"

/-! ## The global tree -/

/-- The word in front of a namespace of the global tree. -/
def frontWord (isTop : Bool) : String := if isTop then "declare " else "export "

/-- Drafts the block of a namespace of the global tree, around those nested in it. -/
def draftBlock (word : String) (s : Scope) (asInterface : Bool) (inner : Drafting Unit) :
    Drafting Unit := do
  line (word ++ "namespace " ++ s.name ++ " \x7b")
  deeper
  onlyIf (!asInterface) (p.draftValues "export " s)
  p.draftAggregates "export " s
  inner
  shallower
  line "\x7d"

mutual

/-- Drafts a namespace of the global tree. -/
def draftGlobalNamespace (isTop : Bool) : Namespace → Drafting Unit
  | ⟨scope, nested⟩ => do
    let fqn ← p.nameAt scope.link scope.name
    if !p.emitted.contains fqn then return
    if p.isInterface fqn then
      p.draftNameSpaceInterface (frontWord isTop) fqn scope
      if !Namespace.hasAggregates ⟨scope, nested⟩ then return
      p.draftBlock (frontWord isTop) scope true (draftGlobalNamespaces false nested)
    else
      p.preamble (Comment.ofDoc scope.doc) fqn
      p.draftBlock (frontWord isTop) scope false (draftGlobalNamespaces false nested)

/-- Drafts the namespaces of a list. -/
def draftGlobalNamespaces (isTop : Bool) : List Namespace → Drafting Unit
  | [] => return
  | ns :: rest => do
    draftGlobalNamespace isTop ns
    draftGlobalNamespaces isTop rest

end

/-- Drafts the global tree. -/
def draftGlobals (top : Namespace) : Drafting Unit := do
  onPage (Writer.moveTo .globals)
  p.draftValues "declare " top.scope
  p.draftAggregates "declare " top.scope
  p.draftGlobalNamespaces true top.nested

/-! ## Module blocks -/

/-- Drafts the nested namespaces that are emitted as interfaces. -/
def draftChildInterfaces (word : String) (ns : Namespace) : Drafting Unit :=
  ns.nested.forM fun child => do
    let fqn ← p.nameAt child.scope.link child.scope.name
    onlyIf (p.emitted.contains fqn && p.isInterface fqn)
      (p.draftNameSpaceInterface word fqn child.scope)

/-- Reads the simple names of the namespaces in a list that are written as interfaces. -/
def interfaceNames : List Namespace → Drafting (List String)
  | [] => return []
  | child :: rest => do
    let fqn ← p.nameAt child.scope.link child.scope.name
    let names ← interfaceNames rest
    return if p.isInterface fqn then child.name :: names else names

/-- Reads the names that the block of a namespace declares itself. -/
def declaredNames (ns : Namespace) (asInterface : Bool) : Drafting (List String) := do
  let values := ns.scope.constants.map Variable.name ++ ns.scope.functions.map Function.name
  let interfaces ← p.interfaceNames ns.nested
  return (if asInterface then [] else values)
    ++ ns.scope.classes.map Class.name ++ ns.scope.interfaces.map Interface.name
    ++ ns.scope.enums.map Enum.name ++ interfaces

/-- Drafts the body of a module block. -/
def draftModuleBody (ns : Namespace) (asInterface : Bool) : Drafting Unit := do
  onlyIf (!asInterface) (p.draftValues "export " ns.scope)
  p.draftAggregates "export " ns.scope
  p.draftChildInterfaces "export " ns

/-- Drafts what stands above the body of a module block: its first line and the imports. -/
def draftModuleStart (fqn : String) (ns : Namespace) (imports : List Reference.Import) :
    Drafting Unit := do
  onlyIf (!p.isInterface fqn) (p.preamble (Comment.ofDoc ns.scope.doc) fqn)
  line ("declare module \x22" ++ Reference.modulePath fqn ++ "\x22 \x7b")
  deeper
  imports.forM fun i => line i.line
  onlyIf (!imports.isEmpty) (line "")
  shallower

/-- Drafts the block of a namespace: its body aside, then the start with the imports that the body
needs, and the body below it. -/
def draftModule (fqn : String) (ns : Namespace) : Drafting Unit := do
  let locals ← p.declaredNames ns (p.isInterface fqn)
  onPage (Writer.moveTo (.module (.start fqn locals)))
  let body ← aside (p.draftModuleBody ns (p.isInterface fqn))
  let imports ← onPage Writer.importsHere
  onPage (Writer.moveTo .script)
  p.draftModuleStart fqn ns imports
  push body
  line "\x7d"
  line ""

mutual

/-- Drafts the block of an emitted namespace, if it has a module, and those below it. -/
def draftBlocks : Namespace → Drafting Unit
  | ⟨scope, nested⟩ => do
    let fqn ← p.nameAt scope.link scope.name
    if !p.emitted.contains fqn then return
    onlyIf (p.modules.contains fqn) (p.draftModule fqn ⟨scope, nested⟩)
    draftModuleTree nested

/-- Drafts the blocks of the namespaces in a list. -/
def draftModuleTree : List Namespace → Drafting Unit
  | [] => return
  | ns :: rest => do
    draftBlocks ns
    draftModuleTree rest

end

/-- Drafts the top level as script code, and the module blocks. -/
def draftModules (top : Namespace) : Drafting Unit := do
  onPage (Writer.moveTo .script)
  p.draftValues "declare " top.scope
  p.draftAggregates "declare " top.scope
  p.draftChildInterfaces "declare " top
  p.draftModuleTree top.nested

/-! ## The whole text -/

/-- Drafts the interface that registers the module paths. -/
def draftPaths : Drafting Unit := do
  line ("interface " ++ Correction.moduleNamesInterface ++ " \x7b")
  deeper
  p.modules.toList.forM fun m =>
    line (Identifier.literal (Reference.modulePath m) ++ ": true;")
  shallower
  line "\x7d"

/-- Drafts the registry, if there are modules, after an empty line. -/
def draftRegistry : Drafting Unit := do
  if p.modules.toList.isEmpty then return
  onlyIf (needsGap (← get).text) (line "")
  p.draftPaths

/-- Drafts a library in a flavor. -/
def draft (flavor : Flavor) (top : Namespace) : Drafting Unit := do
  match flavor with
  | .modules => p.draftModules top
  | .globals => p.draftGlobals top
  p.draftRegistry

/-- The parts of drafting, which go through one another. -/
inductive Part where
  | globals (top : Namespace)
  | globalNamespace (isTop : Bool) (ns : Namespace)
  | modules (top : Namespace)
  | moduleTree (nested : List Namespace)
  | module (fqn : String) (ns : Namespace)
  | childInterfaces (word : String) (ns : Namespace)
  | nameSpaceInterface (word fqn : String) (s : Scope)
  | values (word : String) (s : Scope)
  | aggregates (word : String) (s : Scope)
  | classType (word : String) (c : Api.Class)
  | interfaceType (word : String) (i : Interface)
  | enumType (word : String) (e : Enum)
  | property (v : Variable)
  | method (byName : Bool) (f : Function)
  | registry

/-- Drafts a part. -/
def draftPart : Part → Drafting Unit
  | .globals top => p.draftGlobals top
  | .globalNamespace isTop ns => p.draftGlobalNamespace isTop ns
  | .modules top => p.draftModules top
  | .moduleTree nested => p.draftModuleTree nested
  | .module fqn ns => p.draftModule fqn ns
  | .childInterfaces word ns => p.draftChildInterfaces word ns
  | .nameSpaceInterface word fqn s => p.draftNameSpaceInterface word fqn s
  | .values word s => p.draftValues word s
  | .aggregates word s => p.draftAggregates word s
  | .classType word c => p.draftClass word c
  | .interfaceType word i => p.draftInterface word i
  | .enumType word e => p.draftEnum word e
  | .property v => p.draftProperty v
  | .method byName f => p.draftMethod byName f
  | .registry => p.draftRegistry

end Drafter

end Ambient.Declaration
