import Ambient.Proofs.Declaration.Consultation
import Ambient.Proofs.TypeExpr.Comparison

/-!
# Descriptions that are written alike

Two writers write a description alike if they take the same nodes for emitted, write types and
supertypes alike, and have directives that say the same about all that is declared.
-/

namespace Ambient

namespace Declaration.Writer

open Api

variable {R : Page → Page → Prop} {w u : Writer} {fqn : String}

/-- Two writers name nodes alike, know the same ones as emitted and as interfaces, correct the same
typos, and write names and supertypes alike. -/
structure Alike (R : Page → Page → Prop) (w u : Writer) : Prop
    extends TypeExpr.Alike R w.toResolver u.toResolver where
  nameOf : w.nameOf = u.nameOf
  emitted : w.emitted = u.emitted
  interfaces : w.interfaces = u.interfaces
  supertype : ∀ owner fqn, Agree R (w.supertype owner fqn) (u.supertype owner fqn)

/-- A supertype that leads to the same on both sides is written alike, if a symbol that it leads to
is spelled alike. -/
theorem agree_supertype (hR : Lasting R)
    (hcorrected : w.directives.correctName fqn = u.directives.correctName fqn)
    (hresolve : w.resolve (u.directives.correctName fqn)
      = u.resolve (u.directives.correctName fqn))
    (hrefer : ∀ symbol, u.resolve (u.directives.correctName fqn) = .ok symbol →
      Agree R (refer symbol) (refer symbol)) (owner : String) :
    Agree R (w.supertype owner fqn) (u.supertype owner fqn) := by
  simp only [supertype, hcorrected, hresolve]
  cases hfound : u.resolve (u.directives.correctName fqn) with
  | ok symbol => exact (hrefer symbol hfound).map _
  | error cause => exact (Agree.warn hR _ _).map _

/-! ## Heads and exclusion -/

section Asked

variable (hs : w.directives.SameAt u.directives fqn)
include hs

/-- Directives that are the same at a dotted name give a declaration the same lead. -/
theorem lead_congr (comment : Comment) : w.lead fqn comment = u.lead fqn comment := by
  rw [lead, lead, hs.suppression]

/-- Directives that are the same at a dotted name give a declaration the same head. -/
theorem headOf_congr (name : String) (doc : Doc) :
    w.headOf fqn name doc = u.headOf fqn name doc := by
  rw [headOf, headOf, lead_congr hs]

variable (hR : Lasting R)
include hR

/-- Directives that are the same at a dotted name keep the same member. -/
theorem agree_keeps : Agree R (w.keeps fqn) (u.keeps fqn) := by
  unfold keeps
  rw [hs.isBadSymbol]
  exact .ite _ ((Agree.warn hR _ _).map _) (.pure true)

/-- A method is kept by both writers or by neither if they exclude the same simple names. -/
theorem agree_keepsMethod {name : String}
    (hname : w.directives.isBadMethod name = u.directives.isBadMethod name) :
    Agree R (w.keepsMethod fqn name) (u.keepsMethod fqn name) := by
  unfold keepsMethod
  rw [hname]
  exact (agree_keeps hs hR).bind fun _ => .ite _ (.pure false)
    (.ite _ ((Agree.warn hR _ _).map _) (.pure true))

/-- A value is kept by both writers or by neither, as its name can be declared or not. -/
theorem agree_keepsValue (name : String) :
    Agree R (w.keepsValue fqn name) (u.keepsValue fqn name) :=
  (agree_keeps hs hR).bind fun _ => .ite _ (.pure false)
    (.ite _ (.pure true) ((Agree.warn hR _ _).map _))

end Asked

namespace Alike

/-- Types are named alike in comments, since typos are corrected alike. -/
theorem typeName (h : Alike R w u) : w.typeName = u.typeName := by
  have hcorrect : w.directives.correct = u.directives.correct := funext h.correct
  funext type
  cases type with
  | simple type => exact congrFun hcorrect type
  | union members link => rw [Writer.typeName, Writer.typeName, hcorrect]

/-- The head of a function is the same for writers that are alike at its dotted name. -/
theorem functionHead (h : Alike R w u) (hs : w.directives.SameAt u.directives fqn)
    (f : Function) : w.functionHead fqn f = u.functionHead fqn f := by
  rw [Writer.functionHead, Writer.functionHead, Writer.functionComment, Writer.functionComment,
    h.typeName, lead_congr hs]

/-! ## Signatures -/

/-- A parameter is written alike, whatever comes after it. -/
theorem slot (hR : Lasting R) (h : Alike R w u) (p : Parameter) (requiredLater : Bool) :
    Agree R (w.slot p requiredLater) (u.slot p requiredLater) :=
  (h.writeParameterType hR p.type).bind fun _ => .ite _ (.pure _) (.ite _ (.pure _) (.pure _))

/-- Parameters are written alike from left to right. -/
theorem slots (hR : Lasting R) (h : Alike R w u) (parameters : List Parameter) :
    Agree R (w.slots parameters) (u.slots parameters) := by
  induction parameters with
  | nil => exact .pure []
  | cons p rest ih => exact (h.slot hR p _).bind fun _ => ih.map _

/-- The signature of a constructor is written alike. -/
theorem constructorSignature (hR : Lasting R) (h : Alike R w u) (f : Function) :
    Agree R (w.constructorSignature f) (u.constructorSignature f) :=
  (h.slots hR f.parameters).map _

/-- The signature of a function is written alike, its result included. -/
theorem signature (hR : Lasting R) (h : Alike R w u) (f : Function) :
    Agree R (w.signature f) (u.signature f) := by
  refine (h.slots hR f.parameters).bind fun parameters => ?_
  cases f.returns.bind Outcome.type with
  | none => exact .pure _
  | some type => exact (h.writeDeclared hR type).map _

/-! ## Members -/

section Members

variable {f : Function} {v : Variable}

/-- A constructor is written alike if the directives are the same at its dotted name. -/
theorem construct (hR : Lasting R) (h : Alike R w u)
    (hs : w.directives.SameAt u.directives (w.nameOf f.link)) :
    Agree R (w.construct f) (u.construct f) := by
  simp only [Writer.construct, ← h.nameOf, h.functionHead hs]
  exact (agree_keeps hs hR).bind fun _ => .ite _ (.pure none) ((h.constructorSignature hR f).map _)

/-- A field or property is written alike if the directives are the same at its dotted name. -/
theorem property (hR : Lasting R) (h : Alike R w u)
    (hs : w.directives.SameAt u.directives (w.nameOf v.link)) :
    Agree R (w.property v) (u.property v) := by
  simp only [Writer.property, ← h.nameOf, headOf_congr hs]
  exact (agree_keeps hs hR).bind fun _ => .ite _ (.pure none) ((h.writeOptional hR v.type).map _)

/-- A function as a member is written alike if the directives are the same at its dotted name. -/
theorem memberFunction (hR : Lasting R) (h : Alike R w u)
    (hs : w.directives.SameAt u.directives fqn) :
    Agree R (w.memberFunction fqn f) (u.memberFunction fqn f) := by
  unfold Writer.memberFunction
  rw [h.functionHead hs]
  exact (h.signature hR f).map _

/-- A method is written alike if the directives are the same at its dotted and its simple name. -/
theorem method (hR : Lasting R) (h : Alike R w u)
    (hs : w.directives.SameAt u.directives (w.nameOf f.link))
    (hname : w.directives.isBadMethod f.name = u.directives.isBadMethod f.name) :
    Agree R (w.method f) (u.method f) := by
  simp only [Writer.method, ← h.nameOf]
  exact (agree_keepsMethod hs hR hname).bind fun _ =>
    .ite _ (.pure none) ((h.memberFunction hR hs).map _)

/-- A function of a namespace as a method is written alike, whatever its simple name. -/
theorem nameSpaceMethod (hR : Lasting R) (h : Alike R w u)
    (hs : w.directives.SameAt u.directives (w.nameOf f.link)) :
    Agree R (w.nameSpaceMethod f) (u.nameSpaceMethod f) := by
  simp only [Writer.nameSpaceMethod, ← h.nameOf]
  exact (agree_keeps hs hR).bind fun _ => .ite _ (.pure none) ((h.memberFunction hR hs).map _)

/-- A value of an enum is written alike if the directives are the same at its dotted name. -/
theorem enumValue (hR : Lasting R) (h : Alike R w u)
    (hs : w.directives.SameAt u.directives (w.nameOf v.link)) :
    Agree R (w.enumValue v) (u.enumValue v) := by
  simp only [Writer.enumValue, ← h.nameOf, headOf_congr hs]
  exact (agree_keeps hs hR).bind fun _ => .ite _ (.pure none) (.pure _)

/-- A variable of a namespace is written alike if the directives are the same at its dotted name. -/
theorem constant (hR : Lasting R) (h : Alike R w u)
    (hs : w.directives.SameAt u.directives (w.nameOf v.link)) :
    Agree R (w.constant v) (u.constant v) := by
  simp only [Writer.constant, ← h.nameOf, headOf_congr hs]
  exact (agree_keepsValue hs hR v.name).bind fun _ =>
    .ite _ (.pure none) ((h.writeOptional hR v.type).map _)

/-- A function of a namespace is written alike if the directives are the same at its dotted name. -/
theorem function (hR : Lasting R) (h : Alike R w u)
    (hs : w.directives.SameAt u.directives (w.nameOf f.link)) :
    Agree R (w.function f) (u.function f) := by
  simp only [Writer.function, ← h.nameOf, h.functionHead hs]
  exact (agree_keepsValue hs hR f.name).bind fun _ => .ite _ (.pure none) ((h.signature hR f).map _)

end Members

/-! ## What a namespace declares itself -/

section Lists

variable {functions : List Function} {listed : List Variable}

/-- Fields or properties are written alike if the directives are the same at all their names. -/
theorem properties (hR : Lasting R) (h : Alike R w u)
    (hs : w.directives.SameAtAll u.directives w.nameOf (variableNodes listed)) :
    Agree R (writeSome w.property listed) (writeSome u.property listed) :=
  Agree.writeSome _ fun v hv => h.property hR (hs.ofVariables v hv)

/-- Methods are written alike if the directives are the same at all their names, dotted and simple.
-/
theorem methods (hR : Lasting R) (h : Alike R w u)
    (hs : w.directives.SameAtAll u.directives w.nameOf (functionNodes functions))
    (hnames : ∀ name ∈ functions.map Function.name,
      w.directives.isBadMethod name = u.directives.isBadMethod name) :
    Agree R (writeSome w.method functions) (writeSome u.method functions) :=
  Agree.writeSome _ fun f hf =>
    h.method hR (hs.ofFunctions f hf) (hnames f.name (List.mem_map_of_mem hf))

end Lists

/-- An implemented interface is stripped by both writers or by neither. -/
theorem implemented (hR : Lasting R) (h : Alike R w u) (owner : String)
    (hname : w.directives.isBadInterface fqn = u.directives.isBadInterface fqn) :
    Agree R (w.implemented owner fqn) (u.implemented owner fqn) := by
  unfold Writer.implemented
  rw [hname]
  exact .ite _ ((Agree.warn hR _ _).map _) (h.supertype owner fqn)

section Scope

variable {s : Scope}

/-- The values of a scope are written alike if the directives are the same on the scope. -/
theorem values (hR : Lasting R) (h : Alike R w u)
    (hs : w.directives.SameOn u.directives w.nameOf s) :
    Agree R (w.values s) (u.values s) := by
  have hvalues := hs.nodes.tail.left.left.left
  have hconstants : Agree R (writeSome w.constant s.constants)
      (writeSome u.constant s.constants) :=
    Agree.writeSome _ fun v hv => h.constant hR (hvalues.left.ofVariables v hv)
  have hfunctions : Agree R (writeSome w.function s.functions)
      (writeSome u.function s.functions) :=
    Agree.writeSome _ fun f hf => h.function hR (hvalues.right.ofFunctions f hf)
  exact hconstants.bind fun _ => hfunctions.map _

/-- A class of a scope is written alike if the directives are the same on the scope. -/
theorem classType (hR : Lasting R) (h : Alike R w u)
    (hs : w.directives.SameOn u.directives w.nameOf s) {c : Api.Class} (hc : c ∈ s.classes) :
    Agree R (w.classType c) (u.classType c) := by
  have hnodes := hs.nodes.tail.left.left.right.of_mem_flatMap hc
  have hmembers := hnodes.tail
  have hnames (name : String) (hname : name ∈ c.methods.map Function.name) :
      w.directives.isBadMethod name = u.directives.isBadMethod name :=
    hs.methods name (List.mem_append_left _ (List.mem_flatMap_of_mem hc hname))
  have himplemented (fqn : String) (hfqn : fqn ∈ c.implemented) :
      w.directives.isBadInterface fqn = u.directives.isBadInterface fqn :=
    hs.implemented fqn (List.mem_flatMap_of_mem hc hfqn)
  simp only [Writer.classType, ← h.nameOf, ← h.emitted, headOf_congr hnodes.head]
  have hinterfaces : Agree R (writeSome (w.implemented (w.nameOf c.link)) c.implemented)
      (writeSome (u.implemented (w.nameOf c.link)) c.implemented) :=
    Agree.writeSome _ fun fqn hfqn => h.implemented hR _ (himplemented fqn hfqn)
  have hconstructors : Agree R (writeSome w.construct c.constructors)
      (writeSome u.construct c.constructors) :=
    Agree.writeSome _ fun f hf => h.construct hR (hmembers.left.left.ofFunctions f hf)
  have hfields := h.properties hR hmembers.left.right
  have hmethods := h.methods hR hmembers.right hnames
  refine .ite _ (.pure none) ?_
  cases c.base with
  | none =>
    exact (Agree.pure none).bind fun _ => hinterfaces.bind fun _ => hconstructors.bind fun _ =>
      hfields.bind fun _ => hmethods.map _
  | some base =>
    exact (h.supertype _ base).bind fun _ => hinterfaces.bind fun _ => hconstructors.bind fun _ =>
      hfields.bind fun _ => hmethods.map _

/-- An interface of a scope is written alike if the directives are the same on the scope. -/
theorem interfaceType (hR : Lasting R) (h : Alike R w u)
    (hs : w.directives.SameOn u.directives w.nameOf s) {i : Interface} (hi : i ∈ s.interfaces) :
    Agree R (w.interfaceType i) (u.interfaceType i) := by
  have hnodes := hs.nodes.tail.left.right.of_mem_flatMap hi
  have hnames (name : String) (hname : name ∈ i.methods.map Function.name) :
      w.directives.isBadMethod name = u.directives.isBadMethod name :=
    hs.methods name (List.mem_append_right _ (List.mem_flatMap_of_mem hi hname))
  simp only [Writer.interfaceType, ← h.nameOf, ← h.emitted, headOf_congr hnodes.head]
  refine .ite _ (.pure none) ?_
  refine (Agree.writeSome _ fun fqn _ => h.supertype _ fqn).bind fun _ => ?_
  exact (h.properties hR hnodes.tail.left).bind fun _ =>
    (h.methods hR hnodes.tail.right hnames).map _

/-- An enum of a scope is written alike if the directives are the same on the scope. -/
theorem enumType (hR : Lasting R) (h : Alike R w u)
    (hs : w.directives.SameOn u.directives w.nameOf s) {e : Enum} (he : e ∈ s.enums) :
    Agree R (w.enumType e) (u.enumType e) := by
  have hnodes := hs.nodes.tail.right.of_mem_flatMap he
  simp only [Writer.enumType, ← h.nameOf, ← h.emitted, headOf_congr hnodes.head]
  exact .ite _ (.pure none) ((Agree.writeSome _ fun v hv =>
    h.enumValue hR (hnodes.tail.ofVariables v hv)).map _)

/-- The aggregates of a scope are written alike if the directives are the same on the scope. -/
theorem aggregates (hR : Lasting R) (h : Alike R w u)
    (hs : w.directives.SameOn u.directives w.nameOf s) :
    Agree R (w.aggregates s) (u.aggregates s) := by
  refine (Agree.writeSome _ fun c hc => h.classType hR hs hc).bind fun _ => ?_
  refine (Agree.writeSome _ fun i hi => h.interfaceType hR hs hi).bind fun _ => ?_
  exact (Agree.writeSome _ fun e he => h.enumType hR hs he).map _

/-- A namespace as an interface is written alike if the directives are the same on its scope. -/
theorem nameSpaceInterface (hR : Lasting R) (h : Alike R w u)
    (hs : w.directives.SameOn u.directives w.nameOf s) :
    Agree R (w.nameSpaceInterface s) (u.nameSpaceInterface s) := by
  have hvalues := hs.nodes.tail.left.left.left
  simp only [Writer.nameSpaceInterface, ← h.nameOf, headOf_congr hs.nodes.head]
  refine (h.properties hR hvalues.left).bind fun _ => ?_
  exact (Agree.writeSome _ fun f hf => h.nameSpaceMethod hR (hvalues.right.ofFunctions f hf)).map _

end Scope

/-! ## Namespaces -/

section Namespaces

variable {top ns : Namespace}

/-- The same namespaces are written as interfaces. -/
theorem isInterface (h : Alike R w u) (fqn : String) : w.isInterface fqn = u.isInterface fqn := by
  rw [Writer.isInterface, Writer.isInterface, h.interfaces]

/-- A list of namespaces is written alike into the global tree if each of them is. -/
theorem globalNamespaces {nested : List Namespace}
    (h : ∀ ns ∈ nested, Agree R (w.globalNamespace ns) (u.globalNamespace ns)) :
    Agree R (w.globalNamespaces nested) (u.globalNamespaces nested) := by
  induction nested with
  | nil =>
    rw [Writer.globalNamespaces, Writer.globalNamespaces]
    exact .pure []
  | cons ns rest ih =>
    obtain ⟨hns, hrest⟩ := List.forall_mem_cons.mp h
    rw [Writer.globalNamespaces, Writer.globalNamespaces]
    exact hns.bind fun _ => (ih hrest).map _

/-- A namespace is written alike into the global tree. -/
theorem globalNamespace (hR : Lasting R) (h : Alike R w u) (ns : Namespace)
    (hs : w.directives.SameBelow u.directives w.nameOf ns) :
    Agree R (w.globalNamespace ns) (u.globalNamespace ns) := by
  induction ns using Namespace.induction with
  | step scope nested ih =>
    have hvalues := h.values hR hs.own
    have haggregates := h.aggregates hR hs.own
    have hnested : Agree R (w.globalNamespaces nested) (u.globalNamespaces nested) :=
      globalNamespaces fun child hchild => ih child hchild (hs.child child hchild)
    rw [Writer.globalNamespace, Writer.globalNamespace]
    simp only [← h.nameOf, ← h.emitted, ← h.isInterface, lead_congr hs.own.nodes.head]
    refine .ite _ (.pure []) (.ite _ ?_ ?_)
    · refine (h.nameSpaceInterface hR hs.own).bind fun _ => .ite _ (.pure _) ?_
      exact haggregates.bind fun _ => hnested.map _
    · exact hvalues.bind fun _ => haggregates.bind fun _ => hnested.map _

/-- The global tree is written alike. -/
theorem globalTree (hR : Lasting R) (h : Alike R w u)
    (hs : w.directives.SameBelow u.directives w.nameOf top) :
    Agree R (w.globalTree top) (u.globalTree top) := by
  obtain ⟨scope, nested⟩ := top
  refine (h.values hR hs.own).bind fun _ => (h.aggregates hR hs.own).bind fun _ => ?_
  exact (globalNamespaces fun child hchild =>
    h.globalNamespace hR child (hs.child child hchild)).map _

/-- The blocks of a namespace declare the same names themselves. -/
theorem localNames (h : Alike R w u) (ns : Namespace) (asInterface : Bool) :
    w.localNames ns asInterface = u.localNames ns asInterface := by
  simp only [Writer.localNames, h.nameOf, h.isInterface]

/-- Nested namespaces that are interfaces are the same ones and are written alike. -/
theorem nestedInterfaces (hR : Lasting R) (h : Alike R w u)
    (hs : w.directives.SameBelow u.directives w.nameOf ns) :
    Agree R (w.nestedInterfaces ns) (u.nestedInterfaces ns) := by
  obtain ⟨scope, nested⟩ := ns
  have hsame : w.isEmittedInterface = u.isEmittedInterface := by
    funext child
    simp only [Writer.isEmittedInterface, h.nameOf, h.emitted, h.isInterface]
  rw [Writer.nestedInterfaces, Writer.nestedInterfaces, hsame]
  refine Agree.mapM _ fun child hchild => ?_
  have hbelow := hs.child child (List.mem_of_mem_filter hchild)
  obtain ⟨inner, _⟩ := child
  exact h.nameSpaceInterface hR hbelow.own

/-- The block of a namespace is written alike. -/
theorem moduleBlock (hR : Lasting R) (h : Alike R w u)
    (hs : w.directives.SameBelow u.directives w.nameOf ns) (hns : fqn = w.nameOf.nameSpace ns) :
    Agree R (w.moduleBlock fqn ns) (u.moduleBlock fqn ns) := by
  have hinterfaces := h.nestedInterfaces hR hs
  obtain ⟨scope, nested⟩ := ns
  have hvalues := h.values hR hs.own
  have haggregates := h.aggregates hR hs.own
  have hlead : w.lead fqn = u.lead fqn := funext (lead_congr (hns ▸ hs.own.nodes.head))
  simp only [Writer.moduleBlock, ← h.isInterface, ← h.localNames, hlead]
  refine (Agree.moveTo hR rfl).bind fun _ =>
    .ite _ ((Agree.pure []).bind fun _ => ?_) (hvalues.bind fun _ => ?_)
  all_goals
    exact haggregates.bind fun _ => hinterfaces.bind fun _ =>
      (Agree.importsHere hR).bind fun _ => (Agree.moveTo hR rfl).map _

/-- The blocks of a list of namespaces are written alike if those of each are. -/
theorem nestedBlocks {modules : Ordered.Set String} {nested : List Namespace}
    (h : ∀ ns ∈ nested, Agree R (w.blocks modules ns) (u.blocks modules ns)) :
    Agree R (w.nestedBlocks modules nested) (u.nestedBlocks modules nested) := by
  induction nested with
  | nil =>
    rw [Writer.nestedBlocks, Writer.nestedBlocks]
    exact .pure []
  | cons ns rest ih =>
    obtain ⟨hns, hrest⟩ := List.forall_mem_cons.mp h
    rw [Writer.nestedBlocks, Writer.nestedBlocks]
    exact hns.bind fun _ => (ih hrest).map _

/-- The blocks of a namespace and of those nested in it are written alike. -/
theorem blocks (hR : Lasting R) (h : Alike R w u) (modules : Ordered.Set String) (ns : Namespace)
    (hs : w.directives.SameBelow u.directives w.nameOf ns) :
    Agree R (w.blocks modules ns) (u.blocks modules ns) := by
  induction ns using Namespace.induction with
  | step scope nested ih =>
    have hblock := h.moduleBlock hR hs rfl
    have hnested : Agree R (w.nestedBlocks modules nested) (u.nestedBlocks modules nested) :=
      nestedBlocks fun child hchild => ih child hchild (hs.child child hchild)
    rw [Writer.blocks, Writer.blocks]
    simp only [← h.nameOf, ← h.emitted]
    refine .ite _ (.pure []) (.ite _ ?_ ?_)
    · exact hblock.bind fun block => (Agree.pure [block]).bind fun _ => hnested.map _
    · exact (Agree.pure []).bind fun _ => hnested.map _

/-- What the top-level namespace holds itself is written alike. -/
theorem scriptItems (hR : Lasting R) (h : Alike R w u)
    (hs : w.directives.SameBelow u.directives w.nameOf top) :
    Agree R (w.scriptItems top) (u.scriptItems top) := by
  have hinterfaces := h.nestedInterfaces hR hs
  obtain ⟨scope, nested⟩ := top
  exact (h.values hR hs.own).bind fun _ => (h.aggregates hR hs.own).bind fun _ =>
    hinterfaces.map _

/-- A document is written alike. -/
theorem document (hR : Lasting R) (h : Alike R w u) (flavor : Flavor)
    (modules : Ordered.Set String) (hs : w.directives.SameBelow u.directives w.nameOf top) :
    Agree R (w.document flavor modules top) (u.document flavor modules top) := by
  cases flavor with
  | globals => exact (h.globalTree hR hs).map _
  | modules =>
    have hscript := h.scriptItems hR hs
    obtain ⟨scope, nested⟩ := top
    exact hscript.bind fun _ => (nestedBlocks fun child hchild =>
      h.blocks hR modules child (hs.child child hchild)).map _

end Namespaces

end Alike

end Declaration.Writer

end Ambient
