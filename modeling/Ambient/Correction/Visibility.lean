import Ambient.Api.Basic

/-!
# Restricted nodes

A node declared restricted may not appear in the output, and neither may anything below it. The
visible part of a namespace keeps everything else in its order; the count is of the restricted
nodes that a kept node owns directly, so that nothing below a removed node is counted.
-/

namespace Ambient.Api

/-- Whether nodes of a visibility may appear; without one, and when guarded, they may. -/
def isEmittable (visibility : Option Visibility) : Bool :=
  visibility != some .restricted

/-- The elements of a list that may appear. -/
def visibleOf {α : Type} (visibility : α → Option Visibility) (items : List α) : List α :=
  items.filter fun item => isEmittable (visibility item)

/-- The number of elements of a list that may not appear. -/
def hiddenOf {α : Type} (visibility : α → Option Visibility) (items : List α) : Nat :=
  items.countP fun item => !isEmittable (visibility item)

/-- The class without its restricted members. -/
def Class.visible (c : Class) : Class :=
  { c with
    constructors := visibleOf Function.visibility c.constructors
    fields := visibleOf Variable.visibility c.fields
    methods := visibleOf Function.visibility c.methods }

/-- The number of restricted members of a class. -/
def Class.hidden (c : Class) : Nat :=
  hiddenOf Function.visibility c.constructors + hiddenOf Variable.visibility c.fields
    + hiddenOf Function.visibility c.methods

/-- The interface without its restricted members. -/
def Interface.visible (i : Interface) : Interface :=
  { i with
    methods := visibleOf Function.visibility i.methods
    properties := visibleOf Variable.visibility i.properties }

/-- The number of restricted members of an interface. -/
def Interface.hidden (i : Interface) : Nat :=
  hiddenOf Variable.visibility i.properties + hiddenOf Function.visibility i.methods

/-- The enum without its restricted values. -/
def Enum.visible (e : Enum) : Enum :=
  { e with values := visibleOf Variable.visibility e.values }

/-- The number of restricted values of an enum. -/
def Enum.hidden (e : Enum) : Nat := hiddenOf Variable.visibility e.values

/-- What a namespace declares itself, without what is restricted. -/
def Scope.visible (s : Scope) : Scope :=
  { s with
    constants := visibleOf Variable.visibility s.constants
    functions := visibleOf Function.visibility s.functions
    classes := (visibleOf Class.visibility s.classes).map Class.visible
    interfaces := (visibleOf Interface.visibility s.interfaces).map Interface.visible
    enums := (visibleOf Enum.visibility s.enums).map Enum.visible }

/-- The number of restricted nodes among what a namespace declares itself and its members. -/
def Scope.hidden (s : Scope) : Nat :=
  hiddenOf Variable.visibility s.constants + hiddenOf Function.visibility s.functions
    + (hiddenOf Class.visibility s.classes
      + ((visibleOf Class.visibility s.classes).map Class.hidden).foldr (· + ·) 0)
    + (hiddenOf Interface.visibility s.interfaces
      + ((visibleOf Interface.visibility s.interfaces).map Interface.hidden).foldr (· + ·) 0)
    + (hiddenOf Enum.visibility s.enums
      + ((visibleOf Enum.visibility s.enums).map Enum.hidden).foldr (· + ·) 0)

mutual

/-- The namespace without what is restricted below it. -/
def Namespace.visible : Namespace → Namespace
  | ⟨scope, nested⟩ => ⟨scope.visible, Namespace.visibleAll nested⟩

/-- The visible parts of the namespaces that are not restricted. -/
def Namespace.visibleAll : List Namespace → List Namespace
  | [] => []
  | ⟨scope, nested⟩ :: rest =>
    if isEmittable scope.visibility then
      Namespace.visible ⟨scope, nested⟩ :: Namespace.visibleAll rest
    else Namespace.visibleAll rest

end

mutual

/-- The number of restricted nodes that `Namespace.visible` removes from their owners. -/
def Namespace.hidden : Namespace → Nat
  | ⟨scope, nested⟩ => Namespace.hiddenAll nested + scope.hidden

/-- The number of restricted nodes among namespaces and below the ones that are kept. -/
def Namespace.hiddenAll : List Namespace → Nat
  | [] => 0
  | ⟨scope, nested⟩ :: rest =>
    (if isEmittable scope.visibility then Namespace.hidden ⟨scope, nested⟩ else 1)
      + Namespace.hiddenAll rest

end

/-- The description without what is restricted below the top-level namespace. -/
def Description.visible (d : Description) : Description :=
  { d with top := d.top.visible }

end Ambient.Api
