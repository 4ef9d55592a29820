import Ambient.Api.Basic
import Ambient.Ordered.Map
import Ambient.Ordered.Set

/-!
# Directives

Curated corrections for known defects of API descriptions. They are hints: one whose target does
not exist is never consulted. Bad methods are matched by simple name in every class and interface;
the other keys are dotted names.
-/

namespace Ambient

/-- The directives of one library, or of several merged ones. -/
structure Directives where
  /-- Names of methods that are left out of every class and interface. -/
  badMethods : Ordered.Set String
  /-- Interfaces that are stripped from every class. -/
  badInterfaces : Ordered.Set String
  /-- Symbols and members that are left out. -/
  badSymbols : Ordered.Set String
  /-- Type names with the names to be used instead. -/
  typos : Ordered.Map String String
  /-- Namespaces with the choice to write them as interfaces. -/
  interfaceNamespaces : Ordered.Map String Bool
  /-- Symbols and members with the reason to suppress the compiler's complaints about them. -/
  suppressions : Ordered.Map String String

namespace Directives

/-- No directives. -/
def empty : Directives := ⟨∅, ∅, ∅, ∅, ∅, ∅⟩

/-- By default directives say nothing. -/
instance : Inhabited Directives := ⟨empty⟩

/-- Adds other directives: sets are united, and a key keeps the value it has. -/
def absorb (d other : Directives) : Directives where
  badMethods := d.badMethods.union other.badMethods
  badInterfaces := d.badInterfaces.union other.badInterfaces
  badSymbols := d.badSymbols.union other.badSymbols
  typos := d.typos.union other.typos
  interfaceNamespaces := d.interfaceNamespaces.union other.interfaceNamespaces
  suppressions := d.suppressions.union other.suppressions

/-- Adds the directives of a list from left to right. -/
def merge (d : Directives) (others : List Directives) : Directives :=
  others.foldl absorb d

/-- Whether methods of a name are left out. -/
def isBadMethod (d : Directives) (name : String) : Bool := d.badMethods.contains name

/-- Whether an interface is stripped from the classes. -/
def isBadInterface (d : Directives) (fqn : String) : Bool := d.badInterfaces.contains fqn

/-- Whether a symbol or member is left out. -/
def isBadSymbol (d : Directives) (fqn : String) : Bool := d.badSymbols.contains fqn

/-- Whether a namespace is to be written as an interface. -/
def reclassifies (d : Directives) (fqn : String) : Bool :=
  (d.interfaceNamespaces.get? fqn).getD false

/-- The reason to suppress complaints about a symbol or member. -/
def suppression? (d : Directives) (fqn : String) : Option String := d.suppressions.get? fqn

/-- The name to be used instead of a type name. -/
def correctName (d : Directives) (name : String) : String := (d.typos.get? name).getD name

/-- The text to be used for an occurrence of a type expression. -/
def correct (d : Directives) (type : Api.SimpleType) : String :=
  if type.skipsCorrection then type.name else d.correctName type.name

end Directives

end Ambient
