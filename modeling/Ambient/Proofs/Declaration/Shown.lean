import Ambient.Proofs.Declaration.Captures
import Ambient.Proofs.TypeExpr.Shown

/-!
# The references in a document

Where an entry mentions a symbol, in a clause of its header or in a type, the dotted name of the
symbol stands in one of the lines that are written for it in the global tree, behind something that
keeps it apart from the rest of the line. The lines of a tree are those of what stands in it.
-/

namespace Ambient

open Reference (Use)

/-! ## Occurrences of types -/

namespace Api

/-- The types that are named in the type of a variable. -/
def Variable.occurrences (v : Variable) : List SimpleType := v.type.elim [] DeclaredType.occurrences

/-- The types that are named in the types of the parameters of a function. -/
def Function.parameterOccurrences (f : Function) : List SimpleType :=
  f.parameters.flatMap fun p => p.type.occurrences

/-- The types that are named in the signature of a function. -/
def Function.occurrences (f : Function) : List SimpleType :=
  f.parameterOccurrences ++ (f.returns.bind Outcome.type).elim [] DeclaredType.occurrences

end Api

namespace Declaration

open Api
open TypeExpr (ShowsAmong ofSimple)
open Patch (Behind Shuts blockLine)

namespace Writer

variable (w : Writer)

/-- The types that are named in a member, if it is kept. -/
def memberTypes (title : Title) (types : List SimpleType) : List SimpleType :=
  if keepsMember w.directives title then types else []

/-- The types that are named in the fields or properties of a list. -/
def propertyTypes (list : List Variable) : List SimpleType :=
  list.flatMap fun v => w.memberTypes (w.nameOf.variableTitle .property v) v.occurrences

/-- The types that are named in the methods of a list. -/
def methodTypes (list : List Function) : List SimpleType :=
  list.flatMap fun f => w.memberTypes (w.nameOf.functionTitle .method f) f.occurrences

/-- The types that are named in the members of a class, interface or enum. -/
def nodeTypes : TypeNode → List SimpleType
  | .classType c =>
    c.constructors.flatMap (fun f =>
        w.memberTypes (w.nameOf.functionTitle .construct f) f.parameterOccurrences)
      ++ w.propertyTypes c.fields ++ w.methodTypes c.methods
  | .interfaceType i => w.propertyTypes i.properties ++ w.methodTypes i.methods
  | .enumType _ => []

/-- The types that are named in what is written for an entry. -/
def entryTypes : Entry → List SimpleType
  | .constant v => v.occurrences
  | .function f => f.occurrences
  | .aggregate n => w.nodeTypes n
  | .nameSpace s =>
    w.propertyTypes s.constants ++ s.functions.flatMap fun f =>
      if !w.directives.isBadSymbol (w.nameOf f.link) then f.occurrences else []

/-- An entry mentions a symbol in a clause of its header, or in a type. -/
def Mentions (entry : Entry) (s : Symbol) : Prop :=
  s ∈ (w.entryHeritage entry).all ∨ ∃ type ∈ w.entryTypes entry,
    TypeExpr.Mentions w.toResolver s (ofSimple w.directives type)

end Writer

/-! ## Members -/

namespace InTree

variable {α β : Type} {m : Writing α} {k : α → Writing β} {P : α → Prop} {Q : β → Prop}
  {r : Resolver}

/-- An action after one that uses nothing and always answers the same. -/
theorem after {a : α} (hanswer : ∀ page, (m.run page).1 = a) (h : Refers m [])
    (hk : InTree (k a) Q) : InTree (m >>= k) Q := by
  have hsame : InTree m (· = a) := fun warnings => ⟨hanswer _, h.place .globals warnings⟩
  refine hsame.bind ?_
  rintro _ rfl
  exact hk

/-- What is written only if it is kept shows what it is to show. -/
theorem kept {keep : Writing Bool} {kept : Bool} {notes : List Warning}
    (hanswer : Writes keep id kept notes) (hkeep : Refers keep []) {text : α → String}
    {types : List SimpleType} (h : InTree m fun a => ShowsAmong r types [text a]) :
    InTree (keep >>= fun kept => if !kept then Pure.pure none else m >>= Pure.pure ∘ some)
      fun answer => ShowsAmong r (if kept then types else []) (answer.toList.map text) := by
  refine .after hanswer.answer hkeep ?_
  cases kept with
  | false => exact .pure (.nil r _)
  | true => exact h.bind fun a ha => .pure ha

/-- What holds of whatever is written holds of it if it is kept. -/
theorem ifKept {keep : Writing Bool} (hkeep : Refers keep []) (h : InTree m P) :
    InTree (keep >>= fun kept => if !kept then Pure.pure none else m >>= Pure.pure ∘ some)
      fun answer => ∀ a ∈ answer, P a := by
  refine .seq hkeep fun kept => ?_
  cases kept with
  | false => exact .pure (by simp)
  | true => exact h.bind fun a ha => .pure (by simpa using ha)

/-- Elements that are written one by one show what they are to show. -/
theorem writeSome {write : α → Writing (Option β)} {types : α → List SimpleType}
    {text : β → String}
    (h : ∀ a, InTree (write a) fun answer => ShowsAmong r (types a) (answer.toList.map text))
    (list : List α) :
    InTree (Declaration.writeSome write list)
      fun answer => ShowsAmong r (list.flatMap types) (answer.map text) := by
  induction list with
  | nil => exact .pure (.nil r _)
  | cons a rest ih =>
    refine (h a).bind fun first hfirst => ih.bind fun others hothers => .pure ?_
    rw [List.map_append]
    exact hfirst.append hothers

end InTree

section Texts

variable {r : Resolver} {types more : List SimpleType}

/-- The text of a parameter shows what its type does. -/
theorem Slot.shows_text {type : String} (h : TypeExpr.ShowsAll r types type) (name : String)
    (isMarked : Bool) (behind : String) :
    ShowsAmong r types [(⟨name, isMarked, type ++ behind⟩ : Slot).text] := by
  have hfront : Shuts (name ++ if isMarked then "?: " else ": ").toList := by
    rw [String.toList_append]
    refine .append ?_ _
    cases isMarked with
    | true => exact TypeExpr.shuts_colon.append ['?']
    | false => exact TypeExpr.shuts_colon
  have hshows := h.among hfront behind
  rwa [String.append_assoc] at hshows

/-- The text of a signature shows what its parameters and its result do. -/
theorem Signature.shows_text {parameters : List Slot} {result : Option String}
    (h : ShowsAmong r types (parameters.map Slot.text))
    (hresult : ShowsAmong r more (result.map fun type => ": " ++ type).toList) :
    ShowsAmong r (types ++ more) [(⟨parameters, result⟩ : Signature).text] := by
  refine (h.append hresult).of_behind fun part text htext hbehind => ?_
  obtain htext | htext := List.mem_append.mp htext
  · have hparameters := (hbehind.intercalate ", " htext).within "(" ")"
    cases result with
    | none => exact hparameters.append ""
    | some type => exact hparameters.append (": " ++ type)
  · cases result with
    | none => cases htext
    | some type =>
      obtain rfl := List.mem_singleton.mp htext
      exact hbehind.prepend ("(" ++ ", ".intercalate (parameters.map Slot.text) ++ ")")

end Texts

namespace Writer

variable (w : Writer)

/-- The slot written for a parameter shows the types in the parameter's type. -/
theorem shows_slot (p : Parameter) (requiredLater : Bool) :
    InTree (w.slot p requiredLater) fun slot =>
      ShowsAmong w.toResolver p.type.occurrences [slot.text] := by
  refine (TypeExpr.shows_writeParameterType p.type).bind fun type htype => ?_
  have hplain (isMarked : Bool) :=
    Slot.shows_text htype (Identifier.parameterName p.name) isMarked ""
  simp only [String.append_empty] at hplain
  split
  · exact .pure (hplain false)
  · split
    · exact .pure (Slot.shows_text htype _ false " | undefined")
    · exact .pure (hplain true)

/-- The slots written for parameters show the types in all of their types. -/
theorem shows_slots (parameters : List Parameter) :
    InTree (w.slots parameters) fun slots =>
      ShowsAmong w.toResolver (parameters.flatMap fun p => p.type.occurrences)
        (slots.map Slot.text) := by
  induction parameters with
  | nil => exact .pure (.nil _ _)
  | cons p rest ih =>
    exact (w.shows_slot p _).bind fun slot hslot => ih.bind fun slots hslots =>
      .pure (hslot.append hslots)

/-- The signature of a constructor shows the types of the parameters. -/
theorem shows_constructorSignature (f : Function) :
    InTree (w.constructorSignature f) fun signature =>
      ShowsAmong w.toResolver f.parameterOccurrences [signature.text] := by
  refine (w.shows_slots f.parameters).bind fun slots hslots => .pure ?_
  have hshows : ShowsAmong w.toResolver (f.parameterOccurrences ++ [])
      [(⟨slots, none⟩ : Signature).text] := Signature.shows_text hslots (.nil _ _)
  rwa [List.append_nil] at hshows

/-- A signature shows the types of the parameters and of the result. -/
theorem shows_signature (f : Function) :
    InTree (w.signature f) fun signature =>
      ShowsAmong w.toResolver f.occurrences [signature.text] := by
  refine (w.shows_slots f.parameters).bind fun slots hslots => ?_
  rw [Function.occurrences]
  cases f.returns.bind Outcome.type with
  | none => exact .pure (Signature.shows_text hslots (.nil _ _))
  | some type =>
    refine (TypeExpr.shows_writeDeclared type).bind fun text htext => .pure ?_
    have hresult := htext.among TypeExpr.shuts_colon ""
    rw [String.append_empty] at hresult
    exact Signature.shows_text hslots hresult

/-- The line of a member shows what is mentioned in it, if it is kept. -/
theorem shows_construct (f : Function) :
    InTree (w.construct f) fun answer => ShowsAmong w.toResolver
      (w.memberTypes (w.nameOf.functionTitle .construct f) f.parameterOccurrences)
      (answer.toList.map Member.text) := by
  obtain ⟨_, hanswer⟩ := w.writes_keeps (w.nameOf f.link)
  have hmember : InTree (w.constructorSignature f >>= fun signature =>
      pure (⟨w.functionHead (w.nameOf f.link) f, .construct signature⟩ : Member))
      fun m => ShowsAmong w.toResolver f.parameterOccurrences [m.text] :=
    (w.shows_constructorSignature f).bind fun signature hsignature =>
      .pure (hsignature.within "constructor" ";")
  rw [memberTypes, keepsMember_of_ne _ (by simp [Naming.functionTitle])]
  exact .kept hanswer (w.refers_keeps _) hmember

/-- A property, if it is written, shows the types in its own. -/
theorem shows_property (v : Variable) :
    InTree (w.property v) fun answer => ShowsAmong w.toResolver
      (w.memberTypes (w.nameOf.variableTitle .property v) v.occurrences)
      (answer.toList.map Member.text) := by
  obtain ⟨_, hanswer⟩ := w.writes_keeps (w.nameOf v.link)
  have hmember : InTree (TypeExpr.writeOptional w.toResolver v.type >>= fun type =>
      pure (⟨w.headOf (w.nameOf v.link) v.name v.doc, .property v.isStatic type⟩ : Member))
      fun m => ShowsAmong w.toResolver v.occurrences [m.text] := by
    refine (TypeExpr.shows_writeOptional v.type).bind fun type htype => .pure (htype.among ?_ ";")
    rw [String.toList_append]
    exact TypeExpr.shuts_colon.append _
  rw [memberTypes, keepsMember_of_ne _ (by simp [Naming.variableTitle])]
  exact .kept hanswer (w.refers_keeps _) hmember

/-- A function written as a member shows the types in its signature. -/
theorem shows_memberFunction (f : Function) :
    InTree (w.memberFunction (w.nameOf f.link) f) fun m =>
      ShowsAmong w.toResolver f.occurrences [m.text] :=
  (w.shows_signature f).bind fun _ hsignature => .pure (hsignature.within _ ";")

/-- A method, if it is written, shows the types in its signature. -/
theorem shows_method (f : Function) :
    InTree (w.method f) fun answer => ShowsAmong w.toResolver
      (w.memberTypes (w.nameOf.functionTitle .method f) f.occurrences)
      (answer.toList.map Member.text) := by
  obtain ⟨_, hanswer⟩ := w.writes_keepsMethod (w.nameOf f.link) f.name
  rw [memberTypes, Naming.functionTitle, keepsMember_method]
  exact .kept hanswer (w.refers_keepsMethod _ _) (w.shows_memberFunction f)

/-- A method of a namespace that is an interface, if it is written, shows the types in its
signature. -/
theorem shows_nameSpaceMethod (f : Function) :
    InTree (w.nameSpaceMethod f) fun answer => ShowsAmong w.toResolver
      (if !w.directives.isBadSymbol (w.nameOf f.link) then f.occurrences else [])
      (answer.toList.map Member.text) := by
  obtain ⟨_, hanswer⟩ := w.writes_keeps (w.nameOf f.link)
  exact .kept hanswer (w.refers_keeps _) (w.shows_memberFunction f)

end Writer

/-! ## Items -/

/-- An item shows what is mentioned in some types, at whatever depth it is written. -/
def Item.Shows (r : Resolver) (types : List SimpleType) (item : Item) : Prop :=
  ∀ depth, ShowsAmong r types ((item.lines depth).map Line.text)

/-- An item shows what its members do, unless its body is on the line of its header. -/
theorem Item.shows_aggregate {r : Resolver} {types : List SimpleType} {head : Head}
    {header : Header} {members : List Member} (hbare : header.isBare = true → types = [])
    (h : ShowsAmong r types (members.map Member.text)) :
    (Item.aggregate head header members).Shows r types := by
  intro depth
  cases hbody : header.isBare with
  | true =>
    rw [hbare hbody]
    exact .nil r _
  | false =>
    refine h.mono fun text htext => ?_
    obtain ⟨m, hm, rfl⟩ := List.mem_map.mp htext
    have hline : ⟨depth + 1, m.text⟩ ∈ members.flatMap (Member.lines (depth + 1)) :=
      List.mem_flatMap.mpr ⟨m, hm, List.mem_append_right _ (List.mem_singleton.mpr rfl)⟩
    refine List.mem_map.mpr ⟨⟨depth + 1, m.text⟩, ?_, rfl⟩
    simp [lines, hbody, hline]

namespace Writer

variable (w : Writer)

/-- A constant, if it is written, shows the types in its own. -/
theorem shows_constant (v : Variable) : InTree (w.constant v) fun answer =>
    ∀ item ∈ answer, item.Shows w.toResolver v.occurrences := by
  refine .ifKept (w.refers_keepsValue _ _) (P := Item.Shows w.toResolver v.occurrences)
    ((TypeExpr.shows_writeOptional v.type).bind fun type htype => .pure fun depth => ?_)
  have hfront : Shuts (exposure depth ++ "const " ++ v.name ++ ": ").toList := by
    rw [String.toList_append]
    exact TypeExpr.shuts_colon.append _
  refine (htype.among hfront ";").mono (List.cons_subset.mpr ⟨?_, List.nil_subset _⟩)
  simp [Item.lines, headOf]

/-- A function, if it is written, shows the types in its signature. -/
theorem shows_function (f : Function) : InTree (w.function f) fun answer =>
    ∀ item ∈ answer, item.Shows w.toResolver f.occurrences := by
  refine .ifKept (w.refers_keepsValue _ _) (P := Item.Shows w.toResolver f.occurrences)
    ((w.shows_signature f).bind fun signature hsignature => .pure fun depth => ?_)
  refine (hsignature.within (exposure depth ++ "function " ++ f.name) ";").mono
    (List.cons_subset.mpr ⟨?_, List.nil_subset _⟩)
  simp [Item.lines, functionHead]

/-- A class, if it is written, shows the types in its members. -/
theorem shows_classType (c : Api.Class) : InTree (w.classType c) fun answer =>
    ∀ item ∈ answer, item.Shows w.toResolver (w.nodeTypes (.classType c)) := by
  unfold classType
  dsimp only
  split
  · exact .pure (by simp)
  cases c.base
  all_goals
    refine .bind (P := fun _ => True) ?_ fun base _ =>
      .seq (.writeSome (w.refers_implemented _) _) fun interfaces =>
      (InTree.writeSome w.shows_construct c.constructors).bind fun constructors hconstructors =>
      (InTree.writeSome w.shows_property c.fields).bind fun fields hfields =>
      (InTree.writeSome w.shows_method c.methods).bind fun methods hmethods => .pure ?_
  case none.refine_1 => exact .pure trivial
  case some.refine_1 base => exact .of_forall (w.refers_supertype _ base) fun _ => trivial
  all_goals
    rintro item ⟨⟩
    refine Item.shows_aggregate nofun ?_
    rw [List.map_append, List.map_append]
    exact (hconstructors.append hfields).append hmethods

/-- An interface, if it is written, shows the types in its members. -/
theorem shows_interfaceType (i : Interface) : InTree (w.interfaceType i) fun answer =>
    ∀ item ∈ answer, item.Shows w.toResolver (w.nodeTypes (.interfaceType i)) := by
  unfold interfaceType
  dsimp only
  split
  · exact .pure (by simp)
  refine .seq (.writeSome (w.refers_supertype _) _) fun bases =>
    (InTree.writeSome w.shows_property i.properties).bind fun properties hproperties =>
    (InTree.writeSome w.shows_method i.methods).bind fun methods hmethods => .pure ?_
  rintro item ⟨⟩
  refine Item.shows_aggregate nofun ?_
  rw [List.map_append]
  exact hproperties.append hmethods

/-- A namespace written as an interface shows the types in its members. -/
theorem shows_nameSpaceInterface (s : Scope) :
    InTree (w.nameSpaceInterface s) (Item.Shows w.toResolver (w.entryTypes (.nameSpace s))) := by
  refine (InTree.writeSome w.shows_property s.constants).bind fun properties hproperties =>
    (InTree.writeSome w.shows_nameSpaceMethod s.functions).bind fun methods hmethods => .pure ?_
  refine Item.shows_aggregate (fun hbare => ?_) ?_
  · rw [Header.isBare, Bool.and_eq_true, List.isEmpty_iff, List.isEmpty_iff] at hbare
    rw [entryTypes, hbare.1, hbare.2]
    rfl
  · rw [List.map_append]
    exact hproperties.append hmethods

/-- In the global tree, the lines for an entry show what is mentioned in its types. -/
theorem shows_write (entry : Entry) : InTree (w.write entry) fun answer =>
    ∀ item ∈ answer, item.Shows w.toResolver (w.entryTypes entry) := by
  cases entry with
  | constant v => exact w.shows_constant v
  | function f => exact w.shows_function f
  | aggregate n =>
    cases n with
    | classType c => exact w.shows_classType c
    | interfaceType i => exact w.shows_interfaceType i
    | enumType e => exact .of_forall (w.refers_write _) fun _ _ _ _ => .nil _ _
  | nameSpace s =>
    refine (w.shows_nameSpaceInterface s).bind fun item hitem => .pure ?_
    rintro _ ⟨⟩
    exact hitem

end Writer

/-! ## Clauses -/

/-- In a clause, every name that it lists stands behind the word or a comma, and a blank. -/
theorem behind_clause (word : String) (hword : Shuts (word ++ " ").toList) {names : List String}
    {name : String} (h : name ∈ names) : Behind name (clause word names) := by
  rw [clause, if_neg (by simpa using List.ne_nil_of_mem h)]
  have hlist := Patch.behind_append (Patch.within_intercalate Patch.shuts_comma h) hword ""
  have hclause := hlist.prepend " "
  simpa only [String.append_assoc, String.append_empty] using hclause

/-- Every name that a header lists stands in the line that opens the item. -/
theorem Item.behind_heritage {item : Item} {name : String} (h : name ∈ item.heritage.all)
    (depth : Nat) : ∃ line ∈ item.lines depth, Behind name line.text := by
  cases item with
  | constant | function => cases h
  | aggregate head header members =>
    obtain ⟨body, -, hline⟩ := Item.exists_header depth head header members
    have hextends : Shuts ("extends" ++ " ").toList := by
      rw [String.toList_append]
      exact (Patch.shuts_blank (c := 's') (by decide)).append "extend".toList
    have himplements : Shuts ("implements" ++ " ").toList := by
      rw [String.toList_append]
      exact (Patch.shuts_blank (c := 's') (by decide)).append "implement".toList
    refine ⟨_, hline, ?_⟩
    obtain hextended | himplemented := List.mem_append.mp h
    · exact (((behind_clause _ hextends hextended).prepend _).append _).append body
    · exact ((behind_clause _ himplements himplemented).prepend _).append body

/-- In the global tree, every symbol that an entry mentions stands in one of its lines. -/
theorem Writer.behind_of_mentions {w : Writer} {entry : Entry} {item : Item} {s : Symbol}
    (hitem : w.globalItem? entry = some item) (hs : w.Mentions entry s) (depth : Nat) :
    ∃ line ∈ item.lines depth, Behind s.fqn line.text := by
  obtain hheritage | ⟨type, htype, hmentions⟩ := hs
  · have hspelled := heritage_write entry hitem
    have hnames : item.heritage.all = (w.entryHeritage entry).all.map Symbol.fqn := by
      rw [hspelled, spelledAt, Reference.Place.after_globals, Reference.Place.spellings_globals,
        Reference.Place.spellings_globals, Heritage.all, Heritage.all, List.map_append,
        List.map_map, List.map_map]
      rfl
    exact Item.behind_heritage (hnames ▸ List.mem_map_of_mem hheritage) depth
  · obtain ⟨text, htext, hbehind⟩ :=
      ((w.shows_write entry) ∅).1 item hitem depth type htype s hmentions
    obtain ⟨line, hline, rfl⟩ := List.mem_map.mp htext
    exact ⟨line, hline, hbehind⟩

/-! ## Trees -/

/-- The lines of what stands in a tree; those of a block are only the one that opens it. -/
def Part.lines (depth : Nat) : Part Item → List Line
  | .one item => item.lines depth
  | .block name => [⟨depth, blockLine depth name⟩]

mutual

/-- The lines of what stands in a tree are lines of the tree. -/
theorem Tree.lines_subset {place : List String} {part : Part Item} :
    ∀ (tree : Tree) (around : List String), (place, part) ∈ tree.located around →
      part.lines place.length ⊆ tree.lines around.length
  | .item only, around, h => by
    rw [located, List.mem_singleton] at h
    obtain ⟨rfl, rfl⟩ := Prod.mk.inj h
    exact List.Subset.refl _
  | .block name lead body, around, h => by
    rw [located, List.mem_cons] at h
    rw [lines]
    obtain h | h := h
    · obtain ⟨rfl, rfl⟩ := Prod.mk.inj h
      refine List.cons_subset.mpr ⟨?_, List.nil_subset _⟩
      exact List.mem_append_left _ (List.mem_append_right _ List.mem_cons_self)
    · have hbody := Tree.linesOf_subset body (around ++ [name]) h
      rw [List.length_append] at hbody
      intro line hline
      exact List.mem_append_left _ (List.mem_append_right _ (.tail _ (hbody hline)))

/-- What stands in a tree has its lines among those of the tree. -/
theorem Tree.linesOf_subset {place : List String} {part : Part Item} :
    ∀ (trees : List Tree) (around : List String), (place, part) ∈ Tree.locatedOf around trees →
      part.lines place.length ⊆ Tree.linesOf around.length trees
  | [], around, h => by cases h
  | tree :: rest, around, h => by
    rw [Tree.locatedOf, List.mem_append] at h
    rw [Tree.linesOf]
    obtain h | h := h
    · exact List.Subset.trans (Tree.lines_subset tree around h) (List.subset_append_left _ _)
    · exact List.Subset.trans (Tree.linesOf_subset rest around h) (List.subset_append_right _ _)

end

end Declaration

end Ambient
