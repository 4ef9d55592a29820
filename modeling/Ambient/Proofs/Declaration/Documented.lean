import Ambient.Proofs.Declaration.Signatures

/-!
# Documented parameters

Two recursions go through the parameters of a function. The comment has a tag for every parameter
and for every entry of an option object, at any depth, and calls each by its own name. The signature
declares a parameter by a name that can be declared, and an entry by the key that it stands under.
So both give a path for every place, in the same order, and the same paths exactly if every name can
be declared as it is and every entry has its key as its name.
-/

namespace Ambient

open Api

/-! ## What is documented -/

namespace Comment

mutual

/-- The paths that a parameter is documented at, each with what is said there; `front` is what
stands in front of its name. -/
def documented (front : String) : Parameter → List (String × ParameterInfo)
  | .mk info type => (front ++ info.name, info) :: documentedIn (front ++ info.name) type

/-- The paths that the entries of an option object are documented at. -/
def documentedIn (path : String) : ParameterType → List (String × ParameterInfo)
  | .shape entries => documentedAll (path ++ ".") entries
  | .unspecified | .declared _ => []

/-- The paths that the entries of a list are documented at. -/
def documentedAll (front : String) : List (String × Parameter) → List (String × ParameterInfo)
  | [] => []
  | (_, entry) :: rest => documented front entry ++ documentedAll front rest

end

/-- The tag at a documented path. -/
def tagAt (place : String × ParameterInfo) : String := parameterTag place.1 place.2

mutual

/-- The tags of a parameter are those at the paths it is documented at. -/
theorem parameterTags_eq (front : String) :
    ∀ p : Parameter, parameterTags front p = (documented front p).map tagAt
  | .mk info type => by
    rw [parameterTags, documented, typeTags_eq (front ++ info.name) type]
    rfl

/-- The tags of a parameter's type are those at the paths that the entries of it are documented at.
-/
theorem typeTags_eq (path : String) :
    ∀ type : ParameterType, typeTags path type = (documentedIn path type).map tagAt
  | .shape entries => by rw [typeTags, documentedIn, entryTags_eq (path ++ ".") entries]
  | .unspecified | .declared _ => rfl

/-- The tags of the entries of an option object are those at the paths they are documented at. -/
theorem entryTags_eq (front : String) : ∀ entries : List (String × Parameter),
    entryTags front entries = (documentedAll front entries).map tagAt
  | [] => rfl
  | (_, entry) :: rest => by
    rw [entryTags, documentedAll, List.map_append, parameterTags_eq front entry,
      entryTags_eq front rest]

end

/-- Whether a tag is that of a parameter. -/
def isParameterTag (tag : String) : Bool := "@param ".toList.isPrefixOf tag.toList

/-- A tag at a documented path is that of a parameter. -/
theorem isParameterTag_tagAt (place : String × ParameterInfo) :
    isParameterTag (tagAt place) = true := by
  rw [isParameterTag, List.isPrefixOf_iff_prefix, tagAt, parameterTag]
  split
  · simp only [String.toList_append, List.append_assoc]
    exact List.prefix_append _ _
  · rw [String.toList_append]
    exact List.prefix_append _ _

/-- How the tags start that are not those of parameters. -/
def otherStarts : List String :=
  ["@since ", "@deprecated", "@experimental", "@returns ", "@throws", "@override"]

/-- A tag with another start is not that of a parameter. -/
theorem isParameterTag_of_start {start : String} (h : start ∈ otherStarts) (rest : String) :
    isParameterTag (start ++ rest) = false := by
  rw [isParameterTag, String.toList_append]
  simp only [otherStarts, List.mem_cons, List.not_mem_nil, or_false] at h
  obtain rfl | rfl | rfl | rfl | rfl | rfl := h
  all_goals rfl

/-- The tags for the documentation of a symbol are not those of parameters. -/
theorem exists_start_ofDoc (doc : Doc) :
    ∀ tag ∈ (ofDoc doc).tags, ∃ start ∈ otherStarts, ∃ rest, tag = start ++ rest := by
  intro tag htag
  obtain htag | hexperimental := List.mem_append.mp htag
  · obtain hsince | hdeprecation := List.mem_append.mp htag
    · obtain ⟨version, -, rfl⟩ := Option.map_eq_some_iff.mp (Option.mem_toList.mp hsince)
      exact ⟨"@since ", by decide, version, rfl⟩
    · obtain ⟨notice, -, rfl⟩ := Option.map_eq_some_iff.mp (Option.mem_toList.mp hdeprecation)
      exact ⟨"@deprecated", by decide, _, String.append_assoc ..⟩
  · obtain ⟨notice, -, rfl⟩ := Option.map_eq_some_iff.mp (Option.mem_toList.mp hexperimental)
    exact ⟨"@experimental", by decide, _, String.append_assoc ..⟩

/-- Nothing else in the comment of a function has a tag of a parameter. -/
theorem filter_tags_ofFunction (typeName : DeclaredType → String) (f : Function) :
    (ofFunction typeName f).tags.filter isParameterTag
      = (f.parameters.flatMap (documented "")).map tagAt := by
  have hother (tags : List String)
      (h : ∀ tag ∈ tags, ∃ start ∈ otherStarts, ∃ rest, tag = start ++ rest) :
      tags.filter isParameterTag = [] := by
    refine List.filter_eq_nil_iff.mpr fun tag htag => ?_
    obtain ⟨start, hstart, rest, rfl⟩ := h tag htag
    rw [isParameterTag_of_start hstart]
    exact Bool.false_ne_true
  have hparameters : f.parameters.flatMap (parameterTags "")
      = (f.parameters.flatMap (documented "")).map tagAt := by
    rw [List.map_flatMap]
    exact List.flatMap_congr fun p _ => parameterTags_eq "" p
  -- Of all the tags put together only those of the parameters start like one.
  have hkept (places : List (String × ParameterInfo)) :
      (places.map tagAt).filter isParameterTag = places.map tagAt := by
    refine List.filter_eq_self.mpr fun tag htag => ?_
    obtain ⟨place, -, rfl⟩ := List.mem_map.mp htag
    exact isParameterTag_tagAt place
  have hdoc := hother (ofDoc f.doc).tags (exists_start_ofDoc f.doc)
  have hreturns : (f.returns.bind returnTag).toList.filter isParameterTag = [] := by
    refine hother _ fun tag htag => ?_
    obtain ⟨outcome, -, hreturn⟩ := Option.bind_eq_some_iff.mp (Option.mem_toList.mp htag)
    obtain ⟨description, -, rfl⟩ := Option.map_eq_some_iff.mp hreturn
    exact ⟨"@returns ", by decide, _, rfl⟩
  have hthrows : (f.throws.map (throwTag typeName)).filter isParameterTag = [] := by
    refine hother _ fun tag htag => ?_
    obtain ⟨outcome, -, rfl⟩ := List.mem_map.mp htag
    exact ⟨"@throws", by decide, _, String.append_assoc ..⟩
  have hoverride : (if f.overwrites then ["@override"] else []).filter isParameterTag = [] := by
    refine hother _ fun tag htag => ⟨"@override", by decide, "", ?_⟩
    split at htag
    · rw [List.mem_singleton.mp htag]
      rfl
    · cases htag
  rw [ofFunction]
  simp only [List.filter_append, hdoc, hreturns, hthrows, hoverride, hparameters, hkept,
    List.nil_append, List.append_nil]

end Comment

/-! ## What is declared -/

namespace TypeExpr

open Declaration (Resolver Writing Page)

mutual

/-- A written type of a parameter: the text of a type, or an option object by its fields. -/
inductive Layout where
  | plain (text : String)
  | object (fields : List Field)

/-- A field of a written option object, with its key. -/
inductive Field where
  | mk (key : String) (isMarked : Bool) (layout : Layout)

end

mutual

/-- The text of a written type. -/
def Layout.text : Layout → String
  | .plain text => text
  | .object fields => "\x7b " ++ " ".intercalate (Field.texts fields) ++ " \x7d"

/-- The text of a field. -/
def Field.text : Field → String
  | .mk key isMarked layout =>
    Identifier.propertyKey key ++ (if isMarked then "?" else "") ++ ": " ++ layout.text ++ ";"

/-- The texts of fields. -/
def Field.texts : List Field → List String
  | [] => []
  | field :: rest => field.text :: Field.texts rest

end

mutual

/-- The paths that a written type at a path declares: those of its fields, by their keys. -/
def Layout.paths (path : String) : Layout → List String
  | .plain _ => []
  | .object fields => Field.pathsOf (path ++ ".") fields

/-- The paths that a field declares; `front` is what stands in front of its key. -/
def Field.paths (front : String) : Field → List String
  | .mk key _ layout => (front ++ key) :: layout.paths (front ++ key)

/-- The paths that fields declare. -/
def Field.pathsOf (front : String) : List Field → List String
  | [] => []
  | field :: rest => field.paths front ++ Field.pathsOf front rest

end

variable (r : Resolver)

mutual

/-- Writes the type of a parameter by its fields. -/
def layOut : ParameterType → Writing Layout
  | .unspecified => pure (.plain "any")
  | .declared type => do return .plain (← writeDeclared r type)
  | .shape [] => pure (.plain "object")
  | .shape (entry :: rest) => do return .object (← layOutAll (entry :: rest))

/-- Writes a parameter as a field under a key. -/
def layOutEntry (key : String) : Parameter → Writing Field
  | .mk info type => do
    return .mk key (info.isOptional || info.default.isSome) (← layOut type)

/-- Writes the entries of an option object as fields. -/
def layOutAll : List (String × Parameter) → Writing (List Field)
  | [] => return []
  | (key, entry) :: rest => do
    let field ← layOutEntry key entry
    return field :: (← layOutAll rest)

end

mutual

/-- The type of a parameter is written as the text of its fields. -/
theorem writeParameterType_eq_layOut : ∀ type : ParameterType,
    writeParameterType r type = do return (← layOut r type).text
  | .unspecified => by
    rw [writeParameterType, layOut]
    simp [Layout.text]
  | .declared type => by
    rw [writeParameterType, layOut]
    simp [Layout.text]
  | .shape [] => by
    rw [writeParameterType, layOut]
    simp [Layout.text]
  | .shape (entry :: rest) => by
    rw [writeParameterType, layOut, writeEntries_eq_layOutAll (entry :: rest)]
    simp [Layout.text]

/-- An entry is written as the text of the field that it is laid out as. -/
theorem writeEntry_eq_layOutEntry (key : String) : ∀ entry : Parameter,
    writeEntry r key entry = do return (← layOutEntry r key entry).text
  | .mk info type => by
    rw [writeEntry, layOutEntry, writeParameterType_eq_layOut type]
    simp [Field.text]

/-- Entries are written as the texts of the fields that they are laid out as. -/
theorem writeEntries_eq_layOutAll : ∀ entries : List (String × Parameter),
    writeEntries r entries = do return Field.texts (← layOutAll r entries)
  | [] => by
    rw [writeEntries, layOutAll]
    simp [Field.texts]
  | (key, entry) :: rest => by
    rw [writeEntries, layOutAll, writeEntry_eq_layOutEntry key entry,
      writeEntries_eq_layOutAll rest]
    simp [Field.texts]

end

/-! ### By keys -/

mutual

/-- The paths of the entries of an option object by their keys, whatever they are called. -/
def keyedIn (path : String) : ParameterType → List String
  | .shape entries => keyedAll (path ++ ".") entries
  | .unspecified | .declared _ => []

/-- The paths of an entry under a key. -/
def keyed (front key : String) : Parameter → List String
  | .mk _ type => (front ++ key) :: keyedIn (front ++ key) type

/-- The paths of the entries of a list. -/
def keyedAll (front : String) : List (String × Parameter) → List String
  | [] => []
  | (key, entry) :: rest => keyed front key entry ++ keyedAll front rest

end

variable {r}

mutual

/-- Whatever the page, the fields of a written type are the entries by their keys. -/
theorem paths_layOut (path : String) : ∀ (type : ParameterType) (page : Page),
    ((layOut r type).run page).1.paths path = keyedIn path type
  | .unspecified, _ | .declared _, _ | .shape [], _ => by
    rw [layOut, keyedIn]
    rfl
  | .shape (entry :: rest), page => by
    rw [layOut, keyedIn, ← pathsOf_layOutAll (path ++ ".") (entry :: rest) page]
    rfl

/-- A field declares the paths of its entry by keys. -/
theorem paths_layOutEntry (front key : String) : ∀ (entry : Parameter) (page : Page),
    ((layOutEntry r key entry).run page).1.paths front = keyed front key entry
  | .mk info type, page => by
    rw [layOutEntry, keyed, ← paths_layOut (front ++ key) type page]
    rfl

/-- Fields declare the paths of their entries by keys. -/
theorem pathsOf_layOutAll (front : String) : ∀ (entries : List (String × Parameter)) (page : Page),
    Field.pathsOf front ((layOutAll r entries).run page).1 = keyedAll front entries
  | [], _ => by
    rw [layOutAll, keyedAll]
    rfl
  | (key, entry) :: rest, page => by
    rw [layOutAll, keyedAll, ← paths_layOutEntry front key entry page,
      ← pathsOf_layOutAll front rest ((layOutEntry r key entry).run page).2]
    rfl

end

mutual

/-- Whether every entry of an option object, at any depth, has its key as its name. -/
def isNamedByKeys : ParameterType → Bool
  | .shape entries => areNamedByKeys entries
  | .unspecified | .declared _ => true

/-- Whether an entry has its key as its name, and so have all entries in it. -/
def isNamed (key : String) : Parameter → Bool
  | .mk info type => info.name == key && isNamedByKeys type

/-- Whether the entries of a list have their keys as their names. -/
def areNamedByKeys : List (String × Parameter) → Bool
  | [] => true
  | (key, entry) :: rest => isNamed key entry && areNamedByKeys rest

end

open Comment (documented documentedIn documentedAll)

mutual

/-- The comment and the signature have a path for every entry. -/
theorem length_documentedIn (path other : String) : ∀ type : ParameterType,
    (documentedIn path type).length = (keyedIn other type).length
  | .unspecified | .declared _ => rfl
  | .shape entries => by
    rw [documentedIn, keyedIn]
    exact length_documentedAll _ _ entries

/-- An entry is documented at as many paths as it declares. -/
theorem length_documented (front other key : String) : ∀ entry : Parameter,
    (documented front entry).length = (keyed other key entry).length
  | .mk info type => by
    rw [documented, keyed, List.length_cons, List.length_cons,
      length_documentedIn _ (other ++ key) type]

/-- Entries are documented at as many paths as they declare. -/
theorem length_documentedAll (front other : String) : ∀ entries : List (String × Parameter),
    (documentedAll front entries).length = (keyedAll other entries).length
  | [] => rfl
  | (key, entry) :: rest => by
    rw [documentedAll, keyedAll, List.length_append, List.length_append,
      length_documented front other key entry, length_documentedAll front other rest]

end

mutual

/-- Entries are documented under their keys exactly if these are their names. -/
theorem documentedIn_eq_iff (path : String) : ∀ type : ParameterType,
    (documentedIn path type).map Prod.fst = keyedIn path type ↔ isNamedByKeys type = true
  | .unspecified | .declared _ => iff_of_true rfl rfl
  | .shape entries => by
    rw [documentedIn, keyedIn, isNamedByKeys]
    exact documentedAll_eq_iff (path ++ ".") entries

/-- An entry is documented at the paths it declares exactly if it and all below it are named by
their keys. -/
theorem documented_eq_iff (front key : String) : ∀ entry : Parameter,
    (documented front entry).map Prod.fst = keyed front key entry ↔ isNamed key entry = true
  | .mk info type => by
    rw [documented, keyed, isNamed, List.map_cons, List.cons_eq_cons, String.append_right_inj,
      Bool.and_eq_true, beq_iff_eq]
    refine and_congr_right fun hname => ?_
    rw [hname]
    exact documentedIn_eq_iff (front ++ key) type

/-- Entries are documented at the paths they declare exactly if they and all below them are named by
their keys. -/
theorem documentedAll_eq_iff (front : String) : ∀ entries : List (String × Parameter),
    (documentedAll front entries).map Prod.fst = keyedAll front entries ↔
      areNamedByKeys entries = true
  | [] => iff_of_true rfl rfl
  | (key, entry) :: rest => by
    -- Both lists have one path for each place, so that they are equal only entry by entry.
    have hlength :
        ((documented front entry).map Prod.fst).length = (keyed front key entry).length := by
      rw [List.length_map, length_documented front front key entry]
    rw [documentedAll, keyedAll, areNamedByKeys, List.map_append,
      List.append_eq_append_iff_of_size_eq_left hlength, Bool.and_eq_true]
    exact and_congr (documented_eq_iff front key entry) (documentedAll_eq_iff front rest)

end

end TypeExpr

/-! ## Signatures -/

namespace Declaration

open Comment (documented)
open Identifier (parameterName isBinding)
open TypeExpr (Layout keyedIn isNamedByKeys)

/-- The paths that parameters declare: their names, each with the paths of its type behind it. -/
def declaredPaths (slots : List Slot) (layouts : List Layout) : List String :=
  (List.zipWith (fun slot layout => slot.name :: layout.paths slot.name) slots layouts).flatten

/-- The type of a parameter is written by its fields, and may be undefined besides. -/
def Slot.HasLayout (slot : Slot) (layout : Layout) : Prop :=
  slot.type = layout.text ∨ slot.type = layout.text ++ " | undefined"

/-- The paths that are declared for a parameter. -/
def declaredOf (p : Parameter) : List String :=
  parameterName p.name :: keyedIn (parameterName p.name) p.type

/-- Whether a parameter can be declared by its name, and all entries in it have their keys as their
names. -/
def isNamedAsDeclared (p : Parameter) : Bool := isBinding p.name && isNamedByKeys p.type

/-- A parameter is documented at as many paths as it declares. -/
theorem length_documented_eq (p : Parameter) :
    (documented "" p).length = (declaredOf p).length := by
  obtain ⟨info, type⟩ := p
  rw [documented, declaredOf, List.length_cons, List.length_cons]
  exact congrArg _ (TypeExpr.length_documentedIn _ _ type)

/-- A parameter is documented as it is declared exactly if it is named so. -/
theorem documented_eq_declaredOf_iff (p : Parameter) :
    (documented "" p).map Prod.fst = declaredOf p ↔ isNamedAsDeclared p = true := by
  obtain ⟨info, type⟩ := p
  rw [documented, declaredOf, isNamedAsDeclared, List.map_cons, List.cons_eq_cons,
    String.empty_append, Bool.and_eq_true, ← Identifier.parameterName_eq_self_iff]
  refine Iff.trans (and_congr_left' eq_comm) (and_congr_right fun hname => ?_)
  change parameterName info.name = info.name at hname
  change _ = keyedIn (parameterName info.name) type ↔ _
  rw [hname]
  exact TypeExpr.documentedIn_eq_iff info.name type

/-- Parameters are documented as they are declared exactly if all are named so. -/
theorem documented_eq_iff (ps : List Parameter) :
    (ps.flatMap (documented "")).map Prod.fst = ps.flatMap declaredOf ↔
      ∀ p ∈ ps, isNamedAsDeclared p = true := by
  induction ps with
  | nil => exact iff_of_true rfl (List.forall_mem_nil _)
  | cons p rest ih =>
    have hlength : ((documented "" p).map Prod.fst).length = (declaredOf p).length := by
      rw [List.length_map, length_documented_eq]
    rw [List.flatMap_cons, List.flatMap_cons, List.map_append,
      List.append_eq_append_iff_of_size_eq_left hlength, List.forall_mem_cons]
    exact and_congr (documented_eq_declaredOf_iff p) ih

/-- Parameters are documented at as many paths as they declare. -/
theorem length_documented (ps : List Parameter) :
    (ps.flatMap (documented "")).length = (ps.flatMap declaredOf).length := by
  rw [List.length_flatMap, List.length_flatMap]
  exact congrArg _ (List.map_congr_left fun p _ => length_documented_eq p)

namespace Writer

variable (w : Writer)

/-- Writes the types of parameters by their fields. -/
def layouts : List Parameter → Writing (List Layout)
  | [] => return []
  | p :: rest => do
    let first ← TypeExpr.layOut w.toResolver p.type
    return first :: (← layouts rest)

/-- A parameter is written with the type that its fields give, and leaves the page as they do. -/
theorem run_slot (p : Parameter) (requiredLater : Bool) (page : Page) :
    let layout := (TypeExpr.layOut w.toResolver p.type).run page
    ((w.slot p requiredLater).run page).1.HasLayout layout.1 ∧
      ((w.slot p requiredLater).run page).2 = layout.2 := by
  intro layout
  rw [slot, TypeExpr.writeParameterType_eq_layOut]
  cases p.mayBeLeftOut
  · exact ⟨.inl rfl, rfl⟩
  · cases requiredLater
    · exact ⟨.inl rfl, rfl⟩
    · exact ⟨.inr rfl, rfl⟩

/-- The first of several parameters is laid out first, and the others where it ends. -/
theorem run_layouts_cons (p : Parameter) (rest : List Parameter) (page : Page) :
    ((w.layouts (p :: rest)).run page).1
      = ((TypeExpr.layOut w.toResolver p.type).run page).1
        :: ((w.layouts rest).run ((TypeExpr.layOut w.toResolver p.type).run page).2).1 := rfl

/-- Parameters are written with the types that their fields give. -/
theorem hasLayout_slots (ps : List Parameter) (page : Page) :
    List.Forall₂ Slot.HasLayout ((w.slots ps).run page).1 ((w.layouts ps).run page).1 := by
  induction ps generalizing page with
  | nil => exact .nil
  | cons p rest ih =>
    obtain ⟨hlayout, hpage⟩ := w.run_slot p (rest.any fun later => !later.mayBeLeftOut) page
    rw [run_slots_cons, run_layouts_cons, hpage]
    exact .cons hlayout (ih _)

/-- The paths that are declared for parameters are those of declarable names and of keys. -/
theorem declaredPaths_eq (ps : List Parameter) (page : Page) :
    declaredPaths ((w.slots ps).run page).1 ((w.layouts ps).run page).1
      = ps.flatMap declaredOf := by
  induction ps generalizing page with
  | nil => rfl
  | cons p rest ih =>
    obtain ⟨-, hpage⟩ := w.run_slot p (rest.any fun later => !later.mayBeLeftOut) page
    obtain ⟨type, hslot⟩ := w.exists_run_slot p (rest.any fun later => !later.mayBeLeftOut) page
    have hrest := ih ((TypeExpr.layOut w.toResolver p.type).run page).2
    rw [run_slots_cons, run_layouts_cons, hpage, hslot, List.flatMap_cons, ← hrest, declaredOf,
      ← TypeExpr.paths_layOut (parameterName p.name) p.type page]
    rfl

/-- The comment of a function has a tag for every place among its parameters, the entries of option
objects included, and its signature, or that of a constructor, declares a path for each of them, in
the same order. The paths are the same exactly if every parameter can be declared by its name and
every entry, at any depth, has its key as its name. -/
theorem documented_as_declared_iff (f : Function) (page : Page) :
    let places := f.parameters.flatMap (documented "")
    let slots := ((w.signature f).run page).1.parameters
    let layouts := ((w.layouts f.parameters).run page).1
    (w.functionComment f).tags.filter Comment.isParameterTag = places.map Comment.tagAt ∧
      ((w.constructorSignature f).run page).1.parameters = slots ∧
      List.Forall₂ Slot.HasLayout slots layouts ∧
      places.length = (declaredPaths slots layouts).length ∧
      (places.map Prod.fst = declaredPaths slots layouts ↔
        ∀ p ∈ f.parameters, isNamedAsDeclared p = true) := by
  intro places slots layouts
  have hslots : slots = ((w.slots f.parameters).run page).1 := w.parameters_signature f page
  have hpaths : declaredPaths slots layouts = f.parameters.flatMap declaredOf := by
    rw [hslots]
    exact w.declaredPaths_eq f.parameters page
  refine ⟨Comment.filter_tags_ofFunction w.typeName f, hslots.symm, ?_, ?_, ?_⟩
  · rw [hslots]
    exact w.hasLayout_slots f.parameters page
  · rw [hpaths]
    exact length_documented f.parameters
  · rw [hpaths]
    exact documented_eq_iff f.parameters

/-- A function with an option object that has one entry, under the key `delay`. -/
def scheduled (name : String) : Function :=
  { (default : Function) with
    kind := .functionDesc
    name := "schedule"
    parameters := [.mk ⟨none, "options", none, false, none, .unset⟩ (.shape
      [("delay", .mk ⟨none, name, none, true, none, .unset⟩
        (.declared (.simple ⟨"int", false, .unset⟩)))])] }

/-- An entry named by its key is documented under the path that it declares. -/
theorem documented_as_declared_iff_scheduled :
    declaredPaths ((blank.signature (scheduled "delay")).run default).1.parameters
        ((blank.layouts (scheduled "delay").parameters).run default).1
      = ["options", "options.delay"] := by
  obtain ⟨-, -, -, -, hiff⟩ := blank.documented_as_declared_iff (scheduled "delay") default
  exact (hiff.mpr (by decide)).symm

/-- An entry with another name than its key is documented under that, and declared under the key. -/
theorem not_documented_as_declared_scheduled :
    (blank.functionComment (scheduled "timeout")).lines
        = ["/**", " * @param options", " * @param [options.timeout]", " */"] ∧
      ((blank.signature (scheduled "timeout")).run default).1.text
        = "(options: \x7b delay?: number; \x7d): void" ∧
      ((scheduled "timeout").parameters.flatMap (documented "")).map Prod.fst
        = ["options", "options.timeout"] ∧
      declaredPaths ((blank.signature (scheduled "timeout")).run default).1.parameters
          ((blank.layouts (scheduled "timeout").parameters).run default).1
        = ["options", "options.delay"] := by
  refine ⟨?_, ?_, ?_, ?_⟩ <;> decide +kernel

end Writer

end Declaration

end Ambient
