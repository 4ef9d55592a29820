import Ambient.Proofs.Declaration.Writing
import Ambient.Proofs.Declaration.Entries
import Ambient.Proofs.Reference
import Ambient.Proofs.TypeExpr.Typos

/-!
# The names that a block uses

Which symbols and names of the environment are used in what is written, in the order in which they
are spelled. Writing leaves the place that these uses lead to, one after another (a block has the
imports for them then), and what is written depends on the page only through their spellings.
-/

namespace Ambient

open Reference (Use Imports)
open Declaration (Resolver Writing)

/-! ## Uses of types -/

namespace TypeExpr

/-- The names of the environment in the written form of a name that has a fixed meaning. -/
def fixedUses (word : String) : List Use :=
  if ["function", "Function"].contains word then [.environment "Function"]
  else if ["map", "Object"].contains word then [.environment "Record"]
  else if word = "Promise" then [.environment "Promise"]
  else if word = "DomRef" then [.environment "Element"]
  else []

/-- What a name uses, its arguments apart. -/
def wordUses (r : Resolver) (word : String) : List Use :=
  if (builtin? word []).isSome then fixedUses word
  else if word.toList.contains '.' || r.table.contains word then
    match r.resolve word with
    | .ok symbol => [.symbol symbol]
    | .error _ => []
  else if environmentNames.contains word then [.environment word]
  else []

mutual

/-- What an expression uses. -/
def uses (r : Resolver) : TypeExpr → List Use
  | .name word args => usesOfAll r args ++ wordUses r word
  | .array item => uses r item
  | .union members => usesOfAll r members
  | .keyof operand => uses r operand
  | .function => [.environment "Function"]
  | .literal _ | .unparsed _ => []

/-- What the expressions of a list use. -/
def usesOfAll (r : Resolver) : List TypeExpr → List Use
  | [] => []
  | expr :: rest => uses r expr ++ usesOfAll r rest

end

/-- What an occurrence of a type uses. -/
def occurrenceUses (r : Resolver) (type : Api.SimpleType) : List Use :=
  uses r (ofSimple r.directives type)

end TypeExpr

namespace Declaration

open Api

/-! ## Uses of entries -/

namespace Writer

variable (w : Writer)

/-- What several occurrences of types use. -/
def occurrencesUses (types : List SimpleType) : List Use :=
  types.flatMap (TypeExpr.occurrenceUses w.toResolver)

/-- What the type of a variable uses. -/
def variableUses (v : Variable) : List Use :=
  w.occurrencesUses (v.type.elim [] DeclaredType.occurrences)

/-- What the types of parameters use. -/
def parameterUses (parameters : List Parameter) : List Use :=
  parameters.flatMap fun p => w.occurrencesUses p.type.occurrences

/-- What the signature of a function uses. -/
def signatureUses (f : Function) : List Use :=
  w.parameterUses f.parameters
    ++ w.occurrencesUses ((f.returns.bind Outcome.type).elim [] DeclaredType.occurrences)

/-- What a supertype uses. -/
def supertypeUses (fqn : String) : List Use :=
  match w.resolve (w.directives.correctName fqn) with
  | .ok symbol => [.symbol symbol]
  | .error _ => []

/-- What an implemented interface uses. -/
def implementedUses (fqn : String) : List Use :=
  if w.directives.isBadInterface fqn then [] else w.supertypeUses fqn

/-- What a member uses, if it is kept. -/
def memberUses (title : Title) (uses : List Use) : List Use :=
  if keepsMember w.directives title then uses else []

/-- What the fields or properties of a list use. -/
def propertyUses (list : List Variable) : List Use :=
  list.flatMap fun v => w.memberUses (w.nameOf.variableTitle .property v) (w.variableUses v)

/-- What the methods of a list use. -/
def methodUses (list : List Function) : List Use :=
  list.flatMap fun f => w.memberUses (w.nameOf.functionTitle .method f) (w.signatureUses f)

/-- What a class, interface or enum uses. -/
def typeUses : TypeNode → List Use
  | .classType c =>
    c.base.elim [] w.supertypeUses ++ c.implemented.flatMap w.implementedUses
      ++ c.constructors.flatMap (fun f =>
        w.memberUses (w.nameOf.functionTitle .construct f) (w.parameterUses f.parameters))
      ++ w.propertyUses c.fields ++ w.methodUses c.methods
  | .interfaceType i =>
    i.bases.flatMap w.supertypeUses ++ w.propertyUses i.properties ++ w.methodUses i.methods
  | .enumType _ => []

/-- What an entry uses, unless it is left out. -/
def entryUses : Entry → List Use
  | .constant v =>
    if keepsItem w.directives ⟨w.nameOf.variableTitle .constant v, []⟩ then w.variableUses v
    else []
  | .function f =>
    if keepsItem w.directives ⟨w.nameOf.functionTitle .function f, []⟩ then w.signatureUses f
    else []
  | .aggregate n => if w.emitted.contains (w.nameOf n.link) then w.typeUses n else []
  | .nameSpace s =>
    w.propertyUses s.constants ++ s.functions.flatMap fun f =>
      if !w.directives.isBadSymbol (w.nameOf f.link) then w.signatureUses f else []

/-- What the block of a namespace uses. -/
def blockUses (ns : Namespace) : List Use := (w.blockEntries ns).flatMap w.entryUses

end Writer

/-! ## Lists of what is written -/

/-- Writing a list is writing its front and then the rest. -/
theorem writeSome_append {α β : Type} (write : α → Writing (Option β)) (xs ys : List α) :
    writeSome write (xs ++ ys) = do
      let first ← writeSome write xs
      return first ++ (← writeSome write ys) := by
  induction xs with
  | nil => simp [writeSome]
  | cons x rest ih =>
    simp only [List.cons_append, writeSome, ih, bind_assoc, pure_bind, List.append_assoc]

/-- Writing what a list is mapped to is writing every element by what it is mapped to. -/
theorem writeSome_map {α β γ : Type} (write : β → Writing (Option γ)) (f : α → β) (xs : List α) :
    writeSome write (xs.map f) = writeSome (fun x => write (f x)) xs := by
  induction xs with
  | nil => rfl
  | cons x rest ih => rw [List.map_cons, writeSome, writeSome, ih]

/-- If nothing is left out, writing some of a list is writing all of it. -/
theorem writeSome_some {α β : Type} (write : α → Writing β) (xs : List α) :
    writeSome (fun x => do return some (← write x)) xs = xs.mapM write := by
  induction xs with
  | nil => rfl
  | cons x rest ih =>
    simp only [writeSome, ih, bind_assoc, pure_bind, List.mapM_cons, Option.toList_some,
      List.singleton_append]

/-! ## Writing at a place -/

/-- An action uses names one after another: it leaves the place that this leads to, and what it
answers depends on the page only through the spellings. -/
structure Refers {α : Type} (m : Writing α) (uses : List Use) : Prop where
  place : ∀ place warnings, (m.run ⟨place, warnings⟩).2.place = place.after uses
  answer : ∀ place other warnings others, place.spellings uses = other.spellings uses →
    (m.run ⟨place, warnings⟩).1 = (m.run ⟨other, others⟩).1

namespace Refers

variable {α β : Type} {m : Writing α} {k : α → Writing β} {us vs : List Use}

/-- An action that only answers uses nothing. -/
theorem pure (a : α) : Refers (Pure.pure a : Writing α) [] := ⟨fun _ _ => rfl, fun _ _ _ _ _ => rfl⟩

/-- The names of the environment are spelled as they are. -/
theorem environment (a : α) (name : String) :
    Refers (Pure.pure a : Writing α) [.environment name] :=
  ⟨fun _ _ => rfl, fun _ _ _ _ _ => rfl⟩

/-- A warning uses nothing. -/
theorem warn (kind : Warning.Kind) (message : String) :
    Refers (Declaration.warn kind message) [] :=
  ⟨fun _ _ => rfl, fun _ _ _ _ _ => rfl⟩

/-- Spelling a symbol uses the symbol and nothing else. -/
theorem refer (s : Symbol) : Refers (Declaration.refer s) [.symbol s] where
  place _ _ := rfl
  answer _ _ _ _ h := (List.cons.inj h).1

/-- The page that an action leaves. -/
theorem run_snd (h : Refers m us) (place : Reference.Place) (warnings : Warnings) :
    (m.run ⟨place, warnings⟩).2 = ⟨place.after us, (m.run ⟨place, warnings⟩).2.warnings⟩ := by
  rw [← h.place place warnings]

/-- Two actions, one after the other. -/
theorem bind (h : Refers m us) (hk : ∀ a, Refers (k a) vs) : Refers (m >>= k) (us ++ vs) where
  place place warnings := by
    change ((k (m.run ⟨place, warnings⟩).1).run (m.run ⟨place, warnings⟩).2).2.place = _
    rw [h.run_snd, (hk _).place, Reference.Place.after_append]
  answer place other warnings others hsame := by
    rw [Reference.Place.spellings_append, Reference.Place.spellings_append] at hsame
    have hlengths := (place.length_spellings us).trans (other.length_spellings us).symm
    obtain ⟨hfirst, hrest⟩ := List.append_inj hsame hlengths
    change ((k (m.run ⟨place, warnings⟩).1).run (m.run ⟨place, warnings⟩).2).1
      = ((k (m.run ⟨other, others⟩).1).run (m.run ⟨other, others⟩).2).1
    rw [h.run_snd place, h.run_snd other, h.answer place other warnings others hfirst]
    exact (hk _).answer _ _ _ _ hrest

/-- An action whose answer is only put into a value. -/
theorem map (h : Refers m us) (f : α → β) : Refers (m >>= fun a => Pure.pure (f a)) us := by
  have hboth := h.bind fun a => pure (f a)
  rwa [List.append_nil] at hboth

/-- Two actions whose answers are only put into a value. -/
theorem map₂ {γ : Type} {n : Writing β} (h : Refers m us) (hn : Refers n vs) (f : α → β → γ) :
    Refers (m >>= fun a => n >>= fun b => Pure.pure (f a b)) (us ++ vs) :=
  h.bind fun a => hn.map (f a)

/-- An action after one that uses nothing and always answers the same. -/
theorem after {a : α} (hanswer : ∀ page, (m.run page).1 = a) (h : Refers m []) (hk : Refers (k a) vs) :
    Refers (m >>= k) vs := by
  have hanswered : m >>= k = m >>= fun _ => k a := by
    funext page
    change (k (m.run page).1).run (m.run page).2 = (k a).run (m.run page).2
    rw [hanswer]
  rw [hanswered]
  exact h.bind fun _ => hk

/-- What is written only if it is kept. -/
theorem kept {keep : Writing Bool} {kept : Bool} {body : Writing α} {notes : List Warning}
    (hanswer : Writes keep id kept notes) (hkeep : Refers keep []) (hbody : Refers body us) :
    Refers (keep >>= fun kept => if !kept then Pure.pure none else body >>= Pure.pure ∘ some)
      (if kept then us else []) := by
  refine hkeep.after hanswer.answer ?_
  cases kept with
  | false => exact pure none
  | true => exact hbody.map some

/-- What is written unless it is left out. -/
theorem onlyIf {condition : Bool} {body : Writing (Option α)} (h : Refers body us) :
    Refers (if !condition then Pure.pure none else body) (if condition then us else []) := by
  cases condition with
  | false => exact pure none
  | true => exact h

/-- Elements that are written one by one. -/
theorem mapM {write : α → Writing β} {uses : α → List Use} (h : ∀ x, Refers (write x) (uses x))
    (xs : List α) : Refers (xs.mapM write) (xs.flatMap uses) := by
  induction xs with
  | nil => exact pure []
  | cons x rest ih =>
    rw [List.mapM_cons, List.flatMap_cons]
    exact (h x).map₂ ih _

/-- Elements that are written one by one, without those that are left out. -/
theorem writeSome {write : α → Writing (Option β)} {uses : α → List Use}
    (h : ∀ x, Refers (write x) (uses x)) (xs : List α) :
    Refers (Declaration.writeSome write xs) (xs.flatMap uses) := by
  induction xs with
  | nil => exact pure []
  | cons x rest ih =>
    rw [Declaration.writeSome, List.flatMap_cons]
    exact (h x).map₂ ih _

end Refers

end Declaration

/-! ## Types -/

namespace TypeExpr

open Declaration (Refers)

variable (r : Resolver)

/-- Text that is the same at every place uses at most a name of the environment. -/
theorem refers_fixed (text word : String) :
    Refers (pure text : Writing String) (fixedUses word) := by
  unfold fixedUses
  repeat' split
  all_goals first | exact .environment _ _ | exact .pure _

/-- A name with arguments uses what its word stands for, and the arguments are text. -/
theorem refers_writeName (word : String) (args : List String) :
    Refers (writeName r word args) (wordUses r word) := by
  rw [writeName, wordUses, ← isSome_builtin? word args]
  cases builtin? word args with
  | some text => exact refers_fixed text word
  | none =>
    simp only [Option.isSome_none, Bool.false_eq_true, if_false]
    split
    · cases r.resolve word with
      | ok symbol => exact (Refers.refer symbol).map _
      | error cause => exact (Refers.warn _ _).map _
    · split
      · exact .environment _ _
      · exact (Refers.warn _ _).map _

/-- The words of the language among the written forms of types. -/
def languageWords : List String :=
  ["string", "number", "boolean", "any", "void", "undefined", "null", "never", "unknown", "this",
    "symbol", "bigint", "object"]

/-- What a name is written as, given the spelling of what it uses. -/
inductive IsSpelled : List String → String → Prop where
  | name (name : String) (args : List String) : IsSpelled [name] (withArguments name args)
  | word {text : String} (h : text ∈ languageWords) : IsSpelled [] text
  | array (item : String) : IsSpelled [] (arrayOf item)

/-- The text for a builtin word is spelled by the uses that are fixed for the word. -/
theorem isSpelled_builtin? (place : Reference.Place) (word : String) (args : List String) :
    ∀ text ∈ builtin? word args, IsSpelled (place.spellings (fixedUses word)) text := by
  have hite (c : Prop) [Decidable c] {text other : Option String} {P : String → Prop}
      (hthen : c → ∀ t ∈ text, P t) (helse : ∀ t ∈ other, P t) :
      ∀ t ∈ if c then text else other, P t := by
    split
    · exact hthen ‹_›
    · exact helse
  have hword {words : List String} {text : String} (hunused : ∀ w ∈ words, fixedUses w = [])
      (htext : text ∈ languageWords) (h : words.contains word = true) :
      ∀ t ∈ some text, IsSpelled (place.spellings (fixedUses word)) t := by
    rintro _ ⟨⟩
    rw [hunused word (List.contains_iff_mem.mp h)]
    exact .word htext
  have hsame : ["void", "undefined", "null", "never", "unknown", "this", "symbol", "bigint",
      "object"] ⊆ languageWords := by simp [languageWords]
  unfold builtin?
  refine hite _ (hword (by decide) (by decide)) ?_
  refine hite _ (hword (by decide) (by decide)) ?_
  refine hite _ (hword (by decide) (by decide)) ?_
  refine hite _ (hword (by decide) (by decide)) ?_
  refine hite _ (fun h => hword (by decide) (hsame (List.contains_iff_mem.mp h)) h) ?_
  refine hite _ ?function (hite _ ?map (hite _ ?object (hite _ ?array (hite _ ?promise
    (hite _ ?element nofun)))))
  case function =>
    rintro h _ ⟨⟩
    rw [fixedUses, if_pos h]
    exact .name "Function" []
  case map =>
    rintro rfl _ ⟨⟩
    exact .name "Record" ["string", "any"]
  case object =>
    rintro rfl
    obtain _ | ⟨key, _ | ⟨value, rest⟩⟩ := args <;> rintro _ ⟨⟩
    · exact .name "Record" ["string", "any"]
    · exact .name "Record" ["string", key]
    · exact .name "Record" [key, value]
  case array =>
    intro h
    have hunused : fixedUses word = [] :=
      (by decide : ∀ w ∈ ["array", "Array"], fixedUses w = []) word (List.contains_iff_mem.mp h)
    rw [hunused]
    cases args <;> rintro _ ⟨⟩
    · exact .array "any"
    · exact .array _
  case promise =>
    rintro rfl _ ⟨⟩
    exact .name "Promise" [args.headD "any"]
  case element =>
    rintro rfl _ ⟨⟩
    exact .name "Element" []

/-- At any place, a name is written as the spelling of what it uses, with arguments behind it. If it
uses nothing, it is written as a word of the language or as an array. -/
theorem isSpelled_writeName_at (place : Reference.Place) (warnings : Warnings) (word : String)
    (args : List String) :
    IsSpelled (place.spellings (wordUses r word))
      ((writeName r word args).run ⟨place, warnings⟩).1 := by
  have hany : "any" ∈ languageWords := by decide
  rw [writeName, wordUses, ← isSome_builtin? word args]
  cases hfixed : builtin? word args with
  | some text => exact isSpelled_builtin? place word args text hfixed
  | none =>
    simp only [Option.isSome_none, Bool.false_eq_true, if_false]
    split
    · cases r.resolve word with
      | ok symbol => exact .name _ args
      | error cause => exact .word hany
    · split
      · exact .name word args
      · exact .word hany

/-- In a block, a name is written as it is spelled with the imports so far. -/
theorem isSpelled_writeName (i : Imports) (warnings : Warnings) (word : String)
    (args : List String) :
    IsSpelled (i.spellings (wordUses r word))
      ((writeName r word args).run ⟨.module i, warnings⟩).1 := by
  rw [← Reference.Place.spellings_module]
  exact isSpelled_writeName_at r _ warnings word args

mutual

/-- Writing an expression uses what the expression does. -/
theorem refers_write : ∀ expr : TypeExpr, Refers (write r expr) (uses r expr)
  | .name word args => by
    rw [write, uses]
    exact (refers_writeAll args).bind fun texts => refers_writeName r word texts
  | .array item => by
    rw [write, uses]
    exact (refers_write item).map _
  | .union members => by
    rw [write, uses]
    exact (refers_writeAll members).map _
  | .keyof operand => by
    rw [write, uses]
    exact (refers_write operand).map _
  | .literal text => by
    rw [write, uses]
    exact .pure text
  | .function => by
    rw [write, uses]
    exact .environment _ _
  | .unparsed raw => by
    rw [write, uses]
    exact (Refers.warn _ _).map _

/-- Expressions that are written one after another use what each of them uses, in their order. -/
theorem refers_writeAll : ∀ exprs : List TypeExpr, Refers (writeAll r exprs) (usesOfAll r exprs)
  | [] => by
    rw [writeAll, usesOfAll]
    exact .pure []
  | expr :: rest => by
    rw [writeAll, usesOfAll]
    exact (refers_write expr).map₂ (refers_writeAll rest) _

end

/-- A type expression uses what its occurrence stands for. -/
theorem refers_writeSimple (type : Api.SimpleType) :
    Refers (writeSimple r type) (occurrenceUses r type) :=
  refers_write r (ofSimple r.directives type)

/-- A declared type uses what the occurrences in it stand for, in their order. -/
theorem refers_writeDeclared (type : Api.DeclaredType) :
    Refers (writeDeclared r type) (type.occurrences.flatMap (occurrenceUses r)) := by
  cases type with
  | simple type =>
    rw [Api.DeclaredType.occurrences, List.flatMap_singleton]
    exact refers_writeSimple r type
  | union members link => exact (Refers.mapM (refers_writeSimple r) members).map _

/-- A type that may be missing uses what the occurrences in it stand for, if it is there. -/
theorem refers_writeOptional (type : Option Api.DeclaredType) :
    Refers (writeOptional r type)
      ((type.elim [] Api.DeclaredType.occurrences).flatMap (occurrenceUses r)) := by
  cases type with
  | none => exact .pure "any"
  | some type => exact refers_writeDeclared r type

mutual

/-- Writing the type of a parameter uses what its occurrences do. -/
theorem refers_writeParameterType : ∀ type : Api.ParameterType,
    Refers (writeParameterType r type) (type.occurrences.flatMap (occurrenceUses r))
  | .unspecified => by
    rw [writeParameterType, Api.ParameterType.occurrences]
    exact .pure "any"
  | .declared type => by
    rw [writeParameterType, Api.ParameterType.occurrences]
    exact refers_writeDeclared r type
  | .shape [] => by
    rw [writeParameterType, Api.ParameterType.occurrences, Api.occurrencesOf]
    exact .pure "object"
  | .shape (entry :: rest) => by
    rw [writeParameterType, Api.ParameterType.occurrences]
    exact (refers_writeEntries (entry :: rest)).map _

/-- An entry of an option object uses what the occurrences in its type stand for. -/
theorem refers_writeEntry (key : String) : ∀ p : Api.Parameter,
    Refers (writeEntry r key p) (p.occurrences.flatMap (occurrenceUses r))
  | .mk info type => by
    rw [writeEntry, Api.Parameter.occurrences]
    exact (refers_writeParameterType type).map _

/-- The entries of an option object use what the occurrences in their types stand for, in their
order. -/
theorem refers_writeEntries : ∀ entries : List (String × Api.Parameter),
    Refers (writeEntries r entries) ((Api.occurrencesOf entries).flatMap (occurrenceUses r))
  | [] => by
    rw [writeEntries, Api.occurrencesOf]
    exact .pure []
  | (key, entry) :: rest => by
    rw [writeEntries, Api.occurrencesOf, List.flatMap_append]
    exact (refers_writeEntry key entry).map₂ (refers_writeEntries rest) _

end

end TypeExpr

/-! ## Entries -/

namespace Declaration.Writer

open Api

variable (w : Writer)

/-- To ask whether a member is kept uses nothing. -/
theorem refers_keeps (fqn : String) : Refers (w.keeps fqn) [] := by
  unfold keeps
  split
  · exact (Refers.warn _ _).map _
  · exact .pure true

/-- To ask for a second reason why something is left out uses nothing. -/
theorem refers_keeps_and (fqn : String) {rest : Writing Bool} (h : Refers rest []) :
    Refers (w.keeps fqn >>= fun kept => if !kept then pure false else rest) [] := by
  refine (w.refers_keeps fqn).bind fun kept => ?_
  split
  · exact .pure false
  · exact h

/-- To ask whether a method is kept uses nothing. -/
theorem refers_keepsMethod (fqn name : String) : Refers (w.keepsMethod fqn name) [] := by
  refine w.refers_keeps_and fqn ?_
  split
  · exact (Refers.warn _ _).map _
  · exact .pure true

/-- To ask whether a value is kept uses nothing. -/
theorem refers_keepsValue (fqn name : String) : Refers (w.keepsValue fqn name) [] := by
  refine w.refers_keeps_and fqn ?_
  split
  · exact .pure true
  · exact (Refers.warn _ _).map _

/-- A parameter uses what the occurrences in its type stand for, marked or not. -/
theorem refers_slot (p : Parameter) (requiredLater : Bool) :
    Refers (w.slot p requiredLater) (w.occurrencesUses p.type.occurrences) := by
  have htype := TypeExpr.refers_writeParameterType w.toResolver p.type
  rw [← List.append_nil (w.occurrencesUses _)]
  refine htype.bind fun type => ?_
  split
  · exact .pure _
  · split <;> exact .pure _

/-- Parameters use what their types use, from left to right. -/
theorem refers_slots (parameters : List Parameter) :
    Refers (w.slots parameters) (w.parameterUses parameters) := by
  induction parameters with
  | nil => exact .pure []
  | cons p rest ih => exact (w.refers_slot p _).map₂ ih _

/-- The signature of a constructor uses what its parameters use. -/
theorem refers_constructorSignature (f : Function) :
    Refers (w.constructorSignature f) (w.parameterUses f.parameters) :=
  (w.refers_slots f.parameters).map _

/-- The signature of a function uses what its parameters and then its result use. -/
theorem refers_signature (f : Function) : Refers (w.signature f) (w.signatureUses f) := by
  unfold signature signatureUses
  cases f.returns.bind Outcome.type with
  | none => exact (w.refers_slots f.parameters).map₂ (.pure "void") _
  | some type =>
    exact (w.refers_slots f.parameters).map₂ (TypeExpr.refers_writeDeclared w.toResolver type) _

/-- A supertype is used if its name can be resolved; a dropped one uses nothing. -/
theorem refers_supertype (owner fqn : String) :
    Refers (w.supertype owner fqn) (w.supertypeUses fqn) := by
  unfold supertype supertypeUses
  dsimp only
  cases w.resolve (w.directives.correctName fqn) with
  | ok symbol => exact (Refers.refer symbol).map _
  | error cause => exact (Refers.warn _ _).map _

/-- An implemented interface is used like a supertype, unless it is stripped. -/
theorem refers_implemented (owner fqn : String) :
    Refers (w.implemented owner fqn) (w.implementedUses fqn) := by
  unfold implemented implementedUses
  split
  · exact (Refers.warn _ _).map _
  · exact w.refers_supertype owner fqn

/-! ### Members -/

/-- A constructor uses what its parameters use, unless it is left out. -/
theorem refers_construct (f : Function) :
    Refers (w.construct f)
      (w.memberUses (w.nameOf.functionTitle .construct f) (w.parameterUses f.parameters)) := by
  obtain ⟨_, hanswer⟩ := w.writes_keeps (w.nameOf f.link)
  have hmember := (w.refers_constructorSignature f).map fun signature =>
    (⟨w.functionHead (w.nameOf f.link) f, .construct signature⟩ : Member)
  rw [memberUses, keepsMember_of_ne _ (by simp [Naming.functionTitle])]
  exact .kept hanswer (w.refers_keeps _) hmember

/-- A field or property uses what its type uses, unless it is left out. -/
theorem refers_property (v : Variable) :
    Refers (w.property v)
      (w.memberUses (w.nameOf.variableTitle .property v) (w.variableUses v)) := by
  obtain ⟨_, hanswer⟩ := w.writes_keeps (w.nameOf v.link)
  have hmember := (TypeExpr.refers_writeOptional w.toResolver v.type).map fun type =>
    (⟨w.headOf (w.nameOf v.link) v.name v.doc, .property v.isStatic type⟩ : Member)
  rw [memberUses, keepsMember_of_ne _ (by simp [Naming.variableTitle])]
  exact .kept hanswer (w.refers_keeps _) hmember

/-- A function as a member uses what its signature uses. -/
theorem refers_memberFunction (f : Function) :
    Refers (w.memberFunction (w.nameOf f.link) f) (w.signatureUses f) :=
  (w.refers_signature f).map _

/-- A method uses what its signature uses, unless it is left out. -/
theorem refers_method (f : Function) :
    Refers (w.method f)
      (w.memberUses (w.nameOf.functionTitle .method f) (w.signatureUses f)) := by
  obtain ⟨_, hanswer⟩ := w.writes_keepsMethod (w.nameOf f.link) f.name
  rw [memberUses, Naming.functionTitle, keepsMember_method]
  exact .kept hanswer (w.refers_keepsMethod _ _) (w.refers_memberFunction f)

/-- A function of a namespace as a method uses what its signature uses, unless it is excluded by its
dotted name. -/
theorem refers_nameSpaceMethod (f : Function) :
    Refers (w.nameSpaceMethod f)
      (if !w.directives.isBadSymbol (w.nameOf f.link) then w.signatureUses f else []) := by
  obtain ⟨_, hanswer⟩ := w.writes_keeps (w.nameOf f.link)
  exact .kept hanswer (w.refers_keeps _) (w.refers_memberFunction f)

/-- A value of an enum uses nothing. -/
theorem refers_enumValue (v : Variable) : Refers (w.enumValue v) [] := by
  obtain ⟨_, hanswer⟩ := w.writes_keeps (w.nameOf v.link)
  have hkept := Refers.kept hanswer (w.refers_keeps _)
    (.pure (⟨w.headOf (w.nameOf v.link) v.name v.doc, .value⟩ : Member))
  rwa [ite_self] at hkept

/-! ### Items -/

/-- A variable of a namespace uses what its entry uses. -/
theorem refers_constant (v : Variable) :
    Refers (w.constant v) (w.entryUses (.constant v)) := by
  obtain ⟨_, hanswer⟩ := w.writes_keepsValue (w.nameOf v.link) v.name
  exact .kept hanswer (w.refers_keepsValue _ _)
    ((TypeExpr.refers_writeOptional w.toResolver v.type).map _)

/-- A function of a namespace uses what its entry uses. -/
theorem refers_function (f : Function) :
    Refers (w.function f) (w.entryUses (.function f)) := by
  obtain ⟨_, hanswer⟩ := w.writes_keepsValue (w.nameOf f.link) f.name
  exact .kept hanswer (w.refers_keepsValue _ _) ((w.refers_signature f).map _)

/-- The rest of a class, after what it extends. -/
theorem refers_classBody (c : Api.Class) (base : Option String) :
    Refers (do
        let interfaces ← writeSome (w.implemented (w.nameOf c.link)) c.implemented
        let constructors ← writeSome w.construct c.constructors
        let fields ← writeSome w.property c.fields
        let methods ← writeSome w.method c.methods
        return some (Item.aggregate (w.headOf (w.nameOf c.link) c.name c.doc)
          (.classType c.isAbstract base interfaces) (constructors ++ fields ++ methods)))
      (c.implemented.flatMap w.implementedUses
        ++ (c.constructors.flatMap (fun f =>
            w.memberUses (w.nameOf.functionTitle .construct f) (w.parameterUses f.parameters))
          ++ (w.propertyUses c.fields ++ w.methodUses c.methods))) :=
  (Refers.writeSome (w.refers_implemented (w.nameOf c.link)) c.implemented).bind fun _ =>
    (Refers.writeSome w.refers_construct c.constructors).bind fun _ =>
      (Refers.writeSome w.refers_property c.fields).map₂
        (Refers.writeSome w.refers_method c.methods) _

/-- A class uses what its entry uses: its supertypes first, then its members. -/
theorem refers_classType (c : Api.Class) :
    Refers (w.classType c) (w.entryUses (.aggregate (.classType c))) := by
  have hbody := w.refers_classBody c
  unfold classType entryUses typeUses
  dsimp only
  refine .onlyIf ?_
  rw [List.append_assoc, List.append_assoc, List.append_assoc]
  cases c.base with
  | none => exact hbody none
  | some base => exact (w.refers_supertype (w.nameOf c.link) base).bind hbody

/-- An interface uses what its entry uses: its bases first, then its members. -/
theorem refers_interfaceType (i : Interface) :
    Refers (w.interfaceType i) (w.entryUses (.aggregate (.interfaceType i))) := by
  have hbases := Refers.writeSome (w.refers_supertype (w.nameOf i.link)) i.bases
  have hproperties := Refers.writeSome w.refers_property i.properties
  have hmethods := Refers.writeSome w.refers_method i.methods
  unfold interfaceType entryUses typeUses
  dsimp only
  refine .onlyIf ?_
  rw [List.append_assoc]
  exact hbases.bind fun bases => hproperties.map₂ hmethods _

/-- An enum uses nothing, as its entry says. -/
theorem refers_enumType (e : Enum) :
    Refers (w.enumType e) (w.entryUses (.aggregate (.enumType e))) := by
  have hvalues := Refers.writeSome w.refers_enumValue e.values
  rw [List.flatMap_eq_nil_iff.mpr fun _ _ => rfl] at hvalues
  unfold enumType entryUses typeUses
  dsimp only
  exact .onlyIf (hvalues.map _)

/-- A namespace as an interface uses what its entry uses. -/
theorem refers_nameSpaceInterface (s : Scope) :
    Refers (w.nameSpaceInterface s) (w.entryUses (.nameSpace s)) := by
  refine (Refers.writeSome w.refers_property s.constants).map₂
    (Refers.writeSome w.refers_nameSpaceMethod s.functions) _

/-- Writing an entry uses what the entry does. -/
theorem refers_write (entry : Entry) : Refers (w.write entry) (w.entryUses entry) := by
  cases entry with
  | constant v => exact w.refers_constant v
  | function f => exact w.refers_function f
  | aggregate n =>
    cases n with
    | classType c => exact w.refers_classType c
    | interfaceType i => exact w.refers_interfaceType i
    | enumType e => exact w.refers_enumType e
  | nameSpace s => exact (w.refers_nameSpaceInterface s).map some

/-! ## Blocks -/

/-- The imports of a block before anything is written into it. -/
def startOf (ns : Namespace) : Imports :=
  .start (w.nameOf.nameSpace ns) (w.localNames ns (w.isInterface (w.nameOf.nameSpace ns)))

/-- Writes what the block of a namespace has. -/
def blockItems (ns : Namespace) : Writing (List Item) := writeSome w.write (w.blockEntries ns)

/-- The items of a block use what its entries use, in their order. -/
theorem refers_blockItems (ns : Namespace) : Refers (w.blockItems ns) (w.blockUses ns) :=
  Refers.writeSome w.refers_write (w.blockEntries ns)

/-- Writing the values of a scope is writing an item for each of its values. -/
theorem values_eq (s : Scope) : w.values s = writeSome w.write (valueEntries s) := by
  rw [valueEntries, writeSome_append, writeSome_map, writeSome_map]
  rfl

/-- Writing the aggregates of a scope is writing an item for each of its types. -/
theorem aggregates_eq (s : Scope) : w.aggregates s = writeSome w.write (typeEntries s) := by
  rw [typeEntries_eq, writeSome_append, writeSome_append, writeSome_map, writeSome_map,
    writeSome_map, aggregates]
  simp only [bind_assoc, pure_bind, List.append_assoc]
  rfl

/-- Writing the nested interfaces is writing an item for each of their entries. -/
theorem nestedInterfaces_eq (ns : Namespace) :
    w.nestedInterfaces ns = writeSome w.write (w.nestedInterfaceEntries ns) := by
  rw [nestedInterfaceEntries, writeSome_map]
  exact (writeSome_some _ _).symm

/-- The block of a namespace is written entry by entry, from no imports on. -/
theorem moduleBlock_eq (ns : Namespace) :
    w.moduleBlock (w.nameOf ns.scope.link) ns = (do
      moveTo (.module (w.startOf ns))
      let items ← w.blockItems ns
      let imports ← importsHere
      moveTo .script
      return ⟨w.nameOf ns.scope.link, if w.isInterface (w.nameOf ns.scope.link) then none else
        some (w.lead (w.nameOf ns.scope.link) (Comment.ofDoc ns.scope.doc)), imports, items⟩) := by
  unfold moduleBlock blockItems blockEntries startOf Naming.nameSpace
  dsimp only
  rw [writeSome_append, writeSome_append, ← aggregates_eq, ← nestedInterfaces_eq]
  cases w.isInterface (w.nameOf ns.scope.link) with
  | true => simp only [bind_assoc, pure_bind, if_true, writeSome]
  | false => simp only [bind_assoc, pure_bind, Bool.false_eq_true, if_false, ← values_eq]

/-- A block is that of a namespace: it has the imports that its uses lead to, and its items are what
is written of the namespace in any block in which these uses are spelled as they are here. -/
structure Spells (ns : Namespace) (b : Block) : Prop where
  fqn : b.fqn = w.nameOf.nameSpace ns
  imports : b.imports = ((w.startOf ns).after (w.blockUses ns)).imports
  items : ∀ i warnings, i.spellings (w.blockUses ns) = (w.startOf ns).spellings (w.blockUses ns) →
    b.items = ((w.blockItems ns).run ⟨.module i, warnings⟩).1

/-- Whatever the page, what is written for a namespace is its block. -/
theorem spells_moduleBlock (ns : Namespace) (page : Page) :
    w.Spells ns ((w.moduleBlock (w.nameOf ns.scope.link) ns).run page).1 := by
  have hrefers := w.refers_blockItems ns
  have hplace := hrefers.place (.module (w.startOf ns)) page.warnings
  rw [Reference.Place.after_module] at hplace
  rw [moduleBlock_eq]
  refine ⟨rfl, ?_, fun i warnings hsame => ?_⟩
  · change (importsHere.run ((w.blockItems ns).run ⟨.module (w.startOf ns), page.warnings⟩).2).1 = _
    rw [run_importsHere, hplace]
    rfl
  · refine hrefers.answer _ _ _ _ ?_
    rw [Reference.Place.spellings_module, Reference.Place.spellings_module, hsame]

end Declaration.Writer

end Ambient
