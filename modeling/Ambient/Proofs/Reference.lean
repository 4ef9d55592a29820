import Ambient.Reference
import Mathlib.Data.List.Induction
import Mathlib.Data.List.Nodup
import Mathlib.Data.List.Pairwise

/-!
# Names in a module block

A block spells symbols while it is written, one reference after another, and imports them as it
goes. Every import is made in the order of references and stays; a symbol keeps the spelling that it
got first. A local name that is not an alias is taken by nothing that came before it. What spellings
can still have in common is due to aliases, which nothing is checked against, and to names that are
spelled as they are: those of the top level, of the block's own namespace, and of the environment.
-/

namespace Ambient.Reference

/-- A name that is used in a block: that of a symbol, or one that the environment has. -/
inductive Use where
  | symbol (symbol : Symbol)
  | environment (name : String)
deriving DecidableEq, Repr

namespace Use

variable {uses : List Use}

/-- The symbol that is used. -/
def symbol? : Use → Option Symbol
  | .symbol s => some s
  | .environment _ => none

/-- The name that is used: dotted if it is that of a symbol. -/
def dotted : Use → String
  | .symbol s => s.fqn
  | .environment name => name

/-- The name of the environment that is used. -/
def environment? : Use → Option String
  | .symbol _ => none
  | .environment name => some name

/-- A symbol is listed exactly if it is used. -/
theorem mem_symbols {s : Symbol} : s ∈ uses.filterMap symbol? ↔ .symbol s ∈ uses := by
  rw [List.mem_filterMap]
  refine ⟨fun ⟨u, hu, hs⟩ => ?_, fun h => ⟨_, h, rfl⟩⟩
  cases u with
  | symbol t => exact Option.some.inj hs ▸ hu
  | environment name => cases hs

/-- A name of the environment is listed exactly if it is used. -/
theorem mem_environment {name : String} :
    name ∈ uses.filterMap environment? ↔ .environment name ∈ uses := by
  rw [List.mem_filterMap]
  refine ⟨fun ⟨u, hu, hname⟩ => ?_, fun h => ⟨_, h, rfl⟩⟩
  cases u with
  | symbol s => cases hname
  | environment other => exact Option.some.inj hname ▸ hu

/-- What all used symbols satisfy can be decided by running through them. -/
instance decidableSymbols {P : Symbol → Prop} [DecidablePred P] :
    Decidable (∀ s, .symbol s ∈ uses → P s) :=
  decidable_of_iff (∀ s ∈ uses.filterMap symbol?, P s)
    (forall_congr' fun _ => imp_congr_left mem_symbols)

/-- What all used names of the environment satisfy can be decided by running through them. -/
instance decidableEnvironment {P : String → Prop} [DecidablePred P] :
    Decidable (∀ name, .environment name ∈ uses → P name) :=
  decidable_of_iff (∀ name ∈ uses.filterMap environment?, P name)
    (forall_congr' fun _ => imp_congr_left mem_environment)

end Use

/-- Whether a symbol is imported under another name than its own. -/
def Import.IsAliased (a : Import) : Prop := a.localName ≠ a.name

/-- Whether an import is aliased is decided by comparing its two names. -/
instance : DecidablePred Import.IsAliased := fun _ => inferInstanceAs (Decidable (_ ≠ _))

namespace Imports

variable {i : Imports} {s t : Symbol} {a : Import} {uses more : List Use}

/-- The spelling of a used name, and the imports that the block then has. -/
def use (i : Imports) : Use → String × Imports
  | .symbol s => i.refer s
  | .environment name => (name, i)

/-- The spelling of a used name. -/
def spell (i : Imports) (u : Use) : String := (i.use u).1

/-- The imports after names were used one after another. -/
def after (i : Imports) (uses : List Use) : Imports := uses.foldl (fun i u => (i.use u).2) i

/-- The spellings of names that are used one after another. -/
def spellings (i : Imports) : List Use → List String
  | [] => []
  | u :: rest => i.spell u :: (i.use u).2.spellings rest

/-- Whether a symbol is spelled by its simple name and never imported: one of the top level or of
the namespace that the block is for. -/
def IsBare (i : Imports) (s : Symbol) : Prop := s.owner = "" ∨ s.owner = i.module

/-- Whether a symbol is spelled by its bare name is decided by comparing its module. -/
instance : DecidablePred i.IsBare := fun _ => inferInstanceAs (Decidable (_ ∨ _))

/-- The import of a symbol, given those that the block has. -/
def importOf (i : Imports) (s : Symbol) : Import :=
  ⟨s.fqn, modulePath s.owner, s.name, i.localNameFor s⟩

/-- Uses in two runs leave the imports that the second run leaves after the first. -/
theorem after_append (i : Imports) (uses more : List Use) :
    i.after (uses ++ more) = (i.after uses).after more :=
  List.foldl_append

/-! ## One reference -/

/-- A symbol of the module itself is spelled by its name and imports nothing. -/
theorem refer_of_isBare (h : i.IsBare s) : i.refer s = (s.name, i) := by
  rw [refer, if_pos (by simpa [IsBare] using h)]

/-- A foreign symbol is spelled by the import it already has, or else gets one. -/
theorem refer_of_not_isBare (h : ¬ i.IsBare s) :
    i.refer s = match i.find? s.fqn with
      | some found => (found.localName, i)
      | none => (i.localNameFor s, { i with imports := i.imports ++ [i.importOf s] }) := by
  rw [refer, if_neg (by simpa [IsBare] using h)]
  rfl

/-- A symbol with an import under its dotted name is spelled by that. -/
theorem refer_of_find? (h : ¬ i.IsBare s) (hfound : i.find? s.fqn = some a) :
    i.refer s = (a.localName, i) := by
  rw [refer_of_not_isBare h, hfound]

/-- A foreign symbol without an import gets one, at the end, under the local name chosen for it. -/
theorem refer_of_find?_none (h : ¬ i.IsBare s) (hnone : i.find? s.fqn = none) :
    i.refer s = (i.localNameFor s, { i with imports := i.imports ++ [i.importOf s] }) := by
  rw [refer_of_not_isBare h, hnone]

/-- A use adds the import of a symbol, or leaves the imports as they are because they have it. -/
theorem use_cases (i : Imports) (u : Use) :
    ((i.use u).2 = i ∧ ∀ s, u = .symbol s → ¬ i.IsBare s → ∃ a, i.find? s.fqn = some a) ∨
      ∃ s, u = .symbol s ∧ ¬ i.IsBare s ∧ i.find? s.fqn = none ∧
        (i.use u).2 = { i with imports := i.imports ++ [i.importOf s] } := by
  cases u with
  | environment name => exact .inl ⟨rfl, nofun⟩
  | symbol s =>
    by_cases hbare : i.IsBare s
    · refine .inl ⟨congrArg Prod.snd (refer_of_isBare hbare), ?_⟩
      rintro _ ⟨⟩ hforeign
      exact absurd hbare hforeign
    · cases hfound : i.find? s.fqn with
      | some found =>
        refine .inl ⟨congrArg Prod.snd (refer_of_find? hbare hfound), ?_⟩
        rintro _ ⟨⟩ _
        exact ⟨found, hfound⟩
      | none =>
        exact .inr ⟨s, rfl, hbare, hfound, congrArg Prod.snd (refer_of_find?_none hbare hfound)⟩

/-- A block keeps its namespace and the names it declares. -/
theorem use_same (i : Imports) (u : Use) :
    (i.use u).2.module = i.module ∧ (i.use u).2.locals = i.locals := by
  obtain ⟨h, _⟩ | ⟨s, _, _, _, h⟩ := i.use_cases u <;> rw [h] <;> exact ⟨rfl, rfl⟩

/-- Uses change neither the module nor the names declared in it. -/
theorem after_same (i : Imports) (uses : List Use) :
    (i.after uses).module = i.module ∧ (i.after uses).locals = i.locals := by
  induction uses generalizing i with
  | nil => exact ⟨rfl, rfl⟩
  | cons u rest ih =>
    obtain ⟨hmodule, hlocals⟩ := ih (i.use u).2
    exact ⟨hmodule.trans (i.use_same u).1, hlocals.trans (i.use_same u).2⟩

/-- The name that a symbol is imported under is its own if that is free, and an alias otherwise. -/
theorem isAliased_importOf_iff : (i.importOf s).IsAliased ↔ i.isTaken s.name = true := by
  rw [Import.IsAliased, importOf, localNameFor]
  split
  · next htaken =>
    refine iff_of_true (fun hsame => ?_) htaken
    have hlength := congrArg String.length hsame
    have hone : "_".length = 1 := rfl
    simp only [String.length_append, hone] at hlength
    omega
  · next hfree => exact iff_of_false (fun h => h rfl) hfree

/-! ## Imports in order -/

/-- What holds of the imports of a block after names were used in it. -/
structure Orderly (i : Imports) (uses : List Use) : Prop where
  /-- A symbol is imported once. -/
  once : (i.imports.map Import.fqn).Nodup
  /-- A used symbol of another module is imported. -/
  complete : ∀ s, .symbol s ∈ uses → ¬ i.IsBare s → ∃ a ∈ i.imports, a.fqn = s.fqn
  /-- An import is that of a used symbol of another module, under its own name or an alias. -/
  sound : ∀ a ∈ i.imports, ∃ s, .symbol s ∈ uses ∧ ¬ i.IsBare s ∧ a.fqn = s.fqn ∧
    a.path = modulePath s.owner ∧ a.name = s.name ∧
    (a.IsAliased → a.localName = Text.replace s.owner "." "_" ++ "_" ++ s.name)
  /-- An alias is made only if the name is declared or the local name of an earlier import. -/
  needed : ∀ earlier a later, i.imports = earlier ++ a :: later → a.IsAliased →
    a.name ∈ i.locals ∨ ∃ b ∈ earlier, b.localName = a.name
  /-- A local name that is not an alias is not declared. -/
  undeclared : ∀ a ∈ i.imports, ¬ a.IsAliased → a.localName ∉ i.locals
  /-- A local name that is not an alias is not that of an earlier import. -/
  fresh : i.imports.Pairwise fun a b => ¬ b.IsAliased → b.localName ≠ a.localName

/-- The import found for a symbol is an import of that symbol. -/
theorem of_find? {fqn : String} (h : i.find? fqn = some a) : a.fqn = fqn := by
  simpa using List.find?_some h

/-- No import is found exactly if no import is of that symbol. -/
theorem find?_eq_none_iff (i : Imports) (fqn : String) :
    i.find? fqn = none ↔ ∀ a ∈ i.imports, a.fqn ≠ fqn := by
  simp [find?]

/-- An import in a list with another one added is that one, or it comes before it. -/
theorem eq_or_exists_of_concat {imports earlier later : List Import} {added : Import}
    (h : imports ++ [added] = earlier ++ a :: later) :
    (earlier = imports ∧ a = added) ∨ ∃ rest, imports = earlier ++ a :: rest := by
  obtain rfl | ⟨rest, last, rfl⟩ := later.eq_nil_or_concat
  · obtain ⟨hsame, hlast⟩ := List.append_inj' h rfl
    exact .inl ⟨hsame.symm, (List.singleton_inj.mp hlast).symm⟩
  · rw [List.concat_eq_append, ← List.cons_append, ← List.append_assoc] at h
    exact .inr ⟨rest, (List.append_inj' h rfl).1⟩

namespace Orderly

/-- A module starts in order, with no import and no use. -/
theorem start (module : String) (locals : List String) : Orderly (.start module locals) [] where
  once := List.nodup_nil
  complete := nofun
  sound := nofun
  needed earlier a later hsplit := by simp [Imports.start] at hsplit
  undeclared := nofun
  fresh := .nil

/-- Another import keeps the order, if there was none of its symbol. -/
theorem add (h : Orderly i uses) (hbare : ¬ i.IsBare s) (hnone : i.find? s.fqn = none) :
    Orderly { i with imports := i.imports ++ [i.importOf s] } (uses ++ [.symbol s]) := by
  have hnew : ∀ a ∈ i.imports, a.fqn ≠ s.fqn := (i.find?_eq_none_iff s.fqn).mp hnone
  have hfree (haliased : ¬ (i.importOf s).IsAliased) :
      s.name ∉ i.locals ∧ ∀ a ∈ i.imports, a.localName ≠ s.name := by
    rw [isAliased_importOf_iff] at haliased
    simpa [isTaken] using haliased
  have hname (haliased : ¬ (i.importOf s).IsAliased) : (i.importOf s).localName = s.name :=
    not_not.mp haliased
  -- The new import stands last, so what holds of the others holds as it did.
  refine ⟨?once, ?complete, ?sound, ?needed, ?undeclared, ?fresh⟩
  case once =>
    rw [List.map_append, List.map_singleton, ← List.concat_eq_append, List.nodup_concat]
    refine ⟨fun hmem => ?_, h.once⟩
    obtain ⟨a, ha, hfqn⟩ := List.mem_map.mp hmem
    exact hnew a ha hfqn
  case complete =>
    intro t ht hforeign
    obtain hold | hlast := List.mem_append.mp ht
    · obtain ⟨a, ha, hfqn⟩ := h.complete t hold hforeign
      exact ⟨a, List.mem_append_left _ ha, hfqn⟩
    · cases List.mem_singleton.mp hlast
      exact ⟨_, List.mem_append_right _ (List.mem_singleton_self _), rfl⟩
  case sound =>
    intro a ha
    obtain hold | hlast := List.mem_append.mp ha
    · obtain ⟨t, ht, hrest⟩ := h.sound a hold
      exact ⟨t, List.mem_append_left _ ht, hrest⟩
    · obtain rfl := List.mem_singleton.mp hlast
      refine ⟨s, List.mem_append_right _ (List.mem_singleton_self _), hbare, rfl, rfl, rfl, ?_⟩
      intro haliased
      exact if_pos (isAliased_importOf_iff.mp haliased)
  case needed =>
    intro earlier a later hsplit haliased
    obtain ⟨rfl, rfl⟩ | ⟨rest, hold⟩ := eq_or_exists_of_concat hsplit
    · simpa [isTaken, importOf] using isAliased_importOf_iff.mp haliased
    · exact h.needed earlier a rest hold haliased
  case undeclared =>
    intro a ha hown
    obtain hold | hlast := List.mem_append.mp ha
    · exact h.undeclared a hold hown
    · obtain rfl := List.mem_singleton.mp hlast
      rw [hname hown]
      exact (hfree hown).1
  case fresh =>
    rw [List.pairwise_append]
    refine ⟨h.fresh, List.pairwise_singleton _ _, fun a ha b hb hown => ?_⟩
    obtain rfl := List.mem_singleton.mp hb
    rw [hname hown]
    exact fun hsame => (hfree hown).2 a ha hsame.symm

/-- Whatever name is used next, the imports stay in order. -/
theorem use (h : Orderly i uses) (u : Use) : Orderly (i.use u).2 (uses ++ [u]) := by
  obtain ⟨hsame, hfound⟩ | ⟨s, rfl, hbare, hnone, hadded⟩ := i.use_cases u
  · rw [hsame]
    refine { h with complete := fun s hs hforeign => ?_, sound := fun a ha => ?_ }
    · obtain hold | hlast := List.mem_append.mp hs
      · exact h.complete s hold hforeign
      · obtain ⟨a, ha⟩ := hfound s (List.mem_singleton.mp hlast).symm hforeign
        exact ⟨a, List.mem_of_find?_eq_some ha, of_find? ha⟩
    · obtain ⟨s, hs, hrest⟩ := h.sound a ha
      exact ⟨s, List.mem_append_left _ hs, hrest⟩
  · rw [hadded]
    exact h.add hbare hnone

/-- The imports of a block are in order, however names are used in it. -/
theorem after (h : Orderly i uses) (more : List Use) : Orderly (i.after more) (uses ++ more) := by
  induction more generalizing i uses with
  | nil => rwa [List.append_nil]
  | cons u rest ih =>
    have hrest := ih (h.use u)
    rwa [List.append_assoc] at hrest

end Orderly

/-! ## Spellings that stay -/

/-- As a symbol is imported once, its import is the one that is found. -/
theorem Orderly.find?_eq_some_iff (h : Orderly i uses) {fqn : String} :
    i.find? fqn = some a ↔ a ∈ i.imports ∧ a.fqn = fqn := by
  refine ⟨fun hfound => ⟨List.mem_of_find?_eq_some hfound, of_find? hfound⟩, fun ⟨ha, hfqn⟩ => ?_⟩
  cases hfound : i.find? fqn with
  | none => exact absurd hfqn ((i.find?_eq_none_iff fqn).mp hfound a ha)
  | some found =>
    have hsame : found = a := List.inj_on_of_nodup_map h.once (List.mem_of_find?_eq_some hfound) ha
      ((of_find? hfound).trans hfqn.symm)
    rw [hsame]

/-- A symbol whose import is there is spelled by its local name. -/
theorem Orderly.spell_of_mem (h : Orderly i uses) (hbare : ¬ i.IsBare s) (ha : a ∈ i.imports)
    (hfqn : a.fqn = s.fqn) : i.spell (.symbol s) = a.localName :=
  congrArg Prod.fst (refer_of_find? hbare (h.find?_eq_some_iff.mpr ⟨ha, hfqn⟩))

/-- A use of a symbol of the module itself is spelled by its name. -/
theorem spell_of_isBare (h : i.IsBare s) : i.spell (.symbol s) = s.name :=
  congrArg Prod.fst (refer_of_isBare h)

/-- An import stays. -/
theorem find?_after {fqn : String} (h : i.find? fqn = some a) (uses : List Use) :
    (i.after uses).find? fqn = some a := by
  induction uses generalizing i with
  | nil => exact h
  | cons u rest ih =>
    have hnext : (i.use u).2.find? fqn = some a := by
      obtain ⟨hsame, _⟩ | ⟨s, _, _, _, hadded⟩ := i.use_cases u
      · rwa [hsame]
      · rw [hadded]
        exact List.find?_append.trans (by rw [← find?, h, Option.some_or])
    exact ih hnext

/-- Once a symbol of another module was used, it is found under the spelling that it got. -/
theorem find?_use (h : ¬ i.IsBare s) :
    ∃ a, (i.use (.symbol s)).2.find? s.fqn = some a ∧ a.localName = i.spell (.symbol s) := by
  cases hfound : i.find? s.fqn with
  | some found =>
    have hrefer := refer_of_find? h hfound
    refine ⟨found, ?_, (congrArg Prod.fst hrefer).symm⟩
    rw [use, hrefer]
    exact hfound
  | none =>
    have hrefer := refer_of_find?_none h hfound
    refine ⟨i.importOf s, ?_, (congrArg Prod.fst hrefer).symm⟩
    rw [use, hrefer]
    refine List.find?_append.trans ?_
    rw [← find?, hfound]
    simp [importOf]

/-- A name that has been used is spelled as it was, however names are used after it. -/
theorem spell_after_use (i : Imports) (u : Use) (more : List Use) :
    ((i.use u).2.after more).spell u = i.spell u := by
  cases u with
  | environment name => rfl
  | symbol s =>
    have hmodule : ((i.use (.symbol s)).2.after more).module = i.module :=
      (after_same _ more).1.trans (i.use_same _).1
    by_cases hbare : i.IsBare s
    · rw [spell_of_isBare hbare, spell_of_isBare (by rwa [IsBare, hmodule])]
    · obtain ⟨a, hfound, hspelled⟩ := find?_use hbare
      have hforeign : ¬ ((i.use (.symbol s)).2.after more).IsBare s := by rwa [IsBare, hmodule]
      rw [← hspelled]
      exact congrArg Prod.fst (refer_of_find? hforeign (find?_after hfound more))

/-- All names are spelled by the imports that the block has in the end. -/
theorem spellings_eq (i : Imports) (uses : List Use) :
    i.spellings uses = uses.map (i.after uses).spell := by
  induction uses generalizing i with
  | nil => rfl
  | cons u rest ih =>
    rw [spellings, ih, List.map_cons, ← i.spell_after_use u rest]
    rfl

/-! ## Ambiguities -/

/-- No name in the block is ambiguous. -/
structure Unambiguous (i : Imports) (uses : List Use) : Prop where
  /-- Different symbols are spelled differently. -/
  references : ∀ s, .symbol s ∈ uses → ∀ t, .symbol t ∈ uses →
    i.spell (.symbol s) = i.spell (.symbol t) → s.fqn = t.fqn
  /-- The local names of imports are distinct. -/
  distinct : (i.imports.map Import.localName).Nodup
  /-- No import has the name of a declaration of the block. -/
  undeclared : ∀ a ∈ i.imports, a.localName ∉ i.locals
  /-- What is spelled like a declaration of the block is of its namespace. -/
  declared : ∀ s, .symbol s ∈ uses → i.spell (.symbol s) ∈ i.locals → s.owner = i.module
  /-- Names of the environment are neither declared nor imported. -/
  environment : ∀ name, .environment name ∈ uses →
    name ∉ i.locals ∧ ∀ a ∈ i.imports, a.localName ≠ name

/-- Nothing stands in the way of the names that are not chosen by what is taken. -/
structure Clear (i : Imports) (uses : List Use) : Prop where
  /-- An alias is neither declared nor another local name. -/
  aliases : ∀ a ∈ i.imports, a.IsAliased →
    a.localName ∉ i.locals ∧ ∀ b ∈ i.imports, b.localName = a.localName → b = a
  /-- A symbol of the top level or of the block's namespace shares its name with no other such
  symbol. -/
  bare : ∀ s, .symbol s ∈ uses → i.IsBare s → ∀ t, .symbol t ∈ uses → i.IsBare t →
    s.name = t.name → s.fqn = t.fqn
  /-- Nor does it share its name with an import. -/
  imported : ∀ s, .symbol s ∈ uses → i.IsBare s → ∀ a ∈ i.imports, a.localName ≠ s.name
  /-- The block declares nothing under the name of a symbol of the top level. -/
  topLevel : ∀ s, .symbol s ∈ uses → s.owner = "" → s.name ∉ i.locals
  /-- Names of the environment are neither declared nor imported. -/
  environment : ∀ name, .environment name ∈ uses →
    name ∉ i.locals ∧ ∀ a ∈ i.imports, a.localName ≠ name

/-- Whether uses are clear is decided by running through them and the imports. -/
instance : Decidable (Clear i uses) :=
  decidable_of_iff
    ((∀ a ∈ i.imports, a.IsAliased →
        a.localName ∉ i.locals ∧ ∀ b ∈ i.imports, b.localName = a.localName → b = a) ∧
      (∀ s, .symbol s ∈ uses → i.IsBare s → ∀ t, .symbol t ∈ uses → i.IsBare t →
        s.name = t.name → s.fqn = t.fqn) ∧
      (∀ s, .symbol s ∈ uses → i.IsBare s → ∀ a ∈ i.imports, a.localName ≠ s.name) ∧
      (∀ s, .symbol s ∈ uses → s.owner = "" → s.name ∉ i.locals) ∧
      ∀ name, .environment name ∈ uses → name ∉ i.locals ∧ ∀ a ∈ i.imports, a.localName ≠ name)
    ⟨fun ⟨aliases, bare, imported, topLevel, environment⟩ =>
      ⟨aliases, bare, imported, topLevel, environment⟩,
    fun ⟨aliases, bare, imported, topLevel, environment⟩ =>
      ⟨aliases, bare, imported, topLevel, environment⟩⟩

/-- Whether a symbol is bare can be told from its dotted name. -/
theorem isBare_congr (h : s.fqn = t.fqn) : i.IsBare s ↔ i.IsBare t := by
  rw [IsBare, IsBare, Symbol.owner, Symbol.owner, h]

namespace Orderly

/-- The import of a used symbol of another module, by which it is spelled. -/
theorem exists_import (h : Orderly i uses) (hs : .symbol s ∈ uses) (hbare : ¬ i.IsBare s) :
    ∃ a ∈ i.imports, a.fqn = s.fqn ∧ i.spell (.symbol s) = a.localName := by
  obtain ⟨a, ha, hfqn⟩ := h.complete s hs hbare
  exact ⟨a, ha, hfqn, h.spell_of_mem hbare ha hfqn⟩

/-- If aliases are free, all local names are distinct and none is declared. -/
theorem of_aliases (h : Orderly i uses) (haliases : ∀ a ∈ i.imports, a.IsAliased →
      a.localName ∉ i.locals ∧ ∀ b ∈ i.imports, b.localName = a.localName → b = a) :
    (i.imports.map Import.localName).Nodup ∧ ∀ a ∈ i.imports, a.localName ∉ i.locals := by
  constructor
  · have hne := List.pairwise_map.mp h.once
    refine List.pairwise_map.mpr ((h.fresh.and hne).imp_of_mem ?_)
    rintro a b ha hb ⟨hfresh, hfqn⟩ hsame
    by_cases haliased : b.IsAliased
    · exact hfqn (congrArg Import.fqn ((haliases b hb haliased).2 a ha hsame))
    · exact hfresh haliased hsame.symm
  · intro a ha
    by_cases haliased : a.IsAliased
    · exact (haliases a ha haliased).1
    · exact h.undeclared a ha haliased

/-- In an orderly module clear uses can be told apart by their spellings. -/
theorem unambiguous_of_clear (h : Orderly i uses) (hclear : Clear i uses) :
    Unambiguous i uses := by
  obtain ⟨hdistinct, hundeclared⟩ := h.of_aliases hclear.aliases
  refine ⟨fun s hs t ht hsame => ?_, hdistinct, hundeclared, fun s hs hlocal => ?_,
    hclear.environment⟩
  · by_cases hbare : i.IsBare s <;> by_cases hother : i.IsBare t
    · rw [spell_of_isBare hbare, spell_of_isBare hother] at hsame
      exact hclear.bare s hs hbare t ht hother hsame
    · obtain ⟨a, ha, _, hspelled⟩ := h.exists_import ht hother
      rw [spell_of_isBare hbare, hspelled] at hsame
      exact absurd hsame.symm (hclear.imported s hs hbare a ha)
    · obtain ⟨a, ha, _, hspelled⟩ := h.exists_import hs hbare
      rw [spell_of_isBare hother, hspelled] at hsame
      exact absurd hsame (hclear.imported t ht hother a ha)
    · obtain ⟨a, ha, hfqn, hspelled⟩ := h.exists_import hs hbare
      obtain ⟨b, hb, hother, hrespelled⟩ := h.exists_import ht hother
      rw [hspelled, hrespelled] at hsame
      rw [← hfqn, ← hother, List.inj_on_of_nodup_map hdistinct ha hb hsame]
  · by_cases hbare : i.IsBare s
    · rw [spell_of_isBare hbare] at hlocal
      exact hbare.resolve_left fun htop => hclear.topLevel s hs htop hlocal
    · obtain ⟨a, ha, _, hspelled⟩ := h.exists_import hs hbare
      rw [hspelled] at hlocal
      exact absurd hlocal (hundeclared a ha)

/-- In an orderly module other than the script, uses that can be told apart by their spellings are
clear. -/
theorem clear_of_unambiguous (h : Orderly i uses) (hmodule : i.module ≠ "")
    (hnames : Unambiguous i uses) : Clear i uses := by
  refine ⟨fun a ha _ => ⟨hnames.undeclared a ha, fun b hb hsame => ?_⟩,
    fun s hs hbare t ht hother hsame => ?_, fun s hs hbare a ha hsame => ?_,
    fun s hs htop hlocal => ?_, hnames.environment⟩
  · exact List.inj_on_of_nodup_map hnames.distinct hb ha hsame
  · refine hnames.references s hs t ht ?_
    rw [spell_of_isBare hbare, spell_of_isBare hother, hsame]
  · obtain ⟨t, ht, hforeign, hfqn, _⟩ := h.sound a ha
    have hspelled := h.spell_of_mem hforeign ha hfqn
    have heq := hnames.references s hs t ht (by rw [spell_of_isBare hbare, hspelled, hsame])
    exact hforeign ((isBare_congr heq).mp hbare)
  · have hbare : i.IsBare s := .inl htop
    have howner := hnames.declared s hs (by rwa [spell_of_isBare hbare])
    exact hmodule (howner.symm.trans htop)

/-- Names are unambiguous exactly if nothing stands in the way of those that are not chosen by what
is taken. -/
theorem unambiguous_iff_clear (h : Orderly i uses) (hmodule : i.module ≠ "") :
    Unambiguous i uses ↔ Clear i uses :=
  ⟨h.clear_of_unambiguous hmodule, h.unambiguous_of_clear⟩

end Orderly

end Imports

/-! ## Names at any place -/

namespace Place

variable (place : Place) (uses more : List Use)

/-- The spelling of a used name, and the place after it. -/
def use (place : Place) : Use → String × Place
  | .symbol s => place.refer s
  | .environment name => (name, place)

/-- The place after names were used one after another. -/
def after (place : Place) (uses : List Use) : Place := uses.foldl (fun p u => (p.use u).2) place

/-- The spellings of names that are used one after another. -/
def spellings (place : Place) : List Use → List String
  | [] => []
  | u :: rest => (place.use u).1 :: (place.use u).2.spellings rest

/-- Uses in two runs leave the place that the second run leaves after the first. -/
theorem after_append : place.after (uses ++ more) = (place.after uses).after more :=
  List.foldl_append

/-- Uses in two runs are spelled as the first run, then as the second where the first one ends. -/
theorem spellings_append :
    place.spellings (uses ++ more) = place.spellings uses ++ (place.after uses).spellings more := by
  induction uses generalizing place with
  | nil => rfl
  | cons u rest ih =>
    rw [List.cons_append, spellings, spellings, ih]
    rfl

/-- Every use has one spelling. -/
theorem length_spellings : (place.spellings uses).length = uses.length := by
  induction uses generalizing place with
  | nil => rfl
  | cons u rest ih => rw [spellings, List.length_cons, ih, List.length_cons]

/-- In a block, names are used with its imports. -/
theorem use_module (i : Imports) (u : Use) :
    (Place.module i).use u = ((i.use u).1, .module (i.use u).2) := by
  cases u <;> rfl

/-- In a module the place after the uses is the module with the imports after them. -/
theorem after_module (i : Imports) : (Place.module i).after uses = .module (i.after uses) := by
  induction uses generalizing i with
  | nil => rfl
  | cons u rest ih =>
    rw [after, List.foldl_cons, use_module]
    exact ih _

/-- In a module the uses are spelled as its imports spell them. -/
theorem spellings_module (i : Imports) : (Place.module i).spellings uses = i.spellings uses := by
  induction uses generalizing i with
  | nil => rfl
  | cons u rest ih => rw [spellings, use_module, ih, Imports.spellings, Imports.spell]

/-- In the global tree every use is spelled by its dotted name and leaves the place as it is. -/
theorem use_globals (u : Use) : Place.globals.use u = (u.dotted, .globals) := by
  cases u <;> rfl

/-- The global tree stays the place of writing. -/
theorem after_globals : Place.globals.after uses = .globals := by
  induction uses with
  | nil => rfl
  | cons u rest ih =>
    rw [after, List.foldl_cons, use_globals]
    exact ih

/-- In the global tree, symbols are spelled by their dotted names. -/
theorem spellings_globals : Place.globals.spellings uses = uses.map Use.dotted := by
  induction uses with
  | nil => rfl
  | cons u rest ih => rw [spellings, use_globals, ih, List.map_cons]

end Place

end Ambient.Reference
