import Ambient.Proofs.Reference
import Ambient.Proofs.Symbol.Listing

/-!
# Import lines

What a block imports in the end can be told from the symbols that were referred to in it: those of
other modules, each once and in the order of first references. A line imports such a symbol under the
name by which every reference to it was spelled, however the references followed one another.
-/

namespace Ambient.Reference

open Ambient.Symbol (firsts)

/-- The symbols of a list that the block of a namespace imports, each where it comes first: those
whose owner is neither the top level nor the namespace itself. -/
def foreignFirsts (module : String) (symbols : List Symbol) : List Symbol :=
  firsts (symbols.filter fun s => s.owner ≠ "" ∧ s.owner ≠ module)

/-- The line that imports a symbol under a local name. -/
def importLine (s : Symbol) (localName : String) : String :=
  if localName = s.name then
    "import \x7b " ++ s.name ++ " \x7d from \x22" ++ modulePath s.owner ++ "\x22;"
  else
    "import \x7b " ++ s.name ++ " as " ++ localName ++ " \x7d from \x22" ++ modulePath s.owner
      ++ "\x22;"

/-- Another symbol is imported if it is foreign and has not come before. -/
theorem foreignFirsts_concat (module : String) (symbols : List Symbol) (s : Symbol) :
    foreignFirsts module (symbols ++ [s]) =
      if (s.owner ≠ "" ∧ s.owner ≠ module) ∧ s.fqn ∉ (foreignFirsts module symbols).map Symbol.fqn
      then foreignFirsts module symbols ++ [s] else foreignFirsts module symbols := by
  simp only [foreignFirsts, List.filter_append, Symbol.firsts_append, Symbol.mem_map_firsts]
  by_cases hforeign : s.owner ≠ "" ∧ s.owner ≠ module
  · rw [List.filter_cons_of_pos (by simpa using hforeign), List.filter_nil]
    simp only [hforeign, ne_eq, not_false_eq_true, and_self, true_and, firsts, List.filter_nil]
    split
    · next hnew => rw [List.filter_cons_of_pos (by simpa using hnew), List.filter_nil]
    · next hold =>
      rw [List.filter_cons_of_neg (by simpa using hold), List.filter_nil, List.append_nil]
  · rw [List.filter_cons_of_neg (by simpa using hforeign), if_neg fun h => hforeign h.1]
    simp [firsts]

namespace Imports

variable {i : Imports} {s t : Symbol} {module : String} {locals : List String}
  {symbols : List Symbol}

/-- The import of a symbol under the name by which the block spells it. -/
def entry (i : Imports) (s : Symbol) : Import :=
  ⟨s.fqn, modulePath s.owner, s.name, i.spell (.symbol s)⟩

/-- The line of an import is the one for its symbol and spelling. -/
theorem line_entry (i : Imports) (s : Symbol) :
    (i.entry s).line = importLine s (i.spell (.symbol s)) := by
  rw [Import.line, importLine, entry]
  split
  · rfl
  · simp only [String.append_assoc]

/-- What is not bare is foreign. -/
theorem not_isBare_iff : ¬ i.IsBare s ↔ s.owner ≠ "" ∧ s.owner ≠ i.module := by
  rw [IsBare, not_or]

/-- A use does not change how a symbol is spelled whose import is there. -/
theorem spell_use_of_find? (hbare : ¬ i.IsBare s) {a : Import} (h : i.find? s.fqn = some a)
    (u : Use) : (i.use u).2.spell (.symbol s) = i.spell (.symbol s) := by
  have hforeign : ¬ (i.use u).2.IsBare s := by rwa [IsBare, (i.use_same u).1]
  have hstays : (i.use u).2.find? s.fqn = some a := find?_after h [u]
  rw [spell, spell, use, use, refer_of_find? hbare h, refer_of_find? hforeign hstays]

/-- What a name is spelled by next is what it has just been spelled by. -/
theorem spell_use_self (i : Imports) (u : Use) : (i.use u).2.spell u = i.spell u :=
  i.spell_after_use u []

/-- The imports of a block are those of the foreign symbols that were referred to, in the order of
first references. -/
theorem imports_after (module : String) (locals : List String) (symbols : List Symbol) :
    ((start module locals).after (symbols.map .symbol)).imports =
      (foreignFirsts module symbols).map
        ((start module locals).after (symbols.map .symbol)).entry := by
  induction symbols using List.reverseRecOn with
  | nil => rfl
  | append_singleton symbols t ih =>
    have hstep : (start module locals).after ((symbols ++ [t]).map .symbol)
        = (((start module locals).after (symbols.map .symbol)).use (.symbol t)).2 := by
      rw [List.map_append, after_append]
      rfl
    have hmodule := (after_same (start module locals) (symbols.map .symbol)).1
    rw [hstep]
    generalize (start module locals).after (symbols.map .symbol) = i at ih hmodule
    have hforeign (s : Symbol) : ¬ i.IsBare s ↔ s.owner ≠ "" ∧ s.owner ≠ module := by
      rw [not_isBare_iff, hmodule]
      rfl
    have hfqns : i.imports.map Import.fqn = (foreignFirsts module symbols).map Symbol.fqn := by
      rw [ih, List.map_map]
      rfl
    have hfound (fqn : String) :
        i.find? fqn = none ↔ fqn ∉ (foreignFirsts module symbols).map Symbol.fqn := by
      rw [find?_eq_none_iff, ← hfqns]
      simp
    -- What is imported already keeps its spelling, whatever is used next.
    have hkept : (foreignFirsts module symbols).map i.entry
        = (foreignFirsts module symbols).map (i.use (.symbol t)).2.entry := by
      refine List.map_congr_left fun s hs => ?_
      have hlisted := List.mem_filter.mp ((Symbol.firsts_sublist _).subset hs)
      have hbare : ¬ i.IsBare s := (hforeign s).mpr (by simpa using hlisted.2)
      obtain ⟨a, ha⟩ := Option.ne_none_iff_exists'.mp fun hnone =>
        (hfound s.fqn).mp hnone (List.mem_map_of_mem hs)
      rw [entry, entry, spell_use_of_find? hbare ha]
    rw [foreignFirsts_concat]
    obtain ⟨hsame, hthere⟩ | ⟨_, ⟨⟩, hbare, hnone, hadded⟩ := i.use_cases (.symbol t)
    · rw [if_neg, ← hkept, hsame, ih]
      rintro ⟨hnew, habsent⟩
      obtain ⟨a, ha⟩ := hthere t rfl ((hforeign t).mpr hnew)
      rw [(hfound t.fqn).mpr habsent] at ha
      cases ha
    · have hlast : i.importOf t = (i.use (.symbol t)).2.entry t := by
        rw [entry, spell_use_self, spell, use, refer_of_find?_none hbare hnone]
        rfl
      rw [if_pos ⟨(hforeign t).mp hbare, (hfound t.fqn).mp hnone⟩, List.map_append, ← hkept, ← ih,
        List.map_singleton, ← hlast, hadded]

/-- In a block in which symbols are referred to one after another, every reference to a symbol is
spelled in the same way; a symbol of the top level or of the block's own namespace by its name. The
block has one line for each of the other symbols, in the order of first references. It imports the
symbol's own name from the module of its owner, under the name by which the references are spelled,
which is written only if it is another one. -/
theorem lines_after (module : String) (locals : List String) (symbols : List Symbol) :
    let uses := symbols.map Use.symbol
    let i := (start module locals).after uses
    let spelling (s : Symbol) : String := i.spell (.symbol s)
    (start module locals).spellings uses = symbols.map spelling ∧
      (∀ s ∈ symbols, ∀ t ∈ symbols, s.fqn = t.fqn →
        (s.owner ≠ "" ∧ s.owner ≠ module) ∨ s.name = t.name → spelling s = spelling t) ∧
      (∀ s, s.owner = "" ∨ s.owner = module → spelling s = s.name) ∧
      i.lines = (foreignFirsts module symbols).map fun s => importLine s (spelling s) := by
  intro uses i spelling
  have hmodule : i.module = module := (after_same (start module locals) uses).1
  have horderly : Orderly i uses := (Orderly.start module locals).after uses
  have hspelled (s : Symbol) (hbare : i.IsBare s) : spelling s = s.name := spell_of_isBare hbare
  refine ⟨?_, fun s hs t ht hfqn halike => ?_, fun s hs => hspelled s (by rwa [IsBare, hmodule]), ?_⟩
  · rw [spellings_eq, List.map_map]
    rfl
  · by_cases hbare : i.IsBare s
    · have hname : s.name = t.name := halike.resolve_left fun hforeign =>
        not_isBare_iff.mpr (hmodule.symm ▸ hforeign) hbare
      rw [hspelled s hbare, hspelled t ((isBare_congr hfqn).mp hbare), hname]
    · obtain ⟨a, ha, hsame, hspell⟩ := horderly.exists_import (List.mem_map_of_mem hs) hbare
      have hother : ¬ i.IsBare t := fun h => hbare ((isBare_congr hfqn).mpr h)
      exact hspell.trans (horderly.spell_of_mem hother ha (hsame.trans hfqn)).symm
  · rw [lines, imports_after, List.map_map]
    exact List.map_congr_left fun s _ => i.line_entry s

/-- A class that a library describes under a dotted name. -/
def classOf (library fqn name : String) : Symbol := ⟨fqn, name, .classType, library⟩

/-- Two classes of another module, of which one is described by two libraries and the other has the
name of a class that the block declares. -/
def clashing : List Symbol :=
  [classOf "sap.ui.core" "sap.ui.core.Control" "Control",
    classOf "sap.ui" "sap.ui.core.Control" "Control", classOf "sap.m" "sap.m.Button" "Button",
    classOf "sap.ui.core" "sap.ui.core.Button" "Button"]

/-- Of four uses two are of one symbol, and one has a simple name that the module declares itself.
-/
theorem lines_after_clashing :
    let uses := clashing.map Use.symbol
    let i := (start "sap.m" ["Button"]).after uses
    (start "sap.m" ["Button"]).spellings uses
        = ["Control", "Control", "Button", "sap_ui_core_Button"] ∧
      i.spell (.symbol (classOf "sap.ui.core" "sap.ui.core.Control" "Control"))
        = i.spell (.symbol (classOf "sap.ui" "sap.ui.core.Control" "Control")) ∧
      i.spell (.symbol (classOf "sap.m" "sap.m.Button" "Button")) = "Button" ∧
      i.lines = ["import \x7b Control \x7d from \x22sap/ui/core\x22;",
        "import \x7b Button as sap_ui_core_Button \x7d from \x22sap/ui/core\x22;"] := by
  obtain ⟨hspellings, halike, hbare, hlines⟩ := lines_after "sap.m" ["Button"] clashing
  exact ⟨hspellings.trans (by decide),
    halike _ (by decide) _ (by decide) (by decide) (.inr (by decide)),
    hbare _ (.inr (by decide)), hlines.trans (by decide)⟩

end Imports

end Ambient.Reference
