import Ambient.Proofs.Reserved
import Ambient.Proofs.TypeExpr.Applied

/-!
# The references in written types

In the global tree a reference is the dotted name of its symbol, so every reference that is written
in a type stands somewhere in its text. In front of it stands nothing, or what keeps it apart from
everything further in front. Arguments that are not written are not referred to.
-/

namespace Ambient

/-! ## Parts of texts -/

namespace Patch

/-- A text stands in another, behind what shuts it off. -/
def Behind (part text : String) : Prop :=
  ∃ before after, text = before ++ part ++ after ∧ Shuts before.toList

/-- A text stands in another, at its beginning or behind what shuts it off. -/
def Within (part text : String) : Prop := (∃ after, text = part ++ after) ∨ Behind part text

variable {part text whole : String}

/-- Every text stands in itself, at its beginning. -/
theorem Within.refl (text : String) : Within text text := .inl ⟨"", String.append_empty.symm⟩

/-- What shuts a text off shuts off whatever stands at its beginning. -/
theorem behind_append (h : Within part text) {front : String} (hfront : Shuts front.toList)
    (back : String) : Behind part (front ++ text ++ back) := by
  obtain ⟨after, rfl⟩ | ⟨before, after, rfl, hbefore⟩ := h
  · exact ⟨front, after ++ back, by simp only [String.append_assoc], hfront⟩
  · refine ⟨front ++ before, after ++ back, by simp only [String.append_assoc], ?_⟩
    rw [String.toList_append]
    exact hbefore.append _

/-- What stands shut off in a text stays shut off when the text is put between two others. -/
theorem Behind.within (h : Behind part text) (front back : String) :
    Behind part (front ++ text ++ back) := by
  obtain ⟨before, after, rfl, hbefore⟩ := h
  refine ⟨front ++ before, after ++ back, by simp only [String.append_assoc], ?_⟩
  rw [String.toList_append]
  exact hbefore.append _

/-- What is written after a text leaves its shut off parts where they are. -/
theorem Behind.append (h : Behind part text) (back : String) : Behind part (text ++ back) := by
  have hwithin := h.within "" back
  rwa [String.empty_append] at hwithin

/-- What is written before a text leaves its shut off parts shut off. -/
theorem Behind.prepend (h : Behind part text) (front : String) : Behind part (front ++ text) := by
  have hwithin := h.within front ""
  rwa [String.append_empty] at hwithin

/-- What is written after a text leaves everything that stands in it. -/
theorem Within.append (h : Within part text) (back : String) : Within part (text ++ back) := by
  obtain ⟨after, rfl⟩ | hbehind := h
  · exact .inl ⟨after ++ back, by simp only [String.append_assoc]⟩
  · exact .inr (hbehind.append back)

/-- Standing in a text is handed on to every text that one stands in. -/
theorem Within.trans (h : Within part text) (hwhole : Within text whole) : Within part whole := by
  obtain ⟨after, rfl⟩ | ⟨before, after, rfl, hbefore⟩ := hwhole
  · exact h.append after
  · exact .inr (behind_append h hbefore after)

/-- Of texts with separators between them, each stands at the beginning or behind a separator. -/
theorem exists_intercalate (separator : String) {list : List String} (h : part ∈ list) :
    ∃ back, separator.intercalate list = part ++ back ∨
      ∃ front, separator.intercalate list = front ++ separator ++ part ++ back := by
  obtain ⟨before, after, rfl⟩ := List.append_of_mem h
  obtain ⟨back, hback⟩ : ∃ back, separator.intercalate (part :: after) = part ++ back := by
    cases after with
    | nil => exact ⟨"", by rw [String.intercalate_singleton, String.append_empty]⟩
    | cons next rest => exact ⟨_, by rw [String.intercalate_cons_cons, String.append_assoc]⟩
  refine ⟨back, ?_⟩
  cases before with
  | nil => exact .inl hback
  | cons first rest =>
    rw [String.intercalate_append_of_ne_nil (List.cons_ne_nil first rest)
      (List.cons_ne_nil part after), hback]
    exact .inr ⟨separator.intercalate (first :: rest), (String.append_assoc ..).symm⟩

/-- Each text of a list stands in the list, when the separator shuts off what follows it. -/
theorem within_intercalate {separator : String} (hseparator : Shuts separator.toList)
    {list : List String} (h : part ∈ list) : Within part (separator.intercalate list) := by
  obtain ⟨back, hback | ⟨front, hback⟩⟩ := exists_intercalate separator h
  · exact .inl ⟨back, hback⟩
  · refine .inr ⟨front ++ separator, back, hback, ?_⟩
    rw [String.toList_append]
    exact hseparator.append _

/-- What stands shut off in one text of a list does so in the whole list, whatever the separator is.
-/
theorem Behind.intercalate (h : Behind part text) (separator : String) {list : List String}
    (hmem : text ∈ list) : Behind part (separator.intercalate list) := by
  obtain ⟨back, hback | ⟨front, hback⟩⟩ := exists_intercalate separator hmem
  · rw [hback]
    exact h.append back
  · rw [hback]
    exact h.within _ back

/-- A comma with a blank shuts off what is behind it. -/
theorem shuts_comma : Shuts ", ".toList := shuts_blank (by decide)

end Patch

/-! ## Written forms -/

namespace TypeExpr

open Patch

variable {word : String} {args : List String} {part : String}

/-- The item type stands in the array type of it, bare or in parentheses. -/
theorem within_arrayOf (item : String) : Within item (arrayOf item) := by
  rw [arrayOf]
  split
  · have hmark : Shuts "(".toList := shuts_of_not_mem (by decide)
    exact .inr (behind_append (.refl item) hmark _)
  · exact .inl ⟨_, rfl⟩

/-- A name stands at the beginning of its application. -/
theorem within_withArguments (name : String) (args : List String) :
    Within name (withArguments name args) := by
  rw [withArguments]
  split
  · exact .refl name
  · exact .inl ⟨"<" ++ ", ".intercalate args ++ ">", by simp only [String.append_assoc]⟩

/-- Each argument stands in the application, behind the angle bracket or a comma. -/
theorem within_withArguments_of_mem (name : String) (h : part ∈ args) :
    Within part (withArguments name args) := by
  have hne : args ≠ [] := List.ne_nil_of_mem h
  have hmark : Shuts (name ++ "<").toList := by
    rw [String.toList_append]
    exact (shuts_of_not_mem (by decide)).append _
  rw [withArguments, if_neg (by simpa using hne)]
  exact .inr (behind_append (within_intercalate shuts_comma h) hmark ">")

/-- Each member stands in the union of the members. -/
theorem within_alternatives {members : List String} (h : part ∈ members) :
    Within part (alternatives members) := by
  have hbar : Shuts " | ".toList := (shuts_blank (c := '|') (by decide)).append [' ']
  exact within_intercalate hbar (Ordered.Set.mem_ofList.mpr h)

/-- In a fixed meaning stand the arguments that have a place in it. -/
theorem within_builtin? {text : String} (htext : builtin? word args = some text)
    (h : part ∈ args.take (places word args.length)) : Within part text := by
  have hmark (front : List Char) : Shuts (front ++ ['<']) := (shuts_of_not_mem (by decide)).append _
  rw [places] at h
  split_ifs at h with hobject hone hfixed
  · subst hobject
    obtain _ | ⟨key, _ | ⟨value, rest⟩⟩ := args
    · cases h
    · obtain rfl := List.mem_singleton.mp h
      obtain rfl : "Record<string, " ++ part ++ ">" = text := Option.some.inj htext
      exact .inr ⟨_, _, rfl, shuts_comma.append "Record<string".toList⟩
    · obtain rfl : "Record<" ++ key ++ ", " ++ value ++ ">" = text := Option.some.inj htext
      simp only [List.take_succ_cons, List.take_zero, List.mem_cons, List.not_mem_nil,
        or_false] at h
      obtain rfl | rfl := h
      · exact .inr ⟨"Record<", ", " ++ value ++ ">", by simp only [String.append_assoc],
          hmark "Record".toList⟩
      · refine .inr ⟨"Record<" ++ key ++ ", ", ">", rfl, ?_⟩
        rw [String.toList_append]
        exact shuts_comma.append _
  · cases args with
    | nil => cases h
    | cons item rest =>
      obtain rfl := List.mem_singleton.mp h
      simp only [List.contains_iff_mem, List.mem_cons, List.not_mem_nil, or_false] at hone
      obtain rfl | rfl | rfl := hone
      · obtain rfl : arrayOf part = text := Option.some.inj htext
        exact within_arrayOf part
      · obtain rfl : arrayOf part = text := Option.some.inj htext
        exact within_arrayOf part
      · obtain rfl : "Promise<" ++ part ++ ">" = text := Option.some.inj htext
        exact .inr ⟨_, _, rfl, hmark "Promise".toList⟩
  · cases h
  · exact absurd ((builtin?_eq_none_iff args []).mpr (by simpa using hfixed)) (by simp [htext])

/-- An argument that the name has a place for stands in what is written for the two. -/
theorem within_writtenName (h : part ∈ args.take (places word args.length)) :
    Within part (writtenName word args) := by
  rw [writtenName]
  cases hfixed : builtin? word args with
  | some text => exact within_builtin? hfixed h
  | none => exact within_withArguments_of_mem word (List.mem_of_mem_take h)

/-- The operand stands in its `keyof` type, behind a blank. -/
theorem within_keyof (operand : String) : Within operand ("keyof " ++ operand) :=
  .inr ⟨"keyof ", "", String.append_empty.symm, (shuts_blank (by decide)).append "keyo".toList⟩

end TypeExpr

/-! ## Answers in the global tree -/

namespace Declaration

/-- In the global tree, what an action answers has a property, and the tree stays the place of
writing. -/
def InTree {α : Type} (m : Writing α) (P : α → Prop) : Prop :=
  ∀ warnings, P (m.run ⟨.globals, warnings⟩).1 ∧ (m.run ⟨.globals, warnings⟩).2.place = .globals

namespace InTree

variable {α β : Type} {m : Writing α} {k : α → Writing β} {P : α → Prop} {Q : β → Prop}

/-- A given answer meets whatever is true of it. -/
theorem pure {a : α} (h : P a) : InTree (Pure.pure a) P := fun _ => ⟨h, rfl⟩

/-- Two actions, one after the other. -/
theorem bind (h : InTree m P) (hk : ∀ a, P a → InTree (k a) Q) : InTree (m >>= k) Q := by
  intro warnings
  obtain ⟨hanswer, hplace⟩ := h warnings
  change Q ((k (m.run ⟨.globals, warnings⟩).1).run (m.run ⟨.globals, warnings⟩).2).1 ∧
    ((k (m.run ⟨.globals, warnings⟩).1).run (m.run ⟨.globals, warnings⟩).2).2.place = .globals
  generalize m.run ⟨.globals, warnings⟩ = written at hanswer hplace ⊢
  obtain ⟨a, place, notes⟩ := written
  obtain rfl : place = .globals := hplace
  exact hk a hanswer notes

/-- What an answer in the tree meets, it also meets in weaker words. -/
theorem imp (h : InTree m P) {P' : α → Prop} (himp : ∀ a, P a → P' a) : InTree m P' :=
  fun warnings => ⟨himp _ (h warnings).1, (h warnings).2⟩

/-- What holds of every answer. -/
theorem of_forall {uses : List Reference.Use} (h : Refers m uses) (hall : ∀ a, P a) : InTree m P :=
  fun warnings => ⟨hall _, (h.place .globals warnings).trans (Reference.Place.after_globals uses)⟩

/-- An action whose answer does not matter to what comes after it. -/
theorem seq {uses : List Reference.Use} (h : Refers m uses) (hk : ∀ a, InTree (k a) Q) :
    InTree (m >>= k) Q :=
  (of_forall h fun _ => trivial).bind fun a (_ : True) => hk a

/-- In the tree a symbol is referred to by its dotted name, which leaves the tree as the place. -/
theorem refer (s : Symbol) : InTree (Declaration.refer s) fun text => text = s.fqn :=
  fun _ => ⟨rfl, rfl⟩

/-- Elements that are written one by one. -/
theorem mapM {write : α → Writing β} {R : α → β → Prop} (h : ∀ a, InTree (write a) (R a))
    (list : List α) : InTree (list.mapM write) (List.Forall₂ R list) := by
  induction list with
  | nil => exact .pure .nil
  | cons a rest ih =>
    rw [List.mapM_cons]
    exact (h a).bind fun _ hfirst => ih.bind fun _ hrest => .pure (.cons hfirst hrest)

end InTree

end Declaration

/-! ## References in written types -/

namespace TypeExpr

open Declaration (Resolver InTree Refers)
open Patch (Within Behind)

variable {r : Resolver}

/-- An expression mentions a symbol if a name that refers to it is written. -/
def Mentions (r : Resolver) (s : Symbol) (expr : TypeExpr) : Prop :=
  ∃ count, Contains r (IsApplied r s count) expr

/-- Every symbol that an expression mentions stands in a text. -/
def Shows (r : Resolver) (expr : TypeExpr) (text : String) : Prop :=
  ∀ s, Mentions r s expr → Within s.fqn text

/-- A mentioned symbol is referred to by the name in front, or mentioned in a part. -/
theorem Mentions.cases {s : Symbol} {expr : TypeExpr} (h : Mentions r s expr) :
    (∃ count, IsApplied r s count expr) ∨ ∃ part ∈ writtenParts r expr, Mentions r s part := by
  obtain ⟨count, hhere | ⟨hpart, hcontains⟩⟩ := h
  · exact .inl ⟨count, hhere⟩
  · exact .inr ⟨_, hpart, count, hcontains⟩

/-- A text shows what an expression mentions if the name in front and the texts of its parts stand
in it. -/
theorem Shows.of_parts {expr : TypeExpr} {text : String}
    (hhere : ∀ s count, IsApplied r s count expr → Within s.fqn text)
    (hparts : ∀ part ∈ writtenParts r expr, ∃ inner, Shows r part inner ∧ Within inner text) :
    Shows r expr text := by
  intro s hs
  obtain ⟨count, happlied⟩ | ⟨part, hpart, hmentions⟩ := hs.cases
  · exact hhere s count happlied
  · obtain ⟨inner, hshows, hwithin⟩ := hparts part hpart
    exact (hshows s hmentions).trans hwithin

/-- What is paired with a list item by item has a partner for each item of the list. -/
theorem exists_left_of_forall₂ {α β : Type} {R : α → β → Prop} {list : List α} {others : List β}
    (h : List.Forall₂ R list others) {a : α} (ha : a ∈ list) : ∃ b ∈ others, R a b :=
  exists_right_of_forall₂ h.flip ha

/-- What a name is written as in the global tree: nothing of it if it leads nowhere, the dotted name
with all arguments if it refers to a symbol, and otherwise its written form. -/
inductive NameWritten (r : Resolver) (word : String) (texts : List String) : String → Prop
  | dropped : isDropped r word = true → referent? r word = none → NameWritten r word texts "any"
  | reference {s : Symbol} : isDropped r word = false → referent? r word = some s →
      NameWritten r word texts (withArguments s.fqn texts)
  | named : isDropped r word = false → referent? r word = none →
      NameWritten r word texts (writtenName word texts)

/-- A written name with its arguments is what the name and the arguments say in the tree. -/
theorem inTree_writeName (word : String) (texts : List String) :
    InTree (writeName r word texts) (NameWritten r word texts) := by
  cases leads r word with
  | named hdropped hreferent hwrite =>
    rw [hwrite]
    exact .pure (.named hdropped hreferent)
  | symbol s hdropped hreferent _ hwrite =>
    rw [hwrite]
    refine (InTree.refer s).bind fun text htext => .pure ?_
    rw [htext]
    exact .reference hdropped hreferent
  | nowhere message hdropped hreferent hwrite =>
    rw [hwrite]
    exact .seq (Refers.warn _ _) fun _ => .pure (.dropped hdropped hreferent)

/-- What is written for a name shows what the name refers to and what its arguments mention. -/
theorem NameWritten.shows {word text : String} {args : List TypeExpr} {texts : List String}
    (h : NameWritten r word texts text) (hargs : List.Forall₂ (Shows r) args texts) :
    Shows r (.name word args) text := by
  have hparts (hdropped : isDropped r word = false) (part : TypeExpr)
      (hpart : part ∈ writtenParts r (.name word args)) :
      ∃ inner ∈ texts.take (places word texts.length), Shows r part inner := by
    rw [writtenParts, hdropped, parts, hargs.length_eq] at hpart
    exact exists_left_of_forall₂ (List.forall₂_take _ hargs) hpart
  cases h with
  | dropped hdropped hnone =>
    refine .of_parts ?_ fun part hpart => ?_
    · rintro s count ⟨_, _, ⟨⟩, hs, _⟩
      cases hnone.symm.trans hs
    · rw [writtenParts, if_pos hdropped] at hpart
      cases hpart
  | @reference symbol hdropped hsome =>
    refine .of_parts ?_ fun part hpart => ?_
    · rintro s count ⟨_, _, ⟨⟩, hs, _⟩
      obtain rfl := Option.some.inj (hsome.symm.trans hs)
      exact within_withArguments symbol.fqn texts
    · obtain ⟨inner, hinner, hshows⟩ := hparts hdropped part hpart
      exact ⟨inner, hshows, within_withArguments_of_mem _ (List.mem_of_mem_take hinner)⟩
  | named hdropped hnone =>
    refine .of_parts ?_ fun part hpart => ?_
    · rintro s count ⟨_, _, ⟨⟩, hs, _⟩
      cases hnone.symm.trans hs
    · obtain ⟨inner, hinner, hshows⟩ := hparts hdropped part hpart
      exact ⟨inner, hshows, within_writtenName hinner⟩

/-- A type that is no application of a symbol is shown as soon as its written parts are shown in
parts of its text. -/
theorem Shows.of_not_applied {expr : TypeExpr} {text : String}
    (happlied : ∀ s count, ¬ IsApplied r s count expr)
    (hparts : ∀ part ∈ writtenParts r expr, ∃ inner, Shows r part inner ∧ Within inner text) :
    Shows r expr text :=
  .of_parts (fun s count h => absurd h (happlied s count)) hparts

mutual

/-- In the global tree, every symbol that an expression mentions stands in what is written for
it. -/
theorem shows_write : ∀ expr : TypeExpr, InTree (write r expr) (Shows r expr)
  | .name word args => by
    rw [write]
    exact (shows_writeAll args).bind fun texts htexts =>
      (inTree_writeName word texts).imp fun text htext => htext.shows htexts
  | .array item => by
    rw [write]
    refine (shows_write item).bind fun text htext => .pure (.of_not_applied ?_ ?_)
    · rintro s count ⟨_, _, ⟨⟩, _⟩
    · exact List.forall_mem_singleton.mpr ⟨text, htext, within_arrayOf text⟩
  | .union members => by
    rw [write]
    refine (shows_writeAll members).bind fun texts htexts => .pure (.of_not_applied ?_ ?_)
    · rintro s count ⟨_, _, ⟨⟩, _⟩
    · intro part hpart
      obtain ⟨inner, hinner, hshows⟩ := exists_left_of_forall₂ htexts hpart
      exact ⟨inner, hshows, within_alternatives hinner⟩
  | .keyof operand => by
    rw [write]
    refine (shows_write operand).bind fun text htext => .pure (.of_not_applied ?_ ?_)
    · rintro s count ⟨_, _, ⟨⟩, _⟩
    · exact List.forall_mem_singleton.mpr ⟨text, htext, within_keyof text⟩
  | .literal text => by
    rw [write]
    refine .pure (.of_not_applied ?_ nofun)
    rintro s count ⟨_, _, ⟨⟩, _⟩
  | .function => by
    rw [write]
    refine .pure (.of_not_applied ?_ nofun)
    rintro s count ⟨_, _, ⟨⟩, _⟩
  | .unparsed raw => by
    rw [write]
    refine .seq (Refers.warn _ _) fun _ => .pure (.of_not_applied ?_ nofun)
    rintro s count ⟨_, _, ⟨⟩, _⟩

/-- Types written one after another are each shown in their own text. -/
theorem shows_writeAll :
    ∀ exprs : List TypeExpr, InTree (writeAll r exprs) (List.Forall₂ (Shows r) exprs)
  | [] => by
    rw [writeAll]
    exact .pure .nil
  | expr :: rest => by
    rw [writeAll]
    exact (shows_write expr).bind fun text htext =>
      (shows_writeAll rest).bind fun texts htexts => .pure (.cons htext htexts)

end

/-! ### Occurrences -/

/-- Every symbol that is mentioned in occurrences of types stands in a text. -/
def ShowsAll (r : Resolver) (types : List Api.SimpleType) (text : String) : Prop :=
  ∀ type ∈ types, Shows r (ofSimple r.directives type) text

/-- Every symbol that is mentioned in occurrences of types stands in one of some texts, behind what
shuts it off. -/
def ShowsAmong (r : Resolver) (types : List Api.SimpleType) (texts : List String) : Prop :=
  ∀ type ∈ types, ∀ s, Mentions r s (ofSimple r.directives type) → ∃ text ∈ texts, Behind s.fqn text

variable {types more : List Api.SimpleType} {text : String} {texts others : List String}

/-- No types are shown among any texts. -/
theorem ShowsAmong.nil (r : Resolver) (texts : List String) : ShowsAmong r [] texts := nofun

/-- Types shown among two groups of texts are together shown among both. -/
theorem ShowsAmong.append (h : ShowsAmong r types texts) (hmore : ShowsAmong r more others) :
    ShowsAmong r (types ++ more) (texts ++ others) := by
  intro type htype s hs
  obtain htype | htype := List.mem_append.mp htype
  · obtain ⟨text, htext, hbehind⟩ := h type htype s hs
    exact ⟨text, List.mem_append_left _ htext, hbehind⟩
  · obtain ⟨text, htext, hbehind⟩ := hmore type htype s hs
    exact ⟨text, List.mem_append_right _ htext, hbehind⟩

/-- Types shown among some texts are shown among more of them. -/
theorem ShowsAmong.mono (h : ShowsAmong r types texts) (hsub : texts ⊆ others) :
    ShowsAmong r types others := by
  intro type htype s hs
  obtain ⟨text, htext, hbehind⟩ := h type htype s hs
  exact ⟨text, hsub htext, hbehind⟩

/-- A text shows among others what is shown in a part of it, behind what shuts it off. -/
theorem ShowsAll.among {front : String} (h : ShowsAll r types text)
    (hfront : Patch.Shuts front.toList) (back : String) :
    ShowsAmong r types [front ++ text ++ back] := fun type htype s hs =>
  ⟨_, List.mem_singleton.mpr rfl, Patch.behind_append (h type htype s hs) hfront back⟩

/-- What stands in one of some texts stands in every text that has them all as parts. -/
theorem ShowsAmong.of_behind (h : ShowsAmong r types texts) {whole : String}
    (hwhole : ∀ part, ∀ text ∈ texts, Behind part text → Behind part whole) :
    ShowsAmong r types [whole] := by
  intro type htype s hs
  obtain ⟨text, htext, hbehind⟩ := h type htype s hs
  exact ⟨whole, List.mem_singleton.mpr rfl, hwhole s.fqn text htext hbehind⟩

/-- What stands in a text stands in every line that has the text in it. -/
theorem ShowsAmong.within (h : ShowsAmong r types [text]) (front back : String) :
    ShowsAmong r types [front ++ text ++ back] :=
  h.of_behind fun part inner hinner hbehind => by
    obtain rfl := List.mem_singleton.mp hinner
    exact hbehind.within front back

/-- A declared type shows all the types that occur in it. -/
theorem shows_writeDeclared (type : Api.DeclaredType) :
    InTree (writeDeclared r type) (ShowsAll r type.occurrences) := by
  cases type with
  | simple type =>
    exact (shows_write _).imp fun text htext => List.forall_mem_singleton.mpr htext
  | union members link =>
    refine (InTree.mapM (fun type => shows_write (ofSimple r.directives type)) members).bind
      fun texts htexts => .pure fun type htype => ?_
    obtain ⟨inner, hinner, hshows⟩ := exists_left_of_forall₂ htexts htype
    have hne : ¬ texts.isEmpty = true := by simpa using List.ne_nil_of_mem hinner
    rw [if_neg hne]
    exact fun s hs => (hshows s hs).trans (within_alternatives hinner)

/-- A declared type that may be missing shows all the types that occur in it. -/
theorem shows_writeOptional (type : Option Api.DeclaredType) :
    InTree (writeOptional r type) (ShowsAll r (type.elim [] Api.DeclaredType.occurrences)) := by
  cases type with
  | none => exact .pure nofun
  | some type => exact shows_writeDeclared type

/-- A colon with a blank shuts off what is behind it. -/
theorem shuts_colon : Patch.Shuts ": ".toList := Patch.shuts_blank (by decide)

mutual

/-- The type of a parameter shows what is mentioned in it, in option objects at any depth. -/
theorem shows_writeParameterType : ∀ type : Api.ParameterType,
    InTree (writeParameterType r type) (ShowsAll r type.occurrences)
  | .unspecified => by
    rw [writeParameterType, Api.ParameterType.occurrences]
    exact .pure nofun
  | .declared type => by
    rw [writeParameterType, Api.ParameterType.occurrences]
    exact shows_writeDeclared type
  | .shape [] => by
    rw [writeParameterType, Api.ParameterType.occurrences, Api.occurrencesOf]
    exact .pure nofun
  | .shape (entry :: rest) => by
    rw [writeParameterType, Api.ParameterType.occurrences]
    refine (shows_writeEntries (entry :: rest)).bind fun texts htexts => .pure fun type htype => ?_
    intro s hs
    obtain ⟨text, htext, hbehind⟩ := htexts type htype s hs
    exact .inr ((hbehind.intercalate " " htext).within "\x7b " " \x7d")

/-- An entry of an option object shows all the types that occur in it, those of nested entries too.
-/
theorem shows_writeEntry (key : String) : ∀ p : Api.Parameter,
    InTree (writeEntry r key p) (fun text => ShowsAmong r p.occurrences [text])
  | .mk info type => by
    rw [writeEntry, Api.Parameter.occurrences]
    refine (shows_writeParameterType type).bind fun text htext => .pure ?_
    refine htext.among ?_ ";"
    rw [String.toList_append]
    exact shuts_colon.append _

/-- The entries of an option object show all the types that occur in them. -/
theorem shows_writeEntries : ∀ entries : List (String × Api.Parameter),
    InTree (writeEntries r entries) (ShowsAmong r (Api.occurrencesOf entries))
  | [] => by
    rw [writeEntries, Api.occurrencesOf]
    exact .pure nofun
  | (key, entry) :: rest => by
    rw [writeEntries, Api.occurrencesOf]
    exact (shows_writeEntry key entry).bind fun text htext =>
      (shows_writeEntries rest).bind fun texts htexts => .pure (htext.append htexts)

end

end TypeExpr

end Ambient
