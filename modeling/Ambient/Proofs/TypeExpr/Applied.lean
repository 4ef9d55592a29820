import Ambient.Proofs.Declaration.Bindings
import Ambient.Proofs.Declaration.Heritage
import Ambient.Proofs.TypeExpr.Composed

/-!
# References with arguments

No declaration has type parameters, and the clauses of a header name symbols without arguments. In
the types of values, a name that refers to a symbol is written with the arguments that it has there,
so an argument for a class, interface or enum is written wherever the description has one.
-/

namespace Ambient

namespace Declaration

/-- Behind the name in a header come the clauses, and nothing in between. -/
theorem Header.text_eq (header : Header) (name : String) :
    header.text name = header.word ++ name ++ clause "extends" header.heritage.extended
      ++ clause "implements" header.heritage.implemented := by
  have hnone (word : String) : clause word [] = "" := rfl
  cases header with
  | classType isAbstract base implemented => cases isAbstract <;> rfl
  | interfaceType bases => rw [heritage, hnone, String.append_empty]; rfl
  | enumType => simp [text, word, heritage, Heritage.none, hnone]
  | nameSpace isBare => simp [text, word, heritage, Heritage.none, hnone]

/-- The line of an item that opens its body. -/
theorem Item.exists_header (depth : Nat) (head : Head) (header : Header) (members : List Member) :
    ∃ body ∈ [" \x7b", " \x7b\x7d"],
      ⟨depth, exposure depth ++ header.word ++ head.name
        ++ clause "extends" header.heritage.extended
        ++ clause "implements" header.heritage.implemented ++ body⟩
        ∈ (Item.aggregate head header members).lines depth := by
  rw [lines, header.text_eq]
  cases header.isBare with
  | true =>
    refine ⟨" \x7b\x7d", by simp, List.mem_append_right _ (List.mem_singleton.mpr ?_)⟩
    simp only [String.append_assoc]
  | false =>
    refine ⟨" \x7b", by simp, List.mem_append_right _ (List.mem_cons.mpr (.inl ?_))⟩
    simp only [String.append_assoc]

end Declaration

namespace TypeExpr

open Declaration (Resolver)

/-- A name with a number of arguments refers to a symbol. -/
def IsApplied (r : Resolver) (symbol : Symbol) (count : Nat) (expr : TypeExpr) : Prop :=
  ∃ word args, expr = .name word args ∧ referent? r word = some symbol ∧ args.length = count

/-- A written type is a reference to a symbol with a number of arguments. -/
def Composed.IsApplied (symbol : Symbol) (count : Nat) (composed : Composed) : Prop :=
  ∃ spelling args, composed = .reference symbol spelling args ∧ args.length = count

/-- A reference is its spelling alone exactly if it has no arguments. -/
theorem Composed.text_reference_iff (symbol : Symbol) (spelling : String) (args : List Composed) :
    (Composed.reference symbol spelling args).text = spelling ↔ args = [] := by
  rw [text, texts_eq, withArguments]
  cases args with
  | nil => simp
  | cons first rest =>
    refine iff_of_false (fun heq => ?_) (List.cons_ne_nil first rest)
    have hlength := congrArg String.length heq
    have hmark : "<".length = 1 := rfl
    simp only [List.map_cons, List.isEmpty_cons, Bool.false_eq_true, if_false,
      String.length_append] at hlength
    omega

/-- References are written with as many arguments as the names for them have. -/
theorem Composes.exists_isApplied_iff {r : Resolver} {expr : TypeExpr} {composed : Composed}
    (h : Composes r expr composed) (symbol : Symbol) (count : Nat) :
    (∃ node, Composed.Has node composed ∧ node.IsApplied symbol count) ↔
      Contains r (IsApplied r symbol count) expr :=
  h.has_iff fun hnode => hnode.reference_iff

/-- All references in a written type are their spellings alone. -/
def Composed.IsBare (composed : Composed) : Prop :=
  ∀ symbol spelling args, Has (.reference symbol spelling args) composed →
    (reference symbol spelling args).text = spelling

/-- All references are written without arguments exactly if no name for one has arguments. -/
theorem Composes.isBare_iff {r : Resolver} {expr : TypeExpr} {composed : Composed}
    (h : Composes r expr composed) :
    composed.IsBare ↔ ∀ symbol count, Contains r (IsApplied r symbol count) expr → count = 0 := by
  constructor
  · intro hbare symbol count hcontains
    obtain ⟨_, hhas, spelling, args, rfl, rfl⟩ :=
      (h.exists_isApplied_iff symbol count).mpr hcontains
    have hnone := (Composed.text_reference_iff ..).mp (hbare symbol spelling args hhas)
    rw [hnone, List.length_nil]
  · intro hnone symbol spelling args hhas
    have hcontains : Contains r (IsApplied r symbol args.length) expr :=
      (h.exists_isApplied_iff symbol args.length).mp ⟨_, hhas, spelling, args, rfl, rfl⟩
    refine (Composed.text_reference_iff ..).mpr ?_
    exact List.length_eq_zero_iff.mp (hnone symbol args.length hcontains)

end TypeExpr

namespace Library

open Declaration TypeExpr

variable {primary : Library} {dependencies : List Library} {isStrict : Bool} {p : Prepared}

/-- Whatever directives a prepared library is emitted with, in either flavor: behind the name of a
class, interface or enum come at once the clauses of its header, which list symbols spelled without
arguments. In what is written for an occurrence of a type on any page, a symbol is referred to with
so many arguments exactly if a name for it that is written has so many. So no reference is written
with arguments exactly if no name that leads to a symbol has arguments. -/
theorem references_applied_iff (hp : primary.prepare dependencies isStrict = .ok p)
    (d : Directives) (flavor : Flavor) :
    let emitted : Prepared := { p with directives := d }
    let r := emitted.writer.toResolver
    ∃ e, emitted.emit flavor = .ok e ∧
      (∀ head header members place,
        e.document.Stands flavor (.aggregate head header members) place →
        ∃ symbols : Heritage Symbol, ∀ depth, ∃ body ∈ [" \x7b", " \x7b\x7d"],
          ⟨depth, exposure depth ++ header.word ++ head.name
            ++ clause "extends" (symbols.extended.map place.spell)
            ++ clause "implements" (symbols.implemented.map place.spell) ++ body⟩
            ∈ (Item.aggregate head header members).lines depth) ∧
      ∀ type page,
        let expr := ofSimple r.directives type
        let composed := ((compose r expr).run page).1
        ((writeSimple r type).run page).1 = composed.text ∧
        (∀ symbol count,
          (∃ node, Composed.Has node composed ∧ node.IsApplied symbol count) ↔
            Contains r (IsApplied r symbol count) expr) ∧
        (composed.IsBare ↔
          ∀ symbol count, Contains r (IsApplied r symbol count) expr → count = 0) := by
  intro emitted r
  obtain ⟨e, hemit, hwritten⟩ := written_of_prepare hp d flavor
  refine ⟨e, hemit, fun head header members place hstands => ?_, fun type page => ?_⟩
  · obtain ⟨entry, ⟨_, hheritage⟩, _⟩ := hwritten _ place hstands
    refine ⟨emitted.writer.entryHeritage entry, fun depth => ?_⟩
    have hspelled : header.heritage = (emitted.writer.entryHeritage entry).map place.spell :=
      hheritage
    have hheader := Item.exists_header depth head header members
    rw [hspelled] at hheader
    exact hheader
  · intro expr composed
    have hcomposes : Composes r expr composed := ⟨page, rfl⟩
    refine ⟨?_, hcomposes.exists_isApplied_iff, hcomposes.isBare_iff⟩
    rw [writeSimple, write_eq]
    rfl

/-- A library with a class in a namespace, and a constant at the top level of that class with an
argument. -/
def applying : Library where
  name := "app"
  description := .ofTop ⟨{ (default : Api.Scope) with
    kind := .nameSpace
    constants := [{ (default : Api.Variable) with
      kind := .variableDesc
      name := "it"
      type := some (.simple ⟨"ui.Base<string>", false, .unset⟩) }] },
    [.plain "ui" [.plain "Base"] []]⟩
  directives := .empty

/-- An argument of a class is written with it, and an array of the class has none. -/
theorem references_applied_iff_applying :
    ∃ p, applying.prepare [] true = .ok p ∧
      let r := p.writer.toResolver
      let base : Symbol := ⟨"ui.Base", "Base", .classType, "app"⟩
      ∀ page,
        (∃ node, Composed.Has node
            ((compose r (ofSimple r.directives ⟨"ui.Base<string>", false, .unset⟩)).run page).1 ∧
          node.IsApplied base 1) ∧
        ((compose r (ofSimple r.directives ⟨"ui.Base[]", false, .unset⟩)).run page).1.IsBare := by
  obtain ⟨p, hp⟩ : ∃ p, applying.prepare [] true = .ok p := ⟨_, rfl⟩
  have hread : (applying.prepare [] true).map (fun p =>
      (referent? p.writer.toResolver "ui.Base",
        ofSimple p.directives ⟨"ui.Base<string>", false, .unset⟩,
        ofSimple p.directives ⟨"ui.Base[]", false, .unset⟩))
      = .ok (some ⟨"ui.Base", "Base", .classType, "app"⟩, .name "ui.Base" [.name "string" []],
        .array (.name "ui.Base" [])) := by decide +kernel
  rw [hp] at hread
  obtain ⟨hbase, hall⟩ := Prod.mk.inj (Except.ok.inj hread)
  obtain ⟨happlied, hlist⟩ := Prod.mk.inj hall
  obtain ⟨_, _, _, htypes⟩ := references_applied_iff hp p.directives .globals
  refine ⟨p, hp, fun page => ⟨?_, ?_⟩⟩
  · refine ((htypes ⟨"ui.Base<string>", false, .unset⟩ page).2.1 _ 1).mpr (.here ?_)
    exact ⟨_, _, happlied, hbase, rfl⟩
  · refine (htypes ⟨"ui.Base[]", false, .unset⟩ page).2.2.mpr fun symbol count hcontains => ?_
    change Contains _ _ (ofSimple p.directives _) at hcontains
    rw [hlist] at hcontains
    cases hcontains with
    | here hexpr =>
      obtain ⟨_, _, ⟨⟩, _⟩ := hexpr
    | part hitem hcontains =>
      obtain rfl := List.mem_singleton.mp hitem
      cases hcontains with
      | here hexpr =>
        obtain ⟨_, _, ⟨⟩, _, rfl⟩ := hexpr
        rfl
      | part harg => simp [writtenParts, parts] at harg

/-- A reference to a class is written with an argument, and the class without a parameter. -/
theorem not_references_applied_applying :
    ∃ p, applying.prepare [] true = .ok p ∧ ∃ e, p.emit .globals = .ok e ∧
      Tree.linesOf 0 e.document.script
        = [⟨0, "declare const it: ui.Base<string>;"⟩, ⟨0, "declare namespace ui \x7b"⟩,
          ⟨1, "export class Base \x7b"⟩, ⟨1, "\x7d"⟩, ⟨0, "\x7d"⟩] := by
  refine ⟨_, rfl, _, rfl, ?_⟩
  decide +kernel

end Library

end Ambient
