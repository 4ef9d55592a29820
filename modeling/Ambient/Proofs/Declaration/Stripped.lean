import Ambient.Proofs.Declaration.Heritage

/-!
# Interfaces that are stripped

A class names the interfaces that it implements, apart from those that are listed as bad. The list
is asked about an interface before its name is corrected, so a class is stripped of exactly the
listed interfaces if that makes no difference: an entry is listed where its correction is. Its
members stay, whatever is listed.
-/

namespace Ambient

namespace Declaration

open Api

/-! ## Stripping before and after correction -/

section Lists

variable {α β : Type} {f g : α → Option β} {xs : List α}

/-- What is found in fewer cases is a part of what is found. -/
theorem filterMap_sublist (h : ∀ a ∈ xs, ∀ b, f a = some b → g a = some b) :
    (xs.filterMap f).Sublist (xs.filterMap g) := by
  induction xs with
  | nil => exact .slnil
  | cons a rest ih =>
    obtain ⟨hfirst, hrest⟩ := List.forall_mem_cons.mp h
    cases hf : f a with
    | none =>
      rw [List.filterMap_cons_none hf]
      exact (ih hrest).trans ((List.sublist_cons_self a rest).filterMap g)
    | some b =>
      rw [List.filterMap_cons_some hf, List.filterMap_cons_some (hfirst b hf)]
      exact (ih hrest).cons_cons b

/-- If all the same is found in fewer cases, the cases are the same. -/
theorem eq_of_filterMap_eq (h : ∀ a ∈ xs, ∀ b, f a = some b → g a = some b)
    (hsame : xs.filterMap f = xs.filterMap g) : ∀ a ∈ xs, f a = g a := by
  induction xs with
  | nil => exact List.forall_mem_nil _
  | cons a rest ih =>
    obtain ⟨hfirst, hrest⟩ := List.forall_mem_cons.mp h
    cases hf : f a with
    | some b =>
      have hg := hfirst b hf
      rw [List.filterMap_cons_some hf, List.filterMap_cons_some hg, List.cons_inj_right] at hsame
      exact List.forall_mem_cons.mpr ⟨hf.trans hg.symm, ih hrest hsame⟩
    | none =>
      rw [List.filterMap_cons_none hf] at hsame
      cases hg : g a with
      | none =>
        rw [List.filterMap_cons_none hg] at hsame
        exact List.forall_mem_cons.mpr ⟨hf.trans hg.symm, ih hrest hsame⟩
      | some b =>
        -- Then what is found in the rest would be longer than in more cases.
        have hlength := (filterMap_sublist hrest).length_le
        rw [hsame, List.filterMap_cons_some hg, List.length_cons] at hlength
        omega

end Lists

/-- What is declared as a class is a class. -/
theorem Entry.exists_of_form {entry : Entry} (h : entry.form = .classType) :
    ∃ c, entry = .aggregate (.classType c) := by
  cases entry with
  | aggregate n =>
    cases n with
    | classType c => exact ⟨c, rfl⟩
    | interfaceType i => cases h
    | enumType e => cases h
  | constant v => cases h
  | function f => cases h
  | nameSpace s => cases h

namespace Writer

variable (w : Writer) (c : Api.Class)

/-- The symbols that a class names as implemented. -/
def stated : List Symbol := c.implemented.filterMap w.implemented?

/-- The symbols that the entries of a class lead to, apart from those that are listed as bad. -/
def unlisted : List Symbol :=
  (c.implemented.filterMap w.supertype?).filter fun s => !w.directives.isBadInterface s.fqn

/-- A class names all that its entries lead to but what is listed exactly if each of them that leads
somewhere is listed where what it leads to is. -/
theorem stated_eq_unlisted_iff : w.stated c = w.unlisted c ↔
    ∀ fqn ∈ c.implemented, ∀ s, w.supertype? fqn = some s →
      w.directives.isBadInterface fqn = w.directives.isBadInterface s.fqn := by
  let good (s : Symbol) : Bool := !w.directives.isBadInterface s.fqn
  have hentry (fqn : String) : w.implemented? fqn = (w.supertype? fqn).filter good ↔
      ∀ s, w.supertype? fqn = some s →
        w.directives.isBadInterface fqn = w.directives.isBadInterface s.fqn := by
    rw [implemented?]
    cases w.supertype? fqn with
    | none => simp
    | some s =>
      rw [Option.filter_some]
      cases w.directives.isBadInterface fqn <;> cases hs : w.directives.isBadInterface s.fqn <;>
        simp [good, hs]
  rw [unlisted, List.filter_filterMap, ← forall₂_congr fun fqn _ => hentry fqn]
  constructor
  · intro hsame
    refine eq_of_filterMap_eq (fun fqn hfqn s hs => ?_) hsame
    have hmem : s ∈ c.implemented.filterMap fun fqn => (w.supertype? fqn).filter good :=
      hsame ▸ List.mem_filterMap.mpr ⟨fqn, hfqn, hs⟩
    obtain ⟨other, _, hother⟩ := List.mem_filterMap.mp hmem
    refine Option.filter_eq_some_iff.mpr ⟨(Option.ite_none_left_eq_some.mp hs).2, ?_⟩
    exact (Option.filter_eq_some_iff.mp hother).2
  · exact List.filterMap_congr

end Writer

/-! ## What is declared -/

section Listed

variable (d : Directives) (nameOf : Naming) (listed : Ordered.Set String)

/-- Planning meets the same namespaces whatever interfaces are bad. -/
theorem visits_relisted (ns : Namespace) :
    visits { d with badInterfaces := listed } nameOf ns = visits d nameOf ns := by
  induction ns using Namespace.induction with
  | step scope nested ih =>
    rw [visits, visits, visitsOf_eq, visitsOf_eq, List.flatMap_congr ih]
    rfl

/-- What is planned does not depend on which interfaces are bad. -/
theorem plan_relisted (top : Namespace) :
    Plan.of { d with badInterfaces := listed } nameOf top = Plan.of d nameOf top := by
  rw [Plan.of, visits_relisted]
  rfl

/-- The same is declared, whatever interfaces are listed as bad. -/
theorem map_outline_relisted (library : String) (table : Symbol.Table) (flavor : Flavor)
    (top : Namespace) :
    let relisted : Directives := { d with badInterfaces := listed }
    (emitNamed library table relisted flavor nameOf top).document.items.map Item.outline
      = (emitNamed library table d flavor nameOf top).document.items.map Item.outline := by
  intro relisted
  let plan := Plan.of d nameOf top
  let w := writerFor library table d nameOf plan
  let u := writerFor library table relisted nameOf plan
  have hplan : Plan.of relisted nameOf top = plan := plan_relisted d nameOf listed top
  have hw : w.Follows top := Writer.follows_writerFor ..
  have hu : u.Follows top := by
    have hfollows := Writer.follows_writerFor library table relisted nameOf top
    rwa [hplan] at hfollows
  have hseen : seenBelow u.directives u.nameOf top = seenBelow w.directives w.nameOf top := by
    rw [seenBelow, seenBelow, shown, shown]
    exact congrArg (fun met => (met.filterMap Visit.shown?).tail)
      (visits_relisted d nameOf listed top)
  -- Neither the plan nor the entries ask which interfaces are bad; only the headers do.
  have hentries : u.entries flavor plan.modules top = w.entries flavor plan.modules top := by
    cases flavor with
    | globals =>
      rw [(hu.entries_eq plan.modules).1, (hw.entries_eq plan.modules).1, hseen]
      rfl
    | modules =>
      rw [(hu.entries_eq plan.modules).2, (hw.entries_eq plan.modules).2, hseen]
      rfl
  have houtline (entry : Entry) : u.outline? entry = w.outline? entry := by cases entry <;> rfl
  rw [map_outline_emitNamed, map_outline_emitNamed, hplan]
  change u.outlines (u.entries flavor plan.modules top)
    = w.outlines (w.entries flavor plan.modules top)
  rw [hentries, Writer.outlines, Writer.outlines, funext houtline]

end Listed

end Declaration

namespace Library

open Declaration Api

variable {primary : Library} {dependencies : List Library} {isStrict : Bool} {p : Prepared}

/-- Whatever directives a prepared library is emitted with, in either flavor, a class that is
written is a class in sight with all the members that are kept of it. Its clause lists, in order,
references to what its entries lead to, without the entries that are listed as bad. These are the
references to what is not listed exactly if each entry that leads somewhere is listed where its
correction is. With other interfaces listed, the same classes and members are declared. -/
theorem strips_listed_iff (hp : primary.prepare dependencies isStrict = .ok p) (d : Directives)
    (flavor : Flavor) :
    let emitted : Prepared := { p with directives := d }
    let w := emitted.writer
    let top := p.linked.description.top
    ∃ e, emitted.emit flavor = .ok e ∧
      (∀ item place, e.document.Stands flavor item place →
        item.outline.title.form = .classType →
        ∃ ns c, InSight d w.nameOf top ns ∧ c ∈ ns.scope.classes ∧
          item.outline = typeOutline d w.nameOf (.classType c) ∧
          item.heritage.implemented = (w.stated c).map place.spell ∧
          (w.stated c = w.unlisted c ↔ ∀ fqn ∈ c.implemented, w.supertype? fqn ≠ none →
            d.isBadInterface fqn = d.isBadInterface (d.correctName fqn))) ∧
      ∀ listed, ∃ other,
        ({ p with directives := { d with badInterfaces := listed } } : Prepared).emit flavor
          = .ok other ∧
        other.document.items.map Item.outline = e.document.items.map Item.outline := by
  intro emitted w top
  have hrun := (of_prepare hp).1
  obtain ⟨e, hemit, hwritten⟩ := written_of_prepare hp d flavor
  refine ⟨e, hemit, fun item place hstands hform => ?_, fun listed => ?_⟩
  · obtain ⟨entry, ⟨houtline, hheritage⟩, hentry⟩ := hwritten item place hstands
    obtain ⟨c, rfl⟩ := Entry.exists_of_form ((w.title_of_outline? houtline).2.symm.trans hform)
    obtain ⟨ns, hsight, hn, -⟩ := hentry _ rfl
    refine ⟨ns, c, hsight, by simpa [Scope.types] using hn, ?_, ?_, ?_⟩
    · exact (Writer.outline?_aggregate.mp houtline).2.symm
    · rw [hheritage]
      rfl
    · rw [w.stated_eq_unlisted_iff]
      refine forall₂_congr fun fqn _ => ?_
      constructor
      · intro h hleads
        obtain ⟨s, hs⟩ := Option.ne_none_iff_exists'.mp hleads
        exact (of_supertype? hp d hs).1 ▸ h s hs
      · intro h s hs
        exact (of_supertype? hp d hs).1 ▸ h (Option.ne_none_iff_exists'.mpr ⟨s, hs⟩)
  · have hother := emit_of_run hrun p.table { d with badInterfaces := listed } flavor
    refine ⟨_, hother, (map_outline_relisted ..).trans ?_⟩
    rw [← Except.ok.inj ((emit_of_run hrun p.table d flavor).symm.trans hemit)]

/-- A library with a listed interface, a class with an entry for it, and one with an entry that is
corrected to it. -/
def stripping : Library :=
  let interface (name : String) : Interface :=
    { (default : Interface) with kind := .interfaceType, name := name }
  let close : Function := { (default : Function) with kind := .functionDesc, name := "close" }
  let classes : List Api.Class :=
    [{ Class.plain "Panel" with implemented := ["my.IBad", "my.IGood"], methods := [close] },
      { Class.plain "Frame" with implemented := ["my.IBadd"] }]
  let scope : Scope :=
    { (default : Scope) with
      kind := .nameSpace, name := "my", classes := classes
      interfaces := [interface "IBad", interface "IGood"] }
  { name := "app"
    description := .ofTop (.plain "" [] [⟨scope, []⟩])
    directives := { Directives.empty with
      badInterfaces := .ofList ["my.IBad"], typos := .ofListLast [("my.IBadd", "my.IBad")] } }

/-- In a library with a listed interface, a class implements the other one only. -/
theorem strips_listed_iff_stripping :
    ∃ p, stripping.prepare [] false = .ok p ∧ ∀ flavor, ∃ e, p.emit flavor = .ok e ∧
      ∃ item place, e.document.Stands flavor item place ∧
        item.outline = ⟨⟨"my.Panel", "Panel", .classType⟩, [⟨"my.Panel.close", "close", .method⟩]⟩ ∧
        item.heritage.implemented = [if flavor = .globals then "my.IGood" else "IGood"] ∧
        ∃ c, item.outline = typeOutline p.directives p.writer.nameOf (.classType c) ∧
          item.heritage.implemented = (p.writer.stated c).map place.spell := by
  obtain ⟨p, hp⟩ := exists_prepare stripping []
  refine ⟨p, hp, fun flavor => ?_⟩
  obtain ⟨e, hemit, hclasses, -⟩ := strips_listed_iff hp p.directives flavor
  have hread : (stripping.prepare [] false).map (fun p => (p.emit flavor).map fun e =>
      decide (∃ item ∈ e.document.items, item.outline
          = ⟨⟨"my.Panel", "Panel", .classType⟩, [⟨"my.Panel.close", "close", .method⟩]⟩ ∧
        item.heritage.implemented = [if flavor = .globals then "my.IGood" else "IGood"]))
      = .ok (.ok true) := by
    cases flavor <;> decide +kernel
  simp only [hp, Except.map, show p.emit flavor = .ok e from hemit, Except.ok.injEq,
    decide_eq_true_eq] at hread
  obtain ⟨item, hitem, houtline, himplemented⟩ := hread
  obtain ⟨place, hstands⟩ := Document.exists_stands hitem
  obtain ⟨_, c, _, _, hsame, hstated, _⟩ := hclasses item place hstands (by rw [houtline])
  exact ⟨e, hemit, item, place, hstands, houtline, himplemented, c, hsame, hstated⟩

/-- An entry that is corrected to a listed interface stays. -/
theorem not_stripped_stripping :
    ∃ p, stripping.prepare [] true = .ok p ∧ p.directives.isBadInterface "my.IBad" = true ∧
      (p.writer.supertype? "my.IBadd").map Symbol.fqn = some "my.IBad" ∧
      ∀ flavor, ∃ e, p.emit flavor = .ok e ∧ ∃ item ∈ e.document.items,
        item.outline = ⟨⟨"my.Frame", "Frame", .classType⟩, []⟩ ∧
        item.heritage.implemented = [if flavor = .globals then "my.IBad" else "IBad"] := by
  refine ⟨_, rfl, by decide, by decide, fun flavor => ⟨_, rfl, ?_⟩⟩
  cases flavor <;> decide +kernel

end Library

end Ambient
