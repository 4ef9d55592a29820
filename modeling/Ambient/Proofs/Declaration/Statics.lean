import Ambient.Proofs.Declaration.InSight
import Ambient.Proofs.Declaration.Resolution
import Ambient.Proofs.Declaration.Views

/-!
# Static members in interfaces

Members of classes, interfaces and namespaces made into interfaces are written in the same way, each
with the word `static` in front if its node is static. Only classes can have such members, so the
body of an interface is in order exactly if no node that it is written from is static.
-/

namespace Ambient

namespace Declaration

open Api

/-! ## Members -/

/-- Whether a member is static. -/
def Member.isStatic (m : Member) : Bool :=
  match m.body with
  | .property isStatic _ => isStatic
  | .method isStatic _ => isStatic
  | .construct _ => false
  | .value => false

/-- The title of a member, and whether it is static. -/
def Member.mark (m : Member) : Title × Bool := (m.title, m.isStatic)

/-- Whether a header is that of an interface, which can have been made from a namespace. -/
def Header.isInterface : Header → Bool
  | .interfaceType _ => true
  | .nameSpace _ => true
  | .classType .. => false
  | .enumType => false

/-- The members in the body of an interface; other items have none. -/
def Item.interfaceMembers : Item → List Member
  | .aggregate _ header members => if header.isInterface then members else []
  | .constant .. => []
  | .function .. => []

/-- What is seen of an interface: its members and which of them are static. -/
def Item.marks (item : Item) : List (Title × Bool) := item.interfaceMembers.map Member.mark

/-- Text that starts with a word and a blank starts with a name of plain characters only if the
name is the word, and not if something else than a blank follows. -/
theorem not_word_isPrefix (word : List Char) {name rest : List Char} {c : Char} (hname : ' ' ∉ name)
    (hc : c ∉ word ++ [' ']) : ¬ word ++ [' '] <+: name ++ c :: rest := by
  intro h
  obtain hlong | ⟨ending, hshort⟩ :=
    List.prefix_or_prefix_of_prefix h (List.prefix_append name (c :: rest))
  · exact hname (hlong.subset (by simp))
  · rw [← hshort, List.prefix_append_right_inj] at h
    cases ending with
    | nil =>
      rw [List.append_nil] at hshort
      exact hname (hshort ▸ by simp)
    | cons d ending =>
      rw [(List.cons_prefix_cons.mp h).1] at hshort
      exact hc (by simp [← hshort])

/-- The key of a property has no blank in it, or stands in quotes. -/
theorem propertyKey_cases (name : String) :
    ' ' ∉ (Identifier.propertyKey name).toList ∨
      ∃ rest, (Identifier.propertyKey name).toList = '\x22' :: rest := by
  rw [Identifier.propertyKey]
  split
  · next hplain =>
    refine .inl fun hblank => ?_
    rw [Identifier.isPlain] at hplain
    cases hchars : name.toList with
    | nil => rw [hchars] at hblank; cases hblank
    | cons first rest =>
      rw [hchars, Identifier.isPlainChars, Bool.and_eq_true, List.all_eq_true] at hplain
      rw [hchars] at hblank
      obtain rfl | hblank := List.mem_cons.mp hblank
      · exact nomatch hplain.1
      · exact nomatch hplain.2 _ hblank
  · exact .inr ⟨_, by rw [Identifier.literal, String.toList_ofList, List.cons_append]⟩

/-- Behind a property key comes something else than a blank, so the key is not taken for a
modifier. -/
theorem not_static_isPrefix_key (name : String) {c : Char} (hc : c ∉ "static ".toList)
    (rest : List Char) :
    ¬ "static ".toList <+: (Identifier.propertyKey name).toList ++ c :: rest := by
  obtain hkey | ⟨quoted, hkey⟩ := propertyKey_cases name
  · exact not_word_isPrefix "static".toList hkey hc
  · rw [hkey]
    intro h
    exact nomatch (List.cons_prefix_cons.mp h).1

/-- The text of a signature starts with a parenthesis. -/
theorem Signature.exists_text_eq (s : Signature) : ∃ rest, s.text.toList = '(' :: rest := by
  rw [text]
  exact ⟨_, by rw [String.append_assoc, String.append_assoc, String.toList_append]; rfl⟩

/-- A member that is not the value of an enum carries the modifier exactly if it is static. -/
theorem Member.static_isPrefix_text {m : Member} (h : m.body.form ≠ .value) :
    "static ".toList <+: m.text.toList ↔ m.isStatic = true := by
  obtain ⟨head, body⟩ := m
  cases body with
  | construct signature =>
    exact iff_of_false (by simp [text, String.toList_append]) Bool.false_ne_true
  | property isStatic type =>
    cases isStatic with
    | true => exact iff_of_true ⟨_, by simp [text, staticWord, String.toList_append]; rfl⟩ rfl
    | false =>
      refine iff_of_false ?_ Bool.false_ne_true
      have hkey := not_static_isPrefix_key head.name (c := ':') (by decide)
        ([' '] ++ type.toList ++ [';'])
      simpa [text, staticWord, String.toList_append] using hkey
  | method isStatic signature =>
    cases isStatic with
    | true => exact iff_of_true ⟨_, by simp [text, staticWord, String.toList_append]; rfl⟩ rfl
    | false =>
      refine iff_of_false ?_ Bool.false_ne_true
      obtain ⟨rest, hrest⟩ := signature.exists_text_eq
      have hkey := not_static_isPrefix_key head.name (c := '(') (by decide) (rest ++ [';'])
      simpa [text, staticWord, hrest, String.toList_append] using hkey
  | value => exact absurd rfl h

/-! ## Marks of entries -/

namespace Writer

variable (w : Writer)

/-- A variable as a member, and whether it is static. -/
def propertyMark (v : Variable) : Title × Bool := (w.nameOf.variableTitle .property v, v.isStatic)

/-- A function as a member, and whether it is static. -/
def methodMark (f : Function) : Title × Bool := (w.nameOf.functionTitle .method f, f.isStatic)

/-- The members that an interface has if none are excluded, and which of them are static. -/
def marks (properties : List Variable) (methods : List Function) : List (Title × Bool) :=
  properties.map w.propertyMark ++ methods.map w.methodMark

/-- What is seen of an entry as an interface, unless the entry is left out. -/
def entryMarks : Entry → Option (List (Title × Bool))
  | .aggregate (.interfaceType i) =>
    if w.emitted.contains (w.nameOf i.link) then
      some ((w.marks i.properties i.methods).filter fun mark => keepsMember w.directives mark.1)
    else none
  | .nameSpace s =>
    some ((w.marks s.constants s.functions).filter fun mark =>
      !w.directives.isBadSymbol mark.1.fqn)
  | entry => (w.outline? entry).map fun _ => []

/-- A property is written with its mark, unless it is excluded. -/
theorem writes_propertyMark (v : Variable) :
    ∃ notes, Writes (w.property v) (Option.map Member.mark)
      (if !w.directives.isBadSymbol (w.propertyMark v).1.fqn then some (w.propertyMark v)
        else none) notes := by
  obtain ⟨notes, htype⟩ := TypeExpr.notes_writeOptional w.toResolver v.type
  have hmember : ∃ notes, Writes (TypeExpr.writeOptional w.toResolver v.type >>= fun type =>
      pure (⟨w.headOf (w.nameOf v.link) v.name v.doc, .property v.isStatic type⟩ : Member))
      Member.mark (w.propertyMark v) notes :=
    ⟨notes ++ [], htype.bind fun _ _ => .pure rfl⟩
  exact writes_kept (w.writes_keeps (w.nameOf v.link)) hmember

/-- A function as a member is written with its mark. -/
theorem writes_functionMark (f : Function) :
    ∃ notes, Writes (w.memberFunction (w.nameOf f.link) f) Member.mark (w.methodMark f) notes := by
  obtain ⟨notes, hsignature⟩ := w.notes_signature f
  exact ⟨notes ++ [], hsignature.bind fun _ _ => .pure rfl⟩

/-- A method is written with its mark, unless it is excluded. -/
theorem writes_methodMark (f : Function) :
    ∃ notes, Writes (w.method f) (Option.map Member.mark)
      (if keepsMember w.directives (w.methodMark f).1 then some (w.methodMark f) else none)
      notes := by
  rw [methodMark, Naming.functionTitle, keepsMember_method]
  exact writes_kept (w.writes_keepsMethod (w.nameOf f.link) f.name) (w.writes_functionMark f)

/-- A function of a namespace that is an interface is written with its mark, unless its dotted name
is bad. -/
theorem writes_nameSpaceMethodMark (f : Function) :
    ∃ notes, Writes (w.nameSpaceMethod f) (Option.map Member.mark)
      (if !w.directives.isBadSymbol (w.methodMark f).1.fqn then some (w.methodMark f) else none)
      notes :=
  writes_kept (w.writes_keeps (w.nameOf f.link)) (w.writes_functionMark f)

/-- An interface is written with the marks of its members. -/
theorem writes_interfaceMarks (i : Interface) :
    ∃ notes, Writes (w.interfaceType i) (Option.map Item.marks)
      (w.entryMarks (.aggregate (.interfaceType i))) notes := by
  let keep (mark : Title × Bool) : Bool := keepsMember w.directives mark.1
  have hproperty (v : Variable) : ∃ notes, Writes (w.property v) (Option.map Member.mark)
      (if keep (w.propertyMark v) then some (w.propertyMark v) else none) notes := by
    have hwrites := w.writes_propertyMark v
    rwa [← keepsMember_of_ne _ (by simp [propertyMark, Naming.variableTitle])] at hwrites
  obtain ⟨_, hbases⟩ := notes_writeSome (w.notes_supertype (w.nameOf i.link)) i.bases
  obtain ⟨_, hproperties⟩ := writes_filtered _ _ _ keep hproperty i.properties
  obtain ⟨_, hmethods⟩ := writes_filtered _ _ _ keep w.writes_methodMark i.methods
  unfold interfaceType entryMarks
  dsimp only
  cases w.emitted.contains (w.nameOf i.link) with
  | false => exact ⟨[], .pure rfl⟩
  | true =>
    refine ⟨_, hbases.bind fun _ _ => hproperties.bind fun properties hp =>
      hmethods.bind fun methods hm => .pure (congrArg some ?_)⟩
    change (properties ++ methods).map Member.mark = _
    rw [List.map_append, hp, hm, marks, List.filter_append]

/-- A namespace written as an interface has the marks of its functions. -/
theorem writes_nameSpaceMarks (s : Scope) :
    ∃ notes, Writes (w.write (.nameSpace s)) (Option.map Item.marks)
      (w.entryMarks (.nameSpace s)) notes := by
  obtain ⟨_, hproperties⟩ := writes_filtered _ _ w.propertyMark
    (fun mark => !w.directives.isBadSymbol mark.1.fqn) w.writes_propertyMark s.constants
  obtain ⟨_, hmethods⟩ := writes_filtered _ _ w.methodMark
    (fun mark => !w.directives.isBadSymbol mark.1.fqn) w.writes_nameSpaceMethodMark s.functions
  have hinterface : Writes (w.nameSpaceInterface s) (fun item => some item.marks)
      (w.entryMarks (.nameSpace s)) _ :=
    hproperties.bind fun properties hp => hmethods.bind fun methods hm =>
      .pure (congrArg some (by
        change (properties ++ methods).map Member.mark = _
        rw [List.map_append, hp, hm, marks, List.filter_append]))
  exact ⟨_, hinterface.bind fun item hitem => .pure hitem⟩

end Writer

/-- An item that is not an interface has no members in the body of one. -/
theorem Item.marks_eq_nil {item : Item} (hinterface : item.outline.title.form ≠ .interfaceType)
    (hnameSpace : item.outline.title.form ≠ .nameSpace) : item.marks = [] := by
  cases item with
  | constant head type => rfl
  | function head signature => rfl
  | aggregate head header members =>
    cases header with
    | classType isAbstract base implemented => rfl
    | interfaceType bases => exact absurd rfl hinterface
    | enumType => rfl
    | nameSpace isBare => exact absurd rfl hnameSpace

namespace Writer

variable (w : Writer)

/-- What is written for an entry that is not an interface is not one either. -/
theorem marks_of_outline? {entry : Entry} (page : Page) (hinterface : entry.form ≠ .interfaceType)
    (hnameSpace : entry.form ≠ .nameSpace) :
    ((w.write entry).run page).1.map Item.marks = (w.outline? entry).map fun _ => [] := by
  have houtline := (w.writes_entry entry).answer page
  cases hitem : ((w.write entry).run page).1 with
  | none =>
    rw [← houtline, hitem]
    rfl
  | some item =>
    rw [hitem] at houtline
    have hform := (w.title_of_outline? houtline.symm).2
    rw [← houtline]
    exact congrArg some (Item.marks_eq_nil (hform ▸ hinterface) (hform ▸ hnameSpace))

/-- The members in the bodies of interfaces, and which of them are static, do not depend on the
page. -/
def marksView : View w (List (Title × Bool)) where
  admits _ := True
  observe := Item.marks
  value := w.entryMarks
  answer entry page _ := by
    cases entry with
    | constant v => exact w.marks_of_outline? page nofun nofun
    | function f => exact w.marks_of_outline? page nofun nofun
    | aggregate n =>
      cases n with
      | classType c => exact w.marks_of_outline? page nofun nofun
      | interfaceType i =>
        obtain ⟨_, hwrites⟩ := w.writes_interfaceMarks i
        exact hwrites.answer page
      | enumType e => exact w.marks_of_outline? page nofun nofun
    | nameSpace s =>
      obtain ⟨_, hwrites⟩ := w.writes_nameSpaceMarks s
      exact hwrites.answer page
  keeps _ _ _ := trivial

end Writer

/-- The members of an interface are properties and methods, so those that carry the modifier are the
static ones. -/
theorem Item.exists_static_iff {item : Item} {title : Title}
    (h : ∀ mark ∈ item.marks, mark.1.form ≠ .value) :
    (∃ m ∈ item.interfaceMembers, m.title = title ∧ "static ".toList <+: m.text.toList) ↔
      (title, true) ∈ item.marks := by
  rw [marks, List.mem_map]
  refine exists_congr fun m => and_congr_right fun hm => ?_
  rw [Member.static_isPrefix_text (h _ (List.mem_map_of_mem hm)), Member.mark, Prod.mk.injEq]

/-! ## Emission -/

/-- A title is that of a static member of an interface in sight: the member is not excluded, and
neither is the interface. Namespaces are interfaces where they are written as such; with module
blocks, this is done in the block of the namespace around it, if that has one. -/
inductive Writer.StaticInSight (w : Writer) (flavor : Flavor) (top : Namespace)
    (title : Title) : Prop
  | ofInterface {ns : Namespace} {i : Interface} (hns : InSight w.directives w.nameOf top ns)
      (hi : i ∈ ns.scope.interfaces) (hshown : w.directives.isBadSymbol (w.nameOf i.link) = false)
      (hkept : keepsMember w.directives title = true)
      (hmark : (title, true) ∈ w.marks i.properties i.methods)
  | ofNameSpace {outer child : Namespace} (houter : InSight w.directives w.nameOf top outer)
      (hplace : flavor = .modules → outer = top ∨
        (Plan.of w.directives w.nameOf top).modules.contains (w.nameOf.nameSpace outer) = true)
      (hchild : child ∈ outer.nested) (hshown : w.isEmittedInterface child = true)
      (hkept : w.directives.isBadSymbol title.fqn = false)
      (hmark : (title, true) ∈ w.marks child.scope.constants child.scope.functions)

namespace Writer

variable {w : Writer} {top : Namespace} {path : String} {title : Title}

/-- What is seen as static of an entry is that of an emitted interface or of a namespace. -/
theorem mem_entryMarks_iff {entry : Entry} :
    (∃ marks ∈ w.entryMarks entry, (title, true) ∈ marks) ↔
      (∃ i, entry = .aggregate (.interfaceType i) ∧
        w.emitted.contains (w.nameOf i.link) = true ∧ keepsMember w.directives title = true ∧
        (title, true) ∈ w.marks i.properties i.methods) ∨
      ∃ s, entry = .nameSpace s ∧ w.directives.isBadSymbol title.fqn = false ∧
        (title, true) ∈ w.marks s.constants s.functions := by
  constructor
  · rintro ⟨marks, h, hmark⟩
    have hnone {o : Option Outline} (h : o.map (fun _ => []) = some marks) : False := by
      obtain ⟨_, _, rfl⟩ := Option.map_eq_some_iff.mp h
      cases hmark
    cases entry with
    | constant v => exact (hnone h).elim
    | function f => exact (hnone h).elim
    | aggregate n =>
      cases n with
      | classType c => exact (hnone h).elim
      | interfaceType i =>
        obtain ⟨hemitted, hsome⟩ := Option.ite_none_right_eq_some.mp h
        rw [← Option.some.inj hsome, List.mem_filter] at hmark
        exact .inl ⟨i, rfl, hemitted, hmark.2, hmark.1⟩
      | enumType e => exact (hnone h).elim
    | nameSpace s =>
      rw [← Option.some.inj h, List.mem_filter, Bool.not_eq_true'] at hmark
      exact .inr ⟨s, rfl, hmark.2, hmark.1⟩
  · rintro (⟨i, rfl, hemitted, hkept, hmark⟩ | ⟨s, rfl, hkept, hmark⟩)
    · exact ⟨_, if_pos hemitted, List.mem_filter.mpr ⟨hmark, hkept⟩⟩
    · exact ⟨_, rfl, List.mem_filter.mpr ⟨hmark, by simpa using hkept⟩⟩

/-- The members of an interface are properties and methods. -/
theorem form_ne_value_of_entryMarks {marks : List (Title × Bool)} {entry : Entry}
    (h : w.entryMarks entry = some marks) : ∀ mark ∈ marks, mark.1.form ≠ .value := by
  have hmarks {properties : List Variable} {methods : List Function} {keep : Title × Bool → Bool} :
      ∀ mark ∈ (w.marks properties methods).filter keep, mark.1.form ≠ .value := by
    intro mark hmark
    obtain hproperty | hmethod := List.mem_append.mp (List.mem_filter.mp hmark).1
    · obtain ⟨v, _, rfl⟩ := List.mem_map.mp hproperty
      exact nofun
    · obtain ⟨f, _, rfl⟩ := List.mem_map.mp hmethod
      exact nofun
  have hnone {o : Option Outline} (h : o.map (fun _ => []) = some marks) :
      ∀ mark ∈ marks, mark.1.form ≠ .value := by
    obtain ⟨_, _, rfl⟩ := Option.map_eq_some_iff.mp h
    exact List.forall_mem_nil _
  cases entry with
  | constant v => exact hnone h
  | function f => exact hnone h
  | aggregate n =>
    cases n with
    | classType c => exact hnone h
    | interfaceType i => exact Option.some.inj (Option.ite_none_right_eq_some.mp h).2 ▸ hmarks
    | enumType e => exact hnone h
  | nameSpace s => exact Option.some.inj h ▸ hmarks

/-- The static members that are written into interfaces are those in sight. -/
theorem Follows.staticInSight_iff (hw : w.Follows top) (hnames : w.NamesAll (top.inside path))
    (flavor : Flavor) :
    (∃ entry ∈ w.entries flavor (Plan.of w.directives w.nameOf top).modules top,
        ∃ marks ∈ w.entryMarks entry, (title, true) ∈ marks) ↔
      w.StaticInSight flavor top title := by
  have htypes (n : TypeNode) := hw.aggregate_mem_entries_iff hnames flavor n
  have hinterface {i : Interface} {ns : Namespace} :
      .interfaceType i ∈ ns.scope.types ↔ i ∈ ns.scope.interfaces := by
    simp [Scope.types]
  constructor
  · rintro ⟨entry, hentry, hmarks⟩
    obtain ⟨i, rfl, hemitted, hkept, hmark⟩ | ⟨s, rfl, hkept, hmark⟩ := mem_entryMarks_iff.mp hmarks
    · obtain ⟨hshown, ns, hns, hi⟩ := (htypes _).mp ⟨hentry, hemitted⟩
      exact .ofInterface hns (hinterface.mp hi) hshown hkept hmark
    · cases htop : excludes w.directives (w.nameOf.nameSpace top) with
      | true => exact absurd hentry (hw.nameSpace_not_mem_of_excluded htop flavor _ s)
      | false =>
        -- Where an interface made of a namespace stands depends on the flavor, unlike anything
        -- else here.
        cases flavor with
        | globals =>
          obtain ⟨outer, houter, child, hchild, rfl, hshown⟩ :=
            (hw.nameSpace_mem_entries_globals htop).mp hentry
          exact .ofNameSpace houter (fun h => by cases h) hchild hshown hkept hmark
        | modules =>
          obtain ⟨outer, houter, hplace, child, hchild, rfl, hshown⟩ :=
            (hw.nameSpace_mem_entries_modules htop).mp hentry
          exact .ofNameSpace houter (fun _ => hplace) hchild hshown hkept hmark
  · intro h
    cases h with
    | @ofInterface ns i hns hi hshown hkept hmark =>
      obtain ⟨hentry, hemitted⟩ :=
        (htypes (.interfaceType i)).mpr ⟨hshown, ns, hns, hinterface.mpr hi⟩
      exact ⟨_, hentry, mem_entryMarks_iff.mpr (.inl ⟨i, rfl, hemitted, hkept, hmark⟩)⟩
    | @ofNameSpace outer child houter hplace hchild hshown hkept hmark =>
      refine ⟨.nameSpace child.scope, ?_, mem_entryMarks_iff.mpr (.inr ⟨_, rfl, hkept, hmark⟩)⟩
      cases flavor with
      | globals =>
        exact (hw.nameSpace_mem_entries_globals houter.not_excluded.1).mpr
          ⟨outer, houter, child, hchild, rfl, hshown⟩
      | modules =>
        exact (hw.nameSpace_mem_entries_modules houter.not_excluded.1).mpr
          ⟨outer, houter, hplace rfl, child, hchild, rfl, hshown⟩

/-- In a document, the members of interfaces that carry the modifier are the static ones in
sight. -/
theorem Follows.static_iff (hw : w.Follows top) (hnames : w.NamesAll (top.inside path))
    (flavor : Flavor) (page : Page) (title : Title) :
    let modules := (Plan.of w.directives w.nameOf top).modules
    (∃ item ∈ ((w.document flavor modules top).run page).1.items, ∃ m ∈ item.interfaceMembers,
        m.title = title ∧ "static ".toList <+: m.text.toList) ↔
      w.StaticInSight flavor top title := by
  intro modules
  have hobserved := w.marksView.map_observe_document flavor (fun _ _ => trivial) modules top page
    trivial
  have hitems (marks : List (Title × Bool)) :
      (∃ item ∈ ((w.document flavor modules top).run page).1.items, item.marks = marks) ↔
        ∃ entry ∈ w.entries flavor modules top, w.entryMarks entry = some marks := by
    rw [← List.mem_map, ← List.mem_filterMap]
    exact (congrArg (marks ∈ ·) hobserved).to_iff
  rw [← hw.staticInSight_iff hnames]
  constructor
  · rintro ⟨item, hitem, hstatic⟩
    obtain ⟨entry, hentry, hmarks⟩ := (hitems _).mp ⟨item, hitem, rfl⟩
    exact ⟨entry, hentry, _, hmarks,
      (Item.exists_static_iff (form_ne_value_of_entryMarks hmarks)).mp hstatic⟩
  · rintro ⟨entry, hentry, marks, hmarks, hmark⟩
    obtain ⟨item, hitem, rfl⟩ := (hitems marks).mpr ⟨entry, hentry, hmarks⟩
    exact ⟨item, hitem,
      (Item.exists_static_iff (form_ne_value_of_entryMarks hmarks)).mpr hmark⟩

end Writer

end Declaration

namespace Library

open Declaration Api

variable {primary : Library} {dependencies : List Library} {isStrict : Bool} {p : Prepared}

/-- Whatever directives a prepared library is emitted with, in either flavor, a member in the body
of an interface carries the word `static` exactly if it is that of a static node in sight. -/
theorem static_iff_inSight (hd : primary.description.check = .ok ())
    (hp : primary.prepare dependencies isStrict = .ok p) (d : Directives) (flavor : Flavor) :
    let emitted : Prepared := { p with directives := d }
    ∃ e, emitted.emit flavor = .ok e ∧ ∀ title,
      (∃ item ∈ e.document.items, ∃ m ∈ item.interfaceMembers,
        m.title = title ∧ "static ".toList <+: m.text.toList) ↔
      emitted.writer.StaticInSight flavor p.linked.description.top title := by
  intro emitted
  have hrun := (of_prepare hp).1
  have hemit : emitted.emit flavor = .ok _ := emit_of_run hrun p.table d flavor
  have hfollows : emitted.writer.Follows p.linked.description.top := Writer.follows_writerFor ..
  have hnames : emitted.writer.NamesAll (p.linked.description.top.inside "") :=
    namesAll_of_run hd hrun rfl
  refine ⟨_, hemit, fun title => ?_⟩
  rw [Prepared.document_of_emit hemit]
  exact hfollows.static_iff hnames flavor _ title

/-- A library with an interface and a namespace that is written as one, each with a function that
can be static. -/
def formatting (isStatic : Bool) : Library :=
  let function (name : String) : Function :=
    { (default : Function) with kind := .functionDesc, name := name, isStatic := isStatic }
  let pane : Interface :=
    { (default : Interface) with
      kind := .interfaceType, name := "Pane", methods := [function "open"] }
  let scope (name : String) : Scope := { (default : Scope) with kind := .nameSpace, name := name }
  { name := "app"
    description := .ofTop (.plain "" []
      [⟨{ scope "ui" with interfaces := [pane] }, []⟩,
        ⟨{ scope "util" with functions := [function "format"] }, []⟩])
    directives := { Directives.empty with interfaceNamespaces := .ofListLast [("util", true)] } }

/-- A static method of an interface and a static function of a namespace written as one are in
sight; a method that is not there is not. -/
theorem static_iff_inSight_formatting :
    ∃ p, (formatting true).prepare [] true = .ok p ∧ ∀ flavor,
      p.writer.StaticInSight flavor p.linked.description.top ⟨"ui.Pane.open", "open", .method⟩ ∧
      p.writer.StaticInSight flavor p.linked.description.top ⟨"util.format", "format", .method⟩ ∧
      ¬ p.writer.StaticInSight flavor p.linked.description.top
        ⟨"ui.Pane.shut", "shut", .method⟩ := by
  have hp : (formatting true).prepare [] true = .ok _ := rfl
  refine ⟨_, hp, fun flavor => ?_⟩
  obtain ⟨e, hemit, hstatic⟩ :=
    static_iff_inSight (by decide) hp (formatting true).directives flavor
  obtain rfl := Except.ok.inj (hemit.symm.trans rfl)
  refine ⟨(hstatic _).mp ?_, (hstatic _).mp ?_, fun hsight => absurd ((hstatic _).mpr hsight) ?_⟩
  all_goals cases flavor <;> decide +kernel

/-- An interface has a static method if that of its node is static, and so does one that is made
from a namespace with a static function. -/
theorem not_static_free_formatting :
    ∃ p, (formatting true).prepare [] true = .ok p ∧ ∀ flavor, ∃ e, p.emit flavor = .ok e ∧
      ∃ item ∈ e.document.items, ∃ other ∈ e.document.items,
        item.entities = [⟨"ui.Pane", .interfaceType⟩, ⟨"ui.Pane.open", .method⟩] ∧
        other.entities = [⟨"util", .nameSpace⟩, ⟨"util.format", .method⟩] ∧
        (∃ m ∈ item.interfaceMembers, m.text = "static open(): void;") ∧
        ∃ m ∈ other.interfaceMembers, m.text = "static format(): void;" := by
  refine ⟨_, rfl, fun flavor => ⟨_, rfl, ?_⟩⟩
  cases flavor <;> decide +kernel

end Library

end Ambient
