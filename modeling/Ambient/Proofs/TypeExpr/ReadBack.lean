import Ambient.Proofs.Ordered
import Ambient.Proofs.TypeExpr.Proper
import Ambient.Proofs.TypeExpr.Spelling
import Ambient.Proofs.TypeExpr.Written

/-!
# Reading back what is written

The text that is written for a type is a type again, but not always the one that was meant: the
operator `keyof` is written without parentheses, and repeated members of a union are found by
their texts, before unions within them are opened. Main statement: as long as names need no
resolving, the text is read as what was meant exactly if neither happens.
-/

namespace Ambient.TypeExpr

open Declaration (Resolver Page)

/-! ## Unions and operators -/

/-- The text of a union is read as the alternatives of its members that are written
differently. -/
theorem exists_reads_alternatives {texts : List String}
    (h : ∀ text ∈ texts, ∃ pieces, Reads text pieces) (hne : texts ≠ []) :
    ∃ pieces, Reads (alternatives texts) pieces ∧
      pieces.map Piece.expr = (Ordered.Set.ofList texts).toList.flatMap readBack := by
  refine exists_reads_intercalate (fun text htext => h text (Ordered.Set.mem_ofList.mp htext)) ?_
  obtain ⟨text, htext⟩ := List.exists_mem_of_ne_nil texts hne
  exact List.ne_nil_of_mem (Ordered.Set.mem_ofList.mpr htext)

/-- A text that is read has at least one piece. -/
theorem Reads.ne_nil {text : String} {pieces : List Piece} (h : Reads text pieces) :
    pieces ≠ [] := by
  obtain ⟨tokens, -, hspells⟩ := h.spelled
  exact hspells.ne_nil

/-- An operator keeps what it is written before together exactly if that is a single alternative
and no array. -/
theorem Reads.readBack_keyof_iff {text : String} {pieces : List Piece} (h : Reads text pieces) :
    readBack ("keyof " ++ text) = [.keyof (joined (readBack text))] ↔
      ∃ only, readBack text = [only] ∧ ∀ item, only ≠ .array item := by
  obtain ⟨⟨atom, count⟩, pieces, rfl⟩ := List.exists_cons_of_ne_nil h.ne_nil
  rw [h.keyof.readBack_eq, h.readBack_eq, List.map_cons, List.map_cons]
  constructor
  · intro heq
    obtain ⟨hfirst, hrest⟩ := List.cons_eq_cons.mp heq
    cases count with
    | zero => exact ⟨atom, by rw [hrest]; rfl, (h.basic _ List.mem_cons_self rfl).2⟩
    | succ count => exact nomatch (arrays_succ' count (.keyof atom)).symm.trans hfirst
  · rintro ⟨only, heq, hitem⟩
    obtain ⟨rfl, hrest⟩ := List.cons_eq_cons.mp heq
    cases count with
    | zero => rw [hrest]; rfl
    | succ count => exact absurd (arrays_succ' count atom) (hitem _)

/-! ## Names -/

/-- A record is read as one. -/
theorem reads_record {key value : String} (hkey : ∃ pieces, Reads key pieces)
    (hvalue : ∃ pieces, Reads value pieces) :
    Reads ("Record<" ++ key ++ ", " ++ value ++ ">")
      [⟨record (joined (readBack key)) (joined (readBack value)), 0⟩] := by
  have hword := isWord_of_mem "Record" (by simp [fixedWords])
  have hreads : Reads (withArguments "Record" [key, value]) _ :=
    reads_withArguments hword.1 hword.2 (by simp [hkey, hvalue])
  have htext : withArguments "Record" [key, value] = "Record<" ++ key ++ ", " ++ value ++ ">" := by
    simp [withArguments, String.ext_iff]
  rwa [htext] at hreads

/-- The type of strings is read as such. -/
theorem reads_string : Reads "string" [⟨.name "string" [], 0⟩] :=
  reads_fixedWord (by simp [fixedWords])

/-- The type of anything is read as such. -/
theorem reads_any : Reads "any" [⟨.name "any" [], 0⟩] := reads_fixedWord (by simp [fixedWords])

/-- The type of functions is read as such. -/
theorem reads_function : Reads "Function" [⟨.name "Function" [], 0⟩] :=
  reads_fixedWord (by simp [fixedWords])

/-- The type of maps is read as a record. -/
theorem reads_map :
    Reads "Record<string, any>" [⟨record (.name "string" []) (.name "any" []), 0⟩] := by
  have hrecord := reads_record ⟨_, reads_string⟩ ⟨_, reads_any⟩
  rwa [reads_string.readBack_eq, reads_any.readBack_eq] at hrecord

/-- Whether a text is read as an expression that is no union. -/
def IsReadAs (text : String) (expr : TypeExpr) : Prop :=
  ∃ piece, Reads text [piece] ∧ piece.expr = expr

/-- What a name is read with as its arguments. -/
def readArguments (texts : List String) : List TypeExpr :=
  texts.map fun text => joined (readBack text)

section

variable {texts : List String} {word : String}

/-- An object is read as a record of the key and the value that are written. -/
theorem isReadAs_object (h : ∀ text ∈ texts.take 2, ∃ pieces, Reads text pieces) :
    ∀ text ∈ builtin? "Object" texts, ∀ expr ∈ fixed? "Object" (readArguments texts),
      IsReadAs text expr := by
  match texts with
  | [] =>
    rintro _ ⟨⟩ _ ⟨⟩
    exact ⟨_, reads_map, rfl⟩
  | [value] =>
    rintro _ ⟨⟩ _ ⟨⟩
    have hrecord := reads_record ⟨_, reads_string⟩ (h value (by simp))
    rw [reads_string.readBack_eq] at hrecord
    exact ⟨_, hrecord, rfl⟩
  | key :: value :: texts =>
    rintro _ ⟨⟩ _ ⟨⟩
    exact ⟨_, reads_record (h key (by simp)) (h value (by simp)), rfl⟩

/-- What is written for an array is read as an array of what is written for its item. -/
theorem isReadAs_array (h : ∀ text ∈ texts.take 1, ∃ pieces, Reads text pieces) :
    ∀ text ∈ builtin? "array" texts, ∀ expr ∈ fixed? "array" (readArguments texts),
      IsReadAs text expr := by
  cases texts with
  | nil =>
    rintro _ ⟨⟩ _ ⟨⟩
    obtain ⟨piece, harray, hexpr⟩ := reads_any.array
    rw [reads_any.readBack_eq] at hexpr
    exact ⟨piece, harray, hexpr⟩
  | cons item texts =>
    rintro _ ⟨⟩ _ ⟨⟩
    obtain ⟨pieces, hitem⟩ := h item (by simp)
    exact hitem.array

/-- What is written for a promise is read as a promise of what is written for its result. -/
theorem isReadAs_promise (h : ∀ text ∈ texts.take 1, ∃ pieces, Reads text pieces) :
    IsReadAs ("Promise<" ++ texts.headD "any" ++ ">")
      (.name "Promise" [(readArguments texts).headD (.name "any" [])]) := by
  have hword := isWord_of_mem "Promise" (by simp [fixedWords])
  have hitem : ∃ pieces, Reads (texts.headD "any") pieces := by
    cases texts with
    | nil => exact ⟨_, reads_any⟩
    | cons item texts => exact h item (by simp)
  have hreads : Reads (withArguments "Promise" [texts.headD "any"]) _ :=
    reads_withArguments hword.1 hword.2 (by simpa using hitem)
  have htext : withArguments "Promise" [texts.headD "any"] =
      "Promise<" ++ texts.headD "any" ++ ">" := by
    simp [withArguments]
  rw [htext] at hreads
  refine ⟨_, hreads, ?_⟩
  cases texts with
  | nil => simp [Piece.expr, readArguments, reads_any.readBack_eq, joined, arrays]
  | cons item texts => rfl

/-- A name with a fixed meaning is read as that. -/
theorem isReadAs_fixed
    (h : ∀ text ∈ texts.take (places word texts.length), ∃ pieces, Reads text pieces) :
    ∀ text ∈ builtin? word texts, ∀ expr ∈ fixed? word (readArguments texts),
      IsReadAs text expr := by
  refine fixed_cases (P := fun text expr => ∀ t ∈ text, ∀ e ∈ expr, IsReadAs t e)
    ?word ?map ?object ?array ?promise nofun
  case word =>
    rintro other hother _ ⟨⟩ _ ⟨⟩
    exact ⟨_, reads_fixedWord hother, rfl⟩
  case map =>
    rintro _ ⟨⟩ _ ⟨⟩
    exact ⟨_, reads_map, rfl⟩
  case object =>
    rintro rfl
    exact isReadAs_object h
  case array =>
    intro hword
    simp only [List.mem_cons, List.not_mem_nil, or_false] at hword
    obtain rfl | rfl := hword <;> exact isReadAs_array h
  case promise =>
    rintro rfl _ ⟨⟩ _ ⟨⟩
    exact isReadAs_promise h

/-- A name that is no reference is read as what it stands for. -/
theorem isReadAs_writtenName {r : Resolver} {args : List TypeExpr}
    (hplain : Plain r (.name word args))
    (htexts : ∀ text ∈ texts.take (places word texts.length), ∃ pieces, Reads text pieces) :
    IsReadAs (writtenName word texts) (ofName word (readArguments texts)) := by
  unfold writtenName ofName
  have hsome := isSome_fixed? word texts (readArguments texts)
  cases htext : builtin? word texts with
  | some text =>
    rw [htext, Option.isSome_some, Option.isSome_iff_exists] at hsome
    obtain ⟨expr, hexpr⟩ := hsome
    rw [hexpr]
    exact isReadAs_fixed htexts text htext expr hexpr
  | none =>
    rw [htext, Option.isSome_none, Option.isSome_eq_false_iff, Option.isNone_iff_eq_none] at hsome
    rw [hsome]
    have hnone : builtin? word [] = none := (builtin?_eq_none_iff texts []).mp htext
    obtain hfixed | ⟨henvironment, -⟩ := hplain
    · simp [hnone] at hfixed
    · have hwords : ∀ other ∈ environmentNames, isWord other = true ∧
          other ∉ ["keyof", "Object", "array", "Array", "Promise"] := by decide +kernel
      obtain ⟨hword, hother⟩ := hwords word (List.contains_iff_mem.mp henvironment)
      simp only [List.mem_cons, List.not_mem_nil, or_false, not_or] at hother
      obtain ⟨hkeyof, hother⟩ := hother
      have hplaces : places word texts.length = texts.length := by simp [places, hother, hnone]
      rw [hplaces, List.take_length] at htexts
      exact ⟨_, reads_withArguments hword hkeyof htexts, rfl⟩

end

/-! ## All expressions -/

variable {r : Resolver}

/-- A plain literal in double quotes is read as such. -/
theorem reads_of_plain_literal {text : String} (hproper : Proper (.literal text))
    (hplain : Plain r (.literal text)) : Reads text [⟨.literal text, 0⟩] := by
  obtain ⟨content, rfl⟩ := hproper
  refine reads_literal fun hquote => ?_
  rw [Plain, String.toList_ofList, List.count_cons_self, List.count_append] at hplain
  have hpos := List.count_pos_iff.mpr hquote
  simp only [List.count_singleton_self] at hplain
  omega

/-- The text of a proper expression without references is read as a row of alternatives. -/
theorem exists_reads : ∀ expr, Proper expr → Throughout (Plain r) expr →
    ∃ pieces, Reads (written expr) pieces :=
  of_parts fun expr ih hproper hplain => by
    have hparts : ∀ part ∈ parts expr, ∃ pieces, Reads (written part) pieces :=
      fun part hpart => ih part hpart (hproper.part hpart) (hplain.part hpart)
    cases expr with
    | name word args =>
      rw [written, writtenAll_eq]
      obtain ⟨piece, hpiece, -⟩ := isReadAs_writtenName hplain.here fun text htext => by
        rw [List.length_map, ← List.map_take] at htext
        obtain ⟨part, hpart, rfl⟩ := List.mem_map.mp htext
        exact hparts part hpart
      exact ⟨_, hpiece⟩
    | array item =>
      obtain ⟨pieces, hitem⟩ := hparts item (by simp [parts])
      obtain ⟨piece, hpiece, -⟩ := hitem.array
      exact ⟨_, hpiece⟩
    | union members =>
      rw [written, writtenAll_eq]
      obtain ⟨pieces, hpieces, -⟩ := exists_reads_alternatives
        (List.forall_mem_map.mpr hparts) (List.map_eq_nil_iff.not.mpr hproper.1)
      exact ⟨pieces, hpieces⟩
    | keyof operand =>
      obtain ⟨pieces, hoperand⟩ := hparts operand (by simp [parts])
      obtain ⟨piece, pieces, rfl⟩ := List.exists_cons_of_ne_nil hoperand.ne_nil
      exact ⟨_, hoperand.keyof⟩
    | literal text => exact ⟨_, reads_of_plain_literal hproper hplain.here⟩
    | function => exact ⟨_, reads_function⟩
    | unparsed raw => exact ⟨_, reads_any⟩

/-! ## Meant and read -/

/-- Whether an expression, other than through its parts, is read as what it stands for: an
operator stands before a single alternative that is no array, and members of a union that are
written differently have no alternative in common. -/
def Sound : TypeExpr → Prop
  | .keyof operand =>
    ∃ only, alternativesOf operand = [only] ∧ ∀ item, only ≠ .array item
  | .union members => ∀ member ∈ members, ∀ other ∈ members, written member ≠ written other →
      ∀ expr ∈ alternativesOf member, expr ∉ alternativesOf other
  | _ => True

/-- A name whose written arguments are read as what they stand for is read so itself. -/
theorem readBack_name {word : String} {args : List TypeExpr} (hplain : Plain r (.name word args))
    (hreads : ∀ arg ∈ args.take (places word args.length), ∃ pieces, Reads (written arg) pieces)
    (hargs : ∀ arg ∈ args.take (places word args.length),
      readBack (written arg) = alternativesOf arg) :
    readBack (writtenName word (args.map written)) = [ofName word (args.map meant)] := by
  obtain ⟨piece, hpiece, hexpr⟩ := isReadAs_writtenName hplain fun text htext => by
    rw [List.length_map, ← List.map_take] at htext
    obtain ⟨arg, harg, rfl⟩ := List.mem_map.mp htext
    exact hreads arg harg
  have hmeant : readArguments ((args.take (places word args.length)).map written)
      = (args.take (places word args.length)).map meant := by
    rw [readArguments, List.map_map]
    exact List.map_congr_left fun arg harg => congrArg joined (hargs arg harg)
  -- The arguments that are not written may be read as anything.
  calc readBack (writtenName word (args.map written))
      = [ofName word (readArguments (args.map written))] := by
        rw [hpiece.readBack_eq, List.map_singleton, hexpr]
    _ = [ofName word (readArguments ((args.take (places word args.length)).map written))] := by
        rw [← ofName_take, readArguments, readArguments, List.length_map, List.length_map,
          List.map_take, List.map_take]
    _ = [ofName word (args.map meant)] := by
        rw [hmeant, ← ofName_take word (args.map meant), List.length_map, List.map_take]

/-- If the members of a union are read as what they stand for, so is the union exactly if it is
sound. -/
theorem readBack_union_iff {members : List TypeExpr} (hne : members ≠ [])
    (hreads : ∀ member ∈ members, ∃ pieces, Reads (written member) pieces)
    (hmembers : ∀ member ∈ members, readBack (written member) = alternativesOf member) :
    readBack (alternatives (members.map written))
        = (Ordered.Set.ofList (members.flatMap alternativesOf)).toList ↔
      Sound (.union members) := by
  have hread : (members.map written).flatMap readBack = members.flatMap alternativesOf := by
    rw [List.flatMap_map]
    exact List.flatMap_congr hmembers
  obtain ⟨pieces, hpieces, hmap⟩ :=
    exists_reads_alternatives (List.forall_mem_map.mpr hreads) (List.map_eq_nil_iff.not.mpr hne)
  have hdistinct : ∀ text ∈ (Ordered.Set.ofList (members.map written)).toList,
      (readBack text).Nodup := by
    simp only [Ordered.Set.mem_ofList, List.forall_mem_map]
    intro member hmember
    rw [hmembers member hmember]
    exact nodup_alternativesOf member
  rw [hpieces.readBack_eq, hmap, ← hread, ← Ordered.Set.ofList_flatMap, eq_comm,
    Ordered.Set.toList_ofList_eq_iff,
    Ordered.Set.nodup_flatMap_iff (Ordered.Set.distinct _) hdistinct]
  simp only [Ordered.Set.mem_ofList, List.forall_mem_map, Sound]
  refine forall₂_congr fun member hmember => forall₂_congr fun other hother => ?_
  rw [hmembers member hmember, hmembers other hother]
  rfl

/-- If the parts of an expression are read as what they stand for, so is the expression exactly
if it is sound. -/
theorem readBack_written_iff {expr : TypeExpr} (hproper : Proper expr)
    (hplain : Throughout (Plain r) expr)
    (hparts : ∀ part ∈ parts expr, readBack (written part) = alternativesOf part) :
    readBack (written expr) = alternativesOf expr ↔ Sound expr := by
  have hreads : ∀ part ∈ parts expr, ∃ pieces, Reads (written part) pieces :=
    fun part hpart => exists_reads part (hproper.part hpart) (hplain.part hpart)
  cases expr with
  | name word args =>
    refine iff_of_true ?_ trivial
    rw [written, writtenAll_eq, alternativesOf, meantAll_eq]
    exact readBack_name hplain.here hreads hparts
  | array item =>
    refine iff_of_true ?_ trivial
    obtain ⟨pieces, hitem⟩ := hreads item (by simp [parts])
    obtain ⟨piece, hpiece, hexpr⟩ := hitem.array
    rw [written, hpiece.readBack_eq, List.map_singleton, hexpr, alternativesOf,
      hparts item (by simp [parts])]
  | union members =>
    rw [written, writtenAll_eq, alternativesOf, alternativesOfAll_eq]
    exact readBack_union_iff hproper.1 hreads hparts
  | keyof operand =>
    obtain ⟨pieces, hoperand⟩ := hreads operand (by simp [parts])
    have hiff := hoperand.readBack_keyof_iff
    rwa [hparts operand (by simp [parts])] at hiff
  | literal text =>
    refine iff_of_true ?_ trivial
    exact (reads_of_plain_literal hproper hplain.here).readBack_eq
  | function => exact iff_of_true reads_function.readBack_eq trivial
  | unparsed raw => exact iff_of_true reads_any.readBack_eq trivial

/-- An expression that is sound throughout is read as what it stands for. -/
theorem readBack_written : ∀ expr, Proper expr → Throughout (Plain r) expr →
    Throughout Sound expr → readBack (written expr) = alternativesOf expr :=
  of_parts fun _ ih hproper hplain hsound =>
    (readBack_written_iff hproper hplain fun part hpart =>
      ih part hpart (hproper.part hpart) (hplain.part hpart) (hsound.part hpart)).mpr hsound.here

/-- The text of a type that has been read, as it is or with its names corrected, is a type again
as long as none of its names is a reference and none of its literals has quotes in it; and where
the parts of the type are sound, the text is read as what the type stands for exactly if the type
is sound too. -/
theorem reads_back_iff {raw : String} {expr shown : TypeExpr} (hparse : parse? raw = some expr)
    (typos : Ordered.Map String String) (hshown : shown = expr ∨ shown = correct typos expr)
    (hplain : Throughout (Plain r) shown) (page : Page) :
    (parse? ((write r shown).run page).1).isSome = true ∧
      ((∀ part ∈ parts shown, Throughout Sound part) →
        (parse? ((write r shown).run page).1 = some (meant shown) ↔ Throughout Sound shown)) := by
  have hproper : Proper shown := by
    obtain rfl | rfl := hshown
    · exact proper_of_parse? hparse
    · exact proper_correct typos expr (proper_of_parse? hparse)
  obtain ⟨pieces, hreads⟩ := exists_reads shown hproper hplain
  rw [run_write shown hplain page, hreads.parse?_eq]
  refine ⟨rfl, fun hparts => ?_⟩
  have hright : ∀ part ∈ parts shown, readBack (written part) = alternativesOf part :=
    fun part hpart => readBack_written part (hproper.part hpart) (hplain.part hpart)
      (hparts part hpart)
  have hmeant : some (joined (pieces.map Piece.expr)) = some (meant shown) ↔
      readBack (written shown) = alternativesOf shown := by
    rw [hreads.readBack_eq, meant, Option.some_inj]
    refine ⟨fun h => ?_, congrArg joined⟩
    rw [← membersOf_joined hreads.isAlternative, h,
      membersOf_joined (isAlternative_of_mem shown)]
  rw [hmeant, readBack_written_iff hproper hplain hright]
  exact ⟨fun h => .intro h hparts, Throughout.here⟩

/-- Parentheses keep a union together before brackets, and a repeated member is found by its
text. -/
theorem reads_back_iff_repeated :
    parse? "(int|\x22a\x22)[]|keyof Date|keyof Date" =
        some (.union [.array (.union [.name "int" [], .literal "\x22a\x22"]),
          .keyof (.name "Date" []), .keyof (.name "Date" [])]) ∧
      parse? "(number | \x22a\x22)[] | keyof Date" =
        some (.union [.array (.union [.name "number" [], .literal "\x22a\x22"]),
          .keyof (.name "Date" [])]) := by
  have hparse : parse? "(int|\x22a\x22)[]|keyof Date|keyof Date" = some
      (.union [.array (.union [.name "int" [], .literal "\x22a\x22"]),
        .keyof (.name "Date" []), .keyof (.name "Date" [])]) := by decide +kernel
  have hplain : Throughout (Plain ⟨"app", .empty "app", .empty, [], []⟩)
      (.union [.array (.union [.name "int" [], .literal "\x22a\x22"]),
        .keyof (.name "Date" []), .keyof (.name "Date" [])]) := by
    have hint : (builtin? "int" []).isSome = true := by decide
    have hdate : "Date" ∈ environmentNames := by decide +kernel
    have hfree : (Symbol.Table.empty "app").contains "Date" = false := rfl
    simp [Plain, hint, hdate, hfree]
  have hkeyof : Sound (.keyof (.name "Date" [])) := ⟨.name "Date" [], by decide +kernel, nofun⟩
  have hinner : Sound (.union [.name "int" [], .literal "\x22a\x22"]) := by
    rw [Sound]
    decide +kernel
  have houter : Sound (.union [.array (.union [.name "int" [], .literal "\x22a\x22"]),
      .keyof (.name "Date" []), .keyof (.name "Date" [])]) := by
    rw [Sound]
    decide +kernel
  have hleaf : Sound (.name "int" []) ∧ Sound (.name "Date" []) ∧ Sound (.literal "\x22a\x22") ∧
      Sound (.array (.union [.name "int" [], .literal "\x22a\x22"])) :=
    ⟨trivial, trivial, trivial, trivial⟩
  have hsound : Throughout Sound (.union [.array (.union [.name "int" [], .literal "\x22a\x22"]),
      .keyof (.name "Date" []), .keyof (.name "Date" [])]) := by
    simp [hkeyof, hinner, houter, hleaf]
  exact ⟨hparse, ((reads_back_iff hparse ∅ (.inl rfl) hplain default).2
    fun part hpart => hsound.part hpart).mpr hsound⟩

/-- The operator before a union goes to its first member when the text is read. -/
theorem not_reads_back_keyof_union :
    parse? "keyof (string|int)" =
        some (.keyof (.union [.name "string" [], .name "int" []])) ∧
      Throughout (Plain ⟨"app", .empty "app", .empty, [], []⟩)
        (.keyof (.union [.name "string" [], .name "int" []])) ∧
      ((write ⟨"app", .empty "app", .empty, [], []⟩
        (.keyof (.union [.name "string" [], .name "int" []]))).run default).1 =
          "keyof string | number" ∧
      parse? "keyof string | number" ≠
        some (meant (.keyof (.union [.name "string" [], .name "int" []]))) := by
  have hfixed : (builtin? "string" []).isSome = true ∧ (builtin? "int" []).isSome = true := by
    decide
  exact ⟨by decide +kernel, by simp [Plain, hfixed], by decide +kernel, by decide +kernel⟩

end Ambient.TypeExpr
