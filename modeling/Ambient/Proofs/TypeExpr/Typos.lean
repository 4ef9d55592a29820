import Ambient.Proofs.TypeExpr.Meaning

/-!
# Typos in types

How far corrections reach. A type whose whole text has a correction is written as that; in any other
the names are corrected, wherever they stand in arrays, unions, key types and arguments. Only the
arguments of a name that is corrected itself are left as they are. Types are read alike in every
place: declared ones, the members of unions, and the entries of option objects at any depth.
-/

namespace Ambient

/-! ## Occurrences -/

namespace Api

/-- The types that are named in a declared type. -/
def DeclaredType.occurrences : DeclaredType → List SimpleType
  | .simple type => [type]
  | .union members _ => members

mutual

/-- The types that are named in the type of a parameter, in the order in which they are written. -/
def ParameterType.occurrences : ParameterType → List SimpleType
  | .unspecified => []
  | .declared type => type.occurrences
  | .shape entries => occurrencesOf entries

/-- The types that are named in a parameter. -/
def Parameter.occurrences : Parameter → List SimpleType
  | .mk _ type => type.occurrences

/-- The types that are named in the entries of an option object. -/
def occurrencesOf : List (String × Parameter) → List SimpleType
  | [] => []
  | (_, entry) :: rest => entry.occurrences ++ occurrencesOf rest

end

end Api

namespace TypeExpr

open Declaration (Resolver Writing)

/-! ## Names in expressions -/

section Names

variable (typos : Ordered.Map String String)

mutual

/-- The expression with all its names corrected, those in the arguments of a corrected name, too.
What is put in place is not corrected again. -/
def correctThroughout : TypeExpr → TypeExpr
  | .name word args =>
    match typos.get? word with
    | some fixed => if args.isEmpty then ofText fixed else .name fixed (correctAllThroughout args)
    | none => .name word (correctAllThroughout args)
  | .array item => .array (correctThroughout item)
  | .union members => .union (correctAllThroughout members)
  | .keyof operand => .keyof (correctThroughout operand)
  | .literal text => .literal text
  | .function => .function
  | .unparsed raw => .unparsed raw

/-- The expressions with all their names corrected. -/
def correctAllThroughout : List TypeExpr → List TypeExpr
  | [] => []
  | expr :: rest => correctThroughout expr :: correctAllThroughout rest

end

mutual

/-- Whether a name in the expression is corrected while there are typos in its arguments. -/
def hidesTypos : TypeExpr → Bool
  | .name word args =>
    if (typos.get? word).isSome then correctAllThroughout typos args ≠ args
    else anyHidesTypos args
  | .array item => hidesTypos item
  | .union members => anyHidesTypos members
  | .keyof operand => hidesTypos operand
  | .literal _ | .function | .unparsed _ => false

/-- Whether one of the expressions holds such a name. -/
def anyHidesTypos : List TypeExpr → Bool
  | [] => false
  | expr :: rest => hidesTypos expr || anyHidesTypos rest

end

mutual

/-- Correcting an expression corrects it throughout, unless a corrected name hides typos. -/
theorem correct_eq_iff : ∀ expr : TypeExpr,
    correct typos expr = correctThroughout typos expr ↔ hidesTypos typos expr = false
  | .name word args => by
    rw [correct, correctThroughout, hidesTypos]
    cases typos.get? word with
    | none => simpa using correctAll_eq_iff args
    | some fixed =>
      cases args with
      | nil => simp [correctAllThroughout]
      | cons first rest =>
        have hsame : first :: rest = correctAllThroughout typos (first :: rest) ↔
            correctAllThroughout typos (first :: rest) = first :: rest := eq_comm
        simpa using hsame
  | .array item => by simpa [correct, correctThroughout, hidesTypos] using correct_eq_iff item
  | .union members => by
    simpa [correct, correctThroughout, hidesTypos] using correctAll_eq_iff members
  | .keyof operand => by simpa [correct, correctThroughout, hidesTypos] using correct_eq_iff operand
  | .literal text => by simp [correct, correctThroughout, hidesTypos]
  | .function => by simp [correct, correctThroughout, hidesTypos]
  | .unparsed raw => by simp [correct, correctThroughout, hidesTypos]

/-- Correcting expressions in a row corrects them throughout exactly if none of them hides a typo.
-/
theorem correctAll_eq_iff : ∀ exprs : List TypeExpr,
    correctAll typos exprs = correctAllThroughout typos exprs ↔ anyHidesTypos typos exprs = false
  | [] => by simp [correctAll, correctAllThroughout, anyHidesTypos]
  | expr :: rest => by
    simp [correctAll, correctAllThroughout, anyHidesTypos, correct_eq_iff expr,
      correctAll_eq_iff rest]

end

end Names

/-! ## Occurrences of types -/

/-- The expression for an occurrence of a type, all typos corrected: the correction of its whole
text, or else its names corrected throughout. -/
def corrected (d : Directives) (type : Api.SimpleType) : TypeExpr :=
  if type.skipsCorrection then ofText type.name
  else
    match d.typos.get? type.name with
    | some fixed => ofText fixed
    | none => correctThroughout d.typos (ofText type.name)

/-- Whether an occurrence is not read as it is meant: a corrected name in it hides typos, or its
whole text is the correction of itself and there are typos in it, which are corrected all the
same. -/
def isMiscorrected (d : Directives) (type : Api.SimpleType) : Bool :=
  !type.skipsCorrection &&
    match d.typos.get? type.name with
    | some fixed => fixed = type.name ∧ correct d.typos (ofText fixed) ≠ ofText fixed
    | none => hidesTypos d.typos (ofText type.name)

/-- A type that skips correction is read as its text. -/
theorem ofSimple_of_skips {d : Directives} {type : Api.SimpleType}
    (h : type.skipsCorrection = true) : ofSimple d type = ofText type.name := by
  simp [ofSimple, Directives.correct, h]

/-- A type is read as it is corrected throughout exactly if it is not miscorrected. -/
theorem ofSimple_eq_corrected_iff (d : Directives) (type : Api.SimpleType) :
    ofSimple d type = corrected d type ↔ isMiscorrected d type = false := by
  cases hskips : type.skipsCorrection with
  | true => simp [ofSimple_of_skips hskips, corrected, isMiscorrected, hskips]
  | false =>
    cases hwhole : d.typos.get? type.name with
    | none =>
      simpa [ofSimple, Directives.correct, Directives.correctName, corrected, isMiscorrected, hskips,
        hwhole] using correct_eq_iff d.typos (ofText type.name)
    | some fixed =>
      by_cases hsame : fixed = type.name <;>
        simp [ofSimple, Directives.correct, Directives.correctName, corrected, isMiscorrected,
          hskips, hwhole, hsame]

/-! ## Places of occurrences -/

section Places

variable (simple : Api.SimpleType → Writing String)

/-- Writes a declared type, given how what it names is written. -/
def declaredBy : Api.DeclaredType → Writing String
  | .simple type => simple type
  | .union members _ => do
    let texts ← members.mapM simple
    return if texts.isEmpty then "any" else alternatives texts

mutual

/-- Writes the type of a parameter, given how what it names is written. -/
def parameterTypeBy : Api.ParameterType → Writing String
  | .unspecified => pure "any"
  | .declared type => declaredBy simple type
  | .shape [] => pure "object"
  | .shape (entry :: rest) => do
    return "\x7b " ++ " ".intercalate (← entriesBy (entry :: rest)) ++ " \x7d"

/-- Writes an entry of an option object, given how what it names is written. -/
def entryBy (key : String) : Api.Parameter → Writing String
  | .mk info type => do
    let mark := if info.isOptional || info.default.isSome then "?" else ""
    let text ← parameterTypeBy type
    return Identifier.propertyKey key ++ mark ++ ": " ++ text ++ ";"

/-- Writes the entries of an option object, given how what they name is written. -/
def entriesBy : List (String × Api.Parameter) → Writing (List String)
  | [] => return []
  | (key, entry) :: rest => do
    let text ← entryBy key entry
    return text :: (← entriesBy rest)

end

variable {simple} {other : Api.SimpleType → Writing String}

/-- Types in a row are written alike by writers that agree on them. -/
theorem mapM_congr {types : List Api.SimpleType} (h : ∀ type ∈ types, simple type = other type) :
    types.mapM simple = types.mapM other := by
  induction types with
  | nil => rfl
  | cons type rest ih =>
    obtain ⟨hfirst, hrest⟩ := List.forall_mem_cons.mp h
    rw [List.mapM_cons, List.mapM_cons, hfirst, ih hrest]

/-- A declared type is written alike by writers that agree on the types named in it. -/
theorem declaredBy_congr : ∀ {type : Api.DeclaredType},
    (∀ occurrence ∈ type.occurrences, simple occurrence = other occurrence) →
      declaredBy simple type = declaredBy other type
  | .simple type, h => h type List.mem_cons_self
  | .union members _, h => by
    have hmembers : members.mapM simple = members.mapM other := mapM_congr h
    rw [declaredBy, declaredBy, hmembers]

mutual

/-- The type of a parameter is written alike if all that it names is. -/
theorem parameterTypeBy_congr : ∀ {type : Api.ParameterType},
    (∀ occurrence ∈ type.occurrences, simple occurrence = other occurrence) →
      parameterTypeBy simple type = parameterTypeBy other type
  | .unspecified, _ => by rw [parameterTypeBy, parameterTypeBy]
  | .declared type, h => by
    rw [parameterTypeBy, parameterTypeBy, declaredBy_congr h]
  | .shape [], _ => by rw [parameterTypeBy, parameterTypeBy]
  | .shape (entry :: rest), h => by
    rw [parameterTypeBy, parameterTypeBy, entriesBy_congr h]

/-- An entry of an option object is written alike by writers that agree on the types named in it. -/
theorem entryBy_congr {key : String} : ∀ {entry : Api.Parameter},
    (∀ occurrence ∈ entry.occurrences, simple occurrence = other occurrence) →
      entryBy simple key entry = entryBy other key entry
  | .mk info type, h => by
    rw [entryBy, entryBy, parameterTypeBy_congr h]

/-- Entries of an option object are written alike by writers that agree on the types named in them.
-/
theorem entriesBy_congr : ∀ {entries : List (String × Api.Parameter)},
    (∀ occurrence ∈ Api.occurrencesOf entries, simple occurrence = other occurrence) →
      entriesBy simple entries = entriesBy other entries
  | [], _ => by rw [entriesBy, entriesBy]
  | (key, entry) :: rest, h => by
    obtain ⟨hentry, hrest⟩ := List.forall_mem_append.mp h
    rw [entriesBy, entriesBy, entryBy_congr hentry, entriesBy_congr hrest]

end

variable (r : Resolver)

/-- A declared type is written by writing the types named in it. -/
theorem writeDeclared_eq (type : Api.DeclaredType) :
    writeDeclared r type = declaredBy (writeSimple r) type := by
  cases type <;> rfl

mutual

/-- Wherever a type is named for a parameter, it is written as an occurrence. -/
theorem writeParameterType_eq : ∀ type : Api.ParameterType,
    writeParameterType r type = parameterTypeBy (writeSimple r) type
  | .unspecified => by rw [writeParameterType, parameterTypeBy]
  | .declared type => by rw [writeParameterType, parameterTypeBy, writeDeclared_eq]
  | .shape [] => by rw [writeParameterType, parameterTypeBy]
  | .shape (entry :: rest) => by
    rw [writeParameterType, parameterTypeBy, writeEntries_eq (entry :: rest)]

/-- An entry of an option object is written by writing the types named in it. -/
theorem writeEntry_eq (key : String) : ∀ entry : Api.Parameter,
    writeEntry r key entry = entryBy (writeSimple r) key entry
  | .mk info type => by rw [writeEntry, entryBy, writeParameterType_eq type]

/-- The entries of an option object are written by writing the types named in them. -/
theorem writeEntries_eq : ∀ entries : List (String × Api.Parameter),
    writeEntries r entries = entriesBy (writeSimple r) entries
  | [] => by rw [writeEntries, entriesBy]
  | (key, entry) :: rest => by
    rw [writeEntries, entriesBy, writeEntry_eq key entry, writeEntries_eq rest]

end

end Places

/-! ## Corrections -/

/-- The resolver with other corrections of typos. -/
def withTypos (r : Resolver) (typos : Ordered.Map String String) : Resolver :=
  { r with directives := { r.directives with typos := typos } }

section

variable (r : Resolver) (typos : Ordered.Map String String)

mutual

/-- Corrections have no say in how an expression is written. -/
theorem write_withTypos : ∀ expr : TypeExpr, write (withTypos r typos) expr = write r expr
  | .name word args => by
    rw [write, write, writeAll_withTypos args]
    rfl
  | .array item => by rw [write, write, write_withTypos item]
  | .union members => by rw [write, write, writeAll_withTypos members]
  | .keyof operand => by rw [write, write, write_withTypos operand]
  | .literal text => by rw [write, write]
  | .function => by rw [write, write]
  | .unparsed raw => by rw [write, write]

/-- The typos that a resolver knows do not matter once the expressions are read. -/
theorem writeAll_withTypos : ∀ exprs : List TypeExpr,
    writeAll (withTypos r typos) exprs = writeAll r exprs
  | [] => by rw [writeAll, writeAll]
  | expr :: rest => by rw [writeAll, writeAll, write_withTypos expr, writeAll_withTypos rest]

end

end

/-- The type of a parameter is written from its occurrences, each by itself; a declared type is
written as that of a parameter is. An occurrence that skips corrections is written as if there were
none. Any other is read with all its typos corrected unless it is miscorrected, and so a type none
of whose occurrences are is written with all typos corrected. -/
theorem writes_corrected_iff (r : Resolver) :
    (∀ type, writeParameterType r type = parameterTypeBy (writeSimple r) type) ∧
    (∀ type, writeDeclared r type = writeParameterType r (.declared type)) ∧
    (∀ occurrence : Api.SimpleType, occurrence.skipsCorrection = true →
      ∀ typos, writeSimple (withTypos r typos) occurrence = writeSimple r occurrence) ∧
    (∀ occurrence, ofSimple r.directives occurrence = corrected r.directives occurrence ↔
      isMiscorrected r.directives occurrence = false) ∧
    ∀ type : Api.ParameterType,
      (∀ occurrence ∈ type.occurrences, isMiscorrected r.directives occurrence = false) →
        writeParameterType r type
          = parameterTypeBy (fun occurrence => write r (corrected r.directives occurrence)) type := by
  refine ⟨writeParameterType_eq r, fun type => ?_, fun occurrence hskips typos => ?_,
    ofSimple_eq_corrected_iff r.directives, fun type h => ?_⟩
  · rw [writeParameterType]
  · rw [writeSimple, writeSimple, ofSimple_of_skips hskips, ofSimple_of_skips hskips,
      write_withTypos]
  · rw [writeParameterType_eq]
    refine parameterTypeBy_congr fun occurrence hoccurrence => ?_
    rw [writeSimple, (ofSimple_eq_corrected_iff ..).mpr (h occurrence hoccurrence)]

/-- A resolver for a library without symbols, with two typos corrected. -/
def correcting : Resolver :=
  withTypos ⟨"app", .empty "app", .empty, [], []⟩
    ((Ordered.Map.empty.insertNew "List" "Array").insertNew "Int" "int")

/-- An occurrence of a type. -/
def occurrence (name : String) (skipsCorrection : Bool) : Api.SimpleType :=
  ⟨name, skipsCorrection, .unset⟩

/-- An option object with types in it. -/
def options : Api.ParameterType :=
  .shape [("sizes", .mk default (.shape [("first", .mk default (.declared (.union
    [occurrence "Promise<Int[]>" false, occurrence "List" false, occurrence "Date" true]
      .unset)))]))]

/-- In an option object typos are corrected inside of arrays and arguments, and not in a type that
skips correction. -/
theorem writes_corrected_options :
    ((writeParameterType correcting options).run default).1
      = "\x7b sizes: \x7b first: Promise<number[]> | any[] | Date; \x7d; \x7d" ∧
    ∀ typos, writeSimple (withTypos correcting typos) (occurrence "Date" true)
      = writeSimple correcting (occurrence "Date" true) := by
  obtain ⟨_, _, hskips, _, hwrites⟩ := writes_corrected_iff correcting
  rw [hwrites options (by decide +kernel)]
  exact ⟨by decide +kernel, hskips _ rfl⟩

/-- The argument of a name that is corrected is not. -/
theorem not_writes_corrected_argument :
    (correcting.directives.typos.get? "List", correcting.directives.typos.get? "Int")
        = (some "Array", some "int") ∧
      parse? "List<Int>" = some (.name "List" [.name "Int" []]) ∧
      ((writeSimple correcting (occurrence "List<Int>" false)).run default).1 = "any[]" ∧
      ((write correcting (corrected correcting.directives (occurrence "List<Int>" false))).run
        default).1 = "number[]" :=
  ⟨by decide, by decide +kernel, by decide +kernel, by decide +kernel⟩

end TypeExpr

end Ambient
