import Ambient.Proofs.Declaration.Writing
import Ambient.TypeExpr.Render

/-!
# Warnings about types

A type is spelled by the place where it is written. Which warnings it gives does not depend on that
place, nor on how its parts are spelled: whether a name has a fixed meaning, and whether a
reference leads anywhere, is settled by the name alone.
-/

namespace Ambient.TypeExpr

open Declaration

variable (r : Resolver)

/-- Whether a name has a fixed meaning does not depend on its arguments. -/
theorem isSome_builtin? (name : String) (args : List String) :
    (builtin? name args).isSome = (builtin? name []).isSome := by
  rcases args with _ | ⟨first, _ | ⟨second, rest⟩⟩
  all_goals simp only [builtin?, apply_ite Option.isSome, Option.isSome_some]

/-- The warnings about a name are those of the name, however its arguments are spelled. -/
theorem notes_writeName (name : String) :
    ∃ notes, ∀ args, Writes (writeName r name args) (fun _ => ()) () notes := by
  cases hfixed : (builtin? name []).isSome with
  | true =>
    refine ⟨[], fun args => ?_⟩
    have hsome := (isSome_builtin? name args).trans hfixed
    obtain ⟨text, htext⟩ := Option.isSome_iff_exists.mp hsome
    rw [writeName, htext]
    exact .pure rfl
  | false =>
    have hnone (args : List String) : builtin? name args = none := by
      simpa using (isSome_builtin? name args).trans hfixed
    simp only [writeName, hnone]
    -- The branches are settled by the name, so the warnings are the same for all arguments.
    by_cases hreference : (name.toList.contains '.' || r.table.contains name) = true
    · simp only [hreference, if_true]
      cases r.resolve name with
      | ok symbol =>
        obtain ⟨notes, hrefer⟩ := notes_refer symbol
        exact ⟨notes ++ [], fun args => hrefer.bind fun _ _ => .pure rfl⟩
      | error cause =>
        obtain ⟨notes, hwarn⟩ := notes_warn .unresolvedType
          ("type `" ++ name ++ "` " ++ cause.reason ++ "; emitted as any")
        exact ⟨notes ++ [], fun _ => hwarn.bind fun _ _ => .pure rfl⟩
    · simp only [hreference]
      by_cases henvironment : environmentNames.contains name = true
      · simp only [henvironment]
        exact ⟨[], fun _ => .pure rfl⟩
      · simp only [henvironment]
        obtain ⟨notes, hwarn⟩ := notes_warn .unresolvedType
          ("type `" ++ name ++ "` is unknown; emitted as any")
        exact ⟨notes ++ [], fun _ => hwarn.bind fun _ _ => .pure rfl⟩

mutual

/-- The warnings about an expression. -/
theorem notes_write : ∀ expr : TypeExpr, Notes (write r expr)
  | .name word args => by
    obtain ⟨notes, hargs⟩ := notes_writeAll args
    obtain ⟨more, hname⟩ := notes_writeName r word
    rw [write]
    exact ⟨notes ++ more, hargs.bind fun args _ => hname args⟩
  | .array item => by
    rw [write]
    exact (notes_write item).map _
  | .union members => by
    rw [write]
    exact (notes_writeAll members).map _
  | .keyof operand => by
    rw [write]
    exact (notes_write operand).map _
  | .literal text => by
    rw [write]
    exact .pure text
  | .function => by
    rw [write]
    exact .pure "Function"
  | .unparsed raw => by
    rw [write]
    exact (notes_warn .simplified _).map _

/-- The warnings about expressions from left to right. -/
theorem notes_writeAll : ∀ exprs : List TypeExpr, Notes (writeAll r exprs)
  | [] => by
    rw [writeAll]
    exact .pure []
  | expr :: rest => by
    rw [writeAll]
    exact (notes_write expr).map₂ (notes_writeAll rest) _

end

/-! ## Types of descriptions -/

/-- What writing a type warns of does not depend on the page. -/
theorem notes_writeSimple (type : Api.SimpleType) : Notes (writeSimple r type) :=
  notes_write r (ofSimple r.directives type)

/-- What writing types in a row warns of does not depend on the page. -/
theorem notes_mapM_writeSimple (members : List Api.SimpleType) :
    Notes (members.mapM (writeSimple r)) := by
  induction members with
  | nil => exact .pure []
  | cons member rest ih =>
    rw [List.mapM_cons]
    exact (notes_writeSimple r member).map₂ ih _

/-- The warnings about a declared type. -/
theorem notes_writeDeclared (type : Api.DeclaredType) : Notes (writeDeclared r type) := by
  cases type with
  | simple type => exact notes_writeSimple r type
  | union members link => exact (notes_mapM_writeSimple r members).map _

/-- What writing a type that may be missing warns of does not depend on the page. -/
theorem notes_writeOptional (type : Option Api.DeclaredType) : Notes (writeOptional r type) := by
  cases type with
  | none => exact .pure "any"
  | some type => exact notes_writeDeclared r type

mutual

/-- The warnings about the type of a parameter. -/
theorem notes_writeParameterType : ∀ type : Api.ParameterType, Notes (writeParameterType r type)
  | .unspecified => by
    rw [writeParameterType]
    exact .pure "any"
  | .declared type => by
    rw [writeParameterType]
    exact notes_writeDeclared r type
  | .shape [] => by
    rw [writeParameterType]
    exact .pure "object"
  | .shape (entry :: rest) => by
    rw [writeParameterType]
    exact (notes_writeEntries (entry :: rest)).map _

/-- The warnings about an entry of an option object. -/
theorem notes_writeEntry (key : String) : ∀ p : Api.Parameter, Notes (writeEntry r key p)
  | .mk info type => by
    rw [writeEntry]
    exact (notes_writeParameterType type).map _

/-- The warnings about the entries of an option object. -/
theorem notes_writeEntries :
    ∀ entries : List (String × Api.Parameter), Notes (writeEntries r entries)
  | [] => by
    rw [writeEntries]
    exact .pure []
  | (key, entry) :: rest => by
    rw [writeEntries]
    exact (notes_writeEntry key entry).map₂ (notes_writeEntries rest) _

end

end Ambient.TypeExpr
