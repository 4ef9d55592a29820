import Ambient.Proofs.Declaration.Writing

/-!
# Types that are written alike

If the same typos are corrected and every name is written alike, then so is every type.
-/

namespace Ambient.TypeExpr

open Declaration (Resolver Agree Lasting refer)

/-- A name that leads to the same on both sides is written alike, if a symbol that it leads to is
spelled alike. -/
theorem agree_writeName {R : Declaration.Page → Declaration.Page → Prop} (hR : Lasting R)
    {r s : Resolver} {name : String} (hget : r.table.get? name = s.table.get? name)
    (hresolve : r.resolve name = s.resolve name)
    (hrefer : ∀ symbol, s.resolve name = .ok symbol → Agree R (refer symbol) (refer symbol))
    (args : List String) : Agree R (writeName r name args) (writeName s name args) := by
  simp only [writeName, Symbol.Table.contains, hget, hresolve]
  cases builtin? name args with
  | some text => exact .pure text
  | none =>
    refine .ite _ ?_ (.ite _ (.pure _) ((Agree.warn hR _ _).map _))
    cases hfound : s.resolve name with
    | ok symbol => exact (hrefer symbol hfound).map _
    | error cause => exact (Agree.warn hR _ _).map _

/-- Two resolvers correct the same typos and write names alike. -/
structure Alike (R : Declaration.Page → Declaration.Page → Prop) (r s : Resolver) : Prop where
  typos : r.directives.typos = s.directives.typos
  writeName : ∀ name args, Agree R (writeName r name args) (writeName s name args)

namespace Alike

variable {R : Declaration.Page → Declaration.Page → Prop} {r s : Resolver}

/-- Resolvers that are alike correct names alike. -/
theorem correctName (h : Alike R r s) (name : String) :
    r.directives.correctName name = s.directives.correctName name := by
  rw [Directives.correctName, Directives.correctName, h.typos]

/-- Resolvers that are alike correct types alike. -/
theorem correct (h : Alike R r s) (type : Api.SimpleType) :
    r.directives.correct type = s.directives.correct type := by
  rw [Directives.correct, Directives.correct, h.correctName]

/-- The same expression is written for an occurrence of a type. -/
theorem ofSimple (h : Alike R r s) (type : Api.SimpleType) :
    TypeExpr.ofSimple r.directives type = TypeExpr.ofSimple s.directives type := by
  unfold TypeExpr.ofSimple
  rw [h.correct, h.typos]

mutual

/-- An expression is written alike. -/
theorem write (hR : Lasting R) (h : Alike R r s) :
    ∀ expr : TypeExpr, Agree R (TypeExpr.write r expr) (TypeExpr.write s expr)
  | .name word args => by
    rw [TypeExpr.write, TypeExpr.write]
    exact (writeAll hR h args).bind fun texts => h.writeName word texts
  | .array item => by
    rw [TypeExpr.write, TypeExpr.write]
    exact (write hR h item).map _
  | .union members => by
    rw [TypeExpr.write, TypeExpr.write]
    exact (writeAll hR h members).map _
  | .keyof operand => by
    rw [TypeExpr.write, TypeExpr.write]
    exact (write hR h operand).map _
  | .literal text => by
    rw [TypeExpr.write, TypeExpr.write]
    exact .pure text
  | .function => by
    rw [TypeExpr.write, TypeExpr.write]
    exact .pure "Function"
  | .unparsed raw => by
    rw [TypeExpr.write, TypeExpr.write]
    exact (Agree.warn hR _ _).map _

/-- Expressions are written alike from left to right. -/
theorem writeAll (hR : Lasting R) (h : Alike R r s) :
    ∀ exprs : List TypeExpr, Agree R (TypeExpr.writeAll r exprs) (TypeExpr.writeAll s exprs)
  | [] => by
    rw [TypeExpr.writeAll, TypeExpr.writeAll]
    exact .pure []
  | expr :: rest => by
    rw [TypeExpr.writeAll, TypeExpr.writeAll]
    exact (write hR h expr).bind fun text => (writeAll hR h rest).map _

end

/-! ## Types of descriptions -/

/-- Resolvers that are alike write types alike on related pages. -/
theorem writeSimple (hR : Lasting R) (h : Alike R r s) (type : Api.SimpleType) :
    Agree R (TypeExpr.writeSimple r type) (TypeExpr.writeSimple s type) := by
  rw [TypeExpr.writeSimple, TypeExpr.writeSimple, h.ofSimple type]
  exact h.write hR _

/-- A declared type is written alike. -/
theorem writeDeclared (hR : Lasting R) (h : Alike R r s) (type : Api.DeclaredType) :
    Agree R (TypeExpr.writeDeclared r type) (TypeExpr.writeDeclared s type) := by
  cases type with
  | simple type => exact h.writeSimple hR type
  | union members link =>
    exact (Agree.mapM members fun member _ => h.writeSimple hR member).map _

/-- Resolvers that are alike write types that may be missing alike on related pages. -/
theorem writeOptional (hR : Lasting R) (h : Alike R r s) (type : Option Api.DeclaredType) :
    Agree R (TypeExpr.writeOptional r type) (TypeExpr.writeOptional s type) := by
  cases type with
  | none => exact .pure "any"
  | some type => exact h.writeDeclared hR type

mutual

/-- The type of a parameter is written alike. -/
theorem writeParameterType (hR : Lasting R) (h : Alike R r s) : ∀ type : Api.ParameterType,
    Agree R (TypeExpr.writeParameterType r type) (TypeExpr.writeParameterType s type)
  | .unspecified => by
    rw [TypeExpr.writeParameterType, TypeExpr.writeParameterType]
    exact .pure "any"
  | .declared type => by
    rw [TypeExpr.writeParameterType, TypeExpr.writeParameterType]
    exact h.writeDeclared hR type
  | .shape [] => by
    rw [TypeExpr.writeParameterType, TypeExpr.writeParameterType]
    exact .pure "object"
  | .shape (entry :: rest) => by
    rw [TypeExpr.writeParameterType, TypeExpr.writeParameterType]
    exact (writeEntries hR h (entry :: rest)).map _

/-- An entry of an option object is written alike. -/
theorem writeEntry (hR : Lasting R) (h : Alike R r s) (key : String) : ∀ p : Api.Parameter,
    Agree R (TypeExpr.writeEntry r key p) (TypeExpr.writeEntry s key p)
  | .mk info type => by
    rw [TypeExpr.writeEntry, TypeExpr.writeEntry]
    exact (writeParameterType hR h type).map _

/-- The entries of an option object are written alike. -/
theorem writeEntries (hR : Lasting R) (h : Alike R r s) :
    ∀ entries : List (String × Api.Parameter),
      Agree R (TypeExpr.writeEntries r entries) (TypeExpr.writeEntries s entries)
  | [] => by
    rw [TypeExpr.writeEntries, TypeExpr.writeEntries]
    exact .pure []
  | (key, entry) :: rest => by
    rw [TypeExpr.writeEntries, TypeExpr.writeEntries]
    exact (writeEntry hR h key entry).bind fun text => (writeEntries hR h rest).map _

end

end Alike

end Ambient.TypeExpr
