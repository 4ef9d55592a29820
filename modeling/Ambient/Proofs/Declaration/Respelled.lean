import Ambient.Proofs.Declaration.Shown
import Ambient.Proofs.Declaration.Suppression

/-!
# The namespace with a reserved name in a document

In the global tree, the patch for the reserved name goes through the text line by line, and changes
every line with one of its two patterns: a declaration that begins with the reserved name, or the
dotted path of one namespace, whatever the line is. The name of a block is respelled by itself, and
in a reference by the path in front of it, so a namespace and the references to what is inside it
can part.
-/

namespace Ambient

namespace Declaration

open Patch (IsPath)

/-! ## Lines of a document -/

/-- The lines at script level are lines of the document. -/
theorem Document.linesOf_script_subset (d : Document) : Tree.linesOf 0 d.script ⊆ d.lines :=
  ((List.prefix_append _ _).trans d.isPrefix_lines).subset

/-! ## Paths -/

/-- The path in front of a name inside blocks. -/
def pathTo (around : List String) : String := String.join (around.map (· ++ "."))

/-- What leads through blocks to a name is a path. -/
theorem isPath_pathTo (around : List String) : IsPath (pathTo around).toList := by
  induction around using List.reverseRecOn with
  | nil => exact .inl rfl
  | append_singleton front last _ =>
    refine .inr ⟨(pathTo front).toList ++ last.toList, ?_⟩
    simp [pathTo]

end Declaration

/-! ## The stage of the patch -/

namespace Patch

/-- The lines in front of a global tree stay as they are. -/
theorem respellExport_preamble : respellExport (preamble .globals) = preamble .globals := by
  have hplain : ∀ line ∈ preambleLines .globals,
      Text.contains line "namespace export " = false ∧
        Text.contains line "sap.ui.export." = false := by
    decide +kernel
  rw [preamble, respellExport_lines, List.map_map]
  exact congrArg String.join (List.map_congr_left fun line hline =>
    congrArg (· ++ "\n") ((respellExport_eq_self_iff line).mpr (hplain line hline)))

/-- Before formatting, the patches for the global tree put the preamble in front of the core library
and respell the reserved name. -/
theorem applyStage_beforeFormat (library text : String) :
    applyStage .beforeFormat library .globals text
      = (if library = Correction.coreLibrary then preamble .globals ++ "\n" else "")
        ++ respellExport text := by
  by_cases hcore : library = Correction.coreLibrary
  · have happlied : applyStage .beforeFormat library .globals text
        = respellExport (addPreamble .globals text) := by
      simp [applyStage, applicable, all, hcore]
    rw [happlied, if_pos hcore, addPreamble, respellExport_append_newline,
      respellExport_preamble]
  · have happlied : applyStage .beforeFormat library .globals text = respellExport text := by
      simp [applyStage, applicable, all, hcore]
    rw [happlied, if_neg hcore, String.empty_append]

end Patch

namespace Library

open Declaration Api
open Patch (Around Behind IsAlike IsPlain RespelledAs Shuts blockLine declaredAs referredAs
  respellExport)

variable {primary : Library} {dependencies : List Library} {isStrict : Bool} {p : Prepared}

/-- Whatever directives a prepared library is emitted with for the global tree, the patch goes
through the text line by line. It changes the letters around which a declaration with the reserved
name or the dotted path stands, so it leaves a line as it is, documentation or not, exactly if
neither stands in it. The name of a block is respelled by itself. A symbol that an entry mentions
stands in a line, and in such a place every name on the path to a symbol is respelled by itself and
the path in front of it. So, in this library and in every other one, a namespace is respelled alike
where it is declared and where what is inside it is referred to exactly if its name and path are of
that kind: a plain name is respelled in a declaration if it is the reserved one, and in a reference
only if the path in front of it ends as that of one namespace does. -/
theorem respelled_alike_iff (hp : primary.prepare dependencies isStrict = .ok p) (d : Directives) :
    let emitted : Prepared := { p with directives := d }
    let w := emitted.writer
    let top := p.linked.description.top
    ∃ e, emitted.emit .globals = .ok e ∧
      (∀ library, Patch.applyStage .beforeFormat library .globals e.text
        = (if library = Correction.coreLibrary then Patch.preamble .globals ++ "\n" else "")
          ++ Line.join (e.document.lines.map Line.respelled)) ∧
      (∀ (line : Line) (i : Nat), line.respelled.text.toList[i]?
        = if line.text.toList[i]? = some 'e' ∧
            Around (line.text.toList.take i) (line.text.toList.drop (i + 1))
          then some Patch.lookalike else line.text.toList[i]?) ∧
      (∀ line : Line, line.respelled = line ↔ Text.contains line.text "namespace export " = false ∧
        Text.contains line.text "sap.ui.export." = false) ∧
      (∀ around name, (around, .block name) ∈ Tree.locatedOf [] e.document.script →
        ⟨around.length, blockLine around.length name⟩ ∈ e.document.lines ∧
        respellExport (blockLine around.length name)
          = blockLine around.length (declaredAs name)) ∧
      (∀ around ns entry item s, w.Opens top around ns → entry ∈ w.entriesAt around ns →
        w.globalItem? entry = some item → w.Mentions entry s →
        ∃ line ∈ e.document.lines, Behind s.fqn line.text) ∧
      (∀ before path name rest, Shuts before.toList →
        RespelledAs (before ++ path) name ("." ++ rest) (referredAs path name)) ∧
      ∀ around name,
        (declaredAs name = referredAs (pathTo around) name ↔ IsAlike (pathTo around) name) ∧
        (IsPlain name →
          declaredAs name = (if name = "export" then Patch.respelled else name) ∧
          referredAs (pathTo around) name
            = if name = "export" ∧ "sap.ui.".toList <:+ (pathTo around).toList then Patch.respelled
              else name) := by
  intro emitted w top
  have hemit : emitted.emit .globals = .ok _ := emit_of_run (of_prepare hp).1 p.table d .globals
  let plan := Plan.of d (namingOf p.linked.arena) top
  have htrees := w.located_globals top plan.modules
    (show (⟨.globals, Ordered.Set.ofList plan.warnings⟩ : Page).place = .globals from rfl)
  refine ⟨_, hemit, fun library => ?_, fun line i => ?_, fun line => ?_, ?_⟩
  · rw [Patch.applyStage_beforeFormat, Emission.text, Document.text_eq_join,
      Line.respellExport_join]
  · rw [Line.respelled, Patch.toList_respellExport, Patch.getElem?_respellIn, List.nil_append,
      List.append_nil]
  · rw [Line.respelled_eq_self_iff, Patch.respellExport_eq_self_iff]
  rw [Prepared.document_of_emit hemit]
  refine ⟨fun around name hblock => ⟨?_, Patch.respellExport_blockLine _ name⟩,
    fun around ns entry item s hopens hentry hitem hs => ?_,
    fun before path name rest hbefore => Patch.respelledAs_referredAs hbefore path name rest,
    fun around name => ⟨?_, fun hplain => ?_⟩⟩
  · exact Document.linesOf_script_subset _ (Tree.linesOf_subset _ [] hblock
      (List.mem_singleton.mpr rfl))
  · have hlocated := (Writer.one_mem_located_iff htrees).mpr ⟨ns, hopens, entry, hentry, hitem⟩
    obtain ⟨line, hline, hbehind⟩ := Writer.behind_of_mentions hitem hs around.length
    have hwritten := Tree.linesOf_subset _ [] hlocated hline
    exact ⟨line, Document.linesOf_script_subset _ hwritten, hbehind⟩
  · exact Patch.declaredAs_eq_referredAs_iff (isPath_pathTo around)
  · exact ⟨Patch.declaredAs_of_isPlain hplain,
      Patch.referredAs_of_isPlain hplain (isPath_pathTo around)⟩

/-- A library with a class in a namespace of the reserved name, which is nested in others, and a
documented constant at the top level of that class. -/
def exporting (outer : List String) (doc : String) : Library where
  name := "app"
  description := .ofTop ⟨{ (default : Api.Scope) with
    kind := .nameSpace
    constants := [{ (default : Api.Variable) with
      kind := .variableDesc
      name := "it"
      doc := { (default : Api.Doc) with description := some doc }
      type := some (.simple ⟨pathTo outer ++ "export.X", false, .unset⟩) }] },
    [outer.foldr (fun name inner => .plain name [] [inner]) (.plain "export" [.plain "X"] [])]⟩
  directives := .empty

/-- Inside `sap.ui` the reserved name is respelled alike where it is declared and where it is
referred to. -/
theorem respelled_alike_iff_exporting :
    ∃ p, (exporting ["sap", "ui"] "").prepare [] true = .ok p ∧ ∃ e, p.emit .globals = .ok e ∧
      (⟨2, blockLine 2 "export"⟩ ∈ e.document.lines ∧
        respellExport (blockLine 2 "export") = blockLine 2 Patch.respelled) ∧
      (∃ line ∈ e.document.lines, Behind "sap.ui.export.X" line.text) ∧
      referredAs (pathTo ["sap", "ui"]) "export" = Patch.respelled := by
  obtain ⟨p, hp⟩ : ∃ p, (exporting ["sap", "ui"] "").prepare [] true = .ok p := ⟨_, rfl⟩
  obtain ⟨e, hemit, -, -, -, hblocks, hmentions, -, halike⟩ := respelled_alike_iff hp p.directives
  let x : Symbol := ⟨"sap.ui.export.X", "X", .classType, "app"⟩
  have hread : ((exporting ["sap", "ui"] "").prepare [] true).map (fun p =>
      (TypeExpr.referent? p.writer.toResolver x.fqn,
        decide (∃ v ∈ p.linked.description.top.scope.constants,
          (p.writer.globalItem? (.constant v)).isSome = true ∧
          ∃ type ∈ v.occurrences, TypeExpr.ofSimple p.directives type = .name x.fqn []),
        (p.emit .globals).map fun e =>
          decide ((["sap", "ui"], .block "export") ∈ Tree.locatedOf [] e.document.script)))
      = .ok (some x, true, .ok true) := by decide +kernel
  rw [hp] at hread
  obtain ⟨hx, hmore⟩ := Prod.mk.inj (Except.ok.inj hread)
  obtain ⟨hconstant, hblock⟩ := Prod.mk.inj hmore
  obtain ⟨v, hv, hsome, type, htype, hname⟩ := of_decide_eq_true hconstant
  obtain ⟨item, hitem⟩ := Option.isSome_iff_exists.mp hsome
  have hblock := Except.ok.inj ((congrArg (Except.map _) hemit).symm.trans hblock)
  have hplain : IsPlain "export" := by decide
  have hline := hblocks ["sap", "ui"] "export" (of_decide_eq_true hblock)
  rw [((halike [] "export").2 hplain).1] at hline
  refine ⟨p, hp, e, hemit, hline, ?_,
    ((halike ["sap", "ui"] "export").2 hplain).2.trans (by decide)⟩
  refine hmentions [] _ (.constant v) item x (.self _) ?_ hitem (.inr ⟨type, htype, 0, .here ?_⟩)
  · simp [Writer.entriesAt, valueEntries, hv]
  · exact ⟨x.fqn, [], hname, hx, rfl⟩

/-- A namespace in another path is respelled where it is declared and not where its class is
referred to, and the documentation of a constant is changed. -/
theorem not_respelled_alike_exporting :
    ∃ p, (exporting ["app"] "See sap.ui.export.X.").prepare [] true = .ok p ∧
      ∃ e, p.emit .globals = .ok e ∧
        (Tree.linesOf 0 e.document.script).map Line.text
          = ["/**", " * See sap.ui.export.X.", " */", "declare const it: app.export.X;",
            "declare namespace app \x7b", "export namespace export \x7b", "export class X \x7b",
            "\x7d", "\x7d", "\x7d"] ∧
        (Tree.linesOf 0 e.document.script).map (respellExport ∘ Line.text)
          = ["/**", " * See sap.ui." ++ Patch.respelled ++ ".X.", " */",
            "declare const it: app.export.X;", "declare namespace app \x7b",
            "export namespace " ++ Patch.respelled ++ " \x7b", "export class X \x7b", "\x7d",
            "\x7d", "\x7d"] := by
  refine ⟨_, rfl, _, rfl, ?_⟩
  decide +kernel

end Library

end Ambient
