import Ambient.Proofs.Identifier
import Ambient.Proofs.Respelling

/-!
# Respelling once is enough

Respelling changes letters in their places, so whatever has no letter that looks alike stands in the
respelled text only where it stood before. The texts that are replaced have none; a place where one
of them stood has got one. So none is left, a second respelling changes nothing, and the letters
that look alike tell what the text was, as long as it had none itself.
-/

namespace Ambient.Patch

open Text (Spans)

variable {cs part : List Char}

/-- Another letter than the one that looks alike was there before. -/
theorem getElem?_of_respellIn {before after : List Char} {i : Nat} {c : Char}
    (h : (respellIn before cs after)[i]? = some c) (hc : c ≠ lookalike) : cs[i]? = some c := by
  rw [getElem?_respellIn] at h
  split at h
  · exact absurd (Option.some.inj h).symm hc
  · exact h

/-- A text without letters that look alike stands where it stood before. -/
theorem spans_of_spans_respellIn {before after : List Char} {count i : Nat}
    (hpart : lookalike ∉ part) (h : Spans part count (respellIn before cs after) i) :
    Spans part count cs i := by
  refine ⟨h.1, List.prefix_iff_getElem?.mpr fun k hk => ?_⟩
  have hat := List.prefix_iff_getElem?.mp h.2 k hk
  rw [List.getElem?_drop] at hat ⊢
  exact getElem?_of_respellIn hat fun heq => hpart (heq ▸ List.getElem_mem hk)

/-- A letter is respelled exactly where one of the texts stands around it. -/
theorem around_iff_spans {i : Nat} :
    cs[i]? = some 'e' ∧ Around ([] ++ cs.take i) (cs.drop (i + 1) ++ []) ↔
      Spans ("namespace ".toList ++ 'e' :: "xport ".toList) "namespace ".toList.length cs i ∨
        Spans ("sap.ui.".toList ++ 'e' :: "xport.".toList) "sap.ui.".toList.length cs i := by
  rw [List.nil_append, List.append_nil, spans_iff, spans_iff, Around, and_or_left]

/-- Where a letter has been respelled, there is nothing to respell any more. -/
theorem respellIn_respellIn (cs : List Char) :
    respellIn [] (respellIn [] cs []) [] = respellIn [] cs [] := by
  refine List.ext_getElem? fun i => ?_
  rw [getElem?_respellIn [] (respellIn [] cs []), if_neg]
  intro hagain
  have hat : (respellIn [] cs [])[i]? = some 'e' := hagain.1
  rw [around_iff_spans] at hagain
  have hbefore := hagain.imp (spans_of_spans_respellIn (by decide))
    (spans_of_spans_respellIn (by decide))
  rw [getElem?_respellIn, if_pos (around_iff_spans.mpr hbefore)] at hat
  exact absurd (Option.some.inj hat) (by decide)

/-- Respelling a text again changes nothing. -/
theorem respellExport_respellExport (text : String) :
    respellExport (respellExport text) = respellExport text :=
  String.toList_injective (by rw [toList_respellExport, toList_respellExport, respellIn_respellIn])

/-! ## Back to the letter -/

/-- A text with every letter that looks alike spelled as the one that it looks like. -/
def unrespelled (text : String) : String := Text.replace text (String.singleton lookalike) "e"

/-- The letters of a text with the respelling undone. -/
theorem toList_unrespelled (text : String) :
    (unrespelled text).toList = text.toList.map fun c => if c = lookalike then 'e' else c := by
  rw [unrespelled, Text.replace, String.toList_ofList, String.toList_singleton]
  exact Text.replaceFrom_singleton lookalike 'e' text.toList

/-- Undoing the respelling gives the same whether or not the text was respelled. -/
theorem map_respellIn (before cs after : List Char) :
    (respellIn before cs after).map (fun c => if c = lookalike then 'e' else c)
      = cs.map fun c => if c = lookalike then 'e' else c := by
  induction cs generalizing before with
  | nil => rfl
  | cons c rest ih =>
    rw [respellIn, List.map_cons, List.map_cons, ih]
    by_cases h : c = 'e' ∧ Around before (rest ++ after)
    · have hletter : ('e' : Char) ≠ lookalike := by decide
      rw [if_pos h, if_pos rfl, h.1, if_neg hletter]
    · rw [if_neg h]

/-- Respelling is undone in a text that has none of the letters of its own. -/
theorem unrespelled_respellExport (text : String) :
    unrespelled (respellExport text) = unrespelled text :=
  String.toList_injective (by
    rw [toList_unrespelled, toList_unrespelled, toList_respellExport, map_respellIn])

/-- Undoing changes nothing exactly if the look-alike letter is not there. -/
theorem unrespelled_eq_self_iff (text : String) :
    unrespelled text = text ↔ lookalike ∉ text.toList := by
  rw [← String.toList_inj, toList_unrespelled]
  nth_rewrite 2 [← List.map_id text.toList]
  rw [List.map_inj_left]
  constructor
  · intro h hmem
    have hat := h lookalike hmem
    rw [if_pos rfl] at hat
    exact absurd hat (by decide)
  · intro h c hc
    exact if_neg fun heq : c = lookalike => h (heq ▸ hc)

/-- Respelling is a projection: it leaves neither the declaration nor the path in the text, so that
a second time nothing is to be done; and the text can be told from its letters exactly if none of
them was one that looks alike. -/
theorem respelling_isProjection (text : String) :
    Text.contains (respellExport text) "namespace export " = false ∧
      Text.contains (respellExport text) "sap.ui.export." = false ∧
      respellExport (respellExport text) = respellExport text ∧
      (Text.replace (respellExport text) (String.singleton lookalike) "e" = text ↔
        lookalike ∉ text.toList) := by
  obtain ⟨hdeclared, hpath⟩ :=
    (respellExport_eq_self_iff (respellExport text)).mp (respellExport_respellExport text)
  refine ⟨hdeclared, hpath, respellExport_respellExport text, ?_⟩
  change unrespelled (respellExport text) = text ↔ _
  rw [unrespelled_respellExport, unrespelled_eq_self_iff]

end Ambient.Patch
