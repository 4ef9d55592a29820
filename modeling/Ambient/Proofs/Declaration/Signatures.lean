import Mathlib.Data.List.Forall2
import Ambient.Declaration.Render
import Ambient.Declaration.Item
import Ambient.Proofs.Identifier

/-!
# Signatures

A signature has one parameter for each that is described, in their order. Whatever a parameter is
called, the name in the signature can be declared; and it is marked only where no parameter behind
it has to be given. Names are made over one at a time, so that two different ones can become the
same: exactly if they differ only in what is made over.
-/

namespace Ambient

open Api

/-! ## Names of parameters -/

namespace Identifier

variable {c d : Char} {cs : List Char} {name a b : String}

/-- The character that stands for another one in the name of a parameter. -/
def standIn (c : Char) : Char := if isPart c then c else '_'

/-- Whether a character is an underscore or is made over into one. -/
def IsGap (c : Char) : Prop := c = '_' ∨ isPart c = false

/-- The characters of a name with an underscore behind a reserved word, and one in front of what
starts with a digit or is empty. -/
def padded (name : String) : List Char :=
  if isReserved name then name.toList ++ ['_']
  else
    match name.toList with
    | [] => ['_']
    | first :: rest => if first.isDigit then '_' :: first :: rest else first :: rest

/-- Whether two names differ at most in which gap stands at a place, once they are padded. -/
def Alike (a b : String) : Prop :=
  List.Forall₂ (fun c d => c = d ∨ IsGap c ∧ IsGap d) (padded a) (padded b)

/-- Each character is stood for by one that a name may have. -/
theorem isPart_standIn (c : Char) : isPart (standIn c) = true := by
  rw [standIn]
  split
  · assumption
  · rfl

/-- A character that a name may have stands for itself. -/
theorem standIn_of_isPart (h : isPart c = true) : standIn c = c := if_pos h

/-- An underscore stands for gaps and for nothing else. -/
theorem standIn_eq_underscore_iff : standIn c = '_' ↔ IsGap c := by
  rw [standIn, IsGap]
  split
  · next hpart => simp [hpart]
  · next hpart => simp [hpart]

/-- Two characters are told apart unless both are gaps. -/
theorem standIn_eq_iff : standIn c = standIn d ↔ c = d ∨ IsGap c ∧ IsGap d := by
  constructor
  · intro h
    by_cases hc : IsGap c
    · exact .inr ⟨hc, standIn_eq_underscore_iff.mp (h ▸ standIn_eq_underscore_iff.mpr hc)⟩
    · have hd : ¬ IsGap d := fun hd =>
        hc (standIn_eq_underscore_iff.mp (h.trans (standIn_eq_underscore_iff.mpr hd)))
      simp only [IsGap, not_or, Bool.not_eq_false] at hc hd
      rw [standIn_of_isPart hc.2, standIn_of_isPart hd.2] at h
      exact .inl h
  · rintro (rfl | ⟨hc, hd⟩)
    · rfl
    · rw [standIn_eq_underscore_iff.mpr hc, standIn_eq_underscore_iff.mpr hd]

/-- Characters that a name may have stand for themselves. -/
theorem map_standIn_of_isPart (h : ∀ c ∈ cs, isPart c = true) : cs.map standIn = cs :=
  (List.map_congr_left fun c hc => standIn_of_isPart (h c hc)).trans (List.map_id cs)

/-- Digits, and only they, are stood for by digits. -/
theorem isDigit_standIn (c : Char) : (standIn c).isDigit = c.isDigit := by
  rw [standIn]
  split
  · rfl
  · next hpart =>
    simp only [isPart, Char.isAlphanum, Bool.or_eq_true, not_or, Bool.not_eq_true] at hpart
    rw [hpart.1.1.2]
    rfl

/-- A character of a name that is no digit can start one. -/
theorem isStart_of_isDigit_eq_false (h : isPart c = true) (hdigit : c.isDigit = false) :
    isStart c = true := by
  simpa [isStart, isPart, Char.isAlphanum, hdigit] using h

/-- A letter is not a digit, as all digits come before all letters. -/
theorem isDigit_of_isAlpha (h : c.isAlpha = true) : c.isDigit = false := by
  rw [Bool.eq_false_iff]
  intro hdigit
  have hhigh : c.val ≤ '9'.val := of_decide_eq_true (Bool.and_eq_true_iff.mp hdigit).2
  have hlow : 'A'.val ≤ c.val := by
    obtain hupper | hlower := Bool.or_eq_true_iff.mp h
    · have hrange : c.val ≥ 'A'.val ∧ c.val ≤ 'Z'.val := of_decide_eq_true hupper
      exact hrange.1
    · exact UInt32.le_trans (by decide) (of_decide_eq_true (Bool.and_eq_true_iff.mp hlower).1)
  exact absurd (UInt32.le_trans hlow hhigh) (by decide)

/-- No digit starts a name. -/
theorem isDigit_of_isStart (h : isStart c = true) : c.isDigit = false := by
  simp only [isStart, Bool.or_eq_true, beq_iff_eq] at h
  obtain (halpha | rfl) | rfl := h
  · exact isDigit_of_isAlpha halpha
  · rfl
  · rfl

/-- Reserved words are plain names. -/
theorem isPlain_of_isReserved (h : isReserved name = true) : isPlain name = true := by
  have hwords : ∀ word ∈ reservedWords, isPlain word = true := by decide
  exact hwords name (List.contains_iff_mem.mp h)

/-- An identifier does not start with a digit. -/
theorem exists_cons_of_isPlain (h : isPlain name = true) :
    ∃ first rest, name.toList = first :: rest ∧ first.isDigit = false := by
  rw [isPlain] at h
  cases hchars : name.toList with
  | nil => rw [hchars] at h; cases h
  | cons first rest =>
    rw [hchars] at h
    exact ⟨first, rest, rfl, isDigit_of_isStart (Bool.and_eq_true_iff.mp h).1⟩

/-- A plain name that is not reserved is padded with nothing. -/
theorem padded_of_isPlain (hreserved : ¬ isReserved name = true) (h : isPlain name = true) :
    padded name = name.toList := by
  obtain ⟨first, rest, hchars, hdigit⟩ := exists_cons_of_isPlain h
  simp [padded, hreserved, hchars, hdigit]

/-- A padded name has characters, and the first is no digit. -/
theorem padded_eq_cons (name : String) :
    ∃ first rest, padded name = first :: rest ∧ first.isDigit = false := by
  rw [padded]
  split
  · next hreserved =>
    obtain ⟨first, rest, hchars, hdigit⟩ :=
      exists_cons_of_isPlain (isPlain_of_isReserved hreserved)
    exact ⟨first, rest ++ ['_'], by rw [hchars, List.cons_append], hdigit⟩
  · split
    · exact ⟨_, _, rfl, rfl⟩
    · split
      · exact ⟨_, _, rfl, rfl⟩
      · next hdigit => exact ⟨_, _, rfl, Bool.eq_false_iff.mpr hdigit⟩

/-- The name of a parameter is the padded one with an underscore for every gap. -/
theorem toList_parameterName (name : String) :
    (parameterName name).toList = (padded name).map standIn := by
  rw [parameterName]
  split
  · next hreserved =>
    have hparts := isPart_of_isPlainChars (isPlain_of_isReserved hreserved)
    rw [padded, if_pos hreserved, List.map_append, map_standIn_of_isPart hparts,
      String.toList_append]
    rfl
  · next hreserved =>
    split
    · next hplain =>
      rw [padded_of_isPlain hreserved hplain,
        map_standIn_of_isPart (isPart_of_isPlainChars hplain)]
    · rw [padded, if_neg hreserved, String.toList_ofList]
      cases name.toList with
      | nil => rfl
      | cons first rest =>
        have hdigit := isDigit_standIn first
        simp only [cleaned, standIn, List.map_cons] at hdigit ⊢
        rw [hdigit]
        split
        · rfl
        · rfl

/-- The name of a parameter is an identifier. -/
theorem isPlain_parameterName (name : String) : isPlain (parameterName name) = true := by
  obtain ⟨first, rest, hpadded, hdigit⟩ := padded_eq_cons name
  rw [isPlain, toList_parameterName, hpadded, List.map_cons]
  refine Bool.and_eq_true_iff.mpr ⟨?_, List.all_eq_true.mpr fun part hpart => ?_⟩
  · exact isStart_of_isDigit_eq_false (isPart_standIn first) ((isDigit_standIn first).trans hdigit)
  · obtain ⟨c, -, rfl⟩ := List.mem_map.mp hpart
    exact isPart_standIn c

/-- What is neither an identifier nor a reserved word has an underscore once it is made over. -/
theorem underscore_mem_parameterName (hreserved : ¬ isReserved name = true)
    (hplain : ¬ isPlain name = true) : '_' ∈ (parameterName name).toList := by
  rw [toList_parameterName]
  by_contra hnone
  -- Without an underscore, nothing was put in front and no character was made over, so that the
  -- name was an identifier before.
  have hgaps : ∀ c ∈ padded name, ¬ IsGap c := fun c hc hgap =>
    hnone (List.mem_map.mpr ⟨c, hc, standIn_eq_underscore_iff.mpr hgap⟩)
  refine hplain ?_
  rw [padded, if_neg hreserved] at hgaps
  rw [isPlain]
  split at hgaps
  · exact absurd (.inl rfl) (hgaps _ (.head _))
  · next first rest hchars =>
    split at hgaps
    · exact absurd (.inl rfl) (hgaps _ (.head _))
    · next hdigit =>
      have hparts : ∀ c ∈ first :: rest, isPart c = true := fun c hc => by
        simpa [IsGap] using (not_or.mp (hgaps c hc)).2
      rw [hchars]
      exact Bool.and_eq_true_iff.mpr
        ⟨isStart_of_isDigit_eq_false (hparts _ (.head _)) (Bool.eq_false_iff.mpr hdigit),
          List.all_eq_true.mpr fun c hc => hparts c (.tail _ hc)⟩

/-- The name of a parameter is not reserved: a reserved word gets an underscore, and whatever else
is made over has one. -/
theorem isReserved_parameterName (name : String) : isReserved (parameterName name) = false := by
  by_cases hreserved : isReserved name = true
  · rw [parameterName, if_pos hreserved]
    exact not_isReserved_of_mem (by simp [String.toList_append])
  · by_cases hplain : isPlain name = true
    · rw [parameterName, if_neg hreserved, if_pos hplain]
      exact Bool.eq_false_iff.mpr hreserved
    · exact not_isReserved_of_mem (underscore_mem_parameterName hreserved hplain)

/-- A parameter keeps its name exactly if it can be declared by that. -/
theorem parameterName_eq_self_iff : parameterName a = a ↔ isBinding a = true := by
  constructor
  · intro hname
    have hplain := isPlain_parameterName a
    have hreserved := isReserved_parameterName a
    rw [hname] at hplain hreserved
    rw [isBinding, hplain, hreserved]
    rfl
  · intro hbinding
    obtain ⟨hplain, hreserved⟩ := Bool.and_eq_true_iff.mp hbinding
    rw [Bool.not_eq_true'] at hreserved
    rw [parameterName, hreserved, hplain]
    rfl

/-- Two parameters are written under one name exactly if their names are alike. -/
theorem parameterName_eq_iff : parameterName a = parameterName b ↔ Alike a b := by
  have hmaps : (padded a).map standIn = (padded b).map standIn
      ↔ List.Forall₂ (fun c d => standIn c = standIn d) (padded a) (padded b) := by
    rw [← List.forall₂_eq_eq_eq, List.forall₂_map_left_iff, List.forall₂_map_right_iff]
  rw [← String.toList_inj, toList_parameterName, toList_parameterName, hmaps]
  simp only [standIn_eq_iff, Alike]

end Identifier

namespace Declaration

open Identifier (parameterName isPlain isReserved isBinding Alike)

/-! ## Parameters -/

/-- A described parameter and the one that is written for it. A required one has no mark, and an
optional one without a mark says in its type that it may be undefined. -/
structure Slot.Declares (slot : Slot) (p : Parameter) : Prop where
  name_eq : slot.name = parameterName p.name
  isPlain_name : isPlain slot.name = true
  isReserved_name : isReserved slot.name = false
  mark_iff : (slot.name ++ "?").toList <+: slot.text.toList ↔ slot.isMarked = true
  required : p.mayBeLeftOut = false → slot.isMarked = false
  optional : p.mayBeLeftOut = true →
    slot.isMarked = true ∨ " | undefined".toList <:+ slot.type.toList

/-- The parameters of a signature that is legal: one for each described, in their order, and the
marked ones behind all others. -/
structure Legal (parameters : List Parameter) (slots : List Slot) : Prop where
  declares : List.Forall₂ Slot.Declares slots parameters
  trailing : slots.Pairwise fun earlier later => earlier.isMarked = true → later.isMarked = true

/-- A question mark follows the name of a marked parameter only. -/
theorem Slot.mark_iff_isMarked (slot : Slot) :
    (slot.name ++ "?").toList <+: slot.text.toList ↔ slot.isMarked = true := by
  rw [Slot.text]
  cases slot.isMarked <;> simp [String.toList_append, List.append_assoc]

namespace Writer

variable (w : Writer) {ps : List Parameter}

/-- What is written for a parameter: a mark if a call may leave it out and what follows too, or a
type that may be undefined if only what follows is required. -/
theorem exists_run_slot (p : Parameter) (requiredLater : Bool) (page : Page) :
    ∃ type, ((w.slot p requiredLater).run page).1 = ⟨parameterName p.name,
      p.mayBeLeftOut && !requiredLater,
      if p.mayBeLeftOut && requiredLater then type ++ " | undefined" else type⟩ := by
  refine ⟨((TypeExpr.writeParameterType w.toResolver p.type).run page).1, ?_⟩
  rw [slot]
  cases p.mayBeLeftOut
  · rfl
  · cases requiredLater
    · rfl
    · rfl

/-- The slot written for a parameter declares it. -/
theorem declares_slot (p : Parameter) (requiredLater : Bool) (page : Page) :
    ((w.slot p requiredLater).run page).1.Declares p := by
  obtain ⟨type, hslot⟩ := w.exists_run_slot p requiredLater page
  rw [hslot]
  refine ⟨rfl, Identifier.isPlain_parameterName _, Identifier.isReserved_parameterName _,
    Slot.mark_iff_isMarked _, fun hrequired => ?_, fun hoptional => ?_⟩
  · rw [hrequired]
    rfl
  · rw [hoptional]
    cases requiredLater
    · exact .inl rfl
    · exact .inr ⟨type.toList, by simp [String.toList_append]⟩

/-- The first parameter is written as one that others follow, and these on the page it leaves. -/
theorem run_slots_cons (p : Parameter) (rest : List Parameter) (page : Page) :
    ((w.slots (p :: rest)).run page).1
      = ((w.slot p (rest.any fun later => !later.mayBeLeftOut)).run page).1
        :: ((w.slots rest).run
          ((w.slot p (rest.any fun later => !later.mayBeLeftOut)).run page).2).1 := rfl

/-- The slots written for parameters declare them one by one. -/
theorem declares_slots (ps : List Parameter) (page : Page) :
    List.Forall₂ Slot.Declares ((w.slots ps).run page).1 ps := by
  induction ps generalizing page with
  | nil => exact .nil
  | cons p rest ih =>
    rw [run_slots_cons]
    exact .cons (w.declares_slot p _ page) (ih _)

/-- Where nothing is required, every parameter is marked. -/
theorem isMarked_slots (h : ps.any (fun p => !p.mayBeLeftOut) = false) (page : Page) :
    ∀ slot ∈ ((w.slots ps).run page).1, slot.isMarked = true := by
  induction ps generalizing page with
  | nil => exact List.forall_mem_nil _
  | cons p rest ih =>
    rw [List.any_cons, Bool.or_eq_false_iff, Bool.not_eq_false'] at h
    rw [run_slots_cons, List.forall_mem_cons, h.2]
    obtain ⟨type, hslot⟩ := w.exists_run_slot p false page
    refine ⟨?_, ih h.2 _⟩
    rw [hslot, h.1]
    rfl

/-- A marked parameter has only marked ones behind it. -/
theorem pairwise_slots (ps : List Parameter) (page : Page) :
    ((w.slots ps).run page).1.Pairwise
      fun earlier later => earlier.isMarked = true → later.isMarked = true := by
  induction ps generalizing page with
  | nil => exact .nil
  | cons p rest ih =>
    rw [run_slots_cons, List.pairwise_cons]
    refine ⟨fun later hlater hmarked => ?_, ih _⟩
    obtain ⟨type, hslot⟩ := w.exists_run_slot p (rest.any fun later => !later.mayBeLeftOut) page
    rw [hslot, Bool.and_eq_true, Bool.not_eq_true'] at hmarked
    exact w.isMarked_slots hmarked.2 _ later hlater

/-- The slots written for parameters make a legal list. -/
theorem legal_slots (ps : List Parameter) (page : Page) : Legal ps ((w.slots ps).run page).1 :=
  ⟨w.declares_slots ps page, w.pairwise_slots ps page⟩

/-- The written names are those of the parameters, made into names. -/
theorem map_name_slots (ps : List Parameter) (page : Page) :
    ((w.slots ps).run page).1.map Slot.name = ps.map fun p => parameterName p.name := by
  rw [← List.forall₂_eq_eq_eq, List.forall₂_map_left_iff, List.forall₂_map_right_iff]
  exact (w.declares_slots ps page).imp fun _ _ h => h.name_eq

/-- The names that are written are different exactly if no two described ones are alike. -/
theorem nodup_slots_iff (ps : List Parameter) (page : Page) :
    (((w.slots ps).run page).1.map Slot.name).Nodup
      ↔ ps.Pairwise fun p q => ¬ Alike p.name q.name := by
  rw [map_name_slots, List.Nodup, List.pairwise_map]
  simp only [ne_eq, Identifier.parameterName_eq_iff]

/-! ## Signatures -/

/-- A signature has the slots of its function's parameters. -/
theorem parameters_signature (f : Function) (page : Page) :
    ((w.signature f).run page).1.parameters = ((w.slots f.parameters).run page).1 := by
  rw [signature]
  cases f.returns.bind Outcome.type
  · rfl
  · rfl

/-- The signature of a function and that of a constructor are legal: whatever the parameters are
called, the written ones can be declared, and an optional one is marked or may be undefined. -/
theorem signatures_are_legal (f : Function) (page : Page) :
    Legal f.parameters ((w.signature f).run page).1.parameters ∧
      Legal f.parameters ((w.constructorSignature f).run page).1.parameters := by
  rw [parameters_signature]
  exact ⟨w.legal_slots f.parameters page, w.legal_slots f.parameters page⟩

/-- The parameters of a signature have different names exactly if no two names of the description
are alike; different names can be alike. -/
theorem names_nodup_iff_not_alike (f : Function) (page : Page) :
    ((((w.signature f).run page).1.parameters.map Slot.name).Nodup
        ↔ f.parameters.Pairwise fun p q => ¬ Alike p.name q.name) ∧
      ((((w.constructorSignature f).run page).1.parameters.map Slot.name).Nodup
        ↔ f.parameters.Pairwise fun p q => ¬ Alike p.name q.name) := by
  rw [parameters_signature]
  exact ⟨w.nodup_slots_iff f.parameters page, w.nodup_slots_iff f.parameters page⟩

/-- A writer that knows no symbol. -/
def blank : Writer where
  library := "sap.ui.core"
  table := default
  directives := default
  emitted := []
  interfaces := []
  nameOf := fun _ => ""

/-- A function with two parameters of different names that are alike, twice: by a gap, and by a
reserved word. -/
def lookalikes : Function where
  kind := .functionDesc
  name := "attach"
  isStatic := false
  overwrites := false
  parameters := ["a-b", "a_b", "class", "class_"].map fun name =>
    .mk ⟨none, name, none, false, none, .unset⟩ .unspecified
  returns := none
  throws := []
  visibility := none
  doc := ⟨none, none, none, none, []⟩
  link := .unset

/-- Parameters of different names can be written under one name, and then the signature repeats it.
-/
theorem lookalikes_written_alike :
    (lookalikes.parameters.map Parameter.name).Nodup ∧
      ¬ (((blank.signature lookalikes).run default).1.parameters.map Slot.name).Nodup ∧
      ((blank.signature lookalikes).run default).1.text
        = "(a_b: any, a_b: any, class_: any, class_: any): void" := by
  decide

end Writer

end Declaration

end Ambient
