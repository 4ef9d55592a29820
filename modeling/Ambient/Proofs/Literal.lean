import Ambient.Proofs.Identifier
import Ambient.Proofs.SourceText

/-!
# String literals of source text

A literal in double quotes on one line stands for a sequence of UTF-16 code units: every character
but a quote, a backslash or the end of a line stands for itself, and a backslash starts an escape
sequence. A literal in which quotes and backslashes are escaped reads back as its text unless a line
ends in it. Text in double quotes in which nothing is escaped reads back only if it has nothing to
escape.
-/

namespace Ambient.Literal

open Text (endsLine)
open Identifier (isPart isPlain literal literalChar propertyKey)

/-! ## Code units -/

/-- The code units of a code point: a pair of surrogates beyond the basic plane. -/
def unitsOf (n : Nat) : List Nat :=
  if n < 0x10000 then [n] else [0xD800 + (n - 0x10000) / 0x400, 0xDC00 + (n - 0x10000) % 0x400]

/-- The code units of characters. -/
def units (cs : List Char) : List Nat := cs.flatMap fun c => unitsOf c.toNat

/-- The code units of characters start with those of the first. -/
theorem units_cons (c : Char) (cs : List Char) : units (c :: cs) = unitsOf c.toNat ++ units cs :=
  rfl

/-- The code units of two runs of characters are those of the first, then those of the second. -/
theorem units_append (cs ds : List Char) : units (cs ++ ds) = units cs ++ units ds :=
  List.flatMap_append

/-- Every character has at least one code unit. -/
theorem length_unitsOf_pos (n : Nat) : 0 < (unitsOf n).length := by
  rw [unitsOf]
  split <;> simp

/-- No character has more than two code units. -/
theorem length_unitsOf_le (n : Nat) : (unitsOf n).length ≤ 2 := by
  rw [unitsOf]
  split <;> simp

/-- Every character has a code unit. -/
theorem length_le_length_units (cs : List Char) : cs.length ≤ (units cs).length := by
  induction cs with
  | nil => exact Nat.le_refl 0
  | cons c rest ih =>
    have hfirst := length_unitsOf_pos c.toNat
    rw [units_cons, List.length_append, List.length_cons]
    omega

/-! ## Reading -/

/-- The value of a hexadecimal digit. -/
def hexDigit? (c : Char) : Option Nat :=
  if c.isDigit then some (c.toNat - '0'.toNat)
  else if 'a' ≤ c ∧ c ≤ 'f' then some (c.toNat - 'a'.toNat + 10)
  else if 'A' ≤ c ∧ c ≤ 'F' then some (c.toNat - 'A'.toNat + 10)
  else none

/-- The number with hexadecimal digits. -/
def hexNumber? (digits : List Char) : Option Nat :=
  digits.foldlM (fun number c => (hexDigit? c).map fun digit => 16 * number + digit) 0

/-- The characters that stand for one code unit behind a backslash. -/
def singleEscapes : List (Char × Nat) :=
  [('\x27', 0x27), ('\x22', 0x22), ('\\', 0x5C), ('b', 0x08), ('f', 0x0C), ('n', 0x0A), ('r', 0x0D),
    ('t', 0x09), ('v', 0x0B)]

/-- What may follow a backslash, and the code units that it stands for. -/
inductive Escape : List Char → List Nat → Prop
  | single {c : Char} {unit : Nat} : (c, unit) ∈ singleEscapes → Escape [c] [unit]
  /-- Any other character stands for itself, unless it is a digit, starts another kind of escape
  sequence or ends the line. -/
  | itself {c : Char} : c ∉ singleEscapes.map Prod.fst → c.isDigit = false → c ≠ 'x' → c ≠ 'u' →
      endsLine c = false → Escape [c] (unitsOf c.toNat)
  | hex {digits : List Char} {unit : Nat} : digits.length = 2 → hexNumber? digits = some unit →
      Escape ('x' :: digits) [unit]
  | unicode {digits : List Char} {unit : Nat} : digits.length = 4 → hexNumber? digits = some unit →
      Escape ('u' :: digits) [unit]
  | codePoint {digits : List Char} {point : Nat} : digits ≠ [] → hexNumber? digits = some point →
      point ≤ 0x10FFFF → Escape ('u' :: '\x7b' :: (digits ++ ['\x7d'])) (unitsOf point)

/-- Whether a character stands for itself between double quotes. -/
def isPlainChar (c : Char) : Bool := c != '\x22' && c != '\\' && !endsLine c

/-- What may stand between double quotes on one line, and the code units that it stands for. -/
inductive Body : List Char → List Nat → Prop
  | nil : Body [] []
  | plain {c : Char} {cs : List Char} {us : List Nat} : isPlainChar c = true → Body cs us →
      Body (c :: cs) (unitsOf c.toNat ++ us)
  | escape {e cs : List Char} {vs us : List Nat} : Escape e vs → Body cs us →
      Body ('\\' :: (e ++ cs)) (vs ++ us)
  /-- A zero is an escape sequence by itself if no other digit follows. -/
  | null {cs : List Char} {us : List Nat} : (∀ d ∈ cs.head?, d.isDigit = false) → Body cs us →
      Body ('\\' :: '0' :: cs) (0 :: us)

/-- A text is a string literal in double quotes on one line, with a value. -/
def Reads (text : String) (value : List Nat) : Prop :=
  ∃ cs, text.toList = '\x22' :: (cs ++ ['\x22']) ∧ Body cs value

/-- Characters in double quotes. -/
def quoted (cs : List Char) : String := String.ofList ('\x22' :: (cs ++ ['\x22']))

/-- Characters can be told from what stands in quotes. -/
theorem quoted_inj {cs ds : List Char} : quoted cs = quoted ds ↔ cs = ds := by
  rw [quoted, quoted, String.ofList_inj, List.cons_inj_right, List.append_left_inj]

/-- What stands in quotes is read as what the characters between them stand for. -/
theorem reads_quoted_iff {cs : List Char} {us : List Nat} : Reads (quoted cs) us ↔ Body cs us := by
  constructor
  · rintro ⟨ds, htext, hbody⟩
    rw [quoted, String.toList_ofList] at htext
    obtain rfl := List.append_cancel_right (List.cons.inj htext).2
    exact hbody
  · exact fun hbody => ⟨cs, String.toList_ofList, hbody⟩

variable {c : Char} {cs rest : List Char} {us : List Nat}

/-! ## Escaped text -/

/-- A character that stands for itself is read as that. -/
theorem body_cons_iff (hc : c ≠ '\\') :
    Body (c :: rest) us ↔
      isPlainChar c = true ∧ ∃ vs, us = unitsOf c.toNat ++ vs ∧ Body rest vs := by
  constructor
  · intro h
    cases h with
    | plain hplain hrest => exact ⟨hplain, _, rfl, hrest⟩
    | escape => exact absurd rfl hc
    | null => exact absurd rfl hc
  · rintro ⟨hplain, vs, rfl, hrest⟩
    exact .plain hplain hrest

/-- Behind a backslash, a character that is an escape sequence by itself is read as that. -/
theorem body_escape_iff {unit : Nat} (hc : (c, unit) ∈ singleEscapes) :
    Body ('\\' :: c :: rest) us ↔ ∃ vs, us = unit :: vs ∧ Body rest vs := by
  have hfirst : ∀ d ∈ singleEscapes.map Prod.fst, d ≠ '0' ∧ d ≠ 'x' ∧ d ≠ 'u' := by
    simp [singleEscapes]
  obtain ⟨hzero, hx, hu⟩ := hfirst c (List.mem_map_of_mem hc)
  have hunique : ∀ one ∈ singleEscapes, ∀ other ∈ singleEscapes, one.1 = other.1 → one = other := by
    decide
  constructor
  · intro h
    -- Reading is unambiguous: every other way to read a backslash needs another character behind
    -- it.
    generalize htext : '\\' :: c :: rest = text at h
    cases h with
    | nil => cases htext
    | plain hplain hrest =>
      obtain ⟨rfl, -⟩ := List.cons.inj htext
      exact absurd hplain (by decide)
    | null => exact absurd (List.cons.inj (List.cons.inj htext).2).1 hzero
    | escape he hrest =>
      have hbehind := (List.cons.inj htext).2
      cases he with
      | single hother =>
        obtain ⟨rfl, rfl⟩ := List.cons.inj hbehind
        cases hunique _ hc _ hother rfl
        exact ⟨_, rfl, hrest⟩
      | itself hnone =>
        obtain ⟨rfl, -⟩ := List.cons.inj hbehind
        exact absurd (List.mem_map_of_mem hc) hnone
      | hex => exact absurd (List.cons.inj hbehind).1 hx
      | unicode => exact absurd (List.cons.inj hbehind).1 hu
      | codePoint => exact absurd (List.cons.inj hbehind).1 hu
  · rintro ⟨vs, rfl, hrest⟩
    exact .escape (.single hc) hrest

/-- An escaped character is read as itself, unless it ends the line. -/
theorem body_literalChar_iff :
    Body (literalChar c ++ rest) us ↔
      endsLine c = false ∧ ∃ vs, us = unitsOf c.toNat ++ vs ∧ Body rest vs := by
  simp only [literalChar, Bool.or_eq_true, decide_eq_true_eq]
  split
  · next hescaped =>
    have hpair : (c, c.toNat) ∈ singleEscapes ∧ endsLine c = false ∧
        unitsOf c.toNat = [c.toNat] := by
      obtain rfl | rfl := hescaped <;> decide
    rw [hpair.2.2]
    exact (body_escape_iff hpair.1).trans (and_iff_right hpair.2.1).symm
  · next hplain =>
    rw [not_or] at hplain
    refine (body_cons_iff hplain.1).trans (and_congr_left' ?_)
    simp [isPlainChar, hplain.1, hplain.2]

/-- Characters written for a literal stand for themselves, unless one of them ends a line. -/
theorem body_flatMap_literalChar_iff (cs : List Char) :
    ∀ us, Body (cs.flatMap literalChar) us ↔ (∀ c ∈ cs, endsLine c = false) ∧ us = units cs := by
  induction cs with
  | nil =>
    intro us
    refine ⟨fun h => ?_, ?_⟩
    · cases h
      exact ⟨List.forall_mem_nil _, rfl⟩
    · rintro ⟨-, rfl⟩
      exact .nil
  | cons c rest ih =>
    intro us
    rw [List.flatMap_cons, body_literalChar_iff, List.forall_mem_cons, units_cons]
    constructor
    · rintro ⟨hc, vs, rfl, hrest⟩
      obtain ⟨hlines, rfl⟩ := (ih vs).mp hrest
      exact ⟨⟨hc, hlines⟩, rfl⟩
    · rintro ⟨⟨hc, hlines⟩, rfl⟩
      exact ⟨hc, _, rfl, (ih _).mpr ⟨hlines, rfl⟩⟩

/-- A literal with a text is well formed exactly if no line ends in the text, and then the text is
its value. -/
theorem reads_literal_iff (text : String) (us : List Nat) :
    Reads (literal text) us ↔ (∀ c ∈ text.toList, endsLine c = false) ∧ us = units text.toList :=
  reads_quoted_iff.trans (body_flatMap_literalChar_iff _ us)

/-! ## Text without escapes -/

/-- An escape sequence stands for no more code units than it has itself. -/
theorem Escape.length_le {e : List Char} {us : List Nat} (h : Escape e us) :
    us.length ≤ (units e).length := by
  have hlength := length_le_length_units e
  cases h with
  | single => exact hlength
  | itself => exact Nat.le_of_eq (by simp [units])
  | hex | unicode => exact Nat.le_trans (by simp) hlength
  | codePoint =>
    refine Nat.le_trans (length_unitsOf_le _) (Nat.le_trans ?_ hlength)
    simp

/-- What stands between double quotes stands for no more code units than it has itself, and for less
of them if it has an escape sequence. -/
theorem Body.length_le (h : Body cs us) :
    us.length ≤ (units cs).length ∧ ('\\' ∈ cs → us.length < (units cs).length) := by
  induction h with
  | nil => exact ⟨Nat.le_refl 0, fun hmem => absurd hmem List.not_mem_nil⟩
  | @plain c cs us hplain hrest ih =>
    rw [units_cons, List.length_append, List.length_append]
    refine ⟨Nat.add_le_add_left ih.1 _, fun hmem => ?_⟩
    obtain rfl | hmem := List.mem_cons.mp hmem
    · exact absurd hplain (by decide)
    · exact Nat.add_lt_add_left (ih.2 hmem) _
  | @escape e cs vs us he hrest ih =>
    have hvs := he.length_le
    have hfirst := length_unitsOf_pos '\\'.toNat
    rw [units_cons, units_append, List.length_append, List.length_append, List.length_append]
    omega
  | @null cs us hnext hrest ih =>
    have hfirst := length_unitsOf_pos '\\'.toNat
    have hzero := length_unitsOf_pos '0'.toNat
    rw [units_cons, units_cons, List.length_append, List.length_append, List.length_cons]
    omega

/-- Without a backslash, every character stands for itself. -/
theorem Body.isPlainChar (h : Body cs us) (hmem : '\\' ∉ cs) : ∀ c ∈ cs, isPlainChar c = true := by
  induction h with
  | nil => exact List.forall_mem_nil _
  | plain hplain hrest ih =>
    exact List.forall_mem_cons.mpr ⟨hplain, ih fun h => hmem (.tail _ h)⟩
  | escape => exact absurd (.head _) hmem
  | null => exact absurd (.head _) hmem

/-- Plain characters stand for themselves. -/
theorem body_of_isPlainChar (h : ∀ c ∈ cs, isPlainChar c = true) : Body cs (units cs) := by
  induction cs with
  | nil => exact .nil
  | cons c rest ih =>
    obtain ⟨hc, hrest⟩ := List.forall_mem_cons.mp h
    exact .plain hc (ih hrest)

/-- Characters in double quotes read back as themselves exactly if each stands for itself. -/
theorem reads_quoted_units_iff (cs : List Char) :
    Reads (quoted cs) (units cs) ↔ ∀ c ∈ cs, isPlainChar c = true := by
  rw [reads_quoted_iff]
  -- A backslash would make the value shorter than the characters.
  refine ⟨fun h => h.isPlainChar fun hmem => ?_, body_of_isPlainChar⟩
  exact absurd (h.length_le.2 hmem) (Nat.lt_irrefl _)

/-! ## Names -/

/-- A text in double quotes reads back as a name, as no other, and only if the name is one line. -/
def ReadsBack (text name : String) : Prop :=
  ∀ us, Reads text us ↔ (∀ c ∈ name.toList, endsLine c = false) ∧ us = units name.toList

/-- The literal of a name reads back as the name. -/
theorem readsBack_literal (name : String) : ReadsBack (literal name) name := reads_literal_iff name

/-- A property key names what it says if it is a plain identifier, and otherwise the value of the
literal that it is. -/
def Names (key : String) (value : List Nat) : Prop :=
  isPlain key = true ∧ value = units key.toList ∨ Reads key value

/-- A text starts with a key, which ends where it has to, and the key names a name, no other, and
only if the name is one line. -/
def IsKeyed (text name : String) : Prop :=
  ∃ key mark behind, text = key ++ mark ++ behind ∧ mark ∈ [":", "?", "(", " "] ∧
    ∀ us, Names key us ↔ (∀ c ∈ name.toList, endsLine c = false) ∧ us = units name.toList

/-- A literal is no plain identifier. -/
theorem Reads.isPlain_eq_false {text : String} (h : Reads text us) : isPlain text = false := by
  obtain ⟨cs, htext, -⟩ := h
  rw [isPlain, htext]
  rfl

/-- What may stand in an identifier does not end a line. -/
theorem endsLine_of_isPart (h : isPart c = true) : endsLine c = false := by
  refine Bool.eq_false_iff.mpr fun hends => ?_
  have hmem : c ∈ ['\n', '\r', '\u2028', '\u2029'] := by
    simpa [endsLine, or_assoc] using hends
  have hnone : ['\n', '\r', '\u2028', '\u2029'].all (fun d => !isPart d) = true := by decide
  have hpart := List.all_eq_true.mp hnone c hmem
  rw [h] at hpart
  cases hpart

/-- A property key for a name is well formed exactly if no line ends in the name, and then it names
that. -/
theorem names_propertyKey_iff (name : String) (us : List Nat) :
    Names (propertyKey name) us ↔
      (∀ c ∈ name.toList, endsLine c = false) ∧ us = units name.toList := by
  rw [propertyKey]
  split
  · next hplain =>
    have hline : ∀ c ∈ name.toList, endsLine c = false := fun c hc =>
      endsLine_of_isPart (Identifier.isPart_of_isPlainChars hplain c hc)
    constructor
    · rintro (⟨-, hus⟩ | hreads)
      · exact ⟨hline, hus⟩
      · exact absurd (hplain.symm.trans hreads.isPlain_eq_false) nofun
    · exact fun h => .inl ⟨hplain, h.2⟩
  · rw [← reads_literal_iff]
    constructor
    · rintro (⟨hplain, -⟩ | hreads)
      · have hquote : isPlain (literal name) = false := by
          simp [isPlain, literal, Identifier.isPlainChars, Identifier.isStart]
        exact absurd (hplain.symm.trans hquote) nofun
      · exact hreads
    · exact .inr

end Ambient.Literal
