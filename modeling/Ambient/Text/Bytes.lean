/-!
# Texts as bytes

Programs pass on bytes. Reading them as text is strict, or puts a mark in the place of every
sequence that stands for no character.
-/

namespace Ambient

/-- A sequence of bytes. -/
abbrev Bytes := List UInt8

namespace Bytes

/-- The bytes of a text. -/
def ofText (s : String) : Bytes := s.toUTF8.toList

/-- The text of bytes, if they are one. -/
def text? (bytes : Bytes) : Option String := String.fromUTF8? ⟨bytes.toArray⟩

/-- The mark for bytes that stand for no character. -/
def mark : Char := '\uFFFD'

/-- The bytes that may follow the first one of a character, and the number of bytes after it. -/
def continuation? (first : UInt8) : Option (UInt8 × UInt8 × Nat) :=
  if 0xC2 ≤ first ∧ first ≤ 0xDF then some (0x80, 0xBF, 1)
  else if first = 0xE0 then some (0xA0, 0xBF, 2)
  else if first = 0xED then some (0x80, 0x9F, 2)
  else if 0xE1 ≤ first ∧ first ≤ 0xEF then some (0x80, 0xBF, 2)
  else if first = 0xF0 then some (0x90, 0xBF, 3)
  else if 0xF1 ≤ first ∧ first ≤ 0xF3 then some (0x80, 0xBF, 3)
  else if first = 0xF4 then some (0x80, 0x8F, 3)
  else none

/-- The bits of a first byte that belong to the code, by the number of bytes after it. -/
def leadBits (first : UInt8) (more : Nat) : Nat :=
  first.toNat % (if more = 1 then 32 else if more = 2 then 16 else 8)

/-- A character that has been begun: its code so far, the limits of its next byte, and the number
of bytes that are missing. -/
structure Pending where
  code : Nat
  low : UInt8
  high : UInt8
  missing : Nat

/-- The characters of bytes, with a mark for every sequence that cannot be continued to one. -/
def lossyChars : Option Pending → Bytes → List Char
  | none, [] => []
  | some _, [] => [mark]
  | none, byte :: rest => start byte rest
  | some p, byte :: rest =>
    if p.low ≤ byte ∧ byte ≤ p.high then
      let code := p.code * 64 + byte.toNat % 64
      if p.missing = 1 then Char.ofNat code :: lossyChars none rest
      else lossyChars (some ⟨code, 0x80, 0xBF, p.missing - 1⟩) rest
    else mark :: start byte rest
where
  /-- The same from the first byte of a character on. -/
  start (byte : UInt8) (rest : Bytes) : List Char :=
    if byte < 0x80 then Char.ofNat byte.toNat :: lossyChars none rest
    else
      match continuation? byte with
      | some (low, high, more) =>
        lossyChars (some ⟨leadBits byte more, low, high, more⟩) rest
      | none => mark :: lossyChars none rest

/-- The text of bytes, with a mark for every sequence that stands for no character. -/
def lossyText (bytes : Bytes) : String := String.ofList (lossyChars none bytes)

end Bytes

end Ambient
