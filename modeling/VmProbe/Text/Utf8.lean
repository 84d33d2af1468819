/-
VmProbe/Text/Utf8.lean

Bytes as text.  Strict reading (`decode?`) takes well-formed UTF-8 only.  Lossy reading
(`decodeLossy`) takes any bytes: each well-formed character stands for itself, and each
maximal run of bytes that starts a character without finishing it, or cannot start one,
becomes one replacement character.

The ranges follow the standard: the second byte of a three- or four-byte character is
restricted after `E0`, `ED`, `F0` and `F4`, so overlong forms, surrogates and values beyond
the last code point are never accepted.
-/
namespace VmProbe.Text

/-- The character that stands for bytes that are not text. -/
def replacement : Char := '\uFFFD'

/-- How many bytes follow a first byte, and the range that the second byte must be in. -/
structure Lead where
  follow : Nat
  low : UInt8
  high : UInt8
  deriving DecidableEq, Repr

/-- What a first byte from `0x80` up announces; nothing when no character starts with it. -/
def lead? (b : UInt8) : Option Lead :=
  if 0xC2 ≤ b ∧ b ≤ 0xDF then some ⟨1, 0x80, 0xBF⟩
  else if b = 0xE0 then some ⟨2, 0xA0, 0xBF⟩
  else if b = 0xED then some ⟨2, 0x80, 0x9F⟩
  else if 0xE1 ≤ b ∧ b ≤ 0xEF then some ⟨2, 0x80, 0xBF⟩
  else if b = 0xF0 then some ⟨3, 0x90, 0xBF⟩
  else if b = 0xF4 then some ⟨3, 0x80, 0x8F⟩
  else if 0xF1 ≤ b ∧ b ≤ 0xF3 then some ⟨3, 0x80, 0xBF⟩
  else none

/-- The bits of the code point that a first byte carries. -/
def leadBits (b : UInt8) : Nat :=
  if b < 0x80 then b.toNat else if b < 0xE0 then b.toNat % 32
  else if b < 0xF0 then b.toNat % 16 else b.toNat % 8

/-- A character still to be finished: bytes owed, the range of the next one, bits so far. -/
structure Pending where
  owed : Nat
  low : UInt8
  high : UInt8
  bits : Nat
  deriving DecidableEq, Repr

/-- What a byte does between characters: it is a character, begins one, or is refused. -/
inductive Opening
  | char (c : Char)
  | begin (p : Pending)
  | refused

/-- The role of byte `b` between two characters. -/
def opening (b : UInt8) : Opening :=
  if b < 0x80 then .char (Char.ofNat b.toNat)
  else match lead? b with
    | some l => .begin ⟨l.follow, l.low, l.high, leadBits b⟩
    | none => .refused

/-- Lossy reading, one byte at a time, with the character under way if there is one.  A byte
outside the expected range ends the unfinished character and is then read afresh. -/
def decodeLossyFrom : Option Pending → List UInt8 → List Char
  | none, [] => []
  | some _, [] => [replacement]
  | none, b :: bs =>
    match opening b with
    | .char c => c :: decodeLossyFrom none bs
    | .begin p => decodeLossyFrom (some p) bs
    | .refused => replacement :: decodeLossyFrom none bs
  | some p, b :: bs =>
    if p.low ≤ b ∧ b ≤ p.high then
      let bits := 64 * p.bits + b.toNat % 64
      if p.owed = 1 then Char.ofNat bits :: decodeLossyFrom none bs
      else decodeLossyFrom (some ⟨p.owed - 1, 0x80, 0xBF, bits⟩) bs
    else
      replacement ::
        match opening b with
        | .char c => c :: decodeLossyFrom none bs
        | .begin q => decodeLossyFrom (some q) bs
        | .refused => replacement :: decodeLossyFrom none bs

/-- Any bytes as text; what is not text is replaced. -/
def decodeLossy (bs : List UInt8) : String := String.ofList (decodeLossyFrom none bs)

/-- The text whose encoding is exactly `bs`, if there is one. -/
def decode? (bs : List UInt8) : Option String := String.fromUTF8? ⟨bs.toArray⟩

/-- The bytes of a text. -/
def encode (s : String) : List UInt8 := s.toUTF8.toList

end VmProbe.Text
