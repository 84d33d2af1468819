/-
VmProbe/Bytes/Lemmas.lean

What is lost when a number is written with a fixed width: all multiples of `256 ^ w`, and
nothing else.

    ofLittleEndian (toLittleEndian w n) = n % 256 ^ w

So a word and its eight bytes stand for each other.
-/
import Mathlib
import VmProbe.Bytes.Basic

namespace VmProbe.Bytes

theorem ofLittleEndian_toLittleEndian (w n : Nat) :
    ofLittleEndian (toLittleEndian w n) = n % 256 ^ w := by
  induction w generalizing n with
  | zero => simp [toLittleEndian, ofLittleEndian, Nat.mod_one]
  | succ w ih =>
    have hb : (UInt8.ofNat n).toNat = n % 256 := UInt8.toNat_ofNat'
    rw [toLittleEndian, ofLittleEndian, ih, hb, Nat.pow_succ', Nat.mod_mul]

theorem ofLittleEndian_lt (bs : List UInt8) : ofLittleEndian bs < 256 ^ bs.length := by
  induction bs with
  | nil => simp [ofLittleEndian]
  | cons b bs ih =>
    have hb : b.toNat < 256 := b.toNat_lt
    rw [ofLittleEndian, List.length_cons, Nat.pow_succ]
    omega

/-- Bytes of one length are determined by the number that they denote. -/
theorem ofLittleEndian_inj {bs bs' : List UInt8} (hlength : bs.length = bs'.length)
    (h : ofLittleEndian bs = ofLittleEndian bs') : bs = bs' := by
  rw [← toLittleEndian_ofLittleEndian bs, h, hlength, toLittleEndian_ofLittleEndian]

theorem ofBigEndian_toBigEndian (w n : Nat) : ofBigEndian (toBigEndian w n) = n % 256 ^ w := by
  rw [ofBigEndian, toBigEndian, List.reverse_reverse, ofLittleEndian_toLittleEndian]

/-! ### Words of eight bytes -/

/-- Eight bytes are those of the word that they denote. -/
theorem toLittleEndian_word {bs : List UInt8} (h : bs.length = 8) :
    toLittleEndian 8 (UInt64.ofNat (ofLittleEndian bs)).toNat = bs := by
  have hlt := ofLittleEndian_lt bs
  have hwrite := toLittleEndian_ofLittleEndian bs
  rw [h] at hlt hwrite
  rw [UInt64.toNat_ofNat_of_lt' hlt, hwrite]

/-- The bytes of a word denote it. -/
theorem word_toLittleEndian (a : UInt64) :
    UInt64.ofNat (ofLittleEndian (toLittleEndian 8 a.toNat)) = a := by
  have hlt : a.toNat < 256 ^ 8 := a.toNat_lt
  rw [ofLittleEndian_toLittleEndian, Nat.mod_eq_of_lt hlt, UInt64.ofNat_toNat]

end VmProbe.Bytes
