/-
VmProbe/Bytes/Basic.lean

Numbers and fields in blocks of bytes.

A number takes exactly `w` bytes, least significant first (`toLittleEndian w n`), and any bytes
denote a number (`ofLittleEndian`); the big-endian forms are the same lists read from the other
end.  Writing the number of a list gives the list back:

    toLittleEndian bs.length (ofLittleEndian bs) = bs

A field is the bytes at an offset (`slice?`), and is written over them (`overlay`).
-/
namespace VmProbe.Bytes

/-! ### Numbers -/

/-- The `w` bytes of `n`, least significant first; higher bits are dropped. -/
def toLittleEndian : Nat → Nat → List UInt8
  | 0, _ => []
  | w + 1, n => UInt8.ofNat n :: toLittleEndian w (n / 256)

/-- The number whose bytes, least significant first, are given. -/
def ofLittleEndian : List UInt8 → Nat
  | [] => 0
  | b :: bs => b.toNat + 256 * ofLittleEndian bs

/-- The `w` bytes of `n`, most significant first. -/
def toBigEndian (w n : Nat) : List UInt8 := (toLittleEndian w n).reverse

/-- The number whose bytes, most significant first, are given. -/
def ofBigEndian (bs : List UInt8) : Nat := ofLittleEndian bs.reverse

@[simp] theorem length_toLittleEndian (w n : Nat) : (toLittleEndian w n).length = w := by
  induction w generalizing n with
  | zero => rfl
  | succ w ih => simp [toLittleEndian, ih]

theorem toLittleEndian_ofLittleEndian (bs : List UInt8) :
    toLittleEndian bs.length (ofLittleEndian bs) = bs := by
  induction bs with
  | nil => rfl
  | cons b bs ih =>
    have hb : b.toNat < 256 := b.toNat_lt
    have hd : (b.toNat + 256 * ofLittleEndian bs) / 256 = ofLittleEndian bs := by omega
    have hm : UInt8.ofNat (b.toNat + 256 * ofLittleEndian bs) = b := by
      apply UInt8.toNat_inj.1
      rw [UInt8.toNat_ofNat']
      omega
    rw [ofLittleEndian, List.length_cons, toLittleEndian, hd, hm, ih]

@[simp] theorem length_toBigEndian (w n : Nat) : (toBigEndian w n).length = w := by
  simp [toBigEndian]

theorem toBigEndian_ofBigEndian (bs : List UInt8) :
    toBigEndian bs.length (ofBigEndian bs) = bs := by
  have h := toLittleEndian_ofLittleEndian bs.reverse
  rw [List.length_reverse] at h
  rw [toBigEndian, ofBigEndian, h, List.reverse_reverse]

/-! ### Fields -/

/-- The `width` bytes at `offset`, if the block holds them all. -/
def slice? (bytes : List UInt8) (offset width : Nat) : Option (List UInt8) :=
  if offset + width ≤ bytes.length then some ((bytes.drop offset).take width) else none

/-- The block with `field` in place of the bytes at `offset`. -/
def overlay (bytes : List UInt8) (offset : Nat) (field : List UInt8) : List UInt8 :=
  bytes.take offset ++ field ++ bytes.drop (offset + field.length)

end VmProbe.Bytes
