/-
VmProbe/Proofs/Image/Tables.lean

The two tables of an image, without the reader.

A number of the file is what its bytes denote (`number`), so it is the same in files that agree
there (`Agree`).  An entry of the section table stands for the section with the numbers at its
places (`sectionAt`).  A name table is a length byte and the bytes of a text, again and again:

    NameTable offset code names    `code` holds exactly `names`, the first one at `offset`

The readers succeed exactly when the bytes are there, and on exactly these values:
`readSections_eq_ok_iff` is an induction over the entries, and `readNames_eq_ok_iff` one over
the names in either direction.
-/
import VmProbe.Image.Read
import VmProbe.Proofs.Text.Utf8

namespace VmProbe.Image

open Bytes (ofLittleEndian slice?)

variable {bytes bytes' code : List UInt8} {names : List NameEntry} {field : Field}
variable {offset start stop count width n k : Nat}

/-! ### Files that agree -/

/-- Both files hold the same between two places. -/
def Agree (bytes bytes' : List UInt8) (start stop : Nat) : Prop :=
  ∀ k, start ≤ k → k < stop → bytes[k]? = bytes'[k]?

/-- Files that begin in the same way agree there. -/
theorem agree_of_take_eq (h : bytes.take n = bytes'.take n) : Agree bytes bytes' 0 n := by
  intro k _ hk
  rw [← List.getElem?_take_of_lt hk, h, List.getElem?_take_of_lt hk]

theorem Agree.slice_eq (h : Agree bytes bytes' start stop) (hstart : start ≤ offset)
    (hstop : offset + width ≤ stop) :
    (bytes.drop offset).take width = (bytes'.drop offset).take width := by
  refine List.ext_getElem? fun k => ?_
  rw [List.getElem?_take, List.getElem?_take, List.getElem?_drop, List.getElem?_drop]
  split_ifs with hk
  · exact h _ (by omega) (by omega)
  · rfl

theorem Agree.getD_eq (h : Agree bytes bytes' start stop) (hstart : start ≤ k) (hstop : k < stop) :
    bytes.getD k 0 = bytes'.getD k 0 := by
  rw [List.getD_eq_getElem?_getD, List.getD_eq_getElem?_getD, h k hstart hstop]

/-! ### Fields -/

/-- The number at a place of the file. -/
def number (bytes : List UInt8) (offset width : Nat) : Nat :=
  ofLittleEndian ((bytes.drop offset).take width)

/-- A number of one byte is that byte. -/
theorem ofNat_number_one (bytes : List UInt8) (offset : Nat) :
    UInt8.ofNat (number bytes offset 1) = bytes.getD offset 0 := by
  rw [number, List.getD_eq_getElem?_getD, ← List.head?_drop]
  rcases bytes.drop offset with - | ⟨b, rest⟩
  · rfl
  · exact UInt8.ofNat_toNat

theorem Agree.number_eq (h : Agree bytes bytes' start stop) (hstart : start ≤ offset)
    (hstop : offset + width ≤ stop) : number bytes offset width = number bytes' offset width :=
  congrArg ofLittleEndian (h.slice_eq hstart hstop)

theorem readField_eq (bytes : List UInt8) (field : Field) (offset width : Nat) :
    readField bytes field offset width =
      if offset + width ≤ bytes.length then .ok ((bytes.drop offset).take width)
      else .error (.truncated field offset width (bytes.length - offset)) := by
  rw [readField, slice?]
  split_ifs <;> rfl

/-- A field is read exactly if the bytes from its place on begin with it. -/
theorem readField_eq_ok_iff {raw : List UInt8} :
    readField bytes field offset width = .ok raw ↔
      offset + width ≤ bytes.length ∧ raw.length = width ∧
        bytes.drop offset = raw ++ bytes.drop (offset + width) := by
  rw [readField_eq, ← List.drop_drop]
  constructor
  · intro hraw
    split_ifs at hraw with hle
    obtain rfl := Except.ok.inj hraw
    rw [List.length_take, List.length_drop]
    exact ⟨hle, by omega, (List.take_append_drop width _).symm⟩
  · rintro ⟨hle, rfl, hdrop⟩
    rw [if_pos hle, hdrop, List.take_left]

theorem readNumber_eq (bytes : List UInt8) (field : Field) (offset width : Nat) :
    readNumber bytes field offset width =
      if offset + width ≤ bytes.length then .ok (number bytes offset width)
      else .error (.truncated field offset width (bytes.length - offset)) := by
  rw [readNumber, readField_eq]
  split_ifs <;> rfl

theorem readNumber_eq_ok_iff {n : Nat} :
    readNumber bytes field offset width = .ok n ↔
      offset + width ≤ bytes.length ∧ number bytes offset width = n := by
  rw [readNumber_eq]
  split_ifs with h <;> simp [h]

/-- A byte is read exactly if there is one. -/
theorem readByte_eq_ok_iff {n : Nat} :
    readNumber bytes field offset 1 = .ok n ↔
      offset + 1 ≤ bytes.length ∧ ∃ b : UInt8, b.toNat = n ∧
        bytes.drop offset = b :: bytes.drop (offset + 1) := by
  rw [readNumber]
  constructor
  · intro h
    rcases hraw : readField bytes field offset 1 with e | raw <;> rw [hraw] at h
    · cases h
    · obtain ⟨hle, hlen, hdrop⟩ := readField_eq_ok_iff.1 hraw
      obtain ⟨b, rfl⟩ := List.length_eq_one_iff.1 hlen
      exact ⟨hle, b, Except.ok.inj h, hdrop⟩
  · rintro ⟨hle, b, rfl, hdrop⟩
    have hraw : readField bytes field offset 1 = .ok [b] :=
      readField_eq_ok_iff.2 ⟨hle, rfl, hdrop⟩
    rw [hraw]
    rfl

/-- A value is read in two steps when both are made. -/
theorem bind_eq_ok_iff {ε α β : Type} {x : Except ε α} {f : α → Except ε β} {b : β} :
    x >>= f = .ok b ↔ ∃ a, x = .ok a ∧ f a = .ok b := by
  rcases x with e | a
  · constructor
    · intro h
      cases h
    · rintro ⟨a, ha, -⟩
      cases ha
  · constructor
    · exact fun h => ⟨a, rfl, h⟩
    · rintro ⟨a', ha, h⟩
      cases ha
      exact h

/-! ### The section table -/

/-- The section of the table entry at an offset. -/
def sectionAt (bytes : List UInt8) (offset : Nat) : Section where
  kind := .ofByte (bytes.getD offset 0)
  permissions := ⟨bytes.getD (offset + 1) 0⟩
  start := UInt64.ofNat (number bytes (offset + 2) 8)
  size := UInt32.ofNat (number bytes (offset + 10) 4)
  nameRef := UInt64.ofNat (number bytes (offset + 14) 8)

/-- A table entry is read exactly if all of it is there. -/
theorem readSection_eq_ok_iff {s : Section} :
    readSection bytes offset = .ok s ↔
      offset + entrySize ≤ bytes.length ∧ sectionAt bytes offset = s := by
  simp only [readSection, bind_eq_ok_iff, readNumber_eq_ok_iff, entrySize]
  constructor
  · rintro ⟨_, ⟨-, rfl⟩, _, ⟨-, rfl⟩, _, ⟨-, rfl⟩, _, ⟨-, rfl⟩, _, ⟨hle, rfl⟩, h⟩
    refine ⟨hle, ?_⟩
    rw [ofNat_number_one, ofNat_number_one] at h
    exact Except.ok.inj h
  · rintro ⟨hle, rfl⟩
    refine ⟨_, ⟨by omega, rfl⟩, _, ⟨by omega, rfl⟩, _, ⟨by omega, rfl⟩, _, ⟨by omega, rfl⟩,
      _, ⟨by omega, rfl⟩, ?_⟩
    rw [ofNat_number_one, ofNat_number_one]
    rfl

/-- The sections of the table entries from an offset on. -/
def sectionsAt (bytes : List UInt8) (offset count : Nat) : List Section :=
  (List.range count).map fun k => sectionAt bytes (offset + k * entrySize)

theorem sectionsAt_succ (bytes : List UInt8) (offset count : Nat) :
    sectionsAt bytes offset (count + 1) =
      sectionAt bytes offset :: sectionsAt bytes (offset + entrySize) count := by
  rw [sectionsAt, List.range_succ_eq_map, List.map_cons, List.map_map, Nat.zero_mul]
  refine congrArg _ (List.map_congr_left fun k _ => ?_)
  show sectionAt bytes (offset + (k + 1) * entrySize) = _
  rw [Nat.succ_mul, Nat.add_comm (k * entrySize), Nat.add_assoc]

/-- **A section table is read exactly if all of it is there.** -/
theorem readSections_eq_ok_iff {ss : List Section} (h : offset ≤ bytes.length) :
    readSections bytes count offset = .ok ss ↔
      offset + count * entrySize ≤ bytes.length ∧ sectionsAt bytes offset count = ss := by
  induction count generalizing offset ss with
  | zero => simp [readSections, sectionsAt, h]
  | succ count ih =>
    simp only [readSections, bind_eq_ok_iff, readSection_eq_ok_iff, sectionsAt_succ, Nat.succ_mul]
    constructor
    · rintro ⟨_, ⟨hle, rfl⟩, rest, hrest, hss⟩
      obtain ⟨hend, rfl⟩ := (ih hle).1 hrest
      exact ⟨by omega, Except.ok.inj hss⟩
    · rintro ⟨hend, rfl⟩
      have hle : offset + entrySize ≤ bytes.length := by omega
      exact ⟨_, ⟨hle, rfl⟩, _, (ih hle).2 ⟨by omega, rfl⟩, rfl⟩

/-! ### The name table -/

/-- `NameTable offset code names`: the code is the entries of the names, one after another, each
a length byte and so many bytes of text; `offset` is where the first of them stands. -/
inductive NameTable : Nat → List UInt8 → List NameEntry → Prop
  | nil {offset : Nat} : NameTable offset [] []
  | cons {offset : Nat} {length : UInt8} {text : String} {rest : List UInt8}
      {names : List NameEntry} :
      (Text.encode text).length = length.toNat →
      NameTable (offset + 1 + length.toNat) rest names →
      NameTable offset (length :: (Text.encode text ++ rest)) (⟨offset, length, text⟩ :: names)

/-- What is read as names is a table of them that ends with the bytes at `stop`. -/
theorem nameTable_of_readNames (h : readNames bytes stop offset = .ok names)
    (hstop : offset ≤ stop) (hbytes : offset ≤ bytes.length) :
    stop ≤ bytes.length ∧ NameTable offset ((bytes.drop offset).take (stop - offset)) names := by
  fun_induction readNames bytes stop offset generalizing names with
  | case6 offset hlt length hlength hfit raw hraw text htext rest hrest ih =>
    obtain rfl := Except.ok.inj h
    obtain ⟨-, b, rfl, hbyte⟩ := readByte_eq_ok_iff.1 hlength
    obtain ⟨hle, hwidth, hfield⟩ := readField_eq_ok_iff.1 hraw
    obtain rfl := Text.decode?_eq_some_iff.1 htext
    obtain ⟨hend, htable⟩ := ih hrest (Nat.le_of_not_lt hfit) hle
    refine ⟨hend, ?_⟩
    -- what is left begins with the entry, and the other names are in the rest
    have hsize : stop - offset =
        (Text.encode text).length + (stop - (offset + 1 + b.toNat)) + 1 := by omega
    rw [hbyte, hfield, hsize, List.take_succ_cons, List.take_length_add_append, UInt8.ofNat_toNat]
    exact .cons hwidth htable
  | case7 offset hge =>
    obtain rfl := Except.ok.inj h
    obtain rfl : offset = stop := Nat.le_antisymm hstop (Nat.le_of_not_lt hge)
    rw [Nat.sub_self]
    exact ⟨hbytes, .nil⟩
  | _ => cases h

/-- A table of names that ends with the bytes at `stop` is read as these names. -/
theorem readNames_of_nameTable (h : NameTable offset code names)
    (hcode : bytes.drop offset = code ++ bytes.drop stop) (hstop : offset + code.length = stop)
    (hend : stop ≤ bytes.length) : readNames bytes stop offset = .ok names := by
  induction h with
  | nil => rw [readNames, if_neg (hstop ▸ Nat.lt_irrefl _)]
  | @cons offset length text rest names hwidth _ ih =>
    rw [List.length_cons, List.length_append, hwidth] at hstop
    have htail : bytes.drop (offset + 1) = Text.encode text ++ (rest ++ bytes.drop stop) := by
      rw [← List.tail_drop, hcode, List.cons_append, List.tail_cons, List.append_assoc]
    have hrest : bytes.drop (offset + 1 + length.toNat) = rest ++ bytes.drop stop := by
      rw [← List.drop_drop, htail, ← hwidth, List.drop_left]
    have hlength : readNumber bytes .nameLength offset 1 = .ok length.toNat := by
      refine readByte_eq_ok_iff.2 ⟨by omega, length, rfl, ?_⟩
      rw [htail, hcode, List.cons_append, List.append_assoc]
    have hraw : readField bytes .nameText (offset + 1) length.toNat = .ok (Text.encode text) := by
      refine readField_eq_ok_iff.2 ⟨by omega, hwidth, ?_⟩
      rw [hrest, htail]
    have hmore := ih hrest (by omega)
    have hfit : ¬ stop < offset + 1 + length.toNat := by omega
    rw [readNames, if_pos (by omega)]
    simp only [hlength, if_neg hfit, hraw, Text.decode?_eq_some_iff.2 rfl, hmore,
      UInt8.ofNat_toNat]

/-- **Names are read exactly if the bytes up to `stop` are a table of them.** -/
theorem readNames_eq_ok_iff (hstop : offset ≤ stop) (hbytes : offset ≤ bytes.length) :
    readNames bytes stop offset = .ok names ↔
      stop ≤ bytes.length ∧ NameTable offset ((bytes.drop offset).take (stop - offset)) names := by
  constructor
  · exact fun h => nameTable_of_readNames h hstop hbytes
  · rintro ⟨hend, htable⟩
    refine readNames_of_nameTable htable ?_ ?_ hend
    · rw [← Nat.add_sub_cancel' hstop, ← List.drop_drop, Nat.add_sub_cancel_left,
        List.take_append_drop]
    · rw [List.length_take, List.length_drop]
      omega

end VmProbe.Image
