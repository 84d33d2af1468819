/-
VmProbe/Proofs/Image/Encoding.lean

Writing an image that was read gives its bytes back.

The fields of the header are written over the bytes that mean nothing, and a table entry is put
together from the fields of its section.  In a parsed image every field is what the file holds at
its place, so writing it changes nothing there (`overlay_slice`), and the five fields of a section
are the twenty-two bytes of its entry (`encode_sectionAt`).  Kinds and modes keep their byte, known
or not.

A writer into memory asks for a range of bytes before it writes there.  `encodeHeader?` and
`encodeTable?` are such writers: they fail when a range does not lie within the bytes or is not as
long as the field.  Main statement: for a parsed image they do not fail, and what they write is
what the file begins with (`encode_of_parse`).
-/
import VmProbe.Proofs.Image.Format

namespace VmProbe

open Bytes (toLittleEndian slice? overlay)

/-! ### Fields in place -/

namespace Bytes

/-- A field for a range of bytes. -/
structure Placed where
  offset : Nat
  width : Nat
  field : List UInt8

/-- The bytes with a field in its range, if they have the range and the field fills it. -/
def write? (bytes : List UInt8) (p : Placed) : Option (List UInt8) :=
  if p.offset + p.width ≤ bytes.length ∧ p.field.length = p.width then
    some (overlay bytes p.offset p.field)
  else none

/-- The bytes with some fields in their ranges, the first one first. -/
def writeAll? (bytes : List UInt8) (ps : List Placed) : Option (List UInt8) :=
  ps.foldlM write? bytes

variable {bytes : List UInt8} {p : Placed} {ps : List Placed} {offset width n : Nat}

theorem write?_eq (h : p.offset + p.width ≤ bytes.length) (hfield : p.field.length = p.width) :
    write? bytes p = some (overlay bytes p.offset p.field) := if_pos ⟨h, hfield⟩

/-- Writing what is there changes nothing. -/
theorem overlay_slice (h : offset + width ≤ bytes.length) :
    overlay bytes offset ((bytes.drop offset).take width) = bytes := by
  have hlength : ((bytes.drop offset).take width).length = width :=
    List.length_take_of_le (by rw [List.length_drop]; omega)
  rw [overlay, hlength, List.append_assoc, ← List.drop_drop, List.take_append_drop,
    List.take_append_drop]

/-- Fields that are there already can all be written, and change nothing. -/
theorem writeAll?_of_slices (h : ∀ p ∈ ps, p.offset + p.width ≤ bytes.length ∧
    p.field = (bytes.drop p.offset).take p.width) : writeAll? bytes ps = some bytes := by
  induction ps with
  | nil => rfl
  | cons p ps ih =>
    obtain ⟨hroom, hfield⟩ := h p List.mem_cons_self
    have hlength : p.field.length = p.width := by
      rw [hfield]
      exact List.length_take_of_le (by rw [List.length_drop]; omega)
    have hwrite : write? bytes p = some bytes := by
      rw [write?_eq hroom hlength, hfield, overlay_slice hroom]
    rw [writeAll?, List.foldlM_cons, hwrite]
    exact ih fun q hq => h q (List.mem_cons_of_mem p hq)

/-- What can be written is written by putting one field over the other. -/
theorem foldl_overlay_of_writeAll? {result : List UInt8} (h : writeAll? bytes ps = some result) :
    ps.foldl (fun bytes p => overlay bytes p.offset p.field) bytes = result := by
  induction ps generalizing bytes with
  | nil => exact Option.some.inj h
  | cons p ps ih =>
    rw [writeAll?, List.foldlM_cons, write?] at h
    split_ifs at h
    · exact ih h
    · cases h

/-- Fields that fill the bytes from `start` on, one after another. -/
def Consecutive : Nat → List Placed → Prop
  | _, [] => True
  | start, p :: ps =>
    p.offset = start ∧ p.field.length = p.width ∧ Consecutive (start + p.width) ps

/-- Consecutive fields fill the room after what is written. -/
theorem writeAll?_of_consecutive (written : List UInt8) (h : Consecutive written.length ps) :
    writeAll? (written ++ List.replicate (ps.map Placed.width).sum 0) ps =
      some (written ++ ps.flatMap Placed.field) := by
  induction ps generalizing written with
  | nil => rfl
  | cons p ps ih =>
    obtain ⟨hoffset, hlength, htail⟩ := h
    have hnext : written.length + p.width = (written ++ p.field).length := by
      rw [List.length_append, hlength]
    rw [hnext] at htail
    have hwrite : write? (written ++ List.replicate (((p :: ps).map Placed.width).sum) 0) p =
        some (written ++ p.field ++ List.replicate (ps.map Placed.width).sum 0) := by
      rw [List.map_cons, List.sum_cons, write?_eq ?_ hlength, overlay, hoffset, List.take_left,
        ← List.drop_drop, List.drop_left, List.drop_replicate, hlength, Nat.add_sub_cancel_left]
      rw [hoffset, List.length_append, List.length_replicate]
      omega
    rw [writeAll?, List.foldlM_cons, hwrite, List.flatMap_cons, ← List.append_assoc]
    exact ih _ htail

end Bytes

namespace Image

variable {bytes : List UInt8} {i : Image} {offset width count : Nat}

/-! ### Numbers of the file -/

/-- The bytes of a number of the file are those at its place. -/
theorem toLittleEndian_number (h : offset + width ≤ bytes.length) :
    toLittleEndian width (number bytes offset width) = (bytes.drop offset).take width := by
  have hwrite := Bytes.toLittleEndian_ofLittleEndian ((bytes.drop offset).take width)
  rwa [List.length_take_of_le (by rw [List.length_drop]; omega)] at hwrite

theorem singleton_getD (h : offset + 1 ≤ bytes.length) :
    [bytes.getD offset 0] = (bytes.drop offset).take 1 := by
  rw [List.drop_eq_getElem_cons h, List.getD_eq_getElem _ _ h]
  rfl

/-- A word of four bytes is written as it was read. -/
theorem toLittleEndian_four (h : offset + 4 ≤ bytes.length) :
    toLittleEndian 4 (UInt32.ofNat (number bytes offset 4)).toNat =
      (bytes.drop offset).take 4 := by
  rw [UInt32.toNat_ofNat_of_lt' (number_lt bytes offset 4), toLittleEndian_number h]

/-- A word of eight bytes is written as it was read. -/
theorem toLittleEndian_eight (h : offset + 8 ≤ bytes.length) :
    toLittleEndian 8 (UInt64.ofNat (number bytes offset 8)).toNat =
      (bytes.drop offset).take 8 := by
  rw [UInt64.toNat_ofNat_of_lt' (number_lt bytes offset 8), toLittleEndian_number h]

/-! ### The section table -/

/-- The fields of a table entry. -/
def Section.fields (s : Section) : List Bytes.Placed :=
  [⟨0, 1, [s.kind.toByte]⟩, ⟨1, 1, [s.permissions.bits]⟩,
    ⟨2, 8, toLittleEndian 8 s.start.toNat⟩, ⟨10, 4, toLittleEndian 4 s.size.toNat⟩,
    ⟨14, 8, toLittleEndian 8 s.nameRef.toNat⟩]

/-- The table entry, written field by field into twenty-two bytes. -/
def Section.encode? (s : Section) : Option (List UInt8) :=
  Bytes.writeAll? (List.replicate entrySize 0) s.fields

/-- The section table, written entry by entry. -/
def encodeTable? (i : Image) : Option (List UInt8) :=
  (i.sections.mapM Section.encode?).map List.flatten

/-- The fields fill the entry, whatever they hold. -/
theorem Section.encode?_eq (s : Section) : s.encode? = some s.encode := by
  have hfields : Bytes.Consecutive 0 s.fields := by
    simp [Bytes.Consecutive, fields]
  have hencode : s.fields.flatMap Bytes.Placed.field = s.encode := by
    simp [fields, encode]
  have hwrite : s.encode? = some ([] ++ s.fields.flatMap Bytes.Placed.field) :=
    Bytes.writeAll?_of_consecutive [] hfields
  rwa [hencode] at hwrite

theorem encodeTable?_eq (i : Image) : i.encodeTable? = some i.encodeTable := by
  have hentries : i.sections.mapM Section.encode? = some (i.sections.map Section.encode) := by
    rw [funext Section.encode?_eq]
    exact List.mapM_pure
  rw [encodeTable?, hentries, encodeTable, List.flatMap_def]
  rfl

/-- The entry of a section is what the section was read from. -/
theorem encode_sectionAt (h : offset + entrySize ≤ bytes.length) :
    (sectionAt bytes offset).encode = (bytes.drop offset).take entrySize := by
  have hend : offset + 22 ≤ bytes.length := h
  have hadd (k a b : Nat) : (bytes.drop (offset + k)).take (a + b) =
      (bytes.drop (offset + k)).take a ++ (bytes.drop (offset + (k + a))).take b := by
    rw [List.take_add, List.drop_drop, Nat.add_assoc]
  calc (sectionAt bytes offset).encode
      = [(Kind.ofByte (bytes.getD offset 0)).toByte] ++ ([bytes.getD (offset + 1) 0] ++
          (toLittleEndian 8 (UInt64.ofNat (number bytes (offset + 2) 8)).toNat ++
            toLittleEndian 4 (UInt32.ofNat (number bytes (offset + 10) 4)).toNat ++
              toLittleEndian 8 (UInt64.ofNat (number bytes (offset + 14) 8)).toNat)) := rfl
    _ = (bytes.drop (offset + 0)).take (1 + (1 + (8 + 4 + 8))) := by
        rw [Kind.toByte_ofByte, singleton_getD (by omega), singleton_getD (by omega),
          toLittleEndian_eight (by omega), toLittleEndian_four (by omega),
          toLittleEndian_eight (by omega), hadd, hadd, hadd, hadd]
        rfl

/-- A section table is written as it was read. -/
theorem flatMap_encode_sectionsAt (h : offset + count * entrySize ≤ bytes.length) :
    (sectionsAt bytes offset count).flatMap Section.encode =
      (bytes.drop offset).take (count * entrySize) := by
  induction count generalizing offset with
  | zero => simp [sectionsAt]
  | succ count ih =>
    rw [Nat.succ_mul] at h ⊢
    rw [sectionsAt_succ, List.flatMap_cons, encode_sectionAt (by omega), ih (by omega),
      Nat.add_comm (count * entrySize), List.take_add, List.drop_drop]

/-! ### The header -/

/-- The fields of the header. -/
def headerFields (i : Image) : List Bytes.Placed :=
  [⟨magicOffset, 4, toLittleEndian 4 i.magic.toNat⟩, ⟨versionOffset, 1, [i.version]⟩,
    ⟨modeOffset, 1, [i.mode.toByte]⟩, ⟨entryOffset, 8, toLittleEndian 8 i.entry.toNat⟩,
    ⟨tableSizeOffset, 4, toLittleEndian 4 i.tableSize.toNat⟩]

/-- The header, written field by field over that of the file. -/
def encodeHeader? (i : Image) : Option (List UInt8) :=
  (slice? i.bytes 0 headerSize).bind fun header => Bytes.writeAll? header i.headerFields

/-- The fields of a parsed image are what the header of the file holds. -/
theorem headerFields_of_describes (h : Describes bytes i) (hheader : 100 ≤ bytes.length) :
    ∀ p ∈ i.headerFields, p.offset + p.width ≤ (bytes.take 100).length ∧
      p.field = ((bytes.take 100).drop p.offset).take p.width := by
  have hinside {offset width : Nat} {field : List UInt8} (hend : offset + width ≤ 100)
      (hfield : field = (bytes.drop offset).take width) :
      offset + width ≤ (bytes.take 100).length ∧
        field = ((bytes.take 100).drop offset).take width := by
    rw [List.length_take_of_le hheader, List.drop_take, List.take_take, Nat.min_eq_left (by omega)]
    exact ⟨hend, hfield⟩
  simp only [headerFields, List.forall_mem_cons, h.magic, h.version, h.mode, h.entry, h.tableSize,
    Mode.toByte_ofByte]
  refine ⟨hinside (by decide) (toLittleEndian_four ?_), hinside (by decide) (singleton_getD ?_),
    hinside (by decide) (singleton_getD ?_), hinside (by decide) (toLittleEndian_eight ?_),
    hinside (by decide) (toLittleEndian_four ?_), List.forall_mem_nil _⟩
  all_goals exact le_trans (by decide) hheader

/-! ### Parsed images -/

/-- What is written for an image is what the file begins with, and no range is missed. -/
structure Reencodes (bytes : List UInt8) (i : Image) : Prop where
  header : slice? bytes 0 100 = some i.encodeHeader
  table : slice? bytes 100 i.tableSize.toNat = some i.encodeTable
  header_checked : i.encodeHeader? = some i.encodeHeader
  table_checked : i.encodeTable? = some i.encodeTable

/-- **A parsed image is written as it was read,** and every range that is written lies within the
bytes. -/
theorem encode_of_parse (h : parse bytes = .ok i) : Reencodes bytes i := by
  obtain ⟨hheader, hwhole, htable, names, -, rfl⟩ := parse_eq_ok_iff.1 h
  have hdescribes := describes_of_parse h
  have hstart : slice? bytes 0 100 = some (bytes.take 100) := if_pos hheader
  have hwrite := Bytes.writeAll?_of_slices (headerFields_of_describes hdescribes hheader)
  have hencode : encodeHeader (describe bytes names) = bytes.take 100 :=
    Bytes.foldl_overlay_of_writeAll? hwrite
  have hsize : (describe bytes names).tableSize.toNat = announcedSize bytes :=
    UInt32.toNat_ofNat_of_lt' (number_lt bytes 0x60 4)
  have hentries : entryCount bytes * entrySize = announcedSize bytes := Nat.div_mul_cancel hwhole
  refine ⟨?header, ?table, ?header_checked, encodeTable?_eq _⟩
  case header => rw [hstart, hencode]
  case table =>
    have hsections : encodeTable (describe bytes names) =
        (bytes.drop 100).take (announcedSize bytes) := by
      rw [← hentries]
      exact flatMap_encode_sectionsAt (hentries.symm ▸ htable)
    rw [hsize, hsections]
    exact if_pos htable
  case header_checked =>
    rw [hencode, ← hwrite]
    show (slice? bytes 0 100).bind _ = _
    rw [hstart]
    rfl

/-- A file in which each byte of the header but the last four is its own offset, with a section of
a kind that has no name, and one byte after the table. -/
theorem encode_of_parse_unknown :
    let header := (List.range 96).map UInt8.ofNat ++ [22, 0, 0, 0]
    let bytes := header ++ 9 :: (List.range 21).map UInt8.ofNat ++ [0xFF]
    ∃ i, parse bytes = .ok i ∧ i.mode = .other 5 ∧ i.sections.map (·.kind) = [.other 9] ∧
      Reencodes bytes i := by
  intro header bytes
  have h : parse bytes = .ok (describe bytes []) := by decide +kernel
  exact ⟨_, h, by decide +kernel, by decide +kernel, encode_of_parse h⟩

end Image

end VmProbe
