/-
VmProbe/Proofs/Image/Metadata.lean

The JSON form of an image, and the metadata that it shows.

The document has every field of the image but its bytes, and unknown modes and kinds as objects
that hold their byte, so it tells the metadata (`toJson_inj`).  The metadata in turn tell the file
wherever it is read: each header field, the section table and the name table can be written from
them (`parts`), and these parts are all that is read (`exists_part_of_isRead`).

Main statement: two images have the same JSON text exactly if they have the same metadata, and
exactly if their files agree at all places that are read (`json_tells_metadata`).
-/
import VmProbe.Image.Listing
import VmProbe.Proofs.Image.Encoding
import VmProbe.Proofs.Image.Extent
import VmProbe.Proofs.Text.Json

namespace VmProbe.Image

variable {bytes bytes' : List UInt8} {i j : Image} {k : Nat}

/-! ### Metadata -/

/-- The images have the same header fields, sections and names. -/
structure SameMetadata (i j : Image) : Prop where
  magic : i.magic = j.magic
  version : i.version = j.version
  mode : i.mode = j.mode
  entry : i.entry = j.entry
  tableSize : i.tableSize = j.tableSize
  sections : i.sections = j.sections
  names : i.names = j.names

theorem sameMetadata_iff : SameMetadata i j ↔ { i with bytes := j.bytes } = j := by
  constructor
  · rintro ⟨hmagic, hversion, hmode, hentry, htableSize, hsections, hnames⟩
    obtain ⟨_, _, _, _, _, _, _, _⟩ := j
    simp_all
  · intro h
    rw [← h]
    exact ⟨rfl, rfl, rfl, rfl, rfl, rfl, rfl⟩

/-! ### Documents -/

theorem Mode.toJson_injective : Function.Injective Mode.toJson := by
  intro m m' h
  cases m <;> cases m' <;> simp_all [toJson, name, UInt8.toNat_inj]

theorem Kind.toJson_injective : Function.Injective Kind.toJson := by
  intro a b h
  cases a <;> cases b <;> simp_all [toJson, UInt8.toNat_inj]

theorem Section.toJson_injective : Function.Injective Section.toJson := by
  intro s s' h
  obtain ⟨kind, ⟨bits⟩, start, size, nameRef⟩ := s
  obtain ⟨kind', ⟨bits'⟩, start', size', nameRef'⟩ := s'
  simp only [toJson, Text.Json.object.injEq, List.cons.injEq, Prod.mk.injEq,
    Text.Json.number.injEq, UInt8.toNat_inj, UInt32.toNat_inj, UInt64.toNat_inj, true_and,
    and_true] at h
  obtain ⟨hkind, rfl, rfl, rfl, rfl⟩ := h
  rw [Kind.toJson_injective hkind]

theorem NameEntry.toJson_injective : Function.Injective NameEntry.toJson := by
  intro n n' h
  obtain ⟨offset, length, text⟩ := n
  obtain ⟨offset', length', text'⟩ := n'
  simp only [toJson, Text.Json.object.injEq, List.cons.injEq, Prod.mk.injEq,
    Text.Json.number.injEq, Text.Json.string.injEq, UInt8.toNat_inj, true_and, and_true] at h
  obtain ⟨rfl, rfl, rfl⟩ := h
  rfl

/-- **The document tells the metadata.** -/
theorem toJson_inj : i.toJson = j.toJson ↔ SameMetadata i j := by
  simp only [toJson, Text.Json.object.injEq, List.cons.injEq, Prod.mk.injEq,
    Text.Json.number.injEq, Text.Json.array.injEq, UInt8.toNat_inj, UInt32.toNat_inj,
    UInt64.toNat_inj, true_and, and_true, Mode.toJson_injective.eq_iff,
    (List.map_injective_iff.2 Section.toJson_injective).eq_iff,
    (List.map_injective_iff.2 NameEntry.toJson_injective).eq_iff]
  constructor
  · rintro ⟨hmagic, hversion, hmode, hentry, htableSize, hsections, hnames⟩
    exact ⟨hmagic, hversion, hmode, hentry, htableSize, hsections, hnames⟩
  · intro h
    exact ⟨h.magic, h.version, h.mode, h.entry, h.tableSize, h.sections, h.names⟩

/-! ### What the metadata tell of the file -/

/-- The bytes of the names, one entry after another. -/
def encodeNameTable (i : Image) : List UInt8 :=
  i.names.flatMap fun n => n.length :: Text.encode n.text

/-- The parts of the file that the metadata tell. -/
def parts (i : Image) : List Bytes.Placed :=
  ⟨100, i.tableSize.toNat, i.encodeTable⟩ ::
    ⟨100 + i.tableSize.toNat, i.nameTableSize, i.encodeNameTable⟩ :: i.headerFields

theorem SameMetadata.parts_eq (h : SameMetadata i j) : i.parts = j.parts := by
  rw [← sameMetadata_iff.1 h]
  rfl

/-- The names of a parsed image are written as they were read. -/
theorem encodeNameTable_of_parse (h : parse bytes = .ok i) :
    i.encodeNameTable = (bytes.drop (100 + i.tableSize.toNat)).take i.nameTableSize := by
  rw [toNat_tableSize h, nameTableSize_eq]
  obtain ⟨-, -, htable, names, hnames, rfl⟩ := parse_eq_ok_iff.1 h
  rw [readNameTable] at hnames
  show names.flatMap _ = (bytes.drop (tableStop bytes)).take
    ((nameTableSize? (sectionsAt bytes 100 (entryCount bytes))).getD 0)
  rcases hsize : nameTableSize? (sectionsAt bytes 100 (entryCount bytes)) with - | size <;>
    rw [hsize] at hnames
  · obtain rfl := Except.ok.inj hnames
    rfl
  · have hcode := ((readNames_eq_ok_iff (Nat.le_add_right _ _) htable).1 hnames).2.code_eq
    rwa [Nat.add_sub_cancel_left] at hcode

/-- The sections of a parsed image are written as they were read. -/
theorem encodeTable_of_parse (h : parse bytes = .ok i) :
    i.encodeTable = (bytes.drop 100).take i.tableSize.toNat := by
  rw [toNat_tableSize h]
  obtain ⟨-, hwhole, htable, names, -, rfl⟩ := parse_eq_ok_iff.1 h
  have hentries : entryCount bytes * entrySize = announcedSize bytes := Nat.div_mul_cancel hwhole
  rw [← hentries]
  exact flatMap_encode_sectionsAt (hentries.symm ▸ htable)

/-- **What the metadata tell of the file is what it holds.** -/
theorem parts_of_parse (h : parse bytes = .ok i) :
    ∀ p ∈ i.parts, p.field = (bytes.drop p.offset).take p.width := by
  refine List.forall_mem_cons.2 ⟨encodeTable_of_parse h, List.forall_mem_cons.2
    ⟨encodeNameTable_of_parse h, fun p hp => ?_⟩⟩
  have hheader := (exists_parse_iff.1 ⟨i, h⟩).header
  obtain ⟨hroom, hfield⟩ := headerFields_of_describes (describes_of_parse h) hheader p hp
  rw [List.length_take_of_le hheader] at hroom
  rw [hfield, List.drop_take, List.take_take, Nat.min_eq_left (by omega)]

/-- Every place that is read is in one of the parts. -/
theorem exists_part_of_isRead (h : i.IsRead k) :
    ∃ p ∈ i.parts, p.offset ≤ k ∧ k < p.offset + p.width := by
  have hextent : i.extent = 100 + i.tableSize.toNat + i.nameTableSize := rfl
  simp only [parts, headerFields, List.exists_mem_cons_iff, magicOffset, versionOffset, modeOffset,
    entryOffset, tableSizeOffset]
  rcases h with h | h | h <;> omega

/-- Images with the same metadata have files that agree wherever they are read. -/
theorem SameMetadata.agree (hsame : SameMetadata i j) (h : parse bytes = .ok i)
    (h' : parse bytes' = .ok j) (hk : i.IsRead k) : bytes[k]? = bytes'[k]? := by
  obtain ⟨p, hp, hstart, hstop⟩ := exists_part_of_isRead hk
  have hplace (bytes : List UInt8) (hfield : p.field = (bytes.drop p.offset).take p.width) :
      bytes[k]? = p.field[k - p.offset]? := by
    rw [hfield, List.getElem?_take_of_lt (by omega), List.getElem?_drop,
      Nat.add_sub_cancel' hstart]
  rw [hplace bytes (parts_of_parse h p hp),
    hplace bytes' (parts_of_parse h' p (hsame.parts_eq ▸ hp))]

/-- Files that agree wherever they are read are images with the same metadata. -/
theorem sameMetadata_of_agree (h : parse bytes = .ok i) (h' : parse bytes' = .ok j)
    (hread : ∀ k, i.IsRead k → bytes[k]? = bytes'[k]?) : SameMetadata i j := by
  obtain rfl := Except.ok.inj (h'.symm.trans (parse_of_agree h hread))
  exact ⟨rfl, rfl, rfl, rfl, rfl, rfl, rfl⟩

/-- **The JSON text of an image tells its metadata,** and with them the file wherever it is read.
So it is the same for images that have the same metadata, and for files that differ in other places
only. -/
theorem json_tells_metadata (h : parse bytes = .ok i) (h' : parse bytes' = .ok j) :
    (i.toJson.compact = j.toJson.compact ↔ SameMetadata i j) ∧
      (i.toJson.compact = j.toJson.compact ↔ ∀ k, i.IsRead k → bytes[k]? = bytes'[k]?) := by
  rw [Text.Json.compact_inj, toJson_inj]
  exact ⟨Iff.rfl, fun hsame k hk => hsame.agree h h' hk, sameMetadata_of_agree h h'⟩

/-- Files with a name made of a quote, a backslash and a line break, and with a section of a kind
that has no name.  A byte of the header that means nothing and the one behind the tables do not show
in the text, but an unknown mode does, although all of them have the same name. -/
theorem json_tells_metadata_unknown :
    let file (mode pad : UInt8) :=
      List.replicate 5 0 ++ mode :: pad :: List.replicate 89 0 ++ [44, 0, 0, 0] ++
        1 :: List.replicate 9 0 ++ [4, 0, 0, 0] ++ List.replicate 8 0 ++
        9 :: List.replicate 21 0 ++ [3, 0x22, 0x5C, 0x0A, pad]
    ∃ i j l, parse (file 7 0) = .ok i ∧ parse (file 7 1) = .ok j ∧ parse (file 8 0) = .ok l ∧
      i.names.map (·.text) = ["\"\\\n"] ∧ i.sections.map (·.kind) = [.nameStrings, .other 9] ∧
      i.bytes ≠ j.bytes ∧ i.toJson.compact = j.toJson.compact ∧
      i.mode.name = l.mode.name ∧ i.toJson.compact ≠ l.toJson.compact := by
  intro file
  let names : List NameEntry := [⟨144, 3, "\"\\\n"⟩]
  have h : parse (file 7 0) = .ok (describe (file 7 0) names) := by decide +kernel
  have hpad : parse (file 7 1) = .ok (describe (file 7 1) names) := by decide +kernel
  have hmode : parse (file 8 0) = .ok (describe (file 8 0) names) := by decide +kernel
  refine ⟨_, _, _, h, hpad, hmode, by decide +kernel, by decide +kernel, by decide +kernel,
    (json_tells_metadata h hpad).1.2 (sameMetadata_iff.2 (by decide +kernel)), by decide +kernel,
    fun hjson => ?_⟩
  have hmodes := ((json_tells_metadata h hmode).1.1 hjson).mode
  exact absurd hmodes (by decide +kernel)

end VmProbe.Image
