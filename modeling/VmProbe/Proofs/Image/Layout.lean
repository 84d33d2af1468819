/-
VmProbe/Proofs/Image/Layout.lean

What is written down in the order of the format is read back.

A number, a table entry or a whole table is found wherever the bytes from its place on begin with
what was written for it (`sectionAt_of_drop`, `sectionsAt_of_drop`).  So all that there is to show
for a draft is where its parts come to stand.  A draft is regular (`Draft.Regular`) when no size was
set by hand, its own sections are none of names, and it has a name table only if a section says so.

Main statement: what a regular draft lays out is an image, with the sections of the draft and the
names of its name table, as long as it is shorter than `2 ^ 32` bytes (`Draft.parse_bytes`).
-/
import VmProbe.Image.Draft
import VmProbe.Proofs.Image.Format

namespace VmProbe.Image

open Bytes (toLittleEndian ofLittleEndian overlay)

variable {bytes bytes' code field rest : List UInt8} {ss : List Section} {s : Section}
variable {names : List NameEntry} {ns : List String} {offset width n k : Nat}

/-! ### Numbers and sections -/

/-- Behind a field the bytes go on with what follows it. -/
theorem drop_after (offset : Nat) (field : List UInt8)
    (hdrop : bytes.drop offset = field ++ rest) (hwidth : field.length = width) :
    bytes.drop (offset + width) = rest := by
  rw [← List.drop_drop, hdrop, List.drop_left' hwidth]

theorem number_of_drop (hdrop : bytes.drop offset = field ++ rest) (hwidth : field.length = width) :
    number bytes offset width = ofLittleEndian field := by
  rw [number, hdrop, List.take_left' hwidth]

theorem getD_of_drop {b : UInt8} (hdrop : bytes.drop offset = b :: rest) :
    bytes.getD offset 0 = b := by
  rw [List.getD_eq_getElem?_getD, ← List.head?_drop, hdrop]
  rfl

/-- The kind is the one of its byte. -/
def Kind.Canonical (kind : Kind) : Prop := Kind.ofByte kind.toByte = kind

theorem Kind.canonical_ofByte (b : UInt8) : (ofByte b).Canonical :=
  congrArg ofByte (toByte_ofByte b)

/-- A section is read where its entry stands. -/
theorem sectionAt_of_drop (hdrop : bytes.drop offset = s.encode ++ rest)
    (hkind : s.kind.Canonical) : sectionAt bytes offset = s := by
  have hpermissions : bytes.drop (offset + 1) = s.permissions.bits ::
      (toLittleEndian 8 s.start.toNat ++ toLittleEndian 4 s.size.toNat ++
        toLittleEndian 8 s.nameRef.toNat ++ rest) :=
    drop_after offset [s.kind.toByte] hdrop rfl
  have hfields : bytes.drop (offset + 2) = toLittleEndian 8 s.start.toNat ++
      toLittleEndian 4 s.size.toNat ++ toLittleEndian 8 s.nameRef.toNat ++ rest :=
    drop_after (offset + 1) [s.permissions.bits] hpermissions rfl
  rw [List.append_assoc, List.append_assoc] at hfields
  have hsize : bytes.drop (offset + 10) = toLittleEndian 4 s.size.toNat ++
      (toLittleEndian 8 s.nameRef.toNat ++ rest) :=
    drop_after (offset + 2) _ hfields (Bytes.length_toLittleEndian 8 _)
  have hnameRef : bytes.drop (offset + 14) = toLittleEndian 8 s.nameRef.toNat ++ rest :=
    drop_after (offset + 10) _ hsize (Bytes.length_toLittleEndian 4 _)
  have hword (a : UInt32) : UInt32.ofNat (ofLittleEndian (toLittleEndian 4 a.toNat)) = a := by
    have hlt : a.toNat < 256 ^ 4 := a.toNat_lt
    rw [Bytes.ofLittleEndian_toLittleEndian, Nat.mod_eq_of_lt hlt, UInt32.ofNat_toNat]
  rw [sectionAt, getD_of_drop hdrop, getD_of_drop hpermissions,
    number_of_drop hfields (Bytes.length_toLittleEndian 8 _),
    number_of_drop hsize (Bytes.length_toLittleEndian 4 _),
    number_of_drop hnameRef (Bytes.length_toLittleEndian 8 _), Bytes.word_toLittleEndian, hword,
    Bytes.word_toLittleEndian, hkind]

theorem length_encode (s : Section) : s.encode.length = entrySize := by
  simp [Section.encode, entrySize]

theorem length_flatMap_encode (ss : List Section) :
    (ss.flatMap Section.encode).length = ss.length * entrySize := by
  induction ss with
  | nil => exact (Nat.zero_mul _).symm
  | cons s ss ih =>
    rw [List.flatMap_cons, List.length_append, length_encode, ih, List.length_cons, Nat.succ_mul,
      Nat.add_comm]

/-- Sections are read where their table stands. -/
theorem sectionsAt_of_drop (hdrop : bytes.drop offset = ss.flatMap Section.encode ++ rest)
    (hkinds : ∀ s ∈ ss, s.kind.Canonical) : sectionsAt bytes offset ss.length = ss := by
  induction ss generalizing offset with
  | nil => rfl
  | cons s ss ih =>
    obtain ⟨hkind, hkinds⟩ := List.forall_mem_cons.1 hkinds
    rw [List.flatMap_cons, List.append_assoc] at hdrop
    have hnext := drop_after _ _ hdrop (length_encode s)
    rw [List.length_cons, sectionsAt_succ, sectionAt_of_drop hdrop hkind, ih hnext hkinds]

/-! ### Names -/

/-- The entries of names that stand one after another from an offset on. -/
def namesAt : Nat → List String → List NameEntry
  | _, [] => []
  | offset, n :: ns =>
    ⟨offset, UInt8.ofNat (Text.encode n).length, n⟩ ::
      namesAt (offset + 1 + (Text.encode n).length) ns

/-- Names that fit have a table. -/
theorem exists_encodeNames (h : ∀ n ∈ ns, (Text.encode n).length ≤ 255) :
    ∃ table, Draft.encodeNames ns = .ok table := by
  induction ns with
  | nil => exact ⟨[], rfl⟩
  | cons n ns ih =>
    obtain ⟨hfits, hlater⟩ := List.forall_mem_cons.1 h
    obtain ⟨table, htable⟩ := ih hlater
    refine ⟨_, bind_eq_ok_iff.2 ⟨_, if_pos hfits, bind_eq_ok_iff.2 ⟨table, htable, rfl⟩⟩⟩

/-- The table of some names is a table of exactly these. -/
theorem nameTable_of_encodeNames (h : Draft.encodeNames ns = .ok code) (offset : Nat) :
    NameTable offset code (namesAt offset ns) := by
  induction ns generalizing code offset with
  | nil =>
    obtain rfl := Except.ok.inj h
    exact .nil
  | cons n ns ih =>
    obtain ⟨entry, hentry, h⟩ := bind_eq_ok_iff.1 h
    obtain ⟨rest, hrest, h⟩ := bind_eq_ok_iff.1 h
    obtain rfl := Except.ok.inj h
    rw [Draft.encodeName] at hentry
    split_ifs at hentry with hfits
    · obtain rfl := Except.ok.inj hentry
      have hlength : (UInt8.ofNat (Text.encode n).length).toNat = (Text.encode n).length :=
        UInt8.toNat_ofNat_of_lt' (Nat.lt_succ_of_le hfits)
      refine .cons hlength.symm ?_
      rw [hlength]
      exact ih hrest _

/-- If all sections of names agree on a size, it is the size of the name table. -/
theorem nameTableSize?_of_forall (hsize : ∀ s ∈ ss, s.kind = .nameStrings → s.size.toNat = n)
    (hs : s ∈ ss) (hkind : s.kind = .nameStrings) : nameTableSize? ss = some n := by
  rw [nameTableSize?]
  generalize hfind : ss.reverse.find? _ = found
  rcases found with - | t
  · have hnone := List.find?_eq_none.1 hfind s (List.mem_reverse.2 hs)
    exact absurd (decide_eq_true hkind) hnone
  · have hmem := List.mem_reverse.1 (List.mem_of_find?_eq_some hfind)
    have ht : t.kind = .nameStrings := by simpa using List.find?_some hfind
    rw [Option.map_some, hsize t hmem ht]

theorem nameTableSize?_eq_none (h : ∀ s ∈ ss, s.kind ≠ .nameStrings) :
    nameTableSize? ss = none := by
  rw [nameTableSize?, Option.map_eq_none_iff, List.find?_eq_none]
  intro s hs
  rw [decide_eq_true_iff]
  exact h s (List.mem_reverse.1 hs)

/-! ### Drafts -/

namespace Draft

variable {d : Draft} {start : Nat} {p : Part} {ps : List Part}

/-- No size of the draft was set by hand, its own sections are none of names, and it has a name
table only if a section says so. -/
structure Regular (d : Draft) : Prop where
  header : d.header.length = headerSize
  tableSize : d.tableSize? = none
  nameTableSize : d.nameTableSize? = none
  explicit : ∀ s, .explicit s ∈ d.parts → s.kind.Canonical ∧ s.kind ≠ .nameStrings
  nameless : .names ∉ d.parts → d.nameTable = []

/-- A section of the draft is that of a part. -/
theorem exists_of_mem_partSections (h : s ∈ d.partSections start ps) :
    ∃ p ∈ ps, ∃ start, s = d.partSection start p := by
  induction ps generalizing start with
  | nil => cases h
  | cons p ps ih =>
    rcases List.mem_cons.1 h with rfl | hmem
    · exact ⟨p, List.mem_cons_self, start, rfl⟩
    · obtain ⟨q, hq, hs⟩ := ih hmem
      exact ⟨q, List.mem_cons_of_mem p hq, hs⟩

theorem exists_mem_partSections (h : p ∈ ps) (start : Nat) :
    ∃ start', d.partSection start' p ∈ d.partSections start ps := by
  induction ps generalizing start with
  | nil => cases h
  | cons q ps ih =>
    rcases List.mem_cons.1 h with rfl | hmem
    · exact ⟨start, List.mem_cons_self⟩
    · obtain ⟨start', hs⟩ := ih hmem (start + q.payload.length)
      exact ⟨start', List.mem_cons_of_mem _ hs⟩

theorem length_partSections (d : Draft) (start : Nat) (ps : List Part) :
    (d.partSections start ps).length = ps.length := by
  induction ps generalizing start with
  | nil => rfl
  | cons p ps ih => rw [partSections, List.length_cons, ih, List.length_cons]

/-- The header as it is written, with the size of the section table. -/
def writtenHeader (d : Draft) : List UInt8 :=
  overlay d.header tableSizeOffset (toLittleEndian 4 (UInt32.ofNat d.tableLength).toNat)

/-- The parts of the file, one after another. -/
theorem Regular.bytes_eq (h : d.Regular) :
    d.bytes = d.writtenHeader ++ (d.sections.flatMap Section.encode ++
      (d.nameTable ++ d.parts.flatMap Part.payload)) := by
  rw [bytes, h.tableSize]
  simp only [Option.getD_none, writtenHeader, List.append_assoc]

theorem Regular.take_writtenHeader (h : d.Regular) :
    d.writtenHeader.take 0x60 = d.header.take 0x60 := by
  rw [writtenHeader, overlay, List.append_assoc]
  exact List.take_left' (by rw [List.length_take, h.header]; rfl)

theorem Regular.length_writtenHeader (h : d.Regular) : d.writtenHeader.length = 100 := by
  simp only [writtenHeader, overlay, List.length_append, List.length_take, List.length_drop,
    Bytes.length_toLittleEndian, h.header]
  rfl

/-- All but the last four bytes of the header are those of the draft. -/
theorem Regular.take_bytes (h : d.Regular) : d.bytes.take 0x60 = d.header.take 0x60 := by
  rw [h.bytes_eq, List.take_append_of_le_length (by rw [h.length_writtenHeader]; decide),
    h.take_writtenHeader]

theorem Regular.drop_bytes (h : d.Regular) :
    d.bytes.drop 100 = d.sections.flatMap Section.encode ++
      (d.nameTable ++ d.parts.flatMap Part.payload) := by
  rw [h.bytes_eq, List.drop_left' h.length_writtenHeader]

theorem length_sections (d : Draft) :
    (d.sections.flatMap Section.encode).length = d.tableLength := by
  rw [length_flatMap_encode, sections, length_partSections, tableLength]

theorem Regular.drop_nameTableStart (h : d.Regular) :
    d.bytes.drop d.nameTableStart = d.nameTable ++ d.parts.flatMap Part.payload := by
  rw [nameTableStart, headerSize, ← List.drop_drop, h.drop_bytes,
    List.drop_left' (length_sections d)]

theorem Regular.drop_payload (h : d.Regular) :
    d.bytes.drop (d.nameTableStart + d.nameTable.length) = d.parts.flatMap Part.payload := by
  rw [← List.drop_drop, h.drop_nameTableStart, List.drop_left]

theorem Regular.length_bytes (h : d.Regular) :
    d.bytes.length = d.nameTableStart + d.nameTable.length +
      (d.parts.flatMap Part.payload).length := by
  rw [h.bytes_eq, List.length_append, List.length_append, List.length_append, length_sections,
    h.length_writtenHeader, nameTableStart, headerSize]
  omega

/-- The header says how long the section table is. -/
theorem Regular.announcedSize_bytes (h : d.Regular) (hlength : d.bytes.length < 2 ^ 32) :
    announcedSize d.bytes = d.tableLength := by
  have hsize : d.tableLength < 2 ^ 32 := by
    rw [h.length_bytes, nameTableStart] at hlength
    omega
  have hdrop : d.bytes.drop 0x60 = toLittleEndian 4 d.tableLength ++
      (d.header.drop 0x64 ++ (d.sections.flatMap Section.encode ++
        (d.nameTable ++ d.parts.flatMap Part.payload))) := by
    have hhead : (d.header.take 0x60).length = 0x60 :=
      List.length_take_of_le (by rw [h.header]; decide)
    rw [h.bytes_eq, writtenHeader, overlay, UInt32.toNat_ofNat_of_lt' hsize,
      Bytes.length_toLittleEndian, List.append_assoc, List.append_assoc]
    exact List.drop_left' hhead
  have hmod : d.tableLength % 256 ^ 4 = d.tableLength := Nat.mod_eq_of_lt hsize
  rw [announcedSize, number_of_drop hdrop (Bytes.length_toLittleEndian 4 _),
    Bytes.ofLittleEndian_toLittleEndian, hmod]

/-- What the sections of a regular draft say: their kinds have a byte, and the sections of names
have the size of the name table. -/
theorem Regular.of_mem_sections (h : d.Regular) (hs : s ∈ d.sections) :
    s.kind.Canonical ∧
      (s.kind = .nameStrings → s.size = UInt32.ofNat d.nameTable.length ∧ .names ∈ d.parts) := by
  obtain ⟨p, hp, start, rfl⟩ := exists_of_mem_partSections hs
  cases p with
  | explicit s =>
    obtain ⟨hkind, hne⟩ := h.explicit s hp
    exact ⟨hkind, fun heq => absurd heq hne⟩
  | names =>
    refine ⟨rfl, fun _ => ⟨?_, hp⟩⟩
    rw [partSection, h.nameTableSize]
    rfl
  | code bytes => exact ⟨rfl, fun heq => Kind.noConfusion heq⟩

/-- The name table is read, if a section announces it. -/
theorem Regular.readNameTable_bytes (h : d.Regular) (hlength : d.bytes.length < 2 ^ 32)
    (hnames : NameTable d.nameTableStart d.nameTable names) :
    readNameTable d.bytes d.sections d.nameTableStart = .ok names := by
  have hsize : (UInt32.ofNat d.nameTable.length).toNat = d.nameTable.length := by
    rw [h.length_bytes] at hlength
    exact UInt32.toNat_ofNat_of_lt' (show _ < 2 ^ 32 by omega)
  rw [readNameTable]
  by_cases hpart : .names ∈ d.parts
  · obtain ⟨start, hmem⟩ : ∃ start, d.partSection start .names ∈ d.sections :=
      exists_mem_partSections hpart _
    rw [nameTableSize?_of_forall (n := d.nameTable.length) ?_ hmem rfl]
    · refine readNames_of_nameTable hnames ?_ rfl (by rw [h.length_bytes]; omega)
      rw [h.drop_payload, h.drop_nameTableStart]
    · intro s hs hkind
      rw [((h.of_mem_sections hs).2 hkind).1, hsize]
  · rw [nameTableSize?_eq_none fun s hs hkind => hpart ((h.of_mem_sections hs).2 hkind).2]
    have hempty := h.nameless hpart
    rw [hempty] at hnames
    cases hnames
    rfl

/-- **What a regular draft lays out is an image,** with the names of its name table and with its
sections. -/
theorem Regular.parse_bytes (h : d.Regular) (hlength : d.bytes.length < 2 ^ 32)
    (hnames : NameTable d.nameTableStart d.nameTable names) :
    parse d.bytes = .ok (describe d.bytes names) ∧
      (describe d.bytes names).sections = d.sections := by
  have hsize := h.announcedSize_bytes hlength
  have hcount : entryCount d.bytes = d.sections.length := by
    rw [entryCount, hsize, tableLength, sections, length_partSections]
    exact Nat.mul_div_cancel _ (by decide)
  have hstop : tableStop d.bytes = d.nameTableStart := by
    rw [tableStop, hsize]
    rfl
  have hsections : sectionsAt d.bytes 100 (entryCount d.bytes) = d.sections := by
    rw [hcount]
    exact sectionsAt_of_drop h.drop_bytes fun s hs => (h.of_mem_sections hs).1
  have hroom : 100 ≤ d.nameTableStart ∧ d.nameTableStart ≤ d.bytes.length := by
    rw [h.length_bytes, nameTableStart, headerSize]
    omega
  have htable : tableStop d.bytes ≤ d.bytes.length := hstop ▸ hroom.2
  refine ⟨parse_eq_ok_iff.2 ⟨hroom.1.trans hroom.2, ?_, htable, names, ?_, rfl⟩, hsections⟩
  · rw [hsize]
    exact Nat.dvd_mul_left _ _
  · rw [hsections, hstop]
    exact h.readNameTable_bytes hlength hnames

end Draft

end VmProbe.Image
