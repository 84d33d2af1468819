/-
VmProbe/Proofs/Image/Format.lean

The image format, and what a file that follows it says.

A file is an image when its header is there, the section table that the header announces has
whole entries and is there, and, if there is a section of names, the bytes after the section
table are a name table of the size that the last such section gives (`WellFormed`).  Nothing
else is asked for: not what the other header bytes hold, nor where the sections lie.

Main statement: exactly these files are read, and what is read from one is what it says, field
by field (`parse_accepts_exactly_images`).
-/
import VmProbe.Bytes.Lemmas
import VmProbe.Proofs.Image.Tables

namespace VmProbe.Image

variable {bytes code : List UInt8} {names : List NameEntry} {i : Image}
variable {offset start stop count k : Nat}

/-! ### The format -/

/-- The size of the section table that the header announces. -/
def announcedSize (bytes : List UInt8) : Nat := number bytes 0x60 4

/-- How many entries the section table has. -/
def entryCount (bytes : List UInt8) : Nat := announcedSize bytes / 22

/-- Where the section table ends, and a name table begins. -/
def tableStop (bytes : List UInt8) : Nat := 100 + announcedSize bytes

/-- Where an entry of the section table stands. -/
def entryPlace (k : Nat) : Nat := 100 + k * 22

/-- Of so many entries of the section table, `k` is the last section of names. -/
structure LastNames (bytes : List UInt8) (count k : Nat) : Prop where
  lt : k < count
  kind : bytes.getD (entryPlace k) 0 = 1
  later : ∀ j, k < j → j < count → bytes.getD (entryPlace j) 0 ≠ 1

/-- The size of the name table that an entry of the section table gives. -/
def namesSize (bytes : List UInt8) (k : Nat) : Nat := number bytes (entryPlace k + 10) 4

/-- The file follows the image format. -/
structure WellFormed (bytes : List UInt8) : Prop where
  header : 100 ≤ bytes.length
  whole : 22 ∣ announcedSize bytes
  table : tableStop bytes ≤ bytes.length
  names : ∀ k, LastNames bytes (entryCount bytes) k →
    tableStop bytes + namesSize bytes k ≤ bytes.length ∧
      ∃ names, NameTable (tableStop bytes)
        ((bytes.drop (tableStop bytes)).take (namesSize bytes k)) names

/-- The names are those in the code, and stand one after another from `start` to `stop`. -/
structure FillsWith (code : List UInt8) (start stop : Nat) (names : List NameEntry) : Prop where
  code_eq : names.flatMap (fun n => n.length :: Text.encode n.text) = code
  length_eq : ∀ n ∈ names, n.length.toNat = (Text.encode n.text).length
  first : start < stop → names.head?.map (·.offset) = some start
  next : ∀ (k : Nat) (h : k + 1 < names.length),
    names[k].offset + 1 + names[k].length.toNat = names[k + 1].offset
  last : start < stop →
    names.getLast?.map (fun n => n.offset + 1 + n.length.toNat) = some stop

/-- The image is what the file says. -/
structure Describes (bytes : List UInt8) (i : Image) : Prop where
  source : i.bytes = bytes
  magic : i.magic = UInt32.ofNat (number bytes 0 4)
  version : i.version = bytes.getD 4 0
  mode : i.mode = .ofByte (bytes.getD 5 0)
  entry : i.entry = UInt64.ofNat (number bytes 8 8)
  tableSize : i.tableSize = UInt32.ofNat (announcedSize bytes)
  count : i.sections.length = entryCount bytes
  sections : ∀ (k : Nat) (h : k < i.sections.length),
    i.sections[k] = sectionAt bytes (entryPlace k)
  nameless : (∀ k < entryCount bytes, bytes.getD (entryPlace k) 0 ≠ 1) → i.names = []
  names : ∀ k, LastNames bytes (entryCount bytes) k →
    FillsWith ((bytes.drop (tableStop bytes)).take (namesSize bytes k)) (tableStop bytes)
      (tableStop bytes + namesSize bytes k) i.names

/-! ### Names one after another -/

theorem NameTable.code_eq (h : NameTable start code names) :
    names.flatMap (fun n => n.length :: Text.encode n.text) = code := by
  induction h with
  | nil => rfl
  | cons _ _ ih => rw [List.flatMap_cons, ih, List.cons_append]

theorem NameTable.length_eq (h : NameTable start code names) :
    ∀ n ∈ names, n.length.toNat = (Text.encode n.text).length := by
  induction h with
  | nil => exact fun n hn => absurd hn List.not_mem_nil
  | cons hwidth _ ih => exact List.forall_mem_cons.2 ⟨hwidth.symm, ih⟩

/-- Where a table starts: at its first name, or at its end. -/
theorem NameTable.start_eq (h : NameTable start code names) :
    start = (names.head?.map (·.offset)).getD (start + code.length) := by
  cases h with
  | nil => rfl
  | cons => rfl

theorem NameTable.next (h : NameTable start code names) (k : Nat) (hk : k + 1 < names.length) :
    names[k].offset + 1 + names[k].length.toNat = names[k + 1].offset := by
  induction h generalizing k with
  | nil => cases hk
  | @cons offset length text rest names _ htail ih =>
    rcases k with - | k
    · rcases names with - | ⟨n, ns⟩
      · exact absurd hk (Nat.lt_irrefl 1)
      · exact htail.start_eq
    · exact ih k (Nat.lt_of_succ_lt_succ hk)

theorem NameTable.last (h : NameTable start code names) (hne : names ≠ []) :
    names.getLast?.map (fun n => n.offset + 1 + n.length.toNat) = some (start + code.length) := by
  induction h with
  | nil => exact absurd rfl hne
  | @cons offset length text rest names hwidth htail ih =>
    have hstop : offset + (length :: (Text.encode text ++ rest)).length
        = offset + 1 + length.toNat + rest.length := by
      rw [List.length_cons, List.length_append, hwidth]
      omega
    rw [hstop]
    rcases names with - | ⟨n, ns⟩
    · cases htail
      rfl
    · rw [List.getLast?_cons_cons]
      exact ih (List.cons_ne_nil n ns)

/-- A name table, name by name. -/
theorem NameTable.fillsWith (h : NameTable start code names) (hstop : start + code.length = stop) :
    FillsWith code start stop names := by
  have hstart := h.start_eq
  rw [hstop] at hstart
  have hne : start < stop → names ≠ [] := by
    rintro hlt rfl
    exact absurd hstart hlt.ne
  refine ⟨h.code_eq, h.length_eq, ?_, h.next, fun hlt => hstop ▸ h.last (hne hlt)⟩
  intro hlt
  rcases names with - | ⟨n, ns⟩
  · exact absurd rfl (hne hlt)
  · exact congrArg some hstart.symm

/-! ### The last section of names -/

theorem Kind.ofByte_eq_nameStrings_iff {b : UInt8} : Kind.ofByte b = .nameStrings ↔ b = 1 := by
  constructor
  · intro h
    rw [← Kind.toByte_ofByte b, h]
    rfl
  · rintro rfl
    rfl

/-- At most one entry is the last section of names. -/
theorem LastNames.unique {j : Nat} (hj : LastNames bytes count j) (hk : LastNames bytes count k) :
    j = k := by
  rcases Nat.lt_trichotomy j k with h | h | h
  · exact absurd hk.kind (hj.later k h hk.lt)
  · exact h
  · exact absurd hj.kind (hk.later j h hj.lt)

theorem number_lt (bytes : List UInt8) (offset width : Nat) :
    number bytes offset width < 256 ^ width := by
  calc number bytes offset width
      < 256 ^ ((bytes.drop offset).take width).length := Bytes.ofLittleEndian_lt _
    _ ≤ 256 ^ width := Nat.pow_le_pow_right (by decide) (List.length_take_le _ _)

theorem toNat_size_sectionAt (bytes : List UInt8) (offset : Nat) :
    (sectionAt bytes offset).size.toNat = number bytes (offset + 10) 4 :=
  UInt32.toNat_ofNat_of_lt' (number_lt bytes (offset + 10) 4)

theorem sectionsAt_concat (bytes : List UInt8) (offset count : Nat) :
    sectionsAt bytes offset (count + 1) =
      sectionsAt bytes offset count ++ [sectionAt bytes (offset + count * entrySize)] := by
  rw [sectionsAt, List.range_succ, List.map_append]
  rfl

theorem nameTableSize?_concat (ss : List Section) (s : Section) :
    nameTableSize? (ss ++ [s]) =
      if s.kind = .nameStrings then some s.size.toNat else nameTableSize? ss := by
  rw [nameTableSize?, List.reverse_append, List.reverse_singleton, List.singleton_append,
    List.find?_cons]
  split_ifs with h <;> simp [h, nameTableSize?]

/-- The last section of names gives the size of the name table. -/
theorem nameTableSize?_sectionsAt {n : Nat} :
    nameTableSize? (sectionsAt bytes 100 count) = some n ↔
      ∃ k, LastNames bytes count k ∧ namesSize bytes k = n := by
  induction count with
  | zero =>
    constructor
    · intro h
      cases h
    · rintro ⟨k, hk, -⟩
      exact absurd hk.lt (Nat.not_lt_zero k)
  | succ count ih =>
    have hkind : (sectionAt bytes (entryPlace count)).kind = .nameStrings ↔
        bytes.getD (entryPlace count) 0 = 1 := Kind.ofByte_eq_nameStrings_iff
    show nameTableSize? (sectionsAt bytes 100 (count + 1)) = _ ↔ _
    rw [sectionsAt_concat, nameTableSize?_concat]
    show (if (sectionAt bytes (entryPlace count)).kind = .nameStrings then _ else _) = _ ↔ _
    by_cases h : bytes.getD (entryPlace count) 0 = 1
    · -- the entry that is added is the last section of names
      rw [if_pos (hkind.2 h), Option.some_inj]
      show (sectionAt bytes (entryPlace count)).size.toNat = n ↔ _
      rw [toNat_size_sectionAt]
      constructor
      · intro hn
        exact ⟨count, ⟨Nat.lt_succ_self count, h, fun j hj hj' => by omega⟩, hn⟩
      · rintro ⟨k, hk, hn⟩
        rcases Nat.lt_succ_iff_lt_or_eq.1 hk.lt with hlt | rfl
        · exact absurd h (hk.later count hlt (Nat.lt_succ_self count))
        · exact hn
    · rw [if_neg (mt hkind.1 h), ih]
      refine exists_congr fun k => and_congr_left fun _ => ⟨fun hk => ?_, fun hk => ?_⟩
      · refine ⟨hk.lt.trans (Nat.lt_succ_self count), hk.kind, fun j hj hj' => ?_⟩
        rcases Nat.lt_succ_iff_lt_or_eq.1 hj' with hlt | rfl
        · exact hk.later j hj hlt
        · exact h
      · rcases Nat.lt_succ_iff_lt_or_eq.1 hk.lt with hlt | rfl
        · exact ⟨hlt, hk.kind, fun j hj hj' => hk.later j hj (hj'.trans (Nat.lt_succ_self count))⟩
        · exact absurd hk.kind h

/-! ### Reading -/

/-- The image with the given names that the other bytes of the file say. -/
def describe (bytes : List UInt8) (names : List NameEntry) : Image where
  bytes
  magic := UInt32.ofNat (number bytes 0 4)
  version := bytes.getD 4 0
  mode := .ofByte (bytes.getD 5 0)
  entry := UInt64.ofNat (number bytes 8 8)
  tableSize := UInt32.ofNat (announcedSize bytes)
  sections := sectionsAt bytes 100 (entryCount bytes)
  names

/-- Reading takes the header, the section table and the name table, each if it is there. -/
theorem parse_eq_ok_iff :
    parse bytes = .ok i ↔
      100 ≤ bytes.length ∧ 22 ∣ announcedSize bytes ∧ tableStop bytes ≤ bytes.length ∧
        ∃ names, readNameTable bytes (sectionsAt bytes 100 (entryCount bytes)) (tableStop bytes)
          = .ok names ∧ describe bytes names = i := by
  have hstop (hwhole : 22 ∣ announcedSize bytes) :
      headerSize + entryCount bytes * entrySize = tableStop bytes :=
    congrArg (100 + ·) (Nat.div_mul_cancel hwhole)
  simp only [parse, bind_eq_ok_iff, readNumber_eq_ok_iff]
  constructor
  · rintro ⟨_, ⟨-, rfl⟩, _, ⟨-, rfl⟩, _, ⟨-, rfl⟩, _, ⟨-, rfl⟩, _, ⟨hheader, rfl⟩, h⟩
    split_ifs at h with hwhole
    · cases h
    · have hwhole : 22 ∣ announcedSize bytes := Nat.dvd_of_mod_eq_zero (not_not.1 hwhole)
      obtain ⟨ss, hss, h⟩ := bind_eq_ok_iff.1 h
      obtain ⟨names, hnames, h⟩ := bind_eq_ok_iff.1 h
      obtain ⟨hend, rfl⟩ := (readSections_eq_ok_iff hheader).1 hss
      rw [ofNat_number_one, ofNat_number_one] at h
      exact ⟨hheader, hwhole, (hstop hwhole).symm.trans_le hend, names, hnames, Except.ok.inj h⟩
  · rintro ⟨hheader, hwhole, htable, names, hnames, rfl⟩
    have hin {n : Nat} (hn : n ≤ 100) : n ≤ bytes.length := hn.trans hheader
    have heven : ¬ number bytes tableSizeOffset 4 % entrySize ≠ 0 :=
      not_not.2 (Nat.mod_eq_zero_of_dvd hwhole)
    refine ⟨_, ⟨hin (by decide), rfl⟩, _, ⟨hin (by decide), rfl⟩, _, ⟨hin (by decide), rfl⟩,
      _, ⟨hin (by decide), rfl⟩, _, ⟨hheader, rfl⟩, ?_⟩
    rw [if_neg heven, ofNat_number_one, ofNat_number_one]
    refine bind_eq_ok_iff.2 ⟨_, (readSections_eq_ok_iff hheader).2 ⟨?_, rfl⟩, ?_⟩
    · exact (hstop hwhole).trans_le htable
    · exact bind_eq_ok_iff.2 ⟨names, hnames, rfl⟩

/-- The name table is read if no section announces one, or if the bytes are one. -/
theorem readNameTable_eq_ok_iff (h : tableStop bytes ≤ bytes.length) :
    readNameTable bytes (sectionsAt bytes 100 (entryCount bytes)) (tableStop bytes) = .ok names ↔
      ((∀ k, ¬ LastNames bytes (entryCount bytes) k) → names = []) ∧
      ∀ k, LastNames bytes (entryCount bytes) k →
        tableStop bytes + namesSize bytes k ≤ bytes.length ∧
          NameTable (tableStop bytes)
            ((bytes.drop (tableStop bytes)).take (namesSize bytes k)) names := by
  rw [readNameTable]
  rcases hsize : nameTableSize? (sectionsAt bytes 100 (entryCount bytes)) with - | n
  · have hnone (k : Nat) : ¬ LastNames bytes (entryCount bytes) k := by
      intro hk
      have hsome := nameTableSize?_sectionsAt.2 ⟨k, hk, rfl⟩
      rw [hsize] at hsome
      cases hsome
    constructor
    · intro hnames
      exact ⟨fun _ => (Except.ok.inj hnames).symm, fun k hk => absurd hk (hnone k)⟩
    · rintro ⟨hempty, -⟩
      rw [hempty hnone]
  · obtain ⟨k, hk, rfl⟩ := nameTableSize?_sectionsAt.1 hsize
    show readNames bytes (tableStop bytes + namesSize bytes k) (tableStop bytes) = .ok names ↔ _
    rw [readNames_eq_ok_iff (Nat.le_add_right _ _) h, Nat.add_sub_cancel_left]
    constructor
    · intro htable
      refine ⟨fun hnone => absurd hk (hnone k), fun j hj => ?_⟩
      rwa [hj.unique hk]
    · rintro ⟨-, htables⟩
      exact htables k hk

theorem describes_of_parse (h : parse bytes = .ok i) : Describes bytes i := by
  obtain ⟨-, -, htable, names, hnames, rfl⟩ := parse_eq_ok_iff.1 h
  obtain ⟨hempty, htables⟩ := (readNameTable_eq_ok_iff htable).1 hnames
  have hcount : (sectionsAt bytes 100 (entryCount bytes)).length = entryCount bytes := by
    rw [sectionsAt, List.length_map, List.length_range]
  exact {
    source := rfl
    magic := rfl
    version := rfl
    mode := rfl
    entry := rfl
    tableSize := rfl
    count := hcount
    sections := fun k hk => by
      show (sectionsAt bytes 100 (entryCount bytes))[k] = _
      simp only [sectionsAt, List.getElem_map, List.getElem_range]
      rfl
    nameless := fun hkind => hempty fun k hk => hkind k hk.lt hk.kind
    names := fun k hk => by
      obtain ⟨hend, hnames⟩ := htables k hk
      refine hnames.fillsWith ?_
      rw [List.length_take, List.length_drop]
      omega }

theorem exists_parse_iff : (∃ i, parse bytes = .ok i) ↔ WellFormed bytes := by
  simp only [parse_eq_ok_iff]
  constructor
  · rintro ⟨i, hheader, hwhole, htable, names, hnames, rfl⟩
    refine ⟨hheader, hwhole, htable, fun k hk => ?_⟩
    obtain ⟨hend, hnames⟩ := ((readNameTable_eq_ok_iff htable).1 hnames).2 k hk
    exact ⟨hend, names, hnames⟩
  · intro h
    obtain ⟨names, hnames⟩ : ∃ names, readNameTable bytes
        (sectionsAt bytes 100 (entryCount bytes)) (tableStop bytes) = .ok names := by
      by_cases hlast : ∃ k, LastNames bytes (entryCount bytes) k
      · obtain ⟨k, hk⟩ := hlast
        obtain ⟨hend, names, hnames⟩ := h.names k hk
        refine ⟨names, (readNameTable_eq_ok_iff h.table).2
          ⟨fun hnone => absurd hk (hnone k), fun j hj => ?_⟩⟩
        rw [hj.unique hk]
        exact ⟨hend, hnames⟩
      · exact ⟨[], (readNameTable_eq_ok_iff h.table).2
          ⟨fun _ => rfl, fun k hk => absurd ⟨k, hk⟩ hlast⟩⟩
    exact ⟨_, h.header, h.whole, h.table, names, hnames, rfl⟩

/-- **Exactly the files that follow the format are read,** and what is read is what they say. -/
theorem parse_accepts_exactly_images (bytes : List UInt8) :
    ((∃ i, parse bytes = .ok i) ↔ WellFormed bytes) ∧
      ∀ i, parse bytes = .ok i → Describes bytes i :=
  ⟨exists_parse_iff, fun _ => describes_of_parse⟩

end VmProbe.Image
