/-
VmProbe/Proofs/Image/Extent.lean

How much of a file an image is read from.

What is read ends with the section table, or with the name table if there is one
(`extent`).  The bytes behind are kept but not looked at, and neither are those between the fields
of the header (`IsRead`): a file that agrees at all the places that are read is read as the same
image (`parse_of_agree`).

A file that ends earlier is told by its size alone.  Every reader asks for its bytes before it looks
at them, and what it looks at is what it was.  So with fewer bytes it gives the same result or says
that the file is truncated (`Survives`), and readers that follow one another do as well.  The same
image cannot come out of a file that is too short for it, so the file is truncated.

Main statement: `parse_extent`.
-/
import VmProbe.Proofs.Image.Format

namespace VmProbe.Image

variable {bytes bytes' : List UInt8} {i : Image} {field : Field} {ss : List Section}
variable {names : List NameEntry} {offset start stop width count n k : Nat}

/-! ### The extent of an image -/

/-- The bytes of the name table: the size of the last section of names, and none without one. -/
def nameTableSize (i : Image) : Nat :=
  ((i.sections.filter (·.kind = .nameStrings)).getLast?.map (·.size.toNat)).getD 0

/-- The bytes of the file that are read. -/
def extent (i : Image) : Nat := 100 + i.tableSize.toNat + i.nameTableSize

theorem header_le_extent (i : Image) : 100 ≤ i.extent :=
  (Nat.le_add_right _ _).trans (Nat.le_add_right _ _)

theorem nameTableSize_eq (i : Image) :
    i.nameTableSize = (nameTableSize? i.sections).getD 0 := by
  rw [nameTableSize, List.getLast?_filter, nameTableSize?]

theorem toNat_tableSize (h : parse bytes = .ok i) : i.tableSize.toNat = announcedSize bytes := by
  obtain ⟨-, -, -, names, -, rfl⟩ := parse_eq_ok_iff.1 h
  exact UInt32.toNat_ofNat_of_lt' (number_lt bytes 0x60 4)

/-- The extent ends with the name table. -/
theorem extent_eq (h : parse bytes = .ok i) :
    i.extent = tableStop bytes +
      (nameTableSize? (sectionsAt bytes 100 (entryCount bytes))).getD 0 := by
  rw [extent, toNat_tableSize h, nameTableSize_eq]
  obtain ⟨-, -, -, names, -, rfl⟩ := parse_eq_ok_iff.1 h
  rfl

/-- The names are read from the bytes up to the extent. -/
theorem readNameTable_eq_ok (h : readNameTable bytes ss offset = .ok names)
    (hoffset : offset ≤ bytes.length) :
    offset + (nameTableSize? ss).getD 0 ≤ bytes.length := by
  rw [readNameTable] at h
  rcases hsize : nameTableSize? ss with - | size <;> rw [hsize] at h
  · exact hoffset
  · exact ((readNames_eq_ok_iff (Nat.le_add_right _ _) hoffset).1 h).1

theorem extent_le (h : parse bytes = .ok i) : i.extent ≤ bytes.length := by
  rw [extent_eq h]
  obtain ⟨-, -, htable, names, hnames, -⟩ := parse_eq_ok_iff.1 h
  exact readNameTable_eq_ok hnames htable

/-! ### Files that agree where they are read -/

/-- The places of the file that are read: those of the header fields, and the tables. -/
def IsRead (i : Image) (k : Nat) : Prop := k < 6 ∨ (8 ≤ k ∧ k < 16) ∨ (96 ≤ k ∧ k < i.extent)

theorem lt_extent_of_isRead (h : i.IsRead k) : k < i.extent := by
  have hheader := header_le_extent i
  rcases h with h | h | h <;> omega

theorem Agree.sectionAt_eq (h : Agree bytes bytes' start stop) (hstart : start ≤ offset)
    (hstop : offset + entrySize ≤ stop) : sectionAt bytes offset = sectionAt bytes' offset := by
  have hentry : offset + 22 ≤ stop := hstop
  rw [sectionAt, sectionAt, h.getD_eq hstart (by omega), h.getD_eq (by omega) (by omega),
    h.number_eq (by omega) (by omega), h.number_eq (by omega) (by omega),
    h.number_eq (by omega) (by omega)]

theorem Agree.sectionsAt_eq (h : Agree bytes bytes' start stop) (hstart : start ≤ offset)
    (hstop : offset + count * entrySize ≤ stop) :
    sectionsAt bytes offset count = sectionsAt bytes' offset count := by
  refine List.map_congr_left fun k hk => h.sectionAt_eq (by omega) ?_
  have hlast : (k + 1) * entrySize ≤ count * entrySize :=
    Nat.mul_le_mul_right _ (List.mem_range.1 hk)
  rw [Nat.succ_mul] at hlast
  omega

theorem Agree.readNameTable_eq_ok (h : Agree bytes bytes' start stop) (hstart : start ≤ offset)
    (hstop : offset + (nameTableSize? ss).getD 0 ≤ stop) (hoffset : offset ≤ bytes.length)
    (hend' : offset + (nameTableSize? ss).getD 0 ≤ bytes'.length)
    (hnames : readNameTable bytes ss offset = .ok names) :
    readNameTable bytes' ss offset = .ok names := by
  rw [readNameTable] at hnames ⊢
  rcases hsize : nameTableSize? ss with - | size <;> rw [hsize] at hnames hstop hend'
  · exact hnames
  · have hsize : offset + (offset + size - offset) ≤ stop := by
      rw [Nat.add_sub_cancel_left]
      exact hstop
    obtain ⟨-, htable⟩ := (readNames_eq_ok_iff (Nat.le_add_right _ _) hoffset).1 hnames
    rw [h.slice_eq hstart hsize] at htable
    exact (readNames_eq_ok_iff (Nat.le_add_right _ _) ((Nat.le_add_right _ _).trans hend')).2
      ⟨hend', htable⟩

/-- **A file that agrees wherever an image is read is read as the same image.** -/
theorem parse_of_agree (h : parse bytes = .ok i)
    (hread : ∀ k, i.IsRead k → bytes[k]? = bytes'[k]?) :
    parse bytes' = .ok { i with bytes := bytes' } := by
  have hend := extent_le h
  have hextent := extent_eq h
  have hend' : i.extent ≤ bytes'.length := by
    -- the last place that is read is there
    have hheader := header_le_extent i
    have hlast := hread (i.extent - 1) (.inr (.inr ⟨by omega, by omega⟩))
    rw [List.getElem?_eq_getElem (by omega)] at hlast
    have hlt := (List.getElem?_eq_some_iff.1 hlast.symm).1
    omega
  have hfirst : Agree bytes bytes' 0 6 := fun k _ hk => hread k (.inl hk)
  have hentry : Agree bytes bytes' 8 16 := fun k hk hk' => hread k (.inr (.inl ⟨hk, hk'⟩))
  have htables : Agree bytes bytes' 96 i.extent := fun k hk hk' =>
    hread k (.inr (.inr ⟨hk, hk'⟩))
  obtain ⟨hheader, hwhole, htable, names, hnames, rfl⟩ := parse_eq_ok_iff.1 h
  generalize (describe bytes names).extent = n at htables hend hend' hextent
  have hstop : 100 + announcedSize bytes ≤ n := hextent ▸ Nat.le_add_right _ _
  have hsize : announcedSize bytes = announcedSize bytes' :=
    htables.number_eq (Nat.le_refl _) (by omega)
  have hentries : 100 + entryCount bytes * entrySize ≤ n :=
    (congrArg (100 + ·) (Nat.div_mul_cancel hwhole)).trans_le hstop
  have hsections : sectionsAt bytes 100 (entryCount bytes) =
      sectionsAt bytes' 100 (entryCount bytes) := htables.sectionsAt_eq (by decide) hentries
  have hcount : entryCount bytes = entryCount bytes' := congrArg (· / 22) hsize
  have htableStop : tableStop bytes = tableStop bytes' := congrArg (100 + ·) hsize
  refine parse_eq_ok_iff.2 ⟨by omega, hsize ▸ hwhole, ?_, names, ?_, ?_⟩
  · rw [← htableStop]
    exact hstop.trans hend'
  · rw [← hcount, ← htableStop, ← hsections]
    have hstart : 96 ≤ tableStop bytes := (by decide : 96 ≤ 100).trans (Nat.le_add_right _ _)
    exact htables.readNameTable_eq_ok hstart hextent.ge htable (hextent ▸ hend') hnames
  · simp only [describe, ← hcount, ← hsections, ← hsize]
    rw [hfirst.number_eq (Nat.le_refl _) (by decide), hentry.number_eq (Nat.le_refl _) (by decide),
      hfirst.getD_eq (by decide) (by decide), hfirst.getD_eq (by decide) (by decide)]

/-- A file that begins in the same way is read as the same image. -/
theorem parse_of_take_eq (h : parse bytes = .ok i)
    (htake : bytes'.take i.extent = bytes.take i.extent) :
    parse bytes' = .ok { i with bytes := bytes' } :=
  parse_of_agree h fun k hk =>
    agree_of_take_eq htake.symm k (Nat.zero_le k) (lt_extent_of_isRead hk)

/-! ### Files that end earlier -/

/-- The file ends before a field that is asked for. -/
def FormatError.IsTruncated (e : FormatError) : Prop :=
  ∃ field offset needed available, e = .truncated field offset needed available

/-- A part of the file gives what the whole gives, or is truncated. -/
def Survives {α : Type} (whole part : Except FormatError α) : Prop :=
  ∀ a, whole = .ok a → part = .ok a ∨ ∃ e, part = .error e ∧ e.IsTruncated

theorem Survives.bind {α β : Type} {whole part : Except FormatError α}
    {f g : α → Except FormatError β} (h : Survives whole part)
    (hfg : ∀ a, Survives (f a) (g a)) : Survives (whole >>= f) (part >>= g) := by
  intro b hb
  obtain ⟨a, ha, hb⟩ := bind_eq_ok_iff.1 hb
  rcases h a ha with rfl | ⟨e, rfl, he⟩
  · exact hfg a b hb
  · exact .inr ⟨e, rfl, he⟩

theorem Survives.refl {α : Type} (whole : Except FormatError α) : Survives whole whole :=
  fun _ => .inl

theorem survives_readField (bytes : List UInt8) (k : Nat) (field : Field) (offset width : Nat) :
    Survives (readField bytes field offset width)
      (readField (bytes.take k) field offset width) := by
  intro raw hraw
  rw [readField_eq] at hraw ⊢
  split_ifs at hraw with hle
  obtain rfl := Except.ok.inj hraw
  by_cases hk : offset + width ≤ (bytes.take k).length
  · rw [if_pos hk]
    rw [List.length_take] at hk
    rw [List.drop_take, List.take_take, Nat.min_eq_left (by omega)]
    exact .inl rfl
  · rw [if_neg hk]
    exact .inr ⟨_, rfl, _, _, _, _, rfl⟩

theorem survives_readNumber (bytes : List UInt8) (k : Nat) (field : Field) (offset width : Nat) :
    Survives (readNumber bytes field offset width)
      (readNumber (bytes.take k) field offset width) :=
  (survives_readField bytes k field offset width).bind fun _ => .refl _

theorem survives_readSection (bytes : List UInt8) (k offset : Nat) :
    Survives (readSection bytes offset) (readSection (bytes.take k) offset) :=
  (survives_readNumber _ _ _ _ _).bind fun _ => (survives_readNumber _ _ _ _ _).bind fun _ =>
    (survives_readNumber _ _ _ _ _).bind fun _ => (survives_readNumber _ _ _ _ _).bind fun _ =>
    (survives_readNumber _ _ _ _ _).bind fun _ => .refl _

theorem survives_readSections (bytes : List UInt8) (k count offset : Nat) :
    Survives (readSections bytes count offset) (readSections (bytes.take k) count offset) := by
  induction count generalizing offset with
  | zero => exact .refl _
  | succ count ih =>
    exact (survives_readSection bytes k offset).bind fun _ => (ih _).bind fun _ => .refl _

/-- The first name of a table, and then the others. -/
theorem readNames_of_lt (h : offset < stop) :
    readNames bytes stop offset = (do
      let length ← readNumber bytes .nameLength offset 1
      if stop < offset + 1 + length then .error (.nameOverrun offset stop)
      else
        let raw ← readField bytes .nameText (offset + 1) length
        match Text.decode? raw with
        | none => .error (.invalidName offset)
        | some text =>
          let rest ← readNames bytes stop (offset + 1 + length)
          .ok (⟨offset, UInt8.ofNat length, text⟩ :: rest)) := by
  rw [readNames, if_pos h]
  rcases readNumber bytes .nameLength offset 1 with e | length
  · rfl
  · simp only [bind, Except.bind]
    split_ifs with hfit
    · rfl
    · rcases readField bytes .nameText (offset + 1) length with e | raw
      · rfl
      · simp only
        rcases Text.decode? raw with - | text
        · rfl
        · simp only
          rcases readNames bytes stop (offset + 1 + length) with e | rest <;> rfl

theorem survives_readNames (bytes : List UInt8) (k stop offset : Nat) :
    Survives (readNames bytes stop offset) (readNames (bytes.take k) stop offset) := by
  -- the distance to the end falls with every name
  induction hd : stop - offset using Nat.strong_induction_on generalizing offset with
  | _ d ih =>
    subst hd
    rcases Nat.lt_or_ge offset stop with hlt | hge
    · rw [readNames_of_lt hlt, readNames_of_lt hlt]
      refine (survives_readNumber _ _ _ _ _).bind fun length => ?_
      split_ifs with hfit
      · exact .refl _
      · refine (survives_readField _ _ _ _ _).bind fun raw => ?_
        rcases Text.decode? raw with - | text
        · exact .refl _
        · exact (ih _ (by omega) _ rfl).bind fun _ => .refl _
    · rw [readNames, readNames, if_neg (Nat.not_lt.2 hge), if_neg (Nat.not_lt.2 hge)]
      exact .refl _

theorem survives_readNameTable (bytes : List UInt8) (k : Nat) (ss : List Section) (offset : Nat) :
    Survives (readNameTable bytes ss offset) (readNameTable (bytes.take k) ss offset) := by
  rw [readNameTable, readNameTable]
  rcases nameTableSize? ss with - | size
  · exact .refl _
  · exact survives_readNames bytes k _ offset

/-- What follows a reader that survives fails for want of bytes, if it does so on what was read from
the whole. -/
theorem Survives.isTruncated_of_bind {α β : Type} {whole part : Except FormatError α}
    {g : α → Except FormatError β} {a : α} (h : Survives whole part) (ha : whole = .ok a)
    (hg : ∀ e, g a = .error e → e.IsTruncated) : ∀ e, part >>= g = .error e → e.IsTruncated := by
  intro e he
  rcases h a ha with rfl | ⟨e', rfl, htruncated⟩
  · exact hg e he
  · exact Except.error.inj he ▸ htruncated

/-- **A part of an image that is not read is truncated.** -/
theorem isTruncated_of_parse_take (h : parse bytes = .ok i) :
    ∀ e, parse (bytes.take k) = .error e → e.IsTruncated := by
  obtain ⟨magic, hmagic, h⟩ := bind_eq_ok_iff.1 h
  obtain ⟨version, hversion, h⟩ := bind_eq_ok_iff.1 h
  obtain ⟨mode, hmode, h⟩ := bind_eq_ok_iff.1 h
  obtain ⟨entry, hentry, h⟩ := bind_eq_ok_iff.1 h
  obtain ⟨tableSize, htableSize, h⟩ := bind_eq_ok_iff.1 h
  split_ifs at h with hwhole
  · cases h
  obtain ⟨sections, hsections, h⟩ := bind_eq_ok_iff.1 h
  obtain ⟨names, hnames, -⟩ := bind_eq_ok_iff.1 h
  refine (survives_readNumber _ _ _ _ _).isTruncated_of_bind hmagic ?_
  refine (survives_readNumber _ _ _ _ _).isTruncated_of_bind hversion ?_
  refine (survives_readNumber _ _ _ _ _).isTruncated_of_bind hmode ?_
  refine (survives_readNumber _ _ _ _ _).isTruncated_of_bind hentry ?_
  refine (survives_readNumber _ _ _ _ _).isTruncated_of_bind htableSize ?_
  rw [if_neg hwhole]
  refine (survives_readSections _ _ _ _).isTruncated_of_bind hsections ?_
  refine (survives_readNameTable _ _ _ _).isTruncated_of_bind hnames ?_
  intro e he
  cases he

/-- **An image has an exact extent.**  A file that ends before it is truncated, and a file that goes
at least so far is read as the same image, whatever follows. -/
theorem parse_extent (h : parse bytes = .ok i) :
    i.extent ≤ bytes.length ∧
    (∀ k < i.extent, ∃ field offset needed available,
      parse (bytes.take k) = .error (.truncated field offset needed available)) ∧
    (∀ k, i.extent ≤ k → ∀ rest,
      parse (bytes.take k ++ rest) = .ok { i with bytes := bytes.take k ++ rest }) := by
  have hend := extent_le h
  refine ⟨hend, ?short, ?long⟩
  case short =>
    intro k hk
    rcases hpart : parse (bytes.take k) with e | j
    · obtain ⟨field, offset, needed, available, rfl⟩ := isTruncated_of_parse_take h e hpart
      exact ⟨field, offset, needed, available, rfl⟩
    · -- the whole would then be the image that the part is, and end inside it
      have hj := extent_le hpart
      rw [List.length_take] at hj
      have htake : bytes.take j.extent = (bytes.take k).take j.extent := by
        rw [List.take_take, Nat.min_eq_left (by omega)]
      have hwhole := parse_of_take_eq hpart htake
      obtain rfl := Except.ok.inj (h.symm.trans hwhole)
      have hsame : { j with bytes := bytes }.extent = j.extent := rfl
      omega
  case long =>
    intro k hk rest
    refine parse_of_take_eq h ?_
    have hlength : i.extent ≤ (bytes.take k).length := by
      rw [List.length_take]
      omega
    rw [List.take_append_of_le_length hlength, List.take_take, Nat.min_eq_left hk]

/-- A file with an empty name and one of two letters, and a byte after them.  Cut inside the last
name it is truncated, and with another last byte it is the same image. -/
theorem parse_extent_names :
    let header := List.replicate 96 0 ++ [22, 0, 0, 0]
    let entry := 1 :: List.replicate 9 0 ++ [4, 0, 0, 0] ++ List.replicate 8 0
    let bytes := header ++ entry ++ [0, 2, 0x68, 0x69, 0xFF]
    ∃ i, parse bytes = .ok i ∧ i.names.map (·.text) = ["", "hi"] ∧ i.extent = 126 ∧
      (∃ field offset needed available,
        parse (bytes.take 125) = .error (.truncated field offset needed available)) ∧
      parse (bytes.take 126 ++ [7]) = .ok { i with bytes := bytes.take 126 ++ [7] } := by
  intro header entry bytes
  have h : parse bytes = .ok (describe bytes [⟨122, 0, ""⟩, ⟨123, 2, "hi"⟩]) := by decide +kernel
  have hextent : (describe bytes [⟨122, 0, ""⟩, ⟨123, 2, "hi"⟩]).extent = 126 := by decide +kernel
  obtain ⟨-, hshort, hlong⟩ := parse_extent h
  exact ⟨_, h, rfl, hextent, hshort 125 (hextent ▸ by decide), hlong 126 hextent.le [7]⟩

end VmProbe.Image
