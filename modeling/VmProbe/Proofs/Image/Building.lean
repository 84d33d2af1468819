/-
VmProbe/Proofs/Image/Building.lean

An image that is built from calls says what the calls put in.

A draft is made by a list of calls (`Call`): some write header bytes, the others add sections, with
names or with code.  What the calls say together is told without a draft.  A header byte is that of
the last call that writes there (`finalByte`), the names are those of the last call with names
(`finalNames`), and every other call adds its section, in the order of the calls:

    Laid file tableStop namesStop start calls sections

says that the sections are those of the calls, and that the code of the first call with code begins
at `start`, that of each next one where the one before ends, and that the file ends with the last
of them.

Main statement: calls that are admissible build a draft, and if what it lays out is shorter than
`2 ^ 32` bytes, it is an image that says just this (`parse_build`).
-/
import VmProbe.Proofs.Image.Layout

namespace VmProbe.Image

open Bytes (toLittleEndian overlay)

/-! ### Calls -/

/-- One step of building an image. -/
inductive Call
  | magic (n : UInt32)
  | version (n : UInt8)
  | mode (n : UInt8)
  | entry (n : UInt64)
  | headerByte (offset : Nat) (b : UInt8)
  /-- A section with the given fields, the kind as a byte. -/
  | explicit (kind permissions : UInt8) (start : UInt64) (size : UInt32) (nameRef : UInt64)
  | names (ns : List String)
  | code (bytes : List UInt8)
  deriving DecidableEq

namespace Call

/-- A header byte is inside the header, an explicit section is none of names, and names have a
length of one byte. -/
def Admissible : Call → Prop
  | headerByte offset _ => offset < 100
  | explicit kind _ _ _ _ => kind ≠ 1
  | names ns => ∀ n ∈ ns, (Text.encode n).length ≤ 255
  | _ => True

instance : DecidablePred Admissible
  | headerByte offset _ => inferInstanceAs (Decidable (offset < 100))
  | explicit kind _ _ _ _ => inferInstanceAs (Decidable (kind ≠ 1))
  | names ns => inferInstanceAs (Decidable (∀ n ∈ ns, (Text.encode n).length ≤ 255))
  | magic _ => isTrue trivial
  | version _ => isTrue trivial
  | mode _ => isTrue trivial
  | entry _ => isTrue trivial
  | code _ => isTrue trivial

/-- The bytes that a call writes into the header, with their place. -/
def field? : Call → Option (Nat × List UInt8)
  | magic n => some (0, toLittleEndian 4 n.toNat)
  | version n => some (4, [n])
  | mode n => some (5, [n])
  | entry n => some (8, toLittleEndian 8 n.toNat)
  | headerByte offset b => some (offset, [b])
  | _ => none

/-- The byte that a call writes at a place of the header. -/
def byteAt? (k : Nat) (c : Call) : Option UInt8 :=
  c.field?.bind fun f => if f.1 ≤ k then f.2[k - f.1]? else none

/-- The names of a call. -/
def names? : Call → Option (List String)
  | names ns => some ns
  | _ => none

/-- The part that a call adds to a draft. -/
def part? : Call → Option Part
  | explicit kind permissions start size nameRef =>
    some (.explicit ⟨.ofByte kind, ⟨permissions⟩, start, size, nameRef⟩)
  | names _ => some .names
  | code bytes => some (.code bytes)
  | _ => none

end Call

/-- The draft after a call. -/
def Draft.step (d : Draft) : Call → Except DraftError Draft
  | .magic n => .ok (d.magic n)
  | .version n => .ok (d.version n)
  | .mode n => .ok (d.mode n)
  | .entry n => .ok (d.entry n)
  | .headerByte offset b => d.headerByte offset b
  | .explicit kind permissions start size nameRef =>
    .ok (d.addSection ⟨.ofByte kind, ⟨permissions⟩, start, size, nameRef⟩)
  | .names ns => d.names ns
  | .code bytes => .ok (d.code bytes)

/-- The draft that some calls make, the first one first. -/
def Draft.build (calls : List Call) : Except DraftError Draft := calls.foldlM Draft.step Draft.new

/-! ### What calls say -/

/-- The header byte of the last call that writes at a place, or what stands there from the start:
version one, release mode, and zeros. -/
def finalByte (calls : List Call) (k : Nat) : UInt8 :=
  (calls.reverse.findSome? (Call.byteAt? k)).getD (if k = 4 ∨ k = 5 then 1 else 0)

/-- The header that calls leave. -/
def finalHeader (calls : List Call) : List UInt8 := (List.range 100).map (finalByte calls)

/-- The names of the last call with names. -/
def finalNames (calls : List Call) : List String := (calls.reverse.findSome? Call.names?).getD []

/-- The bytes that names take. -/
def namesLength (ns : List String) : Nat := (ns.map fun n => 1 + (Text.encode n).length).sum

/-- The sections of calls, with the names between `tableStop` and `namesStop`, and with the code
from `start` to the end of the file. -/
inductive Laid (file : List UInt8) (tableStop namesStop : Nat) :
    Nat → List Call → List Section → Prop
  | nil {start : Nat} : start = file.length → Laid file tableStop namesStop start [] []
  | header {start : Nat} {c : Call} {calls : List Call} {ss : List Section} :
      c.field?.isSome → Laid file tableStop namesStop start calls ss →
      Laid file tableStop namesStop start (c :: calls) ss
  | explicit {start : Nat} {kind permissions : UInt8} {address : UInt64} {size : UInt32}
      {nameRef : UInt64} {calls : List Call} {ss : List Section} :
      Laid file tableStop namesStop start calls ss →
      Laid file tableStop namesStop start (.explicit kind permissions address size nameRef :: calls)
        (⟨.ofByte kind, ⟨permissions⟩, address, size, nameRef⟩ :: ss)
  | names {start : Nat} {ns : List String} {s : Section} {calls : List Call} {ss : List Section} :
      s.kind = .nameStrings → s.start.toNat = tableStop → s.stop = namesStop →
      Laid file tableStop namesStop start calls ss →
      Laid file tableStop namesStop start (.names ns :: calls) (s :: ss)
  | code {start : Nat} {bytes : List UInt8} {s : Section} {calls : List Call}
      {ss : List Section} :
      s.kind = .code → s.start.toNat = start → s.stop = start + bytes.length →
      (file.drop s.start.toNat).take (s.stop - s.start.toNat) = bytes →
      Laid file tableStop namesStop s.stop calls ss →
      Laid file tableStop namesStop start (.code bytes :: calls) (s :: ss)

/-- The image says what the calls put in. -/
structure Holds (calls : List Call) (file : List UInt8) (i : Image) : Prop where
  magic : i.magic = UInt32.ofNat (number (finalHeader calls) 0 4)
  version : i.version = finalByte calls 4
  mode : i.mode = .ofByte (finalByte calls 5)
  entry : i.entry = UInt64.ofNat (number (finalHeader calls) 8 8)
  header : file.take 96 = (finalHeader calls).take 96
  tableSize : i.tableSize.toNat = 22 * i.sections.length
  names : i.names = namesAt (100 + 22 * i.sections.length) (finalNames calls)
  sections : Laid file (100 + 22 * i.sections.length)
    (100 + 22 * i.sections.length + namesLength (finalNames calls))
    (100 + 22 * i.sections.length + namesLength (finalNames calls)) calls i.sections

variable {calls calls' : List Call} {c : Call} {d d' d'' : Draft} {bytes field : List UInt8}
variable {offset start k : Nat} {table : List UInt8} {ns : List String}

/-! ### Drafts collect calls -/

/-- A byte of the block is that of the field, where the field reaches. -/
theorem getElem?_overlay (h : offset + field.length ≤ bytes.length) (k : Nat) :
    (overlay bytes offset field)[k]? =
      (if offset ≤ k then field[k - offset]? else none).or bytes[k]? := by
  have hfront : (bytes.take offset).length = offset := List.length_take_of_le (by omega)
  rw [overlay, List.append_assoc]
  split_ifs with hle
  · rw [List.getElem?_append_right (hfront.trans_le hle), hfront, List.getElem?_append]
    split_ifs with hlt
    · rw [List.getElem?_eq_getElem hlt, Option.some_or]
    · rw [List.getElem?_eq_none (Nat.le_of_not_lt hlt), Option.none_or, List.getElem?_drop]
      congr 1
      omega
  · rw [List.getElem?_append_left (by omega), List.getElem?_take_of_lt (by omega), Option.none_or]

theorem length_overlay (h : offset + field.length ≤ bytes.length) :
    (overlay bytes offset field).length = bytes.length := by
  rw [overlay, List.length_append, List.length_append, List.length_take, List.length_drop]
  omega

/-- `Collects calls d d'`: the draft `d'` is `d` with what the calls say. -/
structure Collects (calls : List Call) (d d' : Draft) : Prop where
  length : d'.header.length = d.header.length
  header : ∀ k, d'.header[k]? = (calls.reverse.findSome? (Call.byteAt? k)).or d.header[k]?
  parts : d'.parts = d.parts ++ calls.filterMap Call.part?
  named : ∀ ns, calls.reverse.findSome? Call.names? = some ns →
    Draft.encodeNames ns = .ok d'.nameTable
  unnamed : calls.reverse.findSome? Call.names? = none → d'.nameTable = d.nameTable
  tableSize : d'.tableSize? = d.tableSize?
  nameTableSize : d'.nameTableSize? = d.nameTableSize?

theorem Collects.refl (d : Draft) : Collects [] d d where
  length := rfl
  header _ := rfl
  parts := (List.append_nil _).symm
  named _ h := nomatch h
  unnamed _ := rfl
  tableSize := rfl
  nameTableSize := rfl

theorem Collects.trans (h : Collects calls d d') (h' : Collects calls' d' d'') :
    Collects (calls ++ calls') d d'' where
  length := h'.length.trans h.length
  header k := by
    rw [h'.header, h.header, List.reverse_append, List.findSome?_append, Option.or_assoc]
  parts := by rw [h'.parts, h.parts, List.filterMap_append, List.append_assoc]
  named ns hns := by
    rw [List.reverse_append, List.findSome?_append, Option.or_eq_some_iff] at hns
    rcases hns with hlast | ⟨hnone, hfirst⟩
    · exact h'.named ns hlast
    · rw [h'.unnamed hnone]
      exact h.named ns hfirst
  unnamed hnone := by
    rw [List.reverse_append, List.findSome?_append, Option.or_eq_none_iff] at hnone
    rw [h'.unnamed hnone.1, h.unnamed hnone.2]
  tableSize := h'.tableSize.trans h.tableSize
  nameTableSize := h'.nameTableSize.trans h.nameTableSize

/-- A call that writes into the header does nothing else. -/
theorem collects_setHeader (hfield : c.field? = some (offset, field)) (hpart : c.part? = none)
    (hnames : c.names? = none) (h : offset + field.length ≤ d.header.length) :
    Collects [c] d (d.setHeader offset field) where
  length := length_overlay h
  header k := by
    have hbyte : c.byteAt? k = if offset ≤ k then field[k - offset]? else none := by
      rw [Call.byteAt?, hfield]
      rfl
    rw [List.reverse_singleton, List.findSome?_singleton, hbyte]
    exact getElem?_overlay h k
  parts := by
    rw [List.filterMap_cons, hpart, List.filterMap_nil, List.append_nil]
    rfl
  named ns hns := by
    rw [List.reverse_singleton, List.findSome?_singleton, hnames] at hns
    cases hns
  unnamed _ := rfl
  tableSize := rfl
  nameTableSize := rfl

/-- A call that adds a part does nothing else, unless it has names. -/
theorem collects_add {p : Part} (hfield : c.field? = none) (hpart : c.part? = some p)
    (hnames : c.names? = none) : Collects [c] d { d with parts := d.parts ++ [p] } where
  length := rfl
  header k := by
    rw [List.reverse_singleton, List.findSome?_singleton, Call.byteAt?, hfield]
    rfl
  parts := by rw [List.filterMap_cons_some hpart, List.filterMap_nil]
  named ns hns := by
    rw [List.reverse_singleton, List.findSome?_singleton, hnames] at hns
    cases hns
  unnamed _ := rfl
  tableSize := rfl
  nameTableSize := rfl

theorem collects_names (h : Draft.encodeNames ns = .ok table) :
    Collects [.names ns] d (d.rawNameTable table) where
  length := rfl
  header _ := rfl
  parts := rfl
  named ns' hns := by
    obtain rfl : ns = ns' := Option.some.inj hns
    exact h
  unnamed hnone := nomatch hnone
  tableSize := rfl
  nameTableSize := rfl

/-- An admissible call is taken. -/
theorem exists_step (hc : c.Admissible) (hd : d.header.length = headerSize) :
    ∃ d', d.step c = .ok d' ∧ Collects [c] d d' := by
  cases c with
  | magic n =>
    refine ⟨_, rfl, collects_setHeader rfl rfl rfl ?_⟩
    simp [hd, magicOffset, headerSize]
  | version n =>
    refine ⟨_, rfl, collects_setHeader rfl rfl rfl ?_⟩
    simp [hd, versionOffset, headerSize]
  | mode n =>
    refine ⟨_, rfl, collects_setHeader rfl rfl rfl ?_⟩
    simp [hd, modeOffset, headerSize]
  | entry n =>
    refine ⟨_, rfl, collects_setHeader rfl rfl rfl ?_⟩
    simp [hd, entryOffset, headerSize]
  | headerByte offset b =>
    refine ⟨_, if_pos hc, collects_setHeader rfl rfl rfl ?_⟩
    exact (Nat.succ_le_of_lt hc).trans_eq hd.symm
  | explicit kind permissions start size nameRef => exact ⟨_, rfl, collects_add rfl rfl rfl⟩
  | names ns =>
    obtain ⟨table, htable⟩ := exists_encodeNames hc
    exact ⟨_, congrArg (Except.map _) htable, collects_names htable⟩
  | code bytes => exact ⟨_, rfl, collects_add rfl rfl rfl⟩

/-- So are admissible calls, one after another. -/
theorem exists_steps (hcalls : ∀ c ∈ calls, c.Admissible) (hd : d.header.length = headerSize) :
    ∃ d', calls.foldlM Draft.step d = .ok d' ∧ Collects calls d d' := by
  induction calls generalizing d with
  | nil => exact ⟨d, rfl, .refl d⟩
  | cons c calls ih =>
    obtain ⟨hc, hlater⟩ := List.forall_mem_cons.1 hcalls
    obtain ⟨d₁, hstep, hone⟩ := exists_step hc hd
    obtain ⟨d₂, hsteps, hmore⟩ := ih hlater (hone.length.trans hd)
    refine ⟨d₂, ?_, hone.trans hmore⟩
    rw [List.foldlM_cons, hstep]
    exact hsteps

/-! ### Finished drafts -/

/-- A draft that collected all calls has the final header. -/
theorem Collects.header_eq (h : Collects calls Draft.new d) : d.header = finalHeader calls := by
  have hnew : ∀ k < 100, Draft.new.header[k]? = some (if k = 4 ∨ k = 5 then 1 else 0) := by decide
  refine List.ext_getElem? fun k => ?_
  rw [h.header, finalHeader, List.getElem?_map]
  rcases Nat.lt_or_ge k 100 with hlt | hge
  · rw [hnew k hlt, List.getElem?_range hlt, Option.map_some, finalByte]
    cases calls.reverse.findSome? (Call.byteAt? k) <;> rfl
  · rw [← h.header, List.getElem?_eq_none (h.length.trans_le hge), List.getElem?_eq_none (by simpa)]
    rfl

theorem Collects.encodeNames_eq (h : Collects calls Draft.new d) :
    Draft.encodeNames (finalNames calls) = .ok d.nameTable := by
  rw [finalNames]
  rcases hlast : calls.reverse.findSome? Call.names? with - | ns
  · rw [h.unnamed hlast]
    rfl
  · exact h.named ns hlast

theorem Collects.regular (h : Collects calls Draft.new d) (hcalls : ∀ c ∈ calls, c.Admissible) :
    d.Regular where
  header := h.length
  tableSize := h.tableSize
  nameTableSize := h.nameTableSize
  explicit s hs := by
    rw [h.parts] at hs
    obtain ⟨c, hc, hpart⟩ := List.mem_filterMap.1 hs
    cases c with
    | explicit kind permissions start size nameRef =>
      obtain rfl := Part.explicit.inj (Option.some.inj hpart)
      exact ⟨Kind.canonical_ofByte kind, mt Kind.ofByte_eq_nameStrings_iff.1 (hcalls _ hc)⟩
    | _ => cases hpart
  nameless hnone := by
    refine h.unnamed ?_
    -- a call with names would have added its part
    rw [List.findSome?_eq_none_iff]
    intro c hc
    rw [h.parts] at hnone
    have hnot : c.part? ≠ some .names := fun hpart =>
      hnone (List.mem_filterMap.2 ⟨c, List.mem_reverse.1 hc, hpart⟩)
    cases c with
    | names ns => exact absurd rfl hnot
    | _ => rfl

theorem length_of_encodeNames (h : Draft.encodeNames ns = .ok table) :
    table.length = namesLength ns := by
  induction ns generalizing table with
  | nil =>
    obtain rfl := Except.ok.inj h
    rfl
  | cons n ns ih =>
    obtain ⟨entry, hentry, h⟩ := bind_eq_ok_iff.1 h
    obtain ⟨rest, hrest, h⟩ := bind_eq_ok_iff.1 h
    obtain rfl := Except.ok.inj h
    rw [Draft.encodeName] at hentry
    split_ifs at hentry
    obtain rfl := Except.ok.inj hentry
    rw [List.length_append, ih hrest, List.length_cons, namesLength, namesLength, List.map_cons,
      List.sum_cons, Nat.add_comm 1]

/-- The end of a section that lies below the largest address. -/
theorem stop_eq {s : Section} {n m : Nat} (hstart : s.start = UInt64.ofNat n)
    (hsize : s.size = UInt32.ofNat m) (h : n + m < 2 ^ 32) :
    s.start.toNat = n ∧ s.stop = n + m := by
  have hn : s.start.toNat = n := by
    rw [hstart]
    exact UInt64.toNat_ofNat_of_lt' (show n < 2 ^ 64 by omega)
  have hm : s.size.toNat = m := by
    rw [hsize]
    exact UInt32.toNat_ofNat_of_lt' (show m < 2 ^ 32 by omega)
  refine ⟨hn, ?_⟩
  rw [Section.stop, hn, hm]
  exact Nat.min_eq_left (show n + m ≤ 2 ^ 64 - 1 by omega)

/-- The sections of a draft are those of the calls whose parts they are of, as long as the code of
these parts is what the file ends with. -/
theorem laid_partSections (hd : d.nameTableSize? = none) (hfile : bytes.length < 2 ^ 32)
    (hnames : d.nameTableStart + d.nameTable.length ≤ bytes.length) (hstart : start ≤ bytes.length)
    (hdrop : bytes.drop start = (calls.filterMap Call.part?).flatMap Part.payload) :
    Laid bytes d.nameTableStart (d.nameTableStart + d.nameTable.length) start calls
      (d.partSections start (calls.filterMap Call.part?)) := by
  induction calls generalizing start with
  | nil =>
    refine .nil (hstart.antisymm ?_)
    exact List.drop_eq_nil_iff.1 hdrop
  | cons c calls ih =>
    cases c with
    | explicit kind permissions address size nameRef => exact .explicit (ih hstart hdrop)
    | names ns =>
      have hsize : (d.partSection start .names).size = UInt32.ofNat d.nameTable.length := by
        rw [Draft.partSection, hd]
        rfl
      obtain ⟨hfirst, hstop⟩ := stop_eq (s := d.partSection start .names) rfl hsize
        (hnames.trans_lt hfile)
      exact .names rfl hfirst hstop (ih hstart hdrop)
    | code code =>
      have hparts : (Call.code code :: calls).filterMap Call.part? =
          .code code :: calls.filterMap Call.part? := rfl
      rw [hparts, List.flatMap_cons] at hdrop
      have hlength := congrArg List.length hdrop
      rw [List.length_drop, List.length_append] at hlength
      have hend : start + code.length ≤ bytes.length := by
        have hpayload : (Part.code code).payload.length = code.length := rfl
        omega
      obtain ⟨hfirst, hstop⟩ := stop_eq (s := d.partSection start (.code code)) rfl rfl
        (hend.trans_lt hfile)
      refine .code rfl hfirst hstop ?_ ?_
      · rw [hfirst, hstop, Nat.add_sub_cancel_left, hdrop]
        exact List.take_left' rfl
      · rw [hstop]
        exact ih hend (drop_after _ _ hdrop rfl)
    | _ => exact .header rfl (ih hstart hdrop)

/-- What a draft with the calls lays out is read back as what they put in. -/
theorem Collects.holds (h : Collects calls Draft.new d) (hcalls : ∀ c ∈ calls, c.Admissible)
    (hlength : d.bytes.length < 2 ^ 32) :
    ∃ i, parse d.bytes = .ok i ∧ Holds calls d.bytes i := by
  have hregular := h.regular hcalls
  have hencode := h.encodeNames_eq
  obtain ⟨hparse, hsections⟩ := hregular.parse_bytes hlength
    (nameTable_of_encodeNames hencode d.nameTableStart)
  have hcount : d.sections.length = d.parts.length := Draft.length_partSections d _ _
  have hstop : 100 + 22 * d.sections.length = d.nameTableStart := by
    rw [hcount, Draft.nameTableStart, Draft.tableLength, Nat.mul_comm]
    rfl
  have hannounced : announcedSize d.bytes = 22 * d.sections.length := by
    rw [hregular.announcedSize_bytes hlength, hcount, Draft.tableLength, Nat.mul_comm]
    rfl
  have hheader : d.bytes.take 96 = (finalHeader calls).take 96 := by
    rw [hregular.take_bytes, h.header_eq]
  have hagree := agree_of_take_eq hheader
  have hbyte {k : Nat} (hk : k < 96) : d.bytes.getD k 0 = finalByte calls k := by
    rw [hagree.getD_eq (Nat.zero_le k) hk, List.getD_eq_getElem?_getD, finalHeader,
      List.getElem?_map, List.getElem?_range (hk.trans (by decide))]
    rfl
  refine ⟨_, hparse, ?_⟩
  exact {
    magic := congrArg UInt32.ofNat (hagree.number_eq (Nat.zero_le _) (by decide))
    version := hbyte (by decide)
    mode := congrArg Mode.ofByte (hbyte (by decide))
    entry := congrArg UInt64.ofNat (hagree.number_eq (Nat.zero_le _) (by decide))
    header := hheader
    tableSize := by
      rw [hsections, ← hannounced]
      exact UInt32.toNat_ofNat_of_lt' (number_lt d.bytes 0x60 4)
    names := by
      rw [hsections, hstop]
      rfl
    sections := by
      have hroom := hregular.length_bytes
      have hparts : d.parts = calls.filterMap Call.part? := h.parts
      have hdrop : d.bytes.drop (d.nameTableStart + d.nameTable.length) =
          (calls.filterMap Call.part?).flatMap Part.payload := hparts ▸ hregular.drop_payload
      rw [hsections, hstop, ← length_of_encodeNames hencode, Draft.sections, hparts]
      exact laid_partSections h.nameTableSize hlength (by omega) (by omega) hdrop }

/-- **What is built is read back.**  Admissible calls make a draft; and if it is laid out in less
than `2 ^ 32` bytes, these are an image with the final header, with the sections of the calls in
their order, with the last names, and with the code of each call where its section says. -/
theorem parse_build (h : ∀ c ∈ calls, c.Admissible) :
    ∃ d, Draft.build calls = .ok d ∧
      (d.bytes.length < 2 ^ 32 → ∃ i, parse d.bytes = .ok i ∧ Holds calls d.bytes i) := by
  obtain ⟨d, hbuild, hcollects⟩ := exists_steps (d := Draft.new) h (by decide)
  exact ⟨d, hbuild, hcollects.holds h⟩

/-- Names that are replaced by others, code before and after them, a section of a kind that has no
name, and a header byte that the size of the section table writes over. -/
theorem parse_build_replaced_names :
    let calls := [.names ["old"], .code [0x50], .headerByte 0x60 0xFF, .version 2,
      .explicit 9 0x80 0xFFFFFFFFFFFFFFFF 7 1, .names ["code", "é"], .code [0x51, 0x50]]
    (∀ c ∈ calls, c.Admissible) ∧ finalNames calls = ["code", "é"] ∧
      ∃ d, Draft.build calls = .ok d ∧ d.bytes.length < 2 ^ 32 ∧
        ∃ i, parse d.bytes = .ok i ∧ Holds calls d.bytes i := by
  intro calls
  have hcalls : ∀ c ∈ calls, c.Admissible := by decide +kernel
  have hlength : (Draft.build calls).toOption.map (fun d => d.bytes.length) = some 221 := by
    decide +kernel
  obtain ⟨d, hbuild, hread⟩ := parse_build hcalls
  rw [hbuild] at hlength
  have hsmall : d.bytes.length < 2 ^ 32 := (Option.some.inj hlength).trans_lt (by decide)
  exact ⟨hcalls, rfl, d, hbuild, hsmall, hread hsmall⟩

end VmProbe.Image
