/-
VmProbe/Proofs/Image/Listing.lean

How much of its section of code the listing of an image covers.

The listing runs from the start of the section to its end, and an end that does not fit into 64
bits is taken to be the largest address.  Such a section cannot lie in a file, and decoding
refuses it as it refuses any code that the file does not hold, with one exception: a section
that starts at the largest address ends where it starts, and is listed without a line.

Main statement: with this one exception a listing covers the whole section, inside the file, and
a section that the file does not hold has none (`disassemble_complete_iff`).
-/
import VmProbe.Image.Draft
import VmProbe.Image.Listing
import VmProbe.Proofs.Image.Format
import VmProbe.Proofs.Isa.Boundaries

namespace VmProbe.Image

open Isa (Line)

variable {bytes : List UInt8} {i : Image} {s : Section} {lines : List Line}

/-! ### Coverage -/

/-- The lines are those of a whole section, which lies in a file of so many bytes. -/
structure Covers (s : Section) (fileSize : Nat) (lines : List Line) : Prop where
  total : (lines.map (·.size)).sum = s.size.toNat
  inside : 0 < s.size.toNat → s.start.toNat + s.size.toNat ≤ fileSize
  first : 0 < s.size.toNat → lines.head?.map (·.address) = some s.start.toNat
  last : 0 < s.size.toNat →
    lines.getLast?.map (fun l => l.address + l.size) = some (s.start.toNat + s.size.toNat)

/-- A listing of the image covers its section of code, and there is none if the file of so many
bytes does not hold the section. -/
structure ListsAll (i : Image) (s : Section) (fileSize : Nat) : Prop where
  covers : ∀ lines, i.disassemble = .ok lines → Covers s fileSize lines
  refused : 0 < s.size.toNat → fileSize < s.start.toNat + s.size.toNat →
    ∃ e, i.disassemble = .error e

/-! ### The end of a section -/

theorem Section.stop_of_lt (h : s.start.toNat + s.size.toNat < UInt64.size) :
    s.stop = s.start.toNat + s.size.toNat := Nat.min_eq_left (Nat.le_sub_one_of_lt h)

theorem Section.stop_of_ge (h : UInt64.size ≤ s.start.toNat + s.size.toNat) :
    s.stop = UInt64.size - 1 := Nat.min_eq_right (Nat.sub_le_of_le_add (h.trans (Nat.le_succ _)))

theorem Section.start_le_stop (s : Section) : s.start.toNat ≤ s.stop :=
  Nat.le_min.2 ⟨Nat.le_add_right _ _, Nat.le_sub_one_of_lt s.start.toNat_lt⟩

/-! ### Listings -/

/-- The listing is decoded from the bytes that the image was read from. -/
theorem disassemble_eq (hi : parse bytes = .ok i) (hs : i.codeSection? = some s) :
    i.disassemble = Isa.decode Isa.standard bytes s.start.toNat s.stop := by
  rw [disassemble, hs, (describes_of_parse hi).source]

/-- A listing of a section that is not empty tiles it up to its end, which the file holds. -/
theorem tiling_of_disassemble (hi : parse bytes = .ok i) (hs : i.codeSection? = some s)
    (hlt : s.start.toNat < s.stop) (h : i.disassemble = .ok lines) :
    s.stop ≤ bytes.length ∧
      ∃ codes, Isa.Tiling Isa.standard s.start.toNat codes lines s.stop := by
  rw [disassemble_eq hi hs] at h
  have hregular := Isa.Catalog.regular_standard
  obtain ⟨hend, codes, hcodes⟩ := (Isa.exists_decode_iff hregular hlt).1 ⟨lines, h⟩
  exact ⟨hend, codes, Isa.tiling_of_decode hregular hlt h hcodes⟩

/-- A section whose end fits into 64 bits is covered. -/
theorem covers_of_lt (hi : parse bytes = .ok i) (hs : i.codeSection? = some s)
    (hend : s.start.toNat + s.size.toNat < UInt64.size) (h : i.disassemble = .ok lines) :
    Covers s bytes.length lines := by
  have hstop := s.stop_of_lt hend
  rcases Nat.eq_zero_or_pos s.size.toNat with hzero | hpos
  · rw [disassemble_eq hi hs, hstop, hzero, Nat.add_zero, Isa.decode_of_ge le_rfl] at h
    obtain rfl := Except.ok.inj h
    have hnone : ¬ 0 < s.size.toNat := hzero ▸ Nat.lt_irrefl 0
    exact ⟨hzero.symm, fun h => absurd h hnone, fun h => absurd h hnone, fun h => absurd h hnone⟩
  · have hlt : s.start.toNat < s.stop := hstop ▸ Nat.lt_add_of_pos_right hpos
    obtain ⟨hfile, codes, htiling⟩ := tiling_of_disassemble hi hs hlt h
    have htiles := htiling.tiles hlt
    rw [hstop] at hfile htiling htiles
    exact ⟨Nat.add_left_cancel htiling.sum_size, fun _ => hfile, fun _ => htiles.first,
      fun _ => htiles.last⟩

/-- A section that starts before the largest address and ends behind it is refused: no file goes
as far as the largest address. -/
theorem disassemble_refuses_of_ge (hi : parse bytes = .ok i) (hs : i.codeSection? = some s)
    (hlen : bytes.length < 2 ^ 63) (hstart : s.start.toNat ≠ UInt64.size - 1)
    (hend : UInt64.size ≤ s.start.toNat + s.size.toNat) : ∃ e, i.disassemble = .error e := by
  have hstop := s.stop_of_ge hend
  have hlt : s.start.toNat < s.stop := lt_of_le_of_ne s.start_le_stop (hstop ▸ hstart)
  rcases h : i.disassemble with e | lines
  · exact ⟨e, rfl⟩
  · obtain ⟨hfile, -⟩ := tiling_of_disassemble hi hs hlt h
    rw [hstop] at hfile
    exact absurd hlen (Nat.not_lt.2 (Nat.le_trans (by decide) hfile))

/-- A section that starts at the largest address has no line, whatever its size. -/
theorem disassemble_of_last (hi : parse bytes = .ok i) (hs : i.codeSection? = some s)
    (hstart : s.start.toNat = UInt64.size - 1) : i.disassemble = .ok [] := by
  have hstop : s.stop = s.start.toNat :=
    le_antisymm (hstart ▸ Nat.min_le_right _ _) s.start_le_stop
  rw [disassemble_eq hi hs, hstop, Isa.decode_of_ge le_rfl]

/-! ### Completeness -/

/-- **A listing is complete, but for a section that starts at the largest address.**  Every other
section is covered by its listing, and refused if it is not inside the file; this one, if it has
a size, is not inside any file and has an empty listing. -/
theorem disassemble_complete_iff (hi : parse bytes = .ok i) (hs : i.codeSection? = some s)
    (hlen : bytes.length < 2 ^ 63) :
    (ListsAll i s bytes.length ↔ s.size.toNat = 0 ∨ s.start.toNat ≠ UInt64.size - 1) ∧
      (s.start.toNat = UInt64.size - 1 → i.disassemble = .ok []) := by
  refine ⟨⟨fun h => ?_, fun h => ?_⟩, disassemble_of_last hi hs⟩
  · by_contra! hcon
    obtain ⟨hsize, hstart⟩ := hcon
    exact hsize (h.covers [] (disassemble_of_last hi hs hstart)).total.symm
  · have hcovers (lines : List Line) (hlines : i.disassemble = .ok lines) :
        Covers s bytes.length lines := by
      rcases Nat.lt_or_ge (s.start.toNat + s.size.toNat) UInt64.size with hlt | hge
      · exact covers_of_lt hi hs hlt hlines
      · have hsize : s.size.toNat ≠ 0 := by
          intro hzero
          rw [hzero, Nat.add_zero] at hge
          exact absurd s.start.toNat_lt (Nat.not_lt.2 hge)
        obtain ⟨e, he⟩ := disassemble_refuses_of_ge hi hs hlen (h.resolve_left hsize) hge
        rw [he] at hlines
        cases hlines
    refine ⟨hcovers, fun hpos hout => ?_⟩
    rcases hlines : i.disassemble with e | lines
    · exact ⟨e, rfl⟩
    · exact absurd hout (Nat.not_lt.2 ((hcovers lines hlines).inside hpos))

theorem exists_image_of_codeSection (h : (parse bytes).toOption.bind codeSection? = some s) :
    ∃ i, parse bytes = .ok i ∧ i.codeSection? = some s := by
  rcases hi : parse bytes with e | i
  · rw [hi] at h
    cases h
  · rw [hi] at h
    exact ⟨i, rfl, h⟩

/-- An image with one instruction of code, right after its section table. -/
theorem disassemble_complete_iff_exit :
    ∃ i s, parse (Draft.new.code [0x50]).bytes = .ok i ∧ i.codeSection? = some s ∧
      (Draft.new.code [0x50]).bytes.length < 2 ^ 63 ∧
      ListsAll i s (Draft.new.code [0x50]).bytes.length := by
  have hread : (parse (Draft.new.code [0x50]).bytes).toOption.bind codeSection? =
      some ⟨.code, ⟨0xA0⟩, 122, 1, 0⟩ := by decide +kernel
  obtain ⟨i, hi, hs⟩ := exists_image_of_codeSection hread
  have hlen : (Draft.new.code [0x50]).bytes.length < 2 ^ 63 := by decide +kernel
  obtain ⟨hiff, -⟩ := disassemble_complete_iff hi hs hlen
  exact ⟨i, _, hi, hs, hlen, hiff.2 (.inr (by decide))⟩

/-- An image whose section of code is the byte at the largest address. -/
def lastByte : Draft :=
  Draft.new.addSection ⟨.code, ⟨0xA0⟩, 0xFFFFFFFFFFFFFFFF, 1, 0⟩

/-- The byte at the largest address is in no file, and has a listing without a line. -/
theorem disassemble_skips_last_byte :
    ∃ i s, parse lastByte.bytes = .ok i ∧ i.codeSection? = some s ∧
      s.size = 1 ∧ i.disassemble = .ok [] ∧ ¬ ListsAll i s lastByte.bytes.length := by
  have hread : (parse lastByte.bytes).toOption.bind codeSection? =
      some ⟨.code, ⟨0xA0⟩, 0xFFFFFFFFFFFFFFFF, 1, 0⟩ := by decide +kernel
  obtain ⟨i, hi, hs⟩ := exists_image_of_codeSection hread
  have hlines := disassemble_of_last hi hs rfl
  refine ⟨i, _, hi, hs, rfl, hlines, fun h => ?_⟩
  have hsum : 0 = 1 := (h.covers [] hlines).total
  cases hsum

end VmProbe.Image
