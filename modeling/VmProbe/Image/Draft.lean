/-
VmProbe/Image/Draft.lean

Images under construction.  A draft collects header bytes, sections, a name table and code;
`Draft.bytes` lays them out: the header, one table entry per section in the order in which
they were added, the name table, and the code of all code sections one after another.  The
size of the section table and that of the name table follow from the contents unless they
were set to something else, which makes images that are wrong on purpose.
-/
import VmProbe.Image.Basic
import VmProbe.Text.Utf8

namespace VmProbe.Image

open Bytes (toLittleEndian overlay)

/-- A section of a draft. -/
inductive Part
  /-- A table entry as it is. -/
  | explicit (s : Section)
  /-- The entry of the name table. -/
  | names
  /-- An entry for code that the draft holds. -/
  | code (bytes : List UInt8)
  deriving DecidableEq, Repr

/-- The code of a part. -/
def Part.payload : Part → List UInt8
  | .code bytes => bytes
  | _ => []

/-- An image under construction. -/
structure Draft where
  header : List UInt8
  tableSize? : Option UInt32
  parts : List Part
  nameTable : List UInt8
  nameTableSize? : Option UInt32
  deriving DecidableEq, Repr

/-- Why something cannot be put into a draft. -/
inductive DraftError
  | outsideHeader (offset : Nat)
  | nameTooLong (length : Nat)
  deriving DecidableEq, Repr

namespace Draft

/-- A release image of version one without sections. -/
def new : Draft where
  header := overlay (overlay (List.replicate headerSize 0) versionOffset [1]) modeOffset [1]
  tableSize? := none
  parts := []
  nameTable := []
  nameTableSize? := none

/-- Writes over header bytes. -/
def setHeader (d : Draft) (offset : Nat) (field : List UInt8) : Draft :=
  { d with header := overlay d.header offset field }

/-- Sets the magic number. -/
def magic (d : Draft) (n : UInt32) : Draft := d.setHeader magicOffset (toLittleEndian 4 n.toNat)

/-- Sets the version. -/
def version (d : Draft) (n : UInt8) : Draft := d.setHeader versionOffset [n]

/-- Sets the mode byte. -/
def mode (d : Draft) (n : UInt8) : Draft := d.setHeader modeOffset [n]

/-- Sets the entry address. -/
def entry (d : Draft) (n : UInt64) : Draft := d.setHeader entryOffset (toLittleEndian 8 n.toNat)

/-- Sets one header byte, which must be inside the header. -/
def headerByte (d : Draft) (offset : Nat) (b : UInt8) : Except DraftError Draft :=
  if offset < headerSize then .ok (d.setHeader offset [b]) else .error (.outsideHeader offset)

/-- Sets the table size that the header will claim. -/
def claimTableSize (d : Draft) (n : UInt32) : Draft := { d with tableSize? := some n }

/-- Adds a section. -/
def addSection (d : Draft) (s : Section) : Draft := { d with parts := d.parts ++ [.explicit s] }

/-- Replaces the name table and adds a section for it. -/
def rawNameTable (d : Draft) (table : List UInt8) : Draft :=
  { d with nameTable := table, parts := d.parts ++ [.names] }

/-- The name table entry of a text, whose length must fit into a byte. -/
def encodeName (name : String) : Except DraftError (List UInt8) :=
  let bytes := Text.encode name
  if bytes.length ≤ 255 then .ok (UInt8.ofNat bytes.length :: bytes)
  else .error (.nameTooLong bytes.length)

/-- The name table of some texts. -/
def encodeNames : List String → Except DraftError (List UInt8)
  | [] => .ok []
  | n :: ns => do
    let entry ← encodeName n
    let rest ← encodeNames ns
    return entry ++ rest

/-- Replaces the name table by one of the given names and adds a section for it. -/
def names (d : Draft) (ns : List String) : Except DraftError Draft :=
  (encodeNames ns).map d.rawNameTable

/-- Sets the size that the section of names will claim. -/
def claimNameTableSize (d : Draft) (n : UInt32) : Draft := { d with nameTableSize? := some n }

/-- Adds code. -/
def code (d : Draft) (bytes : List UInt8) : Draft := { d with parts := d.parts ++ [.code bytes] }

/-! ### Layout -/

/-- The bytes of the section table. -/
def tableLength (d : Draft) : Nat := d.parts.length * entrySize

/-- Where the name table starts. -/
def nameTableStart (d : Draft) : Nat := headerSize + d.tableLength

/-- The table entry of a part whose code, if it has any, starts at `start`. -/
def partSection (d : Draft) (start : Nat) : Part → Section
  | .explicit s => s
  | .names =>
    { kind := .nameStrings
      permissions := ⟨0x80⟩
      start := UInt64.ofNat d.nameTableStart
      size := d.nameTableSize?.getD (UInt32.ofNat d.nameTable.length)
      nameRef := 0 }
  | .code bytes =>
    { kind := .code
      permissions := ⟨0xA0⟩
      start := UInt64.ofNat start
      size := UInt32.ofNat bytes.length
      nameRef := 0 }

/-- The table entries of parts whose code starts at `start`. -/
def partSections (d : Draft) : Nat → List Part → List Section
  | _, [] => []
  | start, p :: ps => d.partSection start p :: d.partSections (start + p.payload.length) ps

/-- The sections of the image. -/
def sections (d : Draft) : List Section :=
  d.partSections (d.nameTableStart + d.nameTable.length) d.parts

/-- The image. -/
def bytes (d : Draft) : List UInt8 :=
  let size := d.tableSize?.getD (UInt32.ofNat d.tableLength)
  overlay d.header tableSizeOffset (toLittleEndian 4 size.toNat) ++
    d.sections.flatMap Section.encode ++ d.nameTable ++ d.parts.flatMap Part.payload

end Draft

end VmProbe.Image
