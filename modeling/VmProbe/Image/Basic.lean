/-
VmProbe/Image/Basic.lean

Executable images.

An image is a header of a hundred bytes, a table of sections of twenty-two bytes each, and,
when a section of names is present, a table of names right after it.  Numbers are
little-endian.

    0x00  magic            4 bytes
    0x04  version          1 byte
    0x05  mode             1 byte
    0x08  entry address    8 bytes
    0x60  table size       4 bytes, in bytes
    0x64  section table    kind 1, permissions 1, start 8, size 4, name reference 8
    ....  name table       length byte and that many bytes of text, again and again

The other header bytes mean nothing and are kept.  A section's extent is an address range of
the file; the table says nothing about what is there.
-/
import VmProbe.Bytes.Basic

namespace VmProbe.Image

open Bytes (toLittleEndian overlay)

/-- The bytes before the section table. -/
def headerSize : Nat := 100

/-- The bytes of one entry of the section table. -/
def entrySize : Nat := 22

/-- Where the header fields stand. -/
def magicOffset : Nat := 0x00

@[inherit_doc magicOffset] def versionOffset : Nat := 0x04

@[inherit_doc magicOffset] def modeOffset : Nat := 0x05

@[inherit_doc magicOffset] def entryOffset : Nat := 0x08

@[inherit_doc magicOffset] def tableSizeOffset : Nat := 0x60

/-! ### Modes, kinds, permissions -/

/-- How the image was built. -/
inductive Mode
  | release
  | debug
  | other (value : UInt8)
  deriving DecidableEq, Repr

namespace Mode

/-- The mode of a header byte. -/
def ofByte (b : UInt8) : Mode := if b = 1 then release else if b = 2 then debug else other b

/-- The header byte. -/
def toByte : Mode → UInt8
  | release => 1
  | debug => 2
  | other b => b

/-- The name in a report. -/
def name : Mode → String
  | release => "Release"
  | debug => "Debug"
  | other _ => "Unknown"

theorem toByte_ofByte (b : UInt8) : (ofByte b).toByte = b := by
  unfold ofByte
  split
  · next h => exact h.symm
  · split
    · next h => exact h.symm
    · rfl

end Mode

/-- What a section holds. -/
inductive Kind
  | nameStrings
  | metaData
  | debug
  | static
  | global
  | code
  | other (value : UInt8)
  deriving DecidableEq, Repr

namespace Kind

/-- The kind of a table byte. -/
def ofByte (b : UInt8) : Kind :=
  if b = 1 then nameStrings
  else if b = 2 then metaData
  else if b = 3 then debug
  else if b = 4 then static
  else if b = 5 then global
  else if b = 6 then code
  else other b

/-- The table byte. -/
def toByte : Kind → UInt8
  | nameStrings => 1
  | metaData => 2
  | debug => 3
  | static => 4
  | global => 5
  | code => 6
  | other b => b

/-- The name in a report. -/
def name : Kind → String
  | nameStrings => "SEC_NAME_STRINGS"
  | metaData => "SEC_META_DATA"
  | debug => "SEC_DEBUG"
  | static => "SEC_STATIC"
  | global => "SEC_GLOBAL"
  | code => "SEC_CODE"
  | other _ => "Unknown"

theorem toByte_ofByte (b : UInt8) : (ofByte b).toByte = b := by
  unfold ofByte
  repeat' split
  all_goals first
    | rfl
    | (next h => exact h.symm)

end Kind

/-- The permission byte of a section: reading, writing and execution are its three top bits. -/
structure Permissions where
  bits : UInt8
  deriving DecidableEq, Repr

namespace Permissions

/-- Whether the section may be read. -/
def readable (p : Permissions) : Bool := p.bits &&& 0x80 ≠ 0

/-- Whether the section may be written. -/
def writable (p : Permissions) : Bool := p.bits &&& 0x40 ≠ 0

/-- Whether the section may be executed. -/
def executable (p : Permissions) : Bool := p.bits &&& 0x20 ≠ 0

/-- Three letters, with a dash for each permission that is not given. -/
def text (p : Permissions) : String :=
  String.ofList
    [if p.readable then 'r' else '-', if p.writable then 'w' else '-',
      if p.executable then 'x' else '-']

end Permissions

/-! ### Sections and names -/

/-- An entry of the section table. -/
structure Section where
  kind : Kind
  permissions : Permissions
  start : UInt64
  size : UInt32
  /-- A number that refers to the name table in a way that the format leaves open. -/
  nameRef : UInt64
  deriving DecidableEq, Repr

namespace Section

/-- The address after the last byte, or the last address of all when there is none. -/
def stop (s : Section) : Nat := min (s.start.toNat + s.size.toNat) (UInt64.size - 1)

/-- The table entry. -/
def encode (s : Section) : List UInt8 :=
  s.kind.toByte :: s.permissions.bits ::
    (toLittleEndian 8 s.start.toNat ++ toLittleEndian 4 s.size.toNat ++
      toLittleEndian 8 s.nameRef.toNat)

end Section

/-- An entry of the name table. -/
structure NameEntry where
  /-- Where the length byte stands in the file. -/
  offset : Nat
  length : UInt8
  text : String
  deriving DecidableEq, Repr

end VmProbe.Image

namespace VmProbe

open Bytes (toLittleEndian overlay)
open Image

/-- An image with what its header and its tables say. -/
structure Image where
  bytes : List UInt8
  magic : UInt32
  version : UInt8
  mode : Mode
  entry : UInt64
  tableSize : UInt32
  sections : List Section
  names : List NameEntry
  deriving DecidableEq, Repr

namespace Image

/-- The first section of code. -/
def codeSection? (i : Image) : Option Section := i.sections.find? (·.kind = .code)

/-- The header, written from the fields over the bytes that mean nothing. -/
def encodeHeader (i : Image) : List UInt8 :=
  let header := i.bytes.take headerSize
  let header := overlay header magicOffset (toLittleEndian 4 i.magic.toNat)
  let header := overlay header versionOffset [i.version]
  let header := overlay header modeOffset [i.mode.toByte]
  let header := overlay header entryOffset (toLittleEndian 8 i.entry.toNat)
  overlay header tableSizeOffset (toLittleEndian 4 i.tableSize.toNat)

/-- The section table, written from the sections. -/
def encodeTable (i : Image) : List UInt8 := i.sections.flatMap Section.encode

end Image

end VmProbe
