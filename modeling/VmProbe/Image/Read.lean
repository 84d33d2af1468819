/-
VmProbe/Image/Read.lean

Reading an image.  The fields are read in the order in which they stand in the file, and the
first one that the file does not hold, or that is not as it should be, decides the error; so
a result is a complete image or nothing.

The last section of names gives the size of the name table.  Its entries must fill it exactly:
an entry that would end after it is refused before its text is looked at.
-/
import VmProbe.Image.Basic
import VmProbe.Text.Hex
import VmProbe.Text.Utf8

namespace VmProbe.Image

open Bytes (ofLittleEndian slice?)

/-- The fields of the file, as an error names them. -/
inductive Field
  | magic
  | version
  | mode
  | entryAddress
  | tableSize
  | sectionKind
  | sectionPermissions
  | sectionStart
  | sectionSize
  | sectionNameRef
  | nameLength
  | nameText
  deriving DecidableEq, Repr

/-- The words for a field. -/
def Field.name : Field → String
  | magic => "magic"
  | version => "version"
  | mode => "mode"
  | entryAddress => "entry address"
  | tableSize => "section table size"
  | sectionKind => "section type"
  | sectionPermissions => "section permissions"
  | sectionStart => "section start address"
  | sectionSize => "section size"
  | sectionNameRef => "section name reference"
  | nameLength => "section name length"
  | nameText => "section name"

/-- Why bytes are no image. -/
inductive FormatError
  | truncated (field : Field) (offset needed available : Nat)
  | unevenTable (size : UInt32)
  | nameOverrun (offset stop : Nat)
  | invalidName (offset : Nat)
  deriving DecidableEq, Repr

namespace FormatError

/-- The message for a person. -/
def message : FormatError → String
  | truncated field offset needed available =>
    "image truncated reading " ++ field.name ++ " at " ++ Text.hex offset ++ ": need " ++
      toString needed ++ " bytes, " ++ toString available ++ " available"
  | unevenTable size =>
    "section table size " ++ Text.hex size.toNat ++
      " is not a multiple of the section entry size"
  | nameOverrun offset stop =>
    "section name at " ++ Text.hex offset ++ " overruns the name table ending at " ++
      Text.hex stop
  | invalidName offset => "section name at " ++ Text.hex offset ++ " is not valid UTF-8"

end FormatError

/-- The bytes of a field. -/
def readField (bytes : List UInt8) (field : Field) (offset width : Nat) :
    Except FormatError (List UInt8) :=
  match slice? bytes offset width with
  | some bs => .ok bs
  | none => .error (.truncated field offset width (bytes.length - offset))

/-- The number in a field. -/
def readNumber (bytes : List UInt8) (field : Field) (offset width : Nat) :
    Except FormatError Nat :=
  (readField bytes field offset width).map ofLittleEndian

/-- The section table entry at an offset. -/
def readSection (bytes : List UInt8) (offset : Nat) : Except FormatError Section := do
  let kind ← readNumber bytes .sectionKind offset 1
  let permissions ← readNumber bytes .sectionPermissions (offset + 1) 1
  let start ← readNumber bytes .sectionStart (offset + 2) 8
  let size ← readNumber bytes .sectionSize (offset + 10) 4
  let nameRef ← readNumber bytes .sectionNameRef (offset + 14) 8
  return {
    kind := .ofByte (UInt8.ofNat kind)
    permissions := ⟨UInt8.ofNat permissions⟩
    start := UInt64.ofNat start
    size := UInt32.ofNat size
    nameRef := UInt64.ofNat nameRef }

/-- So many section table entries from an offset on. -/
def readSections (bytes : List UInt8) : Nat → Nat → Except FormatError (List Section)
  | 0, _ => .ok []
  | count + 1, offset => do
    let s ← readSection bytes offset
    let rest ← readSections bytes count (offset + entrySize)
    return s :: rest

/-- The size of the name table: that of the last section of names, if there is one. -/
def nameTableSize? (sections : List Section) : Option Nat :=
  (sections.reverse.find? (·.kind = .nameStrings)).map (·.size.toNat)

/-- The entries of the name table from `offset` to `stop`. -/
def readNames (bytes : List UInt8) (stop offset : Nat) : Except FormatError (List NameEntry) :=
  if offset < stop then
    match readNumber bytes .nameLength offset 1 with
    | .error e => .error e
    | .ok length =>
      if stop < offset + 1 + length then .error (.nameOverrun offset stop)
      else
        match readField bytes .nameText (offset + 1) length with
        | .error e => .error e
        | .ok raw =>
          match Text.decode? raw with
          | none => .error (.invalidName offset)
          | some text =>
            match readNames bytes stop (offset + 1 + length) with
            | .error e => .error e
            | .ok rest => .ok (⟨offset, UInt8.ofNat length, text⟩ :: rest)
  else .ok []
termination_by stop - offset

/-- The name table that the sections announce, right after the section table. -/
def readNameTable (bytes : List UInt8) (sections : List Section) (offset : Nat) :
    Except FormatError (List NameEntry) :=
  match nameTableSize? sections with
  | none => .ok []
  | some size => readNames bytes (offset + size) offset

/-- The image that the bytes hold. -/
def parse (bytes : List UInt8) : Except FormatError Image := do
  let magic ← readNumber bytes .magic magicOffset 4
  let version ← readNumber bytes .version versionOffset 1
  let mode ← readNumber bytes .mode modeOffset 1
  let entry ← readNumber bytes .entryAddress entryOffset 8
  let tableSize ← readNumber bytes .tableSize tableSizeOffset 4
  if tableSize % entrySize ≠ 0 then
    throw (.unevenTable (UInt32.ofNat tableSize))
  let sections ← readSections bytes (tableSize / entrySize) headerSize
  let names ← readNameTable bytes sections (headerSize + tableSize)
  return {
    bytes
    magic := UInt32.ofNat magic
    version := UInt8.ofNat version
    mode := .ofByte (UInt8.ofNat mode)
    entry := UInt64.ofNat entry
    tableSize := UInt32.ofNat tableSize
    sections
    names }

end VmProbe.Image
