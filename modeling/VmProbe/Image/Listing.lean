/-
VmProbe/Image/Listing.lean

What an image shows: its metadata as a document, and its code as a listing.

The document has the header fields and both tables, and leaves out the bytes; a mode or a kind
without a name is an object that holds its byte.  The listing is that of the first section of code,
decoded with the machine's own instruction set.
-/
import VmProbe.Image.Read
import VmProbe.Isa.Listing
import VmProbe.Isa.Standard
import VmProbe.Text.Json

namespace VmProbe.Image

open Text (Json)

/-! ### The document -/

/-- The name, or an object that holds the unknown byte. -/
def Mode.toJson : Mode → Json
  | other b => .object [("Unknown", .number b.toNat)]
  | m => .string m.name

/-- The name in JSON, or an object that holds the unknown byte. -/
def Kind.toJson : Kind → Json
  | nameStrings => .string "NameStrings"
  | metaData => .string "MetaData"
  | debug => .string "Debug"
  | static => .string "Static"
  | global => .string "Global"
  | code => .string "Code"
  | other b => .object [("Unknown", .number b.toNat)]

/-- The section as a JSON object. -/
def Section.toJson (s : Section) : Json :=
  .object
    [("kind", s.kind.toJson), ("perms", .number s.permissions.bits.toNat),
      ("start_addr", .number s.start.toNat), ("size", .number s.size.toNat),
      ("name_ref", .number s.nameRef.toNat)]

/-- The name as a JSON object. -/
def NameEntry.toJson (n : NameEntry) : Json :=
  .object [("offset", .number n.offset), ("length", .number n.length.toNat),
    ("text", .string n.text)]

/-- The fields and tables as a JSON object, without the bytes. -/
def toJson (i : Image) : Json :=
  .object
    [("magic", .number i.magic.toNat), ("version", .number i.version.toNat),
      ("mode", i.mode.toJson), ("entry_address", .number i.entry.toNat),
      ("section_table_size", .number i.tableSize.toNat),
      ("sections", .array (i.sections.map Section.toJson)),
      ("section_names", .array (i.names.map NameEntry.toJson))]

/-! ### The listing -/

/-- The lines of the first section of code. -/
def disassemble (i : Image) : Except Isa.DecodeError (List Isa.Line) :=
  match i.codeSection? with
  | none => .error .missingCodeSection
  | some s => Isa.decode Isa.standard i.bytes s.start.toNat s.stop

end VmProbe.Image
