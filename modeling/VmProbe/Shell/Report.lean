/-
VmProbe/Shell/Report.lean

What the program prints, as text: an image, a listing, the registers, the breakpoints and the
events of a client.

Everything but the output of a debugged program is made of whole lines; that output is printed
as it is.
-/
import VmProbe.Client.Basic
import VmProbe.Image.Listing

namespace VmProbe.Shell

open Client (Event)
open Machine (Bank Register)

/-! ### Layout -/

/-- Lines as one text. -/
def unlines (lines : List String) : String := String.join (lines.map (· ++ "\n"))

/-- A text with blanks after it, up to a width. -/
def padRight (width : Nat) (s : String) : String :=
  s ++ String.ofList (List.replicate (width - s.length) ' ')

/-- A text with blanks before it, up to a width. -/
def padLeft (width : Nat) (s : String) : String :=
  String.ofList (List.replicate (width - s.length) ' ') ++ s

/-- An address with something beside it. -/
def addressed (address : Nat) (text : String) : String := Text.address address ++ "  " ++ text

/-! ### Images -/

/-- A row of the section table. -/
def sectionRow (kind permissions start size name : String) : String :=
  " ".intercalate
    [padRight 18 kind, padRight 5 permissions, padRight 18 start, padLeft 10 size,
      padRight 18 name]

/-- A section in the table. -/
def sectionLine (s : Image.Section) : String :=
  sectionRow s.kind.name s.permissions.text (Text.address s.start.toNat)
    (toString s.size.toNat) (Text.address s.nameRef.toNat)

/-- The header, the section table and the names of an image. -/
def imageLines (i : Image) : List String :=
  ["magic:    0x" ++ String.ofList (Text.fixedHexDigits .upper 8 i.magic.toNat),
    "version:  " ++ toString i.version.toNat,
    "mode:     " ++ i.mode.name,
    "entry:    " ++ Text.address i.entry.toNat,
    "",
    sectionRow "type" "perms" "start" "size" "name"] ++
  i.sections.map sectionLine ++
  (if i.names.isEmpty then []
    else "" :: i.names.map fun n => addressed n.offset n.text)

/-- An image as text, or as JSON. -/
def imageText (json : Bool) (i : Image) : String :=
  if json then i.toJson.pretty ++ "\n" else unlines (imageLines i)

/-- A listing as text, or as JSON. -/
def listingText (json : Bool) (lines : List Isa.Line) : String :=
  if json then (Text.Json.array (lines.map Isa.Line.toJson)).pretty ++ "\n"
  else unlines (lines.map fun l => addressed l.address l.text)

/-! ### The client -/

/-- A register with its pattern and its value. -/
def registerLine (bank : Bank) (r : Register) : String :=
  padRight 4 r.name ++ " " ++ Text.address (bank.get r).raw.toNat ++ "  " ++ (bank.value r).text

/-- The registers, those marked that the last update changed, and the flags. -/
def registerLines (bank : Bank) : List String :=
  (Register.all.map fun r =>
    (if (bank.get r).changed then "* " else "  ") ++ registerLine bank r) ++
  ["  flags " ++ bank.flags.text]

/-- The registers that the last update changed. -/
def changedLines (bank : Bank) : List String :=
  (Register.all.filter fun r => (bank.get r).changed).map fun r => "  " ++ registerLine bank r

/-- The breakpoints, one address a line. -/
def breakpointLines (c : Client) : List String :=
  c.breakpoints.addresses.map fun a => Text.address a.toNat

/-- The listing of the loaded image; the line to be executed next and the breakpoints are
marked. -/
def programLines (c : Client) : List String :=
  match c.loaded with
  | none => ["no image loaded"]
  | some l =>
    l.lines.zipIdx.map fun (line, i) =>
      (if c.currentLine? = some i then ">" else " ") ++
      (if c.breakpoints.addresses.any (·.toNat = line.address) then "*" else " ") ++
      " " ++ addressed line.address line.text

/-! ### Events -/

/-- What is printed for an event. -/
def eventText : Event → String
  | .status line => line ++ "\n"
  | .output text => text
  | .phase p => "[session " ++ p.text ++ "]\n"
  | .loaded entry lines =>
    "loaded image with " ++ toString lines ++ " instructions, entry " ++
      Text.address entry.toNat ++ "\n"
  | .registers bank => unlines (changedLines bank)
  | .breakpoints _ => ""

/-- What is printed for the events that led from one client to a later one. -/
def eventsText (before after : Client) : String :=
  String.join ((after.published.drop before.published.length).map eventText)

end VmProbe.Shell
