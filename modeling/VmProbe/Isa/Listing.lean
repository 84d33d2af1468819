/-
VmProbe/Isa/Listing.lean

Listings: code bytes as lines of text.

`decode catalog bytes start stop` reads the instructions of `bytes[start, stop)` one after
another.  It works on what is left of the code, so an instruction can only see bytes between
its own address and the end; the end is `stop` or the end of the bytes, whichever comes
first (`limit`).  Operands are read in order, and each is complete before it is looked at, so
the first thing wrong with an instruction decides the error.  A line's text is the mnemonic,
the type of the opcode if it has one, and the operands, with one blank after each; its size is
what was read.
-/
import VmProbe.Bytes.Basic
import VmProbe.Floating.Shortest
import VmProbe.Isa.Catalog
import VmProbe.Machine.Register
import VmProbe.Text.Json

namespace VmProbe.Isa

open Machine (Register TypeTag)
open Bytes (ofLittleEndian)

/-- Why code has no listing. -/
inductive DecodeError
  | missingCodeSection
  | unknownOpcode (opcode : UInt8) (address : Nat)
  | unknownTypeTag (tag : UInt8) (address : Nat)
  | unknownSelector (selector : UInt8) (address : Nat)
  | overrun (address stop limit : Nat)
  deriving DecidableEq, Repr

namespace DecodeError

/-- The message for a person. -/
def message : DecodeError → String
  | missingCodeSection => "image has no code section"
  | unknownOpcode opcode address =>
    "unknown opcode " ++ Text.hexByte opcode ++ " at " ++ Text.hex address
  | unknownTypeTag tag address =>
    "unknown type tag " ++ Text.hexByte tag ++ " in instruction at " ++ Text.hex address
  | unknownSelector selector address =>
    "unknown register offset layout " ++ Text.hexByte selector ++ " in instruction at " ++
      Text.hex address
  | overrun address stop limit =>
    "instruction at " ++ Text.hex address ++ " runs to " ++ Text.hex stop ++
      ", past the end of the code at " ++ Text.hex limit

end DecodeError

/-! ### Operands -/

/-- What is wrong with the bytes of a complete operand. -/
inductive OperandError
  | unknownTypeTag (tag : UInt8)
  | unknownSelector (selector : UInt8)
  deriving DecidableEq, Repr

/-- The same fault, in the instruction at an address. -/
def OperandError.inInstruction (address : Nat) : OperandError → DecodeError
  | unknownTypeTag tag => .unknownTypeTag tag address
  | unknownSelector selector => .unknownSelector selector address

/-- The name of a register, or a question mark and the id of one that does not exist. -/
def registerText (id : UInt8) : String :=
  match Register.ofId? id with
  | some r => r.name
  | none => "?" ++ Text.hexByte id

/-- The name of the type that a tag byte selects. -/
def tagText (tag : UInt8) : Except OperandError String :=
  match TypeTag.ofByte? tag with
  | some t => .ok t.name
  | none => .error (.unknownTypeTag tag)

/-- The layouts of a register offset. -/
inductive OffsetLayout
  /-- The register alone. -/
  | bare
  /-- A 32-bit displacement, added or subtracted. -/
  | displaced (negative : Bool)
  /-- A second register times a 16-bit scale, added or subtracted. -/
  | indexed (negative : Bool)
  deriving DecidableEq, Repr

/-- The layout that a selector byte announces. -/
def OffsetLayout.ofSelector? (selector : UInt8) : Option OffsetLayout :=
  if selector = 0x4F then some bare
  else if selector = 0x2F then some (displaced false)
  else if selector = 0xAF then some (displaced true)
  else if selector = 0x1F then some (indexed false)
  else if selector = 0x8F then some (indexed true)
  else none

/-- The sign between two terms. -/
def signText (negative : Bool) : String := if negative then " - " else " + "

/-- The text of a register offset from its six bytes: selector, base register, and then a
displacement of four bytes, or an index register and a scale of two. -/
def registerOffsetText (bytes : List UInt8) : Except OperandError String :=
  let selector := bytes.headD 0
  let base := registerText (bytes.getD 1 0)
  match OffsetLayout.ofSelector? selector with
  | none => .error (.unknownSelector selector)
  | some .bare => .ok ("[" ++ base ++ "]")
  | some (.displaced negative) =>
    .ok ("[" ++ base ++ signText negative ++ toString (ofLittleEndian (bytes.drop 2)) ++ "]")
  | some (.indexed negative) =>
    .ok ("[" ++ base ++ signText negative ++ registerText (bytes.getD 2 0) ++ " * " ++
      toString (ofLittleEndian ((bytes.drop 3).take 2)) ++ "]")

/-- How many bytes are read for an operand.  A number whose width no type has is read as one
of eight bytes. -/
def Operand.extent : Operand → Nat
  | .int width => if width = 1 ∨ width = 2 ∨ width = 4 then width else 8
  | .float width => if width = 4 then 4 else 8
  | .codeAddress => 8
  | .registerOffset => 6
  | .intTypeTag => 1
  | .floatTypeTag => 1
  | .intRegister => 1
  | .floatRegister => 1

/-- The text of an operand from exactly its own bytes. -/
def Operand.text (bytes : List UInt8) : Operand → Except OperandError String
  | .int _ => .ok (toString (ofLittleEndian bytes))
  | .codeAddress => .ok (toString (ofLittleEndian bytes))
  | .float width =>
    .ok ((if width = 4 then Floating.binary32 else Floating.binary64).text (ofLittleEndian bytes))
  | .intTypeTag => tagText (bytes.headD 0)
  | .floatTypeTag => tagText (bytes.headD 0)
  | .intRegister => .ok (registerText (bytes.headD 0))
  | .floatRegister => .ok (registerText (bytes.headD 0))
  | .registerOffset => registerOffsetText bytes

/-! ### Lines -/

/-- One decoded instruction. -/
structure Line where
  address : Nat
  text : String
  size : Nat
  deriving DecidableEq, Repr

/-- The text of the operands of the instruction at `address`, from the bytes at `position`,
and the position after them. -/
def readOperands (address limit : Nat) : Nat → List Operand → List UInt8 →
    Except DecodeError (String × Nat)
  | position, [], _ => .ok ("", position)
  | position, o :: os, rest =>
    if rest.length < o.extent then .error (.overrun address (position + o.extent) limit)
    else
      match o.text (rest.take o.extent) with
      | .error e => .error (e.inInstruction address)
      | .ok text =>
        match readOperands address limit (position + o.extent) os (rest.drop o.extent) with
        | .error e => .error e
        | .ok (more, stop) => .ok (text ++ " " ++ more, stop)

/-- The mnemonic and the type of the opcode, with a blank after each. -/
def Instruction.heading (i : Instruction) : String := i.text ++ " "

/-- The line at `address`, from the opcode and the bytes after it. -/
def decodeOne (catalog : Catalog) (address limit : Nat) (opcode : UInt8) (rest : List UInt8) :
    Except DecodeError Line :=
  match catalog.get? opcode with
  | none => .error (.unknownOpcode opcode address)
  | some i =>
    match readOperands address limit (address + 1) i.operands rest with
    | .error e => .error e
    | .ok (text, stop) => .ok ⟨address, i.heading ++ text, stop - address⟩

/-- The lines from `address` to `stop`, from the bytes left before the limit. -/
def decodeFrom (catalog : Catalog) (limit stop address : Nat) (rest : List UInt8) :
    Except DecodeError (List Line) :=
  if address < stop then
    match rest with
    | [] => .error (.overrun address (address + 1) limit)
    | opcode :: operands =>
      match decodeOne catalog address limit opcode operands with
      | .error e => .error e
      | .ok line =>
        match decodeFrom catalog limit stop (address + line.size)
            (operands.drop (line.size - 1)) with
        | .error e => .error e
        | .ok lines => .ok (line :: lines)
  else .ok []
termination_by rest.length
decreasing_by
  simp only [List.length_drop, List.length_cons]
  omega

/-- The listing of `bytes[start, stop)`. -/
def decode (catalog : Catalog) (bytes : List UInt8) (start stop : Nat) :
    Except DecodeError (List Line) :=
  let limit := min stop bytes.length
  decodeFrom catalog limit stop start ((bytes.take limit).drop start)

/-- A line as a JSON object. -/
def Line.toJson (l : Line) : Text.Json :=
  .object [("address", .number l.address), ("text", .string l.text), ("size", .number l.size)]

end VmProbe.Isa
