/-
VmProbe/Wire/Reply.lean

Reply frames: an eight-byte magic number, least significant byte first, the opcode, and what
the opcode calls for.  An error carries its code, and a fault its own byte after that.  Five
opcodes carry the registers, thirty-six entries of an id and eight bytes in any order, and
then whatever the program has printed since the last reply.  Other opcodes carry nothing.

A register block is read entry by entry, so the first id that names no register, or one that
was named before, decides the error.  The writers at the end lay out replies as a server does.
-/
import VmProbe.Machine.Register
import VmProbe.Wire.Request

namespace VmProbe.Wire

open Bytes (toLittleEndian ofLittleEndian)
open Machine (Register Fault)

/-- The magic number of replies. -/
def replyMagic : Nat := 0x4772C3BC657A6921

/-- The bytes of one register in a block. -/
def registerEntryLength : Nat := 9

/-- The bytes of a register block. -/
def registerBlockLength : Nat := Register.count * registerEntryLength

/-- What a reply carries. -/
inductive Payload
  | empty
  /-- Register values in the order of the block, and what the program printed. -/
  | registers (values : List (Register × UInt64)) (console : List UInt8)
  | error (e : ServerError)
  deriving DecidableEq, Repr

/-- An answer of the server. -/
structure Reply where
  opcode : Opcode
  payload : Payload
  deriving DecidableEq, Repr

namespace Reply

/-- The server error in the bytes after the opcode; `length` is that of the whole frame. -/
def parseError (length : Nat) : List UInt8 → Except ProtocolError ServerError
  | [] => .error (.truncated length (headerLength + 1))
  | code :: rest =>
    if code = 1 then .ok .alreadyInSession
    else if code = 2 then .ok .notInSession
    else if code = ServerError.faultCode then
      match rest with
      | [] => .error (.truncated length (headerLength + 2))
      | byte :: _ =>
        match Fault.ofByte? byte with
        | none => .error (.unknownFault byte)
        | some kind => .ok (.fault kind)
    else if code = 4 then .ok .fileFormat
    else if code = 5 then .ok .breakpointAlreadySet
    else if code = 6 then .ok .breakpointNotExisting
    else .error (.unknownErrorCode code)

/-- So many register entries, none of which may name a register in `seen`. -/
def parseEntries (seen : List Register) : Nat → List UInt8 →
    Except ProtocolError (List (Register × UInt64))
  | 0, _ => .ok []
  | count + 1, bytes =>
    let id := bytes.headD 0
    match Register.ofId? id with
    | none => .error (.unknownRegister id)
    | some r =>
      if r ∈ seen then .error (.duplicateRegister id)
      else
        let raw := UInt64.ofNat (ofLittleEndian ((bytes.drop 1).take 8))
        match parseEntries (r :: seen) count (bytes.drop registerEntryLength) with
        | .error e => .error e
        | .ok rest => .ok ((r, raw) :: rest)

/-- What the bytes after the opcode carry; `length` is that of the whole frame. -/
def parsePayload (length : Nat) (opcode : Opcode) (body : List UInt8) :
    Except ProtocolError Payload :=
  if opcode = .error then (parseError length body).map .error
  else if opcode.carriesRegisters then
    if body.length < registerBlockLength then
      .error (.truncated length (headerLength + registerBlockLength))
    else
      (parseEntries [] Register.count body).map (.registers · (body.drop registerBlockLength))
  else .ok .empty

/-- The reply that a frame holds. -/
def parse (frame : List UInt8) : Except ProtocolError Reply :=
  if frame.length < headerLength then .error (.truncated frame.length headerLength)
  else
    let magic := ofLittleEndian (frame.take 8)
    let byte := frame.getD 8 0
    if magic ≠ replyMagic then .error (.badMagic magic)
    else
      match Opcode.ofByte? byte with
      | none => .error (.unknownOpcode byte)
      | some opcode =>
        (parsePayload frame.length opcode (frame.drop headerLength)).map fun payload =>
          ⟨opcode, payload⟩

/-! ### Frames as a server writes them -/

/-- The frame with an opcode byte and the bytes after it. -/
def frame (opcode : UInt8) (body : List UInt8) : List UInt8 :=
  toLittleEndian 8 replyMagic ++ opcode :: body

/-- The frame of an error. -/
def errorFrame (code : UInt8) : List UInt8 := frame Opcode.error.toByte [code]

/-- The frame of a fault. -/
def faultFrame (byte : UInt8) : List UInt8 :=
  frame Opcode.error.toByte [ServerError.faultCode, byte]

/-- The value of the first pair with the id of a register, or zero. -/
def valueFor (values : List (UInt8 × UInt64)) (r : Register) : UInt64 :=
  ((values.find? (·.1 = r.id)).map (·.2)).getD 0

/-- The block entry of a register. -/
def entry (r : Register) (raw : UInt64) : List UInt8 := r.id :: toLittleEndian 8 raw.toNat

/-- The frame with all registers in the order of their ids. -/
def registerFrame (opcode : UInt8) (values : List (UInt8 × UInt64)) (console : List UInt8) :
    List UInt8 :=
  frame opcode (Register.all.flatMap (fun r => entry r (valueFor values r)) ++ console)

end Reply

end VmProbe.Wire
