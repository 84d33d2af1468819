/-
VmProbe/Wire/Request.lean

Request frames: an eight-byte magic number, most significant byte first, the opcode, and for
some requests a body.  A breakpoint request carries an address of eight bytes, a run request
the length of a file in four bytes and the file.  `parse` reads what `encode` writes and
ignores whatever follows it.
-/
import VmProbe.Bytes.Basic
import VmProbe.Wire.Error
import VmProbe.Wire.Opcode

namespace VmProbe.Wire

open Bytes (toLittleEndian ofLittleEndian toBigEndian ofBigEndian)

/-- The bytes before the body of a frame. -/
def headerLength : Nat := 9

/-- The magic number of requests. -/
def requestMagic : Nat := 0x4772C3BC657A693F

/-- What the client asks the server for. -/
inductive Request
  | openSession
  | closeSession
  | getRegisters
  | setBreakpoint (address : UInt64)
  | removeBreakpoint (address : UInt64)
  /-- Load an image and start it. -/
  | run (file : List UInt8)
  | nextInstruction
  | resume
  | stop
  deriving DecidableEq, Repr

namespace Request

/-- The opcode of a request. -/
def opcode : Request → Opcode
  | openSession => .openSession
  | closeSession => .closeSession
  | getRegisters => .getRegisters
  | setBreakpoint _ => .setBreakpoint
  | removeBreakpoint _ => .removeBreakpoint
  | run _ => .run
  | nextInstruction => .nextInstruction
  | resume => .resume
  | stop => .stop

/-- The body of a request; a file must have a length of four bytes. -/
def body : Request → Except ProtocolError (List UInt8)
  | setBreakpoint address => .ok (toLittleEndian 8 address.toNat)
  | removeBreakpoint address => .ok (toLittleEndian 8 address.toNat)
  | run file =>
    if file.length < UInt32.size then .ok (toLittleEndian 4 file.length ++ file)
    else .error (.tooLarge file.length)
  | _ => .ok []

/-- The magic number and the opcode. -/
def header (o : Opcode) : List UInt8 := toBigEndian 8 requestMagic ++ [o.toByte]

/-- The frame of a request. -/
def encode (r : Request) : Except ProtocolError (List UInt8) :=
  r.body.map (header r.opcode ++ ·)

/-- The request with an opcode whose body is at the start of `body`; `length` is that of the
whole frame. -/
def ofBody (length : Nat) (body : List UInt8) : Opcode → Except ProtocolError Request
  | .openSession => .ok .openSession
  | .closeSession => .ok .closeSession
  | .getRegisters => .ok .getRegisters
  | .nextInstruction => .ok .nextInstruction
  | .resume => .ok .resume
  | .stop => .ok .stop
  | .setBreakpoint =>
    if body.length < 8 then .error (.truncated length (headerLength + 8))
    else .ok (.setBreakpoint (UInt64.ofNat (ofLittleEndian (body.take 8))))
  | .removeBreakpoint =>
    if body.length < 8 then .error (.truncated length (headerLength + 8))
    else .ok (.removeBreakpoint (UInt64.ofNat (ofLittleEndian (body.take 8))))
  | .run =>
    if body.length < 4 then .error (.truncated length (headerLength + 4))
    else
      let size := ofLittleEndian (body.take 4)
      let rest := body.drop 4
      if rest.length < size then .error (.truncated length (headerLength + 4 + size))
      else .ok (.run (rest.take size))
  | .error => .error (.unknownOpcode Opcode.error.toByte)
  | .executionFinished => .error (.unknownOpcode Opcode.executionFinished.toByte)

/-- The request that a frame holds, as a server reads it. -/
def parse (frame : List UInt8) : Except ProtocolError Request :=
  if frame.length < headerLength then .error (.truncated frame.length headerLength)
  else
    let magic := ofBigEndian (frame.take 8)
    let byte := frame.getD 8 0
    if magic ≠ requestMagic then .error (.badMagic magic)
    else
      match Opcode.ofByte? byte with
      | none => .error (.unknownOpcode byte)
      | some opcode => ofBody frame.length (frame.drop headerLength) opcode

end Request

end VmProbe.Wire
