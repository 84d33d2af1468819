/-
VmProbe/Wire/Opcode.lean

The opcodes of the debug protocol.  Every frame carries one, after its magic number; a reply
uses the opcode to say what it answers and whether registers follow.
-/
import VmProbe.Machine.UnknownByte

namespace VmProbe.Wire

open Machine (UnknownByte)

/-- What a frame is about. -/
inductive Opcode
  | openSession
  | closeSession
  | getRegisters
  | setBreakpoint
  | removeBreakpoint
  | run
  | nextInstruction
  | resume
  | stop
  | error
  | executionFinished
  deriving DecidableEq, Repr

namespace Opcode

/-- Every opcode, in the order of their bytes. -/
def all : List Opcode :=
  [openSession, closeSession, getRegisters, setBreakpoint, removeBreakpoint, run,
    nextInstruction, resume, stop, error, executionFinished]

/-- The byte in a frame. -/
def toByte : Opcode → UInt8
  | openSession => 0x01
  | closeSession => 0x02
  | getRegisters => 0x10
  | setBreakpoint => 0xB0
  | removeBreakpoint => 0xB1
  | run => 0xE0
  | nextInstruction => 0xE1
  | resume => 0xE2
  | stop => 0xE3
  | error => 0xEE
  | executionFinished => 0xFF

/-- The opcode of a byte, if it is one. -/
def ofByte? (b : UInt8) : Option Opcode := all.find? (·.toByte = b)

/-- The opcode of a byte, or what is wrong with it. -/
def read (b : UInt8) : Except UnknownByte Opcode :=
  match ofByte? b with
  | some o => .ok o
  | none => .error ⟨.opcode, b⟩

/-- The printed name. -/
def name : Opcode → String
  | openSession => "OPEN_SESSION"
  | closeSession => "CLOSE_SESSION"
  | getRegisters => "GET_REGISTERS"
  | setBreakpoint => "SET_BREAKPOINT"
  | removeBreakpoint => "REMOVE_BREAKPOINT"
  | run => "RUN"
  | nextInstruction => "NEXT_INSTRUCTION"
  | resume => "CONTINUE"
  | stop => "STOP"
  | error => "ERROR"
  | executionFinished => "EXECUTION_FINISHED"

/-- Whether a reply with this opcode carries the registers. -/
def carriesRegisters : Opcode → Bool
  | getRegisters => true
  | run => true
  | nextInstruction => true
  | resume => true
  | executionFinished => true
  | _ => false

theorem ofByte?_toByte (o : Opcode) : ofByte? o.toByte = some o := by cases o <;> rfl

theorem toByte_of_ofByte? {b : UInt8} {o : Opcode} (h : ofByte? b = some o) : o.toByte = b := by
  simpa using List.find?_some h

end Opcode

end VmProbe.Wire
