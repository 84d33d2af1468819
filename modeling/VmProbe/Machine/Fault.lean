/-
VmProbe/Machine/Fault.lean

The faults that stop a running program.  The debug server reports a fault as one byte from 20
to 38; the byte and the printed name each determine the fault.
-/
namespace VmProbe.Machine

/-- Why the machine stopped a program. -/
inductive Fault
  | stackOverflow
  | stackUnderflow
  | invalidOpcode
  | invalidRegister
  | invalidType
  | invalidAddressingMode
  | segmentationFault
  | readPermissionDenied
  | writePermissionDenied
  | executePermissionDenied
  | divisionByZero
  | invalidSystemCall
  | heapAllocationFailed
  | invalidJumpTarget
  | instructionPointerOutOfBounds
  | unalignedAccess
  | integerOverflow
  | floatingPointException
  | internalError
  deriving DecidableEq, Repr

namespace Fault

/-- Every fault, in the order of their bytes. -/
def all : List Fault :=
  [stackOverflow, stackUnderflow, invalidOpcode, invalidRegister, invalidType,
    invalidAddressingMode, segmentationFault, readPermissionDenied, writePermissionDenied,
    executePermissionDenied, divisionByZero, invalidSystemCall, heapAllocationFailed,
    invalidJumpTarget, instructionPointerOutOfBounds, unalignedAccess, integerOverflow,
    floatingPointException, internalError]

/-- The byte of a fault. -/
def toByte : Fault → UInt8
  | stackOverflow => 20
  | stackUnderflow => 21
  | invalidOpcode => 22
  | invalidRegister => 23
  | invalidType => 24
  | invalidAddressingMode => 25
  | segmentationFault => 26
  | readPermissionDenied => 27
  | writePermissionDenied => 28
  | executePermissionDenied => 29
  | divisionByZero => 30
  | invalidSystemCall => 31
  | heapAllocationFailed => 32
  | invalidJumpTarget => 33
  | instructionPointerOutOfBounds => 34
  | unalignedAccess => 35
  | integerOverflow => 36
  | floatingPointException => 37
  | internalError => 38

/-- The fault of a byte, if it is one. -/
def ofByte? (b : UInt8) : Option Fault := all.find? (·.toByte = b)

/-- The printed name. -/
def name : Fault → String
  | stackOverflow => "STACK_OVERFLOW"
  | stackUnderflow => "STACK_UNDERFLOW"
  | invalidOpcode => "INVALID_OPCODE"
  | invalidRegister => "INVALID_REGISTER"
  | invalidType => "INVALID_TYPE"
  | invalidAddressingMode => "INVALID_ADDRESSING_MODE"
  | segmentationFault => "SEGMENTATION_FAULT"
  | readPermissionDenied => "READ_PERMISSION_DENIED"
  | writePermissionDenied => "WRITE_PERMISSION_DENIED"
  | executePermissionDenied => "EXECUTE_PERMISSION_DENIED"
  | divisionByZero => "DIVISION_BY_ZERO"
  | invalidSystemCall => "INVALID_SYSTEM_CALL"
  | heapAllocationFailed => "HEAP_ALLOCATION_FAILED"
  | invalidJumpTarget => "INVALID_JUMP_TARGET"
  | instructionPointerOutOfBounds => "INSTRUCTION_POINTER_OUT_OF_BOUNDS"
  | unalignedAccess => "UNALIGNED_ACCESS"
  | integerOverflow => "INTEGER_OVERFLOW"
  | floatingPointException => "FLOATING_POINT_EXCEPTION"
  | internalError => "INTERNAL_ERROR"

theorem ofByte?_toByte (k : Fault) : ofByte? k.toByte = some k := by cases k <;> rfl

end Fault

end VmProbe.Machine
