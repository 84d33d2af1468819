/-
VmProbe/Isa/Instruction.lean

One instruction as the code holds it: the opcode byte and the operands that follow, each of a
fixed width.
-/
import VmProbe.Machine.TypeTag

namespace VmProbe.Isa

open Machine (TypeTag)

/-- An operand in the code. -/
inductive Operand
  /-- An unsigned number of so many bytes. -/
  | int (width : Nat)
  /-- A floating-point number of four or eight bytes. -/
  | float (width : Nat)
  /-- An absolute code address. -/
  | codeAddress
  | intTypeTag
  | floatTypeTag
  /-- A memory address relative to a register, in one of five layouts. -/
  | registerOffset
  | intRegister
  | floatRegister
  deriving DecidableEq, Repr

namespace Operand

/-- The bytes that the operand takes. -/
def width : Operand → Nat
  | int w => w
  | float w => w
  | codeAddress => 8
  | registerOffset => 6
  | intTypeTag => 1
  | floatTypeTag => 1
  | intRegister => 1
  | floatRegister => 1

end Operand

/-- The form of the instruction that an opcode selects. -/
structure Instruction where
  opcode : UInt8
  mnemonic : String
  operands : List Operand
  /-- The type that the opcode was expanded for. -/
  suffix : Option TypeTag
  deriving DecidableEq, Repr

/-- The bytes of operands that follow each other. -/
def totalWidth : List Operand → Nat
  | [] => 0
  | o :: os => o.width + totalWidth os

namespace Instruction

/-- The bytes after the opcode. -/
def operandWidth (i : Instruction) : Nat := totalWidth i.operands

/-- The bytes of the whole instruction. -/
def width (i : Instruction) : Nat := 1 + i.operandWidth

/-- The mnemonic with its type. -/
def text (i : Instruction) : String :=
  match i.suffix with
  | none => i.mnemonic
  | some tag => i.mnemonic ++ " " ++ tag.name

end Instruction

end VmProbe.Isa
