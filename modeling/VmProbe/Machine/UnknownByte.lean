/-
VmProbe/Machine/UnknownByte.lean

A byte that should name one of finitely many things and names none of them.
-/
import VmProbe.Text.Hex
import VmProbe.Machine.Fault
import VmProbe.Machine.TypeTag

namespace VmProbe.Machine

/-- What a byte was supposed to name. -/
inductive ByteMeaning
  | typeTag
  | fault
  | opcode
  deriving DecidableEq, Repr

/-- A byte without a meaning. -/
structure UnknownByte where
  meaning : ByteMeaning
  value : UInt8
  deriving DecidableEq, Repr

namespace UnknownByte

/-- The words for what was expected. -/
def expectation : ByteMeaning → String
  | .typeTag => "type tag"
  | .fault => "runtime error"
  | .opcode => "opcode"

/-- The message for a person. -/
def message (u : UnknownByte) : String :=
  "unknown " ++ expectation u.meaning ++ " " ++ Text.hexByte u.value

end UnknownByte

/-- The tag of a byte, or what is wrong with it. -/
def TypeTag.read (b : UInt8) : Except UnknownByte TypeTag :=
  match TypeTag.ofByte? b with
  | some t => .ok t
  | none => .error ⟨.typeTag, b⟩

/-- The fault of a byte, or what is wrong with it. -/
def Fault.read (b : UInt8) : Except UnknownByte Fault :=
  match Fault.ofByte? b with
  | some k => .ok k
  | none => .error ⟨.fault, b⟩

end VmProbe.Machine
