/-
VmProbe/Isa/Shape.lean

The instruction set as a table.  A mnemonic has several shapes; a shape lists its parameters
and either stands for one opcode or, when it has variants, for one opcode per variant with
its immediate narrowed to the variant's type.
-/
import VmProbe.Machine.TypeTag

namespace VmProbe.Isa

open Machine (TypeTag)

/-- A parameter as the table writes it, before a type is chosen. -/
inductive Param
  | intType
  | floatType
  | int
  | float
  | intReg
  | floatReg
  | label
  | regOffset
  | sysId
  deriving DecidableEq, Repr

/-- One typed form of a shape. -/
structure Variant where
  tag : TypeTag
  opcode : UInt8
  deriving DecidableEq, Repr

/-- One form of a mnemonic. -/
structure Shape where
  opcode : UInt8
  /-- Whether a type parameter appears as a byte in the code. -/
  encodesType : Bool
  params : List Param
  variants : List Variant
  deriving DecidableEq, Repr

/-- A mnemonic with its shapes. -/
structure Mnemonic where
  name : String
  shapes : List Shape
  deriving DecidableEq, Repr

/-- A shape that stands for its own opcode. -/
def Shape.plain (opcode : UInt8) (encodesType : Bool) (params : List Param) : Shape :=
  ⟨opcode, encodesType, params, []⟩

/-- A shape with one opcode per integer type. -/
def Shape.perInt (i8 i16 i32 i64 : UInt8) (params : List Param) : Shape :=
  ⟨i8, false, params, [⟨.i8, i8⟩, ⟨.i16, i16⟩, ⟨.i32, i32⟩, ⟨.i64, i64⟩]⟩

/-- A shape with one opcode per floating-point type. -/
def Shape.perFloat (f32 f64 : UInt8) (params : List Param) : Shape :=
  ⟨f32, false, params, [⟨.f32, f32⟩, ⟨.f64, f64⟩]⟩

end VmProbe.Isa
