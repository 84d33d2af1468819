/-
VmProbe/Machine/TypeTag.lean

Inline type tags.  An instruction that works on several widths carries one byte that says
which; the six known bytes are the tags.
-/
namespace VmProbe.Machine

/-- The type that an inline tag selects. -/
inductive TypeTag
  | i8
  | i16
  | i32
  | i64
  | f32
  | f64
  deriving DecidableEq, Repr

namespace TypeTag

/-- Every tag. -/
def all : List TypeTag := [i8, i16, i32, i64, f32, f64]

/-- The byte of a tag. -/
def toByte : TypeTag → UInt8
  | i8 => 0x01
  | i16 => 0x02
  | i32 => 0x03
  | i64 => 0x04
  | f32 => 0xF0
  | f64 => 0xF1

/-- The tag of a byte, if it is one. -/
def ofByte? (b : UInt8) : Option TypeTag := all.find? (·.toByte = b)

/-- The name of the type in listings. -/
def name : TypeTag → String
  | i8 => "i8"
  | i16 => "i16"
  | i32 => "i32"
  | i64 => "i64"
  | f32 => "f32"
  | f64 => "f64"

/-- The bytes that a value of the type takes. -/
def width : TypeTag → Nat
  | i8 => 1
  | i16 => 2
  | i32 => 4
  | i64 => 8
  | f32 => 4
  | f64 => 8

/-- Whether the type is a floating-point type. -/
def isFloat : TypeTag → Bool
  | f32 => true
  | f64 => true
  | _ => false

theorem ofByte?_toByte (t : TypeTag) : ofByte? t.toByte = some t := by cases t <;> rfl

end TypeTag

end VmProbe.Machine
