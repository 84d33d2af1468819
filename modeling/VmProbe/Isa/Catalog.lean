/-
VmProbe/Isa/Catalog.lean

The catalog: the instructions that a table expands to, found by opcode.

A table expands in its own order, one instruction per shape or per variant of a shape
(`Mnemonic.expansions`).  An expansion fails when an immediate without a width has no variant
to take it from, or one of the wrong kind.  A catalog is built from the expansions one by one
and refuses an opcode that an earlier one has taken; so its opcodes are distinct, which the
type records.
-/
import VmProbe.Isa.Instruction
import VmProbe.Isa.Shape
import VmProbe.Text.Hex

namespace VmProbe.Isa

open Machine (TypeTag)

/-- Why a table is no instruction set. -/
inductive CatalogError
  | duplicateOpcode (opcode : UInt8) (mnemonic existing : String)
  | unresolvedGeneric (mnemonic : String) (opcode : UInt8)
  | variantMismatch (mnemonic : String) (opcode : UInt8) (tag : TypeTag)
  deriving DecidableEq, Repr

namespace CatalogError

/-- The message for a person. -/
def message : CatalogError → String
  | duplicateOpcode opcode mnemonic existing =>
    "opcode " ++ Text.hexByte opcode ++ " of " ++ mnemonic ++ " is already taken by " ++ existing
  | unresolvedGeneric mnemonic opcode =>
    mnemonic ++ " (" ++ Text.hexByte opcode ++
      ") has a generic immediate but no type variants"
  | variantMismatch mnemonic opcode tag =>
    mnemonic ++ " variant " ++ tag.name ++ " (" ++ Text.hexByte opcode ++
      ") does not fit its generic immediate"

end CatalogError

/-! ### Expansion -/

/-- Why a parameter has no operand. -/
inductive ParamError
  | unresolved
  | mismatch (tag : TypeTag)
  deriving DecidableEq, Repr

/-- The operands of a parameter: none for a type that is not written into the code. -/
def Param.operands (encodesType : Bool) (variant : Option TypeTag) :
    Param → Except ParamError (List Operand)
  | .intType => .ok (if encodesType then [.intTypeTag] else [])
  | .floatType => .ok (if encodesType then [.floatTypeTag] else [])
  | .int =>
    match variant with
    | none => .error .unresolved
    | some tag => if tag.isFloat then .error (.mismatch tag) else .ok [.int tag.width]
  | .float =>
    match variant with
    | none => .error .unresolved
    | some tag => if tag.isFloat then .ok [.float tag.width] else .error (.mismatch tag)
  | .intReg => .ok [.intRegister]
  | .floatReg => .ok [.floatRegister]
  | .label => .ok [.codeAddress]
  | .regOffset => .ok [.registerOffset]
  | .sysId => .ok [.int 1]

/-- The operands of a list of parameters; the first fault wins. -/
def Param.allOperands (encodesType : Bool) (variant : Option TypeTag) :
    List Param → Except ParamError (List Operand)
  | [] => .ok []
  | p :: ps =>
    match p.operands encodesType variant with
    | .error e => .error e
    | .ok os =>
      match allOperands encodesType variant ps with
      | .error e => .error e
      | .ok rest => .ok (os ++ rest)

/-- The instruction of a shape under an opcode, typed if a variant is given. -/
def Shape.expand (mnemonic : String) (shape : Shape) (opcode : UInt8)
    (variant : Option TypeTag) : Except CatalogError Instruction :=
  match Param.allOperands shape.encodesType variant shape.params with
  | .ok operands => .ok ⟨opcode, mnemonic, operands, variant⟩
  | .error .unresolved => .error (.unresolvedGeneric mnemonic opcode)
  | .error (.mismatch tag) => .error (.variantMismatch mnemonic opcode tag)

/-- The expansions of a shape: itself, or one for each variant. -/
def Shape.expansions (mnemonic : String) (shape : Shape) :
    List (Except CatalogError Instruction) :=
  match shape.variants with
  | [] => [shape.expand mnemonic shape.opcode none]
  | variants => variants.map fun v => shape.expand mnemonic v.opcode (some v.tag)

/-- The expansions of a mnemonic, shape by shape. -/
def Mnemonic.expansions (m : Mnemonic) : List (Except CatalogError Instruction) :=
  m.shapes.flatMap (Shape.expansions m.name)

/-! ### Catalogs -/

/-- Instructions with distinct opcodes, in the order of their table. -/
structure Catalog where
  entries : List Instruction
  distinct : entries.Pairwise (·.opcode ≠ ·.opcode) := by simp

namespace Catalog

/-- The catalog without instructions. -/
def empty : Catalog where
  entries := []

/-- The instruction with an opcode. -/
def get? (c : Catalog) (opcode : UInt8) : Option Instruction :=
  c.entries.find? (·.opcode = opcode)

/-- How many instructions there are. -/
def size (c : Catalog) : Nat := c.entries.length

/-- Whether there are none. -/
def isEmpty (c : Catalog) : Bool := c.entries.isEmpty

/-- The instructions in the order of their opcodes. -/
def instructions (c : Catalog) : List Instruction :=
  c.entries.mergeSort fun a b => a.opcode ≤ b.opcode

theorem opcode_ne_of_get?_eq_none {c : Catalog} {opcode : UInt8} (h : c.get? opcode = none)
    {i : Instruction} (hi : i ∈ c.entries) : i.opcode ≠ opcode := by
  have := List.find?_eq_none.1 h i hi
  simpa using this

/-- The catalog with one more instruction, unless its opcode is taken. -/
def insert (c : Catalog) (i : Instruction) : Except CatalogError Catalog :=
  match h : c.get? i.opcode with
  | some existing => .error (.duplicateOpcode i.opcode i.text existing.text)
  | none =>
    .ok {
      entries := c.entries ++ [i]
      distinct := List.pairwise_append.2 ⟨c.distinct, by simp, fun a ha b hb => by
        rw [List.mem_singleton.1 hb]
        exact opcode_ne_of_get?_eq_none h ha⟩ }

/-- The catalog with the given expansions added; the first fault wins. -/
def insertAll (c : Catalog) : List (Except CatalogError Instruction) → Except CatalogError Catalog
  | [] => .ok c
  | .error e :: _ => .error e
  | .ok i :: rest =>
    match c.insert i with
    | .error e => .error e
    | .ok c' => c'.insertAll rest

/-- The catalog of a table. -/
def build (table : List Mnemonic) : Except CatalogError Catalog :=
  empty.insertAll (table.flatMap Mnemonic.expansions)

end Catalog

end VmProbe.Isa
