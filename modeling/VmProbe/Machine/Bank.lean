/-
VmProbe/Machine/Bank.lean

The register bank: the last known bits of every register, and for each a mark that says
whether the last update changed its value.  An update (`Bank.apply`) first takes away all
marks and then writes its pairs one after another; a write sets the mark when the value
differs numerically from the one the register held just before, so a second write to the
same register may set a mark but never takes one away.

The condition flags are the three highest bits of the register `fl`.
-/
import VmProbe.Machine.Register

namespace VmProbe.Machine

/-! ### Flags -/

/-- The flags that the last comparison or arithmetic instruction left. -/
structure Flags where
  carry : Bool
  zero : Bool
  sign : Bool
  deriving DecidableEq, Repr

namespace Flags

/-- The flags in a bit pattern of `fl`. -/
def ofRaw (raw : UInt64) : Flags where
  carry := raw.toNat.testBit 63
  zero := raw.toNat.testBit 62
  sign := raw.toNat.testBit 61

/-- A flag as a digit. -/
def digit (b : Bool) : String := if b then "1" else "0"

/-- The flags on one line. -/
def text (f : Flags) : String :=
  "carry=" ++ digit f.carry ++ " zero=" ++ digit f.zero ++ " sign=" ++ digit f.sign

end Flags

/-! ### Cells and banks -/

/-- What is known of one register. -/
structure Cell where
  raw : UInt64
  changed : Bool
  deriving DecidableEq, Repr

namespace Cell

/-- The state before anything was received. -/
def blank : Cell := ⟨0, false⟩

/-- The cell after a write to a register of the class. -/
def write (cls : RegisterClass) (cell : Cell) (raw : UInt64) : Cell :=
  ⟨raw, cell.changed || !(Value.ofRaw cls raw).same (Value.ofRaw cls cell.raw)⟩

end Cell

/-- What is known of every register, in the order of the ids. -/
structure Bank where
  cells : Vector Cell 36
  deriving DecidableEq, Repr

namespace Bank

/-- The bank before anything was received. -/
def blank : Bank := ⟨Vector.replicate 36 Cell.blank⟩

/-- What is known of a register. -/
def get (b : Bank) (r : Register) : Cell := b.cells[r.index]

/-- The bank without any marks. -/
def unmarked (b : Bank) : Bank := ⟨b.cells.map fun c => { c with changed := false }⟩

/-- The bank after one write. -/
def write (b : Bank) (entry : Register × UInt64) : Bank :=
  ⟨b.cells.set entry.1.index ((b.get entry.1).write entry.1.registerClass entry.2)⟩

/-- The bank after an update. -/
def apply (b : Bank) (entries : List (Register × UInt64)) : Bank :=
  entries.foldl write b.unmarked

/-- The value of a register. -/
def value (b : Bank) (r : Register) : Value := .ofRaw r.registerClass (b.get r).raw

/-- The address of the next instruction. -/
def ip (b : Bank) : UInt64 := (b.get .ip).raw

/-- The condition flags. -/
def flags (b : Bank) : Flags := .ofRaw (b.get .fl).raw

end Bank

end VmProbe.Machine
