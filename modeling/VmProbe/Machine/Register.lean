/-
VmProbe/Machine/Register.lean

The registers of the machine: four special ones (`ip`, `sp`, `bp`, `fl`), sixteen for signed
integers and sixteen for doubles.  A register is known by its index in this order, and its id
on the wire and in instructions is one more than the index.  The 64 bits that it holds are
read according to its class.
-/
import VmProbe.Floating.Shortest

namespace VmProbe.Machine

/-- How the bits of a register are read. -/
inductive RegisterClass
  | special
  | integer
  | float
  deriving DecidableEq, Repr

/-- One of the thirty-six registers. -/
structure Register where
  index : Fin 36
  deriving DecidableEq, Repr

namespace Register

/-- How many registers there are. -/
def count : Nat := 36

/-- The register that holds the address of the next instruction. -/
def ip : Register := ⟨0⟩

/-- The register that holds the condition flags. -/
def fl : Register := ⟨3⟩

/-- The id byte. -/
def id (r : Register) : UInt8 := UInt8.ofNat (r.index.val + 1)

/-- The register with an id, if there is one. -/
def ofId? (b : UInt8) : Option Register :=
  if h : 1 ≤ b.toNat ∧ b.toNat ≤ 36 then some ⟨⟨b.toNat - 1, by omega⟩⟩ else none

/-- Every register, in the order of the ids. -/
def all : List Register := (List.finRange 36).map Register.mk

/-- The class of a register. -/
def registerClass (r : Register) : RegisterClass :=
  if r.index.val < 4 then .special else if r.index.val < 20 then .integer else .float

/-- The name in listings. -/
def name (r : Register) : String :=
  if r.index.val = 0 then "ip"
  else if r.index.val = 1 then "sp"
  else if r.index.val = 2 then "bp"
  else if r.index.val = 3 then "fl"
  else if r.index.val < 20 then "r" ++ toString (r.index.val - 4)
  else "f" ++ toString (r.index.val - 20)

theorem ofId?_id (r : Register) : ofId? r.id = some r := by
  obtain ⟨⟨i, hi⟩⟩ := r
  have h : (UInt8.ofNat (i + 1)).toNat = i + 1 := by
    rw [UInt8.toNat_ofNat']
    omega
  simp only [ofId?, id, h]
  rw [dif_pos (by omega)]
  simp

theorem id_of_ofId? {b : UInt8} {r : Register} (h : ofId? b = some r) : r.id = b := by
  unfold ofId? at h
  split at h
  · next hb =>
    cases h
    apply UInt8.toNat_inj.1
    simp only [id, UInt8.toNat_ofNat']
    omega
  · cases h

end Register

/-- The content of a register, read according to its class. -/
inductive Value
  | integer (n : Int64)
  | float (bits : UInt64)
  deriving DecidableEq, Repr

namespace Value

/-- Reads 64 bits as a register of the class does. -/
def ofRaw : RegisterClass → UInt64 → Value
  | .special, raw => integer raw.toInt64
  | .integer, raw => integer raw.toInt64
  | .float, raw => float raw

/-- The value before anything is known. -/
def zero : Value := integer 0

/-- The double that a bit pattern stands for. -/
def double (bits : UInt64) : Floating.Number := .ofBits Floating.binary64 bits.toNat

/-- Numeric equality; an integer meets a double after rounding to the nearest double. -/
def same : Value → Value → Bool
  | integer a, integer b => a = b
  | float a, float b => (double a).same (double b)
  | integer a, float b => (Floating.Number.ofInt (Floating.roundInt a.toInt)).same (double b)
  | float a, integer b => (Floating.Number.ofInt (Floating.roundInt b.toInt)).same (double a)

/-- The value in decimal. -/
def text : Value → String
  | integer n => toString n.toInt
  | float bits => Floating.binary64.text bits.toNat

end Value

end VmProbe.Machine
