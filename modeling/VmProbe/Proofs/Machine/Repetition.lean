/-
VmProbe/Proofs/Machine/Repetition.lean

The same block of registers twice.

A block (`Block`) holds bits for every register, each one once, in any order.  The second of two
updates with one block writes what is there already, so bits and values stay, and a mark is left
only where a value is not equal to itself.  Integers always are.  A double is unless its pattern
is no number, that is, lies beyond the pattern of the infinity of its sign (`IsNaN`).

Main statement: after the second update exactly the doubles that are no numbers are marked, so no
mark is left exactly when the block has none of them (`apply_apply_unmarked_iff`).
-/
import VmProbe.Proofs.Machine.Bank
import VmProbe.Proofs.Machine.Value

namespace VmProbe

open Machine (Bank Cell Register RegisterClass Value)

/-! ### Values that are not equal to themselves -/

namespace Floating.Number

/-- A number is the same as itself, and what is no number is not. -/
theorem same_self_iff {x : Number} : x.same x = true ↔ x ≠ nan := by
  cases x <;> simp [same]

end Floating.Number

namespace Machine

/-- The pattern of a double is no number: without the sign it lies beyond that of infinity. -/
def IsNaN (raw : UInt64) : Prop := 0x7FF0000000000000 < raw.toNat % 2 ^ 63

instance (raw : UInt64) : Decidable (IsNaN raw) :=
  inferInstanceAs (Decidable (0x7FF0000000000000 < raw.toNat % 2 ^ 63))

/-- In fields: the exponent is the greatest one, and the fraction is not zero. -/
theorem isNaN_iff (raw : UInt64) :
    IsNaN raw ↔ raw.toNat / 2 ^ 52 % 2 ^ 11 = 2 ^ 11 - 1 ∧ raw.toNat % 2 ^ 52 ≠ 0 := by
  rw [IsNaN]
  omega

theorem Value.double_eq_nan_iff (raw : UInt64) : double raw = .nan ↔ IsNaN raw := by
  rw [isNaN_iff, double_eq]
  split_ifs <;> simp_all

/-- Only a double that is no number differs from itself. -/
theorem Value.same_self_iff (cls : RegisterClass) (raw : UInt64) :
    (ofRaw cls raw).same (ofRaw cls raw) = true ↔ ¬ (cls = .float ∧ IsNaN raw) := by
  cases cls with
  | special => simp [ofRaw, same]
  | integer => simp [ofRaw, same]
  | float =>
    show (double raw).same (double raw) = true ↔ _
    rw [Floating.Number.same_self_iff, ne_eq, double_eq_nan_iff]
    simp

/-! ### Blocks -/

/-- Bits for every register, each one once. -/
structure Block where
  entries : List (Register × UInt64)
  nodup : (entries.map Prod.fst).Nodup
  total : ∀ q, q ∈ entries.map Prod.fst

namespace Block

variable {q : Register} {raw : UInt64}

/-- The block with given bits, in the order of the registers. -/
def ofBits (bits : Register → UInt64) : Block where
  entries := Register.all.map fun q => (q, bits q)
  nodup := by
    rw [List.map_map]
    exact (List.map_id _).symm ▸ (by decide : Register.all.Nodup)
  total q := by
    rw [List.map_map]
    exact (List.map_id _).symm ▸ (List.mem_map.2 ⟨q.index, List.mem_finRange _, rfl⟩)

theorem exists_mem (block : Block) (q : Register) : ∃ raw, (q, raw) ∈ block.entries := by
  obtain ⟨⟨q, raw⟩, hmem, rfl⟩ := List.mem_map.1 (block.total q)
  exact ⟨raw, hmem⟩

/-- After a block a register has the bits of its entry. -/
theorem raw_apply (block : Block) (b : Bank) (h : (q, raw) ∈ block.entries) :
    ((b.apply block.entries).get q).raw = raw := by
  rw [Bank.get_apply_of_mem block.nodup h]

/-- The second of two updates with a block leaves the bits, and a mark where a value differs from
itself. -/
theorem get_apply_apply (block : Block) (b : Bank) (h : (q, raw) ∈ block.entries) :
    ((b.apply block.entries).apply block.entries).get q =
      ⟨raw, !(Value.ofRaw q.registerClass raw).same (Value.ofRaw q.registerClass raw)⟩ := by
  rw [Bank.get_apply_of_mem block.nodup h, Bank.value, block.raw_apply b h]

theorem changed_apply_apply_iff (block : Block) (b : Bank) (h : (q, raw) ∈ block.entries) :
    (((b.apply block.entries).apply block.entries).get q).changed = true ↔
      q.registerClass = .float ∧ IsNaN raw := by
  rw [block.get_apply_apply b h, Bool.not_eq_true', ← Bool.not_eq_true, Value.same_self_iff,
    not_not]

/-- **A block that is sent twice keeps all bits and values, and marks the doubles that are no
numbers.**  So the marks are cleared exactly if there is no such double in the block. -/
theorem apply_apply_unmarked_iff (block : Block) (b : Bank) :
    let once := b.apply block.entries
    let twice := once.apply block.entries
    (∀ q, (twice.get q).raw = (once.get q).raw ∧ twice.value q = once.value q) ∧
    (∀ q, (twice.get q).changed = true ↔ q.registerClass = .float ∧ IsNaN (once.get q).raw) ∧
    ((∀ q, (twice.get q).changed = false) ↔
      ∀ q raw, (q, raw) ∈ block.entries → q.registerClass = .float → ¬ IsNaN raw) := by
  intro once twice
  have hraw (q : Register) : (twice.get q).raw = (once.get q).raw := by
    obtain ⟨raw, hmem⟩ := block.exists_mem q
    rw [block.raw_apply once hmem, block.raw_apply b hmem]
  refine ⟨fun q => ⟨hraw q, congrArg (Value.ofRaw _) (hraw q)⟩, fun q => ?_, ?_⟩
  · obtain ⟨raw, hmem⟩ := block.exists_mem q
    rw [block.changed_apply_apply_iff b hmem, block.raw_apply b hmem]
  · constructor
    · intro hclear q raw hmem hfloat hnan
      have hmarked := (block.changed_apply_apply_iff b hmem).2 ⟨hfloat, hnan⟩
      exact Bool.false_ne_true ((hclear q).symm.trans hmarked)
    · intro hnone q
      obtain ⟨raw, hmem⟩ := block.exists_mem q
      rw [← Bool.not_eq_true, block.changed_apply_apply_iff b hmem]
      exact fun h => hnone q raw hmem h.1 h.2

/-- A double that is no number is marked again by a block that repeats it. -/
theorem apply_apply_marked :
    let block := ofBits fun q => if q.id = 0x15 then 0x7FF8000000000000 else 0
    let once := Bank.blank.apply block.entries
    ∃ q, ((once.apply block.entries).get q).raw = (once.get q).raw ∧
      ((once.apply block.entries).get q).changed = true :=
  ⟨⟨20⟩, by decide +kernel, by decide +kernel⟩

end Block

end Machine

end VmProbe
