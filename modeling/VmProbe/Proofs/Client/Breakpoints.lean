/-
VmProbe/Proofs/Client/Breakpoints.lean

What is in the breakpoint set after a change.
-/
import Mathlib
import VmProbe.Client.Breakpoints

namespace VmProbe.Client.Breakpoints

variable {s : Breakpoints} {a b : UInt64}

theorem mem_erase : b ∈ s.erase a ↔ b ≠ a ∧ b ∈ s := by
  have hnodup : s.addresses.Nodup := s.ascending.imp fun h => UInt64.ne_of_lt h
  exact hnodup.mem_erase_iff

theorem mem_insert : b ∈ s.insert a ↔ b = a ∨ b ∈ s := by
  rw [insert]
  split_ifs with ha
  · constructor
    · exact .inr
    · rintro (rfl | hb)
      · exact ha
      · exact hb
  · exact mem_insertAddress

theorem mem_toggle_self : a ∈ s.toggle a ↔ a ∉ s := by
  rw [toggle]
  split_ifs with ha
  · simp [mem_erase, ha]
  · simp [mem_insert, ha]

theorem mem_toggle_of_ne (h : b ≠ a) : b ∈ s.toggle a ↔ b ∈ s := by
  rw [toggle]
  split_ifs
  · simp [mem_erase, h]
  · simp [mem_insert, h]

/-- The set without its order. -/
def toFinset (s : Breakpoints) : Finset UInt64 := s.addresses.toFinset

@[simp] theorem mem_toFinset : a ∈ s.toFinset ↔ a ∈ s := List.mem_toFinset

theorem toFinset_toggle_of_mem (h : a ∈ s) : (s.toggle a).toFinset = s.toFinset.erase a := by
  ext b
  rw [toggle, if_pos h, mem_toFinset, mem_erase, Finset.mem_erase, mem_toFinset]

theorem toFinset_toggle_of_not_mem (h : a ∉ s) :
    (s.toggle a).toFinset = Insert.insert a s.toFinset := by
  ext b
  rw [toggle, if_neg h, mem_toFinset, mem_insert, Finset.mem_insert, mem_toFinset]

end VmProbe.Client.Breakpoints
