/-
VmProbe/Proofs/Machine/Bank.lean

What a register bank holds after an update.

An update writes the bits of the registers that it names and keeps those of all others.  So
two banks with the same bits in a register still have the same bits there after the same
update, and after an update that names the register they have them in any case
(`raw_apply_congr`).

An update that names no register twice leaves in each one that it names its own bits, and a mark
that compares them with those from before (`get_apply_of_mem`).  Nothing in this depends on the
order of the update (`apply_perm`).
-/
import Mathlib
import VmProbe.Machine.Bank

namespace VmProbe.Machine.Bank

variable {b b' : Bank} {r q : Register} {raw : UInt64} {entries entries' : List (Register × UInt64)}

/-- A bank is known when all of its cells are. -/
theorem ext_get (h : ∀ r, b.get r = b'.get r) : b = b' := by
  obtain ⟨cells⟩ := b
  obtain ⟨cells'⟩ := b'
  exact congrArg mk (Vector.ext fun i hi => h ⟨⟨i, hi⟩⟩)

theorem get_unmarked (b : Bank) (r : Register) : b.unmarked.get r = ⟨(b.get r).raw, false⟩ := by
  rw [get, get, unmarked, Fin.getElem_fin, Fin.getElem_fin, Vector.getElem_map]

@[simp] theorem raw_unmarked (b : Bank) (r : Register) :
    (b.unmarked.get r).raw = (b.get r).raw := by
  rw [get_unmarked]

theorem get_write_self (b : Bank) (r : Register) (raw : UInt64) :
    (b.write (r, raw)).get r = (b.get r).write r.registerClass raw := by
  show (b.cells.set r.index _)[r.index] = _
  rw [Fin.getElem_fin, Vector.getElem_set_self]

@[simp] theorem raw_write_self (b : Bank) (r : Register) (raw : UInt64) :
    ((b.write (r, raw)).get r).raw = raw := by
  rw [get_write_self]
  rfl

theorem get_write_of_ne (h : q ≠ r) : (b.write (q, raw)).get r = b.get r := by
  have hindex : q.index.val ≠ r.index.val := by
    intro hval
    obtain ⟨i⟩ := q
    obtain ⟨j⟩ := r
    exact h (congrArg Register.mk (Fin.ext hval))
  show (b.cells.set q.index _)[r.index] = _
  rw [Fin.getElem_fin, Vector.getElem_set_ne _ _ hindex]
  rfl

/-- The induction is on the entries; the first one for the register makes the banks agree. -/
theorem raw_foldl_write_congr (h : (b.get r).raw = (b'.get r).raw ∨ r ∈ entries.map Prod.fst) :
    ((entries.foldl write b).get r).raw = ((entries.foldl write b').get r).raw := by
  induction entries generalizing b b' with
  | nil => exact h.resolve_right List.not_mem_nil
  | cons e entries ih =>
    obtain ⟨q, raw⟩ := e
    apply ih
    by_cases hq : q = r
    · subst hq
      left
      rw [raw_write_self, raw_write_self]
    · rw [get_write_of_ne hq, get_write_of_ne hq]
      refine h.imp_right fun hmem => ?_
      exact (List.mem_cons.1 hmem).resolve_left (Ne.symm hq)

/-- Banks that agree on a register agree on it after an update, and banks that do not after an
update that names it. -/
theorem raw_apply_congr (h : (b.get r).raw = (b'.get r).raw ∨ r ∈ entries.map Prod.fst) :
    ((b.apply entries).get r).raw = ((b'.apply entries).get r).raw := by
  apply raw_foldl_write_congr
  rwa [raw_unmarked, raw_unmarked]

/-! ### Updates that name no register twice -/

theorem get_foldl_write_of_not_mem (h : r ∉ entries.map Prod.fst) :
    (entries.foldl write b).get r = b.get r := by
  induction entries generalizing b with
  | nil => rfl
  | cons e entries ih =>
    obtain ⟨hne, hrest⟩ := not_or.1 (mt List.mem_cons.2 h)
    show (entries.foldl write (b.write (e.1, e.2))).get r = _
    rw [ih hrest, get_write_of_ne (Ne.symm hne)]

/-- The only entry for a register writes what the register held before the update. -/
theorem get_foldl_write_of_mem (hnodup : (entries.map Prod.fst).Nodup)
    (h : (r, raw) ∈ entries) :
    (entries.foldl write b).get r = (b.get r).write r.registerClass raw := by
  induction entries generalizing b with
  | nil => cases h
  | cons e entries ih =>
    obtain ⟨hfirst, hrest⟩ := List.nodup_cons.1 hnodup
    show (entries.foldl write (b.write (e.1, e.2))).get r = _
    rcases List.mem_cons.1 h with rfl | hmem
    · rw [get_foldl_write_of_not_mem hfirst, get_write_self]
    · have hne : e.1 ≠ r := by
        rintro rfl
        exact hfirst (List.mem_map.2 ⟨_, hmem, rfl⟩)
      rw [ih hrest hmem, get_write_of_ne hne]

/-- What an update leaves in a register that it names once. -/
theorem get_apply_of_mem (hnodup : (entries.map Prod.fst).Nodup) (h : (r, raw) ∈ entries) :
    (b.apply entries).get r =
      ⟨raw, !(Value.ofRaw r.registerClass raw).same (b.value r)⟩ := by
  rw [apply, get_foldl_write_of_mem hnodup h, get_unmarked]
  rfl

/-- The order of such an update does not matter. -/
theorem apply_perm (hnodup : (entries.map Prod.fst).Nodup) (h : entries.Perm entries') :
    b.apply entries = b.apply entries' := by
  have hnodup' := (h.map Prod.fst).nodup_iff.1 hnodup
  refine ext_get fun r => ?_
  by_cases hr : r ∈ entries.map Prod.fst
  · obtain ⟨⟨r, raw⟩, hmem, rfl⟩ := List.mem_map.1 hr
    rw [get_apply_of_mem hnodup hmem, get_apply_of_mem hnodup' (h.mem_iff.1 hmem)]
  · have hr' : r ∉ entries'.map Prod.fst := fun hmem => hr ((h.map Prod.fst).mem_iff.2 hmem)
    rw [apply, apply, get_foldl_write_of_not_mem hr, get_foldl_write_of_not_mem hr']

end VmProbe.Machine.Bank
