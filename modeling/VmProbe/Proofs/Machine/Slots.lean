/-
VmProbe/Proofs/Machine/Slots.lean

The register bank as a table of slots, and what it holds after any updates.

A bank keeps the bits and the mark of each register, and a register is an index.  What is shown of
a register is more: its id, its name, its bits and the value that these are.  A table of such slots
is found its way in by ids, which count from one, so an id might have no slot; and a slot keeps a
value of its own, which might no longer be that of its bits.  Neither happens, since the table goes
the same way as the bank:

    table_foldl_apply    updates.foldl Table.apply b.table  =  (updates.foldl Bank.apply b).table

A bank after any updates is known from what they write.  A register has the bits that were written
to it last, over all updates (`raw_foldl_apply`).  A mark is about the last update only, and is set
if some entry of it changed the value that was there just before (`Changes`, `changed_apply_iff`).

Main statement: the table has a slot for each id, in their order, and these slots hold what was
written, as values of the class of their register (`table_represents_updates`).
-/
import VmProbe.Proofs.Machine.Bank
import VmProbe.Proofs.Machine.Value

namespace VmProbe.Machine

variable {b : Bank} {q r : Register} {raw held : UInt64}
variable {entries entries' : List (Register × UInt64)}

/-! ### Writes -/

/-- The bits that some entries write to a register, the first ones first. -/
def written (q : Register) (entries : List (Register × UInt64)) : List UInt64 :=
  (entries.filter fun e => e.1 = q).map Prod.snd

/-- The bits of a register after some entries, when it holds the bits `held` before them. -/
def lastWritten (q : Register) (held : UInt64) (entries : List (Register × UInt64)) : UInt64 :=
  (written q entries).getLastD held

@[simp] theorem lastWritten_nil (q : Register) (held : UInt64) : lastWritten q held [] = held := rfl

@[simp] theorem lastWritten_cons_self :
    lastWritten q held ((q, raw) :: entries) = lastWritten q raw entries := by
  have hwritten : written q ((q, raw) :: entries) = raw :: written q entries := by simp [written]
  rw [lastWritten, hwritten, List.getLastD_cons]
  rfl

theorem lastWritten_cons_of_ne (h : r ≠ q) :
    lastWritten q held ((r, raw) :: entries) = lastWritten q held entries := by
  have hwritten : written q ((r, raw) :: entries) = written q entries := by simp [written, h]
  rw [lastWritten, hwritten]
  rfl

theorem lastWritten_append :
    lastWritten q held (entries ++ entries') =
      lastWritten q (lastWritten q held entries) entries' := by
  induction entries generalizing held with
  | nil => rfl
  | cons e entries ih =>
    obtain ⟨r, raw⟩ := e
    rw [List.cons_append]
    by_cases hr : r = q
    · subst hr
      rw [lastWritten_cons_self, lastWritten_cons_self, ih]
    · rw [lastWritten_cons_of_ne hr, lastWritten_cons_of_ne hr, ih]

/-- Some entry changes what the register is worth, which holds the bits `held` before all of
them. -/
def Changes (q : Register) (held : UInt64) (entries : List (Register × UInt64)) : Prop :=
  ∃ before raw after, entries = before ++ (q, raw) :: after ∧
    ¬ Value.NumericallyEqual (.ofRaw q.registerClass raw)
      (.ofRaw q.registerClass (lastWritten q held before))

@[simp] theorem not_changes_nil (q : Register) (held : UInt64) : ¬ Changes q held [] := by
  rintro ⟨before, raw, after, h, -⟩
  exact List.append_ne_nil_of_right_ne_nil before (List.cons_ne_nil _ _) h.symm

/-- The first entry changes the register, or one of the others does. -/
theorem changes_cons_iff :
    Changes q held ((r, raw) :: entries) ↔
      (r = q ∧ ¬ Value.NumericallyEqual (.ofRaw q.registerClass raw)
        (.ofRaw q.registerClass held)) ∨ Changes q (lastWritten q held [(r, raw)]) entries := by
  constructor
  · rintro ⟨before, raw', after, h, hne⟩
    -- the entry that counts is the first one, or stands behind it
    cases before with
    | nil =>
      obtain ⟨⟨⟩, -⟩ := List.cons.inj h
      exact .inl ⟨rfl, hne⟩
    | cons e before =>
      obtain ⟨rfl, hrest⟩ := List.cons.inj h
      rw [← List.singleton_append, lastWritten_append] at hne
      exact .inr ⟨before, raw', after, hrest, hne⟩
  · rintro (⟨rfl, hne⟩ | ⟨before, raw', after, rfl, hne⟩)
    · exact ⟨[], raw, entries, rfl, hne⟩
    · refine ⟨(r, raw) :: before, raw', after, rfl, ?_⟩
      rwa [← List.singleton_append, lastWritten_append]

namespace Bank

/-- The bits of a register after some writes. -/
theorem raw_foldl_write (entries : List (Register × UInt64)) (b : Bank) (q : Register) :
    ((entries.foldl write b).get q).raw = lastWritten q (b.get q).raw entries := by
  induction entries generalizing b with
  | nil => rfl
  | cons e entries ih =>
    obtain ⟨r, raw⟩ := e
    show ((entries.foldl write (b.write (r, raw))).get q).raw = _
    rw [ih]
    by_cases hr : r = q
    · subst hr
      rw [raw_write_self, lastWritten_cons_self]
    · rw [get_write_of_ne hr, lastWritten_cons_of_ne hr]

/-- A write marks a register that it changes. -/
theorem changed_write_self (b : Bank) (q : Register) (raw : UInt64) :
    ((b.write (q, raw)).get q).changed = true ↔ (b.get q).changed = true ∨
      ¬ Value.NumericallyEqual (.ofRaw q.registerClass raw)
        (.ofRaw q.registerClass (b.get q).raw) := by
  rw [get_write_self, ← Value.same_ofRaw_iff]
  simp [Cell.write]

/-- A mark stays as it is, unless an entry changes the register. -/
theorem changed_foldl_write_iff (entries : List (Register × UInt64)) (b : Bank) (q : Register) :
    ((entries.foldl write b).get q).changed = true ↔
      (b.get q).changed = true ∨ Changes q (b.get q).raw entries := by
  induction entries generalizing b with
  | nil => simp
  | cons e entries ih =>
    obtain ⟨r, raw⟩ := e
    show ((entries.foldl write (b.write (r, raw))).get q).changed = true ↔ _
    rw [ih, changes_cons_iff]
    by_cases hr : r = q
    · subst hr
      rw [changed_write_self, raw_write_self, lastWritten_cons_self, lastWritten_nil, or_assoc]
      simp
    · rw [get_write_of_ne hr, lastWritten_cons_of_ne hr, lastWritten_nil]
      simp [hr]

theorem raw_apply (entries : List (Register × UInt64)) (b : Bank) (q : Register) :
    ((b.apply entries).get q).raw = lastWritten q (b.get q).raw entries := by
  rw [apply, raw_foldl_write, raw_unmarked]

/-- An update first takes away the marks, so only its own entries count. -/
theorem changed_apply_iff (entries : List (Register × UInt64)) (b : Bank) (q : Register) :
    ((b.apply entries).get q).changed = true ↔ Changes q (b.get q).raw entries := by
  rw [apply, changed_foldl_write_iff, get_unmarked]
  simp

/-- The only entry for a register is the last one, whatever was there before. -/
theorem lastWritten_of_mem (hnodup : (entries.map Prod.fst).Nodup) (h : (q, raw) ∈ entries)
    (held : UInt64) : lastWritten q held entries = raw := by
  have hlast := raw_foldl_write entries (blank.write (q, held)) q
  rw [get_foldl_write_of_mem hnodup h, raw_write_self] at hlast
  exact hlast.symm

/-- The bits of a register after some updates. -/
theorem raw_foldl_apply (updates : List (List (Register × UInt64))) (b : Bank) (q : Register) :
    ((updates.foldl apply b).get q).raw = lastWritten q (b.get q).raw updates.flatten := by
  induction updates generalizing b with
  | nil => rfl
  | cons entries updates ih =>
    show ((updates.foldl apply (b.apply entries)).get q).raw = _
    rw [ih, raw_apply, List.flatten_cons, lastWritten_append]

end Bank

/-! ### Slots -/

/-- What is shown of a register. -/
structure Slot where
  register : Register
  name : String
  raw : UInt64
  value : Value
  changed : Bool
  deriving DecidableEq

namespace Slot

/-- The slot of a register of which nothing is known. -/
def new (q : Register) : Slot where
  register := q
  name := q.name
  raw := 0
  value := .ofRaw q.registerClass 0
  changed := false

/-- The slot with another value, which is marked if it differs from the one in the slot. -/
def store (s : Slot) (raw : UInt64) (value : Value) : Slot :=
  { s with raw, value, changed := s.changed || !value.same s.value }

/-- The slot without its mark. -/
def unmarked (s : Slot) : Slot := { s with changed := false }

end Slot

/-- Slots, to be found by id. -/
structure Table where
  slots : List Slot
  deriving DecidableEq

namespace Table

/-- A slot for every register, in the order of the ids. -/
def new : Table := ⟨Register.all.map Slot.new⟩

/-- The slot of a register: the ids count from one, and the slots from zero. -/
def get? (t : Table) (q : Register) : Option Slot := t.slots[q.id.toNat - 1]?

/-- The table after one entry, which is skipped if there is no slot for it. -/
def write (t : Table) (entry : Register × UInt64) : Table :=
  match t.get? entry.1 with
  | none => t
  | some s =>
    let value := Value.ofRaw entry.1.registerClass entry.2
    ⟨t.slots.set (entry.1.id.toNat - 1) (s.store entry.2 value)⟩

/-- The table without any marks. -/
def unmarked (t : Table) : Table := ⟨t.slots.map Slot.unmarked⟩

/-- The table after an update. -/
def apply (t : Table) (entries : List (Register × UInt64)) : Table :=
  entries.foldl write t.unmarked

/-- The address of the next instruction. -/
def ip (t : Table) : UInt64 := ((t.get? .ip).map Slot.raw).getD 0

/-- The condition flags. -/
def flags (t : Table) : Flags :=
  ((t.get? .fl).map fun s => Flags.ofRaw s.raw).getD ⟨false, false, false⟩

end Table

/-! ### The table of a bank -/

namespace Register

theorem toNat_id (q : Register) : q.id.toNat = q.index.val + 1 := by
  rw [id, UInt8.toNat_ofNat']
  have hindex := q.index.isLt
  omega

/-- The ids count from one, and the registers in their list from zero. -/
theorem place_eq (q : Register) : q.id.toNat - 1 = q.index.val := by
  rw [toNat_id, Nat.add_sub_cancel]

theorem length_all : all.length = 36 := by rw [all, List.length_map, List.length_finRange]

theorem getElem_all (i : Nat) (h : i < all.length) : all[i] = ⟨⟨i, length_all ▸ h⟩⟩ := by
  simp [all]

theorem getElem?_all (q : Register) : all[q.index.val]? = some q := by
  have hlt : q.index.val < all.length := by
    rw [length_all]
    exact q.index.isLt
  rw [List.getElem?_eq_getElem hlt, getElem_all]

/-- In a list with an item for each register, one item is replaced. -/
theorem set_map_all {α : Type} (f : Register → α) (q : Register) (a : α) :
    (all.map f).set q.index.val a = all.map (Function.update f q a) := by
  refine List.ext_getElem ?_ fun i h h' => ?_
  · rw [List.length_set, List.length_map, List.length_map]
  · rw [List.getElem_set, List.getElem_map, List.getElem_map, getElem_all, Function.update_apply]
    by_cases hi : q.index.val = i
    · subst hi
      rw [if_pos rfl, if_pos rfl]
    · rw [if_neg hi, if_neg]
      intro hq
      exact hi (by rw [← hq])

/-- The names of the registers, in the order of the ids. -/
def names : List String :=
  ["ip", "sp", "bp", "fl",
    "r0", "r1", "r2", "r3", "r4", "r5", "r6", "r7",
    "r8", "r9", "r10", "r11", "r12", "r13", "r14", "r15",
    "f0", "f1", "f2", "f3", "f4", "f5", "f6", "f7",
    "f8", "f9", "f10", "f11", "f12", "f13", "f14", "f15"]

theorem map_name_all : all.map name = names := by decide +kernel

end Register

/-- What a bank says of a register. -/
def Bank.slot (b : Bank) (q : Register) : Slot where
  register := q
  name := q.name
  raw := (b.get q).raw
  value := b.value q
  changed := (b.get q).changed

/-- A bank as a table. -/
def Bank.table (b : Bank) : Table := ⟨Register.all.map b.slot⟩

namespace Bank

/-- Every id has its slot. -/
theorem get?_table (b : Bank) (q : Register) : b.table.get? q = some (b.slot q) := by
  rw [Table.get?, q.place_eq, table, List.getElem?_map, Register.getElem?_all]
  rfl

theorem get_blank (q : Register) : blank.get q = .blank := by
  rw [get, blank, Fin.getElem_fin, Vector.getElem_replicate]

theorem table_blank : blank.table = Table.new := by
  refine congrArg Table.mk (List.map_congr_left fun q _ => ?_)
  rw [slot, value, get_blank]
  rfl

theorem table_unmarked (b : Bank) : b.table.unmarked = b.unmarked.table := by
  refine congrArg Table.mk ?_
  rw [table, List.map_map]
  refine List.map_congr_left fun q _ => ?_
  show (b.slot q).unmarked = b.unmarked.slot q
  rw [slot, slot, value, value, get_unmarked]
  rfl

/-- The slot of the register that is written. -/
theorem slot_write_self (b : Bank) (q : Register) (raw : UInt64) :
    (b.write (q, raw)).slot q = (b.slot q).store raw (.ofRaw q.registerClass raw) := by
  rw [slot, value, get_write_self]
  rfl

theorem slot_write_of_ne (h : r ≠ q) : (b.write (r, raw)).slot q = b.slot q := by
  rw [slot, slot, value, value, get_write_of_ne h]

/-- **Writing to the table is writing to the bank.** -/
theorem table_write (b : Bank) (entry : Register × UInt64) :
    b.table.write entry = (b.write entry).table := by
  obtain ⟨r, raw⟩ := entry
  rw [Table.write, get?_table]
  refine congrArg Table.mk ?_
  show (Register.all.map b.slot).set (r.id.toNat - 1) _ = Register.all.map (b.write (r, raw)).slot
  rw [r.place_eq, Register.set_map_all]
  refine List.map_congr_left fun q _ => ?_
  by_cases hr : r = q
  · subst hr
    rw [Function.update_self, slot_write_self]
  · rw [Function.update_of_ne (Ne.symm hr), slot_write_of_ne hr]

theorem table_foldl_write (entries : List (Register × UInt64)) (b : Bank) :
    entries.foldl Table.write b.table = (entries.foldl write b).table := by
  induction entries generalizing b with
  | nil => rfl
  | cons e entries ih =>
    show entries.foldl Table.write (b.table.write e) = _
    rw [table_write, ih]
    rfl

theorem table_apply (entries : List (Register × UInt64)) (b : Bank) :
    b.table.apply entries = (b.apply entries).table := by
  rw [Table.apply, table_unmarked, table_foldl_write]
  rfl

/-- **The table goes the same way as the bank.** -/
theorem table_foldl_apply (updates : List (List (Register × UInt64))) (b : Bank) :
    updates.foldl Table.apply b.table = (updates.foldl apply b).table := by
  induction updates generalizing b with
  | nil => rfl
  | cons entries updates ih =>
    show updates.foldl Table.apply (b.table.apply entries) = _
    rw [table_apply, ih]
    rfl

theorem ip_table (b : Bank) : b.table.ip = b.ip := by
  rw [Table.ip, get?_table]
  rfl

theorem flags_table (b : Bank) : b.table.flags = b.flags := by
  rw [Table.flags, get?_table]
  rfl

end Bank

/-! ### After any updates -/

/-- What a slot holds after some updates. -/
structure Slot.Holds (updates : List (List (Register × UInt64))) (s : Slot) : Prop where
  /-- The bits are the last ones that were written, or zero. -/
  raw : s.raw = lastWritten s.register 0 updates.flatten
  value : s.value = .ofRaw s.register.registerClass s.raw
  /-- The mark says whether the last update has an entry that changed the value. -/
  changed : s.changed = true ↔ ∃ earlier last, updates = earlier ++ [last] ∧
    Changes s.register (lastWritten s.register 0 earlier.flatten) last

/-- What a table is after some updates. -/
structure Represents (updates : List (List (Register × UInt64))) (t : Table) : Prop where
  length : t.slots.length = 36
  /-- The ids count from one. -/
  id : ∀ i (h : i < t.slots.length), t.slots[i].register.id.toNat = i + 1
  names : t.slots.map Slot.name = Register.names
  /-- A slot is found by the id that it has. -/
  get : ∀ q, ∃ s ∈ t.slots, t.get? q = some s ∧ s.register = q
  holds : ∀ s ∈ t.slots, s.Holds updates
  ip : ∀ s ∈ t.slots, s.register.id = 1 → t.ip = s.raw
  flags : ∀ s ∈ t.slots, s.register.id = 4 → t.flags = .ofRaw s.raw

/-- The slots of a bank hold what was written to its registers. -/
theorem holds_slot (updates : List (List (Register × UInt64))) (q : Register) :
    ((updates.foldl Bank.apply .blank).slot q).Holds updates where
  raw := by
    show ((updates.foldl Bank.apply .blank).get q).raw = lastWritten q 0 updates.flatten
    rw [Bank.raw_foldl_apply, Bank.get_blank]
    rfl
  value := rfl
  changed := by
    show ((updates.foldl Bank.apply .blank).get q).changed = true ↔ ∃ earlier last,
      updates = earlier ++ [last] ∧ Changes q (lastWritten q 0 earlier.flatten) last
    -- only the last update counts, so it is set apart
    rcases List.eq_nil_or_concat' updates with rfl | ⟨earlier, last, rfl⟩
    · show (Bank.blank.get q).changed = true ↔ _
      rw [Bank.get_blank]
      simp [Cell.blank]
    · rw [List.foldl_append]
      show (((earlier.foldl Bank.apply .blank).apply last).get q).changed = true ↔ _
      rw [Bank.changed_apply_iff, Bank.raw_foldl_apply, Bank.get_blank]
      constructor
      · intro h
        exact ⟨earlier, last, rfl, h⟩
      · rintro ⟨earlier', last', heq, h⟩
        obtain ⟨rfl, hlast⟩ := List.append_inj' heq rfl
        obtain rfl := List.singleton_inj.1 hlast
        exact h

/-- The table of a bank represents the updates of the bank. -/
theorem represents_table (updates : List (List (Register × UInt64))) :
    Represents updates (updates.foldl Bank.apply .blank).table := by
  set b := updates.foldl Bank.apply .blank
  have hmem {s : Slot} (hs : s ∈ b.table.slots) : s = b.slot s.register := by
    obtain ⟨q, -, rfl⟩ := List.mem_map.1 hs
    rfl
  have hregister {s : Slot} {q : Register} (hs : s ∈ b.table.slots) (hid : s.register.id = q.id) :
      s = b.slot q := by
    have hq := Register.ofId?_id s.register
    rw [hid, Register.ofId?_id] at hq
    rw [hmem hs, ← Option.some.inj hq]
  exact {
    length := by rw [Bank.table, List.length_map, Register.length_all]
    id := by
      intro i h
      simp only [Bank.table, List.getElem_map, Register.getElem_all]
      exact Register.toNat_id _
    names := by
      rw [Bank.table, List.map_map]
      exact Register.map_name_all
    get := by
      intro q
      have hfound := b.get?_table q
      exact ⟨b.slot q, List.mem_of_getElem? hfound, hfound, rfl⟩
    holds := by
      intro s hs
      rw [hmem hs]
      exact holds_slot updates s.register
    ip := by
      intro s hs hid
      rw [b.ip_table, hregister (q := .ip) hs hid]
      rfl
    flags := by
      intro s hs hid
      rw [b.flags_table, hregister (q := .fl) hs hid]
      rfl }

/-- **A table of slots, and with it the bank, is what was written to it.**  After any updates, which
may leave registers out or name them more than once, the table is that of the bank.  It has a slot
for every id and holds in it what was written last, and whether the last update changed it.  The
order of an update that names no register twice does not matter. -/
theorem table_represents_updates (updates : List (List (Register × UInt64))) :
    let t := updates.foldl Table.apply .new
    let b := updates.foldl Bank.apply .blank
    Represents updates t ∧ t = b.table ∧ t.ip = b.ip ∧ t.flags = b.flags ∧
      ∀ earlier entries later, updates = earlier ++ entries :: later →
        (entries.map Prod.fst).Nodup → ∀ entries', entries.Perm entries' →
          t = (earlier ++ entries' :: later).foldl Table.apply .new ∧
            b = (earlier ++ entries' :: later).foldl Bank.apply .blank := by
  intro t b
  have htable (updates : List (List (Register × UInt64))) :
      updates.foldl Table.apply .new = (updates.foldl Bank.apply .blank).table := by
    rw [← Bank.table_blank, Bank.table_foldl_apply]
  have ht : t = b.table := htable updates
  refine ⟨ht ▸ represents_table updates, ht, ht ▸ b.ip_table, ht ▸ b.flags_table, ?_⟩
  rintro earlier entries later rfl hnodup entries' hperm
  have hb : b = (earlier ++ entries' :: later).foldl Bank.apply .blank := by
    show (earlier ++ entries :: later).foldl Bank.apply .blank = _
    rw [List.foldl_append, List.foldl_append, List.foldl_cons, List.foldl_cons,
      Bank.apply_perm hnodup hperm]
  exact ⟨ht.trans (hb ▸ (htable _).symm), hb⟩

/-- An update that names a register three times, and one that names two registers, in both
orders. -/
theorem table_represents_updates_swapped :
    let r0 : Register := ⟨4⟩
    let first := [(r0, 3), (r0, 0), (r0, 3)]
    let last : List (Register × UInt64) := [(.ip, 0x40), (r0, 3)]
    let swapped := [(r0, 3), (.ip, 0x40)]
    (last.map Prod.fst).Nodup ∧ last.Perm swapped ∧
      Represents [first, last] ([first, last].foldl Table.apply .new) ∧
      [first, last].foldl Bank.apply .blank = [first, swapped].foldl Bank.apply .blank := by
  intro r0 first last swapped
  have hnodup : (last.map Prod.fst).Nodup := by decide
  have hperm : last.Perm swapped := .swap _ _ _
  obtain ⟨hrepresents, -, -, -, hsame⟩ := table_represents_updates [first, last]
  exact ⟨hnodup, hperm, hrepresents, (hsame [first] last [] rfl hnodup swapped hperm).2⟩

end VmProbe.Machine
