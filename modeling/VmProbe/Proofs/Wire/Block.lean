/-
VmProbe/Proofs/Wire/Block.lean

Blocks of registers, as they are written and as they are read.

Entries that name different registers are read as they were written, one after another
(`parseEntries_flatMap`); the bytes after them are left for the console.  A frame with all
registers takes the value of each one from a list of pairs, in which an id may come twice, not at
all or be that of no register: the first pair with the id counts (`FirstValue`).

Main statement: what is written with any pairs is read back, and a frame that was read, if it has
the registers in the order of their ids, is written again from what was read
(`parse_registerFrame_inverse`).
-/
import VmProbe.Proofs.Wire.Format

namespace VmProbe

open Bytes (toLittleEndian ofLittleEndian)
open Machine (Register)

/-! ### Ids -/

namespace Machine.Register

theorem id_injective : Function.Injective id := by
  intro q q' h
  have hsome : some q = some q' := by
    rw [← ofId?_id q, ← ofId?_id q', h]
  exact Option.some.inj hsome

theorem map_id_all : all.map id = Wire.registerIds := by decide +kernel

theorem nodup_all : all.Nodup := .of_map id (map_id_all ▸ Wire.Reply.nodup_registerIds)

end Machine.Register

namespace Wire.Reply

variable {body console rest : List UInt8} {f : List UInt8} {seen : List Register} {length : Nat}
variable {values : List (Register × UInt64)} {pairs : List (UInt8 × UInt64)}
variable {o : Opcode} {q : Register} {r : Reply} {value : UInt64}

/-! ### Entries -/

theorem length_entry (q : Register) (raw : UInt64) : (entry q raw).length = 9 := by
  rw [entry, List.length_cons, Bytes.length_toLittleEndian]

/-- Entries that name different registers, none of them seen, are read as they were written. -/
theorem parseEntries_flatMap (hnodup : (values.map Prod.fst).Nodup)
    (hnew : ∀ q ∈ values.map Prod.fst, q ∉ seen) (rest : List UInt8) :
    parseEntries seen values.length (values.flatMap (fun v => entry v.1 v.2) ++ rest) =
      .ok values := by
  induction values generalizing seen with
  | nil => rfl
  | cons v values ih =>
    obtain ⟨q, raw⟩ := v
    obtain ⟨hq, hnodup⟩ := List.nodup_cons.1 hnodup
    obtain ⟨hseen, hnew⟩ := List.forall_mem_cons.1 hnew
    have hlater : ∀ q' ∈ values.map Prod.fst, q' ∉ q :: seen := by
      intro q' hq' hmem
      rcases List.mem_cons.1 hmem with rfl | hmem
      · exact hq hq'
      · exact hnew q' hq' hmem
    rw [List.flatMap_cons, List.append_assoc, List.length_cons, parseEntries_succ_eq_ok_iff]
    generalize htail : values.flatMap (fun v => entry v.1 v.2) ++ rest = tail
    have hrest : (entry q raw ++ tail).drop registerEntryLength = tail :=
      List.drop_left' (length_entry q raw)
    have hraw : ((entry q raw ++ tail).drop 1).take 8 = toLittleEndian 8 raw.toNat :=
      List.take_left' (Bytes.length_toLittleEndian 8 raw.toNat)
    refine ⟨q, values, Register.ofId?_id q, hseen, ?_, ?_⟩
    · rw [hrest, ← htail, ih hnodup hlater]
    · rw [hraw, Bytes.word_toLittleEndian]

theorem length_flatMap_entry (values : List (Register × UInt64)) :
    (values.flatMap fun v => entry v.1 v.2).length = values.length * registerEntryLength := by
  induction values with
  | nil => rfl
  | cons v values ih =>
    rw [List.flatMap_cons, List.length_append, length_entry, ih, List.length_cons, Nat.succ_mul,
      Nat.add_comm]
    rfl

/-- A block with every register is read as it was written, and the rest as the console. -/
theorem parsePayload_block (ho : o.carriesRegisters = true) (hnodup : (values.map Prod.fst).Nodup)
    (hcount : values.length = Register.count) :
    parsePayload length o (values.flatMap (fun v => entry v.1 v.2) ++ console) =
      .ok (.registers values console) := by
  have hblock : (values.flatMap fun v => entry v.1 v.2).length = registerBlockLength := by
    rw [length_flatMap_entry, hcount, registerBlockLength]
  refine parsePayload_eq_ok_iff.2 (.inr (.inl ⟨ho, ?_, values, ?_, ?_⟩))
  · rw [List.length_append, hblock]
    exact Nat.le_add_right _ _
  · rw [← hcount]
    exact parseEntries_flatMap hnodup (fun _ _ => List.not_mem_nil) console
  · rw [List.drop_left' hblock]

/-! ### Frames -/

/-- A frame that was written is read as its opcode and its body say. -/
theorem parse_frame_eq_ok_iff :
    parse (frame o.toByte body) = .ok r ↔
      r.opcode = o ∧ parsePayload (headerLength + body.length) o body = .ok r.payload := by
  have hmagic : (toLittleEndian 8 replyMagic).length = 8 := Bytes.length_toLittleEndian 8 _
  have hlength : (frame o.toByte body).length = headerLength + body.length := by
    rw [frame, List.length_append, List.length_cons, hmagic, headerLength]
    omega
  have htake : (frame o.toByte body).take 8 = toLittleEndian 8 replyMagic := List.take_left' hmagic
  have hnumber : ofLittleEndian (toLittleEndian 8 replyMagic) = replyMagic := by decide
  have hopcode : (frame o.toByte body).getD 8 0 = o.toByte := rfl
  have hbody : (frame o.toByte body).drop headerLength = body := rfl
  rw [parse_eq_ok_iff, hlength, htake, hnumber, hopcode, hbody, Opcode.ofByte?_toByte,
    Option.some.injEq]
  constructor
  · rintro ⟨-, -, rfl, hpayload⟩
    exact ⟨rfl, hpayload⟩
  · rintro ⟨rfl, hpayload⟩
    exact ⟨Nat.le_add_right _ _, rfl, rfl, hpayload⟩

/-- A frame that was read is written again from its opcode and its body. -/
theorem frame_drop_of_parse (h : parse f = .ok r) :
    frame r.opcode.toByte (f.drop headerLength) = f := by
  obtain ⟨hlength, hmagic, hopcode, -⟩ := parse_eq_ok_iff.1 h
  have hlength : 9 ≤ f.length := hlength
  have hfirst := Bytes.toLittleEndian_ofLittleEndian (f.take 8)
  rw [hmagic, List.length_take_of_le (by omega)] at hfirst
  have hbyte : r.opcode.toByte = f[8] := by
    rw [Opcode.ofByte?_eq_some_iff.1 hopcode, List.getD_eq_getElem _ _ (by omega)]
  rw [frame, hfirst, hbyte, headerLength, ← List.drop_eq_getElem_cons (by omega),
    List.take_append_drop]

/-! ### Values by id -/

/-- The first pair with the id has the value; if there is no such pair, the value is zero. -/
def FirstValue (pairs : List (UInt8 × UInt64)) (id : UInt8) (value : UInt64) : Prop :=
  (∃ before after, pairs = before ++ (id, value) :: after ∧ ∀ p ∈ before, p.1 ≠ id) ∨
    (∀ p ∈ pairs, p.1 ≠ id) ∧ value = 0

theorem firstValue_valueFor (pairs : List (UInt8 × UInt64)) (q : Register) :
    FirstValue pairs q.id (valueFor pairs q) := by
  rcases hfind : pairs.find? (·.1 = q.id) with - | ⟨id, raw⟩
  · refine .inr ⟨by simpa using hfind, ?_⟩
    rw [valueFor, hfind]
    rfl
  · obtain ⟨hid, before, after, hsplit, hbefore⟩ := List.find?_eq_some_iff_append.1 hfind
    obtain rfl : id = q.id := by simpa using hid
    refine .inl ⟨before, after, ?_, by simpa using hbefore⟩
    rw [valueFor, hfind]
    exact hsplit

/-- The value of an id is determined. -/
theorem FirstValue.valueFor_eq (h : FirstValue pairs q.id value) : valueFor pairs q = value := by
  rw [valueFor]
  rcases h with ⟨before, after, rfl, hbefore⟩ | ⟨hnone, rfl⟩
  · have hfind : (before ++ (q.id, value) :: after).find? (·.1 = q.id) = some (q.id, value) :=
      List.find?_eq_some_iff_append.2 ⟨by simp, before, after, rfl, by simpa using hbefore⟩
    rw [hfind]
    rfl
  · have hfind : pairs.find? (·.1 = q.id) = none := by simpa using hnone
    rw [hfind]
    rfl

/-- The pairs of values of different registers give every register its value. -/
theorem valueFor_of_mem (hnodup : (values.map Prod.fst).Nodup) (h : (q, value) ∈ values) :
    valueFor (values.map fun v => (v.1.id, v.2)) q = value := by
  obtain ⟨before, after, rfl⟩ := List.append_of_mem h
  refine FirstValue.valueFor_eq (.inl ⟨before.map fun v => (v.1.id, v.2),
    after.map fun v => (v.1.id, v.2), by simp, List.forall_mem_map.2 fun v hv hid => ?_⟩)
  have hsame : v.1 = q := Register.id_injective hid
  rw [List.map_append, List.map_cons] at hnodup
  exact List.disjoint_of_nodup_append hnodup (List.mem_map_of_mem hv) (hsame ▸ List.mem_cons_self)

/-! ### Writing and reading -/

/-- In the order of the ids, the registers are all of them. -/
theorem map_fst_of_ids (h : values.map (fun v => v.1.id) = registerIds) :
    values.map Prod.fst = Register.all := by
  apply List.map_injective_iff.2 Register.id_injective
  rw [Register.map_id_all, ← h, List.map_map]
  rfl

/-- A frame with registers is read as the values of all registers in the order of the ids. -/
theorem parse_registerFrame (ho : o.carriesRegisters = true) (pairs : List (UInt8 × UInt64))
    (console : List UInt8) :
    parse (registerFrame o.toByte pairs console) =
      .ok ⟨o, .registers (Register.all.map fun q => (q, valueFor pairs q)) console⟩ := by
  have hfirst : (Register.all.map fun q => (q, valueFor pairs q)).map Prod.fst = Register.all := by
    rw [List.map_map]
    exact List.map_id _
  have hblock : (Register.all.flatMap fun q => entry q (valueFor pairs q)) =
      (Register.all.map fun q => (q, valueFor pairs q)).flatMap fun v => entry v.1 v.2 := by
    rw [List.flatMap_map]
  rw [registerFrame, parse_frame_eq_ok_iff, hblock]
  exact ⟨rfl, parsePayload_block ho (hfirst ▸ Register.nodup_all) rfl⟩

/-- A frame that has the registers in the order of the ids is written again from its values. -/
theorem registerFrame_of_parse (h : parse f = .ok ⟨o, .registers values console⟩)
    (hids : values.map (fun v => v.1.id) = registerIds) :
    registerFrame o.toByte (values.map fun v => (v.1.id, v.2)) console = f := by
  have hfirst := map_fst_of_ids hids
  have hnodup : (values.map Prod.fst).Nodup := hfirst ▸ Register.nodup_all
  have hcarries : o.carriesRegisters = true :=
    (consistent_of_parse h).registers.2 ⟨values, console, rfl⟩
  obtain ⟨-, -, -, hpayload⟩ := parse_eq_ok_iff.1 h
  obtain ⟨_, _, hsame, hdescribes⟩ := (describes_of_parsePayload hpayload).2.1 hcarries
  obtain ⟨rfl, rfl⟩ := Payload.registers.inj hsame
  have hblock : (Register.all.flatMap fun q =>
      entry q (valueFor (values.map fun v => (v.1.id, v.2)) q)) =
        values.flatMap fun v => entry v.1 v.2 := by
    rw [← hfirst, List.flatMap_map]
    refine List.flatMap_congr fun v hv => ?_
    rw [valueFor_of_mem hnodup hv]
  have hwritten : (values.flatMap fun v => entry v.1 v.2) ++ console = f.drop headerLength :=
    hdescribes.written
  rw [registerFrame, hblock, hwritten]
  exact frame_drop_of_parse h

/-- **Frames with registers are read as they are written, and written as they are read.**  Whatever
the pairs and the console bytes are, the frame is read as its opcode, a value for every register in
the order of the ids, which is that of the first pair with its id or zero, and these console bytes.
A frame that is read with the registers in this order is the one that is written from what was
read. -/
theorem parse_registerFrame_inverse :
    (∀ o pairs console, o.carriesRegisters = true → ∃ values,
      parse (registerFrame o.toByte pairs console) = .ok ⟨o, .registers values console⟩ ∧
        values.map (fun v => v.1.id) = registerIds ∧
        ∀ v ∈ values, FirstValue pairs v.1.id v.2) ∧
    ∀ f o values console, parse f = .ok ⟨o, .registers values console⟩ →
      values.map (fun v => v.1.id) = registerIds →
        registerFrame o.toByte (values.map fun v => (v.1.id, v.2)) console = f := by
  refine ⟨fun o pairs console ho => ⟨_, parse_registerFrame ho pairs console, ?_, ?_⟩,
    fun f o values console => registerFrame_of_parse⟩
  · rw [List.map_map]
    exact Register.map_id_all
  · exact List.forall_mem_map.2 fun q _ => firstValue_valueFor pairs q

/-- An id that is given twice, one that is that of no register, and a console byte that is no
text. -/
theorem parse_registerFrame_inverse_repeated :
    let pairs := [(0x05, 7), (0x99, 1), (0x05, 8)]
    ∃ values,
      parse (registerFrame 0xE1 pairs [0xFF]) =
        .ok ⟨.nextInstruction, .registers values [0xFF]⟩ ∧
      (∀ v ∈ values, FirstValue pairs v.1.id v.2) ∧ (⟨4⟩, 7) ∈ values ∧
      registerFrame 0xE1 (values.map fun v => (v.1.id, v.2)) [0xFF] =
        registerFrame 0xE1 pairs [0xFF] := by
  intro pairs
  obtain ⟨values, hparse, hids, hvalues⟩ :=
    parse_registerFrame_inverse.1 .nextInstruction pairs [0xFF] rfl
  refine ⟨values, hparse, hvalues, ?_, parse_registerFrame_inverse.2 _ _ _ _ hparse hids⟩
  have hr0 : (⟨4⟩ : Register) ∈ values.map Prod.fst := by
    rw [map_fst_of_ids hids]
    decide
  obtain ⟨⟨_, value⟩, hmem, rfl⟩ := List.mem_map.1 hr0
  obtain rfl : 7 = value := (hvalues _ hmem).valueFor_eq
  exact hmem

end Wire.Reply

end VmProbe
