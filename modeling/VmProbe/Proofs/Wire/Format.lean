/-
VmProbe/Proofs/Wire/Format.lean

The format of reply frames, and what a reply says about the frame that it was read from.

A frame is a reply when its magic number and its opcode are known, and the bytes after the
opcode are as the opcode wants them: an error has a known code, and a fault a known byte after
that, and a block of registers has whole entries that name every register (`WellFormed`).  The
reader does not look for every register, only for an id that it knows and has not seen; that
nothing is missing in the end is a matter of counting.

Main statement: exactly these frames are read, and nothing in them is lost: the frame can be
written again from the reply (`parse_accepts_exactly_frames`).
-/
import VmProbe.Bytes.Lemmas
import VmProbe.Proofs.Wire.Reply

namespace VmProbe.Wire

open Bytes (toLittleEndian ofLittleEndian)
open Machine (Register Fault)

variable {b : UInt8} {e : ServerError} {r : Reply}
variable {frame block body : List UInt8} {seen : List Register} {count length : Nat}
variable {values : List (Register × UInt64)}

/-! ### The format -/

/-- The opcodes that a frame may have. -/
def opcodeBytes : List UInt8 :=
  [0x01, 0x02, 0x10, 0xB0, 0xB1, 0xE0, 0xE1, 0xE2, 0xE3, 0xEE, 0xFF]

/-- The opcodes of frames with registers. -/
def registerBytes : List UInt8 := [0x10, 0xE0, 0xE1, 0xE2, 0xFF]

/-- The ids of the registers, from one on. -/
def registerIds : List UInt8 := (List.range' 1 36).map UInt8.ofNat

/-- The id bytes of so many entries of a block of registers. -/
def blockIds (count : Nat) (block : List UInt8) : List UInt8 :=
  (List.range count).map fun k => block.getD (k * 9) 0

namespace Reply

/-- The bytes after the opcode are those of an error. -/
def HoldsError (body : List UInt8) : Prop :=
  ∃ code, body[0]? = some code ∧
    (code ∈ [1, 2, 4, 5, 6] ∨
      code = 3 ∧ ∃ byte, body[1]? = some byte ∧ 20 ≤ byte.toNat ∧ byte.toNat ≤ 38)

/-- The bytes after the opcode start with a block of registers. -/
structure HoldsRegisters (body : List UInt8) : Prop where
  length : 324 ≤ body.length
  ids : (blockIds 36 body).Perm registerIds

/-- The frame follows the format of replies. -/
structure WellFormed (frame : List UInt8) : Prop where
  header : 9 ≤ frame.length
  magic : ofLittleEndian (frame.take 8) = 0x4772C3BC657A6921
  opcode : frame.getD 8 0 ∈ opcodeBytes
  error : frame.getD 8 0 = 0xEE → HoldsError (frame.drop 9)
  registers : frame.getD 8 0 ∈ registerBytes → HoldsRegisters (frame.drop 9)

/-- The error is the one that the bytes after the opcode give. -/
structure DescribesError (body : List UInt8) (e : ServerError) : Prop where
  code : body[0]? = some e.code
  fault : ∀ kind, e = .fault kind → body[1]? = some kind.toByte

/-- The values are those of the block that starts the bytes after the opcode, one for each
register, and the console bytes are what comes after the block. -/
structure DescribesRegisters (body : List UInt8) (values : List (Register × UInt64))
    (console : List UInt8) : Prop where
  once : ∀ q, (values.map Prod.fst).count q = 1
  written : values.flatMap (fun v => v.1.id :: toLittleEndian 8 v.2.toNat) ++ console = body

/-- The reply is what the frame says. -/
structure Describes (frame : List UInt8) (r : Reply) : Prop where
  opcode : r.opcode.toByte = frame.getD 8 0
  error : frame.getD 8 0 = 0xEE →
    ∃ e, r.payload = .error e ∧ DescribesError (frame.drop 9) e
  registers : frame.getD 8 0 ∈ registerBytes →
    ∃ values console, r.payload = .registers values console ∧
      DescribesRegisters (frame.drop 9) values console
  empty : frame.getD 8 0 ≠ 0xEE → frame.getD 8 0 ∉ registerBytes → r.payload = .empty

end Reply

/-! ### Opcodes -/

theorem Opcode.ofByte?_eq_some_iff {o : Opcode} : ofByte? b = some o ↔ o.toByte = b := by
  constructor
  · exact toByte_of_ofByte?
  · rintro rfl
    exact ofByte?_toByte o

theorem Opcode.exists_ofByte?_iff : (∃ o, ofByte? b = some o) ↔ b ∈ opcodeBytes := by
  have hall : opcodeBytes = all.map toByte := rfl
  have hmem (o : Opcode) : o ∈ all := by cases o <;> decide
  simp only [ofByte?_eq_some_iff, hall, List.mem_map, hmem, true_and]

theorem Opcode.toByte_eq_error_iff {o : Opcode} : o.toByte = 0xEE ↔ o = .error := by
  cases o <;> decide

theorem Opcode.toByte_mem_registerBytes_iff {o : Opcode} :
    o.toByte ∈ registerBytes ↔ o.carriesRegisters = true := by
  cases o <;> decide

/-! ### Errors -/

theorem fault_ofByte?_eq_some_iff {k : Fault} : Fault.ofByte? b = some k ↔ k.toByte = b := by
  constructor
  · intro h
    simpa using List.find?_some h
  · rintro rfl
    exact Fault.ofByte?_toByte k

theorem exists_fault_iff : (∃ k : Fault, k.toByte = b) ↔ 20 ≤ b.toNat ∧ b.toNat ≤ 38 := by
  have hall : Fault.all.map (fun k => k.toByte.toNat) = List.range' 20 19 := rfl
  have hrange : b.toNat ∈ List.range' 20 19 ↔ 20 ≤ b.toNat ∧ b.toNat ≤ 38 := by
    rw [List.mem_range'_1]
    omega
  have hmem (k : Fault) : k ∈ Fault.all := by cases k <;> decide
  simp only [← hrange, ← hall, List.mem_map, hmem, true_and, UInt8.toNat_inj]

namespace Reply

/-- The bytes of an error are read as what they describe. -/
theorem parseError_eq_ok_iff : parseError length body = .ok e ↔ DescribesError body e := by
  constructor
  · intro h
    rcases body with - | ⟨code, rest⟩
    · cases h
    · have hplain (e' : ServerError) (hcode : code = e'.code) (hne : e'.code ≠ 3)
          (he : e' = e) : DescribesError (code :: rest) e := by
        subst he hcode
        exact ⟨rfl, fun k hk => absurd (congrArg ServerError.code hk) hne⟩
      simp only [parseError] at h
      split_ifs at h with h₁ h₂ h₃ h₄ h₅ h₆
      · exact hplain .alreadyInSession h₁ (by decide) (Except.ok.inj h)
      · exact hplain .notInSession h₂ (by decide) (Except.ok.inj h)
      · rcases rest with - | ⟨byte, rest⟩
        · cases h
        · dsimp only at h
          rcases hk : Fault.ofByte? byte with - | k <;> rw [hk] at h
          · cases h
          · obtain rfl := Except.ok.inj h
            obtain rfl := fault_ofByte?_eq_some_iff.1 hk
            refine ⟨congrArg some h₃, ?_⟩
            rintro _ ⟨⟩
            rfl
      · exact hplain .fileFormat h₄ (by decide) (Except.ok.inj h)
      · exact hplain .breakpointAlreadySet h₅ (by decide) (Except.ok.inj h)
      · exact hplain .breakpointNotExisting h₆ (by decide) (Except.ok.inj h)
  · rintro ⟨hcode, hfault⟩
    obtain ⟨rest, rfl⟩ : ∃ rest, body = e.code :: rest := by
      rcases body with - | ⟨code, rest⟩
      · cases hcode
      · exact ⟨rest, congrArg (· :: rest) (Option.some.inj hcode)⟩
    rcases e with - | - | k | - | - | -
    case fault =>
      obtain ⟨rest, rfl⟩ : ∃ rest', rest = k.toByte :: rest' := by
        rcases rest with - | ⟨byte, rest⟩
        · cases hfault k rfl
        · exact ⟨rest, congrArg (· :: rest) (Option.some.inj (hfault k rfl))⟩
      cases k <;> rfl
    all_goals rfl

theorem exists_describesError_iff : (∃ e, DescribesError body e) ↔ HoldsError body := by
  constructor
  · rintro ⟨e, hcode, hfault⟩
    refine ⟨e.code, hcode, ?_⟩
    rcases e with - | - | k | - | - | -
    case fault => exact .inr ⟨rfl, k.toByte, hfault k rfl, exists_fault_iff.1 ⟨k, rfl⟩⟩
    all_goals exact .inl (by decide)
  · rintro ⟨code, hcode, hknown | ⟨rfl, byte, hbyte, hrange⟩⟩
    · obtain ⟨e, rfl, hne⟩ : ∃ e : ServerError, e.code = code ∧ e.code ≠ 3 := by
        fin_cases hknown
        · exact ⟨.alreadyInSession, rfl, by decide⟩
        · exact ⟨.notInSession, rfl, by decide⟩
        · exact ⟨.fileFormat, rfl, by decide⟩
        · exact ⟨.breakpointAlreadySet, rfl, by decide⟩
        · exact ⟨.breakpointNotExisting, rfl, by decide⟩
      exact ⟨e, hcode, fun k hk => absurd (congrArg ServerError.code hk) hne⟩
    · obtain ⟨k, rfl⟩ := exists_fault_iff.2 hrange
      refine ⟨.fault k, hcode, ?_⟩
      rintro _ ⟨⟩
      exact hbyte

/-! ### Blocks of registers -/

theorem blockIds_succ (count : Nat) (block : List UInt8) :
    blockIds (count + 1) block = block.headD 0 :: blockIds count (block.drop 9) := by
  rw [blockIds, List.range_succ_eq_map, List.map_cons, List.map_map, blockIds]
  refine congrArg₂ _ (by cases block <;> rfl) (List.map_congr_left fun k _ => ?_)
  rw [Function.comp_apply, Nat.succ_mul, Nat.add_comm, List.getD_eq_getElem?_getD,
    List.getD_eq_getElem?_getD, List.getElem?_drop]

/-- The entries are read if their ids are those of different registers, none of them seen. -/
theorem exists_parseEntries_iff :
    (∃ values, parseEntries seen count block = .ok values) ↔
      (blockIds count block).Nodup ∧
        ∀ b ∈ blockIds count block, ∃ q, Register.ofId? b = some q ∧ q ∉ seen := by
  induction count generalizing seen block with
  | zero => simp [parseEntries, blockIds]
  | succ count ih =>
    simp only [parseEntries_succ_eq_ok_iff, blockIds_succ, List.nodup_cons, List.forall_mem_cons]
    constructor
    · rintro ⟨_, q, rest, hid, hseen, hrest, -⟩
      obtain ⟨hnodup, hnew⟩ := ih.1 ⟨rest, hrest⟩
      refine ⟨⟨fun hmem => ?_, hnodup⟩, ⟨q, hid, hseen⟩, fun b hb => ?_⟩
      · obtain ⟨q', hid', hq'⟩ := hnew _ hmem
        rw [hid] at hid'
        cases hid'
        exact hq' List.mem_cons_self
      · obtain ⟨q', hid', hq'⟩ := hnew b hb
        exact ⟨q', hid', fun hmem => hq' (List.mem_cons_of_mem q hmem)⟩
    · rintro ⟨⟨hfirst, hnodup⟩, ⟨q, hid, hseen⟩, hnew⟩
      have hlater : ∀ b ∈ blockIds count (block.drop 9),
          ∃ q', Register.ofId? b = some q' ∧ q' ∉ q :: seen := by
        intro b hb
        obtain ⟨q', hid', hq'⟩ := hnew b hb
        refine ⟨q', hid', fun hmem => ?_⟩
        rcases List.mem_cons.1 hmem with rfl | hmem
        · -- the first register has another id than the later ones
          rw [← Register.id_of_ofId? hid, Register.id_of_ofId? hid'] at hfirst
          exact hfirst hb
        · exact hq' hmem
      obtain ⟨rest, hrest⟩ := ih.2 ⟨hnodup, hlater⟩
      exact ⟨_, q, rest, hid, hseen, hrest, rfl⟩

theorem mem_registerIds_iff : b ∈ registerIds ↔ ∃ q, Register.ofId? b = some q := by
  constructor
  · intro h
    obtain ⟨n, hn, rfl⟩ := List.mem_map.1 h
    rw [List.mem_range'_1] at hn
    have hnat : (UInt8.ofNat n).toNat = n := by
      rw [UInt8.toNat_ofNat']
      omega
    exact ⟨_, dif_pos (by omega)⟩
  · rintro ⟨q, hq⟩
    rw [← Register.id_of_ofId? hq]
    refine List.mem_map.2 ⟨q.index.val + 1, List.mem_range'_1.2 ?_, rfl⟩
    omega

theorem nodup_registerIds : registerIds.Nodup := by decide

/-- As many different ids as there are registers are all of them. -/
theorem perm_registerIds_iff {ids : List UInt8} (h : ids.length = 36) :
    ids.Perm registerIds ↔ ids.Nodup ∧ ∀ b ∈ ids, ∃ q, Register.ofId? b = some q := by
  constructor
  · intro hperm
    exact ⟨hperm.nodup_iff.2 nodup_registerIds, fun b hb =>
      mem_registerIds_iff.1 (hperm.mem_iff.1 hb)⟩
  · rintro ⟨hnodup, hknown⟩
    have hsubset : ids ⊆ registerIds := fun b hb => mem_registerIds_iff.2 (hknown b hb)
    exact (List.subperm_of_subset hnodup hsubset).perm_of_length_le (Nat.le_of_eq h.symm)

/-- The bytes of the entries can be written again from what was read. -/
theorem flatMap_of_parseEntries (h : parseEntries seen count block = .ok values)
    (hlen : count * 9 ≤ block.length) :
    values.flatMap (fun v => v.1.id :: toLittleEndian 8 v.2.toNat) = block.take (count * 9) := by
  induction count generalizing seen block values with
  | zero =>
    obtain rfl := Except.ok.inj h
    rw [Nat.zero_mul]
    rfl
  | succ count ih =>
    obtain ⟨q, rest, hid, -, hrest, rfl⟩ := parseEntries_succ_eq_ok_iff.1 h
    rw [Nat.succ_mul] at hlen
    rcases block with - | ⟨b, block⟩
    · cases hlen
    · have hb : q.id = b := Register.id_of_ofId? hid
      rw [List.length_cons] at hlen
      have hvalue : toLittleEndian 8 (UInt64.ofNat (ofLittleEndian (block.take 8))).toNat
          = block.take 8 := by
        apply Bytes.toLittleEndian_word
        rw [List.length_take]
        omega
      have hdrop : (b :: block).drop registerEntryLength = block.drop 8 := rfl
      rw [hdrop] at hrest
      rw [List.flatMap_cons, ih hrest (by rw [List.length_drop]; omega)]
      show q.id :: (toLittleEndian 8 (UInt64.ofNat (ofLittleEndian (block.take 8))).toNat ++ _) = _
      have hwidth : (count + 1) * 9 = 8 + count * 9 + 1 := by omega
      rw [hvalue, hb, hwidth, List.take_succ_cons, List.take_add]

theorem exists_block_iff (h : 324 ≤ body.length) :
    (∃ values, parseEntries [] Register.count body = .ok values) ↔ HoldsRegisters body := by
  have hids : (blockIds 36 body).length = 36 := by rw [blockIds, List.length_map, List.length_range]
  have hiff : (∃ values, parseEntries [] 36 body = .ok values) ↔
      (blockIds 36 body).Perm registerIds := by
    rw [exists_parseEntries_iff, perm_registerIds_iff hids]
    simp only [List.not_mem_nil, not_false_iff, and_true]
  exact hiff.trans ⟨fun hperm => ⟨h, hperm⟩, fun hblock => hblock.ids⟩

theorem describesRegisters_of_parseEntries (h : 324 ≤ body.length)
    (hvalues : parseEntries [] Register.count body = .ok values) :
    DescribesRegisters body values (body.drop registerBlockLength) := by
  obtain ⟨-, hnodup, -⟩ := nodup_of_parseEntries hvalues
  refine ⟨fun q => List.count_eq_one_of_mem hnodup (mem_of_parseEntries hvalues q), ?_⟩
  rw [flatMap_of_parseEntries hvalues h]
  exact List.take_append_drop 324 body

/-! ### Payloads -/

/-- What follows the opcode is read if it is as the opcode wants it. -/
theorem exists_parsePayload_iff {o : Opcode} :
    (∃ p, parsePayload length o body = .ok p) ↔
      (o = .error → HoldsError body) ∧ (o.carriesRegisters = true → HoldsRegisters body) := by
  simp only [parsePayload_eq_ok_iff, parseError_eq_ok_iff]
  constructor
  · rintro ⟨p, ⟨rfl, e, he, -⟩ | ⟨hcarries, hlength, values, hvalues, -⟩ | ⟨herror, hnone, -⟩⟩
    · exact ⟨fun _ => exists_describesError_iff.1 ⟨e, he⟩, fun hc => absurd hc (by decide)⟩
    · exact ⟨fun he => absurd he (ne_error_of_carriesRegisters hcarries),
        fun _ => (exists_block_iff hlength).1 ⟨values, hvalues⟩⟩
    · exact ⟨fun he => absurd he herror, fun hc => absurd hc (Bool.eq_false_iff.1 hnone)⟩
  · rintro ⟨herror, hregisters⟩
    by_cases ho : o = .error
    · obtain ⟨e, he⟩ := exists_describesError_iff.2 (herror ho)
      exact ⟨.error e, .inl ⟨ho, e, he, rfl⟩⟩
    · rcases hcarries : o.carriesRegisters with - | -
      · exact ⟨.empty, .inr (.inr ⟨ho, rfl, rfl⟩)⟩
      · have hblock := hregisters hcarries
        obtain ⟨values, hvalues⟩ := (exists_block_iff hblock.length).2 hblock
        exact ⟨_, .inr (.inl ⟨rfl, hblock.length, values, hvalues, rfl⟩)⟩

/-- What is read after the opcode is what the bytes say. -/
theorem describes_of_parsePayload {o : Opcode} {p : Payload}
    (h : parsePayload length o body = .ok p) :
    (o = .error → ∃ e, p = .error e ∧ DescribesError body e) ∧
      (o.carriesRegisters = true → ∃ values console, p = .registers values console ∧
        DescribesRegisters body values console) ∧
      (o ≠ .error → o.carriesRegisters = false → p = .empty) := by
  rcases parsePayload_eq_ok_iff.1 h with
    ⟨rfl, e, he, rfl⟩ | ⟨hcarries, hlength, values, hvalues, rfl⟩ | ⟨herror, hnone, rfl⟩
  · exact ⟨fun _ => ⟨e, rfl, parseError_eq_ok_iff.1 he⟩, fun hc => absurd hc (by decide),
      fun hne => absurd rfl hne⟩
  · exact ⟨fun he => absurd he (ne_error_of_carriesRegisters hcarries),
      fun _ => ⟨values, _, rfl, describesRegisters_of_parseEntries hlength hvalues⟩,
      fun _ hnone => absurd hcarries (Bool.eq_false_iff.1 hnone)⟩
  · exact ⟨fun he => absurd he herror, fun hc => absurd hc (Bool.eq_false_iff.1 hnone),
      fun _ _ => rfl⟩

/-! ### Frames -/

theorem describes_of_parse (h : parse frame = .ok r) : Describes frame r := by
  obtain ⟨-, -, hopcode, hpayload⟩ := parse_eq_ok_iff.1 h
  have hbyte := Opcode.ofByte?_eq_some_iff.1 hopcode
  obtain ⟨herror, hregisters, hempty⟩ := describes_of_parsePayload hpayload
  rw [← Opcode.toByte_eq_error_iff, hbyte] at herror
  rw [← Opcode.toByte_mem_registerBytes_iff, hbyte] at hregisters
  refine ⟨hbyte, herror, hregisters, fun hne hnone => hempty ?_ ?_⟩
  · rwa [Ne, ← Opcode.toByte_eq_error_iff, hbyte]
  · rwa [← Bool.not_eq_true, ← Opcode.toByte_mem_registerBytes_iff, hbyte]

theorem exists_parse_iff : (∃ r, parse frame = .ok r) ↔ WellFormed frame := by
  simp only [parse_eq_ok_iff]
  constructor
  · rintro ⟨⟨o, p⟩, hheader, hmagic, hopcode, hpayload⟩
    have hbyte := Opcode.ofByte?_eq_some_iff.1 hopcode
    obtain ⟨herror, hregisters⟩ := exists_parsePayload_iff.1 ⟨p, hpayload⟩
    rw [← Opcode.toByte_eq_error_iff, hbyte] at herror
    rw [← Opcode.toByte_mem_registerBytes_iff, hbyte] at hregisters
    exact ⟨hheader, hmagic, Opcode.exists_ofByte?_iff.1 ⟨o, hopcode⟩, herror, hregisters⟩
  · intro h
    obtain ⟨o, hopcode⟩ := Opcode.exists_ofByte?_iff.2 h.opcode
    have hbyte := Opcode.ofByte?_eq_some_iff.1 hopcode
    have herror := h.error
    have hregisters := h.registers
    rw [← hbyte, Opcode.toByte_eq_error_iff] at herror
    rw [← hbyte, Opcode.toByte_mem_registerBytes_iff] at hregisters
    obtain ⟨p, hpayload⟩ := exists_parsePayload_iff.2 ⟨herror, hregisters⟩
    exact ⟨⟨o, p⟩, h.header, h.magic, hopcode, hpayload⟩

/-- **Exactly the frames that follow the format are read,** and what is read is what they say. -/
theorem parse_accepts_exactly_frames (frame : List UInt8) :
    ((∃ r, parse frame = .ok r) ↔ WellFormed frame) ∧
      ∀ r, parse frame = .ok r → Describes frame r :=
  ⟨exists_parse_iff, fun _ => describes_of_parse⟩

end Reply

end VmProbe.Wire
