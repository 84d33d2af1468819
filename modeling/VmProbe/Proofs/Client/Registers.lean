/-
VmProbe/Proofs/Client/Registers.lean

The registers after a reply that carries them.

A block of registers is a list of entries (`blockEntries`), each of which is the id of a register
and the eight bytes that it holds.  Every register has exactly one entry, so an update with the
block leaves nothing of the bits from before, and marks a register exactly when its value is not
numerically equal to the one from before.  The list of entries says no more than which entries
there are: two frames whose blocks are reorderings of each other do the same to every client,
down to the events that it publishes (`receive_registers`).
-/
import VmProbe.Proofs.Client.Response
import VmProbe.Proofs.Machine.Value
import VmProbe.Proofs.Wire.Block

namespace VmProbe

open Bytes (toLittleEndian)
open Machine (Register Value)
open Wire (Opcode Reply)

/-! ### Blocks as lists of entries -/

namespace Wire.Reply

variable {frame : List UInt8} {r : Reply}
variable {values : List (Register × UInt64)} {console : List UInt8}

/-- The entries of the block of registers in a frame, in their order: nine bytes each, the first
one after the opcode. -/
def blockEntries (frame : List UInt8) : List (List UInt8) :=
  (List.range 36).map fun k => (frame.drop (9 + 9 * k)).take 9

/-- An entry tells its register and what that holds. -/
theorem entry_injective : Function.Injective fun v : Register × UInt64 => entry v.1 v.2 := by
  rintro ⟨q, a⟩ ⟨q', a'⟩ h
  obtain ⟨hid, hbytes⟩ := List.cons.inj h
  have hq : q = q' := Register.id_injective hid
  have ha : a = a' := by
    rw [← Bytes.word_toLittleEndian a, ← Bytes.word_toLittleEndian a', hbytes]
  exact Prod.ext hq ha

/-- Entries that are written one after another are found again, nine bytes apart. -/
theorem map_range_flatMap_entry (values : List (Register × UInt64)) (rest : List UInt8) :
    ((List.range values.length).map fun k =>
        ((values.flatMap (fun v => entry v.1 v.2) ++ rest).drop (9 * k)).take 9) =
      values.map fun v => entry v.1 v.2 := by
  induction values with
  | nil => rfl
  | cons v values ih =>
    rw [List.length_cons, List.range_succ_eq_map, List.map_cons, List.map_map, List.map_cons,
      ← ih, List.flatMap_cons, List.append_assoc]
    refine congrArg₂ _ (List.take_left' (length_entry _ _)) (List.map_congr_left fun k _ => ?_)
    have hnext : 9 * (k + 1) = (entry v.1 v.2).length + 9 * k := by
      rw [length_entry]
      omega
    rw [Function.comp_apply, Nat.succ_eq_add_one, hnext, List.drop_length_add_append]

/-- What a reply with registers says of its frame: there is one value for each register, the
values are the entries of the block, and the console bytes are what comes after it. -/
theorem block_of_parse (h : parse frame = .ok r) (hr : r.payload = .registers values console) :
    (values.map Prod.fst).Nodup ∧ (∀ q, q ∈ values.map Prod.fst) ∧
      blockEntries frame = values.map (fun v => entry v.1 v.2) ∧ frame.drop 333 = console := by
  obtain ⟨-, -, -, hpayload⟩ := parse_eq_ok_iff.1 h
  rw [hr] at hpayload
  rcases parsePayload_eq_ok_iff.1 hpayload with
    ⟨-, e, -, he⟩ | ⟨-, hlength, values', hvalues, heq⟩ | ⟨-, -, he⟩
  · cases he
  · obtain ⟨rfl, rfl⟩ := Payload.registers.inj heq
    obtain ⟨hcount, hnodup, -⟩ := nodup_of_parseEntries hvalues
    have hwritten := (describesRegisters_of_parseEntries hlength hvalues).written
    have hrest : frame.drop 333 = (frame.drop headerLength).drop 324 := by
      rw [List.drop_drop]
      rfl
    refine ⟨hnodup, mem_of_parseEntries hvalues, ?_, hrest⟩
    have hentries := map_range_flatMap_entry values' ((frame.drop headerLength).drop 324)
    have hcount : values'.length = 36 := hcount
    rw [hcount] at hentries
    rw [← hentries, blockEntries]
    refine List.map_congr_left fun k _ => ?_
    have hbody : frame.drop 9 = values'.flatMap (fun v => entry v.1 v.2) ++
        (frame.drop headerLength).drop 324 := hwritten.symm
    rw [← hbody, List.drop_drop]
  · cases he

end Wire.Reply

/-! ### Updates -/

namespace Machine

variable {b : Bank} {q : Register} {frame : List UInt8} {values : List (Register × UInt64)}

/-- Bits are read as a signed integer below the first id of the doubles, and as a double from
there on. -/
theorem Value.ofRaw_registerClass (q : Register) (raw : UInt64) :
    ofRaw q.registerClass raw = if q.id < 0x15 then integer raw.toInt64 else float raw := by
  have hid : q.id < 0x15 ↔ q.index.val < 20 := by
    rw [UInt8.lt_iff_toNat_lt, Register.id, UInt8.toNat_ofNat']
    have hindex := q.index.isLt
    have hfirst : (0x15 : UInt8).toNat = 21 := rfl
    omega
  rw [Register.registerClass]
  simp only [hid]
  split_ifs with hspecial hinteger
  · rfl
  · omega
  · rfl
  · rfl

/-- `Sets frame b b' q`: the register holds in `b'` what its entry in the frame says, read
according to its class, and is marked if it was worth something else in `b`. -/
structure Sets (frame : List UInt8) (b b' : Bank) (q : Register) : Prop where
  raw : ∀ raw, Reply.entry q raw ∈ Reply.blockEntries frame ↔ (b'.get q).raw = raw
  value : b'.value q =
    if q.id < 0x15 then .integer (b'.get q).raw.toInt64 else .float (b'.get q).raw
  changed : (b'.get q).changed = true ↔ ¬ Value.NumericallyEqual (b'.value q) (b.value q)

/-- An update with the values of a block sets every register that the block names. -/
theorem sets_apply (hnodup : (values.map Prod.fst).Nodup)
    (hentries : Reply.blockEntries frame = values.map fun v => Reply.entry v.1 v.2)
    (hq : q ∈ values.map Prod.fst) : Sets frame b (b.apply values) q := by
  obtain ⟨⟨q, raw⟩, hmem, rfl⟩ := List.mem_map.1 hq
  have hcell := Bank.get_apply_of_mem (b := b) hnodup hmem
  refine ⟨fun raw' => ?_, Value.ofRaw_registerClass _ _, ?_⟩
  · rw [hentries, hcell]
    constructor
    · intro h
      -- the entry was written for a value of the same register, and there is only one
      obtain ⟨v, hv, heq⟩ := List.mem_map.1 h
      obtain rfl : v = (q, raw') := Reply.entry_injective heq
      have hcell' := Bank.get_apply_of_mem (b := b) hnodup hv
      exact congrArg Cell.raw (hcell.symm.trans hcell')
    · rintro rfl
      exact List.mem_map_of_mem hmem
  · rw [Bank.value, hcell, Bank.value, ← Value.same_ofRaw_iff, Bool.not_eq_true', Bool.not_eq_true]

end Machine

namespace Client

variable {frame : List UInt8} {r : Reply}
variable {values values' : List (Register × UInt64)} {console : List UInt8}

/-- Two replies with the same text do the same if they do the same to the registers. -/
theorem receive_congr {c : Client} (h : c.bank.apply values = c.bank.apply values')
    (o : Opcode) (console : List UInt8) :
    c.receive ⟨o, .registers values console⟩ = c.receive ⟨o, .registers values' console⟩ := by
  show (c.update values console).acknowledge o = (c.update values' console).acknowledge o
  rw [update, update, h]

/-- **A reply with registers sets all of them,** to what their entries in the frame say.  A frame
with the same opcode and console bytes and with the same entries in another order does the same
to the client and to its events. -/
theorem receive_registers (c : Client) (h : Reply.parse frame = .ok r)
    (hr : r.payload = .registers values console) :
    (∀ q, Machine.Sets frame c.bank (c.receive r).bank q) ∧
    ∀ frame' r', Reply.parse frame' = .ok r' → r'.opcode = r.opcode →
      frame'.drop 333 = frame.drop 333 →
      (Reply.blockEntries frame').Perm (Reply.blockEntries frame) →
        c.receive r' = c.receive r ∧ outcome r' = outcome r := by
  obtain ⟨hnodup, hall, hentries, hconsole⟩ := Reply.block_of_parse h hr
  obtain ⟨o, payload⟩ := r
  obtain rfl : payload = .registers values console := hr
  refine ⟨fun q => ?_, fun frame' r' h' ho hrest hperm => ?_⟩
  · have hbank : (c.receive ⟨o, .registers values console⟩).bank = c.bank.apply values :=
      (takes_receive c _).bank
    rw [hbank]
    exact Machine.sets_apply hnodup hentries (hall q)
  · -- the opcode decides that the other frame has a block, too
    obtain ⟨o', payload'⟩ := r'
    obtain rfl : o' = o := ho
    have hcarries := (Reply.consistent_of_parse h).registers.2 ⟨values, console, rfl⟩
    obtain ⟨values', console', rfl⟩ := (Reply.consistent_of_parse h').registers.1 hcarries
    obtain ⟨hnodup', -, hentries', hconsole'⟩ := Reply.block_of_parse h' rfl
    obtain rfl : console' = console := by rw [← hconsole', ← hconsole, hrest]
    rw [hentries, hentries', List.map_perm_map_iff Reply.entry_injective] at hperm
    exact ⟨receive_congr (Machine.Bank.apply_perm hnodup' hperm) o' console', rfl⟩

/-- The frame of a step with the registers from the last one to the first. -/
def descendingFrame (values : List (UInt8 × UInt64)) (console : List UInt8) : List UInt8 :=
  Reply.frame Opcode.nextInstruction.toByte
    (Register.all.reverse.flatMap (fun q => Reply.entry q (Reply.valueFor values q)) ++ console)

/-- A step that leaves a negative zero in the first double, in both orders of the registers. -/
theorem receive_registers_descending :
    let values := [(0x01, 0x40), (0x15, 0x8000000000000000)]
    ∃ r r' vs vs', Reply.parse (Reply.registerFrame 0xE1 values [0x68]) = .ok r ∧
      r.payload = .registers vs [0x68] ∧
      Reply.parse (descendingFrame values [0x68]) = .ok r' ∧
      r'.payload = .registers vs' [0x68] ∧ vs ≠ vs' ∧
      (∀ q, Machine.Sets (Reply.registerFrame 0xE1 values [0x68]) Client.new.bank
        (Client.new.receive r).bank q) ∧
      Client.new.receive r' = Client.new.receive r := by
  intro values
  let vs := Register.all.map fun q => (q, Reply.valueFor values q)
  have h : Reply.parse (Reply.registerFrame 0xE1 values [0x68]) =
      .ok ⟨.nextInstruction, .registers vs [0x68]⟩ := by decide +kernel
  have h' : Reply.parse (descendingFrame values [0x68]) =
      .ok ⟨.nextInstruction, .registers vs.reverse [0x68]⟩ := by decide +kernel
  have hperm : (Reply.blockEntries (descendingFrame values [0x68])).Perm
      (Reply.blockEntries (Reply.registerFrame 0xE1 values [0x68])) := by decide +kernel
  obtain ⟨hsets, hsame⟩ := receive_registers Client.new h rfl
  exact ⟨_, _, vs, vs.reverse, h, rfl, h', rfl, by decide +kernel, hsets,
    (hsame _ _ h' rfl (by decide +kernel) hperm).1⟩

end Client

end VmProbe
