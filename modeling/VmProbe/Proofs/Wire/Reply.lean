/-
VmProbe/Proofs/Wire/Reply.lean

What is known of a reply that was read from a frame.

Its payload is of the kind that its opcode calls for, and a register block names every register:
the entries are as many as there are registers, and none of them names a register twice.
-/
import Mathlib
import VmProbe.Wire.Reply

namespace VmProbe.Wire.Reply

open Bytes (ofLittleEndian)
open Machine (Register)

variable {frame body bytes : List UInt8} {seen : List Register} {count length : Nat}
variable {values : List (Register × UInt64)} {r : Reply} {o : Opcode} {p : Payload}

/-! ### Register blocks -/

/-- The first entry names a register that was not seen, and the others are read after it. -/
theorem parseEntries_succ_eq_ok_iff :
    parseEntries seen (count + 1) bytes = .ok values ↔
      ∃ q rest, Register.ofId? (bytes.headD 0) = some q ∧ q ∉ seen ∧
        parseEntries (q :: seen) count (bytes.drop registerEntryLength) = .ok rest ∧
        (q, UInt64.ofNat (ofLittleEndian ((bytes.drop 1).take 8))) :: rest = values := by
  rw [parseEntries]
  dsimp only
  rcases Register.ofId? (bytes.headD 0) with - | q
  · simp
  · by_cases hseen : q ∈ seen
    · simp [hseen]
    · dsimp only
      rw [if_neg hseen]
      rcases hrest : parseEntries (q :: seen) count (bytes.drop registerEntryLength) <;>
        simp [hseen, hrest]

/-- The entries that are read name as many registers, none twice and none of those seen. -/
theorem nodup_of_parseEntries (h : parseEntries seen count bytes = .ok values) :
    values.length = count ∧ (values.map Prod.fst).Nodup ∧
      ∀ r ∈ values.map Prod.fst, r ∉ seen := by
  induction count generalizing seen bytes values with
  | zero =>
    obtain rfl := Except.ok.inj h
    exact ⟨rfl, List.nodup_nil, fun r hr => absurd hr List.not_mem_nil⟩
  | succ count ih =>
    obtain ⟨q, rest, -, hseen, hrest, rfl⟩ := parseEntries_succ_eq_ok_iff.1 h
    obtain ⟨hlength, hnodup, hnew⟩ := ih hrest
    -- the first register was among those seen when the others were read
    refine ⟨congrArg (· + 1) hlength, ?_, ?_⟩
    · refine List.nodup_cons.2 ⟨fun hq => ?_, hnodup⟩
      exact hnew q hq List.mem_cons_self
    · refine List.forall_mem_cons.2 ⟨hseen, fun r hr hrs => ?_⟩
      exact hnew r hr (List.mem_cons_of_mem _ hrs)

/-- A register block names every register. -/
theorem mem_of_parseEntries (h : parseEntries [] Register.count bytes = .ok values)
    (r : Register) : r ∈ values.map Prod.fst := by
  obtain ⟨hlength, hnodup, -⟩ := nodup_of_parseEntries h
  have hinj : Function.Injective Register.index := by
    rintro ⟨i⟩ ⟨j⟩ hij
    exact congrArg Register.mk hij
  -- as many different registers as there are
  have hindices : ((values.map Prod.fst).map Register.index).toFinset = Finset.univ := by
    apply Finset.eq_univ_of_card
    rw [List.toFinset_card_of_nodup (hnodup.map hinj), List.length_map, List.length_map, hlength]
    rfl
  have hr : r.index ∈ (values.map Prod.fst).map Register.index :=
    List.mem_toFinset.1 (hindices ▸ Finset.mem_univ r.index)
  obtain ⟨q, hq, hqr⟩ := List.mem_map.1 hr
  exact hinj hqr ▸ hq

/-! ### Payloads -/

/-- The payload is of the kind that the opcode calls for, and complete. -/
structure Consistent (r : Reply) : Prop where
  error : r.opcode = .error ↔ ∃ e, r.payload = .error e
  registers : r.opcode.carriesRegisters = true ↔
    ∃ values console, r.payload = .registers values console
  complete : ∀ {values console}, r.payload = .registers values console →
    ∀ q, q ∈ values.map Prod.fst

/-- The three things that can follow an opcode. -/
theorem parsePayload_eq_ok_iff :
    parsePayload length o body = .ok p ↔
      (o = .error ∧ ∃ e, parseError length body = .ok e ∧ .error e = p) ∨
      (o.carriesRegisters = true ∧ registerBlockLength ≤ body.length ∧
        ∃ values, parseEntries [] Register.count body = .ok values ∧
          .registers values (body.drop registerBlockLength) = p) ∨
      (o ≠ .error ∧ o.carriesRegisters = false ∧ .empty = p) := by
  rw [parsePayload]
  split_ifs with herror hcarries hlength
  · subst herror
    rcases parseError length body with e | e <;> simp [Except.map, Opcode.carriesRegisters]
  · simp [herror, hcarries, Nat.not_le.2 hlength]
  · rcases parseEntries [] Register.count body with e | values <;>
      simp [Except.map, herror, hcarries, Nat.not_lt.1 hlength]
  · simp [herror, hcarries]

theorem ne_error_of_carriesRegisters (h : o.carriesRegisters = true) : o ≠ .error := by
  rintro rfl
  cases h

theorem consistent_of_parsePayload (h : parsePayload length o body = .ok p) :
    (Reply.mk o p).Consistent := by
  rcases parsePayload_eq_ok_iff.1 h with
    ⟨rfl, e, -, rfl⟩ | ⟨hcarries, -, values, hvalues, rfl⟩ | ⟨herror, hnone, rfl⟩
  · exact ⟨by simp, by simp [Opcode.carriesRegisters], by rintro _ _ ⟨⟩⟩
  · have herror := ne_error_of_carriesRegisters hcarries
    refine ⟨by simp [herror], by simp [hcarries], ?_⟩
    rintro _ _ ⟨⟩
    exact mem_of_parseEntries hvalues
  · exact ⟨by simp [herror], by simp [hnone], by rintro _ _ ⟨⟩⟩

/-- A frame is read if it is long enough, its magic number and its opcode are known, and what
follows is what the opcode calls for. -/
theorem parse_eq_ok_iff :
    parse frame = .ok r ↔
      headerLength ≤ frame.length ∧ ofLittleEndian (frame.take 8) = replyMagic ∧
        Opcode.ofByte? (frame.getD 8 0) = some r.opcode ∧
        parsePayload frame.length r.opcode (frame.drop headerLength) = .ok r.payload := by
  obtain ⟨o, p⟩ := r
  rw [parse, ← Nat.not_lt]
  dsimp only
  by_cases hlength : frame.length < headerLength
  · simp [hlength]
  · by_cases hmagic : ofLittleEndian (frame.take 8) = replyMagic
    · rcases Opcode.ofByte? (frame.getD 8 0) with - | q
      · simp [hlength, hmagic]
      · rw [if_neg hlength, if_neg (not_not.2 hmagic)]
        rcases hp : parsePayload frame.length q (frame.drop headerLength) with e | q' <;>
          simp +contextual [Except.map, hlength, hmagic, hp, eq_comm]
    · simp [hlength, hmagic]

/-- **What is read from a frame is consistent.** -/
theorem consistent_of_parse (h : parse frame = .ok r) : r.Consistent := by
  obtain ⟨-, -, -, hpayload⟩ := parse_eq_ok_iff.1 h
  exact consistent_of_parsePayload hpayload

end VmProbe.Wire.Reply
