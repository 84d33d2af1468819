/-
VmProbe/Proofs/Isa/Placement.lean

Where code stands does not matter for what it says.

A listing carries addresses, and so do the errors.  Moving all of them by the same distance
(`moved`) is moving the code: reading at addresses that are all further on by `d` gives what
reading gave before, moved by `d` (`decodeFrom_moved`).  The induction follows the reader, which
compares addresses with each other and subtracts them, but never looks at one alone.

Main statement: the listing of `bytes[start, stop)` is that of the bytes in this window by
themselves, moved by `start`,

    decode c bytes start stop = moved start (decode c (window bytes start stop) 0 (stop - start))

so the bytes around the window have no part in it, and the same code has the same texts and sizes
wherever it stands (`decode_window`).
-/
import VmProbe.Proofs.Isa.Addressed
import VmProbe.Proofs.Isa.Expansion

namespace VmProbe.Isa

variable {c : Catalog} {os : List Operand} {bytes rest : List UInt8}
variable {address limit position start stop d : Nat} {opcode : UInt8}

/-! ### Moving -/

/-- The line, with its address so much further on. -/
def Line.moved (d : Nat) (l : Line) : Line := { l with address := l.address + d }

/-- The error, with its addresses so much further on. -/
def DecodeError.moved (d : Nat) : DecodeError → DecodeError
  | missingCodeSection => missingCodeSection
  | unknownOpcode opcode address => unknownOpcode opcode (address + d)
  | unknownTypeTag tag address => unknownTypeTag tag (address + d)
  | unknownSelector selector address => unknownSelector selector (address + d)
  | overrun address stop limit => overrun (address + d) (stop + d) (limit + d)

/-- A listing or an error, with all addresses so much further on. -/
def moved (d : Nat) : Except DecodeError (List Line) → Except DecodeError (List Line)
  | .error e => .error (e.moved d)
  | .ok lines => .ok (lines.map (Line.moved d))

theorem OperandError.moved_inInstruction (e : OperandError) :
    (e.inInstruction address).moved d = e.inInstruction (address + d) := by
  cases e <;> rfl

/-! ### Reading further on -/

/-- Operands are read in the same way further on, up to a position that is further on. -/
theorem readOperands_moved :
    readOperands (address + d) (limit + d) (position + d) os rest =
      match readOperands address limit position os rest with
      | .error e => .error (e.moved d)
      | .ok (text, stop) => .ok (text, stop + d) := by
  induction os generalizing position rest with
  | nil => rfl
  | cons o os ih =>
    rw [readOperands, readOperands]
    split_ifs with hshort
    · rw [Nat.add_right_comm]
      rfl
    · rcases o.text (rest.take o.extent) with e | text
      · exact congrArg _ e.moved_inInstruction.symm
      · dsimp only
        rw [Nat.add_right_comm, ih]
        rcases readOperands address limit (position + o.extent) os (rest.drop o.extent)
          with e | ⟨more, stop⟩
        · rfl
        · rfl

/-- So is a line, and it is as long as before. -/
theorem decodeOne_moved :
    decodeOne c (address + d) (limit + d) opcode rest =
      match decodeOne c address limit opcode rest with
      | .error e => .error (e.moved d)
      | .ok line => .ok (line.moved d) := by
  rw [decodeOne, decodeOne]
  rcases c.get? opcode with - | i
  · rfl
  · dsimp only
    rw [Nat.add_right_comm, readOperands_moved]
    rcases readOperands address limit (address + 1) i.operands rest with e | ⟨text, stop⟩
    · rfl
    · dsimp only
      rw [Nat.add_sub_add_right]
      rfl

/-- **Reading further on gives the same lines further on,** or the same error. -/
theorem decodeFrom_moved :
    decodeFrom c (limit + d) (stop + d) (address + d) rest =
      moved d (decodeFrom c limit stop address rest) := by
  fun_induction decodeFrom c limit stop address rest with
  | case1 address hlt =>
    rw [decodeFrom, if_pos (Nat.add_lt_add_right hlt d), Nat.add_right_comm]
    rfl
  | case2 address hlt opcode operands e hone =>
    rw [decodeFrom, if_pos (Nat.add_lt_add_right hlt d), decodeOne_moved, hone]
    rfl
  | case3 address hlt opcode operands line hone e hmore ih =>
    rw [decodeFrom, if_pos (Nat.add_lt_add_right hlt d), decodeOne_moved, hone]
    dsimp only [Line.moved]
    rw [Nat.add_right_comm, ih, hmore]
    rfl
  | case4 address hlt opcode operands line hone lines hmore ih =>
    rw [decodeFrom, if_pos (Nat.add_lt_add_right hlt d), decodeOne_moved, hone]
    dsimp only [Line.moved]
    rw [Nat.add_right_comm, ih, hmore]
    rfl
  | case5 address rest hge =>
    rw [decodeFrom.eq_def, if_neg (mt Nat.lt_of_add_lt_add_right hge)]
    rfl

/-! ### Windows -/

/-- The listing of a window of the bytes is that of the window by itself, moved to its place. -/
theorem decode_eq_moved (h : start ≤ stop) (hstop : stop ≤ bytes.length) :
    decode c bytes start stop =
      moved start (decode c (window bytes start stop) 0 (stop - start)) := by
  have hlength : (window bytes start stop).length = stop - start := length_window hstop
  have hall : window (window bytes start stop) 0 (stop - start) = window bytes start stop := by
    rw [← hlength, window, List.drop_zero, List.take_length]
  have hlast : stop - start + start = stop := Nat.sub_add_cancel h
  have hfirst : 0 + start = start := Nat.zero_add start
  rw [decode_eq_decodeFrom, decode_eq_decodeFrom, Nat.min_eq_left hstop,
    Nat.min_eq_left hlength.ge, hall, ← decodeFrom_moved, hlast, hfirst]

/-- The texts and sizes of a listing, if there is one. -/
def contents? : Except DecodeError (List Line) → Option (List (String × Nat))
  | .error _ => none
  | .ok lines => some (lines.map fun l => (l.text, l.size))

theorem contents?_moved (d : Nat) (r : Except DecodeError (List Line)) :
    contents? (moved d r) = contents? r := by
  rcases r with e | lines
  · rfl
  · exact congrArg some List.map_map

/-- **Decoding is local and does not depend on the place.**  The listing of a window is that of its
bytes alone, with `start` added to all addresses, errors included; so it is the same whatever
stands around the window, and the same code elsewhere has the same texts and sizes.  The loop over
64-bit addresses, whose sums could run out, does the same in both places. -/
theorem decode_window (c : Catalog) {start stop : UInt64} (h : start ≤ stop)
    (hstop : stop.toNat ≤ bytes.length) :
    decode c bytes start.toNat stop.toNat =
      moved start.toNat
        (decode c (window bytes start.toNat stop.toNat) 0 (stop.toNat - start.toNat)) ∧
    (∀ bytes', stop.toNat ≤ bytes'.length →
      window bytes' start.toNat stop.toNat = window bytes start.toNat stop.toNat →
      decode c bytes' start.toNat stop.toNat = decode c bytes start.toNat stop.toNat) ∧
    (∀ bytes' (start' stop' : Nat), start' ≤ stop' → stop' ≤ bytes'.length →
      window bytes' start' stop' = window bytes start.toNat stop.toNat →
      contents? (decode c bytes' start' stop') =
        contents? (decode c bytes start.toNat stop.toNat)) ∧
    (bytes.length < 2 ^ 63 →
      Addressed.decode c bytes start stop =
        (moved start.toNat
          (decode c (window bytes start.toNat stop.toNat) 0 (stop - start).toNat)).mapError
            .refused ∧
      Addressed.decode c (window bytes start.toNat stop.toNat) 0 (stop - start) =
        (decode c (window bytes start.toNat stop.toNat) 0 (stop - start).toNat).mapError
          .refused) := by
  have hle : start.toNat ≤ stop.toNat := UInt64.le_iff_toNat_le.1 h
  have hdistance : (stop - start).toNat = stop.toNat - start.toNat := UInt64.toNat_sub_of_le _ _ h
  have hmoved := decode_eq_moved (c := c) hle hstop
  refine ⟨hmoved, ?around, ?elsewhere, ?addressed⟩
  case around =>
    intro bytes' hstop' hwindow
    rw [hmoved, decode_eq_moved hle hstop', hwindow]
  case elsewhere =>
    intro bytes' start' stop' hle' hstop' hwindow
    -- windows with the same bytes have the same length
    have hlength := congrArg List.length hwindow
    rw [length_window hstop', length_window hstop] at hlength
    rw [hmoved, decode_eq_moved hle' hstop', contents?_moved, contents?_moved, hwindow, hlength]
  case addressed =>
    intro hbytes
    have hwindow : (window bytes start.toNat stop.toNat).length < 2 ^ 63 := by
      rw [length_window hstop]
      omega
    refine ⟨?_, Addressed.decode_eq hwindow⟩
    rw [Addressed.decode_eq hbytes, hmoved, hdistance]

/-- A store that is cut off by the end of the window, although the bytes go on. -/
theorem decode_window_cut :
    let bytes := [0xFF, 0x50, 0x08, 0x03, 0x05, 0x2F, 0x01, 1, 0, 0, 0, 0x50]
    ∃ c, Catalog.build storeAndExit = .ok c ∧
      (1 : UInt64) ≤ 7 ∧ (7 : UInt64).toNat ≤ bytes.length ∧
      decode c [0x50, 0x08, 0x03, 0x05, 0x2F, 0x01] 0 6 = .error (.overrun 1 10 6) ∧
      decode c bytes 1 7 = .error (.overrun 2 11 7) := by
  intro bytes
  obtain ⟨c, hc, -⟩ := exists_build_storeAndExit
  have hle : (1 : UInt64) ≤ 7 := by decide
  have hstop : (7 : UInt64).toNat ≤ bytes.length := by decide
  have halone : decode c [0x50, 0x08, 0x03, 0x05, 0x2F, 0x01] 0 6 =
      .error (.overrun 1 10 6) := by
    obtain rfl := Except.ok.inj hc
    decide +kernel
  obtain ⟨hmoved, -⟩ := decode_window c hle hstop
  have hplace : decode c bytes 1 7 = moved 1 (decode c [0x50, 0x08, 0x03, 0x05, 0x2F, 0x01] 0 6) :=
    hmoved
  refine ⟨c, hc, hle, hstop, halone, ?_⟩
  rw [hplace, halone]
  rfl

end VmProbe.Isa
