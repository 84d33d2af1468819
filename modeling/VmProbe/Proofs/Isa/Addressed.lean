/-
VmProbe/Proofs/Isa/Addressed.lean

Decoding with 64-bit addresses.

`decode` works on what is left of the code, so it has no addresses that could run out and no
index that could miss the bytes.  A machine has both.  Here the same loop runs over the whole
byte string with addresses of 64 bits: sums of addresses stop at the largest one, every read
is checked against the bytes, and after each line the cursor must have moved on.  What can go
wrong besides a refused instruction has a name of its own:

    outside     bytes outside the string were asked for
    stuck       the cursor stayed where it was, or wrapped around

What is left of the code is a window of the string, from the cursor to the limit (`window`).

Main statement: neither happens, at any start and end, and the loop gives what `decode` gives
(`Addressed.decode_eq`).  The only thing asked for is that the string is shorter than `2 ^ 63`
bytes, as every string in a 64-bit memory is.
-/
import Mathlib
import VmProbe.Isa.Listing

namespace VmProbe.Isa

/-! ### The loop over addresses -/

/-- How the loop ends without lines. -/
inductive Halt
  | refused (e : DecodeError)
  | outside (start stop : UInt64)
  | stuck (cursor : UInt64)
  deriving DecidableEq, Repr

/-- The sum of two addresses, or the largest address when there is no such sum. -/
def saturatingAdd (a b : UInt64) : UInt64 :=
  UInt64.ofNat (min (a.toNat + b.toNat) (UInt64.size - 1))

/-- One instruction being read: where it starts, how much of it was read, and where the code
ends. -/
structure Reader where
  address : UInt64
  width : UInt64
  limit : UInt64

namespace Reader

/-- The next bytes of the instruction. -/
def take (bytes : List UInt8) (count : Nat) (r : Reader) : Except Halt (List UInt8 × Reader) :=
  let start := saturatingAdd r.address r.width
  let stop := saturatingAdd start (UInt64.ofNat count)
  if r.limit < stop then
    .error (.refused (.overrun r.address.toNat stop.toNat r.limit.toNat))
  else if start.toNat + count = stop.toNat ∧ stop.toNat ≤ bytes.length then
    .ok ((bytes.drop start.toNat).take count, { r with width := r.width + UInt64.ofNat count })
  else .error (.outside start stop)

/-- The text of the next operands. -/
def operands (bytes : List UInt8) : List Operand → Reader → Except Halt (String × Reader)
  | [], r => .ok ("", r)
  | o :: os, r =>
    match r.take bytes o.extent with
    | .error h => .error h
    | .ok (code, r) =>
      match o.text code with
      | .error e => .error (.refused (e.inInstruction r.address.toNat))
      | .ok text =>
        match operands bytes os r with
        | .error h => .error h
        | .ok (more, r) => .ok (text ++ " " ++ more, r)

end Reader

namespace Addressed

/-- The line at an address. -/
def line (c : Catalog) (bytes : List UInt8) (limit address : UInt64) : Except Halt Line :=
  match (Reader.mk address 0 limit).take bytes 1 with
  | .error h => .error h
  | .ok (code, r) =>
    let opcode := code.headD 0
    match c.get? opcode with
    | none => .error (.refused (.unknownOpcode opcode address.toNat))
    | some i =>
      match r.operands bytes i.operands with
      | .error h => .error h
      | .ok (text, r) => .ok ⟨address.toNat, i.heading ++ text, r.width.toNat⟩

/-- The lines from `cursor` to `stop`. -/
def lines (c : Catalog) (bytes : List UInt8) (limit stop cursor : UInt64) :
    Except Halt (List Line) :=
  if cursor < stop then
    match line c bytes limit cursor with
    | .error h => .error h
    | .ok l =>
      if cursor < cursor + UInt64.ofNat l.size then
        match lines c bytes limit stop (cursor + UInt64.ofNat l.size) with
        | .error h => .error h
        | .ok ls => .ok (l :: ls)
      else .error (.stuck cursor)
  else .ok []
termination_by stop.toNat - cursor.toNat
decreasing_by
  rename_i hstop hcursor
  rw [UInt64.lt_iff_toNat_lt] at hstop hcursor
  omega

/-- The listing of `bytes[start, stop)`. -/
def decode (c : Catalog) (bytes : List UInt8) (start stop : UInt64) : Except Halt (List Line) :=
  lines c bytes (UInt64.ofNat (min stop.toNat bytes.length)) stop start

end Addressed

variable {c : Catalog} {i : Instruction} {os : List Operand} {bytes rest : List UInt8}
variable {r : Reader} {limit stop cursor : UInt64}

/-! ### Windows -/

/-- The bytes from one position to another. -/
def window (bytes : List UInt8) (start stop : Nat) : List UInt8 := (bytes.take stop).drop start

theorem length_window {start stop : Nat} (h : stop ≤ bytes.length) :
    (window bytes start stop).length = stop - start := by
  rw [window, List.length_drop, List.length_take_of_le h]

theorem drop_window (bytes : List UInt8) (start stop n : Nat) :
    (window bytes start stop).drop n = window bytes (start + n) stop := List.drop_drop

/-- What a window begins with can be cut out before or after its end is. -/
theorem take_window {start stop n : Nat} (h : start + n ≤ stop) :
    (window bytes start stop).take n = (bytes.drop start).take n := by
  rw [window, List.drop_take, List.take_take, Nat.min_eq_left (by omega)]

/-- What is decoded is the window from the start to the limit. -/
theorem decode_eq_decodeFrom (c : Catalog) (bytes : List UInt8) (start stop : Nat) :
    decode c bytes start stop =
      decodeFrom c (min stop bytes.length) stop start
        (window bytes start (min stop bytes.length)) := rfl

/-! ### Reading -/

theorem toNat_saturatingAdd {a b : UInt64} (h : a.toNat + b.toNat < UInt64.size) :
    (saturatingAdd a b).toNat = a.toNat + b.toNat := by
  have hmin : min (a.toNat + b.toNat) (UInt64.size - 1) = a.toNat + b.toNat := by omega
  rw [saturatingAdd, hmin, UInt64.toNat_ofNat_of_lt' h]

theorem toNat_add_ofNat {a : UInt64} {n : Nat} (h : a.toNat + n < UInt64.size) :
    (a + UInt64.ofNat n).toNat = a.toNat + n := by
  rw [UInt64.toNat_add, UInt64.toNat_ofNat_of_lt' (by omega), Nat.mod_eq_of_lt h]

theorem Operand.extent_pos (o : Operand) : 0 < o.extent ∧ o.extent ≤ 8 := by
  cases o <;> simp only [Operand.extent] <;> try split_ifs
  all_goals omega

/-- As long as no sum of addresses runs out, a read sees the bytes between its position and
the limit, and nothing else. -/
theorem Reader.take_eq {count : Nat} (hcount : 0 < count)
    (hsum : r.address.toNat + r.width.toNat + count < UInt64.size)
    (hlimit : r.limit.toNat ≤ bytes.length)
    (hrest : window bytes (r.address.toNat + r.width.toNat) r.limit.toNat = rest) :
    r.take bytes count =
      if rest.length < count then
        .error (.refused (.overrun r.address.toNat (r.address.toNat + r.width.toNat + count)
          r.limit.toNat))
      else .ok (rest.take count, { r with width := r.width + UInt64.ofNat count }) := by
  have hstart : (saturatingAdd r.address r.width).toNat = r.address.toNat + r.width.toNat :=
    toNat_saturatingAdd (by omega)
  have hn : (UInt64.ofNat count).toNat = count := UInt64.toNat_ofNat_of_lt' (by omega)
  have hstop : (saturatingAdd (saturatingAdd r.address r.width) (UInt64.ofNat count)).toNat
      = r.address.toNat + r.width.toNat + count := by
    rw [toNat_saturatingAdd (by omega), hstart, hn]
  have hlen : rest.length = r.limit.toNat - (r.address.toNat + r.width.toNat) := by
    rw [← hrest, length_window hlimit]
  simp only [Reader.take, UInt64.lt_iff_toNat_lt, hstart, hstop]
  by_cases hshort : rest.length < count
  · rw [if_pos hshort, if_pos (by omega)]
  · have hinside : r.address.toNat + r.width.toNat + count ≤ bytes.length := by omega
    rw [if_neg hshort, if_neg (by omega), if_pos ⟨trivial, hinside⟩]
    rw [← hrest, take_window (by omega)]

theorem readOperands_bounds {address limit position stop : Nat} {text : String}
    (h : readOperands address limit position os rest = .ok (text, stop)) :
    position ≤ stop ∧ stop ≤ position + rest.length := by
  induction os generalizing position rest text with
  | nil => cases h; exact ⟨Nat.le_refl _, Nat.le_add_right _ _⟩
  | cons o os ih =>
    rw [readOperands] at h
    split at h
    · cases h
    · split at h
      · cases h
      · split at h
        · cases h
        · next more stop' hmore =>
          cases h
          obtain ⟨hlow, hhigh⟩ := ih hmore
          rw [List.length_drop] at hhigh
          constructor <;> omega

/-- Reading operands over addresses is reading them from what is left of the code; the width
of the reader grows by what was read. -/
theorem Reader.operands_eq (os : List Operand) (rest : List UInt8) (hbytes : bytes.length < 2 ^ 63)
    (hlimit : r.limit.toNat ≤ bytes.length)
    (hpos : r.address.toNat + r.width.toNat ≤ r.limit.toNat)
    (hrest : window bytes (r.address.toNat + r.width.toNat) r.limit.toNat = rest) :
    r.operands bytes os =
      match readOperands r.address.toNat r.limit.toNat (r.address.toNat + r.width.toNat) os
        rest with
      | .error e => .error (.refused e)
      | .ok (text, stop) =>
        .ok (text, { r with width := UInt64.ofNat (stop - r.address.toNat) }) := by
  have hsize : UInt64.size = 2 ^ 64 := rfl
  induction os generalizing r rest with
  | nil =>
    simp only [Reader.operands, readOperands, Nat.add_sub_cancel_left, UInt64.ofNat_toNat]
  | cons o os ih =>
    obtain ⟨hext, hext8⟩ := o.extent_pos
    rw [Reader.operands, Reader.take_eq hext (by omega) hlimit hrest, readOperands]
    by_cases hshort : rest.length < o.extent
    · rw [if_pos hshort, if_pos hshort]
    · rw [if_neg hshort, if_neg hshort]
      rcases ht : o.text (rest.take o.extent) with e | text
      · simp only [ht]
      · have hlen : rest.length = r.limit.toNat - (r.address.toNat + r.width.toNat) := by
          rw [← hrest, length_window hlimit]
        have hw : (r.width + UInt64.ofNat o.extent).toNat = r.width.toNat + o.extent :=
          toNat_add_ofNat (by omega)
        -- the reader stands after the operand, with the rest of the code before it
        have hnext := ih (r := { r with width := r.width + UInt64.ofNat o.extent })
          (rest.drop o.extent) hlimit (by simp only [hw]; omega)
          (by simp only [hw]; rw [← hrest, drop_window, Nat.add_assoc])
        simp only [hw, ← Nat.add_assoc] at hnext
        simp only [ht, hnext]
        rcases readOperands r.address.toNat r.limit.toNat
          (r.address.toNat + r.width.toNat + o.extent) os (rest.drop o.extent) with e | ⟨more, s⟩
        · rfl
        · rfl

/-! ### Lines -/

/-- The line at an address is decoded from what is left of the code there. -/
theorem Addressed.line_eq (hbytes : bytes.length < 2 ^ 63) (hlimit : limit.toNat ≤ bytes.length)
    (hcursor : cursor.toNat + 1 < UInt64.size)
    (hrest : window bytes cursor.toNat limit.toNat = rest) :
    Addressed.line c bytes limit cursor =
      match rest with
      | [] => .error (.refused (.overrun cursor.toNat (cursor.toNat + 1) limit.toNat))
      | opcode :: operands =>
        (decodeOne c cursor.toNat limit.toNat opcode operands).mapError .refused := by
  have hsize : UInt64.size = 2 ^ 64 := rfl
  rw [Addressed.line, Reader.take_eq (r := ⟨cursor, 0, limit⟩) Nat.one_pos hcursor hlimit hrest]
  rcases rest with - | ⟨opcode, operands⟩
  · rfl
  · have hlen := congrArg List.length hrest
    rw [length_window hlimit, List.length_cons] at hlen
    have hone : ((0 : UInt64) + UInt64.ofNat 1).toNat = 1 := rfl
    have hops := fun os => Reader.operands_eq os operands
      (r := ⟨cursor, 0 + UInt64.ofNat 1, limit⟩) hbytes hlimit (by simp only [hone]; omega)
      (by simp only [hone]; rw [← drop_window, hrest]; rfl)
    simp only [List.length_cons, Nat.not_lt.2 (Nat.le_add_left 1 _), if_false, List.take_succ_cons,
      List.headD_cons, decodeOne]
    rcases hget : c.get? opcode with - | i
    · rfl
    · simp only [hops, hone]
      rcases hread : readOperands cursor.toNat limit.toNat (cursor.toNat + 1) i.operands operands
        with e | ⟨text, s⟩
      · rfl
      · obtain ⟨hlow, hhigh⟩ := readOperands_bounds hread
        have hs : (UInt64.ofNat (s - cursor.toNat)).toNat = s - cursor.toNat :=
          UInt64.toNat_ofNat_of_lt' (by omega)
        simp only [hs]
        rfl

/-- A line takes its opcode and nothing that is not there. -/
theorem decodeOne_bounds {address limit : Nat} {opcode : UInt8} {l : Line}
    (h : decodeOne c address limit opcode rest = .ok l) :
    1 ≤ l.size ∧ l.size ≤ 1 + rest.length := by
  rw [decodeOne] at h
  split at h
  · cases h
  · split at h
    · cases h
    · next text s hread =>
      cases h
      obtain ⟨hlow, hhigh⟩ := readOperands_bounds hread
      show 1 ≤ s - address ∧ s - address ≤ 1 + rest.length
      omega

/-- The loop from any cursor does what `decodeFrom` does with what is left of the code. -/
theorem Addressed.lines_eq (hbytes : bytes.length < 2 ^ 63) (hlimit : limit.toNat ≤ bytes.length) :
    Addressed.lines c bytes limit stop cursor =
      (decodeFrom c limit.toNat stop.toNat cursor.toNat
        (window bytes cursor.toNat limit.toNat)).mapError .refused := by
  have hsize : UInt64.size = 2 ^ 64 := rfl
  -- the distance to the end falls with every line
  induction hd : stop.toNat - cursor.toNat using Nat.strong_induction_on generalizing cursor with
  | _ d ih =>
    subst hd
    rw [Addressed.lines, decodeFrom.eq_def]
    by_cases hstop : cursor < stop
    · have hstop' : cursor.toNat < stop.toNat := UInt64.lt_iff_toNat_lt.1 hstop
      have hlt : stop.toNat < UInt64.size := stop.toNat_lt
      rw [if_pos hstop, if_pos hstop']
      rcases hrest : window bytes cursor.toNat limit.toNat with - | ⟨opcode, operands⟩
      · rw [Addressed.line_eq hbytes hlimit (by omega) hrest]
        rfl
      · rw [Addressed.line_eq hbytes hlimit (by omega) hrest]
        rcases hone : decodeOne c cursor.toNat limit.toNat opcode operands with e | l
        · simp only [hone]
          rfl
        · obtain ⟨hpos, hfit⟩ := decodeOne_bounds hone
          have hlen := congrArg List.length hrest
          rw [length_window hlimit, List.length_cons] at hlen
          have hnext : (cursor + UInt64.ofNat l.size).toNat = cursor.toNat + l.size :=
            toNat_add_ofNat (by omega)
          have hmove : cursor < cursor + UInt64.ofNat l.size := by
            rw [UInt64.lt_iff_toNat_lt, hnext]
            omega
          have hleft : window bytes (cursor.toNat + l.size) limit.toNat
              = operands.drop (l.size - 1) := by
            rw [← drop_window, hrest]
            obtain ⟨n, hn⟩ : ∃ n, l.size = n + 1 := ⟨l.size - 1, by omega⟩
            rw [hn, List.drop_succ_cons, Nat.add_sub_cancel]
          have hrec := ih (stop.toNat - (cursor + UInt64.ofNat l.size).toNat)
            (by rw [hnext]; omega) rfl
          rw [hnext, hleft] at hrec
          simp only [hone, Except.mapError, if_pos hmove, hrec]
          rcases decodeFrom c limit.toNat stop.toNat (cursor.toNat + l.size)
            (operands.drop (l.size - 1)) with e | ls
          · rfl
          · rfl
    · rw [if_neg hstop, if_neg (fun h => hstop (UInt64.lt_iff_toNat_lt.2 h))]
      rfl

/-- **The loop over addresses never reads outside the bytes and always moves on.**  It ends
with the lines of `decode`, or refuses the code for the same reason. -/
theorem Addressed.decode_eq {start : UInt64} (hbytes : bytes.length < 2 ^ 63) :
    Addressed.decode c bytes start stop =
      (Isa.decode c bytes start.toNat stop.toNat).mapError .refused := by
  have hmin : (UInt64.ofNat (min stop.toNat bytes.length)).toNat = min stop.toNat bytes.length :=
    UInt64.toNat_ofNat_of_lt' (lt_of_le_of_lt (Nat.min_le_left _ _) stop.toNat_lt)
  rw [Addressed.decode, Addressed.lines_eq hbytes (by rw [hmin]; exact Nat.min_le_right _ _),
    hmin, decode_eq_decodeFrom]

end VmProbe.Isa
