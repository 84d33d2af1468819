/-
VmProbe/Proofs/Wire/Request.lean

Request frames, written by the client and read by the server.

A frame is a header, which tells the opcode, and a body.  Each of the two is looked at by itself:
a frame begins with the header of an opcode when its magic number and its opcode byte say so
(`header_isPrefix_iff`), and what follows is read as a request with this opcode when it begins
with the body of that request (`ofBody_eq_ok_iff`).  Nothing is read after the body, so a frame
is read as a request if and only if it begins with the frame of that request:

    parse frame = .ok r ↔ ∃ written, r.encode = .ok written ∧ written <+: frame

A request has a frame unless it runs a file whose length does not fit into four bytes
(`Fits`), so writing and reading are inverse (`parse_encode_inverse`).
-/
import VmProbe.Bytes.Lemmas
import VmProbe.Wire.Request

namespace VmProbe.Wire.Request

open Bytes (toLittleEndian ofLittleEndian toBigEndian ofBigEndian)

variable {r : Request} {o : Opcode} {length : Nat} {file : List UInt8}
variable {frame body bytes written : List UInt8}

/-! ### Headers -/

@[simp] theorem length_header (o : Opcode) : (header o).length = headerLength := by
  rw [header, List.length_append, Bytes.length_toBigEndian]
  rfl

/-- The magic number and the opcode byte of a frame are those of its header. -/
theorem header_isPrefix_iff :
    header o <+: frame ↔
      headerLength ≤ frame.length ∧ ofBigEndian (frame.take 8) = requestMagic ∧
        Opcode.ofByte? (frame.getD 8 0) = some o := by
  constructor
  · rintro ⟨bytes, rfl⟩
    have hmagic : ofBigEndian (toBigEndian 8 requestMagic) = requestMagic :=
      Bytes.ofBigEndian_toBigEndian 8 requestMagic
    have htake : (header o ++ bytes).take 8 = toBigEndian 8 requestMagic := rfl
    have hbyte : (header o ++ bytes).getD 8 0 = o.toByte := rfl
    refine ⟨?_, ?_, ?_⟩
    · rw [List.length_append, length_header]
      exact Nat.le_add_right _ _
    · rw [htake, hmagic]
    · rw [hbyte, Opcode.ofByte?_toByte]
  · rintro ⟨hlength, hmagic, hopcode⟩
    have hlt : 8 < frame.length := hlength
    -- the eight bytes of the magic number, and the one of the opcode
    have height : toBigEndian 8 requestMagic = frame.take 8 := by
      have hwrite := Bytes.toBigEndian_ofBigEndian (frame.take 8)
      rwa [hmagic, List.length_take, Nat.min_eq_left hlt.le] at hwrite
    have hone : [o.toByte] = (frame.drop 8).take 1 := by
      rw [Opcode.toByte_of_ofByte? hopcode, List.drop_eq_getElem_cons hlt,
        List.getD_eq_getElem _ _ hlt]
      rfl
    rw [header, height, hone, ← List.take_add]
    exact List.take_prefix _ _

/-! ### Bodies -/

/-- Whether the length of the file fits into the four bytes that a run request has for it. -/
def Fits (r : Request) : Prop := ∀ file, r = run file → file.length < 2 ^ 32

theorem exists_body_iff : (∃ body, r.body = .ok body) ↔ r.Fits := by
  cases r with
  | run file =>
    have hsize : UInt32.size = 2 ^ 32 := rfl
    rw [body, hsize]
    constructor
    · rintro ⟨body, hbody⟩ _ ⟨⟩
      by_contra hlong
      rw [if_neg hlong] at hbody
      cases hbody
    · intro h
      exact ⟨_, if_pos (h file rfl)⟩
  | _ =>
    refine ⟨?_, fun _ => ⟨_, rfl⟩⟩
    rintro - file ⟨⟩

/-- The body of a request is read back, whatever comes after it. -/
theorem ofBody_append (h : r.body = .ok body) (length : Nat) (bytes : List UInt8) :
    ofBody length (body ++ bytes) r.opcode = .ok r := by
  cases r with
  | setBreakpoint a | removeBreakpoint a =>
    obtain rfl := Except.ok.inj h
    have hlength := Bytes.length_toLittleEndian 8 a.toNat
    have hlong : ¬ (toLittleEndian 8 a.toNat ++ bytes).length < 8 := by
      rw [List.length_append, hlength]
      omega
    rw [opcode, ofBody, if_neg hlong, List.take_left' hlength, Bytes.word_toLittleEndian]
  | run file =>
    rw [Request.body] at h
    split_ifs at h with hfits
    obtain rfl := Except.ok.inj h
    have hsize : ofLittleEndian (toLittleEndian 4 file.length) = file.length := by
      rw [Bytes.ofLittleEndian_toLittleEndian]
      exact Nat.mod_eq_of_lt hfits
    have hlength := Bytes.length_toLittleEndian 4 file.length
    have hlong : ¬ (toLittleEndian 4 file.length ++ (file ++ bytes)).length < 4 := by
      rw [List.length_append, hlength]
      omega
    have hrest : ¬ (file ++ bytes).length < file.length := by
      rw [List.length_append]
      omega
    rw [opcode, List.append_assoc, ofBody, if_neg hlong, List.take_left' hlength,
      List.drop_left' hlength, hsize]
    dsimp only
    rw [if_neg hrest, List.take_left]
  | _ => rfl

/-- What is read as a request begins with its body. -/
theorem ofBody_inv (h : ofBody length bytes o = .ok r) :
    r.opcode = o ∧ ∃ body, r.body = .ok body ∧ body <+: bytes := by
  cases o with
  | setBreakpoint | removeBreakpoint =>
    rw [ofBody] at h
    split_ifs at h with hshort
    obtain rfl := Except.ok.inj h
    have hlength : (bytes.take 8).length = 8 := by
      rw [List.length_take]
      omega
    refine ⟨rfl, _, rfl, ?_⟩
    rw [Bytes.toLittleEndian_word hlength]
    exact List.take_prefix 8 bytes
  | run =>
    rw [ofBody] at h
    dsimp only at h
    split_ifs at h with hshort hrest
    obtain rfl := Except.ok.inj h
    have hlength : (bytes.take 4).length = 4 := by
      rw [List.length_take]
      omega
    -- the length that is read is that of the file, and was written with four bytes
    have hfile := List.length_take_of_le (Nat.not_lt.1 hrest)
    have hlt := Bytes.ofLittleEndian_lt (bytes.take 4)
    have hsize := Bytes.toLittleEndian_ofLittleEndian (bytes.take 4)
    rw [hlength] at hlt hsize
    refine ⟨rfl, _, if_pos (hfile.trans_lt hlt), ?_⟩
    rw [hfile, hsize, ← List.take_add]
    exact List.take_prefix _ bytes
  | error => cases h
  | executionFinished => cases h
  | _ =>
    obtain rfl := Except.ok.inj h
    exact ⟨rfl, [], rfl, List.nil_prefix⟩

theorem ofBody_eq_ok_iff :
    ofBody length bytes o = .ok r ↔
      r.opcode = o ∧ ∃ body, r.body = .ok body ∧ body <+: bytes := by
  constructor
  · exact ofBody_inv
  · rintro ⟨rfl, body, hbody, rest, rfl⟩
    exact ofBody_append hbody length rest

/-! ### Frames -/

theorem encode_eq_ok_iff :
    r.encode = .ok frame ↔ ∃ body, r.body = .ok body ∧ header r.opcode ++ body = frame := by
  rw [encode]
  rcases r.body with e | body <;> simp [Except.map]

/-- A frame that begins with a header is read by what comes after it. -/
theorem parse_eq_ok_iff_header :
    parse frame = .ok r ↔
      ∃ o, header o <+: frame ∧ ofBody frame.length (frame.drop headerLength) o = .ok r := by
  simp only [header_isPrefix_iff]
  rw [parse, ← Nat.not_lt]
  dsimp only
  by_cases hlength : frame.length < headerLength
  · simp [hlength]
  · by_cases hmagic : ofBigEndian (frame.take 8) = requestMagic
    · rw [if_neg hlength, if_neg (not_not.2 hmagic)]
      rcases Opcode.ofByte? (frame.getD 8 0) with - | o <;> simp [hlength, hmagic]
    · simp [hlength, hmagic]

/-- A frame is read as a request if it begins with the frame of that request. -/
theorem parse_eq_ok_iff :
    parse frame = .ok r ↔ ∃ written, r.encode = .ok written ∧ written <+: frame := by
  simp only [parse_eq_ok_iff_header, ofBody_eq_ok_iff, encode_eq_ok_iff]
  have hdrop (o : Opcode) (rest : List UInt8) :
      (header o ++ rest).drop headerLength = rest := List.drop_left' (length_header o)
  constructor
  · rintro ⟨_, ⟨rest, rfl⟩, rfl, body, hbody, hrest⟩
    rw [hdrop] at hrest
    exact ⟨_, ⟨body, hbody, rfl⟩, (List.prefix_append_right_inj _).2 hrest⟩
  · rintro ⟨_, ⟨body, hbody, rfl⟩, rest, rfl⟩
    rw [List.append_assoc]
    refine ⟨r.opcode, List.prefix_append _ _, rfl, body, hbody, ?_⟩
    rw [hdrop]
    exact List.prefix_append _ _

/-- A request has a frame unless its file is too long. -/
theorem exists_encode_iff : (∃ frame, r.encode = .ok frame) ↔ r.Fits := by
  rw [← exists_body_iff]
  simp only [encode_eq_ok_iff]
  constructor
  · rintro ⟨_, body, hbody, -⟩
    exact ⟨body, hbody⟩
  · rintro ⟨body, hbody⟩
    exact ⟨_, body, hbody, rfl⟩

/-- A file that is too long is refused, and the error tells its length. -/
theorem encode_run_of_le (h : 2 ^ 32 ≤ file.length) :
    (run file).encode = .error (.tooLarge file.length) := by
  have hbody : (run file).body = .error (.tooLarge file.length) := if_neg (Nat.not_lt.2 h)
  rw [encode, hbody]
  rfl

/-- **Writing and reading are inverse.**  The frame of a request is read as that request, with
anything after it; a frame that is read as a request begins with the frame of that request; and
a file whose length does not fit into four bytes has no frame. -/
theorem parse_encode_inverse (r : Request) :
    ((∀ file, r = run file → file.length < 2 ^ 32) →
      ∃ frame, r.encode = .ok frame ∧ ∀ rest, parse (frame ++ rest) = .ok r) ∧
    (∀ frame, parse frame = .ok r → ∃ written, r.encode = .ok written ∧ written <+: frame) ∧
    ∀ file, r = run file → 2 ^ 32 ≤ file.length → r.encode = .error (.tooLarge file.length) := by
  refine ⟨fun hfits => ?_, fun frame => parse_eq_ok_iff.1, ?_⟩
  · obtain ⟨frame, hframe⟩ := exists_encode_iff.2 hfits
    exact ⟨frame, hframe, fun rest => parse_eq_ok_iff.2 ⟨frame, hframe, List.prefix_append _ _⟩⟩
  · rintro file rfl hlong
    exact encode_run_of_le hlong

/-- A file of two bytes, with one byte after its frame. -/
theorem parse_encode_inverse_run :
    let r := run [0xCA, 0xFE]
    (∀ file, r = run file → file.length < 2 ^ 32) ∧
      ∃ frame, r.encode = .ok frame ∧ parse (frame ++ [0]) = .ok r := by
  intro r
  have hfits : ∀ file, r = run file → file.length < 2 ^ 32 := by
    intro file hfile
    obtain rfl := Request.run.inj hfile
    decide
  obtain ⟨frame, hframe, hread⟩ := (parse_encode_inverse r).1 hfits
  exact ⟨hfits, frame, hframe, hread [0]⟩

end VmProbe.Wire.Request
