/-
VmProbe/Proofs/Text/Utf8.lean

Strict reading and writing of text are inverse to each other: bytes are read as a text exactly
when they are its encoding.

    decode? bs = some s  ↔  encode s = bs

So "bytes that are valid UTF-8" and "bytes that encode some text" are the same, and a text that
is read tells its bytes.
-/
import Mathlib
import VmProbe.Text.Utf8

namespace VmProbe.Text

variable {bs : List UInt8} {s : String}

/-- A byte array is listed from the front, with what was listed before in reverse. -/
theorem toList_loop_eq (a : ByteArray) (i : Nat) (acc : List UInt8) :
    ByteArray.toList.loop a i acc = acc.reverse ++ a.data.toList.drop i := by
  fun_induction ByteArray.toList.loop a i acc with
  | case1 i acc hlt ih =>
    have hi : i < a.data.toList.length := hlt
    have hget : a.get! i = a.data.toList[i] := getElem!_pos a.data i hlt
    rw [ih, List.drop_eq_getElem_cons hi, hget, List.reverse_cons, List.append_assoc]
    rfl
  | case2 i acc hge =>
    rw [List.drop_eq_nil_of_le (Nat.le_of_not_lt hge), List.append_nil]

theorem encode_eq (s : String) : encode s = s.toByteArray.data.toList := toList_loop_eq _ 0 []

/-- **Bytes are read as a text exactly when they are its encoding.** -/
theorem decode?_eq_some_iff : decode? bs = some s ↔ encode s = bs := by
  rw [encode_eq, decode?, String.fromUTF8?]
  constructor
  · intro h
    split_ifs at h with hvalid
    obtain rfl := Option.some.inj h
    rfl
  · intro h
    have harray : (⟨bs.toArray⟩ : ByteArray) = s.toByteArray := by
      rw [← h, Array.toArray_toList]
    rw [harray, dif_pos s.isValidUTF8]
    rfl

/-! ### The bytes of a text -/

theorem encode_ofList (cs : List Char) :
    encode (.ofList cs) = cs.flatMap String.utf8EncodeChar := by
  rw [encode_eq, String.toByteArray_ofList, List.utf8Encode, List.toList_data_toByteArray]

theorem encode_append (s t : String) : encode (s ++ t) = encode s ++ encode t := by
  rw [encode_eq, encode_eq, encode_eq, String.toByteArray_append, ByteArray.toList_data_append]

/-- The byte of a line break is in no other character. -/
theorem eq_newline_of_mem {c : Char} (h : 0x0A ∈ String.utf8EncodeChar c) : c = '\n' := by
  rw [String.utf8EncodeChar] at h
  split_ifs at h with hone htwo hthree
  · have hbyte := congrArg UInt8.toNat (List.mem_singleton.1 h)
    rw [UInt8.toNat_ofNat', Nat.mod_eq_of_lt (by omega)] at hbyte
    exact Char.toNat_inj.1 hbyte.symm
  -- the other bytes are at least `0x80`
  all_goals
    simp only [List.mem_cons, List.not_mem_nil, or_false, ← UInt8.toNat_inj,
      UInt8.toNat_ofNat'] at h
    have hnewline : (0x0A : UInt8).toNat = 10 := rfl
    omega

theorem newline_not_mem_encode (h : '\n' ∉ s.toList) : 0x0A ∉ encode s := by
  rw [← String.ofList_toList (s := s), encode_ofList, List.mem_flatMap]
  rintro ⟨c, hc, hbyte⟩
  exact h (eq_newline_of_mem hbyte ▸ hc)

end VmProbe.Text
