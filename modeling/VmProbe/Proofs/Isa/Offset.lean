/-
VmProbe/Proofs/Isa/Offset.lean

The texts of registers and of register offsets.

A register offset says one of three things (`Offset`), and its text says neither less nor more
(`Offset.inner_inj`): a register name holds neither a blank nor a bracket, so the parts of the text
can be told apart.  Of the six bytes, the layout may leave some unread.  What the text determines
are the others (`registerOffsetText_eq_iff`).
-/
import VmProbe.Bytes.Lemmas
import VmProbe.Isa.Listing
import VmProbe.Proofs.Text.Hex
import VmProbe.Proofs.Text.Words

namespace VmProbe.Isa

open Bytes (ofLittleEndian)
open Machine (Register TypeTag)

variable {b b' : UInt8} {code code' : List UInt8} {text : String}

/-! ### Registers -/

/-- A character that neither ends a part of a word nor opens or closes a bracket. -/
def IsPlain (c : Char) : Prop := c ≠ ' ' ∧ c ≠ '[' ∧ c ≠ ']'

instance (c : Char) : Decidable (IsPlain c) := inferInstanceAs (Decidable (_ ∧ _))

theorem registerName_inj {r r' : Register} (h : r.name = r'.name) : r = r' := by
  have htable : ∀ i i' : Fin 36, (Register.mk i).name = (Register.mk i').name → i = i' := by
    decide +kernel
  obtain ⟨i⟩ := r
  obtain ⟨i'⟩ := r'
  rw [htable i i' h]

theorem plain_of_mem_toString {n : ℕ} {c : Char} (h : c ∈ (toString n).toList) :
    c ≠ '?' ∧ IsPlain c := by
  rw [Nat.toString_eq_ofList_toDigits, String.toList_ofList] at h
  have hdigit := Nat.isDigit_of_mem_toDigits (by decide) (by decide) h
  refine ⟨?_, ?_, ?_, ?_⟩ <;> rintro rfl <;> cases hdigit

/-- The name of a register is plain, and is not marked as that of an unknown one. -/
theorem plain_of_mem_name (r : Register) : ∀ c ∈ r.name.toList, c ≠ '?' ∧ IsPlain c := by
  have hletter (letter : String) (n : ℕ) (h : ∀ c ∈ letter.toList, c ≠ '?' ∧ IsPlain c) :
      ∀ c ∈ (letter ++ toString n).toList, c ≠ '?' ∧ IsPlain c := by
    rw [String.toList_append]
    exact List.forall_mem_append.2 ⟨h, fun c hc => plain_of_mem_toString hc⟩
  rw [Register.name]
  split_ifs
  · simp [IsPlain]
  · simp [IsPlain]
  · simp [IsPlain]
  · simp [IsPlain]
  · exact hletter "r" _ (by simp [IsPlain])
  · exact hletter "f" _ (by simp [IsPlain])

theorem isPlain_of_mem_hexByte {c : Char} (h : c ∈ (Text.hexByte b).toList) : IsPlain c := by
  rw [Text.hexByte, Text.fixedHex, String.toList_ofList] at h
  rcases List.mem_cons.1 h with rfl | h
  · decide
  rcases List.mem_cons.1 h with rfl | h
  · decide
  · have htable : ∀ d < 16, IsPlain (Text.hexDigit .lower d) := by decide
    obtain ⟨d, hd, rfl⟩ := Text.exists_hexDigit_of_mem h
    exact htable d hd

theorem isPlain_registerText (b : UInt8) : ∀ c ∈ (registerText b).toList, IsPlain c := by
  rw [registerText]
  rcases Register.ofId? b with - | r
  · rw [String.toList_append]
    exact List.forall_mem_append.2
      ⟨List.forall_mem_singleton.2 (by decide), fun c hc => isPlain_of_mem_hexByte hc⟩
  · exact fun c hc => (plain_of_mem_name r c hc).2

/-- **The text of a register tells its byte,** also of one that does not exist. -/
theorem registerText_inj (h : registerText b = registerText b') : b = b' := by
  have hmarked (r : Register) (s : String) : r.name ≠ "?" ++ s := by
    intro hs
    have hmem : '?' ∈ r.name.toList := by
      rw [hs, String.toList_append]
      exact List.mem_cons_self
    exact (plain_of_mem_name r _ hmem).1 rfl
  rw [registerText, registerText] at h
  rcases hr : Register.ofId? b with - | r <;> rcases hr' : Register.ofId? b' with - | r' <;>
    rw [hr, hr'] at h
  · exact Text.hexByte_inj ((String.append_right_inj _).1 h)
  · exact absurd h.symm (hmarked r' _)
  · exact absurd h (hmarked r _)
  · obtain rfl := registerName_inj h
    exact (Register.id_of_ofId? hr).symm.trans (Register.id_of_ofId? hr')

/-! ### What a register offset says -/

/-- An address relative to a register. -/
inductive Offset
  | bare (base : UInt8)
  | displaced (negative : Bool) (base : UInt8) (displacement : ℕ)
  | indexed (negative : Bool) (base index : UInt8) (scale : ℕ)

namespace Offset

/-- What bytes say in a layout. -/
def ofCode (code : List UInt8) : OffsetLayout → Offset
  | .bare => bare (code.getD 1 0)
  | .displaced negative => displaced negative (code.getD 1 0) (ofLittleEndian (code.drop 2))
  | .indexed negative =>
    indexed negative (code.getD 1 0) (code.getD 2 0) (ofLittleEndian ((code.drop 3).take 2))

/-- The sign of a term. -/
def sign (negative : Bool) : Char := if negative then '-' else '+'

/-- The text inside of the brackets. -/
def inner : Offset → List Char
  | bare base => (registerText base).toList
  | displaced negative base displacement =>
    (registerText base).toList ++ ' ' :: sign negative :: ' ' :: (toString displacement).toList
  | indexed negative base index scale =>
    (registerText base).toList ++ ' ' :: sign negative :: ' ' ::
      ((registerText index).toList ++ ' ' :: '*' :: ' ' :: (toString scale).toList)

theorem sign_inj {negative negative' : Bool} (h : sign negative = sign negative') :
    negative = negative' := by
  cases negative <;> cases negative' <;> first | rfl | cases h

theorem isPlain_toString (n : ℕ) : ∀ c ∈ (toString n).toList, IsPlain c :=
  fun _ hc => (plain_of_mem_toString hc).2

theorem eq_of_register {b b' : UInt8} (h : (registerText b).toList = (registerText b').toList) :
    b = b' := registerText_inj (String.toList_inj.1 h)

theorem eq_of_toString {n n' : ℕ} (h : (toString n).toList = (toString n').toList) : n = n' :=
  Nat.repr_injective (String.toList_inj.1 h)

theorem not_mem_inner (o : Offset) : ']' ∉ o.inner := by
  have hregister (b : UInt8) : ']' ∉ (registerText b).toList := fun h =>
    (isPlain_registerText b _ h).2.2 rfl
  have hnumber (n : ℕ) : ']' ∉ Nat.toDigits 10 n := by
    intro h
    cases Nat.isDigit_of_mem_toDigits (by decide) (by decide) h
  have hsign (negative : Bool) : ']' ≠ sign negative := by cases negative <;> decide
  cases o with
  | bare base => exact hregister base
  | displaced negative base displacement =>
    simp [inner, hregister base, hsign negative, hnumber displacement]
  | indexed negative base index scale =>
    simp [inner, hregister base, hsign negative, hregister index, hnumber scale]

/-- **The text tells what the offset says.** -/
theorem inner_inj {o o' : Offset} (h : o.inner ++ [']'] = o'.inner ++ [']']) : o = o' := by
  rcases o with base | ⟨negative, base, displacement⟩ | ⟨negative, base, index, scale⟩ <;>
    rcases o' with base' | ⟨negative', base', displacement'⟩ |
      ⟨negative', base', index', scale'⟩ <;>
    simp only [inner, List.append_assoc, List.cons_append] at h <;>
    obtain ⟨hbase, hend, hrest⟩ := Text.run_inj (isPlain_registerText base)
      (isPlain_registerText base') (by decide) (by decide) h <;>
    obtain rfl := eq_of_register hbase
  case bare.bare => rfl
  case displaced.displaced =>
    obtain ⟨hsign, hrest⟩ := List.cons.inj hrest
    obtain ⟨hnumber, -, -⟩ := Text.run_inj (isPlain_toString displacement)
      (isPlain_toString displacement') (by decide) (by decide) (List.cons.inj hrest).2
    rw [sign_inj hsign, eq_of_toString hnumber]
  case indexed.indexed =>
    obtain ⟨hsign, hrest⟩ := List.cons.inj hrest
    obtain ⟨hindex, -, hrest⟩ := Text.run_inj (isPlain_registerText index)
      (isPlain_registerText index') (by decide) (by decide) (List.cons.inj hrest).2
    obtain ⟨hnumber, -, -⟩ := Text.run_inj (isPlain_toString scale) (isPlain_toString scale')
      (by decide) (by decide) (List.cons.inj (List.cons.inj hrest).2).2
    rw [sign_inj hsign, eq_of_register hindex, eq_of_toString hnumber]
  case displaced.indexed =>
    -- a number ends at the bracket, a register at a blank
    have hparts := Text.run_inj (isPlain_toString displacement) (isPlain_registerText index')
      (by decide) (by decide) (List.cons.inj (List.cons.inj hrest).2).2
    cases hparts.2.1
  case indexed.displaced =>
    have hparts := Text.run_inj (isPlain_registerText index) (isPlain_toString displacement')
      (by decide) (by decide) (List.cons.inj (List.cons.inj hrest).2).2
    cases hparts.2.1
  -- a base alone ends at the bracket, the base of the other forms at a blank
  all_goals cases hend

end Offset

/-! ### The bytes of a register offset -/

/-- The bytes of a register offset that its layout leaves unread, counted from 0. -/
def unread (selector : UInt8) : List ℕ :=
  if selector = 0x4F then [2, 3, 4, 5]
  else if selector = 0x1F ∨ selector = 0x8F then [5]
  else []

/-- The selector of a layout. -/
def OffsetLayout.selector : OffsetLayout → UInt8
  | bare => 0x4F
  | displaced negative => if negative then 0xAF else 0x2F
  | indexed negative => if negative then 0x8F else 0x1F

theorem selector_of_ofSelector? {l : OffsetLayout} (h : OffsetLayout.ofSelector? b = some l) :
    l.selector = b := by
  rw [OffsetLayout.ofSelector?] at h
  split_ifs at h with h1 h2 h3 h4 h5
  · cases h
    exact h1.symm
  · cases h
    exact h2.symm
  · cases h
    exact h3.symm
  · cases h
    exact h4.symm
  · cases h
    exact h5.symm

theorem unread_selector (l : OffsetLayout) :
    unread l.selector =
      match l with
      | .bare => [2, 3, 4, 5]
      | .displaced _ => []
      | .indexed _ => [5] := by
  rcases l with - | negative | negative
  · rfl
  · cases negative <;> rfl
  · cases negative <;> rfl

/-- The same bytes, apart from those that are not read. -/
def SameOffset (code code' : List UInt8) : Prop :=
  ∀ k, k ∉ unread (code.headD 0) → code[k]? = code'[k]?

theorem sameOffset_iff {s s' x x' y y' z z' w w' : UInt8} :
    SameOffset [s, b, x, y, z, w] [s', b', x', y', z', w'] ↔
      s = s' ∧ b = b' ∧ (2 ∉ unread s → x = x') ∧ (3 ∉ unread s → y = y') ∧
        (4 ∉ unread s → z = z') ∧ (5 ∉ unread s → w = w') := by
  have hread : 0 ∉ unread s ∧ 1 ∉ unread s := by
    rw [unread]
    split_ifs <;> decide
  constructor
  · intro h
    exact ⟨Option.some.inj (h 0 hread.1), Option.some.inj (h 1 hread.2),
      fun hk => Option.some.inj (h 2 hk), fun hk => Option.some.inj (h 3 hk),
      fun hk => Option.some.inj (h 4 hk), fun hk => Option.some.inj (h 5 hk)⟩
  · rintro ⟨rfl, rfl, h2, h3, h4, h5⟩ k hk
    match k with
    | 0 => rfl
    | 1 => rfl
    | 2 => exact congrArg some (h2 hk)
    | 3 => exact congrArg some (h3 hk)
    | 4 => exact congrArg some (h4 hk)
    | 5 => exact congrArg some (h5 hk)
    | _ + 6 => rfl

/-- The text of six bytes is that of what they say. -/
theorem registerOffsetText_eq_ok_iff :
    registerOffsetText code = .ok text ↔
      ∃ l, OffsetLayout.ofSelector? (code.headD 0) = some l ∧
        '[' :: ((Offset.ofCode code l).inner ++ [']']) = text.toList := by
  have hsign (negative : Bool) : (signText negative).toList = [' ', Offset.sign negative, ' '] := by
    cases negative <;> rfl
  rw [registerOffsetText]
  rcases OffsetLayout.ofSelector? (code.headD 0) with - | l
  · simp
  · simp only [Option.some.injEq, exists_eq_left']
    cases l <;>
      simp [Offset.ofCode, Offset.inner, ← String.toList_inj, String.toList_append, hsign]

theorem exists_of_length_eq_six (h : code.length = 6) :
    ∃ s b x y z w, code = [s, b, x, y, z, w] := by
  match code, h with
  | [s, b, x, y, z, w], _ => exact ⟨s, b, x, y, z, w, rfl⟩

/-- **The text of six bytes determines those that are read, and no others.** -/
theorem registerOffsetText_eq_iff (hlength : code.length = 6) (hlength' : code'.length = 6)
    (h : registerOffsetText code = .ok text) :
    registerOffsetText code' = .ok text ↔ SameOffset code code' := by
  obtain ⟨s, b, x, y, z, w, rfl⟩ := exists_of_length_eq_six hlength
  obtain ⟨s', b', x', y', z', w', rfl⟩ := exists_of_length_eq_six hlength'
  obtain ⟨l, hl, htext⟩ := registerOffsetText_eq_ok_iff.1 h
  obtain rfl : l.selector = s := selector_of_ofSelector? hl
  rw [sameOffset_iff, unread_selector]
  constructor
  · intro h'
    obtain ⟨l', hl', htext'⟩ := registerOffsetText_eq_ok_iff.1 h'
    have hsays := Offset.inner_inj (List.cons.inj (htext.trans htext'.symm)).2
    obtain rfl : l'.selector = s' := selector_of_ofSelector? hl'
    rcases l with - | negative | negative <;> rcases l' with - | negative' | negative'
    case bare.bare =>
      obtain rfl : b = b' := Offset.bare.inj hsays
      simp
    case displaced.displaced =>
      obtain ⟨rfl, hbase, hnumber⟩ := Offset.displaced.inj hsays
      obtain rfl : b = b' := hbase
      have hbytes : [x, y, z, w] = [x', y', z', w'] := Bytes.ofLittleEndian_inj rfl hnumber
      simpa using hbytes
    case indexed.indexed =>
      obtain ⟨rfl, hbase, hindex, hscale⟩ := Offset.indexed.inj hsays
      obtain rfl : b = b' := hbase
      obtain rfl : x = x' := hindex
      have hbytes : [y, z] = [y', z'] := Bytes.ofLittleEndian_inj rfl hscale
      simpa using hbytes
    all_goals cases hsays
  · rintro ⟨rfl, rfl, h2, h3, h4, h5⟩
    refine registerOffsetText_eq_ok_iff.2 ⟨l, hl, ?_⟩
    rw [← htext]
    -- what the layout reads is the same
    rcases l with - | negative | negative
    · rfl
    · obtain ⟨rfl, rfl, rfl, rfl⟩ : x = x' ∧ y = y' ∧ z = z' ∧ w = w' := by
        simpa using And.intro h2 (And.intro h3 (And.intro h4 h5))
      rfl
    · obtain ⟨rfl, rfl, rfl⟩ : x = x' ∧ y = y' ∧ z = z' := by
        simpa using And.intro h2 (And.intro h3 h4)
      rfl

end VmProbe.Isa
