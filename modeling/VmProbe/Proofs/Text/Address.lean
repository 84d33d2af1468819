/-
VmProbe/Proofs/Text/Address.lean

Exactly which texts are read as an address, and as which one.

A run of digits is read from the left, so that each digit adds to the base times what was read
before it; the result is the number that the digits denote, most significant first
(`readDigits?_eq_some_iff`).  An address is written with digits of base sixteen after `0x` or
`0X`, and otherwise with decimal digits (`AddressText []`).  The reader of numbers lets a plus
sign stand in front of the digits, so the texts with this sign, also between `0x` and the digits,
are read as well (`readAddress?_eq_some_iff`):

    readAddress? s = some v  ↔  AddressText [] s v ∨ AddressText ['+'] s v
-/
import VmProbe.Proofs.Text.Hex

namespace VmProbe.Text

variable {base acc d n : ℕ} {c : Char} {cs sign : List Char} {s : String} {v : UInt64}
variable {value? : Char → Option ℕ}

/-! ### Digits -/

/-- The character is a digit of the base and stands for `d`; from ten on it is a letter, a small
or a capital one. -/
def IsDigit (base : ℕ) (c : Char) (d : ℕ) : Prop :=
  d < base ∧ (c = d.digitChar ∨ c = d.digitChar.toUpper)

/-- There are one or more digits of the base, the most significant one first, and they denote
`n`. -/
def Denotes (base : ℕ) (cs : List Char) (n : ℕ) : Prop :=
  cs ≠ [] ∧ ∃ ds, List.Forall₂ (IsDigit base) cs ds ∧ Nat.ofDigits base ds.reverse = n

theorem digitChar_eq_hexDigit (h : d < 16) :
    d.digitChar = hexDigit .lower d ∧ d.digitChar.toUpper = hexDigit .upper d := by
  have htable : ∀ d < 16,
      d.digitChar = hexDigit .lower d ∧ d.digitChar.toUpper = hexDigit .upper d := by decide
  exact htable d h

theorem toNat_bounds {a b : Char} (h : a ≤ c ∧ c ≤ b) : a.toNat ≤ c.toNat ∧ c.toNat ≤ b.toNat := h

/-- Only the digits that are written have a value. -/
theorem exists_hexDigit_of_hexValue? (h : hexValue? c = some d) :
    d < 16 ∧ ∃ letters, c = hexDigit letters d := by
  rw [hexValue?] at h
  split_ifs at h with hdecimal hsmall hcapital
  · obtain ⟨hlow, hhigh⟩ : 48 ≤ c.toNat ∧ c.toNat ≤ 57 := toNat_bounds hdecimal
    obtain rfl := Option.some.inj h
    refine ⟨by omega, .lower, ?_⟩
    rw [hexDigit, if_pos (by omega), Nat.add_sub_cancel' hlow, Char.ofNat_toNat]
  · obtain ⟨hlow, hhigh⟩ : 97 ≤ c.toNat ∧ c.toNat ≤ 102 := toNat_bounds hsmall
    obtain rfl := Option.some.inj h
    refine ⟨by omega, .lower, ?_⟩
    rw [hexDigit, if_neg (by omega), Nat.add_sub_cancel' (by omega), Char.ofNat_toNat]
  · obtain ⟨hlow, hhigh⟩ : 65 ≤ c.toNat ∧ c.toNat ≤ 70 := toNat_bounds hcapital
    obtain rfl := Option.some.inj h
    refine ⟨by omega, .upper, ?_⟩
    rw [hexDigit, if_neg (by omega), Nat.add_sub_cancel' (by omega), Char.ofNat_toNat]

/-- Exactly the digits of base sixteen have a value, which is what they stand for. -/
theorem hexValue?_eq_some_iff : hexValue? c = some d ↔ IsDigit 16 c d := by
  constructor
  · intro h
    obtain ⟨hd, letters, rfl⟩ := exists_hexDigit_of_hexValue? h
    obtain ⟨hlower, hupper⟩ := digitChar_eq_hexDigit hd
    cases letters with
    | lower => exact ⟨hd, .inl hlower.symm⟩
    | upper => exact ⟨hd, .inr hupper.symm⟩
  · rintro ⟨hd, hc⟩
    obtain ⟨hlower, hupper⟩ := digitChar_eq_hexDigit hd
    rcases hc with rfl | rfl
    · rw [hlower, hexValue?_hexDigit hd]
    · rw [hupper, hexValue?_hexDigit hd]

/-- A decimal digit is a digit of base sixteen that is less than ten. -/
theorem decimalValue?_eq_some_iff : decimalValue? c = some d ↔ IsDigit 10 c d := by
  have hsixteen : IsDigit 10 c d ↔ hexValue? c = some d ∧ d < 10 := by
    rw [hexValue?_eq_some_iff, IsDigit, IsDigit]
    constructor
    · rintro ⟨hd, hc⟩
      exact ⟨⟨by omega, hc⟩, hd⟩
    · rintro ⟨⟨-, hc⟩, hd⟩
      exact ⟨hd, hc⟩
  rw [hsixteen, decimalValue?, hexValue?]
  by_cases hdecimal : '0' ≤ c ∧ c ≤ '9'
  · have hlast : c.toNat ≤ 57 := (toNat_bounds hdecimal).2
    rw [if_pos hdecimal, if_pos hdecimal, Option.some.injEq]
    omega
  · -- a letter is worth ten at least
    rw [if_neg hdecimal, if_neg hdecimal]
    refine ⟨nofun, fun ⟨h, hd⟩ => ?_⟩
    split_ifs at h with hsmall hcapital
    · have hfirst : 97 ≤ c.toNat := (toNat_bounds hsmall).1
      obtain rfl := Option.some.inj h
      omega
    · have hfirst : 65 ≤ c.toNat := (toNat_bounds hcapital).1
      obtain rfl := Option.some.inj h
      omega

/-! ### Numbers -/

/-- Every digit adds to the base times what was read before. -/
theorem readDigits?_eq_some_iff :
    readDigits? base value? acc cs = some n ↔
      ∃ ds, List.Forall₂ (fun c d => value? c = some d) cs ds ∧
        Nat.ofDigits base (ds.reverse ++ [acc]) = n := by
  induction cs generalizing acc with
  | nil => simp [readDigits?]
  | cons c cs ih =>
    have hshift (ds : List ℕ) (d : ℕ) : Nat.ofDigits base ((d :: ds).reverse ++ [acc]) =
        Nat.ofDigits base (ds.reverse ++ [base * acc + d]) := by
      rw [List.reverse_cons, List.append_assoc, List.singleton_append, Nat.ofDigits_append,
        Nat.ofDigits_append, Nat.ofDigits_cons, Nat.ofDigits_singleton, Nat.ofDigits_singleton,
        Nat.add_comm d]
    rw [readDigits?, Option.bind_eq_some_iff]
    constructor
    · rintro ⟨d, hd, hrest⟩
      obtain ⟨ds, hds, hn⟩ := ih.1 hrest
      exact ⟨d :: ds, .cons hd hds, (hshift ds d).trans hn⟩
    · rintro ⟨_, hds, hn⟩
      rcases hds with - | ⟨hd, hds⟩
      exact ⟨_, hd, ih.2 ⟨_, hds, (hshift _ _).symm.trans hn⟩⟩

/-- A run of digits is read as the number that it denotes. -/
theorem readDigits?_zero_eq_some_iff (hvalue : ∀ c d, value? c = some d ↔ IsDigit base c d)
    (hne : cs ≠ []) : readDigits? base value? 0 cs = some n ↔ Denotes base cs n := by
  simp only [readDigits?_eq_some_iff, hvalue, Denotes, Nat.ofDigits_append, Nat.ofDigits_singleton,
    Nat.mul_zero, Nat.add_zero]
  exact ⟨fun h => ⟨hne, h⟩, fun h => h.2⟩

theorem Denotes.exists_isDigit (h : Denotes base cs n) (hc : c ∈ cs) : ∃ d, IsDigit base c d := by
  obtain ⟨-, ds, hds, -⟩ := h
  induction hds with
  | nil => cases hc
  | @cons _ d _ _ hd _ ih =>
    rcases List.mem_cons.1 hc with rfl | hc
    · exact ⟨d, hd⟩
    · exact ih hc

/-- A run of digits has no sign and no mark of a base. -/
theorem Denotes.not_mem (h : Denotes base cs n) (hbase : base ≤ 16) (hc : c ∈ ['+', 'x', 'X']) :
    c ∉ cs := by
  have htable : ∀ d < 16,
      d.digitChar ∉ ['+', 'x', 'X'] ∧ d.digitChar.toUpper ∉ ['+', 'x', 'X'] := by decide
  intro hmem
  obtain ⟨d, hd, hdigit⟩ := h.exists_isDigit hmem
  obtain ⟨hsmall, hcapital⟩ := htable d (hd.trans_le hbase)
  rcases hdigit with rfl | rfl
  · exact hsmall hc
  · exact hcapital hc

/-! ### Words -/

/-- A number below `2 ^ 64` without a sign. -/
def readUnsigned? (base : ℕ) (value? : Char → Option ℕ) : List Char → Option UInt64
  | [] => none
  | c :: cs => (readDigits? base value? 0 (c :: cs)).bind fun n =>
      if n < UInt64.size then some (UInt64.ofNat n) else none

theorem readUnsigned?_eq_some_iff (hvalue : ∀ c d, value? c = some d ↔ IsDigit base c d) :
    readUnsigned? base value? cs = some v ↔ Denotes base cs v.toNat := by
  rcases cs with - | ⟨c, cs⟩
  · simp [readUnsigned?, Denotes]
  · rw [readUnsigned?, Option.bind_eq_some_iff]
    simp only [readDigits?_zero_eq_some_iff hvalue (List.cons_ne_nil c cs)]
    constructor
    · rintro ⟨n, hn, h⟩
      split_ifs at h with hlt
      obtain rfl := Option.some.inj h
      rwa [UInt64.toNat_ofNat_of_lt' hlt]
    · intro h
      refine ⟨v.toNat, h, ?_⟩
      rw [if_pos v.toNat_lt, UInt64.ofNat_toNat]

/-- What may stand in front of the digits. -/
def signs : List (List Char) := [[], ['+']]

theorem readWord?_cons_plus (cs : List Char) :
    readWord? base value? ('+' :: cs) = readUnsigned? base value? cs := by
  rcases cs with - | ⟨c, cs⟩
  · rfl
  · rfl

theorem readWord?_of_ne_plus (h : c ≠ '+') :
    readWord? base value? (c :: cs) = readUnsigned? base value? (c :: cs) := by
  rw [readWord?]
  · rfl
  · rintro rest hplus
    exact h (List.cons.inj hplus).1

/-- A number is a run of digits, with or without a plus sign. -/
theorem readWord?_eq_some_iff (hvalue : ∀ c d, value? c = some d ↔ IsDigit base c d)
    (hbase : base ≤ 16) :
    readWord? base value? cs = some v ↔
      ∃ sign ∈ signs, ∃ digits, cs = sign ++ digits ∧ Denotes base digits v.toNat := by
  have hsigns : (∃ sign ∈ signs, ∃ digits, cs = sign ++ digits ∧ Denotes base digits v.toNat) ↔
      Denotes base cs v.toNat ∨ ∃ digits, cs = '+' :: digits ∧ Denotes base digits v.toNat := by
    simp [signs]
  rw [hsigns]
  rcases cs with - | ⟨c, cs⟩
  · simp [readWord?, Denotes]
  · by_cases hc : c = '+'
    · subst hc
      have hsigned : ¬ Denotes base ('+' :: cs) v.toNat := fun h =>
        h.not_mem hbase List.mem_cons_self List.mem_cons_self
      rw [readWord?_cons_plus, readUnsigned?_eq_some_iff hvalue]
      simp [hsigned]
    · rw [readWord?_of_ne_plus hc, readUnsigned?_eq_some_iff hvalue]
      simp [hc]

/-! ### Addresses -/

/-- The text of an address: digits of base sixteen after `0x` or `0X`, or else decimal digits, with
a sign in front of the digits. -/
inductive AddressText (sign : List Char) : List Char → ℕ → Prop
  | hex {x : Char} {digits : List Char} {n : ℕ} (hx : x = 'x' ∨ x = 'X')
      (h : Denotes 16 digits n) : AddressText sign ('0' :: x :: (sign ++ digits)) n
  | decimal {digits : List Char} {n : ℕ} (h : Denotes 10 digits n) :
      AddressText sign (sign ++ digits) n

theorem readAddress?_of_marked {x : Char} (hx : x = 'x' ∨ x = 'X') (h : s.toList = '0' :: x :: cs) :
    readAddress? s = readWord? 16 hexValue? cs := by
  rw [readAddress?, h]
  rcases hx with rfl | rfl
  · rfl
  · rfl

theorem readAddress?_of_not_mem (hsmall : 'x' ∉ s.toList) (hcapital : 'X' ∉ s.toList) :
    readAddress? s = readWord? 10 decimalValue? s.toList := by
  rw [readAddress?]
  split
  · next h => simp [h] at hsmall
  · next h => simp [h] at hcapital
  · rfl

theorem readAddress?_cases (s : String) :
    (∃ x rest, (x = 'x' ∨ x = 'X') ∧ s.toList = '0' :: x :: rest ∧
      readAddress? s = readWord? 16 hexValue? rest) ∨
    readAddress? s = readWord? 10 decimalValue? s.toList := by
  rw [readAddress?]
  split
  · next rest h => exact .inl ⟨'x', rest, .inl rfl, h, rfl⟩
  · next rest h => exact .inl ⟨'X', rest, .inr rfl, h, rfl⟩
  · exact .inr rfl

theorem not_mem_of_mem_signs (h : sign ∈ signs) (hc : c ≠ '+') : c ∉ sign := by
  rcases List.mem_cons.1 h with rfl | h
  · exact List.not_mem_nil
  · obtain rfl := List.mem_singleton.1 h
    exact fun hmem => hc (List.mem_singleton.1 hmem)

/-- **Exactly the texts of addresses are read,** with any of the signs. -/
theorem readAddress?_eq_some_iff :
    readAddress? s = some v ↔ ∃ sign ∈ signs, AddressText sign s.toList v.toNat := by
  have hhex (cs : List Char) : readWord? 16 hexValue? cs = some v ↔
      ∃ sign ∈ signs, ∃ digits, cs = sign ++ digits ∧ Denotes 16 digits v.toNat :=
    readWord?_eq_some_iff (fun _ _ => hexValue?_eq_some_iff) (le_refl 16)
  have hdecimal (cs : List Char) : readWord? 10 decimalValue? cs = some v ↔
      ∃ sign ∈ signs, ∃ digits, cs = sign ++ digits ∧ Denotes 10 digits v.toNat :=
    readWord?_eq_some_iff (fun _ _ => decimalValue?_eq_some_iff) (by decide)
  constructor
  · intro h
    rcases readAddress?_cases s with ⟨x, rest, hx, hs, hread⟩ | hread
    · rw [hread, hhex] at h
      obtain ⟨sign, hsign, digits, rfl, hdigits⟩ := h
      rw [hs]
      exact ⟨sign, hsign, .hex hx hdigits⟩
    · rw [hread, hdecimal] at h
      obtain ⟨sign, hsign, digits, hs, hdigits⟩ := h
      rw [hs]
      exact ⟨sign, hsign, .decimal hdigits⟩
  · rintro ⟨sign, hsign, h⟩
    generalize hs : s.toList = cs at h
    cases h with
    | hex hx hdigits =>
      rw [readAddress?_of_marked hx hs, hhex]
      exact ⟨sign, hsign, _, rfl, hdigits⟩
    | decimal hdigits =>
      -- there is no mark, so this is not a text of the other kind
      have hnot (c : Char) (hc : c ∈ ['+', 'x', 'X']) (hplus : c ≠ '+') : c ∉ s.toList := by
        rw [hs, List.mem_append, not_or]
        exact ⟨not_mem_of_mem_signs hsign hplus, hdigits.not_mem (by decide) hc⟩
      rw [readAddress?_of_not_mem (hnot 'x' (by decide) (by decide))
        (hnot 'X' (by decide) (by decide)), hdecimal]
      exact ⟨sign, hsign, _, hs, hdigits⟩

/-! ### Addresses that are written -/

theorem toList_address (n : ℕ) : (address n).toList = '0' :: 'x' :: fixedHexDigits .upper 16 n :=
  String.toList_ofList

theorem length_address (n : ℕ) : (address n).length = 18 := by
  rw [← String.length_toList, toList_address, List.length_cons, List.length_cons,
    length_fixedHexDigits]

theorem readAddress?_of_denotes {digits : List Char} (hs : s.toList = '0' :: 'x' :: digits)
    (h : Denotes 16 digits v.toNat) : readAddress? s = some v := by
  have htext : AddressText [] s.toList v.toNat := hs ▸ .hex (.inl rfl) h
  exact readAddress?_eq_some_iff.2 ⟨[], List.mem_cons_self, htext⟩

/-- The text of an address is read as this address. -/
theorem readAddress?_address (v : UInt64) : readAddress? (address v.toNat) = some v := by
  have hne : fixedHexDigits .upper 16 v.toNat ≠ [] :=
    List.ne_nil_of_length_eq_add_one length_fixedHexDigits
  have hlt : v.toNat < 16 ^ 16 := v.toNat_lt
  refine readAddress?_of_denotes (toList_address v.toNat) ?_
  rw [← readDigits?_zero_eq_some_iff (fun _ _ => hexValue?_eq_some_iff) hne,
    readDigits?_fixedHexDigits, Nat.mul_zero, Nat.zero_add, Nat.mod_eq_of_lt hlt]

/-! ### The plus sign -/

theorem AddressText.not_mem_plus (h : AddressText [] cs n) : '+' ∉ cs := by
  cases h with
  | hex hx h =>
    have hdigits := h.not_mem (le_refl 16) List.mem_cons_self
    rcases hx with rfl | rfl
    · simpa using hdigits
    · simpa using hdigits
  | decimal h => exact h.not_mem (by decide) List.mem_cons_self

theorem AddressText.mem_plus (h : AddressText ['+'] cs n) : '+' ∈ cs := by
  cases h with
  | hex hx h => simp
  | decimal h => simp

/-- **Addresses are read as their grammar says, but for the plus sign.**  A text is read as an
address exactly when it is one, and as the one that it denotes, unless a plus sign stands in front
of its digits; with this sign the same digits are read. -/
theorem readAddress?_exact_iff (s : String) :
    ((∀ v, readAddress? s = some v ↔ AddressText [] s.toList v.toNat) ↔
      ¬ ∃ v : UInt64, AddressText ['+'] s.toList v.toNat) ∧
    ∀ v, readAddress? s = some v ↔
      AddressText [] s.toList v.toNat ∨ AddressText ['+'] s.toList v.toNat := by
  have hread (v : UInt64) : readAddress? s = some v ↔
      AddressText [] s.toList v.toNat ∨ AddressText ['+'] s.toList v.toNat := by
    rw [readAddress?_eq_some_iff]
    simp [signs]
  refine ⟨⟨?_, ?_⟩, hread⟩
  · rintro hlaw ⟨v, hplus⟩
    have hunsigned := (hlaw v).1 ((hread v).2 (.inr hplus))
    exact hunsigned.not_mem_plus hplus.mem_plus
  · intro hnone v
    rw [hread, or_iff_left fun hplus => hnone ⟨v, hplus⟩]

/-- Two texts with a plus sign that are read as `0x40`. -/
theorem readAddress?_accepts_plus :
    (readAddress? "+64" = some 0x40 ∧ ¬ AddressText [] "+64".toList 0x40) ∧
      readAddress? "0x+40" = some 0x40 ∧ ¬ AddressText [] "0x+40".toList 0x40 := by
  refine ⟨⟨by decide, fun h => ?_⟩, by decide, fun h => ?_⟩
  · exact h.not_mem_plus (by decide)
  · exact h.not_mem_plus (by decide)

end VmProbe.Text
