/-
VmProbe/Proofs/Text/Hex.lean

Hexadecimal text tells the number: digits of a fixed width determine what is left of the number
after dividing by the power of sixteen, so the text of a byte determines the byte.  Reading such
digits gives exactly this remainder (`readDigits?_fixedHexDigits`).
-/
import Mathlib
import VmProbe.Text.Hex

namespace VmProbe.Text

variable {letters : LetterCase} {w n n' acc base : ℕ} {b b' : UInt8}
variable {value? : Char → Option ℕ}

theorem hexDigit_inj (hn : n < 16) (hn' : n' < 16)
    (h : hexDigit letters n = hexDigit letters n') : n = n' := by
  have htable : ∀ n < 16, ∀ n' < 16, hexDigit letters n = hexDigit letters n' → n = n' := by
    cases letters <;> decide
  exact htable n hn n' hn' h

theorem exists_hexDigit_of_mem {c : Char} (h : c ∈ fixedHexDigits letters w n) :
    ∃ d < 16, c = hexDigit letters d := by
  induction w generalizing n with
  | zero => cases h
  | succ w ih =>
    rcases List.mem_append.1 h with hfront | hlast
    · exact ih hfront
    · exact ⟨n % 16, Nat.mod_lt n (by decide), List.mem_singleton.1 hlast⟩

/-- The last digits of a number determine what is left of it. -/
theorem fixedHexDigits_inj (h : fixedHexDigits letters w n = fixedHexDigits letters w n') :
    n % 16 ^ w = n' % 16 ^ w := by
  induction w generalizing n n' with
  | zero => rw [Nat.pow_zero, Nat.mod_one, Nat.mod_one]
  | succ w ih =>
    rw [fixedHexDigits, fixedHexDigits] at h
    obtain ⟨hfront, hlast⟩ := List.append_inj' h rfl
    have hdigit : n % 16 = n' % 16 :=
      hexDigit_inj (Nat.mod_lt n (by decide)) (Nat.mod_lt n' (by decide)) (List.cons.inj hlast).1
    rw [Nat.pow_succ', Nat.mod_mul, Nat.mod_mul, hdigit, ih hfront]

/-- The text of a byte determines it. -/
theorem hexByte_inj (h : hexByte b = hexByte b') : b = b' := by
  have hdigits := (List.cons.inj (List.cons.inj (String.ofList_inj.1 h)).2).2
  have hmod := fixedHexDigits_inj hdigits
  have hlt (b : UInt8) : b.toNat < 16 ^ 2 := b.toNat_lt
  rw [Nat.mod_eq_of_lt (hlt b), Nat.mod_eq_of_lt (hlt b')] at hmod
  exact UInt8.toNat_inj.1 hmod

/-! ### Reading digits -/

theorem hexValue?_hexDigit (hn : n < 16) : hexValue? (hexDigit letters n) = some n := by
  have htable : ∀ n < 16, hexValue? (hexDigit letters n) = some n := by
    cases letters <;> decide
  exact htable n hn

theorem readDigits?_append (cs ds : List Char) :
    readDigits? base value? acc (cs ++ ds) =
      (readDigits? base value? acc cs).bind fun n => readDigits? base value? n ds := by
  induction cs generalizing acc with
  | nil => rfl
  | cons c cs ih =>
    rw [List.cons_append, readDigits?, readDigits?]
    rcases value? c with - | d
    · rfl
    · exact ih

@[simp] theorem length_fixedHexDigits : (fixedHexDigits letters w n).length = w := by
  induction w generalizing n with
  | zero => rfl
  | succ w ih => rw [fixedHexDigits, List.length_append, ih, List.length_singleton]

/-- Digits of a fixed width are read as what is left of the number. -/
theorem readDigits?_fixedHexDigits :
    readDigits? 16 hexValue? acc (fixedHexDigits letters w n) =
      some (16 ^ w * acc + n % 16 ^ w) := by
  induction w generalizing n with
  | zero => rw [fixedHexDigits, readDigits?, Nat.pow_zero, Nat.one_mul, Nat.mod_one, Nat.add_zero]
  | succ w ih =>
    have hlast : hexValue? (hexDigit letters (n % 16)) = some (n % 16) :=
      hexValue?_hexDigit (Nat.mod_lt n (by decide))
    rw [fixedHexDigits, readDigits?_append, ih, Option.bind_some, readDigits?, hlast,
      Option.bind_some, readDigits?, Nat.pow_succ', Nat.mod_mul]
    congr 1
    ring

end VmProbe.Text
