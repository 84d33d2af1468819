/-
VmProbe/Proofs/Machine/Value.lean

Numeric equality, by what the contents of registers are worth.

A finite number is worth its magnitude times a power of two, on the real line; an infinity is
worth one end of the extended line, and a pattern that is no number is worth nothing
(`Number.value?`).  Two numbers compare equal exactly when they are worth the same
(`Number.same_iff`), although the comparison scales them to a common exponent and never leaves
the integers.

Contents of one register are read in the same way, so for them the comparison is numeric
equality (`same_ofRaw_iff`).  Between an integer and a double it is not, because the integer is
rounded first.
-/
import Mathlib
import VmProbe.Machine.Register

namespace VmProbe

open Machine (RegisterClass)

namespace Floating.Number

/-- The value of a finite number. -/
noncomputable def finiteValue (negative : Bool) (m : Nat) (q : Int) : ℝ :=
  signed negative m * 2 ^ q

/-- The value on the extended real line, if there is one. -/
noncomputable def value? : Number → Option EReal
  | nan => none
  | infinite negative => some (if negative then ⊥ else ⊤)
  | finite negative m q => some (finiteValue negative m q)

theorem signed_shiftLeft (negative : Bool) (m k : Nat) :
    signed negative (m <<< k) = signed negative m * 2 ^ k := by
  rw [signed, signed, Nat.shiftLeft_eq]
  cases negative <;> simp

/-- A finite number, scaled to an exponent that is not above its own. -/
theorem finiteValue_eq {low q : Int} (h : low ≤ q) (negative : Bool) (m : Nat) :
    finiteValue negative m q = signed negative (m <<< (q - low).toNat) * 2 ^ low := by
  have hexp : q = ((q - low).toNat : Int) + low := by omega
  rw [finiteValue, signed_shiftLeft, Int.cast_mul, Int.cast_pow, Int.cast_ofNat, mul_assoc,
    ← zpow_natCast, ← zpow_add₀ two_ne_zero, ← hexp]

/-- Two numbers are the same if they are worth the same. -/
theorem same_iff {a b : Number} : a.same b = true ↔ ∃ x, a.value? = some x ∧ b.value? = some x := by
  cases a with
  | nan => simp [same, value?]
  | infinite s =>
    cases b with
    | nan => simp [same, value?]
    | infinite t => cases s <;> cases t <;> simp [same, value?]
    | finite t n r => cases s <;> simp [same, value?]
  | finite s m q =>
    cases b with
    | nan => simp [same, value?]
    | infinite t => cases t <;> simp [same, value?, eq_comm]
    | finite t n r =>
      have hpow : (2 : ℝ) ^ min q r ≠ 0 := zpow_ne_zero _ two_ne_zero
      have hvalues : finiteValue s m q = finiteValue t n r ↔
          signed s (m <<< (q - min q r).toNat) = signed t (n <<< (r - min q r).toNat) := by
        rw [finiteValue_eq (min_le_left q r), finiteValue_eq (min_le_right q r),
          mul_left_inj' hpow, Int.cast_inj]
      simp [same, value?, ← hvalues, eq_comm]

/-- A whole number is worth itself. -/
theorem value?_ofInt (n : ℤ) : (ofInt n).value? = some ((n : ℝ) : EReal) := by
  have hsigned : signed (decide (n < 0)) n.natAbs = n := by
    rw [signed]
    split_ifs with h <;> rw [decide_eq_true_eq] at h <;> omega
  rw [ofInt, value?, finiteValue, hsigned, zpow_zero, mul_one]

end Floating.Number

namespace Machine.Value

open Floating (Number binary64)

/-- The double of a pattern, by the fields of the pattern. -/
theorem double_eq (bits : UInt64) :
    double bits =
      if bits.toNat / 2 ^ 52 % 2 ^ 11 = 2 ^ 11 - 1 then
        if bits.toNat % 2 ^ 52 = 0 then .infinite (bits.toNat.testBit 63) else .nan
      else if bits.toNat / 2 ^ 52 % 2 ^ 11 = 0 then
        .finite (bits.toNat.testBit 63) (bits.toNat % 2 ^ 52) (1 - 1075)
      else .finite (bits.toNat.testBit 63) (2 ^ 52 + bits.toNat % 2 ^ 52)
        ((bits.toNat / 2 ^ 52 % 2 ^ 11 : ℕ) - 1075) := by
  have hexponent : binary64.exponentOf bits.toNat = bits.toNat / 2 ^ 52 % 2 ^ 11 := by
    rw [Floating.Format.exponentOf, Nat.shiftRight_eq_div_pow, Nat.one_shiftLeft]
    rfl
  have hfraction : binary64.fractionOf bits.toNat = bits.toNat % 2 ^ 52 := by
    rw [Floating.Format.fractionOf, Nat.one_shiftLeft]
    rfl
  rw [double, Number.ofBits, hexponent, hfraction]
  rfl

/-- What the content of a register is worth, if it is a number. -/
noncomputable def number? : Value → Option EReal
  | integer n => some ((n.toInt : ℝ) : EReal)
  | float bits => (double bits).value?

/-- Both contents are worth the same. -/
def NumericallyEqual (u v : Value) : Prop := ∃ x, u.number? = some x ∧ v.number? = some x

/-- Contents of one register compare equal if they are numerically equal. -/
theorem same_ofRaw_iff {cls : RegisterClass} {a b : UInt64} :
    (ofRaw cls a).same (ofRaw cls b) = true ↔ NumericallyEqual (ofRaw cls a) (ofRaw cls b) := by
  have hinteger : (integer a.toInt64).same (integer b.toInt64) = true ↔
      NumericallyEqual (integer a.toInt64) (integer b.toInt64) := by
    simp [same, NumericallyEqual, number?, Int64.toInt_inj, eq_comm]
  cases cls with
  | special => exact hinteger
  | integer => exact hinteger
  | float => exact Floating.Number.same_iff

end Machine.Value

end VmProbe
