/-
VmProbe/Proofs/Floating/Rounding.lean

Integers among the doubles.

A natural number of more than `p` bits lies between two multiples of a step, the power of two that
leaves `p` bits, and is rounded to the nearer one (`exists_roundTo`).  So it becomes a number of at
most `p` bits times a power of two, and no other such number is nearer (`roundTo_nearest`): from the
first power of two with this step on they are all multiples of it, and the others are smaller than
that power.

The doubles are the numbers of this kind for `p = 53`, within the bounds of the exponent.

Main statements: an integer is rounded to the value of a double (`exists_double_roundInt`), and no
double is nearer (`roundInt_nearest`).
-/
import VmProbe.Proofs.Machine.Value

namespace VmProbe

namespace Floating

variable {p n j : ℕ}

/-! ### Natural numbers -/

theorem roundTo_of_lt (h : n < 2 ^ p) : roundTo p n = n := by
  rw [roundTo, Nat.one_shiftLeft, if_pos h]

/-- A longer number lies between two multiples of a step, and goes to the nearer one. -/
theorem exists_roundTo (h : 2 ^ p ≤ n) :
    ∃ e k, roundTo p n = k * 2 ^ e ∧ p + e = n.log2 + 1 ∧ k ≤ 2 ^ p ∧
      2 * n ≤ 2 * (k * 2 ^ e) + 2 ^ e ∧ 2 * (k * 2 ^ e) ≤ 2 * n + 2 ^ e := by
  have hlog : p ≤ n.log2 := (Nat.le_log2 (Nat.ne_zero_of_lt (Nat.two_pow_pos p |>.trans_le h))).2 h
  have hbits : p + (n.log2 + 1 - p) = n.log2 + 1 := by omega
  have hlt : n < 2 ^ (n.log2 + 1 - p) * 2 ^ p := by
    rw [← Nat.pow_add, Nat.add_comm, hbits]
    exact Nat.lt_log2_self
  rw [roundTo, Nat.one_shiftLeft, if_neg (Nat.not_lt.2 h), Nat.one_shiftLeft]
  refine ⟨n.log2 + 1 - p, _, rfl, hbits, ?_⟩
  have hstep : 0 < 2 ^ (n.log2 + 1 - p) := Nat.two_pow_pos _
  generalize 2 ^ (n.log2 + 1 - p) = step at hlt hstep
  have hkept : n / step < 2 ^ p := Nat.div_lt_of_lt_mul hlt
  have hsplit := Nat.div_add_mod' n step
  have hrest := Nat.mod_lt n hstep
  have hcarry := Nat.add_one_mul (n / step) step
  split_ifs with hup
  · refine ⟨hkept, ?_, ?_⟩ <;> omega
  · refine ⟨hkept.le, ?_, ?_⟩ <;> omega

/-- No multiple of a step is nearer than one that is at most half a step away. -/
theorem abs_sub_le_of_half_step {x s : ℝ} (k m : ℤ) (hhalf : |k * s - x| ≤ s / 2) :
    |k * s - x| ≤ |m * s - x| := by
  rcases eq_or_ne m k with rfl | hne
  · exact le_refl _
  · have hs : 0 ≤ s := by linarith [abs_nonneg (k * s - x)]
    have hapart : (1 : ℝ) ≤ |(m : ℝ) - k| := by
      rw [← Int.cast_sub, ← Int.cast_abs]
      exact_mod_cast Int.one_le_abs (sub_ne_zero.2 hne)
    have hfar : s ≤ |m * s - k * s| := by
      rw [← sub_mul, abs_mul, abs_of_nonneg hs]
      exact le_mul_of_one_le_left hs hapart
    have htriangle := abs_sub_le (m * s) x (k * s)
    rw [abs_sub_comm x] at htriangle
    linarith

/-- No multiple of the step is nearer. -/
theorem exists_nearest_multiple (h : 2 ^ p ≤ n) :
    ∃ e, p + e = n.log2 + 1 ∧
      ∀ m : ℤ, |(roundTo p n : ℝ) - n| ≤ |(m : ℝ) * 2 ^ e - n| := by
  obtain ⟨e, k, hround, hbits, -, hlow, hhigh⟩ := exists_roundTo h
  refine ⟨e, hbits, fun m => ?_⟩
  have hhalf : |((k : ℤ) : ℝ) * 2 ^ e - n| ≤ 2 ^ e / 2 := by
    have hlow' : (2 : ℝ) * n ≤ 2 * (k * 2 ^ e) + 2 ^ e := by exact_mod_cast hlow
    have hhigh' : (2 : ℝ) * (k * 2 ^ e) ≤ 2 * n + 2 ^ e := by exact_mod_cast hhigh
    rw [Int.cast_natCast, abs_le]
    constructor <;> linarith
  have hcast : (roundTo p n : ℝ) = ((k : ℤ) : ℝ) * 2 ^ e := by
    rw [hround]
    push_cast
    rfl
  rw [hcast]
  exact abs_sub_le_of_half_step k m hhalf

/-- **No number of at most `p` bits is nearer,** whatever its exponent. -/
theorem roundTo_nearest (hp : 0 < p) (hj : j < 2 ^ p) (f : ℤ) :
    |(roundTo p n : ℝ) - n| ≤ |(j : ℝ) * 2 ^ f - n| := by
  rcases Nat.lt_or_ge n (2 ^ p) with hlt | hge
  · rw [roundTo_of_lt hlt, sub_self, abs_zero]
    exact abs_nonneg _
  obtain ⟨e, hbits, hmultiple⟩ := exists_nearest_multiple hge
  rcases le_or_gt (e : ℤ) f with hf | hf
  · -- a multiple of the step
    obtain ⟨d, rfl⟩ := Int.le.dest hf
    have hj : (j : ℝ) * 2 ^ ((e : ℤ) + d) = ((j * 2 ^ d : ℤ) : ℝ) * 2 ^ e := by
      rw [zpow_add₀ two_ne_zero, zpow_natCast, zpow_natCast]
      push_cast
      ring
    rw [hj]
    exact hmultiple _
  · -- the number is below the first power of two that has the step
    have hpower : (2 : ℝ) ^ (p - 1) * 2 ^ e ≤ n := by
      have hn : n ≠ 0 := Nat.ne_of_gt (Nat.lt_of_lt_of_le (Nat.two_pow_pos p) hge)
      have hlog : n.log2 = p - 1 + e := by omega
      have hself := Nat.log2_self_le hn
      rw [hlog, Nat.pow_add] at hself
      exact_mod_cast hself
    have hsmall : (j : ℝ) * 2 ^ f ≤ 2 ^ (p - 1) * 2 ^ e := by
      have hj' : (j : ℝ) ≤ 2 ^ p := by exact_mod_cast hj.le
      calc (j : ℝ) * 2 ^ f ≤ 2 ^ p * 2 ^ ((e : ℤ) - 1) :=
            mul_le_mul hj' (zpow_le_zpow_right₀ one_le_two (by omega)) (by positivity)
              (by positivity)
        _ = 2 ^ (p - 1) * 2 ^ e := by
            rw [← zpow_natCast, ← zpow_natCast, ← zpow_natCast, ← zpow_add₀ two_ne_zero,
              ← zpow_add₀ two_ne_zero]
            congr 1
            omega
    calc |(roundTo p n : ℝ) - n| ≤ |((2 ^ (p - 1) : ℤ) : ℝ) * 2 ^ e - n| := hmultiple _
      _ = n - 2 ^ (p - 1) * 2 ^ e := by
          rw [Int.cast_pow, Int.cast_ofNat, abs_sub_comm, abs_of_nonneg (sub_nonneg.2 hpower)]
      _ ≤ n - j * 2 ^ f := sub_le_sub_left hsmall _
      _ = |(j : ℝ) * 2 ^ f - n| := by
          rw [abs_sub_comm, abs_of_nonneg (sub_nonneg.2 (hsmall.trans hpower))]

/-- A number of at most `p` bits is kept, whatever its exponent. -/
theorem roundTo_eq_self (hp : 0 < p) (hj : j < 2 ^ p) (d : ℕ) :
    roundTo p (j * 2 ^ d) = j * 2 ^ d := by
  have hnearest := roundTo_nearest (n := j * 2 ^ d) hp hj d
  rw [zpow_natCast, Nat.cast_mul, Nat.cast_pow, Nat.cast_ofNat, sub_self, abs_zero,
    abs_nonpos_iff, sub_eq_zero] at hnearest
  exact_mod_cast hnearest

/-- What a number is rounded to has at most `p` bits, but for the exponent. -/
theorem exists_roundTo_eq (hp : 0 < p) (n : ℕ) :
    ∃ k d, k < 2 ^ p ∧ d ≤ n.log2 + 1 ∧ roundTo p n = k * 2 ^ d := by
  rcases Nat.lt_or_ge n (2 ^ p) with hlt | hge
  · exact ⟨n, 0, hlt, Nat.zero_le _, by rw [roundTo_of_lt hlt, Nat.pow_zero, Nat.mul_one]⟩
  obtain ⟨e, k, hround, hbits, hk, -⟩ := exists_roundTo hge
  rcases Nat.lt_or_eq_of_le hk with hk | rfl
  · exact ⟨k, e, hk, by omega, hround⟩
  · exact ⟨1, p + e, Nat.one_lt_two_pow hp.ne', hbits.le, by rw [hround, Nat.one_mul, Nat.pow_add]⟩

namespace Number

theorem finiteValue_true (m : ℕ) (q : ℤ) : finiteValue true m q = -(m * 2 ^ q) := by
  rw [finiteValue, signed, if_pos rfl]
  push_cast
  ring

theorem finiteValue_false (m : ℕ) (q : ℤ) : finiteValue false m q = m * 2 ^ q := by
  rw [finiteValue, signed, if_neg (by decide)]
  push_cast
  rfl

theorem finiteValue_not (negative : Bool) (m : ℕ) (q : ℤ) :
    finiteValue (!negative) m q = -finiteValue negative m q := by
  cases negative
  · rw [Bool.not_false, finiteValue_true, finiteValue_false]
  · rw [Bool.not_true, finiteValue_true, finiteValue_false, neg_neg]

end Number

end Floating

/-! ### Doubles -/

namespace Machine.Value

open Floating
open Number (finiteValue finiteValue_eq signed value?)

/-- The double with given fields, neither the smallest exponent nor the largest. -/
theorem double_of_fields {x : UInt64} {negative : Bool} {field fraction : ℕ}
    (h : x.toNat = (if negative then 2 ^ 63 else 0) + field * 2 ^ 52 + fraction)
    (hfraction : fraction < 2 ^ 52) (hpos : 0 < field) (hfinite : field < 2047) :
    double x = .finite negative (2 ^ 52 + fraction) (field - 1075) := by
  have hexponent : x.toNat / 2 ^ 52 % 2 ^ 11 = field := by
    split_ifs at h <;> omega
  have hrest : x.toNat % 2 ^ 52 = fraction := by
    split_ifs at h <;> omega
  have hsign : x.toNat.testBit 63 = negative := by
    rw [Nat.testBit_eq_decide_div_mod_eq]
    cases negative with
    | false =>
      rw [if_neg (by decide)] at h
      exact decide_eq_false (by omega)
    | true =>
      rw [if_pos rfl] at h
      exact decide_eq_true (by omega)
  rw [double_eq, hexponent, hrest, hsign, if_neg (by omega), if_neg (by omega)]

/-- Every number of at most 53 bits is a double, if the exponent is not too large. -/
theorem exists_double (negative : Bool) {k d : ℕ} (hk : k < 2 ^ 53) (hd : d ≤ 971) :
    ∃ x, (double x).value? = some (finiteValue negative k d : EReal) := by
  rcases Nat.eq_zero_or_pos k with rfl | hpos
  · have hzero : double 0 = .finite false 0 (-1074) := by decide
    refine ⟨0, ?_⟩
    rw [hzero]
    simp [value?, finiteValue, signed]
  · -- the first bit moves to the place of the hidden one
    have hlog : k.log2 < 53 := (Nat.log2_lt hpos.ne').2 hk
    have hbits : k.log2 + (52 - k.log2) = 52 := by omega
    generalize 52 - k.log2 = t at hbits
    have hlow : 2 ^ 52 ≤ k <<< t := by
      rw [← hbits, Nat.pow_add, Nat.shiftLeft_eq]
      exact Nat.mul_le_mul_right _ (Nat.log2_self_le hpos.ne')
    have hhigh : k <<< t < 2 ^ 53 := by
      have hexp : 2 ^ 53 = 2 ^ (k.log2 + 1) * 2 ^ t := by
        rw [← Nat.pow_add, Nat.add_right_comm, hbits]
      rw [hexp, Nat.shiftLeft_eq]
      exact Nat.mul_lt_mul_of_pos_right Nat.lt_log2_self (Nat.two_pow_pos t)
    have hsize : (if negative then 2 ^ 63 else 0) + (d + 1075 - t) * 2 ^ 52 + (k <<< t - 2 ^ 52)
        < 2 ^ 64 := by split_ifs <;> omega
    obtain ⟨x, hx⟩ : ∃ x : UInt64, x.toNat =
        (if negative then 2 ^ 63 else 0) + (d + 1075 - t) * 2 ^ 52 + (k <<< t - 2 ^ 52) :=
      ⟨.ofNat _, UInt64.toNat_ofNat_of_lt' hsize⟩
    have hexponent : ((d + 1075 - t : ℕ) : ℤ) - 1075 = d - t := by omega
    have hshift : ((d : ℤ) - (d - t)).toNat = t := by omega
    refine ⟨x, ?_⟩
    rw [double_of_fields hx (by omega) (by omega) (by omega), Nat.add_sub_cancel' hlow, hexponent,
      value?, finiteValue_eq (Int.sub_le_self d (by omega) : (d : ℤ) - t ≤ d), hshift]
    rfl

/-- A double that is worth a real number has a magnitude of at most 53 bits. -/
theorem exists_finiteValue {x : UInt64} {v : ℝ} (h : (double x).value? = some (v : EReal)) :
    ∃ negative m q, m < 2 ^ 53 ∧ v = finiteValue negative m q := by
  have hfraction : x.toNat % 2 ^ 52 < 2 ^ 52 := Nat.mod_lt _ (Nat.two_pow_pos 52)
  rw [double_eq] at h
  split_ifs at h
  · have hv := Option.some.inj h
    split_ifs at hv
    · exact absurd hv.symm (EReal.coe_ne_bot v)
    · exact absurd hv.symm (EReal.coe_ne_top v)
  · cases h
  · exact ⟨_, _, _, by omega, (EReal.coe_injective (Option.some.inj h)).symm⟩
  · exact ⟨_, _, _, by omega, (EReal.coe_injective (Option.some.inj h)).symm⟩

end Machine.Value

/-! ### Integers -/

namespace Floating

open Machine.Value Number

theorem roundInt_natCast (n : ℕ) : roundInt n = roundTo 53 n := by
  rw [roundInt, decide_eq_false (by omega), Int.natAbs_natCast]
  rfl

theorem roundInt_neg (n : ℤ) : roundInt (-n) = -roundInt n := by
  rw [roundInt, roundInt, Int.natAbs_neg]
  rcases lt_trichotomy n 0 with hn | rfl | hn
  · simp [signed, hn, hn.le]
  · rfl
  · simp [signed, hn, hn.le]

/-- No number of the magnitudes of doubles is nearer to an integer than what it is rounded to. -/
theorem abs_roundInt_sub_le (n : ℤ) (negative : Bool) {m : ℕ} (hm : m < 2 ^ 53) (q : ℤ) :
    |(roundInt n : ℝ) - n| ≤ |finiteValue negative m q - n| := by
  have hnonneg (n : ℕ) (negative : Bool) :
      |(roundInt n : ℝ) - n| ≤ |finiteValue negative m q - n| := by
    rw [roundInt_natCast, Int.cast_natCast]
    cases negative with
    | false =>
      rw [finiteValue_false]
      exact roundTo_nearest (by decide) hm q
    | true =>
      -- on the other side of zero, zero is nearer
      have hzero := roundTo_nearest (p := 53) (n := n) (by decide) (Nat.two_pow_pos 53) 0
      have hvalue : (0 : ℝ) ≤ m * 2 ^ q := by positivity
      have hn : (0 : ℝ) ≤ n := Nat.cast_nonneg n
      rw [Nat.cast_zero, zero_mul, zero_sub, abs_neg, abs_of_nonneg hn] at hzero
      rw [finiteValue_true, ← neg_add', abs_neg, abs_of_nonneg (add_nonneg hvalue hn)]
      linarith
  obtain ⟨k, rfl | rfl⟩ := n.eq_nat_or_neg
  · exact hnonneg k negative
  · calc |(roundInt (-(k : ℤ)) : ℝ) - (-(k : ℤ) : ℤ)| = |(roundInt k : ℝ) - k| := by
          rw [roundInt_neg, Int.cast_neg, Int.cast_neg, ← neg_sub', abs_neg, Int.cast_natCast]
      _ ≤ |finiteValue (!negative) m q - (k : ℤ)| := hnonneg k (!negative)
      _ = |finiteValue negative m q - (-(k : ℤ) : ℤ)| := by
          rw [finiteValue_not, ← neg_add', abs_neg, Int.cast_neg, sub_neg_eq_add]

/-- Integers of up to 53 bits, and the first one of 54 bits, are rounded to themselves. -/
theorem roundInt_eq_self {n : ℤ} (h : n.natAbs ≤ 2 ^ 53) : roundInt n = n := by
  have hround : roundTo 53 n.natAbs = n.natAbs := by
    rcases Nat.lt_or_eq_of_le h with hlt | heq
    · exact roundTo_of_lt hlt
    · rw [heq]
      exact roundTo_eq_self (j := 1) (by decide) (by decide) 53
  rw [roundInt, hround]
  by_cases hn : n < 0
  · rw [decide_eq_true hn, signed, if_pos rfl]
    omega
  · rw [decide_eq_false hn, signed, if_neg (by decide)]
    omega

/-- **What an integer is rounded to is worth a double.** -/
theorem exists_double_roundInt {n : ℤ} (h : n.natAbs < 2 ^ 64) :
    ∃ x, (double x).value? = some ((roundInt n : ℝ) : EReal) := by
  obtain ⟨k, d, hk, hd, hround⟩ := exists_roundTo_eq (p := 53) (by decide) n.natAbs
  have hlog : n.natAbs.log2 ≤ 64 := by
    rcases Nat.eq_zero_or_pos n.natAbs with hzero | hpos
    · rw [hzero]
      decide
    · exact ((Nat.log2_lt hpos.ne').2 h).le
  obtain ⟨x, hx⟩ := exists_double (decide (n < 0)) hk (hd.trans (by omega) : d ≤ 971)
  refine ⟨x, hx.trans ?_⟩
  rw [roundInt, hround, ← Nat.shiftLeft_eq, signed_shiftLeft, finiteValue, zpow_natCast]
  push_cast
  rfl

/-- **No double is nearer to an integer than what the integer is rounded to.** -/
theorem roundInt_nearest (n : ℤ) {x : UInt64} {v : ℝ} (h : (double x).value? = some (v : EReal)) :
    |(roundInt n : ℝ) - n| ≤ |v - n| := by
  obtain ⟨negative, m, q, hm, rfl⟩ := exists_finiteValue h
  exact abs_roundInt_sub_le n negative hm q

end Floating

end VmProbe
