/-
VmProbe/Proofs/Machine/Comparison.lean

The laws of equality between contents of registers.

Among the doubles every content that is a number is worth one of them: a double is worth itself, and
an integer what it is rounded to (`nearest?`).  Being worth the same there is symmetric and
transitive.  Two contents compare equal when they are worth the same, except that two integers are
compared before they are rounded (`same_eq_true_iff`).

So comparison is symmetric, but it is transitive only as long as a double does not stand between two
different integers that are rounded to it (`same_trans_iff`).  There is such a double for any two
integers that are rounded to the same number, and for none of up to 53 bits.

Main statement: `same_partialEquivalence_iff`.
-/
import VmProbe.Proofs.Floating.Rounding

namespace VmProbe

namespace Machine.Value

open Floating (roundInt)

variable {a b c : Value} {m n : Int64} {x : UInt64}

/-! ### Worth among the doubles -/

/-- What a content is worth among the doubles, if it is a number: an integer is rounded. -/
noncomputable def nearest? : Value → Option EReal
  | integer n => some ((roundInt n.toInt : ℝ) : EReal)
  | float bits => (double bits).value?

/-- Both contents are worth the same among the doubles. -/
def NearlyEqual (a b : Value) : Prop := ∃ y, a.nearest? = some y ∧ b.nearest? = some y

theorem NearlyEqual.symm (h : NearlyEqual a b) : NearlyEqual b a := by
  obtain ⟨y, ha, hb⟩ := h
  exact ⟨y, hb, ha⟩

theorem NearlyEqual.trans (h : NearlyEqual a b) (h' : NearlyEqual b c) : NearlyEqual a c := by
  obtain ⟨y, ha, hb⟩ := h
  obtain ⟨y', hb', hc⟩ := h'
  obtain rfl := Option.some.inj (hb.symm.trans hb')
  exact ⟨y, ha, hc⟩

/-- The double is worth what the integer is rounded to. -/
def RoundsTo (n : Int64) (x : UInt64) : Prop :=
  (double x).value? = some ((roundInt n.toInt : ℝ) : EReal)

theorem nearlyEqual_integer_float_iff : NearlyEqual (integer n) (float x) ↔ RoundsTo n x := by
  constructor
  · rintro ⟨y, hn, hx⟩
    exact hx.trans hn.symm
  · exact fun h => ⟨_, rfl, h⟩

/-! ### Comparison -/

theorem float_ne_integer : float x ≠ integer n := by
  intro h
  cases h

/-- **Contents compare equal if they are worth the same among the doubles,** except that integers
are compared before they are rounded. -/
theorem same_eq_true_iff :
    a.same b = true ↔ NearlyEqual a b ∧ ∀ m n, a = integer m → b = integer n → m = n := by
  have hmixed (n : Int64) (x : UInt64) :
      (Floating.Number.ofInt (roundInt n.toInt)).same (double x) = true ↔
        NearlyEqual (integer n) (float x) := by
    rw [Floating.Number.same_iff, Floating.Number.value?_ofInt]
    rfl
  cases a with
  | integer m =>
    cases b with
    | integer n =>
      rw [same, decide_eq_true_eq]
      constructor
      · rintro rfl
        exact ⟨⟨_, rfl, rfl⟩, fun _ _ hm hn => (integer.inj hm).symm.trans (integer.inj hn)⟩
      · exact fun h => h.2 m n rfl rfl
    | float x =>
      rw [same, hmixed]
      exact (and_iff_left fun _ _ _ hx => absurd hx float_ne_integer).symm
  | float x =>
    cases b with
    | integer n =>
      rw [same, hmixed]
      exact ⟨fun h => ⟨h.symm, fun _ _ hx => absurd hx float_ne_integer⟩, fun h => h.1.symm⟩
    | float y =>
      rw [same, Floating.Number.same_iff]
      exact (and_iff_left fun _ _ hx => absurd hx float_ne_integer).symm

theorem same_comm (a b : Value) : a.same b = b.same a := by
  have hswap {a b : Value} (h : a.same b = true) : b.same a = true := by
    obtain ⟨hnear, hintegers⟩ := same_eq_true_iff.1 h
    exact same_eq_true_iff.2 ⟨hnear.symm, fun m n hm hn => (hintegers n m hn hm).symm⟩
  exact Bool.eq_iff_iff.2 ⟨hswap, hswap⟩

theorem integer_same_float_iff : (integer n).same (float x) = true ↔ RoundsTo n x := by
  rw [same_eq_true_iff, nearlyEqual_integer_float_iff]
  exact and_iff_left fun _ _ _ hx => absurd hx float_ne_integer

/-- In a chain of two equalities only the one of two integers can be missing. -/
theorem same_of_chain (h : a.same b = true) (h' : b.same c = true) :
    a.same c = true ↔ ∀ m n, a = integer m → c = integer n → m = n := by
  rw [same_eq_true_iff]
  exact and_iff_right ((same_eq_true_iff.1 h).1.trans (same_eq_true_iff.1 h').1)

/-- **Transitivity fails only with a double between two different integers that are rounded to
it.** -/
theorem same_trans_iff (a b c : Value) :
    (a.same b = true → b.same c = true → a.same c = true) ↔
      ∀ m n x, a = integer m → b = float x → c = integer n →
        RoundsTo m x → RoundsTo n x → m = n := by
  constructor
  · rintro htrans m n x rfl rfl rfl hm hn
    have hfirst : (integer m).same (float x) = true := integer_same_float_iff.2 hm
    have hsecond : (float x).same (integer n) = true :=
      (same_comm _ _).trans (integer_same_float_iff.2 hn)
    exact (same_of_chain hfirst hsecond).1 (htrans hfirst hsecond) m n rfl rfl
  · intro hrounds h h'
    refine (same_of_chain h h').2 fun m n hm hn => ?_
    cases b with
    | integer k =>
      have hmk := (same_eq_true_iff.1 h).2 m k hm rfl
      exact hmk.trans ((same_eq_true_iff.1 h').2 k n rfl hn)
    | float x =>
      subst hm hn
      exact hrounds m n x rfl rfl rfl (integer_same_float_iff.1 h)
        (integer_same_float_iff.1 ((same_comm _ _).trans h'))

theorem natAbs_toInt_lt (n : Int64) : n.toInt.natAbs < 2 ^ 64 := by
  have hlow := n.le_toInt
  have hhigh := n.toInt_lt
  omega

theorem exists_roundsTo_iff :
    (∃ x, RoundsTo m x ∧ RoundsTo n x) ↔ roundInt m.toInt = roundInt n.toInt := by
  constructor
  · rintro ⟨x, hm, hn⟩
    have hvalue := EReal.coe_injective (Option.some.inj (hm.symm.trans hn))
    exact_mod_cast hvalue
  · intro h
    obtain ⟨x, hx⟩ := Floating.exists_double_roundInt (natAbs_toInt_lt m)
    refine ⟨x, hx, ?_⟩
    rw [RoundsTo, ← h]
    exact hx

/-- There is such a double exactly for integers that are rounded to the same number. -/
theorem exists_not_trans_iff :
    (∃ d, a.same d = true ∧ d.same c = true ∧ a.same c = false) ↔
      ∃ m n, a = integer m ∧ c = integer n ∧ m ≠ n ∧ roundInt m.toInt = roundInt n.toInt := by
  constructor
  · rintro ⟨d, had, hdc, hac⟩
    have hfails : ¬(a.same d = true → d.same c = true → a.same c = true) := fun htrans =>
      Bool.false_ne_true (hac.symm.trans (htrans had hdc))
    rw [same_trans_iff] at hfails
    push Not at hfails
    obtain ⟨m, n, x, ha, -, hc, hm, hn, hne⟩ := hfails
    exact ⟨m, n, ha, hc, hne, exists_roundsTo_iff.1 ⟨x, hm, hn⟩⟩
  · rintro ⟨m, n, rfl, rfl, hne, hround⟩
    obtain ⟨x, hm, hn⟩ := exists_roundsTo_iff.2 hround
    exact ⟨float x, integer_same_float_iff.2 hm,
      (same_comm _ _).trans (integer_same_float_iff.2 hn), decide_eq_false hne⟩

/-- **Equality of contents is symmetric, and transitive but for integers that a double cannot tell
apart.**  Integers are rounded to the nearest double, and up to 53 bits to themselves. -/
theorem same_partialEquivalence_iff (a b c : Value) :
    a.same b = b.same a ∧
    ((a.same b = true → b.same c = true → a.same c = true) ↔
      ∀ m n x, a = integer m → b = float x → c = integer n →
        RoundsTo m x → RoundsTo n x → m = n) ∧
    ((∃ d, a.same d = true ∧ d.same c = true ∧ a.same c = false) ↔
      ∃ m n, a = integer m ∧ c = integer n ∧ m ≠ n ∧ roundInt m.toInt = roundInt n.toInt) ∧
    ((∀ n, a = integer n ∨ c = integer n → n.toInt.natAbs ≤ 2 ^ 53) →
      a.same b = true → b.same c = true → a.same c = true) ∧
    (∀ n : Int64, ∀ x (v : ℝ), (double x).value? = some (v : EReal) →
      |(roundInt n.toInt : ℝ) - n.toInt| ≤ |v - n.toInt|) := by
  refine ⟨same_comm a b, same_trans_iff a b c, exists_not_trans_iff, fun hsmall => ?_,
    fun n _ _ => Floating.roundInt_nearest n.toInt⟩
  refine (same_trans_iff a b c).2 fun m n x hm _ hn hmx hnx => ?_
  have hround := exists_roundsTo_iff.1 ⟨x, hmx, hnx⟩
  rw [Floating.roundInt_eq_self (hsmall m (.inl hm)),
    Floating.roundInt_eq_self (hsmall n (.inr hn))] at hround
  exact Int64.toInt_inj.1 hround

/-- The first integer that is no double compares equal to the double that it is rounded to, and so
does its lower neighbour. -/
theorem same_not_transitive :
    let low := ofRaw .integer 9007199254740992
    let middle := ofRaw .float 0x4340000000000000
    let high := ofRaw .integer 9007199254740993
    low.same middle = true ∧ middle.same high = true ∧ low.same high = false := by
  decide +kernel

end Machine.Value
end VmProbe
