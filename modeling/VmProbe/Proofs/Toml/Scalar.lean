/-
VmProbe/Proofs/Toml/Scalar.lean

Decimal numbers are read back.

A word of digits alone is neither a date nor a float, since a date has a hyphen or a colon after
its first number and a float has a point or an exponent.  It is an integer unless it has a leading
zero, and the digits of a number have none (`head?_toDigits`).  So every number that fits into the
signed 64-bit integers of the format comes back from its digits:

    n ≤ Int64.maxValue  →  scalar? (Nat.toDigits 10 n) = some (.integer n)
-/
import Mathlib
import VmProbe.Toml.Scalar

namespace VmProbe.Toml

open Text (decimalValue?)

variable {n acc k : ℕ} {c : Char} {cs rest : List Char}

/-- A word of one class of characters does not begin with a character of another. -/
theorem ne_cons_of_forall {p : Char → Bool} (hcs : ∀ c ∈ cs, p c) (hc : p c = false)
    (w : List Char) : cs ≠ c :: w := by
  rintro rfl
  exact Bool.false_ne_true (hc.symm.trans (hcs c List.mem_cons_self))

/-! ### Digits -/

theorem decimalValue?_of_isDigit (hc : c.isDigit) : decimalValue? c = some (c.toNat - 48) := by
  have hrange : 48 ≤ c.val ∧ c.val ≤ 57 := by
    simpa [Char.isDigit] using hc
  exact if_pos hrange

/-- Digits need no underscores between them. -/
theorem grouped?_digits (hcs : ∀ c ∈ cs, c.isDigit) (hne : cs ≠ []) :
    grouped? 10 decimalValue? acc cs = some (Nat.ofDigitChars 10 cs acc) := by
  fun_induction grouped? 10 decimalValue? acc cs with
  | case1 => exact absurd rfl hne
  | case2 acc c =>
    rw [decimalValue?_of_isDigit (hcs c List.mem_cons_self), Nat.ofDigitChars_cons,
      Nat.ofDigitChars_nil]
    rfl
  | case3 acc c rest => cases hcs '_' (List.mem_cons_of_mem c List.mem_cons_self)
  | case4 acc c rest hnil hrest ih =>
    obtain ⟨hc, htail⟩ := List.forall_mem_cons.1 hcs
    rw [decimalValue?_of_isDigit hc, Option.bind_some, Nat.ofDigitChars_cons]
    exact ih _ htail hnil

/-- The digits of a number have no leading zero. -/
theorem head?_toDigits (hn : 0 < n) : (Nat.toDigits 10 n).head? ≠ some '0' := by
  induction n using Nat.strong_induction_on with
  | _ n ih =>
    rcases Nat.lt_or_ge n 10 with hlt | hge
    · rw [Nat.toDigits_of_lt_base hlt]
      intro h
      exact hn.ne' (Nat.digitChar_eq_zero.1 (Option.some.inj h))
    · have hfront : 0 < n / 10 := Nat.div_pos hge (by decide)
      rw [Nat.toDigits_of_base_le (by decide) hge,
        List.head?_append_of_ne_nil _ Nat.toDigits_ne_nil]
      exact ih (n / 10) (Nat.div_lt_self hn (by decide)) hfront

theorem decimal?_toDigits (n : ℕ) : decimal? (Nat.toDigits 10 n) = some n := by
  rcases Nat.eq_zero_or_pos n with rfl | hn
  · rfl
  · have hfirst := head?_toDigits hn
    unfold decimal?
    split
    · next h => exact absurd (by rw [h]; rfl) hfirst
    · next h => exact absurd (by rw [h]; rfl) hfirst
    · have hdigits : ∀ c ∈ Nat.toDigits 10 n, c.isDigit := fun c hc =>
        Nat.isDigit_of_mem_toDigits (by decide) (by decide) hc
      rw [grouped?_digits hdigits Nat.toDigits_ne_nil, Nat.ofDigitChars_ten_toDigits]

/-! ### What digits are not -/

theorem after?_digits (hcs : ∀ c ∈ cs, c.isDigit) (hc : c.isDigit = false) :
    after? c cs = none := by
  rcases cs with - | ⟨x, cs⟩
  · rfl
  · exact if_neg fun hx => ne_cons_of_forall hcs hc cs (by rw [hx])

theorem digits_of_fixedDigits? {d : ℕ} (hcs : ∀ c ∈ cs, c.isDigit)
    (h : fixedDigits? k cs = some (d, rest)) : ∀ c ∈ rest, c.isDigit := by
  rw [fixedDigits?] at h
  split_ifs at h with hlength
  obtain ⟨_, -, heq⟩ := Option.map_eq_some_iff.1 h
  obtain rfl := (Prod.mk.inj heq).2
  exact fun c hc => hcs c (List.mem_of_mem_drop hc)

theorem isDatetime_digits (hcs : ∀ c ∈ cs, c.isDigit) : isDatetime cs = false := by
  have hdate : afterDate? cs = none := by
    rw [afterDate?]
    rcases h : fixedDigits? 4 cs with - | ⟨year, rest⟩
    · rfl
    · show (after? '-' rest).bind _ = none
      rw [after?_digits (digits_of_fixedDigits? hcs h) rfl]
      rfl
  have htime : afterTime? cs = none := by
    rw [afterTime?]
    rcases h : twoDigits? 0 23 cs with - | ⟨hour, rest⟩
    · rfl
    · have hfixed := (Option.filter_eq_some_iff.1 h).1
      show (after? ':' rest).bind _ = none
      rw [after?_digits (digits_of_fixedDigits? hcs hfixed) rfl]
      rfl
  rw [isDatetime, hdate, htime]
  rfl

theorem unsignedFloat?_digits (hcs : ∀ c ∈ cs, c.isDigit) : unsignedFloat? cs = none := by
  have hgroup : ∀ c ∈ cs, isGroupChar c := by
    intro c hc
    rw [isGroupChar, decimalValue?_of_isDigit (hcs c hc), Option.isSome_some, Bool.or_true]
  have hdrop : cs.dropWhile isGroupChar = [] := List.dropWhile_eq_nil_iff.2 hgroup
  rw [unsignedFloat?, hdrop]
  exact Option.bind_fun_none _

theorem isFloat_digits (hcs : ∀ c ∈ cs, c.isDigit) : isFloat cs = false := by
  unfold isFloat
  split
  · cases hcs '+' List.mem_cons_self
  · cases hcs '-' List.mem_cons_self
  · simp [unsignedFloat?_digits hcs, ne_cons_of_forall hcs]

theorem integer?_digits (hcs : ∀ c ∈ cs, c.isDigit) :
    integer? cs = (decimal? cs).bind fun n => fitting? n := by
  unfold integer?
  split
  · cases hcs 'x' (List.mem_cons_of_mem _ List.mem_cons_self)
  · cases hcs 'o' (List.mem_cons_of_mem _ List.mem_cons_self)
  · cases hcs 'b' (List.mem_cons_of_mem _ List.mem_cons_self)
  · cases hcs '-' List.mem_cons_self
  · cases hcs '+' List.mem_cons_self
  · rcases decimal? cs with - | n
    · rfl
    · rfl

/-! ### Numbers -/

/-- **A number that fits is read back from its digits.** -/
theorem scalar?_toDigits (hn : (n : ℤ) ≤ Int64.maxValue.toInt) :
    scalar? (Nat.toDigits 10 n) = some (.integer n) := by
  have hdigits : ∀ c ∈ Nat.toDigits 10 n, c.isDigit := fun c hc =>
    Nat.isDigit_of_mem_toDigits (by decide) (by decide) hc
  have hfits : fitting? n = some (n : ℤ) := by
    have hleast : Int64.minValue.toInt ≤ (n : ℤ) := le_trans (by decide) (Int.natCast_nonneg n)
    exact if_pos ⟨hleast, hn⟩
  rw [scalar?, if_neg (ne_cons_of_forall hdigits rfl _), if_neg (ne_cons_of_forall hdigits rfl _),
    isDatetime_digits hdigits, isFloat_digits hdigits, integer?_digits hdigits, decimal?_toDigits,
    Option.bind_some, hfits]
  rfl

/-- A number at the end of a line is a word. -/
theorem word_digits (hcs : ∀ c ∈ cs, c.isDigit) (rest : List Char) :
    word (cs ++ '\n' :: rest) = (cs, '\n' :: rest) := by
  have hchar : ∀ c ∈ cs, isWordChar c := by
    intro c hc
    simp [isWordChar, Char.isAlphanum, hcs c hc]
  have hfirst : (cs ++ '\n' :: rest).takeWhile isWordChar = cs := by
    rw [List.takeWhile_append_of_pos hchar, List.takeWhile_cons_of_neg (by decide), List.append_nil]
  have hafter : (cs ++ '\n' :: rest).dropWhile isWordChar = '\n' :: rest := by
    rw [List.dropWhile_append_of_pos hchar, List.dropWhile_cons_of_neg (by decide)]
  rw [word, hfirst, hafter]
  rfl

end VmProbe.Toml
