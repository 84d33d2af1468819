/-
VmProbe/Proofs/Floating/Text.lean

The characters of numbers.

A floating-point number is written with digits, a point and a sign, however long it becomes, unless
it is infinite or no number (`isNumeral_text`).  Whole numbers are written with digits alone.  So
the text of a number can be told from other words by its characters.
-/
import Mathlib
import VmProbe.Floating.Shortest

namespace VmProbe.Floating

/-- A character that numbers are written with. -/
def isNumeric (c : Char) : Bool := c.isDigit || c = '.' || c = '-'

/-- A text of a number. -/
def IsNumeral (t : List Char) : Prop :=
  (∀ c ∈ t, isNumeric c) ∨ t = ['N', 'a', 'N'] ∨ t = ['i', 'n', 'f'] ∨ t = ['-', 'i', 'n', 'f']

instance (t : List Char) : Decidable (IsNumeral t) := inferInstanceAs (Decidable (_ ∨ _))

theorem isNumeric_of_mem_toDigits {n : ℕ} {c : Char} (h : c ∈ Nat.toDigits 10 n) :
    isNumeric c := by
  rw [isNumeric, Nat.isDigit_of_mem_toDigits (by decide) (by decide) h]
  rfl

/-- A whole number is written with digits. -/
theorem isNumeral_toString (n : ℕ) : IsNumeral (toString n).toList := by
  rw [Nat.toString_eq_ofList_toDigits, String.toList_ofList]
  exact .inl fun c hc => isNumeric_of_mem_toDigits hc

/-- Putting in zeros and a point leaves nothing but digits and the point. -/
theorem isNumeric_of_mem_positional (d : Decimal) : ∀ c ∈ d.positional.toList, isNumeric c := by
  have hdigits (n : ℕ) : ∀ c ∈ Nat.toDigits 10 n, isNumeric c := fun c hc =>
    isNumeric_of_mem_toDigits hc
  have hzeros (n : ℕ) : ∀ c ∈ List.replicate n '0', isNumeric c := by
    intro c hc
    obtain rfl := List.eq_of_mem_replicate hc
    rfl
  rw [Decimal.positional, String.toList_ofList]
  split_ifs
  · exact List.forall_mem_append.2 ⟨hdigits _, hzeros _⟩
  · refine List.forall_mem_append.2 ⟨fun c hc => ?_, List.forall_mem_cons.2 ⟨rfl, fun c hc => ?_⟩⟩
    · exact hdigits _ c (List.mem_of_mem_take hc)
    · exact hdigits _ c (List.mem_of_mem_drop hc)
  · exact List.forall_mem_cons.2 ⟨rfl, List.forall_mem_cons.2 ⟨rfl,
      List.forall_mem_append.2 ⟨hzeros _, hdigits _⟩⟩⟩

/-- **The text of a bit pattern is that of a number.** -/
theorem isNumeral_text (f : Format) (bits : ℕ) : IsNumeral (f.text bits).toList := by
  rw [Format.text]
  rcases Number.ofBits f bits with - | negative | ⟨negative, m, q⟩
  · show IsNumeral "NaN".toList
    exact .inr (.inl rfl)
  · cases negative
    · show IsNumeral "inf".toList
      exact .inr (.inr (.inl rfl))
    · show IsNumeral "-inf".toList
      exact .inr (.inr (.inr rfl))
  · have hall (d : Decimal) : ∀ c ∈ (if m = 0 then "0" else d.positional).toList, isNumeric c := by
      split_ifs
      · exact List.forall_mem_singleton.2 rfl
      · exact isNumeric_of_mem_positional d
    dsimp only
    cases negative
    · exact .inl (hall _)
    · rw [if_pos rfl, String.toList_append]
      exact .inl (List.forall_mem_cons.2 ⟨rfl, hall _⟩)

end VmProbe.Floating
