/-
VmProbe/Client/Breakpoints.lean

The breakpoint set, as the addresses in ascending order.  The order is part of the type, so
an address is in the set at most once and every listing of the set is the same.
-/
namespace VmProbe.Client

/-- Puts an address into its place of an ascending list. -/
def insertAddress (a : UInt64) : List UInt64 → List UInt64
  | [] => [a]
  | b :: bs => if a < b then a :: b :: bs else b :: insertAddress a bs

theorem mem_insertAddress {a x : UInt64} {bs : List UInt64} :
    x ∈ insertAddress a bs ↔ x = a ∨ x ∈ bs := by
  induction bs with
  | nil => simp [insertAddress]
  | cons b bs ih =>
    unfold insertAddress
    split
    · simp
    · simp only [List.mem_cons, ih]
      constructor <;> (rintro (h | h | h) <;> simp [h])

theorem pairwise_insertAddress {a : UInt64} {bs : List UInt64} (h : bs.Pairwise (· < ·))
    (ha : a ∉ bs) : (insertAddress a bs).Pairwise (· < ·) := by
  induction bs with
  | nil => simp [insertAddress]
  | cons b bs ih =>
    obtain ⟨hb, hbs⟩ := List.pairwise_cons.1 h
    unfold insertAddress
    split
    · next hab =>
      refine List.pairwise_cons.2 ⟨fun x hx => ?_, h⟩
      rcases List.mem_cons.1 hx with rfl | hx
      · exact hab
      · exact UInt64.lt_trans hab (hb x hx)
    · next hab =>
      have hne : b ≠ a := fun e => ha (e ▸ List.mem_cons_self)
      have hba : b < a := UInt64.lt_of_le_of_ne (UInt64.not_lt.1 hab) hne
      refine List.pairwise_cons.2 ⟨fun x hx => ?_, ih hbs fun e => ha (List.mem_cons_of_mem _ e)⟩
      rcases mem_insertAddress.1 hx with rfl | hx
      · exact hba
      · exact hb x hx

/-- The addresses with a breakpoint. -/
structure Breakpoints where
  addresses : List UInt64
  ascending : addresses.Pairwise (· < ·) := by simp
  deriving DecidableEq

namespace Breakpoints

/-- No breakpoints. -/
def empty : Breakpoints where
  addresses := []

instance : Membership UInt64 Breakpoints where
  mem s a := a ∈ s.addresses

instance (a : UInt64) (s : Breakpoints) : Decidable (a ∈ s) :=
  inferInstanceAs (Decidable (a ∈ s.addresses))

/-- The set with one more address. -/
def insert (s : Breakpoints) (a : UInt64) : Breakpoints :=
  if h : a ∈ s.addresses then s
  else ⟨insertAddress a s.addresses, pairwise_insertAddress s.ascending h⟩

/-- The set without an address. -/
def erase (s : Breakpoints) (a : UInt64) : Breakpoints :=
  ⟨s.addresses.erase a, s.ascending.sublist List.erase_sublist⟩

/-- The set with an address put in if it was not there, and taken out if it was. -/
def toggle (s : Breakpoints) (a : UInt64) : Breakpoints :=
  if a ∈ s then s.erase a else s.insert a

end Breakpoints

end VmProbe.Client
