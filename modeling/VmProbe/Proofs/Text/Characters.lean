/-
VmProbe/Proofs/Text/Characters.lean

The bytes of characters, and the character that is under way.

A character with more than one byte is a first byte and what finishes it, and the table of first
bytes says exactly which bytes these are (`exists_finishes_of_encode`, `exists_encode_of_finishes`).
So the state that the lossy reader is in after some bytes can be told without the reader: a
character is under way when the last bytes are the first bytes of a character
(`underWay_eq_some`), and the next byte goes on with it when it is cut at this place:

    CutsCharacter before after ↔ Continues (underWay before) after
-/
import Mathlib
import VmProbe.Text.Utf8

namespace VmProbe.Text

open String (utf8EncodeChar)

variable {b : UInt8} {bs w before after : List UInt8} {c : Char} {p : Pending} {q : Option Pending}

/-! ### The table of first bytes -/

/-- The table of first bytes, in numbers. -/
def IsLead (x owed low high : ℕ) : Prop :=
  0xC2 ≤ x ∧ x ≤ 0xDF ∧ owed = 1 ∧ low = 0x80 ∧ high = 0xBF ∨
  x = 0xE0 ∧ owed = 2 ∧ low = 0xA0 ∧ high = 0xBF ∨
  x = 0xED ∧ owed = 2 ∧ low = 0x80 ∧ high = 0x9F ∨
  0xE1 ≤ x ∧ x ≤ 0xEF ∧ x ≠ 0xED ∧ owed = 2 ∧ low = 0x80 ∧ high = 0xBF ∨
  x = 0xF0 ∧ owed = 3 ∧ low = 0x90 ∧ high = 0xBF ∨
  x = 0xF4 ∧ owed = 3 ∧ low = 0x80 ∧ high = 0x8F ∨
  0xF1 ≤ x ∧ x ≤ 0xF3 ∧ owed = 3 ∧ low = 0x80 ∧ high = 0xBF

instance (x owed low high : ℕ) : Decidable (IsLead x owed low high) :=
  inferInstanceAs (Decidable (_ ∨ _))

theorem isLead_of_lead? (b : UInt8) :
    (∀ l ∈ lead? b, IsLead b.toNat l.follow l.low.toNat l.high.toNat) ∧
      (lead? b = none → b.toNat < 0xC2 ∨ 0xF4 < b.toNat) := by
  have htable : ∀ n < 256,
      (∀ l ∈ lead? (UInt8.ofNat n), IsLead n l.follow l.low.toNat l.high.toNat) ∧
        (lead? (UInt8.ofNat n) = none → n < 0xC2 ∨ 0xF4 < n) := by decide +kernel
  have hb := htable b.toNat b.toNat_lt
  rwa [UInt8.ofNat_toNat] at hb

theorem IsLead.unique {x owed low high owed' low' high' : ℕ} (h : IsLead x owed low high)
    (h' : IsLead x owed' low' high') : owed = owed' ∧ low = low' ∧ high = high' := by
  rw [IsLead] at h h'
  omega

/-- Which characters a byte begins. -/
theorem opening_eq_begin_iff :
    opening b = .begin p ↔
      p.bits = leadBits b ∧ IsLead b.toNat p.owed p.low.toNat p.high.toNat := by
  obtain ⟨hsome, hnone⟩ := isLead_of_lead? b
  rw [opening]
  constructor
  · intro h
    split_ifs at h with hbyte
    rcases hl : lead? b with - | l <;> rw [hl] at h
    · cases h
    · cases h
      exact ⟨rfl, hsome l hl⟩
  · rintro ⟨hbits, hlead⟩
    have hrange : 0xC2 ≤ b.toNat ∧ b.toNat ≤ 0xF4 := by
      rw [IsLead] at hlead
      omega
    have hbyte : ¬ b < 0x80 := by
      rw [UInt8.lt_iff_toNat_lt, Nat.not_lt]
      exact le_trans (by decide) hrange.1
    rcases hl : lead? b with - | l
    · rcases hnone hl with h | h <;> omega
    · obtain ⟨owed, low, high, bits⟩ := p
      obtain ⟨rfl, hlow, hhigh⟩ := hlead.unique (hsome l hl)
      obtain rfl := UInt8.toNat_inj.1 hlow
      obtain rfl := UInt8.toNat_inj.1 hhigh
      obtain rfl : bits = leadBits b := hbits
      rw [if_neg hbyte]

/-! ### The bytes of a character -/

/-- Whether the character goes on with a byte. -/
def Pending.Admits (p : Pending) (b : UInt8) : Prop := p.low ≤ b ∧ b ≤ p.high

instance (p : Pending) (b : UInt8) : Decidable (p.Admits b) :=
  inferInstanceAs (Decidable (_ ∧ _))

/-- The bytes that finish a character: as many as it owes, the first of them in its range. -/
def Pending.Finishes (p : Pending) : List UInt8 → Prop
  | [] => False
  | b :: bs => p.Admits b ∧ bs.length + 1 = p.owed ∧ ∀ x ∈ bs, 0x80 ≤ x ∧ x ≤ 0xBF

/-- The bytes of a character with more than one byte are a first byte and what finishes it. -/
theorem exists_finishes_of_encode (h : 0x80 ≤ c.toNat) :
    ∃ b p w, utf8EncodeChar c = b :: w ∧ opening b = .begin p ∧ p.Finishes w := by
  have hvalid : c.toNat < 0xD800 ∨ 0xDFFF < c.toNat ∧ c.toNat < 0x110000 := c.valid
  rw [utf8EncodeChar, show c.val.toNat = c.toNat from rfl]
  generalize c.toNat = n at h hvalid
  -- a range for the second byte that goes with the first byte
  have hrange : ∃ low high : UInt8,
      (0x7FF < n → n ≤ 0xFFFF → IsLead (n / 4096 + 0xE0) 2 low.toNat high.toNat ∧
        low.toNat ≤ n / 64 % 64 + 0x80 ∧ n / 64 % 64 + 0x80 ≤ high.toNat) ∧
      (0xFFFF < n → IsLead (n / 262144 + 0xF0) 3 low.toNat high.toNat ∧
        low.toNat ≤ n / 4096 % 64 + 0x80 ∧ n / 4096 % 64 + 0x80 ≤ high.toNat) := by
    by_cases h0 : n / 4096 = 0
    · exact ⟨0xA0, 0xBF, by simp [IsLead]; omega⟩
    by_cases hd : n / 4096 = 13
    · exact ⟨0x80, 0x9F, by simp [IsLead]; omega⟩
    by_cases h3 : 0xFFFF < n ∧ n / 262144 = 0
    · exact ⟨0x90, 0xBF, by simp [IsLead]; omega⟩
    by_cases h4 : n / 262144 = 4
    · exact ⟨0x80, 0x8F, by simp [IsLead]; omega⟩
    · exact ⟨0x80, 0xBF, by simp [IsLead]; omega⟩
  obtain ⟨low, high, htwo, hthree⟩ := hrange
  split_ifs with h1 h2 h3
  · omega
  · refine ⟨_, ⟨1, 0x80, 0xBF, _⟩, _, rfl, opening_eq_begin_iff.2 ⟨rfl, ?_⟩, ?_⟩
    · simp [IsLead]
      omega
    · simp [Pending.Finishes, Pending.Admits, UInt8.le_iff_toNat_le]
      omega
  · obtain ⟨hlead, hlow, hhigh⟩ := htwo (by omega) h3
    refine ⟨_, ⟨2, low, high, _⟩, _, rfl, opening_eq_begin_iff.2 ⟨rfl, ?_⟩, ?_⟩
    · rw [UInt8.toNat_ofNat', Nat.mod_eq_of_lt (by omega), Nat.mod_eq_of_lt (by omega)]
      exact hlead
    · simp [Pending.Finishes, Pending.Admits, UInt8.le_iff_toNat_le]
      omega
  · obtain ⟨hlead, hlow, hhigh⟩ := hthree (by omega)
    refine ⟨_, ⟨3, low, high, _⟩, _, rfl, opening_eq_begin_iff.2 ⟨rfl, ?_⟩, ?_⟩
    · rw [UInt8.toNat_ofNat', Nat.mod_eq_of_lt (by omega), Nat.mod_eq_of_lt (by omega)]
      exact hlead
    · simp [Pending.Finishes, Pending.Admits, UInt8.le_iff_toNat_le]
      omega

/-- A first byte and what finishes it are the bytes of a character. -/
theorem exists_encode_of_finishes (hb : opening b = .begin p) (hw : p.Finishes w) :
    ∃ c, utf8EncodeChar c = b :: w := by
  have hchar (n : ℕ) (hn : n < 0xD800 ∨ 0xDFFF < n ∧ n < 0x110000) : ∃ c : Char, c.val.toNat = n :=
    ⟨Char.ofNat n, (Char.toNat_ofNat n).trans (if_pos hn)⟩
  obtain ⟨-, hlead⟩ := opening_eq_begin_iff.1 hb
  rw [IsLead] at hlead
  rcases w with - | ⟨x, w⟩
  · cases hw
  obtain ⟨⟨hlow, hhigh⟩, hlength, hrest⟩ := hw
  rw [UInt8.le_iff_toNat_le] at hlow hhigh
  -- the code point is put together from the bits of the bytes
  rcases w with - | ⟨y, - | ⟨z, - | ⟨t, w⟩⟩⟩ <;>
    simp [UInt8.le_iff_toNat_le] at hlength hrest
  · obtain ⟨c, hc⟩ := hchar ((b.toNat - 0xC0) * 64 + (x.toNat - 0x80)) (by omega)
    refine ⟨c, ?_⟩
    rw [utf8EncodeChar, hc, if_neg (by omega), if_pos (by omega)]
    simp [← UInt8.toNat_inj]
    omega
  · obtain ⟨c, hc⟩ :=
      hchar ((b.toNat - 0xE0) * 4096 + (x.toNat - 0x80) * 64 + (y.toNat - 0x80)) (by omega)
    refine ⟨c, ?_⟩
    rw [utf8EncodeChar, hc, if_neg (by omega), if_neg (by omega), if_pos (by omega)]
    simp [← UInt8.toNat_inj]
    omega
  · obtain ⟨c, hc⟩ :=
      hchar ((b.toNat - 0xF0) * 262144 + (x.toNat - 0x80) * 4096 + (y.toNat - 0x80) * 64 +
        (z.toNat - 0x80)) (by omega)
    refine ⟨c, ?_⟩
    rw [utf8EncodeChar, hc, if_neg (by omega), if_neg (by omega), if_neg (by omega)]
    simp [← UInt8.toNat_inj]
    omega
  · omega

/-! ### The character under way -/

/-- The character that is under way after a byte between characters. -/
def Opening.pending : Opening → Option Pending
  | begin p => some p
  | _ => none

/-- The same character with one byte more. -/
def Pending.next (p : Pending) (b : UInt8) : Pending :=
  ⟨p.owed - 1, 0x80, 0xBF, 64 * p.bits + b.toNat % 64⟩

/-- The character that is under way after a byte. -/
def advance (q : Option Pending) (b : UInt8) : Option Pending :=
  match q with
  | none => (opening b).pending
  | some p =>
    if p.Admits b then
      if p.owed = 1 then none else some (p.next b)
    else (opening b).pending

/-- The character that is under way after some bytes. -/
def underWay (bs : List UInt8) : Option Pending := bs.foldl advance none

/-- A character that owes something, all of it continuation bytes. -/
structure Pending.Proper (p : Pending) : Prop where
  owes : 0 < p.owed
  low : 0x80 ≤ p.low.toNat
  high : p.high.toNat ≤ 0xBF

theorem opening_pending_eq_some_iff : (opening b).pending = some p ↔ opening b = .begin p := by
  rcases opening b with - | - | - <;> simp [Opening.pending]

theorem proper_of_opening (h : opening b = .begin p) : p.Proper := by
  obtain ⟨-, hlead⟩ := opening_eq_begin_iff.1 h
  rw [IsLead] at hlead
  exact ⟨by omega, by omega, by omega⟩

/-- A byte that goes on with a character cannot stand between characters. -/
theorem opening_of_admits (hp : p.Proper) (h : p.Admits b) : opening b = .refused := by
  have hlow := hp.low.trans (UInt8.le_iff_toNat_le.1 h.1)
  have hhigh := (UInt8.le_iff_toNat_le.1 h.2).trans hp.high
  -- neither a character of one byte, nor in the table of first bytes
  have hbyte : ¬ b < 0x80 := by
    rw [UInt8.lt_iff_toNat_lt]
    exact Nat.not_lt.2 hlow
  rcases hl : lead? b with - | l
  · rw [opening, if_neg hbyte, hl]
  · have hb : opening b = .begin ⟨l.follow, l.low, l.high, leadBits b⟩ := by
      rw [opening, if_neg hbyte, hl]
    obtain ⟨-, hlead⟩ := opening_eq_begin_iff.1 hb
    rw [IsLead] at hlead
    omega

/-- A first byte begins a character, whatever is under way. -/
theorem advance_of_opening (hq : ∀ p ∈ q, p.Proper) (h : opening b = .begin p) :
    advance q b = some p := by
  rcases q with - | p'
  · exact congrArg Opening.pending h
  · have hnot : ¬ p'.Admits b := by
      intro hadmits
      rw [opening_of_admits (hq p' rfl) hadmits] at h
      cases h
    rw [advance, if_neg hnot, h]
    rfl

/-- What is under way after a byte was begun by it, or goes on with what was. -/
theorem advance_eq_some (h : advance q b = some p) :
    opening b = .begin p ∨ ∃ p' ∈ q, p'.Admits b ∧ p'.owed ≠ 1 ∧ p = p'.next b := by
  rcases q with - | p'
  · exact .inl (opening_pending_eq_some_iff.1 h)
  · rw [advance] at h
    split_ifs at h with hadmits howed
    · exact .inr ⟨p', rfl, hadmits, howed, (Option.some.inj h).symm⟩
    · exact .inl (opening_pending_eq_some_iff.1 h)

theorem underWay_concat (bs : List UInt8) (b : UInt8) :
    underWay (bs ++ [b]) = advance (underWay bs) b := List.foldl_concat ..

theorem finishes_cons_cons {x : UInt8} :
    p.Finishes (b :: x :: bs) ↔ p.Admits b ∧ p.owed ≠ 1 ∧ (p.next b).Finishes (x :: bs) := by
  have hx : (p.next b).Admits x ↔ 0x80 ≤ x ∧ x ≤ 0xBF := Iff.rfl
  have howed : bs.length + 1 + 1 = p.owed ↔ p.owed ≠ 1 ∧ bs.length + 1 = (p.next b).owed := by
    show _ ↔ p.owed ≠ 1 ∧ bs.length + 1 = p.owed - 1
    omega
  simp only [Pending.Finishes, List.length_cons, List.forall_mem_cons, howed, hx]
  tauto

theorem Pending.Proper.next (hp : p.Proper) (howed : p.owed ≠ 1) (b : UInt8) :
    (p.next b).Proper := by
  have howes := hp.owes
  exact ⟨Nat.sub_pos_of_lt (by omega), le_rfl, le_rfl⟩

theorem proper_advance (hq : ∀ p ∈ q, p.Proper) (b : UInt8) : ∀ p ∈ advance q b, p.Proper := by
  intro p hp
  rcases advance_eq_some hp with hb | ⟨p', hp', hadmits, howed, rfl⟩
  · exact proper_of_opening hb
  · exact (hq p' hp').next howed b

/-- **A character is under way after its first bytes:** the last bytes that were read are those
of each character that can still come of it. -/
theorem underWay_eq_some (h : underWay bs = some p) :
    p.Proper ∧ ∃ u, u ≠ [] ∧ u <:+ bs ∧ ∀ w, p.Finishes w → ∃ c, utf8EncodeChar c = u ++ w := by
  induction bs using List.reverseRecOn generalizing p with
  | nil => cases h
  | append_singleton bs b ih =>
    rw [underWay_concat] at h
    rcases advance_eq_some h with hb | ⟨p', hp', hadmits, howed, rfl⟩
    · exact ⟨proper_of_opening hb, [b], List.cons_ne_nil _ _, List.suffix_append _ _,
        fun w hw => exists_encode_of_finishes hb hw⟩
    · obtain ⟨hproper, u, hne, ⟨pre, rfl⟩, hu⟩ := ih hp'
      refine ⟨hproper.next howed b, u ++ [b], List.concat_ne_nil _ _, ⟨pre, by simp⟩, ?_⟩
      intro w hw
      rcases w with - | ⟨x, w⟩
      · cases hw
      obtain ⟨c, hc⟩ := hu (b :: x :: w) (finishes_cons_cons.2 ⟨hadmits, howed, hw⟩)
      exact ⟨c, by rw [hc, List.append_assoc]; rfl⟩

theorem proper_underWay (bs : List UInt8) : ∀ p ∈ underWay bs, p.Proper :=
  fun _ hp => (underWay_eq_some hp).1

/-- `q.Continues bs`: the first of the bytes goes on with the character that is under way. -/
def Continues (q : Option Pending) (bs : List UInt8) : Prop :=
  ∃ p ∈ q, ∃ b ∈ bs.head?, p.Admits b

/-- `CutsCharacter before after`: some bytes from the end of `before` and some from the beginning
of `after` are, one after the other, the first bytes of a character. -/
def CutsCharacter (before after : List UInt8) : Prop :=
  ∃ (c : Char) (u v : List UInt8), u ≠ [] ∧ v ≠ [] ∧ u <:+ before ∧ v <+: after ∧
    u ++ v <+: utf8EncodeChar c

/-- What finishes a character goes on with it, byte by byte. -/
theorem admits_of_finishes {v : List UInt8} (h : p.Finishes (bs ++ b :: v)) :
    ∃ p', bs.foldl advance (some p) = some p' ∧ p'.Admits b := by
  induction bs generalizing p with
  | nil => exact ⟨p, rfl, h.1⟩
  | cons x bs ih =>
    obtain ⟨y, rest, hrest⟩ : ∃ y rest, bs ++ b :: v = y :: rest := by
      rcases bs with - | ⟨y, bs⟩
      · exact ⟨b, v, rfl⟩
      · exact ⟨y, bs ++ b :: v, rfl⟩
    rw [List.cons_append, hrest] at h
    obtain ⟨hx, howed, hnext⟩ := finishes_cons_cons.1 h
    rw [← hrest] at hnext
    rw [List.foldl_cons, advance, if_pos hx, if_neg howed]
    exact ih hnext

theorem cutsCharacter_iff : CutsCharacter before after ↔ Continues (underWay before) after := by
  constructor
  · rintro ⟨c, u, v, hu, hv, ⟨pre, rfl⟩, ⟨rest, rfl⟩, ⟨w, hw⟩⟩
    obtain ⟨b, u, rfl⟩ := List.exists_cons_of_ne_nil hu
    obtain ⟨x, v, rfl⟩ := List.exists_cons_of_ne_nil hv
    have hlong : 0x80 ≤ c.toNat := by
      by_contra hshort
      have hval : c.val.toNat ≤ 0x7F := Nat.not_lt.1 hshort
      rw [utf8EncodeChar, if_pos hval] at hw
      cases u <;> cases hw
    obtain ⟨b', p, w', hc, hb', hfinish⟩ := exists_finishes_of_encode hlong
    obtain ⟨rfl, rfl⟩ := List.cons.inj (hw.trans hc)
    rw [List.append_eq, List.append_eq, List.append_assoc] at hfinish
    -- from its first byte on the character is under way, whatever was before
    obtain ⟨p', hp', hadmits⟩ := admits_of_finishes hfinish
    refine ⟨p', ?_, x, rfl, hadmits⟩
    show List.foldl advance none (pre ++ b :: u) = some p'
    rw [List.foldl_append, List.foldl_cons, ← underWay,
      advance_of_opening (proper_underWay pre) hb', hp']
  · rintro ⟨p, hp, b, hb, hadmits⟩
    obtain ⟨hproper, u, hne, hu, hfinish⟩ := underWay_eq_some hp
    have howes := hproper.owes
    -- the byte and the least continuation bytes finish the character
    have hpad : p.Finishes (b :: List.replicate (p.owed - 1) 0x80) := by
      refine ⟨hadmits, ?_, ?_⟩
      · rw [List.length_replicate]
        omega
      · intro x hx
        obtain rfl := List.eq_of_mem_replicate hx
        decide
    obtain ⟨c, hc⟩ := hfinish _ hpad
    obtain ⟨rest, rfl⟩ := List.head?_eq_some_iff.1 hb
    exact ⟨c, u, [b], hne, List.cons_ne_nil _ _, hu, ⟨rest, rfl⟩,
      ⟨_, by rw [hc, List.append_assoc]; rfl⟩⟩

end VmProbe.Text
