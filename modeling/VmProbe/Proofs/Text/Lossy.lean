/-
VmProbe/Proofs/Text/Lossy.lean

Lossy reading in parts.

Reading goes on from the character that is under way, and from nothing else
(`decodeLossyFrom_append`).  A cut inside a character makes the text longer: the first bytes of the
character are replaced at the end of one part, and the next byte at the beginning of the other.
A cut anywhere else changes nothing.

Main statement: the texts of some parts are together the text of the whole if and only if no cut
is inside a character (`decodeLossy_flatten_iff`).
-/
import VmProbe.Proofs.Text.Characters

namespace VmProbe.Text

variable {b : UInt8} {bs before after : List UInt8} {p : Pending} {q : Option Pending}

/-! ### One byte after another -/

/-- The characters that a byte between characters brings. -/
def Opening.chars : Opening → List Char
  | char c => [c]
  | begin _ => []
  | refused => [replacement]

/-- The characters that a byte brings. -/
def brings (q : Option Pending) (b : UInt8) : List Char :=
  match q with
  | none => (opening b).chars
  | some p =>
    if p.Admits b then
      if p.owed = 1 then [Char.ofNat (64 * p.bits + b.toNat % 64)] else []
    else replacement :: (opening b).chars

/-- What the end brings: a character that is under way stays unfinished. -/
def ending : Option Pending → List Char
  | none => []
  | some _ => [replacement]

theorem decodeLossyFrom_nil (q : Option Pending) : decodeLossyFrom q [] = ending q := by
  rcases q with - | p <;> rw [decodeLossyFrom, ending]

theorem decodeLossyFrom_cons (q : Option Pending) (b : UInt8) (bs : List UInt8) :
    decodeLossyFrom q (b :: bs) = brings q b ++ decodeLossyFrom (advance q b) bs := by
  rcases q with - | p
  · rw [decodeLossyFrom, brings, advance]
    cases opening b <;> rfl
  · have hadmits : p.low ≤ b ∧ b ≤ p.high ↔ p.Admits b := Iff.rfl
    rw [decodeLossyFrom, brings, advance]
    simp only [hadmits]
    split_ifs
    · rfl
    · rfl
    · cases opening b <;> rfl

/-- What is read before a place does not depend on what comes after it. -/
theorem decodeLossyFrom_append (q : Option Pending) (before : List UInt8) :
    ∃ cs, ∀ after, decodeLossyFrom q (before ++ after) =
      cs ++ decodeLossyFrom (before.foldl advance q) after := by
  induction before generalizing q with
  | nil => exact ⟨[], fun _ => rfl⟩
  | cons b before ih =>
    obtain ⟨cs, hcs⟩ := ih (advance q b)
    refine ⟨brings q b ++ cs, fun after => ?_⟩
    rw [List.cons_append, decodeLossyFrom_cons, hcs, List.append_assoc]
    rfl

/-! ### Reading in parts -/

/-- A character that is under way and does not go on is replaced. -/
theorem decodeLossyFrom_of_not_continues (h : ¬ Continues q bs) :
    decodeLossyFrom q bs = ending q ++ decodeLossyFrom none bs := by
  rcases q with - | p
  · rfl
  rcases bs with - | ⟨b, bs⟩
  · rfl
  · have hnot : ¬ p.Admits b := fun hadmits => h ⟨p, rfl, b, rfl, hadmits⟩
    rw [decodeLossyFrom_cons, decodeLossyFrom_cons, brings, brings, advance, advance]
    simp only [if_neg hnot]
    rfl

/-- A character that goes on is shorter than one that is replaced, by the byte that goes on
with it. -/
theorem length_decodeLossyFrom_lt (hq : ∀ p ∈ q, p.Proper) (h : Continues q bs) :
    (decodeLossyFrom q bs).length < (ending q ++ decodeLossyFrom none bs).length := by
  induction bs generalizing q with
  | nil =>
    obtain ⟨_, _, _, ⟨⟩, _⟩ := h
  | cons b bs ih =>
    obtain ⟨p, rfl, _, ⟨⟩, hadmits⟩ := h
    -- without the character under way the byte is refused
    have hafresh : decodeLossyFrom none (b :: bs) = replacement :: decodeLossyFrom none bs := by
      rw [decodeLossyFrom, opening_of_admits (hq p rfl) hadmits]
    have hproper := proper_advance hq b
    rw [hafresh, decodeLossyFrom_cons]
    rw [advance, if_pos hadmits] at hproper ⊢
    rw [brings, if_pos hadmits]
    split_ifs with howed
    · simp [ending]
    · rw [if_neg howed] at hproper
      -- whether or not the next byte goes on, the first replacement is one too many
      by_cases hcont : Continues (some (p.next b)) bs
      · have := ih hproper hcont
        simp [ending] at this ⊢
        omega
      · rw [decodeLossyFrom_of_not_continues hcont]
        simp [ending]

/-- A cut inside a character makes the text longer. -/
theorem length_lossy_append_lt (h : CutsCharacter before after) :
    (decodeLossyFrom none (before ++ after)).length <
      (decodeLossyFrom none before ++ decodeLossyFrom none after).length := by
  obtain ⟨cs, hcs⟩ := decodeLossyFrom_append none before
  have hbefore := hcs []
  rw [List.append_nil, decodeLossyFrom_nil] at hbefore
  rw [hcs after, hbefore, List.append_assoc, List.length_append, List.length_append]
  exact Nat.add_lt_add_left
    (length_decodeLossyFrom_lt (proper_underWay before) (cutsCharacter_iff.1 h)) _

/-- **Two parts can be read apart if no character is cut.** -/
theorem lossy_append (h : ¬ CutsCharacter before after) :
    decodeLossyFrom none (before ++ after) =
      decodeLossyFrom none before ++ decodeLossyFrom none after := by
  obtain ⟨cs, hcs⟩ := decodeLossyFrom_append none before
  have hbefore := hcs []
  rw [List.append_nil, decodeLossyFrom_nil] at hbefore
  rw [hcs after, hbefore, List.append_assoc]
  exact congrArg _ (decodeLossyFrom_of_not_continues (mt cutsCharacter_iff.2 h))

theorem length_lossy_append_le (before after : List UInt8) :
    (decodeLossyFrom none (before ++ after)).length ≤
      (decodeLossyFrom none before ++ decodeLossyFrom none after).length := by
  by_cases h : CutsCharacter before after
  · exact (length_lossy_append_lt h).le
  · rw [lossy_append h]

theorem length_lossy_flatten_le (before : List UInt8) (parts : List (List UInt8)) :
    (decodeLossyFrom none (before ++ parts.flatten)).length ≤
      (decodeLossyFrom none before ++ parts.flatMap (decodeLossyFrom none)).length := by
  induction parts generalizing before with
  | nil => simp
  | cons part parts ih =>
    have htwo := length_lossy_append_le before part
    have hrest := ih (before ++ part)
    simp only [List.flatten_cons, List.flatMap_cons, List.length_append, ← List.append_assoc]
      at htwo hrest ⊢
    omega

/-- No cut between one part and the next is inside a character. -/
def Unbroken (parts : List (List UInt8)) : Prop :=
  ∀ i, ¬ CutsCharacter (parts.take i).flatten (parts.drop i).flatten

/-- The same of parts that come after other bytes. -/
def UnbrokenAfter (before : List UInt8) (parts : List (List UInt8)) : Prop :=
  ∀ i, ¬ CutsCharacter (before ++ (parts.take i).flatten) (parts.drop i).flatten

theorem not_cutsCharacter_nil (before : List UInt8) : ¬ CutsCharacter before [] := by
  rintro ⟨c, u, v, -, hv, -, hafter, -⟩
  exact hv (List.prefix_nil.1 hafter)

/-- Only the first byte behind a cut matters. -/
theorem cutsCharacter_cons_iff {rest : List UInt8} :
    CutsCharacter before (b :: after ++ rest) ↔ CutsCharacter before (b :: after) := by
  rw [cutsCharacter_iff, cutsCharacter_iff]
  rfl

theorem unbrokenAfter_cons {part : List UInt8} {parts : List (List UInt8)} :
    UnbrokenAfter before (part :: parts) ↔
      ¬ CutsCharacter before part ∧ UnbrokenAfter (before ++ part) parts := by
  have hfirst : ¬ CutsCharacter before (part ++ parts.flatten) → ¬ CutsCharacter before part := by
    rcases part with - | ⟨b, part⟩
    · exact fun _ => not_cutsCharacter_nil before
    · exact mt cutsCharacter_cons_iff.2
  constructor
  · intro h
    exact ⟨hfirst (by simpa using h 0), fun i => by simpa using h (i + 1)⟩
  · rintro ⟨hpart, hrest⟩ i
    rcases i with - | i
    · -- an empty part leaves the cut to the next one
      rcases part with - | ⟨b, part⟩
      · simpa using hrest 0
      · simpa using mt cutsCharacter_cons_iff.1 hpart
    · simpa using hrest i

theorem lossy_flatten_iff (before : List UInt8) {parts : List (List UInt8)} :
    decodeLossyFrom none (before ++ parts.flatten) =
        decodeLossyFrom none before ++ parts.flatMap (decodeLossyFrom none) ↔
      UnbrokenAfter before parts := by
  induction parts generalizing before with
  | nil =>
    have hnil : UnbrokenAfter before [] := fun i => by simpa using not_cutsCharacter_nil before
    exact iff_of_true (by simp) hnil
  | cons part parts ih =>
    rw [unbrokenAfter_cons, ← ih, List.flatten_cons, List.flatMap_cons, ← List.append_assoc,
      ← List.append_assoc]
    constructor
    · intro h
      -- what one cut makes longer no later cut makes shorter again
      have hnot : ¬ CutsCharacter before part := by
        intro hcut
        have hlt := length_lossy_append_lt hcut
        have hle := length_lossy_flatten_le (before ++ part) parts
        rw [h] at hle
        simp only [List.length_append] at hlt hle
        omega
      rw [lossy_append hnot]
      exact ⟨hnot, h⟩
    · rintro ⟨hnot, h⟩
      rwa [lossy_append hnot] at h

/-- **Parts can be read apart if and only if no character is cut.** -/
theorem decodeLossy_flatten_iff (parts : List (List UInt8)) :
    String.join (parts.map decodeLossy) = decodeLossy parts.flatten ↔ Unbroken parts := by
  have hjoin : String.join (parts.map decodeLossy) =
      String.ofList (parts.flatMap (decodeLossyFrom none)) := by
    rw [← String.toList_inj, String.toList_join, String.toList_ofList, List.flatMap_map]
    exact List.flatMap_congr fun part _ => String.toList_ofList
  have hafter : UnbrokenAfter [] parts ↔ Unbroken parts := Iff.rfl
  rw [hjoin, decodeLossy, String.ofList_inj, eq_comm, ← hafter]
  exact lossy_flatten_iff []

end VmProbe.Text
