/-
VmProbe/Proofs/Text/Words.lean

Texts that are made of words.

A listing puts a blank after each of its words, and a word may have blanks of its own, but only
inside of brackets (`IsWord`).  So the end of a word can be told from the word alone, and the words
can be read back from the text:

    spell ws = spell ws'  ↔  ws = ws'
-/
import Mathlib

namespace VmProbe.Text

variable {t t' v v' : List Char} {a a' c : Char} {ws ws' : List String} {P : Char → Prop}

/-! ### The end of a word -/

/-- Whether a bracket is open after a character; a blank ends the word when none is. -/
def bracket (isOpen : Bool) (c : Char) : Option Bool :=
  if isOpen then some (c ≠ ']')
  else if c = ' ' then none
  else some (c = '[')

/-- A text without a blank outside of brackets. -/
def IsWord (t : List Char) : Prop := t.foldlM bracket false = some false

instance (t : List Char) : Decidable (IsWord t) := inferInstanceAs (Decidable (_ = _))

theorem isWord_of_forall (h : ∀ c ∈ t, c ≠ ' ' ∧ c ≠ '[') : IsWord t := by
  induction t with
  | nil => rfl
  | cons c t ih =>
    obtain ⟨⟨hblank, hbracket⟩, ht⟩ := List.forall_mem_cons.1 h
    have hc : bracket false c = some false := by simp [bracket, hblank, hbracket]
    rw [IsWord, List.foldlM_cons, hc]
    exact ih ht

/-- Anything in brackets is a word. -/
theorem isWord_bracketed (h : ']' ∉ t) : IsWord ('[' :: t ++ [']']) := by
  have hopen : t.foldlM bracket true = some true := by
    induction t with
    | nil => rfl
    | cons c t ih =>
      obtain ⟨hc, ht⟩ := List.ne_and_not_mem_of_not_mem_cons h
      rw [List.foldlM_cons, bracket, if_pos rfl, decide_eq_true hc.symm]
      exact ih ht
  show (t ++ [']']).foldlM bracket true = some false
  rw [List.foldlM_append, hopen]
  rfl

/-- A word does not end at a blank inside of a longer one. -/
theorem not_isWord_append (h : IsWord t) : ¬ IsWord (t ++ ' ' :: v) := by
  rw [IsWord] at h
  rw [IsWord, List.foldlM_append, h]
  rintro ⟨⟩

/-- What stands before the blank after a word, and what stands behind it. -/
theorem word_inj (ht : IsWord t) (ht' : IsWord t') (h : t ++ ' ' :: v = t' ++ ' ' :: v') :
    t = t' ∧ v = v' := by
  rcases List.append_eq_append_iff.1 h with ⟨u, rfl, hu⟩ | ⟨u, rfl, hu⟩
  · rcases u with - | ⟨c, u⟩
    · exact ⟨(List.append_nil t).symm, (List.cons.inj hu).2⟩
    · obtain rfl := (List.cons.inj hu).1
      exact absurd ht' (not_isWord_append ht)
  · rcases u with - | ⟨c, u⟩
    · exact ⟨List.append_nil t', (List.cons.inj hu).2.symm⟩
    · obtain rfl := (List.cons.inj hu).1
      exact absurd ht (not_isWord_append ht')

/-! ### Words one after another -/

/-- Words with a blank after each. -/
def spell (ws : List String) : String := String.join (ws.map (· ++ " "))

theorem spell_nil : spell [] = "" := String.join_nil

theorem spell_cons (t : String) (ws : List String) : spell (t :: ws) = t ++ " " ++ spell ws :=
  String.join_cons

theorem spell_append (ws ws' : List String) : spell (ws ++ ws') = spell ws ++ spell ws' := by
  rw [spell, List.map_append, String.join_append]
  rfl

theorem toList_spell_cons (t : String) (ws : List String) :
    (spell (t :: ws)).toList = t.toList ++ ' ' :: (spell ws).toList := by
  rw [spell_cons, String.toList_append, String.toList_append, List.append_assoc]
  rfl

/-- **Words can be read back.** -/
theorem spell_inj (hws : ∀ t ∈ ws, IsWord t.toList) (hws' : ∀ t ∈ ws', IsWord t.toList)
    (h : spell ws = spell ws') : ws = ws' := by
  induction ws generalizing ws' with
  | nil =>
    rcases ws' with - | ⟨t', ws'⟩
    · rfl
    · have hchars := congrArg String.toList h
      rw [toList_spell_cons] at hchars
      exact absurd hchars.symm (List.append_ne_nil_of_right_ne_nil _ (List.cons_ne_nil _ _))
  | cons t ws ih =>
    have hchars := congrArg String.toList h
    rw [toList_spell_cons] at hchars
    rcases ws' with - | ⟨t', ws'⟩
    · exact absurd hchars (List.append_ne_nil_of_right_ne_nil _ (List.cons_ne_nil _ _))
    · obtain ⟨ht, htail⟩ := List.forall_mem_cons.1 hws
      obtain ⟨ht', htail'⟩ := List.forall_mem_cons.1 hws'
      rw [toList_spell_cons] at hchars
      obtain ⟨hword, hrest⟩ := word_inj ht ht' hchars
      rw [String.toList_inj.1 hword, ih htail htail' (String.toList_inj.1 hrest)]

/-! ### Parts of a word -/

/-- Where a run of characters ends is told by the first one of another kind. -/
theorem run_inj (ht : ∀ c ∈ t, P c) (ht' : ∀ c ∈ t', P c) (ha : ¬ P a) (ha' : ¬ P a')
    (h : t ++ a :: v = t' ++ a' :: v') : t = t' ∧ a = a' ∧ v = v' := by
  rcases List.append_eq_append_iff.1 h with ⟨u, rfl, hu⟩ | ⟨u, rfl, hu⟩
  · rcases u with - | ⟨c, u⟩
    · exact ⟨(List.append_nil t).symm, List.cons.inj hu⟩
    · obtain rfl := (List.cons.inj hu).1
      exact absurd (ht' a (List.mem_append_right _ List.mem_cons_self)) ha
  · rcases u with - | ⟨c, u⟩
    · obtain ⟨rfl, rfl⟩ := List.cons.inj hu
      exact ⟨List.append_nil t', rfl, rfl⟩
    · obtain rfl := (List.cons.inj hu).1
      exact absurd (ht a' (List.mem_append_right _ List.mem_cons_self)) ha'

end VmProbe.Text
