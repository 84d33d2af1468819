/-
VmProbe/Proofs/Isa/Spelling.lean

The words of a line.

A line is written with one word for the mnemonic, one for the type of the opcode if it has one, and
one for each operand.  What kind of operand a word stands for can be told from the word
(`kind_text`), and the word of an operand tells its bytes, apart from those of a floating-point
number and those that a register offset leaves unread:

    AgreeShown    the bytes agree, as far as the word tells
    AgreeRead     the bytes agree, as far as they are read

So operands that are spelled with the same words agree as far as the words tell
(`Spells.agreeShown`), and operands that agree as far as they are read are spelled with the same
words (`Spells.of_agreeRead`).
-/
import VmProbe.Proofs.Floating.Text
import VmProbe.Proofs.Isa.Encoding
import VmProbe.Proofs.Isa.Offset

namespace VmProbe.Isa

open Machine (Register TypeTag)

variable {o : Operand} {os : List Operand} {b b' : UInt8} {code code' rest : List UInt8}
variable {text : String} {texts : List String} {address limit position stop : ℕ}

/-! ### Kinds of words -/

/-- The kinds of words that operands are written with. -/
inductive WordKind
  | number
  | offset
  | type
  | register
  deriving DecidableEq

/-- The kind of a word. -/
def WordKind.of (word : String) : WordKind :=
  if Floating.IsNumeral word.toList then number
  else if word.toList.head? = some '[' then offset
  else if word ∈ TypeTag.all.map TypeTag.name then type
  else register

/-- The kind of the word for an operand. -/
def Operand.kind : Operand → WordKind
  | .int _ => .number
  | .float _ => .number
  | .codeAddress => .number
  | .registerOffset => .offset
  | .intTypeTag => .type
  | .floatTypeTag => .type
  | .intRegister => .register
  | .floatRegister => .register

/-- A word that begins with another character than numbers do. -/
theorem not_isNumeral_cons {c : Char} {t : List Char} (hc : Floating.isNumeric c = false)
    (hN : c ≠ 'N') (hi : c ≠ 'i') : ¬ Floating.IsNumeral (c :: t) := by
  rintro (h | h | h | h)
  · rw [h c List.mem_cons_self] at hc
    cases hc
  · exact hN (List.cons.inj h).1
  · exact hi (List.cons.inj h).1
  · rw [(List.cons.inj h).1] at hc
    cases hc

theorem kind_of_isNumeral (h : Floating.IsNumeral text.toList) : WordKind.of text = .number :=
  if_pos h

theorem kind_name (t : TypeTag) : WordKind.of t.name = .type := by
  have hmem : t.name ∈ TypeTag.all.map TypeTag.name := by
    cases t <;> simp [TypeTag.all]
  have hnumeral : ¬ Floating.IsNumeral t.name.toList := by
    cases t <;> simp [TypeTag.name, Floating.IsNumeral, Floating.isNumeric]
  have hbracket : t.name.toList.head? ≠ some '[' := by
    cases t <;> simp [TypeTag.name]
  rw [WordKind.of, if_neg hnumeral, if_neg hbracket, if_pos hmem]

theorem not_isNumeral_name (r : Register) : ¬ Floating.IsNumeral r.name.toList := by
  rw [Register.name]
  split_ifs
  · simp [Floating.IsNumeral, Floating.isNumeric]
  · simp [Floating.IsNumeral, Floating.isNumeric]
  · simp [Floating.IsNumeral, Floating.isNumeric]
  · simp [Floating.IsNumeral, Floating.isNumeric]
  · rw [String.toList_append]
    exact not_isNumeral_cons rfl (by decide) (by decide)
  · rw [String.toList_append]
    exact not_isNumeral_cons rfl (by decide) (by decide)

/-- No register has the name of a type. -/
theorem registerText_ne_name (b : UInt8) (t : TypeTag) : registerText b ≠ t.name := by
  rw [registerText]
  rcases Register.ofId? b with - | r
  · intro h
    have hhead := congrArg (fun s => s.toList.head?) h
    rw [String.toList_append] at hhead
    cases t <;> cases hhead
  · have htable : ∀ i : Fin 36, ∀ t ∈ TypeTag.all, (Register.mk i).name ≠ t.name := by
      decide +kernel
    have hall : t ∈ TypeTag.all := by cases t <;> decide
    exact htable r.index t hall

theorem kind_registerText (b : UInt8) : WordKind.of (registerText b) = .register := by
  have hnumeral : ¬ Floating.IsNumeral (registerText b).toList := by
    rw [registerText]
    rcases Register.ofId? b with - | r
    · rw [String.toList_append]
      exact not_isNumeral_cons rfl (by decide) (by decide)
    · exact not_isNumeral_name r
  have hbracket : (registerText b).toList.head? ≠ some '[' := by
    intro h
    exact (isPlain_registerText b _ (List.mem_of_head? h)).2.1 rfl
  have htype : registerText b ∉ TypeTag.all.map TypeTag.name := by
    intro h
    obtain ⟨t, -, ht⟩ := List.mem_map.1 h
    exact registerText_ne_name b t ht.symm
  rw [WordKind.of, if_neg hnumeral, if_neg hbracket, if_neg htype]

theorem kind_registerOffsetText (h : registerOffsetText code = .ok text) :
    WordKind.of text = .offset := by
  obtain ⟨l, -, htext⟩ := registerOffsetText_eq_ok_iff.1 h
  rw [WordKind.of, ← htext, if_neg (not_isNumeral_cons rfl (by decide) (by decide))]
  rfl

theorem exists_of_tagText (h : tagText b = .ok text) :
    ∃ t, TypeTag.ofByte? b = some t ∧ t.name = text := by
  rw [tagText] at h
  rcases ht : TypeTag.ofByte? b with - | t <;> rw [ht] at h
  · cases h
  · exact ⟨t, rfl, Except.ok.inj h⟩

/-- The text of an operand is a number, a register offset, the name of a type or a register. -/
theorem text_cases (h : o.text code = .ok text) :
    o.kind = .number ∧ Floating.IsNumeral text.toList ∨
    o.kind = .offset ∧ registerOffsetText code = .ok text ∨
    o.kind = .type ∧ (∃ t : TypeTag, t.name = text) ∨
    o.kind = .register ∧ ∃ b, registerText b = text := by
  have htag (h : tagText (code.headD 0) = .ok text) : ∃ t : TypeTag, t.name = text := by
    obtain ⟨t, -, ht⟩ := exists_of_tagText h
    exact ⟨t, ht⟩
  cases o with
  | int w => exact .inl ⟨rfl, Except.ok.inj h ▸ Floating.isNumeral_toString _⟩
  | codeAddress => exact .inl ⟨rfl, Except.ok.inj h ▸ Floating.isNumeral_toString _⟩
  | float w => exact .inl ⟨rfl, Except.ok.inj h ▸ Floating.isNumeral_text _ _⟩
  | registerOffset => exact .inr (.inl ⟨rfl, h⟩)
  | intTypeTag => exact .inr (.inr (.inl ⟨rfl, htag h⟩))
  | floatTypeTag => exact .inr (.inr (.inl ⟨rfl, htag h⟩))
  | intRegister => exact .inr (.inr (.inr ⟨rfl, _, Except.ok.inj h⟩))
  | floatRegister => exact .inr (.inr (.inr ⟨rfl, _, Except.ok.inj h⟩))

/-- **A word tells what kind of operand it stands for.** -/
theorem kind_text (h : o.text code = .ok text) : WordKind.of text = o.kind := by
  obtain ⟨hkind, hnumeral⟩ | ⟨hkind, hoffset⟩ | ⟨hkind, t, rfl⟩ | ⟨hkind, b, rfl⟩ := text_cases h
  · rw [hkind, kind_of_isNumeral hnumeral]
  · rw [hkind, kind_registerOffsetText hoffset]
  · rw [hkind, kind_name]
  · rw [hkind, kind_registerText]

/-! ### The end of a word -/

theorem isWord_of_isNumeral (h : Floating.IsNumeral text.toList) : Text.IsWord text.toList := by
  refine Text.isWord_of_forall fun c hc => ?_
  rcases h with h | h | h | h
  · have hnumeric := h c hc
    constructor <;> rintro rfl <;> cases hnumeric
  all_goals
    rw [h] at hc
    revert c
    simp

theorem isWord_name (t : TypeTag) : Text.IsWord t.name.toList := by
  refine Text.isWord_of_forall ?_
  cases t <;> simp [TypeTag.name]

theorem isWord_registerText (b : UInt8) : Text.IsWord (registerText b).toList :=
  Text.isWord_of_forall fun c hc =>
    ⟨(isPlain_registerText b c hc).1, (isPlain_registerText b c hc).2.1⟩

theorem isWord_registerOffsetText (h : registerOffsetText code = .ok text) :
    Text.IsWord text.toList := by
  obtain ⟨l, -, htext⟩ := registerOffsetText_eq_ok_iff.1 h
  rw [← htext]
  exact Text.isWord_bracketed (Offset.not_mem_inner _)

/-- The text of an operand is a word. -/
theorem isWord_text (h : o.text code = .ok text) : Text.IsWord text.toList := by
  obtain ⟨-, hnumeral⟩ | ⟨-, hoffset⟩ | ⟨-, t, rfl⟩ | ⟨-, b, rfl⟩ := text_cases h
  · exact isWord_of_isNumeral hnumeral
  · exact isWord_registerOffsetText hoffset
  · exact isWord_name t
  · exact isWord_registerText b

/-! ### The bytes behind a word -/

/-- Whether a byte of the operand is left unread; they are counted from 0. -/
def Operand.Ignores (o : Operand) (code : List UInt8) (k : ℕ) : Prop :=
  o = .registerOffset ∧ k ∈ unread (code.headD 0)

/-- The bytes agree, apart from those that are left unread. -/
def Operand.AgreeRead (o : Operand) (code code' : List UInt8) : Prop :=
  ∀ k, ¬ o.Ignores code k → code[k]? = code'[k]?

/-- The bytes agree, apart from those that are left unread and those of a floating-point number. -/
def Operand.AgreeShown (o : Operand) (code code' : List UInt8) : Prop :=
  (∃ width, o = .float width) ∨ o.AgreeRead code code'

theorem agreeRead_registerOffset :
    Operand.registerOffset.AgreeRead code code' ↔ SameOffset code code' := by
  simp [Operand.AgreeRead, Operand.Ignores, SameOffset]

theorem agreeRead_iff_eq (h : o ≠ .registerOffset) : o.AgreeRead code code' ↔ code = code' := by
  constructor
  · intro hagree
    exact List.ext_getElem? fun k => hagree k fun hk => h hk.1
  · rintro rfl k -
    rfl

theorem typeName_inj {t t' : TypeTag} (h : t.name = t'.name) : t = t' := by
  cases t <;> cases t' <;> first | rfl | simp [TypeTag.name] at h

theorem tagText_inj (h : tagText b = .ok text) (h' : tagText b' = .ok text) : b = b' := by
  obtain ⟨t, ht, hname⟩ := exists_of_tagText h
  obtain ⟨t', ht', hname'⟩ := exists_of_tagText h'
  have htypes : t = t' := typeName_inj (hname.trans hname'.symm)
  have hbyte : t.toByte = b := by simpa using List.find?_some ht
  have hbyte' : t'.toByte = b' := by simpa using List.find?_some ht'
  rw [← hbyte, ← hbyte', htypes]

/-- **Operands with one text agree as far as it tells.** -/
theorem agreeShown_of_text (hlength : code.length = o.width) (hlength' : code'.length = o.width)
    (h : o.text code = .ok text) (h' : o.text code' = .ok text) : o.AgreeShown code code' := by
  have hnumber (h : .ok (toString (Bytes.ofLittleEndian code)) = (.ok text : Except OperandError _))
      (h' : .ok (toString (Bytes.ofLittleEndian code')) = (.ok text : Except OperandError _)) :
      code = code' := by
    refine Bytes.ofLittleEndian_inj (hlength.trans hlength'.symm) (Nat.repr_injective ?_)
    exact Except.ok.inj (h.trans h'.symm)
  have hbyte {f : UInt8 → Except OperandError String} (hone : o.width = 1)
      (hf : ∀ b b', f b = .ok text → f b' = .ok text → b = b')
      (h : f (code.headD 0) = .ok text) (h' : f (code'.headD 0) = .ok text) : code = code' := by
    obtain ⟨b, rfl⟩ := List.length_eq_one_iff.1 (hlength.trans hone)
    obtain ⟨b', rfl⟩ := List.length_eq_one_iff.1 (hlength'.trans hone)
    exact congrArg (fun b => [b]) (hf b b' h h')
  have hregister (b b' : UInt8) (h : .ok (registerText b) = (.ok text : Except OperandError _))
      (h' : .ok (registerText b') = (.ok text : Except OperandError _)) : b = b' :=
    registerText_inj (Except.ok.inj (h.trans h'.symm))
  cases o with
  | float w => exact .inl ⟨w, rfl⟩
  | registerOffset =>
    exact .inr (agreeRead_registerOffset.2 ((registerOffsetText_eq_iff hlength hlength' h).1 h'))
  | int w => exact .inr ((agreeRead_iff_eq (by rintro ⟨⟩)).2 (hnumber h h'))
  | codeAddress => exact .inr ((agreeRead_iff_eq (by rintro ⟨⟩)).2 (hnumber h h'))
  | intTypeTag =>
    exact .inr ((agreeRead_iff_eq (by rintro ⟨⟩)).2 (hbyte rfl (fun _ _ => tagText_inj) h h'))
  | floatTypeTag =>
    exact .inr ((agreeRead_iff_eq (by rintro ⟨⟩)).2 (hbyte rfl (fun _ _ => tagText_inj) h h'))
  | intRegister => exact .inr ((agreeRead_iff_eq (by rintro ⟨⟩)).2 (hbyte rfl hregister h h'))
  | floatRegister => exact .inr ((agreeRead_iff_eq (by rintro ⟨⟩)).2 (hbyte rfl hregister h h'))

/-- **Bytes that are left unread do not change the text.** -/
theorem text_of_agreeRead (hlength : code.length = o.width) (hlength' : code'.length = o.width)
    (h : o.text code = .ok text) (hagree : o.AgreeRead code code') : o.text code' = .ok text := by
  by_cases ho : o = .registerOffset
  · subst ho
    exact (registerOffsetText_eq_iff hlength hlength' h).2 (agreeRead_registerOffset.1 hagree)
  · rw [← (agreeRead_iff_eq ho).1 hagree]
    exact h

/-! ### All operands of an instruction -/

/-- `Agree R os code code'`: both hold the operands, which agree one by one in the sense of `R`. -/
inductive Agree (R : Operand → List UInt8 → List UInt8 → Prop) :
    List Operand → List UInt8 → List UInt8 → Prop
  | nil : Agree R [] [] []
  | cons {o : Operand} {os : List Operand} {code code' rest rest' : List UInt8} :
      code.length = o.width → code'.length = o.width → R o code code' → Agree R os rest rest' →
      Agree R (o :: os) (code ++ rest) (code' ++ rest')

theorem Spells.isWord (h : Spells os code texts) : ∀ t ∈ texts, Text.IsWord t.toList := by
  induction h with
  | nil => exact List.forall_mem_nil _
  | cons _ htext _ ih => exact List.forall_mem_cons.2 ⟨isWord_text htext, ih⟩

theorem Spells.kinds (h : Spells os code texts) :
    texts.map WordKind.of = os.map Operand.kind := by
  induction h with
  | nil => rfl
  | cons _ htext _ ih => rw [List.map_cons, List.map_cons, kind_text htext, ih]

/-- Operands that are spelled with the same words agree as far as the words tell. -/
theorem Spells.agreeShown (h : Spells os code texts) (h' : Spells os code' texts) :
    Agree Operand.AgreeShown os code code' := by
  induction h generalizing code' with
  | nil =>
    cases h'
    exact .nil
  | cons hlength htext _ ih =>
    cases h' with
    | cons hlength' htext' hrest' =>
      exact .cons hlength hlength' (agreeShown_of_text hlength hlength' htext htext') (ih hrest')

/-- Operands that agree as far as they are read are spelled with the same words. -/
theorem Spells.of_agreeRead (h : Spells os code texts)
    (hagree : Agree Operand.AgreeRead os code code') : Spells os code' texts := by
  induction h generalizing code' with
  | nil =>
    cases hagree
    exact .nil
  | @cons o os code rest text texts hlength htext _ ih =>
    generalize hwhole : code ++ rest = whole at hagree
    cases hagree with
    | cons hlength₁ hlength' hone hrest =>
      obtain ⟨rfl, rfl⟩ := List.append_inj hwhole (hlength.trans hlength₁.symm)
      exact .cons hlength' (text_of_agreeRead hlength hlength' htext hone) (ih hrest)

end VmProbe.Isa
