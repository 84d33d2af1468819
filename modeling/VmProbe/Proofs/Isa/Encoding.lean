/-
VmProbe/Proofs/Isa/Encoding.lean

Well-formed code.  What may follow an opcode is said here without the decoder:

    OperandCode os code     `code` holds exactly the operands `os`
    Encodes c i code        `code` is an opcode of `c` and the operands of its instruction `i`

Two kinds of operands ask something of their bytes.  A type tag must be one of six bytes, and
a register offset must begin with one of five.  All other operands take any bytes.

Reading operands succeeds exactly on such code, and gives the texts of the operands one after
another (`Spells`, `Reads`), for operands that are read with as many bytes as they are wide.  Those
of a catalog that a table expands to are of this kind, because an immediate takes its width from a
type (`Catalog.regular_of_build`); that is the only place where the table matters.
-/
import VmProbe.Isa.Standard
import VmProbe.Isa.Listing
import VmProbe.Proofs.Isa.Expansion
import VmProbe.Proofs.Text.Words

namespace VmProbe.Isa

open Machine (TypeTag)

variable {c : Catalog} {i : Instruction} {o : Operand} {os : List Operand}
variable {opcode : UInt8} {code rest : List UInt8} {texts : List String}
variable {address limit position stop : Nat} {line : Line} {lines : List Line}

/-! ### The form of code -/

/-- The bytes that name a type. -/
def tagBytes : List UInt8 := [0x01, 0x02, 0x03, 0x04, 0xF0, 0xF1]

/-- The bytes that announce a layout of a register offset. -/
def selectorBytes : List UInt8 := [0x4F, 0x2F, 0xAF, 0x1F, 0x8F]

/-- What an operand asks of its bytes, apart from their number. -/
def Operand.Admits : Operand → List UInt8 → Prop
  | .intTypeTag, code => ∃ tag ∈ tagBytes, code.head? = some tag
  | .floatTypeTag, code => ∃ tag ∈ tagBytes, code.head? = some tag
  | .registerOffset, code => ∃ selector ∈ selectorBytes, code.head? = some selector
  | _, _ => True

/-- `OperandCode os code`: the bytes are those of the operands, one after another. -/
inductive OperandCode : List Operand → List UInt8 → Prop
  | nil : OperandCode [] []
  | cons {o : Operand} {os : List Operand} {code rest : List UInt8} :
      code.length = o.width → o.Admits code → OperandCode os rest →
      OperandCode (o :: os) (code ++ rest)

/-- `Encodes c i code`: the bytes are an opcode of the catalog and the operands of the
instruction `i` that it selects. -/
inductive Encodes (c : Catalog) : Instruction → List UInt8 → Prop
  | intro {i : Instruction} {opcode : UInt8} {operands : List UInt8} :
      c.get? opcode = some i → OperandCode i.operands operands →
      Encodes c i (opcode :: operands)

theorem OperandCode.length_eq (h : OperandCode os code) : code.length = totalWidth os := by
  induction h with
  | nil => rfl
  | cons hlen _ _ ih => rw [List.length_append, hlen, ih, totalWidth]

/-- An encoding is as long as its instruction is wide. -/
theorem Encodes.length_eq (h : Encodes c i code) : code.length = i.width := by
  obtain ⟨_, hops⟩ := h
  rw [List.length_cons, hops.length_eq, Instruction.width, Instruction.operandWidth, Nat.add_comm]

/-! ### Regular operands -/

/-- Every operand is read with as many bytes as it is wide. -/
def Regular (os : List Operand) : Prop := ∀ o ∈ os, o.extent = o.width

/-- The operands of every instruction are regular. -/
def Catalog.Regular (c : Catalog) : Prop := ∀ i ∈ c.entries, Isa.Regular i.operands

/-- Numbers that have the width of a type are read as wide as they are. -/
theorem Operand.Sized.extent_eq (h : o.Sized) : o.extent = o.width := by
  cases o with
  | int width =>
    rw [Operand.extent, Operand.width]
    simp only [Operand.Sized, List.mem_cons, List.not_mem_nil, or_false] at h
    split_ifs <;> omega
  | float width =>
    rw [Operand.extent, Operand.width]
    simp only [Operand.Sized, List.mem_cons, List.not_mem_nil, or_false] at h
    split_ifs <;> omega
  | _ => rfl

namespace Catalog

/-- **A table expands to regular operands.** -/
theorem regular_of_build {table : List Mnemonic} (h : build table = .ok c) : c.Regular := by
  intro i hi o ho
  exact ((lists_of_build h).sized i (mem_instructions.2 hi) o ho).extent_eq

/-- The operands of the machine's own instructions are regular. -/
theorem regular_standard : standard.Regular := by
  delta standard
  split
  · next h => exact regular_of_build h
  · simp [Catalog.Regular, empty]

theorem Regular.operands (hc : c.Regular) (h : c.get? opcode = some i) :
    Isa.Regular i.operands := hc i (List.mem_of_find?_eq_some h)

end Catalog

/-! ### One operand -/

theorem exists_ofByte?_iff {b : UInt8} : (∃ t, TypeTag.ofByte? b = some t) ↔ b ∈ tagBytes := by
  constructor
  · rintro ⟨t, ht⟩
    have hb : t.toByte = b := by simpa using List.find?_some ht
    subst hb
    cases t <;> decide
  · intro hb
    fin_cases hb
    exacts [⟨.i8, rfl⟩, ⟨.i16, rfl⟩, ⟨.i32, rfl⟩, ⟨.i64, rfl⟩, ⟨.f32, rfl⟩, ⟨.f64, rfl⟩]

theorem exists_ofSelector?_iff {b : UInt8} :
    (∃ l, OffsetLayout.ofSelector? b = some l) ↔ b ∈ selectorBytes := by
  simp only [OffsetLayout.ofSelector?, selectorBytes, List.mem_cons, List.not_mem_nil, or_false]
  constructor
  · rintro ⟨l, hl⟩
    split_ifs at hl <;> simp_all
  · rintro (rfl | rfl | rfl | rfl | rfl)
    exacts [⟨_, rfl⟩, ⟨_, rfl⟩, ⟨_, rfl⟩, ⟨_, rfl⟩, ⟨_, rfl⟩]

theorem exists_tagText_iff {b : UInt8} : (∃ t, tagText b = .ok t) ↔ b ∈ tagBytes := by
  rw [← exists_ofByte?_iff]
  rw [tagText]
  rcases TypeTag.ofByte? b with - | t <;> simp

theorem exists_registerOffsetText_iff {b : UInt8} :
    (∃ t, registerOffsetText (b :: code) = .ok t) ↔ b ∈ selectorBytes := by
  rw [← exists_ofSelector?_iff]
  rw [registerOffsetText]
  rcases h : OffsetLayout.ofSelector? b with - | l
  · simp [h]
  · cases l <;> simp [h]

/-- An operand has a text exactly when its bytes are admitted. -/
theorem Operand.exists_text_iff (hlen : code.length = o.extent) :
    (∃ t, o.text code = .ok t) ↔ o.Admits code := by
  cases o with
  | intTypeTag =>
    obtain ⟨b, rfl⟩ := List.length_eq_one_iff.1 hlen
    simpa [Operand.text, Operand.Admits] using exists_tagText_iff
  | floatTypeTag =>
    obtain ⟨b, rfl⟩ := List.length_eq_one_iff.1 hlen
    simpa [Operand.text, Operand.Admits] using exists_tagText_iff
  | registerOffset =>
    obtain ⟨b, code, rfl⟩ := List.exists_cons_of_length_eq_add_one hlen
    simpa [Operand.text, Operand.Admits] using exists_registerOffsetText_iff
  | _ => simp [Operand.text, Operand.Admits]

/-! ### All operands of an instruction -/

/-- `Spells os code texts`: the code holds the operands, and these are their texts. -/
inductive Spells : List Operand → List UInt8 → List String → Prop
  | nil : Spells [] [] []
  | cons {o : Operand} {os : List Operand} {code rest : List UInt8} {text : String}
      {texts : List String} :
      code.length = o.width → o.text code = .ok text → Spells os rest texts →
      Spells (o :: os) (code ++ rest) (text :: texts)

theorem Spells.length_eq (h : Spells os code texts) : code.length = totalWidth os := by
  induction h with
  | nil => rfl
  | cons hlen _ _ ih => rw [List.length_append, hlen, ih, totalWidth]

/-- Operand code has texts. -/
theorem OperandCode.exists_spells (h : OperandCode os code) (hreg : Regular os) :
    ∃ texts, Spells os code texts := by
  induction h with
  | nil => exact ⟨[], .nil⟩
  | @cons o os code rest hlen hadm _ ih =>
    obtain ⟨texts, htexts⟩ := ih fun o' ho' => hreg o' (List.mem_cons_of_mem _ ho')
    have hext : code.length = o.extent := by rw [hlen, hreg o List.mem_cons_self]
    obtain ⟨text, htext⟩ := (Operand.exists_text_iff hext).2 hadm
    exact ⟨text :: texts, .cons hlen htext htexts⟩

theorem Spells.operandCode (h : Spells os code texts) (hreg : Regular os) :
    OperandCode os code := by
  induction h with
  | nil => exact .nil
  | @cons o os code rest text texts hlen htext _ ih =>
    have hext : code.length = o.extent := by rw [hlen, hreg o List.mem_cons_self]
    exact .cons hlen ((Operand.exists_text_iff hext).1 ⟨text, htext⟩)
      (ih fun o' ho' => hreg o' (List.mem_cons_of_mem _ ho'))

/-- Operands are read as their texts, and then the later ones are read from what follows. -/
theorem readOperands_append (address limit position : Nat) (later : List Operand)
    (rest : List UInt8) (h : Spells os code texts) (hreg : Regular os) :
    readOperands address limit position (os ++ later) (code ++ rest) =
      (readOperands address limit (position + totalWidth os) later rest).map
        fun r => (Text.spell texts ++ r.1, r.2) := by
  induction h generalizing position with
  | nil =>
    show readOperands address limit position later rest =
      (readOperands address limit position later rest).map _
    rcases readOperands address limit position later rest with e | ⟨more, stop⟩
    · rfl
    · simp only [Except.map, Text.spell_nil, String.empty_append]
  | @cons o os code tail text texts hlen htext _ ih =>
    have hmore := ih (position + o.extent) fun o' ho' => hreg o' (List.mem_cons_of_mem _ ho')
    -- regular: as many bytes are read as the operand is wide
    have hwidth := hreg o List.mem_cons_self
    have hext : code.length = o.extent := by rw [hlen, hwidth]
    have hshort : ¬ (code ++ (tail ++ rest)).length < o.extent := by
      rw [List.length_append]
      omega
    rw [List.cons_append, readOperands, List.append_assoc, if_neg hshort, ← hext, List.take_left,
      htext, List.drop_left, hext]
    dsimp only
    rw [hmore, totalWidth, ← hwidth, Nat.add_assoc]
    rcases readOperands address limit (position + (o.extent + totalWidth os)) later rest
      with e | ⟨more, stop⟩
    · rfl
    · simp only [Except.map, Text.spell_cons, String.append_assoc]

/-- Operands are read as their texts, whatever follows their code. -/
theorem readOperands_of_spells (address limit position : Nat) (rest : List UInt8)
    (h : Spells os code texts) (hreg : Regular os) :
    readOperands address limit position os (code ++ rest) =
      .ok (Text.spell texts, position + totalWidth os) := by
  have happend := readOperands_append address limit position [] rest h hreg
  rw [List.append_nil] at happend
  simp only [happend, readOperands, Except.map, String.append_empty]

/-- What operands are read from begins with their code. -/
theorem spells_of_readOperands {text : String} (hreg : Regular os)
    (h : readOperands address limit position os rest = .ok (text, stop)) :
    ∃ code tail texts, rest = code ++ tail ∧ Spells os code texts ∧
      text = Text.spell texts ∧ stop = position + totalWidth os := by
  induction os generalizing position rest text with
  | nil =>
    cases h
    exact ⟨[], rest, [], rfl, .nil, Text.spell_nil.symm, rfl⟩
  | cons o os ih =>
    rw [readOperands] at h
    split at h
    · cases h
    · next hshort =>
      have hext : (rest.take o.extent).length = o.extent := by
        rw [List.length_take]
        omega
      split at h
      · cases h
      · next t ht =>
        split at h
        · cases h
        · next more stop' hmore =>
          cases h
          obtain ⟨code, tail, texts, htail, hspells, rfl, rfl⟩ :=
            ih (fun o' ho' => hreg o' (List.mem_cons_of_mem _ ho')) hmore
          have hwidth := hreg o List.mem_cons_self
          refine ⟨rest.take o.extent ++ code, tail, t :: texts, ?_, ?_, ?_, ?_⟩
          · rw [List.append_assoc, ← htail, List.take_append_drop]
          · exact .cons (hext.trans hwidth) ht hspells
          · exact (Text.spell_cons _ _).symm
          · rw [totalWidth, ← hwidth, Nat.add_assoc]

/-! ### One instruction -/

/-- The words of an instruction before those of its operands. -/
def Instruction.words (i : Instruction) : List String :=
  i.mnemonic :: i.suffix.toList.map TypeTag.name

theorem heading_eq (i : Instruction) : i.heading = Text.spell i.words := by
  rw [Instruction.heading, Instruction.text, Instruction.words, Text.spell_cons]
  rcases i.suffix with - | tag
  · exact String.append_empty.symm
  · show i.mnemonic ++ " " ++ tag.name ++ " " = _ ++ Text.spell [tag.name]
    rw [Text.spell_cons, Text.spell_nil, String.append_empty, String.append_assoc]

/-- `Reads c i code text`: the code is an encoding of the instruction, and the text is its line. -/
inductive Reads (c : Catalog) : Instruction → List UInt8 → String → Prop
  | intro {i : Instruction} {opcode : UInt8} {operands : List UInt8} {texts : List String} :
      c.get? opcode = some i → Spells i.operands operands texts →
      Reads c i (opcode :: operands) (Text.spell (i.words ++ texts))

theorem Reads.length_eq {text : String} (h : Reads c i code text) : code.length = i.width := by
  obtain ⟨_, hspells⟩ := h
  rw [List.length_cons, hspells.length_eq, Instruction.width, Instruction.operandWidth,
    Nat.add_comm]

theorem Reads.encodes {text : String} (hc : c.Regular) (h : Reads c i code text) :
    Encodes c i code := by
  obtain ⟨hget, hspells⟩ := h
  exact .intro hget (hspells.operandCode (hc.operands hget))

theorem Encodes.exists_reads (hc : c.Regular) (h : Encodes c i code) :
    ∃ text, Reads c i code text := by
  obtain ⟨hget, hops⟩ := h
  obtain ⟨texts, htexts⟩ := hops.exists_spells (hc.operands hget)
  exact ⟨_, .intro hget htexts⟩

/-- An encoding becomes its line, whatever follows it. -/
theorem decodeOne_of_reads {text : String} (address limit : Nat) (rest : List UInt8)
    (hc : c.Regular) (h : Reads c i (opcode :: code) text) :
    decodeOne c address limit opcode (code ++ rest) = .ok ⟨address, text, i.width⟩ := by
  obtain ⟨hget, hspells⟩ := h
  have hread :=
    readOperands_of_spells address limit (address + 1) rest hspells (hc.operands hget)
  have hsize : address + 1 + totalWidth i.operands - address = i.width := by
    rw [Instruction.width, Instruction.operandWidth]
    omega
  simp only [decodeOne, hget, hread, hsize, heading_eq, Text.spell_append]

/-- What a line is decoded from begins with an encoding that reads as the line. -/
theorem reads_of_decodeOne (hc : c.Regular)
    (h : decodeOne c address limit opcode rest = .ok line) :
    ∃ i code tail, rest = code ++ tail ∧ Reads c i (opcode :: code) line.text ∧
      line.address = address ∧ line.size = i.width := by
  rw [decodeOne] at h
  split at h
  · cases h
  · next i hget =>
    split at h
    · cases h
    · next text stop hread =>
      cases h
      obtain ⟨code, tail, texts, htail, hspells, rfl, rfl⟩ :=
        spells_of_readOperands (hc.operands hget) hread
      refine ⟨i, code, tail, htail, ?_, rfl, ?_⟩
      · rw [heading_eq, ← Text.spell_append]
        exact .intro hget hspells
      · show address + 1 + totalWidth i.operands - address = i.width
        rw [Instruction.width, Instruction.operandWidth]
        omega

/-! ### Listings -/

/-- The first line of a listing, and the rest of it. -/
theorem decodeFrom_eq_cons_iff (hc : c.Regular) :
    decodeFrom c limit stop address rest = .ok (line :: lines) ↔
      address < stop ∧ ∃ i code tail, rest = code ++ tail ∧ Reads c i code line.text ∧
        line.address = address ∧ line.size = i.width ∧
        decodeFrom c limit stop (address + i.width) tail = .ok lines := by
  have hdrop {i : Instruction} {opcode : UInt8} {code : List UInt8} {text : String}
      (h : Reads c i (opcode :: code) text) (tail : List UInt8) :
      (code ++ tail).drop (i.width - 1) = tail := by
    rw [← h.length_eq, List.length_cons, Nat.add_sub_cancel, List.drop_left]
  rw [decodeFrom.eq_def]
  split_ifs with hlt
  · simp only [hlt, true_and]
    constructor
    · intro h
      rcases rest with - | ⟨opcode, operands⟩
      · cases h
      · -- the line is that of an encoding, and the listing goes on behind it
        dsimp only at h
        rcases hone : decodeOne c address limit opcode operands with e | l <;> rw [hone] at h
        · cases h
        · dsimp only at h
          split at h
          · cases h
          · next ls hls =>
            cases h
            obtain ⟨i, code, tail, rfl, hreads, haddress, hsize⟩ := reads_of_decodeOne hc hone
            rw [hsize, hdrop hreads] at hls
            exact ⟨i, opcode :: code, tail, rfl, hreads, haddress, hsize, hls⟩
    · rintro ⟨i, code, tail, rfl, hreads, haddress, hsize, hlines⟩
      rcases code with - | ⟨opcode, code⟩
      · cases hreads
      · have hone := decodeOne_of_reads address limit tail hc hreads
        simp only [List.cons_append, hone, hdrop hreads, hlines]
        obtain ⟨_, _, _⟩ := line
        cases haddress
        cases hsize
        rfl
  · simp [hlt]

/-- A listing without lines is one of no code. -/
theorem decodeFrom_eq_nil_iff :
    decodeFrom c limit stop address rest = .ok [] ↔ ¬ address < stop := by
  rw [decodeFrom.eq_def]
  split_ifs with hlt
  · refine iff_of_false (fun h => ?_) (not_not.2 hlt)
    split at h
    · cases h
    · split at h
      · cases h
      · split at h <;> cases h
  · exact iff_of_true rfl hlt

end VmProbe.Isa
