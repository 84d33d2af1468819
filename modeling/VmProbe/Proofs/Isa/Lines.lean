/-
VmProbe/Proofs/Isa/Lines.lean

Lines tell their instructions.

Each line of a listing reads the code that it stands for (`reads_of_mem_decodeFrom`), and its text
is spelled from the words of the instruction and of its operands.  The words can be read back from
the text.  The first of them, the kinds of the others and the type select one instruction of the
standard catalog (`standard_pairwise`), so lines with the same text stand for the same
instruction, with operands that agree as far as their words tell.

In the other direction a listing stays as it is when only bytes change that its instructions leave
unread (`decodeFrom_of_agreeRead`).
-/
import VmProbe.Proofs.Isa.Addressed
import VmProbe.Proofs.Isa.Spelling

namespace VmProbe.Isa

variable {c : Catalog} {i i' : Instruction} {bytes bytes' code code' rest operands : List UInt8}
variable {text : String} {texts texts' : List String} {line : Line} {lines : List Line}
variable {address limit start stop : ℕ}

/-! ### Codes that agree -/

/-- `AgreeCode c R i code code'`: both are encodings of the instruction, and their operands agree
one by one in the sense of `R`. -/
inductive AgreeCode (c : Catalog) (R : Operand → List UInt8 → List UInt8 → Prop) :
    Instruction → List UInt8 → List UInt8 → Prop
  | intro {i : Instruction} {opcode : UInt8} {operands operands' : List UInt8} :
      c.get? opcode = some i → Agree R i.operands operands operands' →
      AgreeCode c R i (opcode :: operands) (opcode :: operands')

/-- Code that agrees as far as it is read has the same line. -/
theorem Reads.of_agreeRead (h : Reads c i code text)
    (hagree : AgreeCode c Operand.AgreeRead i' code code') : Reads c i code' text := by
  obtain ⟨hget, hspells⟩ := h
  cases hagree with
  | intro hget' hoperands =>
    obtain rfl := Option.some.inj (hget.symm.trans hget')
    exact .intro hget (hspells.of_agreeRead hoperands)

/-! ### The standard catalog -/

/-- The kinds of words behind the mnemonic. -/
def Instruction.kinds (i : Instruction) : List WordKind :=
  (i.suffix.toList.map fun _ => .type) ++ i.operands.map Operand.kind

/-- With one mnemonic, the words are of different kinds, or tell different types. -/
def Instruction.Distinct (i i' : Instruction) : Prop :=
  i.mnemonic = i'.mnemonic → i.kinds = i'.kinds →
    i.suffix.isSome ∧ i'.suffix.isSome ∧ i.suffix ≠ i'.suffix

instance (i i' : Instruction) : Decidable (i.Distinct i') :=
  inferInstanceAs (Decidable (_ → _))

instance : Std.Symm Instruction.Distinct where
  symm _ _ h hmnemonic hkinds := by
    obtain ⟨hi, hi', hne⟩ := h hmnemonic.symm hkinds.symm
    exact ⟨hi', hi, hne.symm⟩

theorem standard_pairwise : standard.entries.Pairwise Instruction.Distinct := by decide +kernel

theorem isWord_mnemonic : ∀ i ∈ standard.entries, Text.IsWord i.mnemonic.toList := by
  decide +kernel

/-- The words of a line behind the mnemonic. -/
def Instruction.wordsAfter (i : Instruction) (texts : List String) : List String :=
  i.suffix.toList.map Machine.TypeTag.name ++ texts

theorem Spells.kinds_wordsAfter (h : Spells i.operands code texts) :
    (i.wordsAfter texts).map WordKind.of = i.kinds := by
  rw [Instruction.wordsAfter, Instruction.kinds, List.map_append, h.kinds]
  rcases i.suffix with - | t
  · rfl
  · simp only [Option.toList_some, List.map_cons, List.map_nil, kind_name]

theorem Spells.isWord_wordsAfter (h : Spells i.operands code texts) :
    ∀ t ∈ i.wordsAfter texts, Text.IsWord t.toList := by
  refine List.forall_mem_append.2 ⟨fun word hword => ?_, h.isWord⟩
  obtain ⟨t, -, rfl⟩ := List.mem_map.1 hword
  exact isWord_name t

/-- What a line is read from, and how its text is spelled. -/
theorem Reads.inv (h : Reads c i code text) :
    ∃ opcode operands texts, code = opcode :: operands ∧ c.get? opcode = some i ∧
      Spells i.operands operands texts ∧
      text = Text.spell (i.mnemonic :: i.wordsAfter texts) := by
  obtain ⟨hget, hspells⟩ := h
  exact ⟨_, _, _, rfl, hget, hspells, rfl⟩

/-- The mnemonic and the words after it select the instruction. -/
theorem eq_of_words (hi : i ∈ standard.entries) (hi' : i' ∈ standard.entries)
    (hspells : Spells i.operands code texts) (hspells' : Spells i'.operands code' texts')
    (hmnemonic : i.mnemonic = i'.mnemonic) (hwords : i.wordsAfter texts = i'.wordsAfter texts') :
    i = i' := by
  by_contra hne
  have hkinds : i.kinds = i'.kinds := by
    rw [← hspells.kinds_wordsAfter, hwords, hspells'.kinds_wordsAfter]
  -- two entries with these words differ at most in their types
  obtain ⟨hsome, hsome', hsuffix⟩ := standard_pairwise.forall hi hi' hne hmnemonic hkinds
  obtain ⟨t, ht⟩ := Option.isSome_iff_exists.1 hsome
  obtain ⟨t', ht'⟩ := Option.isSome_iff_exists.1 hsome'
  rw [Instruction.wordsAfter, Instruction.wordsAfter, ht, ht'] at hwords
  -- both have a type, and it is the first of these words
  have htype : t = t' := typeName_inj (List.cons.inj hwords).1
  exact hsuffix (by rw [ht, ht', htype])

/-- **The line of a standard instruction tells it, and its operands as far as their words do.** -/
theorem agreeShown_of_reads (h : Reads standard i code text) (h' : Reads standard i' code' text) :
    i = i' ∧ AgreeCode standard Operand.AgreeShown i code code' := by
  obtain ⟨opcode, operands, texts, rfl, hget, hspells, htext⟩ := h.inv
  obtain ⟨opcode', operands', texts', rfl, hget', hspells', htext'⟩ := h'.inv
  have hi := List.mem_of_find?_eq_some hget
  have hi' := List.mem_of_find?_eq_some hget'
  have hwords : i.mnemonic :: i.wordsAfter texts = i'.mnemonic :: i'.wordsAfter texts' :=
    Text.spell_inj
      (List.forall_mem_cons.2 ⟨isWord_mnemonic i hi, hspells.isWord_wordsAfter⟩)
      (List.forall_mem_cons.2 ⟨isWord_mnemonic i' hi', hspells'.isWord_wordsAfter⟩)
      (htext.symm.trans htext')
  obtain ⟨hmnemonic, hafter⟩ := List.cons.inj hwords
  obtain rfl := eq_of_words hi hi' hspells hspells' hmnemonic hafter
  obtain rfl : texts = texts' := List.append_cancel_left hafter
  have hopcode : i.opcode = opcode := by simpa using List.find?_some hget
  have hopcode' : i.opcode = opcode' := by simpa using List.find?_some hget'
  obtain rfl : opcode = opcode' := hopcode.symm.trans hopcode'
  exact ⟨rfl, .intro hget (hspells.agreeShown hspells')⟩

/-! ### Listings -/

/-- The bytes that a line stands for. -/
def Line.encoding (l : Line) (bytes : List UInt8) : List UInt8 := (bytes.drop l.address).take l.size

theorem le_limit (h : window bytes address limit = code ++ rest) (hne : code ≠ []) :
    address + code.length ≤ limit := by
  have hlength := congrArg List.length h
  have hpos := List.length_pos_of_ne_nil hne
  rw [window, List.length_drop, List.length_take, List.length_append] at hlength
  omega

/-- The first line of a listing, with the bytes that it stands for. -/
theorem decodeFrom_left_cons (hc : c.Regular)
    (h : decodeFrom c limit stop address (window bytes address limit) = .ok (line :: lines)) :
    line.address = address ∧ address < stop ∧
      address + line.size ≤ limit ∧
      (∃ i, Reads c i (line.encoding bytes) line.text ∧ line.size = i.width) ∧
      decodeFrom c limit stop (address + line.size)
        (window bytes (address + line.size) limit) = .ok lines := by
  obtain ⟨hlt, i, code, tail, hrest, hreads, rfl, hsize, hlines⟩ :=
    (decodeFrom_eq_cons_iff hc).1 h
  -- the encoding fits before the limit, so it is cut out of the bytes as well
  have hlength : code.length = line.size := hreads.length_eq.trans hsize.symm
  have hne : code ≠ [] := by
    rintro rfl
    cases hreads
  have hlimit : line.address + line.size ≤ limit := hlength ▸ le_limit hrest hne
  have hcode : line.encoding bytes = code := by
    rw [Line.encoding, ← take_window hlimit, hrest, ← hlength, List.take_left]
  have htail : window bytes (line.address + line.size) limit = tail := by
    rw [← drop_window, hrest, ← hlength, List.drop_left]
  rw [← hsize, ← htail] at hlines
  exact ⟨rfl, hlt, hlimit, ⟨i, hcode ▸ hreads, hsize⟩, hlines⟩

/-- **Each line of a listing reads the bytes that it stands for.** -/
theorem reads_of_mem_decodeFrom (hc : c.Regular)
    (h : decodeFrom c limit stop address (window bytes address limit) = .ok lines) :
    ∀ l ∈ lines, ∃ i, Reads c i (l.encoding bytes) l.text ∧ l.size = i.width := by
  induction lines generalizing address with
  | nil => exact List.forall_mem_nil _
  | cons line lines ih =>
    obtain ⟨-, -, -, hreads, hlines⟩ := decodeFrom_left_cons hc h
    exact List.forall_mem_cons.2 ⟨hreads, ih hlines⟩

/-- A listing stays as it is when only bytes change that its instructions leave unread. -/
theorem decodeFrom_of_agreeRead (hc : c.Regular)
    (h : decodeFrom c limit stop address (window bytes address limit) = .ok lines)
    (hagree : ∀ l ∈ lines, ∃ i, AgreeCode c Operand.AgreeRead i (l.encoding bytes)
      (l.encoding bytes')) :
    decodeFrom c limit stop address (window bytes' address limit) = .ok lines := by
  induction lines generalizing address with
  | nil => exact decodeFrom_eq_nil_iff.2 (decodeFrom_eq_nil_iff.1 h)
  | cons line lines ih =>
    obtain ⟨⟨i', hline⟩, hlater⟩ := List.forall_mem_cons.1 hagree
    obtain ⟨rfl, hlt, hlimit, ⟨i, hreads, hsize⟩, hlines⟩ := decodeFrom_left_cons hc h
    have htail := ih hlines hlater
    rw [hsize] at htail
    refine (decodeFrom_eq_cons_iff hc).2
      ⟨hlt, i, line.encoding bytes', _, ?_, hreads.of_agreeRead hline, rfl, hsize, htail⟩
    rw [← hsize, Line.encoding, ← take_window hlimit, ← drop_window, List.take_append_drop]

/-- **The text of a line tells the instruction.**  Two lines of any listings have the same text
only if their instructions have the same opcode, and so the same size, and their operands agree,
apart from floating-point numbers and from the bytes that register offsets leave unread
(`unread`).  A listing stays as it is when only such bytes change that are left unread. -/
theorem text_tells_instruction (h : decode standard bytes start stop = .ok lines) :
    (∀ l ∈ lines, ∀ bytes' start' stop' lines', decode standard bytes' start' stop' = .ok lines' →
      ∀ l' ∈ lines', l.text = l'.text →
        l.size = l'.size ∧
          ∃ i, AgreeCode standard Operand.AgreeShown i (l.encoding bytes) (l'.encoding bytes')) ∧
    ∀ bytes', bytes'.length = bytes.length →
      (∀ l ∈ lines, ∃ i,
        AgreeCode standard Operand.AgreeRead i (l.encoding bytes) (l.encoding bytes')) →
      decode standard bytes' start stop = .ok lines := by
  have hc := Catalog.regular_standard
  constructor
  · intro l hl bytes' start' stop' lines' h' l' hl' htext
    obtain ⟨i, hreads, hsize⟩ := reads_of_mem_decodeFrom hc h l hl
    obtain ⟨i', hreads', hsize'⟩ := reads_of_mem_decodeFrom hc h' l' hl'
    rw [← htext] at hreads'
    obtain ⟨rfl, hagree⟩ := agreeShown_of_reads hreads hreads'
    exact ⟨hsize.trans hsize'.symm, i, hagree⟩
  · intro bytes' hlength hagree
    rw [decode_eq_decodeFrom, hlength]
    exact decodeFrom_of_agreeRead hc h hagree

/-- The bytes behind a base register alone can be any. -/
theorem text_tells_instruction_lea :
    decode standard [0x10, 0x4F, 1, 0, 0, 0, 0, 5] 0 8 = .ok [⟨0, "lea [ip] r0 ", 8⟩] ∧
    decode standard [0xA0, 0x10, 0x4F, 1, 9, 9, 9, 9, 5] 1 9 = .ok [⟨1, "lea [ip] r0 ", 8⟩] ∧
    (∃ i, AgreeCode standard Operand.AgreeShown i [0x10, 0x4F, 1, 0, 0, 0, 0, 5]
      [0x10, 0x4F, 1, 9, 9, 9, 9, 5]) ∧
    decode standard [0x10, 0x4F, 1, 9, 9, 9, 9, 5] 0 8 = .ok [⟨0, "lea [ip] r0 ", 8⟩] := by
  have h : decode standard [0x10, 0x4F, 1, 0, 0, 0, 0, 5] 0 8 =
      .ok [⟨0, "lea [ip] r0 ", 8⟩] := by decide +kernel
  have h' : decode standard [0xA0, 0x10, 0x4F, 1, 9, 9, 9, 9, 5] 1 9 =
      .ok [⟨1, "lea [ip] r0 ", 8⟩] := by decide +kernel
  obtain ⟨htells, hkeeps⟩ := text_tells_instruction h
  have hagree := htells _ List.mem_cons_self _ _ _ _ h' _ List.mem_cons_self rfl
  refine ⟨h, h', hagree.2, hkeeps _ rfl (List.forall_mem_singleton.2
    ⟨⟨0x10, "lea", [.registerOffset, .intRegister], none⟩, ?_⟩)⟩
  -- one register offset, of which four bytes are left unread, and one register
  have hoffset : Operand.registerOffset.AgreeRead [0x4F, 1, 0, 0, 0, 0] [0x4F, 1, 9, 9, 9, 9] :=
    agreeRead_registerOffset.2 (sameOffset_iff.2 (by simp [unread]))
  have hregister : Operand.intRegister.AgreeRead [5] [5] := fun _ _ => rfl
  exact .intro (by decide +kernel) (.cons rfl rfl hoffset (.cons rfl rfl hregister .nil))

end VmProbe.Isa
