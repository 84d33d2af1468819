/-
VmProbe/Proofs/Isa/Causes.lean

What an error of the decoder says about the code.

An error names an address.  Everything before it has a listing, and the instruction at it is the
first one that is wrong; the error says how (`DecodeError.Explains`).  Inside the instruction
everything before the fault is right as well: its opcode is known, its earlier operands are
complete before the limit and their bytes are admitted (`StandsAt`).  The fault is then the next
operand.  Either the limit cuts it off, or it is complete and its first byte is not known.

Main statement: this is what every error says, and where all of this holds of an error, it is the
one that decoding ends with (`decode_error_names_first_fault`).  So the four kinds of errors exclude
each other, and none of them hides a fault that comes before.
-/
import VmProbe.Proofs.Isa.Boundaries

namespace VmProbe.Isa

variable {c : Catalog} {i : Instruction} {o : Operand} {os : List Operand}
variable {bytes code rest : List UInt8} {opcode : UInt8} {e : DecodeError}
variable {address limit position start stop : Nat}

/-! ### Faults -/

/-- The operand is a type tag. -/
def Operand.IsTypeTag (o : Operand) : Prop := o = .intTypeTag ∨ o = .floatTypeTag

/-- In the instruction `i` at an address an operand stands at a position up to which nothing is
wrong: the opcode is that of the instruction, the limit has not been passed, and the earlier
operands are complete and have the bytes that they ask for. -/
structure StandsAt (c : Catalog) (bytes : List UInt8) (limit address : Nat) (i : Instruction)
    (o : Operand) (position : Nat) : Prop where
  opcode : ∃ opcode, bytes[address]? = some opcode ∧ c.get? opcode = some i
  below : position ≤ limit
  operands : ∃ earlier later, i.operands = earlier ++ o :: later ∧
    position = address + 1 + totalWidth earlier ∧
    OperandCode earlier (window bytes (address + 1) position)

namespace DecodeError

/-- The instruction that the error is about. -/
def address? : DecodeError → Option Nat
  | missingCodeSection => none
  | unknownOpcode _ address => some address
  | unknownTypeTag _ address => some address
  | unknownSelector _ address => some address
  | overrun address _ _ => some address

/-- The error says what is wrong with the instruction at its address, in code that ends at the
limit. -/
def Explains (c : Catalog) (bytes : List UInt8) (limit : Nat) : DecodeError → Prop
  | missingCodeSection => False
  | unknownOpcode opcode address =>
    address < limit ∧ bytes[address]? = some opcode ∧ c.get? opcode = none
  | unknownTypeTag tag address =>
    ∃ i o position, StandsAt c bytes limit address i o position ∧ position + o.width ≤ limit ∧
      o.IsTypeTag ∧ bytes[position]? = some tag ∧ tag ∉ tagBytes
  | unknownSelector selector address =>
    ∃ i o position, StandsAt c bytes limit address i o position ∧ position + o.width ≤ limit ∧
      o = .registerOffset ∧ bytes[position]? = some selector ∧ selector ∉ selectorBytes
  | overrun address stop limit' =>
    limit' = limit ∧ limit < stop ∧
      (limit ≤ address ∧ stop = address + 1 ∨
        ∃ i o position, StandsAt c bytes limit address i o position ∧ stop = position + o.width ∧
          limit < address + i.width ∧ stop ≤ address + i.width)

end DecodeError

/-! ### One operand -/

/-- The operand does not admit code that begins with the byte. -/
def Operand.Refuses (o : Operand) (first : UInt8) (refusal : OperandError) : Prop :=
  o.IsTypeTag ∧ first ∉ tagBytes ∧ refusal = .unknownTypeTag first ∨
    o = .registerOffset ∧ first ∉ selectorBytes ∧ refusal = .unknownSelector first

theorem tagText_eq_error_iff {b : UInt8} {refusal : OperandError} :
    tagText b = .error refusal ↔ b ∉ tagBytes ∧ refusal = .unknownTypeTag b := by
  rw [← exists_ofByte?_iff, tagText]
  rcases Machine.TypeTag.ofByte? b with - | t <;> simp [eq_comm]

theorem registerOffsetText_eq_error_iff {b : UInt8} {refusal : OperandError} :
    registerOffsetText (b :: code) = .error refusal ↔
      b ∉ selectorBytes ∧ refusal = .unknownSelector b := by
  rw [← exists_ofSelector?_iff, registerOffsetText]
  rcases h : OffsetLayout.ofSelector? b with - | l
  · simp [h, eq_comm]
  · cases l <;> simp [h]

/-- An operand that is complete is refused for its first byte. -/
theorem Operand.text_eq_error_iff {refusal : OperandError} (hlen : code.length = o.extent) :
    o.text code = .error refusal ↔ ∃ b, code.head? = some b ∧ o.Refuses b refusal := by
  cases o with
  | intTypeTag =>
    obtain ⟨b, rfl⟩ := List.length_eq_one_iff.1 hlen
    simpa [Operand.text, Operand.Refuses, Operand.IsTypeTag] using tagText_eq_error_iff
  | floatTypeTag =>
    obtain ⟨b, rfl⟩ := List.length_eq_one_iff.1 hlen
    simpa [Operand.text, Operand.Refuses, Operand.IsTypeTag] using tagText_eq_error_iff
  | registerOffset =>
    obtain ⟨b, code, rfl⟩ := List.exists_cons_of_length_eq_add_one hlen
    simpa [Operand.text, Operand.Refuses, Operand.IsTypeTag] using registerOffsetText_eq_error_iff
  | _ => simp [Operand.text, Operand.Refuses, Operand.IsTypeTag]

/-! ### All operands of an instruction -/

/-- Reading the operand from what is left of the code fails with the error: the limit cuts it off,
or it is refused. -/
def Operand.Fails (o : Operand) (address limit position : Nat) (rest : List UInt8)
    (e : DecodeError) : Prop :=
  rest.length < o.width ∧ e = .overrun address (position + o.width) limit ∨
    o.width ≤ rest.length ∧ ∃ b refusal, rest.head? = some b ∧ o.Refuses b refusal ∧
      e = refusal.inInstruction address

theorem Operand.Fails.readOperands (hwidth : o.extent = o.width)
    (h : o.Fails address limit position rest e) :
    readOperands address limit position (o :: os) rest = .error e := by
  rw [Isa.readOperands]
  rcases h with ⟨hshort, rfl⟩ | ⟨hlong, b, refusal, hfirst, hrefuses, rfl⟩
  · rw [if_pos (hwidth ▸ hshort), hwidth]
  · have hlength : (rest.take o.extent).length = o.extent := by
      rw [List.length_take]
      omega
    have hhead : (rest.take o.extent).head? = some b := by
      rw [List.head?_take, if_neg o.extent_pos.1.ne', hfirst]
    rw [if_neg (by omega), (Operand.text_eq_error_iff hlength).2 ⟨b, hhead, hrefuses⟩]

/-- **Reading operands fails at the first one that is cut off or refused.** -/
theorem readOperands_eq_error_iff (hreg : Regular os) :
    readOperands address limit position os rest = .error e ↔
      ∃ earlier o later code tail, os = earlier ++ o :: later ∧ rest = code ++ tail ∧
        OperandCode earlier code ∧
          o.Fails address limit (position + totalWidth earlier) tail e := by
  constructor
  · intro h
    induction os generalizing position rest with
    | nil => cases h
    | cons o os ih =>
      have hwidth := hreg o List.mem_cons_self
      rw [readOperands] at h
      split at h
      · next hshort =>
        obtain rfl := Except.error.inj h
        exact ⟨[], o, os, [], rest, rfl, rfl, .nil, .inl ⟨hwidth ▸ hshort, by rw [hwidth]; rfl⟩⟩
      · next hlong =>
        have hlength : (rest.take o.extent).length = o.extent := by
          rw [List.length_take]
          omega
        split at h
        · next refusal htext =>
          obtain rfl := Except.error.inj h
          obtain ⟨b, hhead, hrefuses⟩ := (Operand.text_eq_error_iff hlength).1 htext
          rw [List.head?_take, if_neg o.extent_pos.1.ne'] at hhead
          exact ⟨[], o, os, [], rest, rfl, rfl, .nil,
            .inr ⟨by omega, b, refusal, hhead, hrefuses, rfl⟩⟩
        · next text htext =>
          split at h
          · next e' hmore =>
            -- the operand is complete and admitted, and a later one fails
            obtain rfl := Except.error.inj h
            obtain ⟨earlier, o', later, code, tail, rfl, hrest, hcode, hfails⟩ :=
              ih (fun o' ho' => hreg o' (List.mem_cons_of_mem _ ho')) hmore
            have hadmits := (Operand.exists_text_iff hlength).1 ⟨text, htext⟩
            refine ⟨o :: earlier, o', later, rest.take o.extent ++ code, tail, rfl, ?_,
              .cons (hlength.trans hwidth) hadmits hcode, ?_⟩
            · rw [List.append_assoc, ← hrest, List.take_append_drop]
            · rwa [totalWidth, ← hwidth, ← Nat.add_assoc]
          · cases h
  · rintro ⟨earlier, o, later, code, tail, rfl, rfl, hcode, hfails⟩
    obtain ⟨hearlier, hlater⟩ := List.forall_mem_append.1 hreg
    obtain ⟨texts, hspells⟩ := hcode.exists_spells hearlier
    rw [readOperands_append _ _ _ _ _ hspells hearlier,
      hfails.readOperands (hlater o List.mem_cons_self)]
    rfl

/-! ### The instruction at an address -/

theorem totalWidth_append (os os' : List Operand) :
    totalWidth (os ++ os') = totalWidth os + totalWidth os' := by
  induction os with
  | nil => exact (Nat.zero_add _).symm
  | cons o os ih => rw [List.cons_append, totalWidth, ih, totalWidth, Nat.add_assoc]

/-- An operand lies inside its instruction. -/
theorem StandsAt.le_width (h : StandsAt c bytes limit address i o position) :
    position + o.width ≤ address + i.width := by
  obtain ⟨earlier, later, hoperands, rfl, -⟩ := h.operands
  rw [Instruction.width, Instruction.operandWidth, hoperands, totalWidth_append, totalWidth]
  omega

theorem StandsAt.address_lt (h : StandsAt c bytes limit address i o position) :
    address < limit := by
  obtain ⟨_, _, -, rfl, -⟩ := h.operands
  have hbelow := h.below
  omega

/-- The operands of the instruction at an address fail where they fail on the whole string. -/
theorem readOperands_window_eq_error_iff (hc : c.Regular) (hlimit : limit ≤ bytes.length)
    (hopcode : bytes[address]? = some opcode) (hget : c.get? opcode = some i)
    (hlt : address < limit) :
    readOperands address limit (address + 1) i.operands (window bytes (address + 1) limit) =
        .error e ↔
      ∃ o position, StandsAt c bytes limit address i o position ∧
        o.Fails address limit position (window bytes position limit) e := by
  rw [readOperands_eq_error_iff (hc.operands hget)]
  constructor
  · rintro ⟨earlier, o, later, code, tail, hoperands, hwindow, hcode, hfails⟩
    have hlength := congrArg List.length hwindow
    rw [length_window hlimit, List.length_append] at hlength
    have hbelow : address + 1 + code.length ≤ limit := by omega
    obtain ⟨hfirst, rfl⟩ := window_inv hwindow hlimit hbelow
    rw [← hcode.length_eq] at hfails
    refine ⟨o, address + 1 + code.length, ⟨⟨opcode, hopcode, hget⟩, hbelow, ?_⟩, hfails⟩
    exact ⟨earlier, later, hoperands, by rw [hcode.length_eq], hfirst.symm ▸ hcode⟩
  · rintro ⟨o, position, ⟨-, hbelow, earlier, later, hoperands, rfl, hcode⟩, hfails⟩
    exact ⟨earlier, o, later, _, _, hoperands,
      window_eq_append (Nat.le_add_right _ _) hbelow, hcode, hfails⟩

/-- The line at an address fails with its operands. -/
theorem lineAt_eq_error_of_get (hc : c.Regular) (hlimit : limit ≤ bytes.length)
    (hopcode : bytes[address]? = some opcode) (hget : c.get? opcode = some i)
    (hlt : address < limit) :
    lineAt c bytes limit address = .error e ↔
      ∃ o position, StandsAt c bytes limit address i o position ∧
        o.Fails address limit position (window bytes position limit) e := by
  rw [← readOperands_window_eq_error_iff hc hlimit hopcode hget hlt, lineAt,
    window_of_lt hopcode hlt]
  dsimp only
  rw [decodeOne, hget]
  dsimp only
  rcases readOperands address limit (address + 1) i.operands (window bytes (address + 1) limit)
    with e' | ⟨text, stop⟩ <;> simp

/-- An operand that fails is explained by the error. -/
theorem StandsAt.explains (h : StandsAt c bytes limit address i o position)
    (hlimit : limit ≤ bytes.length)
    (hfails : o.Fails address limit position (window bytes position limit) e) :
    e.address? = some address ∧ e.Explains c bytes limit := by
  have hbelow := h.below
  rw [Operand.Fails, length_window hlimit] at hfails
  rcases hfails with ⟨hshort, rfl⟩ | ⟨hlong, b, refusal, hfirst, hrefuses, rfl⟩
  · have hcut : limit < position + o.width := by omega
    exact ⟨rfl, rfl, hcut, .inr ⟨i, o, position, h, rfl, hcut.trans_le h.le_width, h.le_width⟩⟩
  · have hinside : position + o.width ≤ limit := by omega
    have hlt : position < limit := by
      by_contra hge
      rw [window_of_ge (Nat.not_lt.1 hge)] at hfirst
      cases hfirst
    rw [head?_window hlt] at hfirst
    rcases hrefuses with ⟨htag, hunknown, rfl⟩ | ⟨hoffset, hunknown, rfl⟩
    · exact ⟨rfl, i, o, position, h, hinside, htag, hfirst, hunknown⟩
    · exact ⟨rfl, i, o, position, h, hinside, hoffset, hfirst, hunknown⟩

/-- An operand that is complete and refused fails. -/
theorem StandsAt.fails {b : UInt8} {refusal : OperandError}
    (h : StandsAt c bytes limit address i o position) (hlimit : limit ≤ bytes.length)
    (hinside : position + o.width ≤ limit) (hfirst : bytes[position]? = some b)
    (hrefuses : o.Refuses b refusal) :
    o.Fails address limit position (window bytes position limit)
      (refusal.inInstruction address) := by
  have hpos : 0 < o.width := by
    rcases hrefuses with ⟨rfl | rfl, -⟩ | ⟨rfl, -⟩ <;> decide
  refine .inr ⟨?_, b, refusal, ?_, hrefuses, rfl⟩
  · rw [length_window hlimit]
    omega
  · rw [head?_window (by omega), hfirst]

theorem StandsAt.lineAt_eq_error (h : StandsAt c bytes limit address i o position)
    (hc : c.Regular) (hlimit : limit ≤ bytes.length)
    (hfails : o.Fails address limit position (window bytes position limit) e) :
    lineAt c bytes limit address = .error e := by
  obtain ⟨opcode, hopcode, hget⟩ := h.opcode
  exact (lineAt_eq_error_of_get hc hlimit hopcode hget h.address_lt).2 ⟨o, position, h, hfails⟩

/-- **There is no line at an address exactly if an error explains why.** -/
theorem lineAt_eq_error_iff (hc : c.Regular) (hlimit : limit ≤ bytes.length) :
    lineAt c bytes limit address = .error e ↔
      e.address? = some address ∧ e.Explains c bytes limit := by
  constructor
  · intro h
    rcases Nat.lt_or_ge address limit with hlt | hge
    · obtain ⟨opcode, hopcode⟩ : ∃ opcode, bytes[address]? = some opcode :=
        ⟨_, List.getElem?_eq_getElem (hlt.trans_le hlimit)⟩
      rcases hget : c.get? opcode with - | i
      · rw [lineAt, window_of_lt hopcode hlt] at h
        dsimp only at h
        rw [decodeOne, hget] at h
        obtain rfl := Except.error.inj h
        exact ⟨rfl, hlt, hopcode, hget⟩
      · obtain ⟨o, position, hstands, hfails⟩ :=
          (lineAt_eq_error_of_get hc hlimit hopcode hget hlt).1 h
        exact hstands.explains hlimit hfails
    · rw [lineAt, window_of_ge hge] at h
      obtain rfl := Except.error.inj h
      exact ⟨rfl, rfl, Nat.lt_succ_of_le hge, .inl ⟨hge, rfl⟩⟩
  · rintro ⟨haddress, h⟩
    cases e with
    | missingCodeSection => cases haddress
    | unknownOpcode opcode a =>
      obtain rfl := Option.some.inj haddress
      obtain ⟨hlt, hopcode, hget⟩ := h
      rw [lineAt, window_of_lt hopcode hlt]
      dsimp only
      rw [decodeOne, hget]
    | unknownTypeTag tag a =>
      obtain rfl := Option.some.inj haddress
      obtain ⟨i, o, position, hstands, hinside, htag, hfirst, hunknown⟩ := h
      exact hstands.lineAt_eq_error hc hlimit
        (hstands.fails hlimit hinside hfirst (.inl ⟨htag, hunknown, rfl⟩))
    | unknownSelector selector a =>
      obtain rfl := Option.some.inj haddress
      obtain ⟨i, o, position, hstands, hinside, hoffset, hfirst, hunknown⟩ := h
      exact hstands.lineAt_eq_error hc hlimit
        (hstands.fails hlimit hinside hfirst (.inr ⟨hoffset, hunknown, rfl⟩))
    | overrun a stop limit' =>
      obtain rfl := Option.some.inj haddress
      obtain ⟨rfl, hcut, ⟨hge, rfl⟩ | ⟨i, o, position, hstands, rfl, -⟩⟩ := h
      · rw [lineAt, window_of_ge hge]
      · have hbelow := hstands.below
        refine hstands.lineAt_eq_error hc hlimit (.inl ⟨?_, rfl⟩)
        rw [length_window hlimit]
        omega

/-! ### Listings -/

/-- A listing fails at the first address without a line. -/
theorem decode_eq_error_iff (hc : c.Regular) :
    decode c bytes start stop = .error e ↔
      ∃ address, start ≤ address ∧ address < stop ∧
        (∃ lines, decode c bytes start address = .ok lines) ∧
        lineAt c bytes (min stop bytes.length) address = .error e := by
  constructor
  · intro h
    -- the distance to the end falls with every line
    induction hd : stop - start using Nat.strong_induction_on generalizing start with
    | _ d ih =>
      subst hd
      rcases Nat.lt_or_ge start stop with hlt | hge
      · rw [decode_of_lt hlt] at h
        rcases hline : lineAt c bytes (min stop bytes.length) start with e' | line <;>
          rw [hline] at h
        · obtain rfl := Except.error.inj h
          exact ⟨start, le_rfl, hlt, ⟨[], decode_of_ge le_rfl⟩, hline⟩
        · have hinside : min stop bytes.length ≤ bytes.length := Nat.min_le_right _ _
          obtain ⟨-, -, i, hsize, -⟩ := (lineAt_eq_ok_iff hc hinside).1 hline
          have hpos : 1 ≤ line.size := hsize ▸ Nat.le_add_right 1 _
          dsimp only at h
          rcases hrest : decode c bytes (start + line.size) stop with e' | lines <;> rw [hrest] at h
          · obtain rfl := Except.error.inj h
            obtain ⟨address, hlow, hhigh, ⟨lines, hlines⟩, herror⟩ :=
              ih _ (by omega) hrest rfl
            refine ⟨address, by omega, hhigh, ⟨line :: lines, ?_⟩, herror⟩
            rw [decode_of_lineAt hc hinside hline hlow, hlines]
            rfl
          · cases h
      · rw [decode_of_ge hge] at h
        cases h
  · rintro ⟨address, hlow, hhigh, ⟨lines, hlines⟩, herror⟩
    rw [decode_append hc hhigh.le hlow hlines, decode_of_lt hhigh, herror]
    rfl

/-- The error names the first instruction that is wrong in the code from `start` to `stop`: all code
before it has a listing, and the error explains what is wrong with it. -/
def DecodeError.NamesFirstFault (c : Catalog) (bytes : List UInt8) (start stop : Nat)
    (e : DecodeError) : Prop :=
  ∃ address, e.address? = some address ∧ start ≤ address ∧ address < stop ∧
    (∃ lines, decode c bytes start address = .ok lines) ∧
    e.Explains c bytes (min stop bytes.length)

theorem decode_eq_error_iff_names (hc : c.Regular) :
    decode c bytes start stop = .error e ↔ e.NamesFirstFault c bytes start stop := by
  rw [decode_eq_error_iff hc]
  refine exists_congr fun address => ?_
  rw [lineAt_eq_error_iff hc (Nat.min_le_right _ _)]
  constructor
  · rintro ⟨hlow, hhigh, hlines, haddress, hexplains⟩
    exact ⟨haddress, hlow, hhigh, hlines, hexplains⟩
  · rintro ⟨haddress, hlow, hhigh, hlines, hexplains⟩
    exact ⟨hlow, hhigh, hlines, haddress, hexplains⟩

/-- **An error names the first bad instruction and its true cause.**  Decoding ends with an error
exactly if the error does so, and the loop over 64-bit addresses is halted by the same errors and
by nothing else. -/
theorem decode_error_names_first_fault {table : List Mnemonic} (hc : Catalog.build table = .ok c)
    (bytes : List UInt8) :
    (∀ start stop e,
      decode c bytes start stop = .error e ↔ e.NamesFirstFault c bytes start stop) ∧
    (bytes.length < 2 ^ 63 → ∀ (start stop : UInt64) halt,
      Addressed.decode c bytes start stop = .error halt ↔
        ∃ e, halt = .refused e ∧ e.NamesFirstFault c bytes start.toNat stop.toNat) := by
  have hreg := Catalog.regular_of_build hc
  refine ⟨fun start stop e => decode_eq_error_iff_names hreg, ?_⟩
  intro hbytes start stop halt
  simp only [← decode_eq_error_iff_names hreg, Addressed.decode_eq hbytes]
  rcases decode c bytes start.toNat stop.toNat with e | lines
  · simp [Except.mapError, eq_comm]
  · simp [Except.mapError]

/-- The offset of a store has an unknown layout, and the operands before it are right. -/
theorem decode_error_names_first_fault_store :
    let bytes := [0x50, 0x08, 0x03, 0x05, 0x3F, 0x01, 1, 0, 0, 0]
    ∃ c, Catalog.build storeAndExit = .ok c ∧
      decode c bytes 0 10 = .error (.unknownSelector 0x3F 1) ∧
      (∃ lines, decode c bytes 0 1 = .ok lines) ∧
      ∃ i o position, StandsAt c bytes 10 1 i o position ∧ position + o.width ≤ 10 ∧
        o = .registerOffset ∧ bytes[position]? = some 0x3F ∧ 0x3F ∉ selectorBytes := by
  intro bytes
  obtain ⟨c, hc, -⟩ := exists_build_storeAndExit
  have herror : decode c bytes 0 10 = .error (.unknownSelector 0x3F 1) := by
    obtain rfl := Except.ok.inj hc
    decide +kernel
  obtain ⟨hnames, -⟩ := decode_error_names_first_fault hc bytes
  obtain ⟨address, haddress, -, -, hlines, hexplains⟩ := (hnames 0 10 _).1 herror
  obtain rfl := Option.some.inj haddress
  exact ⟨c, hc, herror, hlines, hexplains⟩

end VmProbe.Isa
