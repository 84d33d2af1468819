/-
VmProbe/Proofs/Isa/Tiling.lean

Decoding accepts exactly the concatenations of encodings, and its lines tile them.

A piece of code splits into encodings in at most one way, since an opcode decides how long its
instruction is; so the lines of a listing belong to the encodings one by one.  `Tiling` is that
correspondence along the code:

    Tiling c start codes lines stop

says that the first line stands at `start`, each next one where the one before ends, and that
the last one ends at `stop`.  `decodeFrom_flatten` finds the tiling of given encodings, and
`decodeFrom_inv` finds the encodings of given lines; both are inductions over the lines.
-/
import VmProbe.Proofs.Isa.Addressed
import VmProbe.Proofs.Isa.Encoding

namespace VmProbe.Isa

variable {c : Catalog} {i : Instruction} {bytes rest : List UInt8}
variable {codes : List (List UInt8)} {lines : List Line} {address limit start stop : Nat}

/-! ### Splits and tilings -/

/-- `Splits c codes code`: the code consists of the given encodings, one after another. -/
structure Splits (c : Catalog) (codes : List (List UInt8)) (code : List UInt8) : Prop where
  flatten : codes.flatten = code
  encodes : ∀ e ∈ codes, ∃ i, Encodes c i e

/-- `Tiling c start codes lines stop`: from `start` to `stop` there is one line for each
encoding, without gaps. -/
inductive Tiling (c : Catalog) : Nat → List (List UInt8) → List Line → Nat → Prop
  | nil {address : Nat} : Tiling c address [] [] address
  | cons {i : Instruction} {code : List UInt8} {codes : List (List UInt8)} {line : Line}
      {lines : List Line} {address stop : Nat} :
      Encodes c i code → line.address = address → line.size = i.width →
      Tiling c (address + line.size) codes lines stop →
      Tiling c address (code :: codes) (line :: lines) stop

/-- The lines of a listing from `start` to `stop`, one for each encoding. -/
structure Tiles (c : Catalog) (codes : List (List UInt8)) (lines : List Line)
    (start stop : Nat) : Prop where
  length_eq : lines.length = codes.length
  first : lines.head?.map (·.address) = some start
  /-- A line is as long as the instruction that the first byte of its encoding selects. -/
  size_eq : ∀ (n : Nat) (hc : n < codes.length) (hl : n < lines.length),
    ∃ opcode i, codes[n].head? = some opcode ∧ c.get? opcode = some i ∧
      lines[n].size = i.width ∧ 1 ≤ lines[n].size
  next : ∀ (n : Nat) (h : n + 1 < lines.length),
    lines[n].address + lines[n].size = lines[n + 1].address
  last : lines.getLast?.map (fun l => l.address + l.size) = some stop

theorem Encodes.head {code : List UInt8} (h : Encodes c i code) :
    ∃ opcode, code.head? = some opcode ∧ c.get? opcode = some i := by
  obtain ⟨hget, _⟩ := h
  exact ⟨_, rfl, hget⟩

theorem Tiling.length_eq (h : Tiling c start codes lines stop) :
    lines.length = codes.length := by
  induction h with
  | nil => rfl
  | cons _ _ _ _ ih => rw [List.length_cons, List.length_cons, ih]

theorem Tiling.size_eq (h : Tiling c start codes lines stop) (n : Nat) (hc : n < codes.length)
    (hl : n < lines.length) :
    ∃ opcode i, codes[n].head? = some opcode ∧ c.get? opcode = some i ∧
      lines[n].size = i.width ∧ 1 ≤ lines[n].size := by
  induction h generalizing n with
  | nil => cases hc
  | cons henc _ hsize _ ih =>
    rcases n with - | n
    · obtain ⟨opcode, hhead, hget⟩ := henc.head
      exact ⟨opcode, _, hhead, hget, hsize, hsize ▸ Nat.le_add_right 1 _⟩
    · exact ih n (Nat.lt_of_succ_lt_succ hc) (Nat.lt_of_succ_lt_succ hl)

/-- Where a tiling starts: at its first line, or at its end. -/
theorem Tiling.start_eq (h : Tiling c start codes lines stop) :
    start = (lines.head?.map (·.address)).getD stop := by
  cases h with
  | nil => rfl
  | cons _ haddr _ _ => exact haddr.symm

theorem Tiling.next (h : Tiling c start codes lines stop) (n : Nat)
    (hn : n + 1 < lines.length) :
    lines[n].address + lines[n].size = lines[n + 1].address := by
  induction h generalizing n with
  | nil => cases hn
  | @cons i code codes line lines address stop _ haddr _ htail ih =>
    rcases n with - | n
    · rcases lines with - | ⟨l, ls⟩
      · exact absurd hn (Nat.lt_irrefl 1)
      · -- the rest begins where the line ends
        show line.address + line.size = l.address
        rw [haddr]
        exact htail.start_eq
    · exact ih n (Nat.lt_of_succ_lt_succ hn)

theorem Tiling.last (h : Tiling c start codes lines stop) (hne : lines ≠ []) :
    lines.getLast?.map (fun l => l.address + l.size) = some stop := by
  induction h with
  | nil => exact absurd rfl hne
  | @cons i code codes line lines address stop _ haddr _ htail ih =>
    rcases lines with - | ⟨l, ls⟩
    · have hend : address + line.size = stop := htail.start_eq
      rw [← hend, ← haddr]
      rfl
    · rw [List.getLast?_cons_cons]
      exact ih (List.cons_ne_nil l ls)

/-- The lines take all of the code. -/
theorem Tiling.sum_size (h : Tiling c start codes lines stop) :
    start + (lines.map (·.size)).sum = stop := by
  induction h with
  | nil => rfl
  | cons _ _ _ _ ih => rw [List.map_cons, List.sum_cons, ← Nat.add_assoc, ih]

/-- A tiling of code that is not empty, position by position. -/
theorem Tiling.tiles (h : Tiling c start codes lines stop) (hlt : start < stop) :
    Tiles c codes lines start stop := by
  have hstart := h.start_eq
  rcases lines with - | ⟨l, ls⟩
  · exact absurd hstart hlt.ne
  · exact {
      length_eq := h.length_eq
      first := congrArg some hstart.symm
      size_eq := h.size_eq
      next := h.next
      last := h.last (List.cons_ne_nil l ls) }

/-! ### Decoding -/

/-- **Encodings decode to lines that tile them.** -/
theorem decodeFrom_flatten (limit : Nat) (hc : c.Regular)
    (hcodes : ∀ code ∈ codes, ∃ i, Encodes c i code)
    (hstop : address + codes.flatten.length = stop) :
    ∃ lines, decodeFrom c limit stop address codes.flatten = .ok lines ∧
      Tiling c address codes lines stop := by
  induction codes generalizing address with
  | nil =>
    obtain rfl : address = stop := hstop
    exact ⟨[], decodeFrom_eq_nil_iff.2 (Nat.lt_irrefl _), .nil⟩
  | cons code codes ih =>
    obtain ⟨⟨i, henc⟩, hlater⟩ := List.forall_mem_cons.1 hcodes
    obtain ⟨text, hreads⟩ := henc.exists_reads hc
    rw [List.flatten_cons, List.length_append, henc.length_eq, ← Nat.add_assoc] at hstop
    obtain ⟨lines, hlines, htiling⟩ := ih hlater hstop
    have hlt : address < stop := by
      rw [Instruction.width] at hstop
      omega
    refine ⟨⟨address, text, i.width⟩ :: lines, ?_, .cons henc rfl rfl htiling⟩
    exact (decodeFrom_eq_cons_iff hc).2
      ⟨hlt, i, code, codes.flatten, List.flatten_cons, hreads, rfl, rfl, hlines⟩

/-- **What decodes to lines splits into encodings,** and fills the code to its end. -/
theorem decodeFrom_inv (hc : c.Regular)
    (h : decodeFrom c limit stop address rest = .ok lines)
    (hle : address + rest.length ≤ stop) :
    address + rest.length = stop ∧ ∃ codes, Splits c codes rest := by
  induction lines generalizing address rest with
  | nil =>
    -- at the end nothing is left, since the code does not go further
    have hend := decodeFrom_eq_nil_iff.1 h
    obtain rfl : rest = [] := List.length_eq_zero_iff.1 (by omega)
    exact ⟨hle.antisymm (Nat.not_lt.1 hend), [], rfl, List.forall_mem_nil _⟩
  | cons line lines ih =>
    obtain ⟨-, i, code, tail, rfl, hreads, -, -, hlines⟩ := (decodeFrom_eq_cons_iff hc).1 h
    rw [List.length_append, hreads.length_eq, ← Nat.add_assoc] at hle ⊢
    obtain ⟨hend, codes, rfl, hcodes⟩ := ih hlines hle
    exact ⟨hend, code :: codes, List.flatten_cons,
      List.forall_mem_cons.2 ⟨⟨i, hreads.encodes hc⟩, hcodes⟩⟩

/-- A listing exists exactly of code that lies within the bytes and splits into encodings. -/
theorem exists_decode_iff (hc : c.Regular) (h : start < stop) :
    (∃ lines, decode c bytes start stop = .ok lines) ↔
      stop ≤ bytes.length ∧ ∃ codes, Splits c codes (window bytes start stop) := by
  simp only [decode_eq_decodeFrom]
  constructor
  · rintro ⟨lines, hlines⟩
    have hlength : (window bytes start (min stop bytes.length)).length =
        min stop bytes.length - start := length_window (Nat.min_le_right _ _)
    obtain ⟨hend, codes, hcodes⟩ := decodeFrom_inv hc hlines (by rw [hlength]; omega)
    rw [hlength] at hend
    have hle : stop ≤ bytes.length := by omega
    rw [Nat.min_eq_left hle] at hcodes
    exact ⟨hle, codes, hcodes⟩
  · rintro ⟨hle, codes, hflat, hcodes⟩
    have hlength : codes.flatten.length = stop - start := hflat ▸ length_window hle
    have hend : start + codes.flatten.length = stop := by omega
    obtain ⟨lines, hlines, _⟩ := decodeFrom_flatten stop hc hcodes hend
    refine ⟨lines, ?_⟩
    rw [Nat.min_eq_left hle, ← hflat]
    exact hlines

/-- The lines of a listing tile every split of its code. -/
theorem tiling_of_decode (hc : c.Regular) (h : start < stop)
    (hlines : decode c bytes start stop = .ok lines)
    (hcodes : Splits c codes (window bytes start stop)) :
    Tiling c start codes lines stop := by
  obtain ⟨hle, -⟩ := (exists_decode_iff hc h).1 ⟨lines, hlines⟩
  have hlength : codes.flatten.length = stop - start := hcodes.flatten ▸ length_window hle
  rw [decode_eq_decodeFrom, Nat.min_eq_left hle, ← hcodes.flatten] at hlines
  have hend : start + codes.flatten.length = stop := by omega
  obtain ⟨lines', hlines', htiling⟩ := decodeFrom_flatten stop hc hcodes.encodes hend
  rw [hlines] at hlines'
  cases hlines'
  exact htiling

/-! ### Acceptance -/

/-- **Decoding accepts exactly the code that splits into encodings.**  The lines then tile the
encodings, whichever way they were found; and the loop over 64-bit addresses, which would
notice a read outside the bytes or a cursor that does not move, ends in the same way. -/
theorem decode_accepts_exactly_splits {table : List Mnemonic}
    (hc : Catalog.build table = .ok c) (bytes : List UInt8) {start stop : UInt64}
    (h : start < stop) :
    ((∃ lines, decode c bytes start.toNat stop.toNat = .ok lines) ↔
      stop.toNat ≤ bytes.length ∧
        ∃ codes, Splits c codes ((bytes.take stop.toNat).drop start.toNat)) ∧
    (∀ lines codes, decode c bytes start.toNat stop.toNat = .ok lines →
      Splits c codes ((bytes.take stop.toNat).drop start.toNat) →
      Tiles c codes lines start.toNat stop.toNat) ∧
    (bytes.length < 2 ^ 63 →
      Addressed.decode c bytes start stop =
        (decode c bytes start.toNat stop.toNat).mapError .refused) := by
  have hreg := Catalog.regular_of_build hc
  have hlt : start.toNat < stop.toNat := UInt64.lt_iff_toNat_lt.1 h
  refine ⟨exists_decode_iff hreg hlt, ?_, Addressed.decode_eq⟩
  intro lines codes hlines hcodes
  exact (tiling_of_decode hreg hlt hlines hcodes).tiles hlt

/-- A store of a register to memory and an exit, with a byte before them. -/
theorem decode_accepts_exactly_splits_store :
    ∃ c, Catalog.build storeAndExit = .ok c ∧ (1 : UInt64) < 11 ∧
      ∃ lines, decode c [0xFF, 0x08, 0x03, 0x05, 0x2F, 0x01, 1, 0, 0, 0, 0x50] 1 11 = .ok lines ∧
        Tiles c [[0x08, 0x03, 0x05, 0x2F, 0x01, 1, 0, 0, 0], [0x50]] lines 1 11 := by
  obtain ⟨c, hc, hstore, hexit⟩ := exists_build_storeAndExit
  have hoperands : OperandCode [.intTypeTag, .intRegister, .registerOffset]
      ([0x03] ++ ([0x05] ++ ([0x2F, 0x01, 1, 0, 0, 0] ++ []))) :=
    .cons rfl ⟨0x03, by decide, rfl⟩ (.cons rfl trivial (.cons rfl ⟨0x2F, by decide, rfl⟩ .nil))
  have hsplits : Splits c [[0x08, 0x03, 0x05, 0x2F, 0x01, 1, 0, 0, 0], [0x50]]
      [0x08, 0x03, 0x05, 0x2F, 0x01, 1, 0, 0, 0, 0x50] := by
    refine ⟨rfl, ?_⟩
    intro e he
    fin_cases he
    · exact ⟨_, .intro hstore hoperands⟩
    · exact ⟨_, .intro hexit .nil⟩
  have hlt : (1 : UInt64) < 11 := by decide
  obtain ⟨hiff, htiles, -⟩ := decode_accepts_exactly_splits hc
    [0xFF, 0x08, 0x03, 0x05, 0x2F, 0x01, 1, 0, 0, 0, 0x50] hlt
  obtain ⟨lines, hlines⟩ := hiff.2 ⟨by decide, _, hsplits⟩
  exact ⟨c, hc, hlt, lines, hlines, htiles lines _ hlines hsplits⟩

end VmProbe.Isa
