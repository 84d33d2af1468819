/-
VmProbe/Proofs/Isa/Boundaries.lean

Listings compose where one line ends and the next one begins.

The decoder works on what is left of the code before the end that it was given.  Two listings of
neighbouring parts are given different ends, so they have to be compared on the whole string: the
line at an address (`lineAt`) and the listing behind it (`decode_of_lt`).  The line depends on the
end in one way only.  If it is there, it is the one line whose encoding stands at the address, and
the end comes no earlier than that of the line (`lineAt_eq_ok_iff`).  So a line stays as it is
when the end moves on, or back to the end of the line itself.

Main statement: once `start` to `mid` has a listing,

    decode c bytes start stop  =  (decode c bytes mid stop).map (lines ++ ·)

whatever stands behind `mid`, errors included, and a listing can be cut before each of its lines
(`decode_composes`).
-/
import VmProbe.Proofs.Isa.Placement
import VmProbe.Proofs.Isa.Tiling

namespace VmProbe.Isa

variable {c : Catalog} {bytes code rest : List UInt8} {line : Line} {lines : List Line}
variable {address limit start mid stop : Nat}

/-! ### Windows -/

theorem window_of_ge (h : stop ≤ start) : window bytes start stop = [] :=
  List.drop_eq_nil_of_le ((List.length_take_le stop bytes).trans h)

theorem window_of_lt {b : UInt8} (hb : bytes[start]? = some b) (h : start < stop) :
    window bytes start stop = b :: window bytes (start + 1) stop := by
  obtain ⟨hlt, rfl⟩ := List.getElem?_eq_some_iff.1 hb
  have hlength : start < (bytes.take stop).length := by
    rw [List.length_take]
    exact Nat.lt_min.2 ⟨h, hlt⟩
  rw [window, window, List.drop_eq_getElem_cons hlength, List.getElem_take]

theorem head?_window (h : start < stop) : (window bytes start stop).head? = bytes[start]? := by
  rw [window, List.head?_drop, List.getElem?_take_of_lt h]

/-- A window is cut in two at any place inside it. -/
theorem window_eq_append (hstart : start ≤ mid) (hstop : mid ≤ stop) :
    window bytes start stop = window bytes start mid ++ window bytes mid stop := by
  have hfirst : window bytes start mid = (window bytes start stop).take (mid - start) := by
    rw [window, window, ← List.drop_take, List.take_take, Nat.min_eq_left hstop]
  have hsecond : window bytes mid stop = (window bytes start stop).drop (mid - start) := by
    rw [drop_window, Nat.add_sub_cancel' hstart]
  rw [hfirst, hsecond, List.take_append_drop]

/-- What a window begins with is a window, and so is the rest of it. -/
theorem window_inv (h : window bytes start stop = code ++ rest) (hstop : stop ≤ bytes.length)
    (hle : start + code.length ≤ stop) :
    window bytes start (start + code.length) = code ∧
      window bytes (start + code.length) stop = rest := by
  have hlength : (window bytes start (start + code.length)).length = code.length := by
    rw [length_window (hle.trans hstop), Nat.add_sub_cancel_left]
  rw [window_eq_append (Nat.le_add_right _ _) hle] at h
  exact List.append_inj h hlength

/-! ### The line at an address -/

/-- The line at an address of the whole string, for code that ends at the limit. -/
def lineAt (c : Catalog) (bytes : List UInt8) (limit address : Nat) : Except DecodeError Line :=
  match window bytes address limit with
  | [] => .error (.overrun address (address + 1) limit)
  | opcode :: operands => decodeOne c address limit opcode operands

/-- **A line is there exactly if its encoding is,** and ends before the limit. -/
theorem lineAt_eq_ok_iff (hc : c.Regular) (hlimit : limit ≤ bytes.length) :
    lineAt c bytes limit address = .ok line ↔
      line.address = address ∧ address + line.size ≤ limit ∧
        ∃ i, line.size = i.width ∧
          Reads c i (window bytes address (address + line.size)) line.text := by
  constructor
  · intro h
    rw [lineAt] at h
    split at h
    · cases h
    · next opcode operands hwindow =>
      obtain ⟨i, code, tail, rfl, hreads, haddress, hsize⟩ := reads_of_decodeOne hc h
      have hwidth : (opcode :: code).length = line.size := hreads.length_eq.trans hsize.symm
      have hlength := congrArg List.length hwindow
      rw [length_window hlimit, ← List.cons_append, List.length_append, hwidth] at hlength
      have hpos : 0 < line.size := hwidth ▸ Nat.zero_lt_succ _
      have hle : address + line.size ≤ limit := by omega
      have hcut : window bytes address limit = (opcode :: code) ++ tail := hwindow
      obtain ⟨hcode, -⟩ := window_inv hcut hlimit (by rwa [hwidth])
      rw [hwidth] at hcode
      exact ⟨haddress, hle, i, hsize, hcode ▸ hreads⟩
  · rintro ⟨rfl, hle, i, hsize, hreads⟩
    obtain ⟨_, text, _⟩ := line
    obtain rfl : _ = i.width := hsize
    rw [lineAt, window_eq_append (Nat.le_add_right _ _) hle]
    generalize window bytes _ _ = code at hreads
    rcases code with - | ⟨opcode, code⟩
    · cases hreads
    · exact decodeOne_of_reads _ limit _ hc hreads

/-- Where a line is found does not depend on the limit, as long as the line ends before it. -/
theorem lineAt_of_le {limit' : Nat} (hc : c.Regular) (hlimit : limit ≤ bytes.length)
    (h : lineAt c bytes limit address = .ok line) (hlimit' : limit' ≤ bytes.length)
    (hle : address + line.size ≤ limit') : lineAt c bytes limit' address = .ok line := by
  obtain ⟨haddress, -, hreads⟩ := (lineAt_eq_ok_iff hc hlimit).1 h
  exact (lineAt_eq_ok_iff hc hlimit').2 ⟨haddress, hle, hreads⟩

/-! ### One line after another -/

theorem decode_of_ge (h : stop ≤ start) : decode c bytes start stop = .ok [] := by
  rw [decode, decodeFrom.eq_def, if_neg (Nat.not_lt.2 h)]

/-- The lines of a listing are found one after another. -/
theorem decode_of_lt (h : start < stop) :
    decode c bytes start stop =
      match lineAt c bytes (min stop bytes.length) start with
      | .error e => .error e
      | .ok line => (decode c bytes (start + line.size) stop).map (line :: ·) := by
  rw [decode_eq_decodeFrom, lineAt, decodeFrom.eq_def, if_pos h]
  rcases hwindow : window bytes start (min stop bytes.length) with - | ⟨opcode, operands⟩
  · rfl
  · dsimp only
    rcases hone : decodeOne c start (min stop bytes.length) opcode operands with e | line
    · rfl
    · -- what is left behind the line is the window from there on
      obtain ⟨n, hn⟩ := Nat.exists_eq_add_of_lt (decodeOne_bounds hone).1
      have hleft : operands.drop (line.size - 1) =
          window bytes (start + line.size) (min stop bytes.length) := by
        rw [← drop_window, hwindow, hn]
        exact congrArg operands.drop (by omega)
      dsimp only
      rw [hleft]
      show _ = Except.map (line :: ·) (decodeFrom c (min stop bytes.length) stop
        (start + line.size) (window bytes (start + line.size) (min stop bytes.length)))
      rcases decodeFrom c (min stop bytes.length) stop (start + line.size)
        (window bytes (start + line.size) (min stop bytes.length)) with e | lines
      · rfl
      · rfl

/-- The first line of a listing, and the listing of the rest. -/
theorem decode_eq_cons_iff :
    decode c bytes start stop = .ok (line :: lines) ↔
      start < stop ∧ lineAt c bytes (min stop bytes.length) start = .ok line ∧
        decode c bytes (start + line.size) stop = .ok lines := by
  constructor
  · intro h
    rcases Nat.lt_or_ge start stop with hlt | hge
    · rw [decode_of_lt hlt] at h
      split at h
      · cases h
      · next l hl =>
        rcases hrest : decode c bytes (start + l.size) stop with e | ls <;> rw [hrest] at h
        · cases h
        · obtain ⟨rfl, rfl⟩ := List.cons.inj (Except.ok.inj h)
          exact ⟨hlt, hl, hrest⟩
    · rw [decode_of_ge hge] at h
      cases h
  · rintro ⟨hlt, hline, hlines⟩
    rw [decode_of_lt hlt, hline]
    dsimp only
    rw [hlines]
    rfl

theorem decode_eq_nil_iff : decode c bytes start stop = .ok [] ↔ stop ≤ start :=
  decodeFrom_eq_nil_iff.trans Nat.not_lt

/-- A line begins the listing of any code that it fits into. -/
theorem decode_of_lineAt (hc : c.Regular) (hlimit : limit ≤ bytes.length)
    (hline : lineAt c bytes limit start = .ok line) (hle : start + line.size ≤ stop) :
    decode c bytes start stop = (decode c bytes (start + line.size) stop).map (line :: ·) := by
  obtain ⟨-, hend, i, hsize, -⟩ := (lineAt_eq_ok_iff hc hlimit).1 hline
  have hpos : 1 ≤ line.size := hsize ▸ Nat.le_add_right 1 _
  rw [decode_of_lt (by omega), lineAt_of_le hc hlimit hline (Nat.min_le_right _ _)
    (Nat.le_min.2 ⟨hle, hend.trans hlimit⟩)]

/-! ### Composition -/

/-- **Behind a part that has a listing, decoding goes on as it would begin there.** -/
theorem decode_append (hc : c.Regular) (hmid : mid ≤ stop) (hstart : start ≤ mid)
    (h : decode c bytes start mid = .ok lines) :
    decode c bytes start stop = (decode c bytes mid stop).map (lines ++ ·) := by
  induction lines generalizing start with
  | nil =>
    obtain rfl : start = mid := hstart.antisymm (decode_eq_nil_iff.1 h)
    rcases decode c bytes start stop with e | ls
    · rfl
    · rfl
  | cons line lines ih =>
    obtain ⟨-, hline, hlines⟩ := decode_eq_cons_iff.1 h
    have hinside : min mid bytes.length ≤ bytes.length := Nat.min_le_right _ _
    obtain ⟨-, hend, -⟩ := (lineAt_eq_ok_iff hc hinside).1 hline
    have hnext : start + line.size ≤ mid := hend.trans (Nat.min_le_left _ _)
    -- the line stays where it is when the end moves on from `mid` to `stop`
    rw [decode_of_lineAt hc hinside hline (hnext.trans hmid), ih hnext hlines]
    rcases decode c bytes mid stop with e | ls
    · rfl
    · rfl

/-- The lines of a listing stand inside its code. -/
theorem address_of_mem_decode (hc : c.Regular) (h : decode c bytes start stop = .ok lines) :
    ∀ l ∈ lines, start ≤ l.address ∧ l.address < stop := by
  induction lines generalizing start with
  | nil => exact List.forall_mem_nil _
  | cons line lines ih =>
    obtain ⟨hlt, hline, hlines⟩ := decode_eq_cons_iff.1 h
    obtain ⟨haddress, -⟩ := (lineAt_eq_ok_iff hc (Nat.min_le_right _ _)).1 hline
    refine List.forall_mem_cons.2 ⟨⟨haddress.ge, haddress.trans_lt hlt⟩, fun l hl => ?_⟩
    obtain ⟨hlow, hhigh⟩ := ih hlines l hl
    exact ⟨(Nat.le_add_right _ _).trans hlow, hhigh⟩

/-- **A listing is cut in two before any of its lines.** -/
theorem decode_split (hc : c.Regular) (h : decode c bytes start stop = .ok lines) :
    ∀ l ∈ lines, ∃ before after, decode c bytes start l.address = .ok before ∧
      decode c bytes l.address stop = .ok after ∧ lines = before ++ after := by
  induction lines generalizing start with
  | nil => exact List.forall_mem_nil _
  | cons line lines ih =>
    obtain ⟨-, hline, hlines⟩ := decode_eq_cons_iff.1 h
    have hinside : min stop bytes.length ≤ bytes.length := Nat.min_le_right _ _
    obtain ⟨haddress, -⟩ := (lineAt_eq_ok_iff hc hinside).1 hline
    refine List.forall_mem_cons.2 ⟨?first, fun l hl => ?later⟩
    case first =>
      rw [haddress]
      exact ⟨[], line :: lines, decode_of_ge le_rfl, h, rfl⟩
    case later =>
      obtain ⟨before, after, hbefore, hafter, rfl⟩ := ih hlines l hl
      obtain ⟨hlow, -⟩ := address_of_mem_decode hc hlines l hl
      refine ⟨line :: before, after, ?_, hafter, rfl⟩
      -- and also when it moves back from `stop` to the later line
      rw [decode_of_lineAt hc hinside hline hlow, hbefore]
      rfl

/-- Listings between positions compose, where `place` is the address that a position stands for. -/
structure Composes {α ε : Type} [LE α] (place : α → Nat)
    (listing : α → α → Except ε (List Line)) : Prop where
  append : ∀ start mid stop lines, start ≤ mid → mid ≤ stop → listing start mid = .ok lines →
    listing start stop = (listing mid stop).map (lines ++ ·)
  split : ∀ start stop lines, listing start stop = .ok lines → ∀ l ∈ lines,
    ∃ mid, place mid = l.address ∧ ∃ before after,
      listing start mid = .ok before ∧ listing mid stop = .ok after ∧ lines = before ++ after

theorem composes_decode (hc : c.Regular) (bytes : List UInt8) :
    Composes id (decode c bytes) where
  append _ _ _ _ hstart hstop h := decode_append hc hstop hstart h
  split _ _ _ h l hl := ⟨l.address, rfl, decode_split hc h l hl⟩

theorem Addressed.decode_eq_ok_iff {start stop : UInt64} (hbytes : bytes.length < 2 ^ 63) :
    Addressed.decode c bytes start stop = .ok lines ↔
      Isa.decode c bytes start.toNat stop.toNat = .ok lines := by
  rw [Addressed.decode_eq hbytes]
  rcases Isa.decode c bytes start.toNat stop.toNat with e | ls <;> simp [Except.mapError]

theorem composes_addressed (hc : c.Regular) (hbytes : bytes.length < 2 ^ 63) :
    Composes UInt64.toNat (Addressed.decode c bytes) where
  append start mid stop lines hstart hstop h := by
    have happend := decode_append hc (UInt64.le_iff_toNat_le.1 hstop)
      (UInt64.le_iff_toNat_le.1 hstart) ((Addressed.decode_eq_ok_iff hbytes).1 h)
    rw [Addressed.decode_eq hbytes, Addressed.decode_eq hbytes, happend]
    rcases decode c bytes mid.toNat stop.toNat with e | ls
    · rfl
    · rfl
  split start stop lines h l hl := by
    have hlines := (Addressed.decode_eq_ok_iff hbytes).1 h
    obtain ⟨before, after, hbefore, hafter, happend⟩ := decode_split hc hlines l hl
    -- the line stands before `stop`, so its address has 64 bits
    have hplace : (UInt64.ofNat l.address).toNat = l.address :=
      UInt64.toNat_ofNat_of_lt' ((address_of_mem_decode hc hlines l hl).2.trans stop.toNat_lt)
    rw [← hplace] at hbefore hafter
    exact ⟨UInt64.ofNat l.address, hplace, before, after,
      (Addressed.decode_eq_ok_iff hbytes).2 hbefore, (Addressed.decode_eq_ok_iff hbytes).2 hafter,
      happend⟩

/-- **Decoding composes at the boundaries of instructions.**  Behind a part that has a listing, the
listing goes on as the one that begins there, or fails with its error; and a listing is that of
the part before any of its lines followed by that of the rest.  The loop over 64-bit addresses
composes in the same way. -/
theorem decode_composes {table : List Mnemonic} (hc : Catalog.build table = .ok c)
    (bytes : List UInt8) :
    Composes id (decode c bytes) ∧
      (bytes.length < 2 ^ 63 → Composes UInt64.toNat (Addressed.decode c bytes)) :=
  ⟨composes_decode (Catalog.regular_of_build hc) bytes,
    composes_addressed (Catalog.regular_of_build hc)⟩

/-- An exit before a store that is cut off: the first part has a listing, and the whole has the
error of the second part. -/
theorem decode_composes_cut :
    let bytes := [0xFF, 0x50, 0x08, 0x03, 0x05, 0x2F, 0x01, 1, 0, 0, 0, 0x50]
    ∃ c, Catalog.build storeAndExit = .ok c ∧
      decode c bytes 1 2 = .ok [⟨1, "exit ", 1⟩] ∧
      decode c bytes 2 7 = .error (.overrun 2 11 7) ∧
      decode c bytes 1 7 = .error (.overrun 2 11 7) := by
  intro bytes
  obtain ⟨c, hc, -⟩ := exists_build_storeAndExit
  have hbefore : decode c bytes 1 2 = .ok [⟨1, "exit ", 1⟩] := by
    obtain rfl := Except.ok.inj hc
    decide +kernel
  have hafter : decode c bytes 2 7 = .error (.overrun 2 11 7) := by
    obtain rfl := Except.ok.inj hc
    decide +kernel
  obtain ⟨hcomposes, -⟩ := decode_composes hc bytes
  have hall := hcomposes.append 1 2 7 _ (by decide) (by decide) hbefore
  rw [hafter] at hall
  exact ⟨c, hc, hbefore, hafter, hall⟩

end VmProbe.Isa
