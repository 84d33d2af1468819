/-
VmProbe/Proofs/Client/CurrentLine.lean

The line that the machine executes next.

Two parts of a client decide it, which change apart from each other: the listing, which comes with
an image, and the instruction pointer, which comes with the registers of a reply.

Every line of a listing has a size and ends before the next one begins (`precedes_of_decode`).  So
addresses ascend along a listing, no two lines begin at one address, and no line begins inside
another.  The instruction pointer is the one in the last reply that had registers, no matter what
was loaded, printed or refused since (`ip_through`).

Main statement: after any steps in any order, the current line is the one line of the loaded image
that begins at this instruction pointer, and there is none if it points into a line, or out of the
section of code, or if no image is loaded (`current_line_is_exact`).
-/
import VmProbe.Image.Draft
import VmProbe.Proofs.Client.Mirror
import VmProbe.Proofs.Client.Phases
import VmProbe.Proofs.Client.Registers
import VmProbe.Proofs.Image.Listing
import VmProbe.Proofs.Isa.Boundaries
import VmProbe.Proofs.Machine.Slots

namespace VmProbe

open Client
open Machine (Bank Register lastWritten)
open Wire (Reply)

/-! ### Lines of a listing -/

namespace Isa

variable {c : Catalog} {bytes : List UInt8} {lines : List Line} {start stop : Nat}

/-- `l.Precedes l'`: the line has a size, and ends where the other begins or before. -/
structure Line.Precedes (l l' : Line) : Prop where
  size_pos : 0 < l.size
  stop_le : l.address + l.size ≤ l'.address

theorem Line.Precedes.lt {l l' : Line} (h : l.Precedes l') : l.address < l'.address :=
  (Nat.lt_add_of_pos_right h.size_pos).trans_le h.stop_le

/-- The lines of a listing stand one behind another. -/
theorem precedes_of_decode (hc : c.Regular) (h : decode c bytes start stop = .ok lines) :
    lines.Pairwise Line.Precedes := by
  induction lines generalizing start with
  | nil => exact .nil
  | cons line lines ih =>
    obtain ⟨-, hline, hlines⟩ := decode_eq_cons_iff.1 h
    obtain ⟨haddress, -, i, hsize, -⟩ := (lineAt_eq_ok_iff hc (Nat.min_le_right _ _)).1 hline
    have hpos : 0 < line.size := hsize ▸ Nat.le_add_right 1 _
    refine List.pairwise_cons.2 ⟨fun l hl => ⟨hpos, ?_⟩, ih hlines⟩
    -- the others are listed from the end of this one on
    obtain ⟨hlow, -⟩ := address_of_mem_decode hc hlines l hl
    rwa [haddress]

end Isa

namespace Image

variable {i : Image} {lines : List Isa.Line}

/-- What is listed is decoded from a section of code. -/
theorem exists_section_of_disassemble (h : i.disassemble = .ok lines) :
    ∃ s, i.codeSection? = some s ∧
      Isa.decode Isa.standard i.bytes s.start.toNat s.stop = .ok lines := by
  rw [disassemble] at h
  split at h
  · cases h
  · next s hs => exact ⟨s, hs, h⟩

end Image

/-! ### The line at an address -/

namespace Client.Loaded

variable {l : Loaded} {line : Isa.Line} {i j address : Nat}

/-- `l.StartsAt i address`: the line with this index begins at the address. -/
def StartsAt (l : Loaded) (i address : Nat) : Prop :=
  ∃ h : i < l.lines.length, l.lines[i].address = address

/-- What an image with a listing of its own has: its lines come from its section of code, and stand
one behind another. -/
structure Listed (l : Loaded) : Prop where
  precedes : l.lines.Pairwise Isa.Line.Precedes
  inside : ∃ s, l.image.codeSection? = some s ∧
    ∀ line ∈ l.lines, s.start.toNat ≤ line.address ∧ line.address < s.stop

theorem listed_of_disassemble (h : l.image.disassemble = .ok l.lines) : l.Listed := by
  obtain ⟨s, hs, hlines⟩ := Image.exists_section_of_disassemble h
  have hregular := Isa.Catalog.regular_standard
  exact ⟨Isa.precedes_of_decode hregular hlines, s, hs, Isa.address_of_mem_decode hregular hlines⟩

/-- Of two lines, one ends before the other begins. -/
theorem Listed.eq_or_precedes (hl : l.Listed) (hi : i < l.lines.length)
    (hj : j < l.lines.length) :
    i = j ∨ l.lines[i].Precedes l.lines[j] ∨ l.lines[j].Precedes l.lines[i] := by
  have hlt := List.pairwise_iff_getElem.1 hl.precedes
  rcases Nat.lt_trichotomy i j with hij | hij | hij
  · exact .inr (.inl (hlt i j hi hj hij))
  · exact .inl hij
  · exact .inr (.inr (hlt j i hj hi hij))

/-- Two lines do not begin at one address. -/
theorem Listed.unique (hl : l.Listed) (hi : l.StartsAt i address) (hj : l.StartsAt j address) :
    i = j := by
  obtain ⟨hi, rfl⟩ := hi
  obtain ⟨hj, haddress⟩ := hj
  rcases hl.eq_or_precedes hi hj with heq | h | h
  · exact heq
  · exact absurd haddress h.lt.ne'
  · exact absurd haddress h.lt.ne

/-- **The line at an address is the one that begins there.** -/
theorem Listed.lineAt?_eq_some_iff (hl : l.Listed) :
    l.lineAt? address = some i ↔ l.StartsAt i address := by
  rw [lineAt?, List.findIdx?_eq_some_iff_getElem]
  simp only [decide_eq_true_eq]
  constructor
  · rintro ⟨hi, haddress, -⟩
    exact ⟨hi, haddress⟩
  · rintro ⟨hi, haddress⟩
    -- no line before it begins there, for that would be a second one
    refine ⟨hi, haddress, fun j hji hj => ?_⟩
    exact hji.ne (hl.unique ⟨hji.trans hi, hj⟩ ⟨hi, haddress⟩)

/-- No line begins inside another. -/
theorem Listed.not_startsAt_of_inside (hl : l.Listed) (hline : line ∈ l.lines)
    (hlow : line.address < address) (hhigh : address < line.address + line.size) (i : Nat) :
    ¬ l.StartsAt i address := by
  rintro ⟨hi, rfl⟩
  obtain ⟨j, hj, rfl⟩ := List.getElem_of_mem hline
  rcases hl.eq_or_precedes hi hj with rfl | h | h
  · exact Nat.lt_irrefl _ hlow
  · exact Nat.lt_asymm hlow h.lt
  · exact absurd hhigh (Nat.not_lt.2 h.stop_le)

/-- What is exact about the listing of an image. -/
structure Unambiguous (l : Loaded) : Prop where
  ascending : l.lines.Pairwise (·.address < ·.address)
  unique : ∀ address i j, l.StartsAt i address → l.StartsAt j address → i = j
  lineAt : ∀ address i, l.lineAt? address = some i ↔ l.StartsAt i address

theorem Listed.unambiguous (hl : l.Listed) : l.Unambiguous where
  ascending := hl.precedes.imp fun h => h.lt
  unique _ _ _ := hl.unique
  lineAt _ _ := hl.lineAt?_eq_some_iff

end Client.Loaded

/-! ### The instruction pointer -/

/-- The instruction pointer in a reply with registers. -/
def Wire.Reply.ip? (r : Reply) : Option UInt64 :=
  match r.payload with
  | .registers values _ => some (lastWritten .ip 0 values)
  | _ => none

/-- A reply with registers sets the instruction pointer, and no other reply does. -/
theorem Machine.Bank.ip_after {frame : List UInt8} {r : Reply} (h : Reply.parse frame = .ok r)
    (b : Bank) : (b.after r).ip = r.ip?.getD b.ip := by
  obtain ⟨o, payload⟩ := r
  cases payload with
  | error e => rfl
  | empty => rfl
  | registers values console =>
    obtain ⟨hnodup, hall, -⟩ := Reply.block_of_parse h rfl
    obtain ⟨⟨q, raw⟩, hmem, rfl : q = .ip⟩ := List.mem_map.1 (hall .ip)
    show ((b.apply values).get .ip).raw = lastWritten .ip 0 values
    rw [raw_apply, lastWritten_of_mem hnodup hmem, lastWritten_of_mem hnodup hmem]

namespace Client

variable {c : Client} {l : Loaded} {t : Step} {steps : List Step} {i : Nat}

/-- The instruction pointer that a step receives. -/
def Step.ip? : Step → Option UInt64
  | receive r => r.ip?
  | _ => none

/-- The instruction pointer in the last reply with registers, or zero if there was none. -/
def lastIp (steps : List Step) : UInt64 := (steps.filterMap Step.ip?).getLastD 0

theorem ip_apply (h : t.FromBytes) (c : Client) : (t.apply c).bank.ip = t.ip?.getD c.bank.ip := by
  cases t with
  | load l => exact congrArg Bank.ip (moves_load c l).bank
  | toggle address => rfl
  | close => exact congrArg Bank.ip (moves_close c).bank
  | print line => rfl
  | receive r =>
    obtain ⟨frame, hframe⟩ := h
    exact (congrArg Bank.ip (takes_receive c r).bank).trans (Bank.ip_after hframe c.bank)

/-- The instruction pointer after some steps is the last one that was received. -/
theorem ip_through (h : ∀ t ∈ steps, t.FromBytes) (c : Client) :
    (c.through steps).bank.ip = (steps.filterMap Step.ip?).getLastD c.bank.ip := by
  induction steps generalizing c with
  | nil => rfl
  | cons t steps ih =>
    obtain ⟨ht, hsteps⟩ := List.forall_mem_cons.1 h
    show ((t.apply c).through steps).bank.ip = _
    rw [ih hsteps, ip_apply ht]
    rcases hip : t.ip? with - | ip
    · rw [List.filterMap_cons_none hip]
      rfl
    · rw [List.filterMap_cons_some hip, List.getLastD_cons]
      rfl

/-! ### The current line -/

theorem currentLine?_eq_none_of_unloaded (h : c.loaded = none) : c.currentLine? = none := by
  rw [currentLine?, h]
  rfl

/-- The current line begins at the instruction pointer. -/
theorem currentLine?_eq_some_iff (hc : ∀ l, c.loaded = some l → l.Listed) :
    c.currentLine? = some i ↔ ∃ l, c.loaded = some l ∧ l.StartsAt i c.bank.ip.toNat := by
  rw [currentLine?, Option.bind_eq_some_iff]
  constructor
  · rintro ⟨l, hl, hi⟩
    exact ⟨l, hl, (hc l hl).lineAt?_eq_some_iff.1 hi⟩
  · rintro ⟨l, hl, hi⟩
    exact ⟨l, hl, (hc l hl).lineAt?_eq_some_iff.2 hi⟩

/-- Where no line begins, none is the current one. -/
theorem currentLine?_eq_none (hc : ∀ l, c.loaded = some l → l.Listed) (hl : c.loaded = some l)
    (h : ∀ i, ¬ l.StartsAt i c.bank.ip.toNat) : c.currentLine? = none := by
  rw [Option.eq_none_iff_forall_ne_some]
  intro i hi
  obtain ⟨l', hl', hstarts⟩ := (currentLine?_eq_some_iff hc).1 hi
  rw [hl] at hl'
  cases hl'
  exact h i hstarts

/-- What the current line is, after some steps of a new client. -/
structure Located (steps : List Step) : Prop where
  image : ∀ l, (new.through steps).loaded = some l → l.Unambiguous
  /-- The instruction pointer is the one in the registers that were shown last. -/
  shown : (((new.through steps).published.filterMap Event.registers?).getLastD .blank).ip =
    lastIp steps
  current : ∀ i, (new.through steps).currentLine? = some i ↔
    ∃ l, (new.through steps).loaded = some l ∧ l.StartsAt i (lastIp steps).toNat
  unloaded : (new.through steps).loaded = none → (new.through steps).currentLine? = none
  /-- The instruction pointer may be inside an instruction. -/
  inside : ∀ l, (new.through steps).loaded = some l → ∀ line ∈ l.lines,
    line.address < (lastIp steps).toNat → (lastIp steps).toNat < line.address + line.size →
      (new.through steps).currentLine? = none
  /-- It may be outside the section of code. -/
  outside : ∀ l, (new.through steps).loaded = some l → ∃ s, l.image.codeSection? = some s ∧
    ((lastIp steps).toNat < s.start.toNat ∨ s.start.toNat + s.size.toNat ≤ (lastIp steps).toNat →
      (new.through steps).currentLine? = none)

/-- **The current line is exact.**  After any steps in any order, no two lines of the loaded image
begin at one address, and the current line is the one that begins at the instruction pointer of the
last reply with registers.  Every list of operations is such a list of steps, whatever the server
answers. -/
theorem current_line_is_exact :
    (∀ steps : List Step, (∀ t ∈ steps, t.FromBytes) → Located steps) ∧
    ∀ (link : Link) (retryInterval : Nat) (turns : List Turn), ∃ steps : List Step,
      (∀ t ∈ steps, t.FromBytes) ∧
        ((Session.new link retryInterval).play turns).client = new.through steps := by
  refine ⟨fun steps h => ?located, fun link retryInterval turns =>
    Session.reaches_play (Session.new link retryInterval) turns⟩
  have hip : (new.through steps).bank.ip = lastIp steps := by
    rw [ip_through h, lastIp]
    rfl
  have hlisted (l : Loaded) (hl : (new.through steps).loaded = some l) : l.Listed := by
    obtain ⟨bytes, -, hlines⟩ := read_through h l hl
    exact Loaded.listed_of_disassemble hlines
  refine ⟨fun l hl => (hlisted l hl).unambiguous, ?shown, fun i => ?current,
    currentLine?_eq_none_of_unloaded, fun l hl line hline hlow hhigh => ?inside,
    fun l hl => ?outside⟩
  case shown =>
    have hmirrors : Mirrors (new.through steps) :=
      mirrors_of_follows (Leads.follows ⟨steps, rfl⟩)
    rw [hmirrors.bank, hip]
  case current =>
    rw [currentLine?_eq_some_iff hlisted, hip]
  case inside =>
    apply currentLine?_eq_none hlisted hl
    rw [hip]
    exact (hlisted l hl).not_startsAt_of_inside hline hlow hhigh
  case outside =>
    obtain ⟨s, hs, hinside⟩ := (hlisted l hl).inside
    refine ⟨s, hs, fun hout => currentLine?_eq_none hlisted hl ?_⟩
    rw [hip]
    rintro i ⟨hi, haddress⟩
    -- a line begins inside the part of the section that was listed
    obtain ⟨hlow, hhigh⟩ := hinside _ (List.getElem_mem hi)
    have hstop : s.stop ≤ s.start.toNat + s.size.toNat := Nat.min_le_left _ _
    omega

/-- Registers that come in before the image, with the instruction pointer at its second line. -/
theorem current_line_is_exact_loaded_later :
    let values := Register.all.map fun q => (q, if q = Register.ip then (123 : UInt64) else 0)
    let r : Reply := ⟨.nextInstruction, .registers values []⟩
    ∃ l, (∀ t ∈ [Step.receive r, .load l], t.FromBytes) ∧ Located [.receive r, .load l] ∧
      (new.through [.receive r, .load l]).currentLine? = some 1 := by
  intro values r
  have hlisting : (Loaded.ofBytes (Image.Draft.new.code [0x50, 0x50]).bytes).toOption.map
      Loaded.lines = some [⟨122, "exit ", 1⟩, ⟨123, "exit ", 1⟩] := by decide +kernel
  rcases hread : Loaded.ofBytes (Image.Draft.new.code [0x50, 0x50]).bytes with e | l <;>
    rw [hread] at hlisting
  · cases hlisting
  have hlines : l.lines = [⟨122, "exit ", 1⟩, ⟨123, "exit ", 1⟩] := Option.some.inj hlisting
  have hreply : Reply.parse (Reply.registerFrame 0xE1 [(0x01, 123)] []) = .ok r := by
    decide +kernel
  have hbytes : ∀ t ∈ [Step.receive r, .load l], t.FromBytes :=
    List.forall_mem_cons.2 ⟨⟨_, hreply⟩, List.forall_mem_singleton.2 ⟨_, hread⟩⟩
  have hlocated := current_line_is_exact.1 _ hbytes
  have hpointer : lastIp [.receive r, .load l] = 123 := by
    show lastWritten .ip 0 values = 123
    decide +kernel
  refine ⟨l, hbytes, hlocated, (hlocated.current 1).2 ⟨l, rfl, ?_⟩⟩
  rw [hpointer, Loaded.StartsAt, hlines]
  exact ⟨by decide, rfl⟩

end Client

end VmProbe
