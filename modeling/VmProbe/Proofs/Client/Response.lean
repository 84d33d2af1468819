/-
VmProbe/Proofs/Client/Response.lean

What replies do to a client.

A reply acts on each part of a client by itself: the phase moves by `Phase.after`, the
registers by `Bank.after`, and the breakpoints and the image stay.  `c.Takes rs c'` says that
`c'` is `c` with the replies `rs` taken, as far as these four parts go; printing does not count.
It composes, so an operation is described by the replies that it takes.

Every reply that is read from a frame is consistent, so its opcode alone decides what happens
to a closed session.
-/
import VmProbe.Proofs.Client.Run
import VmProbe.Proofs.Machine.Bank
import VmProbe.Proofs.Wire.Reply

namespace VmProbe

open Client
open Wire (Opcode Reply ServerError)

/-- Whether a reply with this opcode moves a closed client to another phase. -/
def Wire.Opcode.reopens : Opcode → Bool
  | openSession => true
  | run => true
  | resume => true
  | _ => false

/-- What moves a closed client on opens a session or carries registers. -/
theorem Wire.Opcode.reopens_eq_false {o : Opcode} (ho : o ≠ .openSession)
    (hcarries : o.carriesRegisters = false) : o.reopens = false := by
  cases o with
  | openSession => exact absurd rfl ho
  | run => cases hcarries
  | resume => cases hcarries
  | _ => rfl

/-! ### The parts of a client -/

namespace Client

/-- The phase once the program no longer runs. -/
def Phase.halted : Phase → Phase
  | running => fileLoaded
  | p => p

theorem Phase.halted_of_ne {p : Phase} (h : p ≠ running) : p.halted = p := by
  cases p with
  | running => exact absurd rfl h
  | _ => rfl

/-- The phase of a new session; `hasImage` says whether an image is loaded. -/
def Phase.entry (hasImage : Bool) : Phase := if hasImage then fileLoaded else opened

/-- The phase after a reply that is not an error. -/
def Phase.acknowledged (hasImage : Bool) (p : Phase) : Opcode → Phase
  | .openSession => if p = closed then entry hasImage else p
  | .closeSession => closed
  | .run => running
  | .resume => running
  | .stop => p.halted
  | .executionFinished => p.halted
  | _ => p

/-- The phase after an error. -/
def Phase.refused (p : Phase) : ServerError → Phase
  | .fault _ => p.halted
  | _ => p

/-- The phase after a reply. -/
def Phase.after (hasImage : Bool) (p : Phase) (r : Reply) : Phase :=
  match r.payload with
  | .error e => p.refused e
  | _ => p.acknowledged hasImage r.opcode

end Client

/-- The registers after a reply. -/
def Machine.Bank.after (b : Machine.Bank) (r : Reply) : Machine.Bank :=
  match r.payload with
  | .registers values _ => b.apply values
  | _ => b

namespace Client

variable {c c' c'' : Client} {rs rs' : List Reply} {r : Reply}

/-- `c.Takes rs c'`: `c'` is `c` after some replies, apart from the console and the events. -/
structure Takes (c : Client) (rs : List Reply) (c' : Client) : Prop where
  phase : c'.phase = rs.foldl (Phase.after c.loaded.isSome) c.phase
  bank : c'.bank = rs.foldl Machine.Bank.after c.bank
  breakpoints : c'.breakpoints = c.breakpoints
  loaded : c'.loaded = c.loaded

theorem Takes.refl (c : Client) : c.Takes [] c := ⟨rfl, rfl, rfl, rfl⟩

theorem Takes.trans (h : c.Takes rs c') (h' : c'.Takes rs' c'') : c.Takes (rs ++ rs') c'' where
  phase := by rw [h'.phase, h.phase, h.loaded, List.foldl_append]
  bank := by rw [h'.bank, h.bank, List.foldl_append]
  breakpoints := h'.breakpoints.trans h.breakpoints
  loaded := h'.loaded.trans h.loaded

theorem takes_print (c : Client) (line : String) : c.Takes [] (c.print line) :=
  ⟨rfl, rfl, rfl, rfl⟩

theorem takes_report (c : Client) (e : Error) : c.Takes [] (c.report e) := by
  cases e with
  | server e => exact .refl c
  | _ => exact takes_print c _

/-! ### One reply -/

/-- `c.Moves p c'`: `c'` is `c` in the phase `p`, apart from the console and the events. -/
structure Moves (c : Client) (p : Phase) (c' : Client) : Prop where
  phase : c'.phase = p
  bank : c'.bank = c.bank
  breakpoints : c'.breakpoints = c.breakpoints
  loaded : c'.loaded = c.loaded

variable {p q : Phase}

theorem Moves.refl (c : Client) : c.Moves c.phase c := ⟨rfl, rfl, rfl, rfl⟩

theorem Moves.trans (h : c.Moves p c') (h' : c'.Moves q c'') : c.Moves q c'' where
  phase := h'.phase
  bank := h'.bank.trans h.bank
  breakpoints := h'.breakpoints.trans h.breakpoints
  loaded := h'.loaded.trans h.loaded

theorem moves_print (c : Client) (line : String) : c.Moves c.phase (c.print line) :=
  ⟨rfl, rfl, rfl, rfl⟩

theorem Moves.print (h : c.Moves p c') (line : String) : c.Moves p (c'.print line) := by
  have hp := h.trans (moves_print c' line)
  rwa [h.phase] at hp

theorem moves_enter (c : Client) (p : Phase) : c.Moves p (c.enter p) := by
  rw [enter]
  split_ifs with h
  · subst h
    exact .refl c
  · exact ⟨rfl, rfl, rfl, rfl⟩

theorem moves_finish (c : Client) : c.Moves c.phase.halted c.finish := by
  rw [finish]
  split_ifs with h
  · rw [h]
    exact moves_enter c .fileLoaded
  · rw [Phase.halted_of_ne h]
    exact .refl c

theorem moves_close (c : Client) : c.Moves .closed c.close := by
  rw [close]
  split_ifs with h
  · rw [← h]
    exact .refl c
  · exact (moves_enter c .closed).print _

/-- The image is taken and announced first, and may then move the session on. -/
theorem moves_load (c : Client) (l : Loaded) :
    ({ c with loaded := some l }).Moves
      (if c.phase = Phase.opened then Phase.fileLoaded else c.phase) (c.load l) := by
  let taken := { c with loaded := some l }.publish (.loaded l.image.entry l.lines.length)
  have htaken : ({ c with loaded := some l }).Moves c.phase taken := ⟨rfl, rfl, rfl, rfl⟩
  show ({ c with loaded := some l }).Moves _
    (if c.phase = Phase.opened then taken.enter .fileLoaded else taken)
  by_cases h : c.phase = Phase.opened
  · rw [if_pos h, if_pos h]
    exact htaken.trans (moves_enter taken .fileLoaded)
  · rw [if_neg h, if_neg h]
    exact htaken

theorem moves_refuse (c : Client) (e : ServerError) : c.Moves (c.phase.refused e) (c.refuse e) := by
  cases e with
  | fault kind => exact (moves_print c _).trans (moves_finish _)
  | _ => exact moves_print c _

theorem moves_acknowledge (c : Client) (o : Opcode) :
    c.Moves (c.phase.acknowledged c.loaded.isSome o) (c.acknowledge o) := by
  cases o with
  | openSession =>
    refine Moves.print ?_ _
    show c.Moves (if c.phase = .closed then Phase.entry c.loaded.isSome else c.phase) _
    by_cases h : c.phase = .closed
    · rw [if_pos h, if_pos h]
      exact moves_enter c _
    · rw [if_neg h, if_neg h]
      exact .refl c
  | closeSession => exact moves_close c
  | run => exact moves_enter c .running
  | resume => exact moves_enter c .running
  | stop => exact moves_finish c
  | executionFinished => exact (moves_finish c).print _
  | _ => exact .refl c

/-- An update changes the registers and nothing else. -/
theorem update_frame (c : Client) (values : List (Machine.Register × UInt64))
    (console : List UInt8) :
    ({ c with bank := c.bank.apply values }).Moves c.phase (c.update values console) := by
  rw [update]
  split_ifs
  · exact ⟨rfl, rfl, rfl, rfl⟩
  · exact ⟨rfl, rfl, rfl, rfl⟩

/-- **What a reply does.** -/
theorem takes_receive (c : Client) (r : Reply) : c.Takes [r] (c.receive r) := by
  obtain ⟨o, p⟩ := r
  cases p with
  | empty =>
    have h := moves_acknowledge c o
    exact ⟨h.phase, h.bank, h.breakpoints, h.loaded⟩
  | registers values console =>
    -- the registers are taken first, and what follows leaves them alone
    have hu := update_frame c values console
    have h := hu.trans (moves_acknowledge _ o)
    rw [hu.phase, hu.loaded] at h
    exact ⟨h.phase, h.bank, h.breakpoints, h.loaded⟩
  | error e =>
    have h := moves_refuse c e
    exact ⟨h.phase, h.bank, h.breakpoints, h.loaded⟩

/-! ### Frames -/

/-- The reply in an answer, if it is a frame that holds one. -/
def Exchange.reply? : Exchange → Option Reply
  | reply frame => (Reply.parse frame).toOption
  | _ => none

theorem Exchange.consistent_of_reply? {x : Exchange} (h : x.reply? = some r) : r.Consistent := by
  cases x with
  | reply frame =>
    rcases hr : Reply.parse frame with e | r' <;> rw [reply?, hr] at h
    · cases h
    · obtain rfl := Option.some.inj h
      exact Reply.consistent_of_parse hr
  | _ => cases h

/-- A frame that holds no reply changes nothing. -/
theorem takes_accept (c : Client) (frame : List UInt8) :
    c.Takes (Exchange.reply frame).reply?.toList (c.accept frame).2 := by
  show c.Takes (Reply.parse frame).toOption.toList _
  rw [accept]
  rcases Reply.parse frame with e | r
  · exact .refl c
  · exact takes_receive c r

theorem takes_reported {α : Type} {x : Client.Result α} (h : c.Takes rs x.2) :
    c.Takes rs (reported x).2 := by
  obtain ⟨e | a, c'⟩ := x
  · have hr := h.trans (takes_report c' e)
    rwa [List.append_nil] at hr
  · exact h

/-! ### Closed clients -/

/-- A reply moves a closed client on if and only if its opcode does. -/
theorem Phase.after_closed_iff {r : Reply} (h : r.Consistent) (hasImage : Bool) :
    closed.after hasImage r = closed ↔ r.opcode.reopens = false := by
  obtain ⟨o, p⟩ := r
  have hentry : entry hasImage ≠ closed := by cases hasImage <;> decide
  cases p with
  | error e =>
    obtain rfl : o = .error := h.error.2 ⟨e, rfl⟩
    cases e <;> exact ⟨fun _ => rfl, fun _ => rfl⟩
  | _ => cases o <;> simp [after, acknowledged, halted, Opcode.reopens, hentry]

/-- Replies that are rejected and carry no registers leave a client closed. -/
theorem foldl_after_eq_closed (hasImage : Bool)
    (hrs : ∀ r ∈ rs, r.opcode ≠ .openSession ∧ r.Consistent)
    (hcarries : ∀ r ∈ rs, r.opcode.carriesRegisters = false) :
    rs.foldl (Phase.after hasImage) .closed = .closed := by
  refine List.foldlRecOn (motive := (· = Phase.closed)) rs _ rfl ?_
  intro p hp r hr
  obtain ⟨hopen, hcons⟩ := hrs r hr
  subst hp
  exact (Phase.after_closed_iff hcons hasImage).2
    (Opcode.reopens_eq_false hopen (hcarries r hr))

/-- The phase after the reply that opens the session. -/
theorem Phase.after_of_openSession {r : Reply} (h : r.Consistent) (ho : r.opcode = .openSession)
    (hasImage : Bool) (p : Phase) :
    p.after hasImage r = if p = closed then entry hasImage else p := by
  obtain ⟨o, payload⟩ := r
  subst ho
  cases payload with
  | error e => cases h.error.2 ⟨e, rfl⟩
  | _ => rfl

end Client

/-! ### Registers -/

namespace Machine.Bank

variable {b b' : Bank} {r : Reply} {rs : List Reply}

/-- A reply without registers leaves them alone. -/
theorem after_of_carries_eq_false (h : r.Consistent) (hr : r.opcode.carriesRegisters = false)
    (b : Bank) : b.after r = b := by
  obtain ⟨o, p⟩ := r
  cases p with
  | registers values console =>
    have hcarries := h.registers.2 ⟨values, console, rfl⟩
    cases hr.symm.trans hcarries
  | _ => rfl

/-- After replies of which one carries registers, nothing is left of the bits before them. -/
theorem raw_foldl_after_congr (hrs : ∀ r ∈ rs, r.Consistent) {q : Register}
    (h : (b.get q).raw = (b'.get q).raw ∨ ∃ r ∈ rs, r.opcode.carriesRegisters = true) :
    ((rs.foldl after b).get q).raw = ((rs.foldl after b').get q).raw := by
  induction rs generalizing b b' with
  | nil =>
    refine h.resolve_right ?_
    rintro ⟨r, hr, -⟩
    exact List.not_mem_nil hr
  | cons r rs ih =>
    have hcons := hrs r List.mem_cons_self
    apply ih (fun r' hr' => hrs r' (List.mem_cons_of_mem _ hr'))
    cases hr : r.opcode.carriesRegisters with
    | true =>
      -- a block names every register, so from here on the banks agree
      left
      obtain ⟨values, console, hpayload⟩ := hcons.registers.1 hr
      have hafter (b : Bank) : b.after r = b.apply values := by rw [after, hpayload]
      rw [hafter, hafter]
      exact raw_apply_congr (.inr (hcons.complete hpayload q))
    | false =>
      rw [after_of_carries_eq_false hcons hr, after_of_carries_eq_false hcons hr]
      refine h.imp_right ?_
      rintro ⟨r', hr', hcarries⟩
      rcases List.mem_cons.1 hr' with rfl | hmem
      · cases hr.symm.trans hcarries
      · exact ⟨r', hmem, hcarries⟩

/-- Some bank is not what it was, after replies of which one carries registers. -/
theorem exists_foldl_after_ne (hrs : ∀ r ∈ rs, r.Consistent)
    (h : ∃ r ∈ rs, r.opcode.carriesRegisters = true) : ∃ b : Bank, rs.foldl after b ≠ b := by
  have hraw (b b' : Bank) : ((rs.foldl after b).get .ip).raw = ((rs.foldl after b').get .ip).raw :=
    raw_foldl_after_congr hrs (.inr h)
  -- a bank whose `ip` holds something else than what the replies leave there
  refine ⟨blank.write (.ip, ((rs.foldl after blank).get .ip).raw + 1), fun heq => ?_⟩
  have hip := congrArg (fun b => (b.get .ip).raw) heq
  rw [hraw _ blank, raw_write_self] at hip
  have hone : (1 : UInt64) = 0 := left_eq_add.1 hip
  cases hone

end Machine.Bank

end VmProbe
