/-
VmProbe/Proofs/Client/Run.lean

Runs of a client.

Two views of what can happen to a client, and how they fit together.  From the inside, a
client changes by five kinds of steps, each of which is taken whole (`Step`); a run is any list
of them, in any order (`Client.through`).  From the outside, a user asks for operations, and
the server answers each as it likes, or not at all (`Turn`, `Session.play`).

Main statement: every operation is a run of steps, whatever comes back for what it sends.  It
prints lines, receives replies that were read from bytes, and takes the steps that are its own
(`reaches_operate`).  So a property that such steps keep holds after any list of steps and after
any list of operations, and a proof of it never has to look at an exchange.
-/
import Mathlib
import VmProbe.Client.Session

namespace VmProbe

open Client
open Wire (Opcode Reply Request)

namespace Client

/-! ### Steps -/

/-- A step that changes a client. -/
inductive Step
  | load (l : Loaded)
  | toggle (address : UInt64)
  | close
  | print (line : String)
  | receive (r : Reply)

/-- The client after a step. -/
def Step.apply (c : Client) : Step → Client
  | load l => c.load l
  | toggle address => c.toggle address
  | close => c.close
  | print line => c.print line
  | receive r => c.receive r

/-- The client after some steps, the first one first. -/
def through (c : Client) (steps : List Step) : Client := steps.foldl Step.apply c

/-- `c.Leads c'`: some steps lead from `c` to `c'`. -/
def Leads (c c' : Client) : Prop := ∃ steps, c' = c.through steps

/-- The image that a step loads, or the reply that it receives, was read from bytes. -/
def Step.FromBytes : Step → Prop
  | load l => ∃ bytes, Loaded.ofBytes bytes = .ok l
  | receive r => ∃ frame, Reply.parse frame = .ok r
  | _ => True

/-- A step that any operation may take: it prints a line, or receives a reply. -/
def Step.Passive : Step → Prop
  | print _ => True
  | receive r => ∃ frame, Reply.parse frame = .ok r
  | _ => False

/-- `c.Reaches S c'`: some steps, each of which is in `S`, lead from `c` to `c'`. -/
def Reaches (S : Step → Prop) (c c' : Client) : Prop :=
  ∃ steps, (∀ t ∈ steps, S t) ∧ c' = c.through steps

variable {α β : Type} {c c' c'' : Client} {P : Client → Prop} {S S' : Step → Prop} {t : Step}

theorem through_append (c : Client) (steps steps' : List Step) :
    c.through (steps ++ steps') = (c.through steps).through steps' := List.foldl_append

/-- What each of the steps keeps is kept by all of them. -/
theorem through_keeps {steps : List Step} (hc : P c)
    (h : ∀ c, P c → ∀ t ∈ steps, P (t.apply c)) : P (c.through steps) :=
  List.foldlRecOn steps _ hc h

theorem Reaches.refl (c : Client) : c.Reaches S c := ⟨[], List.forall_mem_nil _, rfl⟩

theorem Reaches.trans (h : c.Reaches S c') (h' : c'.Reaches S c'') : c.Reaches S c'' := by
  obtain ⟨steps, hsteps, rfl⟩ := h
  obtain ⟨steps', hsteps', rfl⟩ := h'
  exact ⟨steps ++ steps', List.forall_mem_append.2 ⟨hsteps, hsteps'⟩,
    (through_append c steps steps').symm⟩

theorem Reaches.step (c : Client) (h : S t) : c.Reaches S (t.apply c) :=
  ⟨[t], List.forall_mem_singleton.2 h, rfl⟩

theorem Reaches.mono (hS : ∀ t, S t → S' t) (h : c.Reaches S c') : c.Reaches S' c' := by
  obtain ⟨steps, hsteps, hc'⟩ := h
  exact ⟨steps, fun t ht => hS t (hsteps t ht), hc'⟩

/-- What the steps keep is the same after them. -/
theorem Reaches.keeps {f : Client → α} (hS : ∀ c t, S t → f (t.apply c) = f c)
    (h : c.Reaches S c') : f c' = f c := by
  obtain ⟨steps, hsteps, rfl⟩ := h
  exact through_keeps (P := fun c' => f c' = f c) rfl
    fun c' hc' t ht => (hS c' t (hsteps t ht)).trans hc'

theorem Reaches.leads (h : c.Reaches S c') : c.Leads c' := by
  obtain ⟨steps, -, hc'⟩ := h
  exact ⟨steps, hc'⟩

/-- What every step keeps is kept by all that steps lead to. -/
theorem Leads.keeps (hstep : ∀ c t, P c → P (Step.apply c t)) (h : c.Leads c') (hc : P c) :
    P c' := by
  obtain ⟨steps, rfl⟩ := h
  exact through_keeps hc fun c hc t _ => hstep c t hc

/-! ### Dialogues -/

/-- `d.Always P`: the dialogue ends with a value for which `P` holds, whatever comes back for
what is asked. -/
def Dialogue.Always (P : α → Prop) : Dialogue α → Prop
  | .done a => P a
  | .ask _ next => ∀ x, (next x).Always P

theorem Dialogue.Always.over {P : α → Prop} {d : Dialogue α} (h : d.Always P) (l : Link) :
    P (d.over l).1 := by
  induction d generalizing l with
  | done a => exact h
  | ask frame next ih => exact ih _ (h _) _

theorem Dialogue.Always.map {P : α → Prop} {Q : β → Prop} {f : α → β} {d : Dialogue α}
    (h : d.Always P) (hf : ∀ a, P a → Q (f a)) : (d.map f).Always Q := by
  induction d with
  | done a => exact hf a h
  | ask frame next ih =>
    intro x
    exact ih x (h x)

theorem Dialogue.over_map (f : α → β) (d : Dialogue α) (l : Link) :
    (d.map f).over l = (f (d.over l).1, (d.over l).2) := by
  induction d generalizing l with
  | done a => rfl
  | ask frame next ih => exact ih _ _

/-- A request ends in one of three errors of its own, or in what is made of the bytes that come
back. -/
theorem always_send {r : Request} {P : Client.Result α → Prop}
    {next : List UInt8 → Client.Result α} (hprotocol : ∀ e, P (.error (.protocol e), c))
    (htransport : ∀ e, P (.error (.transport e), c)) (hcancelled : P (.error .cancelled, c))
    (hnext : ∀ bytes, P (next bytes)) : (c.send r next).Always P := by
  rw [send]
  rcases r.encode with e | frame
  · exact hprotocol e
  · intro x
    cases x with
    | reply bytes => exact hnext bytes
    | failure e => exact htransport e
    | interrupted => exact hcancelled

/-- What sending a request ends with, by what comes back. -/
def answered (c : Client) (next : List UInt8 → Client.Result α) : Exchange → Client.Result α
  | .reply bytes => next bytes
  | .failure e => (.error (.transport e), c)
  | .interrupted => (.error .cancelled, c)

/-- A request without a body is sent as its header. -/
theorem over_send {r : Request} (h : r.body = .ok []) (c : Client)
    (next : List UInt8 → Client.Result α) (l : Link) :
    (c.send r next).over l =
      (c.answered next (l.exchange (Request.header r.opcode)).1,
        (l.exchange (Request.header r.opcode)).2) := by
  have hencode : r.encode = .ok (Request.header r.opcode) := by
    rw [Request.encode, h]
    exact congrArg Except.ok (List.append_nil _)
  rw [send, hencode]
  dsimp only [Dialogue.over]
  obtain ⟨x, l'⟩ := l.exchange (Request.header r.opcode)
  cases x with
  | reply bytes => rfl
  | failure e => rfl
  | interrupted => rfl

end Client

/-! ### Operations -/

/-- What a user asks of a session. -/
inductive Operation
  | loadImage (bytes : List UInt8)
  | openSession
  | closeSession
  | run (file : List UInt8)
  | runLoaded
  | step
  | resume
  | stop
  | refresh
  | toggleBreakpoint (address : UInt64)
  deriving DecidableEq

namespace Client

variable {α : Type} {c c' : Client} {S : Step → Prop} {t : Step} {o : Operation}

/-- `t.Of o`: the operation may take the step, as any may, or it is the one that takes it. -/
def Step.Of (o : Operation) : Step → Prop
  | load l => ∃ bytes, o = .loadImage bytes ∧ Loaded.ofBytes bytes = .ok l
  | toggle address => o = .toggleBreakpoint address
  | close => o = .closeSession
  | print _ => True
  | receive r => ∃ frame, Reply.parse frame = .ok r

theorem Step.Passive.of (o : Operation) (t : Step) (h : t.Passive) : t.Of o := by
  cases t with
  | print line => trivial
  | receive r => exact h
  | _ => cases h

theorem Step.Of.fromBytes (t : Step) (h : t.Of o) : t.FromBytes := by
  cases t with
  | load l =>
    obtain ⟨bytes, -, hl⟩ := h
    exact ⟨bytes, hl⟩
  | receive r => exact h
  | _ => trivial

theorem reaches_print (c : Client) (line : String) : c.Reaches Step.Passive (c.print line) :=
  .step c (t := .print line) trivial

theorem reaches_reported (r : Client.Result α) : r.2.Reaches Step.Passive (reported r).2 := by
  obtain ⟨e | a, c⟩ := r
  · cases e with
    | server e => exact .refl c
    | _ => exact reaches_print c _
  · exact .refl c

theorem reaches_accept (c : Client) (frame : List UInt8) :
    c.Reaches Step.Passive (c.accept frame).2 := by
  rw [accept]
  rcases hr : Reply.parse frame with e | r
  · exact .refl c
  · exact .step c (t := .receive r) ⟨frame, hr⟩

/-- Sending changes nothing here; what comes back is left to `next`. -/
theorem reaches_send {r : Request} {next : List UInt8 → Client.Result α}
    (hc : c'.Reaches S c) (h : ∀ bytes, c'.Reaches S (next bytes).2) :
    (c.send r next).Always fun x => c'.Reaches S x.2 :=
  always_send (fun _ => hc) (fun _ => hc) hc h

theorem reaches_request (c : Client) (r : Request) :
    (c.request r).Always fun x => c.Reaches Step.Passive x.2 := by
  have h : (c.attempt r).Always fun x => c.Reaches Step.Passive x.2 :=
    reaches_send (.refl c) (reaches_accept c)
  exact h.map fun x hx => hx.trans (reaches_reported (acknowledged x))

theorem reaches_runLoaded (c : Client) :
    c.runLoaded.Always fun x => c.Reaches Step.Passive x.2 := by
  rw [runLoaded]
  rcases c.loaded with - | l
  · exact reaches_print c _
  · exact reaches_request c (.run l.image.bytes)

theorem reaches_openAttempt (c : Client) :
    c.openAttempt.Always fun x => c.Reaches Step.Passive x.2 := by
  have h := reaches_print c "Trying to open debug session..."
  rw [openAttempt, attempt]
  exact reaches_send h fun frame => h.trans (reaches_accept _ frame)

/-- A toggle is made first, and the server is told afterwards. -/
theorem reaches_toggleBreakpoint (c : Client) (address : UInt64) :
    (c.toggleBreakpoint address).Always fun x => (c.toggle address).Reaches Step.Passive x.2 := by
  rw [toggleBreakpoint]
  exact (reaches_request (c.toggle address) _).map fun _ hx => hx

theorem reaches_closeSession (c : Client) :
    c.closeSession.Always fun x => c.Reaches (Step.Of .closeSession) x.2 := by
  rw [closeSession]
  split_ifs with h
  · exact .refl c
  · have hclose : c.Reaches (Step.Of .closeSession) c.close := .step c (t := .close) rfl
    have hsend := reaches_send (r := .closeSession) (.refl c) fun frame =>
      hclose.trans ((reaches_accept c.close frame).mono (Step.Passive.of _))
    exact hsend.map fun x hx =>
      hx.trans ((reaches_reported (acknowledged x)).mono (Step.Passive.of _))

theorem reaches_loadImage (c : Client) (bytes : List UInt8) :
    c.Reaches (Step.Of (.loadImage bytes)) (c.loadImage bytes).2 := by
  rw [loadImage]
  rcases hl : Loaded.ofBytes bytes with e | l
  · exact (reaches_reported ((.error e, c) : Client.Result Unit)).mono (Step.Passive.of _)
  · exact .step c (t := .load l) ⟨bytes, rfl, hl⟩

end Client

/-! ### Turns -/

/-- An operation, with what the world makes of it: the answers that the server has in store,
what comes back once they are used up, and when the user will have cancelled. -/
structure Turn where
  operation : Operation
  script : List Exchange
  afterwards : List UInt8 → Exchange
  cancelAt : Option Nat

namespace Session

/-- The session after an operation. -/
def operate (s : Session) : Operation → Session
  | .loadImage bytes => { s with client := (s.client.loadImage bytes).2 }
  | .openSession => s.openSession.2
  | .closeSession => (s.perform closeSession).2
  | .run file => (s.perform fun c => c.run file).2
  | .runLoaded => (s.perform runLoaded).2
  | .step => (s.perform step).2
  | .resume => (s.perform resume).2
  | .stop => (s.perform stop).2
  | .refresh => (s.perform refresh).2
  | .toggleBreakpoint address => (s.perform fun c => c.toggleBreakpoint address).2

/-- The session after a turn. -/
def turn (s : Session) (t : Turn) : Session :=
  operate { s with
    link := { s.link with script := t.script, afterwards := t.afterwards }
    cancelAt := t.cancelAt } t.operation

/-- The session after some turns, the first one first. -/
def play (s : Session) (turns : List Turn) : Session := turns.foldl turn s

/-- What comes back when a request without a body is sent now. -/
def answer (s : Session) (o : Opcode) : Exchange := (s.link.exchange (Request.header o)).1

variable {α : Type} {s : Session}

/-- Shutting a session down is a turn, in which it is closed and cancelled by then. -/
theorem shutdown_eq_turn (s : Session) :
    s.shutdown.2 =
      s.turn ⟨.closeSession, s.link.script, s.link.afterwards, s.cancel.cancelAt⟩ := by
  rw [shutdown, cancel]
  split_ifs
  · rfl
  · rfl

theorem reaches_perform {S : Step → Prop} {operation : Client → Dialogue (Client.Result α)}
    (h : (operation s.client).Always fun x => s.client.Reaches S x.2) :
    s.client.Reaches S (s.perform operation).2.client :=
  h.over s.link

theorem reaches_openFrom (attempts : Nat) (s : Session) :
    s.client.Reaches Step.Passive (openFrom attempts s).2.client := by
  induction attempts generalizing s with
  | zero =>
    rw [openFrom, cancel]
    split_ifs
    · exact .refl _
    · exact .refl _
  | succ attempts ih =>
    have hone := reaches_perform (reaches_openAttempt s.client)
    rw [openFrom]
    split_ifs
    · exact .refl _
    · split
      · next s' hs => rwa [hs] at hone
      · next s' hs => rwa [hs] at hone
      · next r s' _ _ hs =>
        -- rejected, and so far a run; the other attempts begin after the wait
        rw [hs] at hone
        exact hone.trans (ih s'.wait)

theorem reaches_openSession (s : Session) :
    s.client.Reaches Step.Passive s.openSession.2.client := by
  rw [openSession]
  split_ifs
  · exact reaches_openFrom _ s
  · exact .refl _

/-- **Every operation is a run of steps,** its own and those that any may take. -/
theorem reaches_operate (s : Session) (o : Operation) :
    s.client.Reaches (Step.Of o) (s.operate o).client := by
  have hpassive {c : Client} (h : s.client.Reaches Step.Passive c) :
      s.client.Reaches (Step.Of o) c := h.mono (Step.Passive.of o)
  cases o with
  | loadImage bytes => exact reaches_loadImage s.client bytes
  | openSession => exact hpassive (reaches_openSession s)
  | closeSession => exact reaches_perform (reaches_closeSession s.client)
  | run file => exact hpassive (reaches_perform (reaches_request s.client _))
  | runLoaded => exact hpassive (reaches_perform (reaches_runLoaded s.client))
  | step => exact hpassive (reaches_perform (reaches_request s.client _))
  | resume => exact hpassive (reaches_perform (reaches_request s.client _))
  | stop => exact hpassive (reaches_perform (reaches_request s.client _))
  | refresh => exact hpassive (reaches_perform (reaches_request s.client _))
  | toggleBreakpoint address =>
    have htoggle : s.client.Reaches (Step.Of (.toggleBreakpoint address))
        (s.client.toggle address) := .step s.client (t := .toggle address) rfl
    have hrest := (reaches_toggleBreakpoint s.client address).over s.link
    exact htoggle.trans (hrest.mono (Step.Passive.of _))

/-- Any turns are a run of steps. -/
theorem reaches_play (s : Session) (turns : List Turn) :
    s.client.Reaches Step.FromBytes (s.play turns).client := by
  induction turns generalizing s with
  | nil => exact .refl _
  | cons t turns ih =>
    have hturn : s.client.Reaches (Step.Of t.operation) (s.turn t).client :=
      reaches_operate _ t.operation
    exact (hturn.mono Step.Of.fromBytes).trans (ih (s.turn t))

theorem leads_play (s : Session) (turns : List Turn) : s.client.Leads (s.play turns).client :=
  (reaches_play s turns).leads

end Session

end VmProbe
