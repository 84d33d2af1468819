/-
VmProbe/Proofs/Client/Failing.lean

Operations that fail.

An operation may fail before anything is sent, on the way, on a frame that holds no reply, or
on a reply that is an error.  The first three leave the client alone until the error is reported
at the end; the last one is printed when the reply is applied, and not reported again.  So there
is one line for each error (`Error.line`), and nothing else changes, but for what a fault does
to the phase and a toggle to the breakpoints.

`c.Reports e c'` says this of a request.  Main statement: it holds for every operation that
fails, other than opening and closing a session, whatever came back (`operate_fails`).
-/
import VmProbe.Proofs.Client.Breakpoints
import VmProbe.Proofs.Client.Mirror
import VmProbe.Proofs.Client.Response

namespace VmProbe

open Client
open Wire (Opcode Reply Request ServerError)

namespace Client

variable {α : Type} {c c' : Client} {e : Error} {x : Client.Result α}

/-! ### Reports -/

/-- The line for an error. -/
def Error.line : Error → String
  | .server (.fault kind) => "RUNTIME ERROR: " ++ kind.name
  | .server e => "Response error: " ++ e.message
  | e => e.message

/-- Whether the server sent the error. -/
def Error.isServer : Error → Bool
  | .server _ => true
  | _ => false

/-- The phase after an operation that failed: a fault ends the run. -/
def Phase.failed (p : Phase) : Error → Phase
  | .server (.fault _) => p.halted
  | _ => p

/-- Whether an event adds to the console. -/
def Event.prints : Event → Bool
  | .status _ => true
  | .output _ => true
  | _ => false

/-- `c.Reports e c'`: the line for the error was added to `c`, and nothing else was done, except
that a fault ends the run. -/
structure Reports (c : Client) (e : Error) (c' : Client) : Prop extends
    Moves c (c.phase.failed e) c' where
  console : c'.console = freshLine c.console ++ e.line ++ "\n"
  published : ∃ es, c'.published = c.published ++ es ∧ es.filter Event.prints = [.status e.line]

/-- An error that no server sent is reported on a line of its own. -/
theorem reports_report (c : Client) (h : e.isServer = false) : c.Reports e (c.report e) := by
  cases e with
  | server e' => cases h
  | _ => exact ⟨moves_print c _, appendStatus_eq _ _, [.status _], rfl, rfl⟩

/-- A reply that is an error is reported as it is applied. -/
theorem reports_refuse (c : Client) (e : ServerError) : c.Reports (.server e) (c.refuse e) := by
  have hmoves := moves_refuse c e
  cases e with
  | fault kind =>
    let line := "RUNTIME ERROR: " ++ kind.name
    show c.Reports _ (c.print line).finish
    refine ⟨hmoves, ?_, ?_⟩
    · rw [← appendStatus_eq, finish, enter]
      split_ifs <;> rfl
    · rw [finish, enter]
      split_ifs
      · exact ⟨[.status line], rfl, rfl⟩
      · exact ⟨[.status line, .phase .fileLoaded], List.append_assoc _ _ _, rfl⟩
      · exact ⟨[.status line], rfl, rfl⟩
  | _ => exact ⟨hmoves, appendStatus_eq _ _, [.status _], rfl, rfl⟩

/-! ### Results -/

/-- An error in the result is reported in the client. -/
def Reported (c : Client) (x : Client.Result α) : Prop := ∀ e, x.1 = .error e → c.Reports e x.2

/-- An error in the result is still to be reported, unless the server sent it. -/
def Unreported (c : Client) (x : Client.Result α) : Prop :=
  ∀ e, x.1 = .error e → c.Reports e (x.2.report e)

theorem Unreported.reported (h : c.Unreported x) : c.Reported (reported x) := by
  obtain ⟨e' | a, c'⟩ := x
  · intro e he
    obtain rfl := Except.error.inj he
    exact h e' rfl
  · rintro _ ⟨⟩

theorem Unreported.acknowledged (h : c.Unreported x) : c.Unreported (acknowledged x) := by
  obtain ⟨e' | a, c'⟩ := x
  · intro e he
    obtain rfl := Except.error.inj he
    exact h e' rfl
  · rintro _ ⟨⟩

/-- Nothing was done yet. -/
theorem unreported_error (c : Client) (h : e.isServer = false) :
    c.Unreported ((.error e, c) : Client.Result α) := by
  intro e' he
  obtain rfl := Except.error.inj he
  exact reports_report c h

theorem reported_error (c : Client) (h : e.isServer = false) :
    c.Reported (reported ((.error e, c) : Client.Result α)) :=
  (unreported_error c h).reported

theorem unreported_accept (c : Client) (frame : List UInt8) : c.Unreported (c.accept frame) := by
  rw [accept]
  rcases Reply.parse frame with e | ⟨o, p⟩
  · exact unreported_error c rfl
  · cases p with
    | error e =>
      intro e' he
      obtain rfl := Except.error.inj he
      exact reports_refuse c e
    | _ => rintro _ ⟨⟩

/-! ### Operations -/

theorem unreported_attempt (c : Client) (r : Request) :
    (c.attempt r).Always fun x => c.Unreported x :=
  always_send (fun _ => unreported_error c rfl) (fun _ => unreported_error c rfl)
    (unreported_error c rfl) (unreported_accept c)

theorem reported_request (c : Client) (r : Request) :
    (c.request r).Always fun x => c.Reported x :=
  (unreported_attempt c r).map fun _ hx => hx.acknowledged.reported

theorem reported_runLoaded (c : Client) : c.runLoaded.Always fun x => c.Reported x := by
  rw [runLoaded]
  rcases c.loaded with - | l
  · exact reported_error c rfl
  · exact reported_request c (.run l.image.bytes)

theorem reported_toggleBreakpoint (c : Client) (a : UInt64) :
    (c.toggleBreakpoint a).Always fun x => (c.toggle a).Reported x := by
  rw [toggleBreakpoint]
  refine (reported_request (c.toggle a) _).map fun x hx e he => ?_
  obtain ⟨e' | u, c'⟩ := x
  · obtain rfl := Except.error.inj he
    exact hx e' rfl
  · cases he

theorem reported_loadImage (c : Client) (bytes : List UInt8) : c.Reported (c.loadImage bytes) := by
  rw [loadImage, Loaded.ofBytes]
  rcases Image.parse bytes with e | i
  · exact reported_error c rfl
  · dsimp only
    rcases i.disassemble with e | lines
    · exact reported_error c rfl
    · rintro _ ⟨⟩

/-- `c.Fails o e c'`: the operation has failed with the error, and `c'` is `c` with its line on
the console.  A toggle changes the breakpoint at its address, and a fault ends the run. -/
structure Fails (c : Client) (o : Operation) (e : Error) (c' : Client) : Prop where
  phase : c'.phase = c.phase.failed e
  bank : c'.bank = c.bank
  loaded : c'.loaded = c.loaded
  breakpoints : ∀ a, o ≠ .toggleBreakpoint a → (a ∈ c'.breakpoints ↔ a ∈ c.breakpoints)
  toggled : ∀ a, o = .toggleBreakpoint a → (a ∈ c'.breakpoints ↔ a ∉ c.breakpoints)
  console : c'.console = freshLine c.console ++ e.line ++ "\n"
  published : ∃ es, c'.published = c.published ++ es ∧ es.filter Event.prints = [.status e.line]

theorem Reports.fails {o : Operation} (h : c.Reports e c') (ho : ∀ a, o ≠ .toggleBreakpoint a) :
    c.Fails o e c' where
  phase := h.phase
  bank := h.bank
  loaded := h.loaded
  breakpoints a _ := by rw [h.breakpoints]
  toggled a h := absurd h (ho a)
  console := h.console
  published := h.published

/-- The breakpoint was toggled before the request was made. -/
theorem Reports.fails_toggle {a : UInt64} (h : (c.toggle a).Reports e c') :
    c.Fails (.toggleBreakpoint a) e c' where
  phase := h.phase
  bank := h.bank
  loaded := h.loaded
  breakpoints b hb := by
    rw [h.breakpoints]
    exact Breakpoints.mem_toggle_of_ne fun hba => hb (congrArg _ hba.symm)
  toggled b hb := by
    obtain rfl := Operation.toggleBreakpoint.inj hb
    rw [h.breakpoints]
    exact Breakpoints.mem_toggle_self
  console := h.console
  published := by
    obtain ⟨es, hpub, hes⟩ := h.published
    refine ⟨.breakpoints (c.breakpoints.toggle a).addresses :: es, ?_, hes⟩
    rw [hpub]
    exact List.append_assoc _ _ _

end Client

namespace Session

/-- What an operation answers, apart from a value. -/
def result (s : Session) : Operation → Except Client.Error Unit
  | .loadImage bytes => (s.client.loadImage bytes).1
  | .openSession => s.openSession.1
  | .closeSession => (s.perform closeSession).1
  | .run file => (s.perform fun c => c.run file).1
  | .runLoaded => (s.perform runLoaded).1
  | .step => (s.perform step).1
  | .resume => (s.perform resume).1
  | .stop => (s.perform stop).1
  | .refresh => (s.perform refresh).1
  | .toggleBreakpoint a => (s.perform fun c => c.toggleBreakpoint a).1.map fun _ => ()

/-- An operation that toggles no breakpoint. -/
theorem reports_operate (s : Session) {o : Operation} {e : Client.Error}
    (hopen : o ≠ .openSession) (hclose : o ≠ .closeSession)
    (htoggle : ∀ a, o ≠ .toggleBreakpoint a) (h : s.result o = .error e) :
    s.client.Reports e (s.operate o).client := by
  have hrequest (r : Request) (h : (s.perform fun c => c.request r).1 = .error e) :
      s.client.Reports e (s.perform fun c => c.request r).2.client :=
    (reported_request s.client r).over s.link e h
  cases o with
  | openSession => exact absurd rfl hopen
  | closeSession => exact absurd rfl hclose
  | toggleBreakpoint a => exact absurd rfl (htoggle a)
  | loadImage bytes => exact reported_loadImage s.client bytes e h
  | run file => exact hrequest (.run file) h
  | runLoaded => exact (reported_runLoaded s.client).over s.link e h
  | step => exact hrequest .nextInstruction h
  | resume => exact hrequest .resume h
  | stop => exact hrequest .stop h
  | refresh => exact hrequest .getRegisters h

/-- The report of a toggle comes after the change. -/
theorem reports_toggleBreakpoint (s : Session) {a : UInt64} {e : Client.Error}
    (h : s.result (.toggleBreakpoint a) = .error e) :
    (s.client.toggle a).Reports e (s.operate (.toggleBreakpoint a)).client := by
  refine (reported_toggleBreakpoint s.client a).over s.link e ?_
  show (s.perform fun c => c.toggleBreakpoint a).1 = .error e
  rcases hr : (s.perform fun c => c.toggleBreakpoint a).1 with e' | isSet <;>
    rw [result, hr] at h
  · obtain rfl : e' = e := Except.error.inj h
    rfl
  · cases h

/-- **An operation that fails adds one line and changes nothing else,** but for a breakpoint
that it toggles, and for the end of the run if the error is a fault. -/
theorem operate_fails (s : Session) {o : Operation} {e : Client.Error}
    (hopen : o ≠ .openSession) (hclose : o ≠ .closeSession) (h : s.result o = .error e) :
    s.client.Fails o e (s.operate o).client := by
  by_cases ho : ∃ a, o = .toggleBreakpoint a
  · obtain ⟨a, rfl⟩ := ho
    exact (reports_toggleBreakpoint s h).fails_toggle
  · have htoggle := not_exists.1 ho
    exact (reports_operate s hopen hclose htoggle h).fails htoggle

/-- A program that divides by zero at its next step. -/
theorem operate_fails_fault :
    let script := [.reply (Reply.registerFrame 0xE0 [] []), .reply (Reply.faultFrame 30)]
    let s := (new { Link.silent with script } 2000).operate (.run [])
    let e := Client.Error.server (.fault .divisionByZero)
    Operation.step ≠ .openSession ∧ Operation.step ≠ .closeSession ∧ s.result .step = .error e ∧
      s.client.phase = .running ∧ s.client.Fails .step e (s.operate .step).client := by
  intro script s e
  have hopen : Operation.step ≠ .openSession := by rintro ⟨⟩
  have hclose : Operation.step ≠ .closeSession := by rintro ⟨⟩
  have hresult : s.result .step = .error e := by decide +kernel
  exact ⟨hopen, hclose, hresult, by decide +kernel, operate_fails s hopen hclose hresult⟩

end Session

end VmProbe
