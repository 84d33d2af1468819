/-
VmProbe/Client/Dialogue.lean

What an operation of the client says to the server.

A dialogue is over, or it hands one frame to the link and goes on with what comes back.  It
does not say how frames travel, so the same operations run over a script (`Link`) and over a
network.  No operation here asks more than once; opening a session, which may ask many times,
is built on `openAttempt`.
-/
import VmProbe.Client.Basic

namespace VmProbe.Client

open Wire (Opcode Reply Request TransportError)

/-- What comes back for a frame. -/
inductive Exchange
  | reply (frame : List UInt8)
  | failure (e : TransportError)
  /-- The user gave up waiting. -/
  | interrupted
  deriving DecidableEq, Repr

/-- A conversation with the server that ends with a value. -/
inductive Dialogue (α : Type) where
  | done (value : α)
  | ask (frame : List UInt8) (next : Exchange → Dialogue α)

/-- The same conversation with a function applied to its value. -/
def Dialogue.map {α β : Type} (f : α → β) : Dialogue α → Dialogue β
  | done a => done (f a)
  | ask frame next => ask frame fun x => (next x).map f

/-- What an operation ends with: its result, and the client after it. -/
abbrev Result (α : Type) := Except Error α × Client

/-- Prints the error of an operation that failed. -/
def reported {α : Type} : Result α → Result α
  | (.ok a, c) => (.ok a, c)
  | (.error e, c) => (.error e, c.report e)

/-- Drops the value of a result. -/
def acknowledged {α : Type} (r : Result α) : Result Unit := (r.1.map fun _ => (), r.2)

/-- Takes a frame that the server sent. -/
def accept (c : Client) (frame : List UInt8) : Result Opcode :=
  match Reply.parse frame with
  | .error e => (.error (.protocol e), c)
  | .ok r => (outcome r, c.receive r)

/-- Sends a request and goes on with the bytes that come back. -/
def send {α : Type} (c : Client) (r : Request) (next : List UInt8 → Result α) :
    Dialogue (Result α) :=
  match r.encode with
  | .error e => .done (.error (.protocol e), c)
  | .ok frame => .ask frame fun
    | .reply bytes => .done (next bytes)
    | .failure e => .done (.error (.transport e), c)
    | .interrupted => .done (.error .cancelled, c)

/-- Sends a request and applies the reply. -/
def attempt (c : Client) (r : Request) : Dialogue (Result Opcode) := c.send r c.accept

/-- Sends a request, applies the reply and prints what went wrong. -/
def request (c : Client) (r : Request) : Dialogue (Result Unit) :=
  (c.attempt r).map fun x => reported (acknowledged x)

/-! ### Operations -/

/-- Loads an image; one that cannot be read is reported and changes nothing else. -/
def loadImage (c : Client) (bytes : List UInt8) : Result Unit :=
  match Loaded.ofBytes bytes with
  | .error e => reported (.error e, c)
  | .ok l => (.ok (), c.load l)

/-- Announces and makes one attempt to open a session. -/
def openAttempt (c : Client) : Dialogue (Result Opcode) :=
  (c.print "Trying to open debug session...").attempt .openSession

/-- Closes the session; any answer of the server closes it here, even an error. -/
def closeSession (c : Client) : Dialogue (Result Unit) :=
  if c.phase = .closed then .done (.ok (), c)
  else (c.send .closeSession fun frame => c.close.accept frame).map fun x =>
    reported (acknowledged x)

/-- Starts an image. -/
def run (c : Client) (file : List UInt8) : Dialogue (Result Unit) := c.request (.run file)

/-- Starts the loaded image. -/
def runLoaded (c : Client) : Dialogue (Result Unit) :=
  match c.loaded with
  | none => .done (reported (.error .noImageLoaded, c))
  | some l => c.run l.image.bytes

/-- Executes one instruction. -/
def step (c : Client) : Dialogue (Result Unit) := c.request .nextInstruction

/-- Runs on to the next breakpoint or the end of the program. -/
def resume (c : Client) : Dialogue (Result Unit) := c.request .resume

/-- Stops the program. -/
def stop (c : Client) : Dialogue (Result Unit) := c.request .stop

/-- Fetches the registers. -/
def refresh (c : Client) : Dialogue (Result Unit) := c.request .getRegisters

/-- Sets or removes a breakpoint, here first and then at the server; the result says whether
the breakpoint is set.  A server that refuses does not undo the change here. -/
def toggleBreakpoint (c : Client) (address : UInt64) : Dialogue (Result Bool) :=
  let c := c.toggle address
  let isSet := decide (address ∈ c.breakpoints)
  let request := if isSet then Request.setBreakpoint address else .removeBreakpoint address
  (c.request request).map fun x => (x.1.map fun _ => isSet, x.2)

end VmProbe.Client
