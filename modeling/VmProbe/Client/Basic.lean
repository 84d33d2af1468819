/-
VmProbe/Client/Basic.lean

The client's side of a debug session.

A client knows the phase of the session, the registers, the breakpoints, the loaded image and
all that was printed, and it has published an event for every change.  The functions here are
the steps that change it: `load`, `toggle`, `close`, `print` and `receive`, which applies a
reply of the server.  Only these steps write to the client, and each publishes exactly what
it changes, so a view that starts from the empty client and follows the events always shows
the same as the client.
-/
import VmProbe.Client.Breakpoints
import VmProbe.Image.Listing
import VmProbe.Machine.Bank
import VmProbe.Text.Utf8
import VmProbe.Wire.Reply

namespace VmProbe.Client

/-- Where a session stands. -/
inductive Phase
  | closed
  /-- A session without an image. -/
  | opened
  | fileLoaded
  | running
  deriving DecidableEq, Repr

/-- The words for a phase. -/
def Phase.text : Phase → String
  | closed => "closed"
  | opened => "open"
  | fileLoaded => "file loaded"
  | running => "running"

/-- Why an operation failed. -/
inductive Error
  | format (e : Image.FormatError)
  | decode (e : Isa.DecodeError)
  | protocol (e : Wire.ProtocolError)
  | server (e : Wire.ServerError)
  | transport (e : Wire.TransportError)
  | noImageLoaded
  | cancelled
  deriving DecidableEq, Repr

/-- The message for a person. -/
def Error.message : Error → String
  | format e => "invalid image: " ++ e.message
  | decode e => "cannot disassemble image: " ++ e.message
  | protocol e => "malformed response: " ++ e.message
  | server e => "server reported " ++ e.message
  | transport e => e.message
  | noImageLoaded => "no image loaded"
  | cancelled => "operation cancelled"

/-- An image with its listing. -/
structure Loaded where
  image : Image
  lines : List Isa.Line
  deriving DecidableEq, Repr

namespace Loaded

/-- The image that the bytes hold, with its listing. -/
def ofBytes (bytes : List UInt8) : Except Error Loaded :=
  match Image.parse bytes with
  | .error e => .error (.format e)
  | .ok image =>
    match image.disassemble with
    | .error e => .error (.decode e)
    | .ok lines => .ok ⟨image, lines⟩

/-- The index of the line that starts at an address. -/
def lineAt? (l : Loaded) (address : Nat) : Option Nat :=
  l.lines.findIdx? (·.address = address)

end Loaded

/-- What a client publishes. -/
inductive Event
  | phase (p : Phase)
  /-- The registers after an update. -/
  | registers (bank : Machine.Bank)
  /-- The breakpoints after a change. -/
  | breakpoints (addresses : List UInt64)
  | loaded (entry : UInt64) (lines : Nat)
  /-- A line about the session. -/
  | status (line : String)
  /-- Text that the program printed. -/
  | output (text : String)
  deriving DecidableEq, Repr

/-- The console after a text of the program. -/
def appendOutput (console text : String) : String := console ++ text

/-- The console after a line about the session, which starts on a line of its own. -/
def appendStatus (console line : String) : String :=
  let console := match console.toList.getLast? with
    | none => console
    | some c => if c = '\n' then console else console ++ "\n"
  console ++ line ++ "\n"

end VmProbe.Client

namespace VmProbe

open Client
open Wire (Opcode Reply ServerError)

/-- The client's side of a session. -/
structure Client where
  phase : Phase
  bank : Machine.Bank
  breakpoints : Breakpoints
  loaded : Option Loaded
  /-- All that was printed. -/
  console : String
  /-- All events so far, the first one first. -/
  published : List Event
  deriving DecidableEq

namespace Client

/-- A client that has done nothing yet. -/
def new : Client where
  phase := .closed
  bank := .blank
  breakpoints := .empty
  loaded := none
  console := ""
  published := []

/-- Publishes an event. -/
def publish (c : Client) (e : Event) : Client := { c with published := c.published ++ [e] }

/-- Moves to a phase, if it is another one. -/
def enter (c : Client) (p : Phase) : Client :=
  if c.phase = p then c else { c with phase := p }.publish (.phase p)

/-- Prints a line about the session. -/
def print (c : Client) (line : String) : Client :=
  { c with console := appendStatus c.console line }.publish (.status line)

/-- Prints a text of the program. -/
def output (c : Client) (text : String) : Client :=
  { c with console := appendOutput c.console text }.publish (.output text)

/-- Takes a new image; an open session without one now has one. -/
def load (c : Client) (l : Loaded) : Client :=
  let c := { c with loaded := some l }.publish (.loaded l.image.entry l.lines.length)
  if c.phase = .opened then c.enter .fileLoaded else c

/-- Sets or removes a breakpoint. -/
def toggle (c : Client) (address : UInt64) : Client :=
  let breakpoints := c.breakpoints.toggle address
  { c with breakpoints }.publish (.breakpoints breakpoints.addresses)

/-- Ends the session. -/
def close (c : Client) : Client :=
  if c.phase = .closed then c else (c.enter .closed).print "Closed debug session"

/-- Leaves the running phase. -/
def finish (c : Client) : Client :=
  if c.phase = .running then c.enter .fileLoaded else c

/-- Takes register values and what the program printed. -/
def update (c : Client) (values : List (Machine.Register × UInt64)) (console : List UInt8) :
    Client :=
  let bank := c.bank.apply values
  let c := { c with bank }.publish (.registers bank)
  if console.isEmpty then c else c.output (Text.decodeLossy console)

/-- Prints why the server refused a request; a fault also ends the run. -/
def refuse (c : Client) : ServerError → Client
  | .fault kind => (c.print ("RUNTIME ERROR: " ++ kind.name)).finish
  | e => c.print ("Response error: " ++ e.message)

/-- Does what a successful reply with an opcode calls for. -/
def acknowledge (c : Client) : Opcode → Client
  | .openSession =>
    let c :=
      if c.phase = .closed then c.enter (if c.loaded.isSome then .fileLoaded else .opened) else c
    c.print "Successfully opened debug session"
  | .closeSession => c.close
  | .run => c.enter .running
  | .resume => c.enter .running
  | .stop => c.finish
  | .executionFinished => c.finish.print "Finished execution"
  | _ => c

/-- Applies a reply.  What is done depends only on the reply, not on the request. -/
def receive (c : Client) (r : Reply) : Client :=
  match r.payload with
  | .error e => c.refuse e
  | .registers values console => (c.update values console).acknowledge r.opcode
  | .empty => c.acknowledge r.opcode

/-- What the sender of a request learns from a reply. -/
def outcome (r : Reply) : Except Error Opcode :=
  match r.payload with
  | .error e => .error (.server e)
  | _ => .ok r.opcode

/-- Prints an error, unless the server sent it: that one is printed when it arrives. -/
def report (c : Client) : Error → Client
  | .server _ => c
  | e => c.print e.message

/-- The index of the line that the machine executes next. -/
def currentLine? (c : Client) : Option Nat := c.loaded.bind fun l => l.lineAt? c.bank.ip.toNat

end Client

end VmProbe
