/-
VmProbe/Client/Session.lean

Sessions over a scripted link, in virtual time.

A link answers the frames of a client from a script, one entry per frame, and keeps what was
sent and when.  Answers take no time; the only thing that does is waiting between two attempts
to open a session.  A session is a client at a link, with the interval between attempts and
the time at which the user cancels, if there is one.

`openSession` tries until the server accepts or the session is cancelled.  When nobody
cancels, it gives up after the attempt that finds the script used up.
-/
import VmProbe.Client.Dialogue

namespace VmProbe.Client

open Wire (Opcode Request)

/-- A frame with the time at which it was sent, in milliseconds. -/
structure Sent where
  time : Nat
  frame : List UInt8
  deriving DecidableEq, Repr

/-- The way to a server whose answers are known in advance. -/
structure Link where
  now : Nat
  /-- What was sent, the first frame first. -/
  sent : List Sent
  script : List Exchange
  /-- What comes back once the script is used up. -/
  afterwards : List UInt8 → Exchange

namespace Link

/-- Hands a frame to the link. -/
def exchange (l : Link) (frame : List UInt8) : Exchange × Link :=
  let l := { l with sent := l.sent ++ [Sent.mk l.now frame] }
  match l.script with
  | [] => (l.afterwards frame, l)
  | x :: rest => (x, { l with script := rest })

/-- Lets time pass. -/
def wait (l : Link) (time : Nat) : Link := { l with now := l.now + time }

/-- A link without a server: nothing is scripted and every exchange fails. -/
def silent : Link where
  now := 0
  sent := []
  script := []
  afterwards := fun _ => .failure (.unavailable "no response queued")

end Link

/-- Holds a dialogue over a link. -/
def Dialogue.over {α : Type} (l : Link) : Dialogue α → α × Link
  | done a => (a, l)
  | ask frame next =>
    let x := l.exchange frame
    (next x.1).over x.2

end VmProbe.Client

namespace VmProbe

open Client

/-- A client at a link. -/
structure Session where
  client : Client
  link : Link
  /-- The time between two attempts to open a session, in milliseconds. -/
  retryInterval : Nat
  /-- When the session was or will be cancelled. -/
  cancelAt : Option Nat

namespace Session

/-- A new client at a link. -/
def new (link : Link) (retryInterval : Nat) : Session where
  client := .new
  link
  retryInterval
  cancelAt := none

/-- Holds the dialogue of an operation. -/
def perform {α : Type} (s : Session) (operation : Client → Dialogue (Client.Result α)) :
    Except Client.Error α × Session :=
  let ((result, client), link) := (operation s.client).over s.link
  (result, { s with client, link })

/-- Whether the session is cancelled by now. -/
def isCancelled (s : Session) : Bool :=
  match s.cancelAt with
  | none => false
  | some t => t ≤ s.link.now

/-- Cancels the session now. -/
def cancel (s : Session) : Session :=
  if s.isCancelled then s else { s with cancelAt := some s.link.now }

/-- Waits for the next attempt. -/
def wait (s : Session) : Session := { s with link := s.link.wait s.retryInterval }

/-- Tries to open the session at most so many times, and cancels after that. -/
def openFrom : Nat → Session → Except Client.Error Unit × Session
  | 0, s => (.error .cancelled, s.cancel)
  | attempts + 1, s =>
    if s.isCancelled then (.error .cancelled, s)
    else
      match s.perform openAttempt with
      | (.ok .openSession, s) => (.ok (), s)
      | (.error .cancelled, s) => (.error .cancelled, s)
      | (_, s) => openFrom attempts s.wait

/-- More attempts than can be made before the session is cancelled; without a time for that,
one for each entry of the script and one more. -/
def attemptLimit (s : Session) : Nat :=
  match s.cancelAt with
  | none => s.link.script.length + 1
  | some t => t - s.link.now

/-- Opens a session; does nothing when there is one. -/
def openSession (s : Session) : Except Client.Error Unit × Session :=
  if s.client.phase = .closed then openFrom s.attemptLimit s else (.ok (), s)

/-- Opens a session, and is cancelled when it has not succeeded within `time`. -/
def openWithin (s : Session) (time : Nat) : Except Client.Error Unit × Session :=
  let limit := match s.cancelAt with
    | none => s.link.now + time
    | some t => min t (s.link.now + time)
  match openSession { s with cancelAt := some limit } with
  | (.ok (), s') => (.ok (), { s' with cancelAt := s.cancelAt })
  | (.error e, s') => (.error e, s')

/-- Cancels what is under way and closes the session. -/
def shutdown (s : Session) : Except Client.Error Unit × Session :=
  s.cancel.perform closeSession

end Session

end VmProbe
