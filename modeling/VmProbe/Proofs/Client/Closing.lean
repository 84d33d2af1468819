/-
VmProbe/Proofs/Client/Closing.lean

Closing a session.

A client closes as soon as a frame comes back for its request, whatever is in it, and only
then applies the reply.  The reply acts as any reply does (`closeSession_takes`), and there are
three opcodes that move a closed client on.  So the session is closed after the call unless the
reply has one of these (`closeSession_closed_iff`); with one of them, the session that was just
closed is open, or even runs.
-/
import VmProbe.Proofs.Client.Response

namespace VmProbe

open Client
open Wire (Opcode Reply)

namespace Session

variable {s : Session}

/-- How an open session ends up, by what comes back. -/
theorem perform_closeSession (h : s.client.phase ≠ .closed) :
    (s.perform closeSession).2.client =
      (reported (acknowledged
        (s.client.answered s.client.close.accept (s.answer .closeSession)))).2 := by
  show ((closeSession s.client).over s.link).1.2 = _
  rw [closeSession, if_neg h, Dialogue.over_map, over_send rfl]
  rfl

/-- A frame that comes back is applied to the closed client. -/
theorem closeSession_takes (h : s.client.phase ≠ .closed) {frame : List UInt8}
    (hx : s.answer .closeSession = .reply frame) :
    s.client.close.Takes (Exchange.reply frame).reply?.toList
      (s.perform closeSession).2.client := by
  rw [perform_closeSession h, hx]
  exact takes_reported (takes_accept s.client.close frame)

/-- When no frame comes back, only the error is printed. -/
theorem closeSession_unanswered (h : s.client.phase ≠ .closed)
    (hx : ∀ frame, s.answer .closeSession ≠ .reply frame) :
    s.client.Takes [] (s.perform closeSession).2.client := by
  rw [perform_closeSession h]
  rcases hans : s.answer .closeSession with frame | e | -
  · exact absurd hans (hx frame)
  · exact takes_print s.client _
  · exact takes_print s.client _

/-- **A session is closed after closing it, unless the reply reopens it.**  The phase is that of
a closed client with the reply applied, which is `closed` for any other reply and for a frame
that holds none; it stays as it was if no frame comes back. -/
theorem closeSession_closed_iff (s : Session) (h : s.client.phase ≠ .closed) :
    (∀ frame, s.answer .closeSession = .reply frame →
      ((s.perform closeSession).2.client.phase = .closed ↔
        ∀ r, Reply.parse frame = .ok r → r.opcode.reopens = false)) ∧
    (∀ frame r, s.answer .closeSession = .reply frame → Reply.parse frame = .ok r →
      (s.perform closeSession).2.client.phase =
        Phase.closed.after s.client.loaded.isSome r) ∧
    ((∀ frame, s.answer .closeSession ≠ .reply frame) →
      (s.perform closeSession).2.client.phase = s.client.phase) := by
  have hclose := moves_close s.client
  have happlied : ∀ frame r, s.answer .closeSession = .reply frame → Reply.parse frame = .ok r →
      (s.perform closeSession).2.client.phase =
        Phase.closed.after s.client.loaded.isSome r := by
    intro frame r hx hr
    have htakes := closeSession_takes h hx
    rw [Exchange.reply?, hr] at htakes
    rw [htakes.phase, hclose.phase, hclose.loaded]
    rfl
  refine ⟨?_, happlied, fun hx => (closeSession_unanswered h hx).phase⟩
  intro frame hx
  rcases hr : Reply.parse frame with e | r
  · -- the frame holds no reply, so the client stays as closing has left it
    have htakes := closeSession_takes h hx
    rw [Exchange.reply?, hr] at htakes
    rw [htakes.phase, hclose.phase]
    constructor
    · intro _ r hr'
      cases hr'
    · intro _
      rfl
  · rw [happlied frame r hx hr, Phase.after_closed_iff (Reply.consistent_of_parse hr)]
    constructor
    · intro ho r' hr'
      cases hr'
      exact ho
    · intro hall
      exact hall r rfl

/-- A turn that opens a session, after which the server has some answers in store. -/
def openingTurn (script : List Exchange) : Turn where
  operation := .openSession
  script := .reply (Reply.frame Opcode.openSession.toByte []) :: script
  afterwards := Link.silent.afterwards
  cancelAt := none

/-- A session that was opened just now. -/
def justOpened (script : List Exchange) : Session :=
  (new .silent 2000).play [openingTurn script]

/-- A session is closed here even if the server refuses to close it. -/
theorem closeSession_closed_iff_refused :
    let s := justOpened [.reply (Reply.errorFrame 2)]
    s.client.phase ≠ .closed ∧ (s.perform closeSession).2.client.phase = .closed := by
  have hopen : (justOpened [.reply (Reply.errorFrame 2)]).client.phase ≠ .closed := by decide
  refine ⟨hopen, ?_⟩
  refine ((closeSession_closed_iff _ hopen).1 (Reply.errorFrame 2) rfl).2 ?_
  intro r hr
  obtain rfl : Reply.mk .error (.error .notInSession) = r := Except.ok.inj (by rw [← hr]; rfl)
  rfl

/-- A reply to a run request reopens the session that its arrival has closed. -/
theorem closeSession_reopened :
    ¬ ∀ (link : Link) (retryInterval : Nat) (turns : List Turn) (frame : List UInt8),
      let s := (new link retryInterval).play turns
      s.client.phase ≠ .closed → s.answer .closeSession = .reply frame →
        (s.perform closeSession).2.client.phase = .closed := by
  intro h
  have hclosed := h .silent 2000 [openingTurn [.reply (Reply.registerFrame 0xE0 [] [])]]
    (Reply.registerFrame 0xE0 [] []) (by decide) rfl
  exact absurd hclosed (by decide +kernel)

end Session

end VmProbe
