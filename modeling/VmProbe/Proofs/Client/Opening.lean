/-
VmProbe/Proofs/Client/Opening.lean

Opening a session.

The loop of `openSession` is described by the answers that its attempts get (`answers`): it
goes on as long as they reject the session, and the first that does not decides the result
(`openFrom_spec`).  An attempt counts as rejected when the reply has another opcode than the
one that was asked for; but by then the reply has been applied, as any reply is.

So the rejected replies can leave their mark on the phase and on the registers, though never on
the breakpoints or the image.  Main result: opening a session is all or nothing exactly when
what they do to the registers and to the phase cancels out, in particular when none of them
carries registers (`openSession_allOrNothing_iff`).
-/
import VmProbe.Proofs.Client.Response

namespace VmProbe

open Client
open Wire (Opcode Reply Request)

namespace Client

variable {c : Client} {r : Reply} {x : Exchange} {xs : List Exchange}

/-! ### Answers -/

/-- Whether a client tries again after an answer. -/
def Exchange.rejects : Exchange → Bool
  | interrupted => false
  | x => x.reply?.all (·.opcode ≠ .openSession)

/-- The replies of the attempts that were rejected. -/
def rejected (xs : List Exchange) : List Reply :=
  (xs.takeWhile Exchange.rejects).filterMap Exchange.reply?

/-- The reply that opens the session, if one does. -/
def accepting (xs : List Exchange) : Option Reply :=
  (xs.find? fun x => !x.rejects).bind Exchange.reply?

theorem Exchange.rejects_of_reply? (h : x.reply? = some r) :
    x.rejects = decide (r.opcode ≠ .openSession) := by
  cases x with
  | reply frame => exact congrArg (Option.all _) h
  | _ => cases h

theorem rejected_cons (x : Exchange) (xs : List Exchange) :
    rejected (x :: xs) = if x.rejects then x.reply?.toList ++ rejected xs else [] := by
  rw [rejected, List.takeWhile_cons]
  split_ifs
  · rcases hr : x.reply? with - | r
    · exact List.filterMap_cons_none hr
    · exact List.filterMap_cons_some hr
  · rfl

theorem accepting_cons (x : Exchange) (xs : List Exchange) :
    accepting (x :: xs) = if x.rejects then accepting xs else x.reply? := by
  rw [accepting, List.find?_cons]
  rcases x.rejects <;> rfl

/-- A rejected reply has another opcode. -/
theorem opcode_of_mem_rejected (h : r ∈ rejected xs) :
    r.opcode ≠ .openSession ∧ r.Consistent := by
  obtain ⟨x, hx, hr⟩ := List.mem_filterMap.1 h
  have hrej : x.rejects = true := List.mem_takeWhile_imp hx
  rw [Exchange.rejects_of_reply? hr] at hrej
  exact ⟨of_decide_eq_true hrej, Exchange.consistent_of_reply? hr⟩

/-- The accepting reply has the opcode that was asked for. -/
theorem opcode_of_accepting (h : accepting xs = some r) :
    r.opcode = .openSession ∧ r.Consistent := by
  obtain ⟨x, hx, hr⟩ := Option.bind_eq_some_iff.1 h
  have hacc := List.find?_some hx
  rw [Bool.not_eq_true', Exchange.rejects_of_reply? hr] at hacc
  exact ⟨not_not.1 (of_decide_eq_false hacc), Exchange.consistent_of_reply? hr⟩

/-! ### One attempt -/

/-- What an attempt ends with, by what comes back. -/
def attempted (c : Client) (x : Exchange) : Client.Result Opcode :=
  let c := c.print "Trying to open debug session..."
  c.answered c.accept x

theorem takes_attempted (c : Client) (x : Exchange) :
    c.Takes x.reply?.toList (c.attempted x).2 := by
  have hp := takes_print c "Trying to open debug session..."
  cases x with
  | reply frame => exact hp.trans (takes_accept _ frame)
  | failure e => exact hp
  | interrupted => exact hp

/-- What the loop makes of an attempt: nothing if it was rejected, and else its own result. -/
def verdict (x : Client.Result Opcode) : Option (Except Error Unit) :=
  match x.1 with
  | .ok .openSession => some (.ok ())
  | .error .cancelled => some (.error .cancelled)
  | _ => none

theorem verdict_attempted (c : Client) (x : Exchange) :
    verdict (c.attempted x) =
      if x.rejects then none else some (if x.reply?.isSome then .ok () else .error .cancelled) := by
  cases x with
  | failure e => rfl
  | interrupted => rfl
  | reply frame =>
    have hreply : (Exchange.reply frame).reply? = (Reply.parse frame).toOption := rfl
    have hattempted : (c.attempted (.reply frame)).1 = ((c.print _).accept frame).1 := rfl
    rw [verdict, hattempted, accept]
    rcases hr : Reply.parse frame with e | r <;> rw [hr] at hreply
    · have hrej : (Exchange.reply frame).rejects = true := congrArg (Option.all _) hreply
      rw [hrej]
      rfl
    · -- the opcode of an error is not the one that was asked for
      have hcons := Reply.consistent_of_parse hr
      rw [Exchange.rejects_of_reply? hreply, hreply]
      obtain ⟨o, p⟩ := r
      cases p with
      | error e =>
        obtain rfl : o = .error := hcons.error.2 ⟨e, rfl⟩
        rfl
      | _ => cases o <;> rfl

end Client

namespace Session

variable {s : Session}

/-- The session after an attempt to open it. -/
def attempt (s : Session) : Session where
  client := (s.client.attempted (s.answer .openSession)).2
  link := (s.link.exchange (Request.header .openSession)).2
  retryInterval := s.retryInterval
  cancelAt := s.cancelAt

theorem perform_openAttempt (s : Session) :
    s.perform openAttempt = ((s.client.attempted (s.answer .openSession)).1, s.attempt) := by
  rw [perform, openAttempt, Client.attempt]
  rw [over_send rfl]
  rfl

theorem openFrom_succ (attempts : Nat) (s : Session) :
    openFrom (attempts + 1) s =
      if s.isCancelled then (.error .cancelled, s)
      else
        match verdict (s.client.attempted (s.answer .openSession)) with
        | some result => (result, s.attempt)
        | none => openFrom attempts s.attempt.wait := by
  rw [openFrom, perform_openAttempt]
  congr 1
  obtain ⟨e | o, c⟩ := s.client.attempted (s.answer .openSession)
  · cases e <;> rfl
  · cases o <;> rfl

/-! ### All attempts -/

/-- Whether the session is cancelled by a time. -/
def cancelledBy (s : Session) (time : Nat) : Bool :=
  match s.cancelAt with
  | none => false
  | some t => t ≤ time

/-- What comes back for an attempt after `i` others. -/
def answerAfter (s : Session) (i : Nat) : Exchange :=
  s.link.script.getD i (s.link.afterwards (Request.header .openSession))

/-- The answers to the attempts that start before the session is cancelled, of at most so
many, if none of them ends the loop. -/
def answers (s : Session) (attempts : Nat) : List Exchange :=
  ((List.range attempts).takeWhile fun i =>
    !s.cancelledBy (s.link.now + i * s.retryInterval)).map s.answerAfter

theorem answerAfter_zero (s : Session) : s.answerAfter 0 = s.answer .openSession := by
  rw [answerAfter, answer, Link.exchange]
  rcases s.link.script with - | ⟨x, script⟩ <;> rfl

theorem answerAfter_succ (s : Session) (i : Nat) :
    s.answerAfter (i + 1) = s.attempt.wait.answerAfter i := by
  rw [answerAfter, attempt, wait, Link.wait, Link.exchange]
  rcases s.link.script with - | ⟨x, script⟩ <;> rfl

theorem cancelledBy_succ (s : Session) (i : Nat) :
    s.cancelledBy (s.link.now + (i + 1) * s.retryInterval) =
      s.attempt.wait.cancelledBy (s.attempt.wait.link.now + i * s.retryInterval) := by
  have hnow : s.attempt.wait.link.now = s.link.now + s.retryInterval := by
    rw [attempt, wait, Link.wait, Link.exchange]
    rcases s.link.script with - | ⟨x, script⟩ <;> rfl
  rw [hnow, Nat.succ_mul, Nat.add_assoc, Nat.add_comm s.retryInterval]
  rfl

theorem answers_succ (s : Session) (attempts : Nat) :
    s.answers (attempts + 1) =
      if s.isCancelled then [] else s.answer .openSession :: s.attempt.wait.answers attempts := by
  have hzero : s.cancelledBy (s.link.now + 0 * s.retryInterval) = s.isCancelled := by
    rw [Nat.zero_mul]
    rfl
  rw [answers, List.range_succ_eq_map, List.takeWhile_cons, hzero]
  rcases s.isCancelled
  · -- the later attempts are those of the session that has waited
    show s.answerAfter 0 :: List.map s.answerAfter _ = _ :: List.map _ _
    rw [answerAfter_zero, List.takeWhile_map, List.map_map]
    have hanswer : s.answerAfter ∘ Nat.succ = s.attempt.wait.answerAfter :=
      funext (answerAfter_succ s)
    have hcancel : (fun i => !s.cancelledBy (s.link.now + i * s.retryInterval)) ∘ Nat.succ =
        fun i => !s.attempt.wait.cancelledBy (s.attempt.wait.link.now + i * s.retryInterval) :=
      funext fun i => congrArg Bool.not (cancelledBy_succ s i)
    rw [hanswer, hcancel]
    rfl
  · rfl

/-- **The loop takes the rejected replies, and then the accepting one.**  The result says
whether there is one. -/
theorem openFrom_spec (attempts : Nat) (s : Session) :
    s.client.Takes (rejected (s.answers attempts) ++ (accepting (s.answers attempts)).toList)
        (openFrom attempts s).2.client ∧
      (openFrom attempts s).1 =
        if (accepting (s.answers attempts)).isSome then .ok () else .error .cancelled := by
  induction attempts generalizing s with
  | zero =>
    refine ⟨?_, rfl⟩
    show s.client.Takes [] s.cancel.client
    rw [cancel]
    split_ifs
    · exact .refl _
    · exact .refl _
  | succ attempts ih =>
    have hone := takes_attempted s.client (s.answer .openSession)
    rw [openFrom_succ, answers_succ]
    by_cases hcancelled : s.isCancelled = true
    · rw [if_pos hcancelled, if_pos hcancelled]
      exact ⟨.refl _, rfl⟩
    · rw [if_neg hcancelled, if_neg hcancelled, rejected_cons, accepting_cons, verdict_attempted]
      -- the induction goes on with what the rejected attempt has left
      by_cases hrej : (s.answer .openSession).rejects = true
      · rw [if_pos hrej, if_pos hrej, if_pos hrej, List.append_assoc]
        obtain ⟨htakes, hresult⟩ := ih s.attempt.wait
        exact ⟨hone.trans htakes, hresult⟩
      · rw [if_neg hrej, if_neg hrej, if_neg hrej]
        exact ⟨hone, rfl⟩

/-! ### All or nothing -/

/-- Opening a session from here is all or nothing. -/
structure AllOrNothing (s : Session) : Prop where
  opened : s.openSession.1 = .ok () →
    s.openSession.2.client.phase = .entry s.client.loaded.isSome
  cancelled : s.openSession.1 = .error .cancelled → s.openSession.2.client.phase = .closed
  bank : s.openSession.2.client.bank = s.client.bank
  breakpoints : s.openSession.2.client.breakpoints = s.client.breakpoints
  loaded : s.openSession.2.client.loaded = s.client.loaded

/-- The replies that are rejected when a session is opened from here. -/
def rejections (s : Session) : List Reply := rejected (s.answers s.attemptLimit)

/-- Whether opening a session from here succeeds. -/
def opens (s : Session) : Bool := (accepting (s.answers s.attemptLimit)).isSome

/-- The phase in which the rejected replies leave a closed session. -/
def rejectedPhase (s : Session) : Phase :=
  s.rejections.foldl (Phase.after s.client.loaded.isSome) .closed

/-- What opening a session does, in terms of the answers. -/
theorem openSession_spec {s : Session} (h : s.client.phase = .closed) :
    s.openSession.1 = (if s.opens then .ok () else .error .cancelled) ∧
      s.openSession.2.client.phase =
        (if s.opens ∧ s.rejectedPhase = .closed then .entry s.client.loaded.isSome
          else s.rejectedPhase) ∧
      s.openSession.2.client.bank = s.rejections.foldl Machine.Bank.after s.client.bank ∧
      s.openSession.2.client.breakpoints = s.client.breakpoints ∧
      s.openSession.2.client.loaded = s.client.loaded := by
  obtain ⟨htakes, hresult⟩ := openFrom_spec s.attemptLimit s
  rw [openSession, if_pos h]
  refine ⟨hresult, ?_, ?_, htakes.breakpoints, htakes.loaded⟩
  · rw [htakes.phase, h, List.foldl_append]
    rw [opens]
    rcases hacc : accepting (s.answers s.attemptLimit) with - | r
    · rfl
    · obtain ⟨hopen, hcons⟩ := opcode_of_accepting hacc
      show Phase.after _ s.rejectedPhase r = _
      rw [Phase.after_of_openSession hcons hopen]
      simp
  · rw [htakes.bank, List.foldl_append]
    rcases hacc : accepting (s.answers s.attemptLimit) with - | r
    · rfl
    · obtain ⟨hopen, hcons⟩ := opcode_of_accepting hacc
      have hcarries : r.opcode.carriesRegisters = false := by rw [hopen]; rfl
      exact Machine.Bank.after_of_carries_eq_false hcons hcarries _

/-- For one call the law comes down to the registers and the phase. -/
theorem allOrNothing_iff {s : Session} (h : s.client.phase = .closed) :
    s.AllOrNothing ↔
      s.rejections.foldl Machine.Bank.after s.client.bank = s.client.bank ∧
        (s.rejectedPhase = .closed ∨
          s.opens ∧ s.rejectedPhase = .entry s.client.loaded.isSome) := by
  obtain ⟨hresult, hphase, hbank, hbreakpoints, hloaded⟩ := openSession_spec h
  constructor
  · intro hall
    refine ⟨hbank.symm.trans hall.bank, ?_⟩
    -- the result says which of the two phases the law asks for
    by_cases hopens : s.opens = true
    · rw [if_pos hopens] at hresult
      have hentry := hphase.symm.trans (hall.opened hresult)
      by_cases hclosed : s.rejectedPhase = .closed
      · exact .inl hclosed
      · rw [if_neg fun hand => hclosed hand.2] at hentry
        exact .inr ⟨hopens, hentry⟩
    · rw [if_neg hopens] at hresult
      have hclosed := hphase.symm.trans (hall.cancelled hresult)
      rw [if_neg fun hand => hopens hand.1] at hclosed
      exact .inl hclosed
  · rintro ⟨hsame, hcases⟩
    refine ⟨fun hok => ?_, fun hcancelled => ?_, hbank.trans hsame, hbreakpoints, hloaded⟩
    · have hopens : s.opens = true := by
        by_contra hopens
        rw [if_neg hopens, hok] at hresult
        cases hresult
      rw [hphase]
      by_cases hclosed : s.rejectedPhase = .closed
      · exact if_pos ⟨hopens, hclosed⟩
      · rw [if_neg fun hand => hclosed hand.2]
        exact (hcases.resolve_left hclosed).2
    · have hopens : ¬ s.opens = true := by
        intro hopens
        rw [if_pos hopens, hcancelled] at hresult
        cases hresult
      rw [hphase, if_neg fun hand => hopens hand.1]
      exact hcases.resolve_right fun hand => hopens hand.1

/-- **When opening a session is all or nothing.**  The session opens or is cancelled, and
breakpoints and image always stay.  For one call the law holds if and only if what the rejected
replies do to the registers and to the phase cancels out.  For a list of answers it holds
whatever the client was before if and only if none of the rejected replies carries registers. -/
theorem openSession_allOrNothing_iff (s : Session) (h : s.client.phase = .closed) :
    s.openSession.1 = (if s.opens then .ok () else .error .cancelled) ∧
    (s.openSession.2.client.breakpoints = s.client.breakpoints ∧
      s.openSession.2.client.loaded = s.client.loaded) ∧
    (s.AllOrNothing ↔
      s.rejections.foldl Machine.Bank.after s.client.bank = s.client.bank ∧
        (s.rejectedPhase = .closed ∨
          s.opens ∧ s.rejectedPhase = .entry s.client.loaded.isSome)) ∧
    ((∀ c : Client, c.phase = .closed → AllOrNothing { s with client := c }) ↔
      ∀ r ∈ s.rejections, r.opcode.carriesRegisters = false) := by
  obtain ⟨hresult, -, -, hbreakpoints, hloaded⟩ := openSession_spec h
  have hmem : ∀ r ∈ s.rejections, r.opcode ≠ .openSession ∧ r.Consistent :=
    fun r hr => opcode_of_mem_rejected hr
  refine ⟨hresult, ⟨hbreakpoints, hloaded⟩, allOrNothing_iff h, ?_, ?_⟩
  · intro hall
    -- such a reply overwrites the registers, and so changes those of some client
    by_contra hcarries
    obtain ⟨r, hr, hcarries⟩ : ∃ r ∈ s.rejections, r.opcode.carriesRegisters = true := by
      simpa using hcarries
    obtain ⟨b, hb⟩ := Machine.Bank.exists_foldl_after_ne (fun r hr => (hmem r hr).2)
      ⟨r, hr, hcarries⟩
    have hlaw := hall { s.client with bank := b } h
    have hiff := (allOrNothing_iff (s := { s with client := { s.client with bank := b } }) h).1 hlaw
    exact hb hiff.1
  · intro hcarries c hc
    refine (allOrNothing_iff (s := { s with client := c }) hc).2 ⟨?_, .inl ?_⟩
    · refine List.foldlRecOn (motive := (· = c.bank)) s.rejections _ rfl ?_
      intro b hb r hr
      rw [Machine.Bank.after_of_carries_eq_false (hmem r hr).2 (hcarries r hr), hb]
    · exact foldl_after_eq_closed _ hmem hcarries

/-- A new client at a server with some answers in store. -/
def facing (script : List Exchange) : Session := new { Link.silent with script } 2000

/-- An attempt that is refused with an error, and one that is accepted. -/
theorem openSession_allOrNothing_iff_refused :
    let s := facing [.reply (Reply.errorFrame 1), .reply (Reply.frame 1 [])]
    s.client.phase = .closed ∧ s.opens = true ∧ s.AllOrNothing := by
  let s := facing [.reply (Reply.errorFrame 1), .reply (Reply.frame 1 [])]
  have hcarries : ∀ r ∈ s.rejections, r.opcode.carriesRegisters = false := by decide +kernel
  have hlaw := (openSession_allOrNothing_iff s rfl).2.2.2.2 hcarries s.client rfl
  exact ⟨rfl, by decide +kernel, hlaw⟩

/-- A session that is open in the end runs, because an attempt before was answered with the
reply to a run request. -/
theorem openSession_opens_running :
    ¬ ∀ (link : Link) (retryInterval : Nat) (turns : List Turn),
      let s := (new link retryInterval).play turns
      s.client.phase = .closed → s.AllOrNothing := by
  intro h
  let script : List Exchange := [.reply (Reply.registerFrame 0xE0 [] []), .reply (Reply.frame 1 [])]
  have hlaw : (facing script).AllOrNothing := h { Link.silent with script } 2000 [] rfl
  have hresult : (facing script).openSession.1 = .ok () := by decide +kernel
  exact absurd (hlaw.opened hresult) (by decide +kernel)

end Session

end VmProbe
