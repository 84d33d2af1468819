/-
VmProbe/Proofs/Client/Schedule.lean

When the attempts to open a session are made.

An attempt prints a line, hands over one frame and takes what comes back; then the session waits,
and the next attempt begins an interval later.  So what a session is after `n` attempts can be told
without the loop (`afterAttempts`): the frames have gone out at the times `0`, `r`, `2 r`, ..., one
answer was taken for each of them, and the client is what the lines and the answers have made of it
(`makesAttempts_afterAttempts`).

The loop stops at the first attempt whose answer opens the session, and before the first one that
would begin after the cancellation.  A time that is a multiple of the interval counts as after.

Main statement: `openSession_follows_schedule`.
-/
import VmProbe.Proofs.Client.Opening

namespace VmProbe

open Client
open Wire (Opcode Reply Request ServerError)

namespace Client

variable {c c' c'' : Client} {e : Event} {line : String}

/-! ### Lines -/

/-- The line that announces an attempt. -/
def announcement : Event := .status "Trying to open debug session..."

/-- `c.Reacts c'`: something may have been published since `c`, but no attempt was announced. -/
def Reacts (c c' : Client) : Prop := ∃ es, c'.published = c.published ++ es ∧ announcement ∉ es

theorem Reacts.refl (c : Client) : c.Reacts c := ⟨[], (List.append_nil _).symm, List.not_mem_nil⟩

theorem Reacts.trans (h : c.Reacts c') (h' : c'.Reacts c'') : c.Reacts c'' := by
  obtain ⟨es, hpub, hes⟩ := h
  obtain ⟨es', hpub', hes'⟩ := h'
  refine ⟨es ++ es', ?_, ?_⟩
  · rw [hpub', hpub, List.append_assoc]
  · rw [List.mem_append]
    exact not_or.2 ⟨hes, hes'⟩

theorem Reacts.of_event (hpub : c'.published = c.published ++ [e]) (he : announcement ≠ e) :
    c.Reacts c' := ⟨[e], hpub, fun h => he (List.mem_singleton.1 h)⟩

theorem reacts_enter (c : Client) (p : Phase) : c.Reacts (c.enter p) := by
  rw [enter]
  split_ifs
  · exact .refl c
  · exact .of_event (e := .phase p) rfl (by rintro ⟨⟩)

theorem reacts_print (c : Client) (h : announcement ≠ .status line) : c.Reacts (c.print line) :=
  .of_event rfl h

theorem reacts_finish (c : Client) : c.Reacts c.finish := by
  rw [finish]
  split_ifs
  · exact reacts_enter c .fileLoaded
  · exact .refl c

theorem reacts_update (c : Client) (values : List (Machine.Register × UInt64))
    (console : List UInt8) : c.Reacts (c.update values console) := by
  have hbank : c.Reacts
      ({ c with bank := c.bank.apply values }.publish (.registers (c.bank.apply values))) :=
    .of_event rfl (by rintro ⟨⟩)
  rw [update]
  split_ifs
  · exact hbank
  · exact hbank.trans (.of_event (e := .output _) rfl (by rintro ⟨⟩))

theorem reacts_refuse (c : Client) (e : ServerError) : c.Reacts (c.refuse e) := by
  cases e with
  | fault kind =>
    have hline : announcement ≠ .status ("RUNTIME ERROR: " ++ kind.name) := by
      cases kind <;> decide +kernel
    exact (reacts_print c hline).trans (reacts_finish _)
  | _ => exact reacts_print c (by decide +kernel)

theorem reacts_acknowledge (c : Client) (o : Opcode) : c.Reacts (c.acknowledge o) := by
  cases o with
  | openSession =>
    refine Reacts.trans ?_ (reacts_print _ (by decide +kernel))
    split_ifs
    · exact reacts_enter c _
    · exact reacts_enter c _
    · exact .refl c
  | closeSession =>
    show c.Reacts c.close
    rw [close]
    split_ifs
    · exact .refl c
    · exact (reacts_enter c .closed).trans (reacts_print _ (by decide +kernel))
  | run => exact reacts_enter c .running
  | resume => exact reacts_enter c .running
  | stop => exact reacts_finish c
  | executionFinished => exact (reacts_finish c).trans (reacts_print _ (by decide +kernel))
  | _ => exact .refl c

theorem reacts_receive (c : Client) (r : Reply) : c.Reacts (c.receive r) := by
  rw [receive]
  split
  · exact reacts_refuse c _
  · exact (reacts_update c _ _).trans (reacts_acknowledge _ _)
  · exact reacts_acknowledge c _

/-- What comes back for an attempt announces no other one. -/
theorem reacts_attempted (c : Client) (x : Exchange) :
    (c.print "Trying to open debug session...").Reacts (c.attempted x).2 := by
  rw [attempted]
  cases x with
  | reply frame =>
    show Reacts _ (accept _ frame).2
    rw [accept]
    rcases Reply.parse frame with e | r
    · exact .refl _
    · exact reacts_receive _ r
  | failure e => exact .refl _
  | interrupted => exact .refl _

/-! ### Answers -/

/-- Whether an answer is a reply to a request to open a session. -/
def Exchange.opens (x : Exchange) : Bool := x.reply?.any (·.opcode = .openSession)

/-- The index of the first answer that opens the session, infinite if none does. -/
noncomputable def firstOpening (script : List Exchange) : ℕ∞ :=
  match script.findIdx? Exchange.opens with
  | some k => k
  | none => ⊤

/-- A link that answers every frame, and whose exchanges fail when the script is used up. -/
structure Link.Answers (l : Link) : Prop where
  script : ∀ x ∈ l.script, x ≠ .interrupted
  afterwards : ∀ frame, ∃ e, l.afterwards frame = .failure e

/-- An answer is rejected unless it opens the session. -/
theorem Exchange.rejects_eq {x : Exchange} (h : x ≠ .interrupted) : x.rejects = !x.opens := by
  cases x with
  | interrupted => exact absurd rfl h
  | failure e => rfl
  | reply frame =>
    show (reply frame).reply?.all _ = _
    rw [opens]
    rcases (reply frame).reply? with - | r
    · rfl
    · by_cases ho : r.opcode = .openSession <;> simp [ho]

end Client

namespace Session

variable {s : Session} {n time : Nat}

/-! ### After some attempts -/

/-- The session after so many attempts, each followed by a wait. -/
def afterAttempts (s : Session) : Nat → Session
  | 0 => s
  | n + 1 => (s.afterAttempts n).attempt.wait

theorem link_attempt (s : Session) :
    s.attempt.link =
      { s.link with
        sent := s.link.sent ++ [⟨s.link.now, Request.header .openSession⟩]
        script := s.link.script.drop 1 } := by
  rw [attempt, Link.exchange]
  rcases s.link.script with - | ⟨x, script⟩ <;> rfl

/-- What comes of the attempts at the link: time has passed, and each has sent its frame and used up
an answer. -/
theorem link_afterAttempts (s : Session) (n : Nat) :
    (s.afterAttempts n).link =
        { s.link with
          now := s.link.now + n * s.retryInterval
          sent := s.link.sent ++ (List.range n).map fun i =>
            ⟨s.link.now + i * s.retryInterval, Request.header .openSession⟩
          script := s.link.script.drop n } ∧
      (s.afterAttempts n).retryInterval = s.retryInterval ∧
      (s.afterAttempts n).cancelAt = s.cancelAt := by
  induction n with
  | zero => simp [afterAttempts]
  | succ n ih =>
    obtain ⟨hlink, hinterval, hcancel⟩ := ih
    refine ⟨?_, hinterval, hcancel⟩
    show (s.afterAttempts n).attempt.link.wait (s.afterAttempts n).retryInterval = _
    rw [link_attempt, hlink, hinterval, Link.wait]
    simp only [List.drop_drop, List.range_succ, List.map_append, List.append_assoc,
      Nat.succ_mul, Nat.add_assoc]
    rfl

/-- The answers are taken in their order. -/
theorem answer_afterAttempts (s : Session) (n : Nat) :
    (s.afterAttempts n).answer .openSession = s.answerAfter n := by
  rw [← answerAfter_zero, answerAfter, (link_afterAttempts s n).1, answerAfter]
  show (s.link.script.drop n).getD 0 _ = _
  rw [List.getD_eq_getElem?_getD, List.getElem?_drop, Nat.add_zero, List.getD_eq_getElem?_getD]

/-- Since `s` the session has made so many attempts, one for each interval, and has become `s'`. -/
structure MakesAttempts (s : Session) (n : Nat) (s' : Session) : Prop where
  sent : s'.link.sent = s.link.sent ++ (List.range n).map fun i =>
    ⟨s.link.now + i * s.retryInterval, Request.header .openSession⟩
  script : s'.link.script = s.link.script.drop n
  /-- Each attempt announces itself and then takes its answer. -/
  client : s'.client =
    ((List.range n).map s.answerAfter).foldl (fun c x => (c.attempted x).2) s.client
  /-- Each line is followed by what comes of the answer, which is no such line. -/
  announced : ∃ reactions : List (List Event), reactions.length = n ∧
    s'.client.published = s.client.published ++ reactions.flatMap (announcement :: ·) ∧
    ∀ es ∈ reactions, announcement ∉ es

theorem makesAttempts_afterAttempts (s : Session) (n : Nat) :
    s.MakesAttempts n (s.afterAttempts n) := by
  obtain ⟨hlink, -, -⟩ := link_afterAttempts s n
  have hclient (n : Nat) : (s.afterAttempts (n + 1)).client =
      ((s.afterAttempts n).client.attempted (s.answerAfter n)).2 := by
    rw [← answer_afterAttempts]
    rfl
  refine ⟨?_, ?_, ?client, ?announced⟩
  · rw [hlink]
  · rw [hlink]
  case client =>
    clear hlink
    induction n with
    | zero => rfl
    | succ n ih =>
      rw [hclient, ih, List.range_succ, List.map_append, List.foldl_append]
      rfl
  case announced =>
    clear hlink
    induction n with
    | zero => exact ⟨[], rfl, (List.append_nil _).symm, List.forall_mem_nil _⟩
    | succ n ih =>
      obtain ⟨reactions, hlength, hpub, hreactions⟩ := ih
      -- the next attempt publishes its own line first
      obtain ⟨es, hes, hquiet⟩ :=
        reacts_attempted (s.afterAttempts n).client (s.answerAfter n)
      refine ⟨reactions ++ [es], ?_, ?_, List.forall_mem_append.2 ⟨hreactions, ?_⟩⟩
      · rw [List.length_append, hlength]
        rfl
      · rw [hclient, hes]
        show (s.afterAttempts n).client.published ++ [announcement] ++ es = _
        rw [hpub, List.flatMap_append, List.flatMap_singleton, List.append_assoc, List.append_assoc]
        rfl
      · exact List.forall_mem_singleton.2 hquiet

/-! ### The loop -/

theorem openFrom_of_isCancelled (h : s.isCancelled = true) (attempts : Nat) :
    openFrom attempts s = (.error .cancelled, s) := by
  cases attempts with
  | zero => rw [openFrom, cancel, if_pos h]
  | succ attempts => rw [openFrom, if_pos h]

/-- As long as the session is not cancelled and every answer is rejected, the loop goes on. -/
theorem openFrom_afterAttempts (attempts : Nat)
    (h : ∀ i < n, (s.afterAttempts i).isCancelled = false ∧ (s.answerAfter i).rejects = true) :
    openFrom (attempts + n) s = openFrom attempts (s.afterAttempts n) := by
  induction n generalizing attempts with
  | zero => rfl
  | succ n ih =>
    obtain ⟨hcancelled, hrejects⟩ := h n (Nat.lt_succ_self n)
    rw [Nat.add_succ, ← Nat.succ_add, ih _ fun i hi => h i (Nat.lt_succ_of_lt hi), openFrom_succ,
      hcancelled, answer_afterAttempts, verdict_attempted, hrejects]
    rfl

/-- An answer that opens the session ends the loop. -/
theorem openFrom_of_opens (attempts : Nat) (hcancelled : s.isCancelled = false)
    (hopens : (s.answer .openSession).opens = true) :
    openFrom (attempts + 1) s = (.ok (), s.attempt) := by
  have hne : s.answer .openSession ≠ .interrupted := by
    intro h
    rw [h] at hopens
    cases hopens
  have hsome : (s.answer .openSession).reply?.isSome = true := by
    rw [Exchange.opens] at hopens
    rcases hreply : (s.answer .openSession).reply? with - | r
    · rw [hreply] at hopens
      cases hopens
    · rfl
  rw [openFrom_succ, hcancelled, verdict_attempted, Exchange.rejects_eq hne, hopens, hsome]
  rfl

/-- Cancelled at a time, the session makes the attempts that begin before it. -/
theorem isCancelled_afterAttempts (h : s.cancelAt = some (s.link.now + time)) (n : Nat) :
    (s.afterAttempts n).isCancelled = decide (time ≤ n * s.retryInterval) := by
  obtain ⟨hlink, -, hcancel⟩ := link_afterAttempts s n
  rw [isCancelled, hcancel, h, hlink]
  simp only [Nat.add_le_add_iff_left]

theorem attemptLimit_eq (h : s.cancelAt = some (s.link.now + time)) : s.attemptLimit = time := by
  rw [attemptLimit, h]
  exact Nat.add_sub_cancel_left _ _

/-- The attempts that begin in time are as many as there are intervals begun. -/
theorem lt_ceilDiv_iff {r : Nat} (hr : 0 < r) (i : Nat) : i < time ⌈/⌉ r ↔ i * r < time := by
  rw [← not_le, ceilDiv_le_iff_le_mul hr, not_le, Nat.mul_comm]

theorem ceilDiv_le (time : Nat) {r : Nat} (hr : 0 < r) : time ⌈/⌉ r ≤ time :=
  (ceilDiv_le_iff_le_mul hr).2 (Nat.le_mul_of_pos_left time hr)

/-- If no answer opens the session in time, all attempts are made. -/
theorem openSession_cancelled (hclosed : s.client.phase = .closed)
    (hcancel : s.cancelAt = some (s.link.now + time)) (hr : 0 < s.retryInterval)
    (hrejects : ∀ i < time ⌈/⌉ s.retryInterval, (s.answerAfter i).rejects = true) :
    s.openSession = (.error .cancelled, s.afterAttempts (time ⌈/⌉ s.retryInterval)) := by
  have hgoes : ∀ i < time ⌈/⌉ s.retryInterval,
      (s.afterAttempts i).isCancelled = false ∧ (s.answerAfter i).rejects = true := by
    intro i hi
    refine ⟨?_, hrejects i hi⟩
    rw [isCancelled_afterAttempts hcancel, decide_eq_false_iff_not, not_le]
    exact (lt_ceilDiv_iff hr i).1 hi
  have hends : (s.afterAttempts (time ⌈/⌉ s.retryInterval)).isCancelled = true := by
    rw [isCancelled_afterAttempts hcancel, decide_eq_true_eq, ← not_lt, ← lt_ceilDiv_iff hr]
    exact lt_irrefl _
  obtain ⟨attempts, hattempts⟩ := Nat.exists_eq_add_of_le' (ceilDiv_le time hr)
  rw [openSession, if_pos hclosed, attemptLimit_eq hcancel]
  calc openFrom time s
      = openFrom (attempts + time ⌈/⌉ s.retryInterval) s := by rw [← hattempts]
    _ = openFrom attempts (s.afterAttempts (time ⌈/⌉ s.retryInterval)) :=
        openFrom_afterAttempts attempts hgoes
    _ = _ := openFrom_of_isCancelled hends attempts

/-- The first answer that opens the session, if it comes in time, is the last one. -/
theorem openSession_opened {k : Nat} (hclosed : s.client.phase = .closed)
    (hcancel : s.cancelAt = some (s.link.now + time)) (hr : 0 < s.retryInterval)
    (hk : k < time ⌈/⌉ s.retryInterval) (hrejects : ∀ i < k, (s.answerAfter i).rejects = true)
    (hopens : (s.answerAfter k).opens = true) :
    s.openSession = (.ok (), (s.afterAttempts k).attempt) := by
  have hgoes : ∀ i ≤ k, (s.afterAttempts i).isCancelled = false := by
    intro i hi
    rw [isCancelled_afterAttempts hcancel, decide_eq_false_iff_not, not_le]
    exact (lt_ceilDiv_iff hr i).1 (hi.trans_lt hk)
  obtain ⟨attempts, hattempts⟩ := Nat.exists_eq_add_of_le' (hk.trans_le (ceilDiv_le time hr))
  rw [openSession, if_pos hclosed, attemptLimit_eq hcancel]
  calc openFrom time s
      = openFrom (attempts + 1 + k) s := by rw [Nat.add_right_comm, Nat.add_assoc, ← hattempts]
    _ = openFrom (attempts + 1) (s.afterAttempts k) :=
        openFrom_afterAttempts _ fun i hi => ⟨hgoes i hi.le, hrejects i hi⟩
    _ = _ := openFrom_of_opens attempts (hgoes k le_rfl) (by rwa [answer_afterAttempts])

/-! ### The schedule -/

theorem answerAfter_of_lt {i : Nat} (hi : i < s.link.script.length) :
    s.answerAfter i = s.link.script[i] := List.getD_eq_getElem _ _ hi

/-- An answer that does not open the session is rejected, also when the script is used up. -/
theorem rejects_answerAfter (h : s.link.Answers) {i : Nat}
    (hi : ∀ hlt : i < s.link.script.length, s.link.script[i].opens = false) :
    (s.answerAfter i).rejects = true := by
  rcases Nat.lt_or_ge i s.link.script.length with hlt | hge
  · rw [answerAfter_of_lt hlt, Exchange.rejects_eq (h.script _ (List.getElem_mem hlt)), hi hlt]
    rfl
  · obtain ⟨e, he⟩ := h.afterwards (Request.header .openSession)
    rw [answerAfter, List.getD_eq_default _ _ hge, he]
    rfl

/-- What opening a closed session comes to when it is cancelled before the attempt with index
`m`: so many attempts, and a result that says whether the last one was accepted. -/
structure OpensBySchedule (s : Session) (m : Nat) : Prop where
  frame : Request.openSession.encode = .ok (Request.header .openSession)
  attempts : ∃ n : Nat, (n : ℕ∞) = min (firstOpening s.link.script + 1) m ∧
    s.MakesAttempts n s.openSession.2
  opened : firstOpening s.link.script < m → s.openSession.1 = .ok ()
  cancelled : m ≤ firstOpening s.link.script → s.openSession.1 = .error .cancelled

theorem opensBySchedule (hclosed : s.client.phase = .closed)
    (hcancel : s.cancelAt = some (s.link.now + time)) (hr : 0 < s.retryInterval)
    (hanswers : s.link.Answers) : s.OpensBySchedule (time ⌈/⌉ s.retryInterval) := by
  generalize hm : time ⌈/⌉ s.retryInterval = m
  have hlate (h : ∀ i < m, (s.answerAfter i).rejects = true)
      (hle : m ≤ firstOpening s.link.script) : s.OpensBySchedule m := by
    subst hm
    have hrun := openSession_cancelled hclosed hcancel hr h
    refine ⟨rfl, ⟨time ⌈/⌉ s.retryInterval, ?_, ?_⟩, fun hlt => absurd hle hlt.not_ge,
      fun _ => by rw [hrun]⟩
    · rw [min_eq_right (hle.trans le_self_add)]
    · rw [hrun]
      exact makesAttempts_afterAttempts s _
  rcases hfirst : s.link.script.findIdx? Exchange.opens with - | k
  · have hnone := List.findIdx?_eq_none_iff.1 hfirst
    refine hlate (fun i _ => rejects_answerAfter hanswers fun hlt => ?_) ?_
    · exact hnone _ (List.getElem_mem hlt)
    · rw [firstOpening, hfirst]
      exact le_top
  · obtain ⟨hk, hopens, hbefore⟩ := List.findIdx?_eq_some_iff_getElem.1 hfirst
    have hindex : firstOpening s.link.script = k := by rw [firstOpening, hfirst]
    have hrejects : ∀ i < k, (s.answerAfter i).rejects = true := fun i hi =>
      rejects_answerAfter hanswers fun hlt => Bool.eq_false_iff.2 (hbefore i hi)
    rcases Nat.lt_or_ge k m with hlt | hge
    · subst hm
      have hrun := openSession_opened hclosed hcancel hr hlt hrejects
        (by rwa [answerAfter_of_lt hk])
      have hattempts := makesAttempts_afterAttempts s (k + 1)
      refine ⟨rfl, ⟨k + 1, ?_, ?_⟩, fun _ => by rw [hrun], fun hle => ?_⟩
      · rw [hindex, min_eq_left (by exact_mod_cast hlt)]
        rfl
      · rw [hrun]
        exact ⟨hattempts.sent, hattempts.script, hattempts.client, hattempts.announced⟩
      · rw [hindex] at hle
        exact absurd hlt (not_lt.2 (by exact_mod_cast hle))
    · refine hlate (fun i hi => hrejects i (hi.trans_le hge)) ?_
      rw [hindex]
      exact_mod_cast hge

/-- **Opening a session follows its schedule.**  A session that is not closed, or is cancelled
already, is left as it is.  Otherwise an attempt begins with every interval until one is accepted,
or until the session is cancelled. -/
theorem openSession_follows_schedule (s : Session) :
    (s.client.phase ≠ .closed → s.openSession = (.ok (), s)) ∧
    (s.client.phase = .closed → s.isCancelled = true → s.openSession = (.error .cancelled, s)) ∧
    ∀ time, s.client.phase = .closed → s.cancelAt = some (s.link.now + time) →
      0 < s.retryInterval → s.link.Answers → s.OpensBySchedule (time ⌈/⌉ s.retryInterval) := by
  refine ⟨fun hopen => ?_, fun hclosed hcancelled => ?_, fun time => opensBySchedule⟩
  · rw [openSession, if_neg hopen]
  · rw [openSession, if_pos hclosed]
    exact openFrom_of_isCancelled hcancelled _

/-- An exchange that fails, an error, and a session that opens with the third attempt; then it is
opened again.  The same session, cancelled at once. -/
theorem openSession_follows_schedule_third :
    let script := [.failure (.unavailable "connection refused"), .reply (Reply.errorFrame 1),
      .reply (Reply.frame 1 []), .reply (Reply.frame 1 [])]
    let s := { facing script with cancelAt := some 5000 }
    let later := s.openSession.2
    let late := { s with cancelAt := some 0 }
    s.client.phase = .closed ∧ s.cancelAt = some (s.link.now + 5000) ∧ 0 < s.retryInterval ∧
      s.link.Answers ∧ s.OpensBySchedule (5000 ⌈/⌉ 2000) ∧
      later.link.sent.map (·.time) = [0, 2000, 4000] ∧
      later.client.phase ≠ .closed ∧ later.openSession = (.ok (), later) ∧
      late.isCancelled = true ∧ late.openSession = (.error .cancelled, late) := by
  intro script s later late
  have hanswers : s.link.Answers := by
    refine ⟨?_, fun frame => ⟨_, rfl⟩⟩
    show ∀ x ∈ script, x ≠ .interrupted
    decide +kernel
  have hopen : later.client.phase ≠ .closed := by decide +kernel
  have hcancelled : late.isCancelled = true := rfl
  exact ⟨rfl, rfl, by decide, hanswers,
    (openSession_follows_schedule s).2.2 5000 rfl rfl (by decide) hanswers,
    by decide +kernel, hopen, (openSession_follows_schedule later).1 hopen, hcancelled,
    (openSession_follows_schedule late).2.1 rfl hcancelled⟩

end Session

end VmProbe
