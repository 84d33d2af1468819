/-
VmProbe/Proofs/Client/Sending.lean

What operations send.

`d.Says rs` says that the frames which a dialogue hands over are read as the requests `rs`, one
after another, whatever comes back for them; `l.Sends rs l'` says the same of what a link was
given.  An operation makes one request at most, which depends on the client alone
(`Operation.requests`); only opening a session may repeat its own.

Main statement: what an operation sends is read as its requests (`sends_operate`,
`sends_openSession`), so the frames of a whole run can be read back one by one.
-/
import VmProbe.Proofs.Client.Run
import VmProbe.Proofs.Wire.Request

namespace VmProbe

open Client
open Wire (Request)

/-! ### Requests -/

/-- A request as it is sent: not at all if it has no frame. -/
def Wire.Request.written (r : Request) : List Request :=
  match r.encode with
  | .error _ => []
  | .ok _ => [r]

theorem Wire.Request.eq_of_mem_written {q r : Request} (h : q ∈ r.written) : q = r := by
  rw [written] at h
  split at h
  · cases h
  · exact List.mem_singleton.1 h

/-- The requests that an operation makes, other than opening a session. -/
def Operation.requests (c : Client) : Operation → List Request
  | .loadImage _ => []
  | .openSession => []
  | .closeSession => if c.phase = .closed then [] else [.closeSession]
  | .run file => (Request.run file).written
  | .runLoaded =>
    match c.loaded with
    | none => []
    | some l => (Request.run l.image.bytes).written
  | .step => [.nextInstruction]
  | .resume => [.resume]
  | .stop => [.stop]
  | .refresh => [.getRegisters]
  | .toggleBreakpoint a =>
    [if a ∈ c.breakpoints.toggle a then .setBreakpoint a else .removeBreakpoint a]

namespace Client

variable {α β : Type} {c : Client} {r : Request} {rs rs' : List Request} {l l' l'' : Link}
variable {frame : List UInt8}

/-! ### Links -/

/-- `l.Sends rs l'`: since `l`, the link was given frames that are read as the requests. -/
def Link.Sends (l : Link) (rs : List Request) (l' : Link) : Prop :=
  ∃ frames : List Sent, l'.sent = l.sent ++ frames ∧
    frames.map (fun f => Request.parse f.frame) = rs.map .ok

theorem Link.Sends.refl (l : Link) : l.Sends [] l := ⟨[], (List.append_nil _).symm, rfl⟩

theorem Link.Sends.trans (h : l.Sends rs l') (h' : l'.Sends rs' l'') :
    l.Sends (rs ++ rs') l'' := by
  obtain ⟨frames, hsent, hread⟩ := h
  obtain ⟨frames', hsent', hread'⟩ := h'
  refine ⟨frames ++ frames', ?_, ?_⟩
  · rw [hsent', hsent, List.append_assoc]
  · rw [List.map_append, List.map_append, hread, hread']

theorem Link.sends_exchange (h : Request.parse frame = .ok r) (l : Link) :
    l.Sends [r] (l.exchange frame).2 := by
  have hread : [Sent.mk l.now frame].map (fun f => Request.parse f.frame) = [r].map .ok :=
    congrArg (fun x => [x]) h
  rw [exchange]
  rcases l.script with - | ⟨x, script⟩
  · exact ⟨_, rfl, hread⟩
  · exact ⟨_, rfl, hread⟩

/-! ### Dialogues -/

/-- `d.Says rs`: the frames of the dialogue are read as the requests, whatever comes back. -/
def Dialogue.Says : Dialogue α → List Request → Prop
  | .done _, rs => rs = []
  | .ask frame next, rs =>
    ∃ r rest, rs = r :: rest ∧ Request.parse frame = .ok r ∧ ∀ x, (next x).Says rest

theorem Dialogue.Says.map {d : Dialogue α} (h : d.Says rs) (f : α → β) : (d.map f).Says rs := by
  induction d generalizing rs with
  | done a => exact h
  | ask frame next ih =>
    obtain ⟨r, rest, rfl, hr, hrest⟩ := h
    exact ⟨r, rest, rfl, hr, fun x => ih x (hrest x)⟩

theorem Dialogue.Says.over {d : Dialogue α} (h : d.Says rs) (l : Link) :
    l.Sends rs (d.over l).2 := by
  induction d generalizing rs l with
  | done a =>
    obtain rfl : rs = [] := h
    exact .refl l
  | ask frame next ih =>
    obtain ⟨r, rest, rfl, hr, hrest⟩ := h
    exact (Link.sends_exchange hr l).trans (ih _ (hrest _) _)

/-- What is sent is read as what it was written for. -/
theorem says_send (c : Client) (r : Request) (next : List UInt8 → Client.Result α) :
    (c.send r next).Says r.written := by
  rw [send, Request.written]
  rcases hr : r.encode with e | frame
  · exact rfl
  · have hread : Request.parse frame = .ok r :=
      Request.parse_eq_ok_iff.2 ⟨frame, hr, List.prefix_rfl⟩
    refine ⟨r, [], rfl, hread, fun x => ?_⟩
    cases x with
    | reply bytes => exact rfl
    | failure e => exact rfl
    | interrupted => exact rfl

theorem says_request (c : Client) (r : Request) : (c.request r).Says r.written :=
  (says_send c r c.accept).map _

theorem says_closeSession (c : Client) :
    c.closeSession.Says (Operation.closeSession.requests c) := by
  rw [closeSession, Operation.requests]
  split_ifs
  · exact rfl
  · exact (says_send c .closeSession _).map _

theorem says_runLoaded (c : Client) : c.runLoaded.Says (Operation.runLoaded.requests c) := by
  rw [runLoaded, Operation.requests]
  rcases c.loaded with - | l
  · exact rfl
  · exact says_request c (.run l.image.bytes)

theorem says_toggleBreakpoint (c : Client) (a : UInt64) :
    (c.toggleBreakpoint a).Says ((Operation.toggleBreakpoint a).requests c) := by
  have hset : a ∈ (c.toggle a).breakpoints ↔ a ∈ c.breakpoints.toggle a := Iff.rfl
  rw [toggleBreakpoint, Operation.requests]
  simp only [hset, decide_eq_true_eq]
  refine Dialogue.Says.map ?_ _
  split_ifs
  · exact says_request (c.toggle a) (.setBreakpoint a)
  · exact says_request (c.toggle a) (.removeBreakpoint a)

end Client

/-! ### Operations -/

namespace Session

variable {α : Type} {s : Session} {o : Operation}

theorem sends_perform {rs : List Request} {operation : Client → Dialogue (Client.Result α)}
    (h : (operation s.client).Says rs) : s.link.Sends rs (s.perform operation).2.link :=
  h.over s.link

/-- **What an operation sends is read as its requests.** -/
theorem sends_operate (s : Session) (ho : o ≠ .openSession) :
    s.link.Sends (o.requests s.client) (s.operate o).link := by
  cases o with
  | loadImage bytes => exact .refl s.link
  | openSession => exact absurd rfl ho
  | closeSession => exact sends_perform (says_closeSession s.client)
  | run file => exact sends_perform (says_request s.client (.run file))
  | runLoaded => exact sends_perform (says_runLoaded s.client)
  | step => exact sends_perform (says_request s.client .nextInstruction)
  | resume => exact sends_perform (says_request s.client .resume)
  | stop => exact sends_perform (says_request s.client .stop)
  | refresh => exact sends_perform (says_request s.client .getRegisters)
  | toggleBreakpoint a => exact sends_perform (says_toggleBreakpoint s.client a)

theorem sends_openFrom (attempts : Nat) (s : Session) :
    ∃ n, s.link.Sends (List.replicate n .openSession) (openFrom attempts s).2.link := by
  induction attempts generalizing s with
  | zero =>
    rw [openFrom, cancel]
    refine ⟨0, ?_⟩
    split_ifs
    · exact .refl _
    · exact .refl _
  | succ attempts ih =>
    have hone : s.link.Sends [.openSession] (s.perform openAttempt).2.link :=
      sends_perform (says_send _ .openSession _)
    rw [openFrom]
    split_ifs
    · exact ⟨0, .refl _⟩
    · split
      · next s' hs => exact ⟨1, by rwa [hs] at hone⟩
      · next s' hs => exact ⟨1, by rwa [hs] at hone⟩
      · next r s' _ _ hs =>
        -- waiting sends nothing, so the other attempts go on from here
        rw [hs] at hone
        obtain ⟨n, hn⟩ := ih s'.wait
        exact ⟨n + 1, hone.trans hn⟩

/-- **Opening a session sends its own request,** once for each attempt. -/
theorem sends_openSession (s : Session) :
    ∃ n, s.link.Sends (List.replicate n .openSession) s.openSession.2.link := by
  rw [openSession]
  split_ifs
  · exact sends_openFrom _ s
  · exact ⟨0, .refl _⟩

end Session

end VmProbe
