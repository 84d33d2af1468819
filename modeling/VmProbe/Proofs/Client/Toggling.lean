/-
VmProbe/Proofs/Client/Toggling.lean

The breakpoints of a client, and those of a server that does what it is told.

A toggle changes the set first and then makes one request, which sets or removes the breakpoint
according to the set as it is by then.  No other operation changes the set or makes such a
request (`breakpoints_operate`), and no reply does.  So the set after a run is known in two ways:
from the toggles of the user, since an address is in it after an odd number of them, and from the
frames that were sent, by following their requests from the empty set (`Request.track`).  Neither
depends on what the server answers (`breakpoints_agree`).
-/
import VmProbe.Proofs.Client.Breakpoints
import VmProbe.Proofs.Client.Response
import VmProbe.Proofs.Client.Sending

namespace VmProbe

open Client
open Wire (Opcode Reply Request)

/-- The breakpoints that are held after a request, if it may be made: a breakpoint that is held
may not be set again, and one that is not may not be removed. -/
def Wire.Request.track (held : Finset UInt64) : Request → Option (Finset UInt64)
  | .setBreakpoint a => if a ∈ held then none else some (insert a held)
  | .removeBreakpoint a => if a ∈ held then some (held.erase a) else none
  | _ => some held

/-- The breakpoints after an operation. -/
def Operation.after (b : Breakpoints) : Operation → Breakpoints
  | .toggleBreakpoint a => b.toggle a
  | _ => b

variable {a : UInt64} {b : Breakpoints} {o : Operation}

theorem Operation.after_of_ne (h : ∀ a, o ≠ .toggleBreakpoint a) : o.after b = b := by
  cases o with
  | toggleBreakpoint a => exact absurd rfl (h a)
  | _ => rfl

theorem Operation.mem_after_iff :
    a ∈ o.after b ↔ (a ∈ b ↔ o ≠ .toggleBreakpoint a) := by
  cases o with
  | toggleBreakpoint a' =>
    by_cases h : a = a'
    · subst h
      simp [after, Breakpoints.mem_toggle_self]
    · simp [after, Breakpoints.mem_toggle_of_ne h, Ne.symm h]
  | _ => simp [after]

namespace Client

variable {c c' : Client} {S : Step → Prop} {t : Step}

/-! ### Steps -/

theorem breakpoints_apply (h : ∀ a, t ≠ .toggle a) (c : Client) :
    (t.apply c).breakpoints = c.breakpoints := by
  cases t with
  | load l => exact (moves_load c l).breakpoints
  | toggle a => exact absurd rfl (h a)
  | close => exact (moves_close c).breakpoints
  | print line => rfl
  | receive r => exact (takes_receive c r).breakpoints

theorem Reaches.breakpoints (h : c.Reaches S c') (hS : ∀ a, ¬ S (.toggle a)) :
    c'.breakpoints = c.breakpoints := by
  refine h.keeps (f := Client.breakpoints) fun c t ht => breakpoints_apply ?_ c
  rintro a rfl
  exact hS a ht

/-- What a toggle returns is whether the breakpoint is set in the end. -/
theorem toggleBreakpoint_returns (c : Client) (a : UInt64) :
    (c.toggleBreakpoint a).Always fun x => ∀ isSet, x.1 = .ok isSet →
      (isSet = true ↔ a ∈ x.2.breakpoints) := by
  rw [toggleBreakpoint]
  refine (reaches_request (c.toggle a) _).map fun x hx isSet hok => ?_
  -- whatever came back, the set is still as the toggle has left it
  have hkept : x.2.breakpoints = (c.toggle a).breakpoints := hx.breakpoints fun _ h => h
  rcases hresult : x.1 with e | u <;> rw [hresult] at hok
  · cases hok
  · obtain rfl : decide (a ∈ (c.toggle a).breakpoints) = isSet := Except.ok.inj hok
    rw [decide_eq_true_iff, hkept]

end Client

/-! ### Requests -/

section Requests

variable {c : Client} {r : Request} {rs : List Request} {held : Finset UInt64}

theorem Wire.Request.foldlM_track_eq (h : ∀ r ∈ rs, r.track held = some held) :
    rs.foldlM track held = some held := by
  induction rs with
  | nil => rfl
  | cons r rs ih =>
    rw [List.foldlM_cons, h r List.mem_cons_self]
    exact ih fun r' hr' => h r' (List.mem_cons_of_mem r hr')

/-- Only toggles make requests about breakpoints. -/
theorem Operation.track_of_mem_requests (ho : ∀ a, o ≠ .toggleBreakpoint a)
    (h : r ∈ o.requests c) : r.track held = some held := by
  cases o with
  | loadImage bytes => cases h
  | openSession => cases h
  | closeSession =>
    rw [requests] at h
    split_ifs at h
    · cases h
    · obtain rfl := List.mem_singleton.1 h
      rfl
  | run file =>
    obtain rfl := Request.eq_of_mem_written h
    rfl
  | runLoaded =>
    rw [requests] at h
    split at h
    · cases h
    · obtain rfl := Request.eq_of_mem_written h
      rfl
  | toggleBreakpoint a => exact absurd rfl (ho a)
  | _ =>
    obtain rfl := List.mem_singleton.1 h
    rfl

/-- The request of a toggle may be made, and is followed by what the toggle does. -/
theorem Operation.foldlM_track_requests (o : Operation) (c : Client) :
    (o.requests c).foldlM Request.track c.breakpoints.toFinset =
      some (o.after c.breakpoints).toFinset := by
  by_cases ho : ∃ a, o = .toggleBreakpoint a
  · obtain ⟨a, rfl⟩ := ho
    rw [requests, after]
    simp only [List.foldlM_cons, List.foldlM_nil, bind_pure]
    by_cases ha : a ∈ c.breakpoints
    · have hset : ¬ a ∈ c.breakpoints.toggle a := by simp [Breakpoints.mem_toggle_self, ha]
      rw [if_neg hset, Request.track, if_pos (Breakpoints.mem_toFinset.2 ha),
        Breakpoints.toFinset_toggle_of_mem ha]
    · have hset : a ∈ c.breakpoints.toggle a := Breakpoints.mem_toggle_self.2 ha
      rw [if_pos hset, Request.track, if_neg (mt Breakpoints.mem_toFinset.1 ha),
        Breakpoints.toFinset_toggle_of_not_mem ha]
  · have hother := not_exists.1 ho
    rw [after_of_ne hother]
    exact Request.foldlM_track_eq fun r hr => track_of_mem_requests hother hr

end Requests

/-! ### Operations and turns -/

namespace Session

/-- Only toggles change the breakpoints. -/
theorem breakpoints_operate (s : Session) (o : Operation) :
    (s.operate o).client.breakpoints = o.after s.client.breakpoints := by
  by_cases ho : ∃ a, o = .toggleBreakpoint a
  · obtain ⟨a, rfl⟩ := ho
    exact ((reaches_toggleBreakpoint s.client a).over s.link).breakpoints fun _ h => h
  · have hother := not_exists.1 ho
    rw [Operation.after_of_ne hother]
    exact (reaches_operate s o).breakpoints hother

theorem sends_track (s : Session) (o : Operation) :
    ∃ rs, s.link.Sends rs (s.operate o).link ∧
      rs.foldlM Request.track s.client.breakpoints.toFinset =
        some (s.operate o).client.breakpoints.toFinset := by
  rw [breakpoints_operate]
  by_cases ho : o = .openSession
  · subst ho
    obtain ⟨n, hn⟩ := sends_openSession s
    refine ⟨_, hn, Request.foldlM_track_eq fun r hr => ?_⟩
    obtain rfl := List.eq_of_mem_replicate hr
    rfl
  · exact ⟨_, sends_operate s ho, o.foldlM_track_requests s.client⟩

/-- An address is in the set after an even number of toggles if and only if it was before. -/
theorem mem_breakpoints_play_iff (s : Session) (turns : List Turn) (a : UInt64) :
    a ∈ (s.play turns).client.breakpoints ↔
      (a ∈ s.client.breakpoints ↔
        Even (turns.countP (·.operation = .toggleBreakpoint a))) := by
  induction turns generalizing s with
  | nil => simp [play]
  | cons t turns ih =>
    have hturn : (s.turn t).client.breakpoints = t.operation.after s.client.breakpoints :=
      breakpoints_operate _ t.operation
    show a ∈ ((s.turn t).play turns).client.breakpoints ↔ _
    rw [ih, hturn, Operation.mem_after_iff, List.countP_cons]
    -- a toggle of this address changes both sides, and anything else neither
    by_cases ht : t.operation = .toggleBreakpoint a
    · simp only [ht, decide_true, if_true, Nat.even_add_one]
      tauto
    · simp [ht]

theorem play_sends_track (s : Session) (turns : List Turn) :
    ∃ rs, s.link.Sends rs (s.play turns).link ∧
      rs.foldlM Request.track s.client.breakpoints.toFinset =
        some (s.play turns).client.breakpoints.toFinset := by
  induction turns generalizing s with
  | nil => exact ⟨[], .refl _, rfl⟩
  | cons t turns ih =>
    obtain ⟨rs, hsends, htrack⟩ : ∃ rs, s.link.Sends rs (s.turn t).link ∧
        rs.foldlM Request.track s.client.breakpoints.toFinset =
          some (s.turn t).client.breakpoints.toFinset := sends_track _ t.operation
    obtain ⟨rs', hsends', htrack'⟩ := ih (s.turn t)
    refine ⟨rs ++ rs', hsends.trans hsends', ?_⟩
    rw [List.foldlM_append, htrack]
    exact htrack'

/-- The breakpoints of a session agree with what was done and with what was sent since it was
new at a link. -/
structure Agrees (s : Session) (link : Link) (turns : List Turn) : Prop where
  /-- The set has the addresses that were toggled an odd number of times. -/
  toggled : ∀ a, a ∈ s.client.breakpoints ↔
    Odd (turns.countP (·.operation = .toggleBreakpoint a))
  ascending : s.client.breakpoints.addresses.Pairwise (· < ·)
  /-- Following all requests that were sent, none of which may not be made, leads to the set. -/
  tracked : ∃ rs, link.Sends rs s.link ∧
    rs.foldlM Request.track ∅ = some s.client.breakpoints.toFinset

/-- **The breakpoints agree with what was done and with what was sent,** after any turns and
whatever came back.  A toggle sends one frame, which sets the breakpoint if it is absent and
removes it if it is present, and what it returns is whether it is set in the end.  No other
operation changes the set, and no reply does. -/
theorem breakpoints_agree :
    (∀ (link : Link) (retryInterval : Nat) (turns : List Turn),
      ((new link retryInterval).play turns).Agrees link turns) ∧
    (∀ (s : Session) (a : UInt64),
      let x := s.perform fun c => c.toggleBreakpoint a
      let r := if a ∈ s.client.breakpoints then Request.removeBreakpoint a else .setBreakpoint a
      s.link.Sends [r] x.2.link ∧
        ∀ isSet, x.1 = .ok isSet → (isSet = true ↔ a ∈ x.2.client.breakpoints)) ∧
    (∀ (s : Session) (o : Operation), (∀ a, o ≠ .toggleBreakpoint a) →
      (s.operate o).client.breakpoints = s.client.breakpoints) ∧
    ∀ (c : Client) (r : Reply), (c.receive r).breakpoints = c.breakpoints := by
  refine ⟨fun link retryInterval turns => ⟨fun a => ?toggled, ?ascending, ?tracked⟩,
    fun s a => ⟨?sends, ?returns⟩, fun s o ho => ?others, fun c r => ?replies⟩
  case toggled =>
    have hnew : a ∉ (new link retryInterval).client.breakpoints := List.not_mem_nil
    rw [mem_breakpoints_play_iff, iff_false_left hnew, Nat.not_even_iff_odd]
  case ascending => exact Breakpoints.ascending _
  case tracked => exact play_sends_track (new link retryInterval) turns
  case sends =>
    have hsends := sends_operate s (o := .toggleBreakpoint a) (by rintro ⟨⟩)
    rw [Operation.requests] at hsends
    simp only [Breakpoints.mem_toggle_self, ite_not] at hsends
    exact hsends
  case returns => exact (toggleBreakpoint_returns s.client a).over s.link
  case others => rw [breakpoints_operate, Operation.after_of_ne ho]
  case replies => exact (takes_receive c r).breakpoints

/-- The server accepts a breakpoint. -/
theorem breakpoints_agree_accepted :
    let script := [.reply (Reply.frame Opcode.setBreakpoint.toByte [])]
    let x := (new { Link.silent with script } 2000).perform fun c => c.toggleBreakpoint 0x40
    x.1 = .ok true ∧ 0x40 ∈ x.2.client.breakpoints := by
  intro script x
  have hresult : x.1 = .ok true := by decide +kernel
  exact ⟨hresult, ((breakpoints_agree.2.1 _ 0x40).2 true hresult).1 rfl⟩

end Session

end VmProbe
