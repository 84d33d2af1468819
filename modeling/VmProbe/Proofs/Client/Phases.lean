/-
VmProbe/Proofs/Client/Phases.lean

The phases of a session over whole runs.

A step may keep the phase or make one of a few changes (`Phase.Change`): an image comes in, the
session opens, the program starts or halts, the session is closed.  That every step does one of
these is checked once, for each step and each kind of reply (`change_next`); the laws about phases
are then read off the changes and carried through a run by induction on its steps.

The laws (`Lawful`) hold after any steps in any order, so also when the steps of several operations
are mixed, such as a load while an attempt to open a session is under way (`runs_are_lawful`).  An
open session has no image, for one that comes in moves it on.  The converse fails: a session may be
in a phase with an image and have none, but only after the server has said that it runs.
-/
import VmProbe.Proofs.Client.Response

namespace VmProbe

open Client
open Wire (Opcode Reply)

namespace Client

/-! ### One step -/

/-- The image that a step loads. -/
def Step.image? : Step → Option Loaded
  | load l => some l
  | _ => none

/-- Whether a step receives the reply to a request to run or to go on. -/
def Step.Starts : Step → Prop
  | receive r => r.opcode = .run ∨ r.opcode = .resume
  | _ => False

/-- The phase after a step. -/
def Phase.next (hasImage : Bool) (p : Phase) : Step → Phase
  | .load _ => if p = opened then fileLoaded else p
  | .close => closed
  | .receive r => p.after hasImage r
  | _ => p

variable {c : Client} {p q : Phase} {t : Step} {hasImage : Bool} {r : Reply}

theorem phase_apply (c : Client) (t : Step) :
    (t.apply c).phase = c.phase.next c.loaded.isSome t := by
  cases t with
  | load l => exact (moves_load c l).phase
  | toggle a => rfl
  | close => exact (moves_close c).phase
  | print line => rfl
  | receive r => exact (takes_receive c r).phase

theorem loaded_apply (c : Client) (t : Step) : (t.apply c).loaded = t.image?.or c.loaded := by
  cases t with
  | load l => exact (moves_load c l).loaded
  | toggle a => rfl
  | close => exact (moves_close c).loaded
  | print line => rfl
  | receive r => exact (takes_receive c r).loaded

/-! ### Changes of phase -/

/-- What a step can do to the phase, when `hasImage` says whether an image is loaded. -/
inductive Phase.Change (hasImage : Bool) (t : Step) : Phase → Phase → Prop
  /-- An open session stays open only if no image comes in. -/
  | stays (p : Phase) (h : p = opened → t.image? = none) : Change hasImage t p p
  | loads (h : t.image?.isSome) : Change hasImage t opened fileLoaded
  | opensWithout (h : hasImage = false) (ht : t.image? = none) : Change hasImage t closed opened
  | opensWith (h : hasImage = true) : Change hasImage t closed fileLoaded
  | starts (p : Phase) (h : t.Starts) : Change hasImage t p running
  | halts : Change hasImage t running fileLoaded
  | closes (p : Phase) : Change hasImage t p closed

theorem Phase.change_halted (h : t.image? = none) (p : Phase) : Change hasImage t p p.halted := by
  cases p with
  | running => exact .halts
  | _ => exact .stays _ fun _ => h

theorem Phase.change_acknowledged (hasImage : Bool) (p : Phase) (r : Reply) :
    Change hasImage (.receive r) p (p.acknowledged hasImage r.opcode) := by
  have hstays : Change hasImage (.receive r) p p := .stays p fun _ => rfl
  rcases ho : r.opcode
  case openSession =>
    rw [acknowledged]
    split_ifs with h
    · subst h
      cases hasImage with
      | false => exact .opensWithout rfl rfl
      | true => exact .opensWith rfl
    · exact hstays
  case closeSession => exact .closes p
  case run => exact .starts p (.inl ho)
  case resume => exact .starts p (.inr ho)
  case stop => exact change_halted rfl p
  case executionFinished => exact change_halted rfl p
  all_goals exact hstays

theorem Phase.change_after (hasImage : Bool) (p : Phase) (r : Reply) :
    Change hasImage (.receive r) p (p.after hasImage r) := by
  rw [after]
  split
  · next e _ =>
    cases e with
    | fault kind => exact change_halted rfl p
    | _ => exact .stays p fun _ => rfl
  · exact change_acknowledged hasImage p r

/-- Every step makes one of the changes. -/
theorem Phase.change_next (hasImage : Bool) (p : Phase) (t : Step) :
    Change hasImage t p (p.next hasImage t) := by
  cases t with
  | load l =>
    rw [next]
    split_ifs with h
    · subst h
      exact .loads rfl
    · exact .stays p fun hp => absurd hp h
  | close => exact .closes p
  | receive r => exact change_after hasImage p r
  | _ => exact .stays p fun _ => rfl

/-- `p.Allows q`: a session may go from one phase to the other.  It is open without an image only
after it was closed; with an image it goes on to run, and from there back, or it is closed. -/
structure Phase.Allows (p q : Phase) : Prop where
  opened : q = .opened → p = .closed
  fileLoaded : p = .fileLoaded → q = .running ∨ q = .closed
  running : p = .running → q = .fileLoaded ∨ q = .closed

theorem Phase.Change.eq_or_allows (h : Change hasImage t p q) : p = q ∨ p.Allows q := by
  cases h with
  | stays => exact .inl rfl
  | loads => exact .inr ⟨nofun, nofun, nofun⟩
  | opensWithout => exact .inr ⟨fun _ => rfl, nofun, nofun⟩
  | opensWith => exact .inr ⟨nofun, nofun, nofun⟩
  | starts =>
    by_cases hp : p = Phase.running
    · exact .inl hp
    · exact .inr ⟨nofun, fun _ => .inl rfl, fun h => absurd h hp⟩
  | halts => exact .inr ⟨nofun, nofun, fun _ => .inl rfl⟩
  | closes => exact .inr ⟨nofun, fun _ => .inr rfl, fun _ => .inr rfl⟩

/-- A session is open only if it was and no image came in, or if there is none. -/
theorem Phase.Change.of_opened (h : Change hasImage t p .opened) :
    t.image? = none ∧ (p = .opened ∨ hasImage = false) := by
  cases h with
  | stays _ h => exact ⟨h rfl, .inl rfl⟩
  | opensWithout h ht => exact ⟨ht, .inr h⟩

/-- Without an image, a session comes to a phase for one from such a phase, or because the server
says that it runs. -/
theorem Phase.Change.of_started (h : Change false t p q) (ht : t.image? = none)
    (hq : q = .fileLoaded ∨ q = .running) : (p = .fileLoaded ∨ p = .running) ∨ t.Starts := by
  cases h with
  | stays => exact .inl hq
  | loads h => rw [ht] at h; cases h
  | opensWithout => rcases hq with h | h <;> cases h
  | opensWith h => cases h
  | starts _ h => exact .inr h
  | halts => exact .inl (.inr rfl)
  | closes => rcases hq with h | h <;> cases h

/-! ### Runs -/

/-- The laws about the phase and the image, after some steps of a new client. -/
structure Lawful (steps : List Step) : Prop where
  /-- An open session has no image. -/
  opened : (new.through steps).phase = .opened → (new.through steps).loaded = none
  /-- An image stays loaded, or is replaced by another. -/
  kept : ∀ earlier later, steps = earlier ++ later → (new.through earlier).loaded.isSome →
    (new.through steps).loaded.isSome
  /-- What is loaded is an image that was read from bytes, with its own listing. -/
  read : ∀ l, (new.through steps).loaded = some l →
    ∃ bytes, Image.parse bytes = .ok l.image ∧ l.image.disassemble = .ok l.lines
  /-- Each step keeps the phase, or moves it to one that may come next. -/
  moves : ∀ earlier t later, steps = earlier ++ t :: later →
    (new.through earlier).phase = (new.through (earlier ++ [t])).phase ∨
      (new.through earlier).phase.Allows (new.through (earlier ++ [t])).phase
  /-- A phase with an image is reached without one only by a reply that the program runs. -/
  started : (new.through steps).phase = .fileLoaded ∨ (new.through steps).phase = .running →
    (new.through steps).loaded = none →
      ∃ r, .receive r ∈ steps ∧ (r.opcode = .run ∨ r.opcode = .resume)

variable {steps : List Step}

theorem change_apply (c : Client) (t : Step) :
    Phase.Change c.loaded.isSome t c.phase (t.apply c).phase := by
  rw [phase_apply]
  exact Phase.change_next _ _ t

theorem opened_through (steps : List Step) :
    (new.through steps).phase = .opened → (new.through steps).loaded = none := by
  refine through_keeps (P := fun c => c.phase = .opened → c.loaded = none) nofun ?_
  intro c hc t _ hopened
  have hchange := change_apply c t
  rw [hopened] at hchange
  obtain ⟨ht, hcases⟩ := hchange.of_opened
  rw [loaded_apply, ht, Option.none_or]
  rcases hcases with hp | hnone
  · exact hc hp
  · exact Option.not_isSome_iff_eq_none.1 (Bool.eq_false_iff.1 hnone)

theorem isSome_loaded_through (h : c.loaded.isSome) (steps : List Step) :
    (c.through steps).loaded.isSome := by
  refine through_keeps (P := fun c => c.loaded.isSome) h ?_
  intro c hc t _
  rw [loaded_apply, Option.isSome_or, hc, Bool.or_true]

theorem Loaded.ofBytes_eq_ok_iff {bytes : List UInt8} {l : Loaded} :
    ofBytes bytes = .ok l ↔
      Image.parse bytes = .ok l.image ∧ l.image.disassemble = .ok l.lines := by
  constructor
  · intro h
    rw [ofBytes] at h
    split at h
    · cases h
    · next i hi =>
      split at h
      · cases h
      · next lines hlines =>
        cases h
        exact ⟨hi, hlines⟩
  · rintro ⟨hi, hlines⟩
    rw [ofBytes, hi]
    dsimp only
    rw [hlines]

theorem read_through (h : ∀ t ∈ steps, t.FromBytes) : ∀ l, (new.through steps).loaded = some l →
    ∃ bytes, Image.parse bytes = .ok l.image ∧ l.image.disassemble = .ok l.lines := by
  refine through_keeps (P := fun c => ∀ l, c.loaded = some l →
    ∃ bytes, Image.parse bytes = .ok l.image ∧ l.image.disassemble = .ok l.lines) nofun ?_
  intro c hc t ht l hl
  rw [loaded_apply] at hl
  -- only a load brings an image in
  cases t with
  | load l' =>
    obtain ⟨bytes, hbytes⟩ := h _ ht
    obtain rfl : l' = l := Option.some.inj hl
    exact ⟨bytes, Loaded.ofBytes_eq_ok_iff.1 hbytes⟩
  | _ => exact hc l hl

theorem started_through (steps : List Step) :
    (new.through steps).phase = .fileLoaded ∨ (new.through steps).phase = .running →
      (new.through steps).loaded = none → ∃ t ∈ steps, t.Starts := by
  refine through_keeps (P := fun c => c.phase = .fileLoaded ∨ c.phase = .running →
    c.loaded = none → ∃ t ∈ steps, t.Starts) ?_ ?_
  · rintro (h | h) <;> cases h
  · intro c hc t ht hphase hloaded
    -- there was no image before, and none came in with this step
    rw [loaded_apply, Option.or_eq_none_iff] at hloaded
    have hchange := change_apply c t
    rw [hloaded.2] at hchange
    rcases hchange.of_started hloaded.1 hphase with hbefore | hstarts
    · exact hc hbefore hloaded.2
    · exact ⟨t, ht, hstarts⟩

/-- **The laws about phases hold after any steps in any order,** and every list of operations is
such a list of steps, whatever the server answers. -/
theorem runs_are_lawful :
    (∀ steps : List Step, (∀ t ∈ steps, t.FromBytes) → Lawful steps) ∧
    ∀ (link : Link) (retryInterval : Nat) (turns : List Turn), ∃ steps : List Step,
      (∀ t ∈ steps, t.FromBytes) ∧
        ((Session.new link retryInterval).play turns).client = new.through steps := by
  refine ⟨fun steps h => ⟨opened_through steps, ?kept, read_through h, ?moves, ?started⟩, ?plays⟩
  case kept =>
    rintro earlier later rfl hloaded
    rw [through_append]
    exact isSome_loaded_through hloaded later
  case moves =>
    intro earlier t later _
    rw [through_append]
    exact (change_apply (new.through earlier) t).eq_or_allows
  case started =>
    intro hphase hloaded
    obtain ⟨t, ht, hstarts⟩ := started_through steps hphase hloaded
    cases t with
    | receive r => exact ⟨r, ht, hstarts⟩
    | _ => cases hstarts
  case plays =>
    intro link retryInterval turns
    exact Session.reaches_play (Session.new link retryInterval) turns

/-- A server that says that a program runs and then that it divided by zero, before anything else:
the client is in a phase with an image and has none. -/
theorem runs_are_lawful_without_image :
    let r : Reply := ⟨.run, .registers (Machine.Register.all.map (·, 0)) []⟩
    let steps := [Step.receive r, .receive ⟨.error, .error (.fault .divisionByZero)⟩]
    (∀ t ∈ steps, t.FromBytes) ∧ (new.through steps).phase = .fileLoaded ∧
      (new.through steps).loaded = none ∧ Lawful steps := by
  intro r steps
  have hrun : Reply.parse (Reply.registerFrame 0xE0 [] []) = .ok r := by decide +kernel
  have hfault : Reply.parse (Reply.faultFrame 30) =
      .ok ⟨.error, .error (.fault .divisionByZero)⟩ := by decide +kernel
  have hbytes : ∀ t ∈ steps, t.FromBytes :=
    List.forall_mem_cons.2 ⟨⟨_, hrun⟩, List.forall_mem_singleton.2 ⟨_, hfault⟩⟩
  exact ⟨hbytes, by decide +kernel, by decide +kernel, runs_are_lawful.1 steps hbytes⟩

end Client

end VmProbe
