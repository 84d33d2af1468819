/-
VmProbe/Proofs/Client/Mirror.lean

The events of a client tell all of its state.

A view that starts empty and follows the events (`View.replay`) needs nothing else to show the
phase, the registers, the breakpoints, what is loaded and the console.  The view has its own
rule for the console: what the program printed is appended as it is, and a line about the
session begins on a line of its own.

`c.Follows c'` says that `c'` has published exactly what changed since `c`.  It composes, and
each of the small changes that the steps are made of has it; so do the steps, and so do all
runs.  What a new client follows is mirrored by its events (`Mirrors`): besides the replay,
the last event of each kind is the state, and no phase is announced twice in a row.
-/
import VmProbe.Proofs.Client.Run

namespace VmProbe

open Client
open Wire (Opcode Reply ServerError)

/-! ### Views -/

namespace Client

namespace Event

/-- The phase that an event announces. -/
def phase? : Event → Option Phase
  | phase p => some p
  | _ => none

/-- The registers in an event. -/
def registers? : Event → Option Machine.Bank
  | registers bank => some bank
  | _ => none

/-- The breakpoints in an event. -/
def breakpoints? : Event → Option (List UInt64)
  | breakpoints addresses => some addresses
  | _ => none

/-- The entry address and the number of lines in an event. -/
def loaded? : Event → Option (UInt64 × Nat)
  | loaded entry lines => some (entry, lines)
  | _ => none

end Event

/-- A text that the next line can be put after: a line break is added unless there is one, or
the text is empty. -/
def freshLine (text : String) : String :=
  if text.toList.getLast? = none ∨ text.toList.getLast? = some '\n' then text else text ++ "\n"

/-- The console after an event. -/
def Event.write (console : String) : Event → String
  | .status line => freshLine console ++ line ++ "\n"
  | .output text => console ++ text
  | _ => console

/-- What the events so far show. -/
structure View where
  phase : Phase
  bank : Machine.Bank
  breakpoints : List UInt64
  /-- The entry address and the number of lines of the image. -/
  loaded : Option (UInt64 × Nat)
  console : String
  deriving DecidableEq

namespace View

/-- The view before any event. -/
def initial : View where
  phase := .closed
  bank := .blank
  breakpoints := []
  loaded := none
  console := ""

/-- The view after an event. -/
def see (v : View) : Event → View
  | .phase p => { v with phase := p }
  | .registers bank => { v with bank }
  | .breakpoints addresses => { v with breakpoints := addresses }
  | .loaded entry lines => { v with loaded := some (entry, lines) }
  | .status line => { v with console := (Event.status line).write v.console }
  | .output text => { v with console := (Event.output text).write v.console }

/-- The view after some events, the first one first. -/
def replay (v : View) (es : List Event) : View := es.foldl see v

theorem replay_append (v : View) (es fs : List Event) :
    v.replay (es ++ fs) = (v.replay es).replay fs := List.foldl_append

/-! ### The last events -/

/-- A field that some events set shows what the last of them says. -/
theorem field_replay {α : Type} {field : View → α} {pick : Event → Option α}
    (h : ∀ v e, field (v.see e) = (pick e).getD (field v)) (v : View) (es : List Event) :
    field (v.replay es) = (es.filterMap pick).getLastD (field v) := by
  induction es generalizing v with
  | nil => rfl
  | cons e es ih =>
    show field ((v.see e).replay es) = _
    rw [ih, h]
    rcases he : pick e with - | a
    · rw [List.filterMap_cons_none he]
      rfl
    · rw [List.filterMap_cons_some he, List.getLastD_cons]
      rfl

theorem phase_replay (v : View) (es : List Event) :
    (v.replay es).phase = (es.filterMap Event.phase?).getLastD v.phase :=
  field_replay (fun _ e => by cases e <;> rfl) v es

theorem bank_replay (v : View) (es : List Event) :
    (v.replay es).bank = (es.filterMap Event.registers?).getLastD v.bank :=
  field_replay (fun _ e => by cases e <;> rfl) v es

theorem breakpoints_replay (v : View) (es : List Event) :
    (v.replay es).breakpoints = (es.filterMap Event.breakpoints?).getLastD v.breakpoints :=
  field_replay (fun _ e => by cases e <;> rfl) v es

theorem loaded_replay (v : View) (es : List Event) :
    (v.replay es).loaded = (es.filterMap Event.loaded?).getLast?.or v.loaded := by
  induction es generalizing v with
  | nil => rfl
  | cons e es ih =>
    show ((v.see e).replay es).loaded = _
    rw [ih]
    cases e with
    | loaded entry lines =>
      -- what is loaded before counts only if nothing is loaded after it
      have he : (Event.loaded entry lines).loaded? = some (entry, lines) := rfl
      rw [List.filterMap_cons_some he, List.getLast?_cons]
      rcases (es.filterMap Event.loaded?).getLast? with - | l <;> rfl
    | _ => rfl

theorem console_replay (v : View) (es : List Event) :
    (v.replay es).console = es.foldl Event.write v.console := by
  induction es generalizing v with
  | nil => rfl
  | cons e es ih =>
    show ((v.see e).replay es).console = _
    rw [ih]
    cases e <;> rfl

end View

/-! ### What a client publishes -/

variable {c c' c'' : Client} {es fs : List Event} {p q : Phase}

/-- What a view of the client shows. -/
def view (c : Client) : View where
  phase := c.phase
  bank := c.bank
  breakpoints := c.breakpoints.addresses
  loaded := c.loaded.map fun l => (l.image.entry, l.lines.length)
  console := c.console

/-- No event of the list announces the phase that holds already, when `p` is the phase before
them. -/
def Announces (p : Phase) (es : List Event) : Prop :=
  (p :: es.filterMap Event.phase?).IsChain (· ≠ ·)

theorem Announces.append (h : Announces p es) (hq : q = (es.filterMap Event.phase?).getLastD p)
    (h' : Announces q fs) : Announces p (es ++ fs) := by
  rw [Announces] at h h' ⊢
  rw [List.filterMap_append]
  -- only the phases of the first part matter, and its last one is where the second begins
  generalize es.filterMap Event.phase? = ps at h hq ⊢
  induction ps generalizing p with
  | nil => subst hq; exact h'
  | cons r ps ih =>
    obtain ⟨hne, hps⟩ := List.isChain_cons_cons.1 h
    rw [List.getLastD_cons] at hq
    exact List.isChain_cons_cons.2 ⟨hne, ih hps hq⟩

/-- `c.Follows c'`: what `c'` has published since `c` is exactly what changed. -/
def Follows (c c' : Client) : Prop :=
  ∃ es, c'.published = c.published ++ es ∧ c'.view = c.view.replay es ∧ Announces c.phase es

theorem Follows.refl (c : Client) : c.Follows c :=
  ⟨[], (List.append_nil _).symm, rfl, List.isChain_singleton _⟩

theorem Follows.trans (h : c.Follows c') (h' : c'.Follows c'') : c.Follows c'' := by
  obtain ⟨es, hpub, hview, hann⟩ := h
  obtain ⟨fs, hpub', hview', hann'⟩ := h'
  refine ⟨es ++ fs, ?_, ?_, ?_⟩
  · rw [hpub', hpub, List.append_assoc]
  · rw [hview', hview, View.replay_append]
  · have hphase : c'.phase = (es.filterMap Event.phase?).getLastD c.phase :=
      (congrArg View.phase hview).trans (View.phase_replay c.view es)
    exact hann.append hphase hann'

/-- A change that publishes one event, which is not a phase. -/
theorem Follows.of_event {e : Event} (hpub : c'.published = c.published ++ [e])
    (hview : c'.view = c.view.see e) (he : e.phase? = none) : c.Follows c' := by
  refine ⟨[e], hpub, hview, ?_⟩
  rw [Announces, List.filterMap_cons_none he]
  exact List.isChain_singleton _

/-! ### The small changes -/

theorem follows_enter (c : Client) (p : Phase) : c.Follows (c.enter p) := by
  rw [enter]
  split_ifs with h
  · exact .refl c
  · exact ⟨[.phase p], rfl, rfl, List.isChain_pair.2 h⟩

theorem appendStatus_eq (console line : String) :
    appendStatus console line = freshLine console ++ line ++ "\n" := by
  rw [appendStatus, freshLine]
  rcases h : console.toList.getLast? with - | x
  · simp
  · by_cases hx : x = '\n' <;> simp [hx]

theorem follows_print (c : Client) (line : String) : c.Follows (c.print line) := by
  refine .of_event (e := .status line) rfl ?_ rfl
  show { c.view with console := appendStatus c.console line } = c.view.see (.status line)
  rw [appendStatus_eq]
  rfl

theorem follows_output (c : Client) (text : String) : c.Follows (c.output text) :=
  .of_event (e := .output text) rfl rfl rfl

theorem follows_finish (c : Client) : c.Follows c.finish := by
  rw [finish]
  split_ifs
  · exact follows_enter c .fileLoaded
  · exact .refl c

/-! ### The steps -/

theorem follows_load (c : Client) (l : Loaded) : c.Follows (c.load l) := by
  have hloaded : c.Follows
      ({ c with loaded := some l }.publish (.loaded l.image.entry l.lines.length)) :=
    .of_event rfl rfl rfl
  rw [load]
  split_ifs
  · exact hloaded.trans (follows_enter _ .fileLoaded)
  · exact hloaded

theorem follows_toggle (c : Client) (address : UInt64) : c.Follows (c.toggle address) :=
  .of_event (e := .breakpoints (c.breakpoints.toggle address).addresses) rfl rfl rfl

theorem follows_close (c : Client) : c.Follows c.close := by
  rw [close]
  split_ifs
  · exact .refl c
  · exact (follows_enter c .closed).trans (follows_print _ _)

theorem follows_update (c : Client) (values : List (Machine.Register × UInt64))
    (console : List UInt8) : c.Follows (c.update values console) := by
  have hbank : c.Follows
      ({ c with bank := c.bank.apply values }.publish (.registers (c.bank.apply values))) :=
    .of_event rfl rfl rfl
  rw [update]
  split_ifs
  · exact hbank
  · exact hbank.trans (follows_output _ _)

theorem follows_refuse (c : Client) (e : ServerError) : c.Follows (c.refuse e) := by
  cases e with
  | fault kind => exact (follows_print c _).trans (follows_finish _)
  | _ => exact follows_print c _

theorem follows_acknowledge (c : Client) (o : Opcode) : c.Follows (c.acknowledge o) := by
  cases o with
  | openSession =>
    refine Follows.trans ?_ (follows_print _ _)
    split_ifs
    · exact follows_enter c _
    · exact follows_enter c _
    · exact .refl c
  | closeSession => exact follows_close c
  | run => exact follows_enter c .running
  | resume => exact follows_enter c .running
  | stop => exact follows_finish c
  | executionFinished => exact (follows_finish c).trans (follows_print _ _)
  | _ => exact .refl c

theorem follows_receive (c : Client) (r : Reply) : c.Follows (c.receive r) := by
  rw [receive]
  split
  · exact follows_refuse c _
  · exact (follows_update c _ _).trans (follows_acknowledge _ _)
  · exact follows_acknowledge c _

theorem follows_step (c : Client) (t : Step) : c.Follows (t.apply c) := by
  cases t with
  | load l => exact follows_load c l
  | toggle address => exact follows_toggle c address
  | close => exact follows_close c
  | print line => exact follows_print c line
  | receive r => exact follows_receive c r

/-- Whatever steps lead to, the events follow. -/
theorem Leads.follows (h : c.Leads c') : c.Follows c' :=
  h.keeps (P := c.Follows) (fun c₁ t hc => hc.trans (follows_step c₁ t)) (.refl c)

/-! ### The mirror -/

/-- The events of a client tell all of its state. -/
structure Mirrors (c : Client) : Prop where
  replay : View.initial.replay c.published = c.view
  phase : (c.published.filterMap Event.phase?).getLastD .closed = c.phase
  no_repeat : (Phase.closed :: c.published.filterMap Event.phase?).IsChain (· ≠ ·)
  bank : (c.published.filterMap Event.registers?).getLastD .blank = c.bank
  breakpoints : (c.published.filterMap Event.breakpoints?).getLastD [] = c.breakpoints.addresses
  ascending : c.breakpoints.addresses.Pairwise (· < ·)
  loaded : (c.published.filterMap Event.loaded?).getLast?
    = c.loaded.map fun l => (l.image.entry, l.lines.length)
  console : c.published.foldl Event.write "" = c.console

/-- What follows a new client is mirrored. -/
theorem mirrors_of_follows (h : new.Follows c) : Mirrors c := by
  obtain ⟨es, hpub, hview, hann⟩ := h
  obtain rfl : c.published = es := hpub
  have hreplay : View.initial.replay c.published = c.view := hview.symm
  exact {
    replay := hreplay
    phase := (View.phase_replay .initial _).symm.trans (congrArg View.phase hreplay)
    no_repeat := hann
    bank := (View.bank_replay .initial _).symm.trans (congrArg View.bank hreplay)
    breakpoints :=
      (View.breakpoints_replay .initial _).symm.trans (congrArg View.breakpoints hreplay)
    ascending := c.breakpoints.ascending
    loaded := by
      have h := View.loaded_replay .initial c.published
      rw [hreplay] at h
      exact (h.trans Option.or_none).symm
    console := (View.console_replay .initial _).symm.trans (congrArg View.console hreplay) }

end Client

/-- **The events mirror the client,** after any steps in any order, and after any operations
with any answers. -/
theorem events_mirror_client :
    (∀ steps : List Step, Mirrors (Client.new.through steps)) ∧
    ∀ (link : Link) (retryInterval : Nat) (turns : List Turn),
      Mirrors ((Session.new link retryInterval).play turns).client := by
  constructor
  · intro steps
    exact mirrors_of_follows (Leads.follows ⟨steps, rfl⟩)
  · intro link retryInterval turns
    exact mirrors_of_follows (Session.leads_play (Session.new link retryInterval) turns).follows

end VmProbe
